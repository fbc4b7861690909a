import Turnstile.Proofs.BreakerRun
import Turnstile.Proofs.Window
import Turnstile.Rail

/-!
# The standard rail

A configuration puts a limiter before a breaker that watches the metrics of the
rail. What such a rail does with a request is said here once: a refusal leaves
limiter and breaker alone, a grant leaves the metrics alone.
-/

namespace Turnstile

namespace Rail

variable {ω : Type} [Outcome ω]

/-- The rail that a configuration builds: a limiter, then a breaker. -/
def standard (name : String) (m : Metrics ω) (l : Limiter) (b : Breaker) : Rail ω :=
  ⟨name, m, [.limiter l, .breaker b none]⟩

variable (name : String) (m : Metrics ω) (l : Limiter) (b : Breaker)

@[simp] theorem metrics_standard : (standard name m l b).metrics = m := rfl
@[simp] theorem limiter?_standard : (standard name m l b).limiter? = some l := rfl
@[simp] theorem breaker?_standard : (standard name m l b).breaker? = some (b, m.health) := rfl
@[simp] theorem setBreaker_standard (b' : Breaker) :
    (standard name m l b).setBreaker b' = standard name m l b' := rfl

/-- Everything that asking for permits can come to. -/
theorem acquire_standard (n now : Nat) :
    (∃ reason, ((standard name m l b).acquire n now).value =
        (some reason, standard name (m.add (.rejection reason) n now) l b)) ∨
    ∃ l', l.acquire? n = some l' ∧ (b.allow now).1 = none ∧
      ((standard name m l b).acquire n now).value =
        (none, standard name m l' (b.allow now).2) := by
  cases hl : l.acquire? n with
  | none =>
    left
    refine ⟨.maxConcurrencyLevelExceeded, ?_⟩
    simp [acquire, acquireAll, standard, Mechanism.acquire, hl, count, Traced.map_value]
  | some l' =>
    cases hb : (b.allow now).1 with
    | some reason =>
      -- the limiter has granted already and takes everything back
      left
      have hsame := Breaker.allow_refused hb
      have hback := Limiter.release_acquire? hl
      refine ⟨reason, ?_⟩
      simp [acquire, acquireAll, standard, Mechanism.acquire, Mechanism.rollback, hl, hb, hsame,
        hback, count, Traced.map_value]
    | none =>
      right
      refine ⟨l', rfl, rfl, ?_⟩
      simp [acquire, acquireAll, standard, Mechanism.acquire, hl, hb, Traced.map_value]

/-- An outcome is counted before the breaker hears of it. -/
theorem release_standard (n : Nat) (o : ω) (now : Nat) :
    ((standard name m l b).release n o now).value =
      standard name (m.add (.outcome o) n now) (l.release n)
        (b.inform (m.add (.outcome o) n now).health o now) := rfl

theorem releaseUnused_standard (n now : Nat) :
    ((standard name m l b).releaseUnused n now).value =
      standard name m (l.release n) b := rfl

/-- A faultless configuration builds a standard rail with empty metrics. -/
theorem ofConfig_standard [DecidableEq ω] (name : String) {config : RailConfig}
    (valid : config.fault? = none) (start : Nat) :
    ∃ (m : Metrics ω) (built : Report ω (Rail ω)),
      ofConfig name config start = .ok built ∧ m.Fresh config.metrics start ∧
      built.value = standard name m (.ofCapacity config.maxConcurrency)
        ⟨name, config.breaker, .closed, config.breaker.backOffTimeMillis, 0, none, .empty⟩ := by
  obtain ⟨hbreaker, hmetrics, -⟩ := RailConfig.fault?_eq_none_iff.mp valid
  obtain ⟨m, hm, hfresh⟩ := Metrics.ofConfig_fresh (ω := ω) hmetrics start
  refine ⟨m, build name m [.limiter (.ofCapacity config.maxConcurrency),
    .breaker ⟨name, config.breaker, .closed, config.breaker.backOffTimeMillis, 0, none, .empty⟩
      none], ?_, hfresh, rfl⟩
  simp only [ofConfig, valid, hm, Breaker.ofConfig, hbreaker]
  rfl

end Rail

end Turnstile
