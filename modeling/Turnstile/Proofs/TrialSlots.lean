import Turnstile.Proofs.PermitBalance
import Turnstile.Proofs.Pledges
import Turnstile.Proofs.TrialCalls

/-!
# Trial calls that never ran

An open circuit lets one trial call through for each back-off time. A breaker keeps no account of
its grants, so a grant that comes to nothing is not taken back from it: the trial call counts as
made. This is all that a refused request leaves behind on a rail. The pools get everything back,
and the breakers that did not grant, or did not grant a trial call, are as they were.
-/

namespace Turnstile

namespace Breaker

variable {b : Breaker} {now : Nat}

/-- Whatever is done to both of them from now on, two breakers answer every request alike. -/
def AnswersAlike (ω : Type) [Outcome ω] (b b' : Breaker) : Prop :=
  ∀ (moves : List (Move ω)) (now : Nat),
    ((b.after moves).ask now).answer = ((b'.after moves).ask now).answer

/-- An open circuit that grants remembers the trial call. -/
theorem allow_trial (hopen : b.state = .opened) (granted : (b.allow now).1 = none) :
    (b.allow now).2 = { b with lastTested := millisOf now } :=
  (ask_due hopen ((ask_admits_iff hopen now).mp granted)).2

/-- A trial call is the only grant that a breaker remembers. -/
theorem allow_eq_self_iff (granted : (b.allow now).1 = none) :
    (b.allow now).2 = b ↔ (b.state = .opened → b.lastTested = millisOf now) := by
  cases hs : b.state with
  | closed => simp [allow, hs]
  | forcedOpen => simp [allow, hs] at granted
  | opened =>
    rw [allow_trial hs granted]
    constructor
    · intro h _
      rw [← h]
    · intro h
      rw [← h rfl]

/-- After a trial call the circuit admits nothing until the back-off time has passed again. -/
theorem ask_after_trial (hopen : b.state = .opened) (granted : (b.allow now).1 = none) {t : Nat}
    (fits : t < UInt64.size) :
    ((b.allow now).2.ask t).answer = none ↔ millisOf now + b.backOff ≤ millisOf t := by
  have hstill : (b.allow now).2.state = .opened := by rw [state_allow, hopen]
  rw [ask_admits_iff hstill, trialDue_iff _ fits, backOff_allow, allow_trial hopen granted]

/-- A breaker that has granted goes on as if it had not been asked, unless that was a trial call
and not the second one in its millisecond. -/
theorem answersAlike_allow_iff (ω : Type) [Outcome ω] (fits : now < UInt64.size)
    (granted : (b.allow now).1 = none) :
    AnswersAlike ω b (b.allow now).2 ↔ (b.state = .opened → b.lastTested = millisOf now) := by
  constructor
  · intro alike hopen
    by_contra hne
    have hdue : b.lastTested + b.backOff ≤ millisOf now :=
      (trialDue_iff b fits).mp ((ask_admits_iff hopen now).mp granted)
    -- the first moment at which the trial call was due tells the two apart
    let t := (b.lastTested + b.backOff) * 1000000
    have ht : millisOf t = b.lastTested + b.backOff := Nat.mul_div_cancel _ (by decide)
    have htfits : t < UInt64.size := by
      simp only [millisOf] at hdue
      omega
    have hbefore : (b.ask t).answer = none := by
      rw [ask_admits_iff hopen, trialDue_iff b htfits, ht]
    have hafter : ((b.allow now).2.ask t).answer = none := (alike [] t).symm.trans hbefore
    rw [ask_after_trial hopen granted htfits, ht] at hafter
    omega
  · intro h moves t
    rw [(allow_eq_self_iff granted).mpr h]

end Breaker

namespace Mechanism

variable {ω : Type}

/-- A mechanism as it comes from the hands of its maker. -/
def Fresh : Mechanism ω → Prop
  | limiter l => ∃ capacity, l = .ofCapacity capacity
  | breaker b _ => ∃ config name, Breaker.ofConfig config name = .ok b
  | custom _ => False

theorem circuit?_eq_some {m : Mechanism ω} {live : Gauge} {b : Breaker}
    (h : (m.circuit? live).map Prod.fst = some b) : ∃ gauge, m = .breaker b gauge := by
  cases m with
  | breaker b' gauge =>
    cases h
    exact ⟨gauge, rfl⟩
  | limiter l => cases h
  | custom c => cases h

end Mechanism

namespace Rail

variable {ω : Type} [Outcome ω]

/-- What a refusal makes of the mechanism at each place: those before the one that refused have
granted and taken the grant back, those behind it were not asked. -/
theorem getElem?_refused (r : Rail ω) {n now : Nat} (refused : (r.acquire n now).value.1 ≠ none) :
    ∃ (first : Nat) (m : Mechanism ω), r.mechanisms[first]? = some m ∧
      (m.acquire n now).1 = (r.acquire n now).value.1 ∧
      (∀ i < first, ∀ m' : Mechanism ω, r.mechanisms[i]? = some m' →
        (m'.acquire n now).1 = none) ∧
      ∀ i, (r.acquire n now).value.2.mechanisms[i]? = (r.mechanisms[i]?).map fun m' =>
        if i < first then (m'.acquire n now).2.rollback n now
        else if i = first then (m'.acquire n now).2 else m' := by
  rcases r.acquire_cases n now with ⟨-, hv⟩ | ⟨before, m, behind, reason, hms, hall, hm, hv⟩
  · rw [hv] at refused
    exact absurd rfl refused
  · refine ⟨before.length, m, by simp [hms], by rw [hv, hm], ?_, ?_⟩
    · intro i hi m' hm'
      rw [hms, List.getElem?_append_left hi] at hm'
      exact hall m' (List.mem_of_getElem? hm')
    · intro i
      rw [hv, hms]
      rcases Nat.lt_trichotomy i before.length with hi | rfl | hi
      · simp [List.getElem?_append_left, hi]
      · simp
      · obtain ⟨k, rfl⟩ := Nat.exists_eq_add_of_lt hi
        simp [List.getElem?_append_right, Nat.add_assoc]

/-- A refused request takes no permit from any pool, and no breaker remembers it but those before
the mechanism that refused whose circuit was open. Such a breaker has made a trial call of it:
its slot is gone for the whole back-off time, and only if it had made one in the same millisecond
does it go on as if it had not been asked. -/
theorem refusal_spares_all_but_trials (r : Rail ω) {n now : Nat} (fits : now < UInt64.size)
    (refused : (r.acquire n now).value.1 ≠ none) :
    let r' := (r.acquire n now).value.2
    (∀ (i : Nat) (l : Limiter),
      r.mechanisms[i]? = some (.limiter l) ↔ r'.mechanisms[i]? = some (.limiter l)) ∧
    ∃ (first : Nat) (m : Mechanism ω), r.mechanisms[first]? = some m ∧
      (m.acquire n now).1 = (r.acquire n now).value.1 ∧
      ∀ (i : Nat) (b : Breaker) (gauge : Option Gauge),
        r.mechanisms[i]? = some (.breaker b gauge) →
        ∃ b', r'.mechanisms[i]? = some (.breaker b' gauge) ∧
          (b' = b ∨ i < first ∧ b.state = .opened ∧ b' = { b with lastTested := millisOf now }) ∧
          (b.AnswersAlike ω b' ↔ (i < first → b.state = .opened → b.lastTested = millisOf now)) ∧
          (i < first → b.state = .opened → ∀ t < UInt64.size,
            ((b'.ask t).answer = none ↔ millisOf now + b.backOff ≤ millisOf t)) := by
  intro r'
  constructor
  · intro i l
    rcases r.pools_acquire n now with ⟨hgrant, -, -⟩ | ⟨-, hpools⟩
    · exact absurd hgrant refused
    · rw [← getElem?_pools, ← getElem?_pools, hpools]
  · obtain ⟨first, m, hm, hreason, hbefore, hplace⟩ := r.getElem?_refused refused
    refine ⟨first, m, hm, hreason, fun i b gauge hb => ?_⟩
    have hi := hplace i
    rw [hb, Option.map_some] at hi
    by_cases hlt : i < first
    · have granted : (b.allow now).1 = none := hbefore i hlt _ hb
      rw [if_pos hlt] at hi
      refine ⟨(b.allow now).2, hi, ?_, ?_, ?_⟩
      · by_cases hopen : b.state = .opened
        · exact .inr ⟨hlt, hopen, Breaker.allow_trial hopen granted⟩
        · exact .inl ((Breaker.allow_eq_self_iff granted).mpr fun h => absurd h hopen)
      · rw [Breaker.answersAlike_allow_iff ω fits granted]
        exact ⟨fun h _ => h, fun h => h hlt⟩
      · intro _ hopen t ht
        exact Breaker.ask_after_trial hopen granted ht
    · -- it has refused, which it does not remember, or it was not asked
      have hsame : r'.mechanisms[i]? = some (.breaker b gauge) := by
        by_cases hfirst : i = first
        · subst hfirst
          rw [hm, Option.some.injEq] at hb
          subst hb
          obtain ⟨reason, hreason'⟩ := Option.ne_none_iff_exists'.mp refused
          rw [hreason'] at hreason
          have hkept : (b.allow now).2 = b := Breaker.allow_refused hreason
          simpa [r', Mechanism.acquire, hkept] using hi
        · simpa [r', hlt, hfirst] using hi
      refine ⟨b, hsame, .inl rfl, ⟨fun _ h => absurd h hlt, fun _ _ _ => rfl⟩, ?_⟩
      intro h
      exact absurd h hlt

/-- A refused request consumes nothing: on a rail that is put together from fresh pools and
breakers, after any requests, every pool keeps what it had and every breaker goes on as if it had
not been asked. -/
def RefusalsConsumeNothing : Prop :=
  ∀ (name : String) (config : MetricsConfig) (metrics : Metrics Status) (start : Nat),
    Metrics.ofConfig config start = .ok metrics →
    ∀ ms : List (Mechanism Status), (∀ m ∈ ms, m.Fresh) →
    ∀ (past : List (Request Status)) (n now : Nat), now < UInt64.size →
      let r := (build name metrics ms).value.after past
      let r' := (r.acquire n now).value.2
      (r.acquire n now).value.1 ≠ none →
      (∀ (i : Nat) (l : Limiter), r.mechanisms[i]? = some (.limiter l) →
        r'.mechanisms[i]? = some (.limiter l)) ∧
      ∀ (i : Nat) (b : Breaker) (gauge : Option Gauge),
        r.mechanisms[i]? = some (.breaker b gauge) →
          ∃ b', r'.mechanisms[i]? = some (.breaker b' gauge) ∧ b.AnswersAlike Status b'

/-- A circuit that opens on the first failure, before a pool of one permit and a second
circuit. -/
def doubleDoor : List (Mechanism Status) :=
  [.breaker ⟨"outer", { failureThreshold := 0, trailingPeriodMillis := 1000 }, .closed, 1000, 0,
      none, .empty⟩ none,
    .limiter (.ofCapacity 1), .breaker ⟨"inner", {}, .closed, 1000, 0, none, .empty⟩ none]

def doubleDoorMetrics : Metrics Status :=
  ⟨.create _ 10 100000000 0 (by decide) (by decide), .replicate _ 0⟩

/-- A permit is used and fails at the start. -/
def doubleDoorRun : List (Request Status) := [.acquire 1 0, .release 1 .error 0]

/-- The rail after that. -/
def doubleDoorOpen : Rail Status :=
  (build "rail" doubleDoorMetrics doubleDoor).value.after doubleDoorRun

/-- The outer circuit of this rail. -/
def outerOpen : Breaker :=
  ⟨"outer", { failureThreshold := 0, trailingPeriodMillis := 1000 }, .opened, 1000, 0, some 0,
    ⟨1, 1, 1, 0⟩⟩

theorem outer_doubleDoorOpen :
    ∃ gauge, doubleDoorOpen.mechanisms[0]? = some (.breaker outerOpen gauge) := by
  have houter : (doubleDoorOpen.mechanisms[0]?).bind
      (fun m => (m.circuit? Gauge.idle).map Prod.fst) = some outerOpen := by
    decide +kernel
  obtain ⟨m, hm, hcircuit⟩ := Option.bind_eq_some_iff.mp houter
  obtain ⟨gauge, rfl⟩ := Mechanism.circuit?_eq_some hcircuit
  exact ⟨gauge, hm⟩

theorem refused_doubleDoorOpen :
    (doubleDoorOpen.acquire 2 1000000000).value.1 = some .maxConcurrencyLevelExceeded := by
  decide +kernel

/-- A request for two permits takes the trial call of the open circuit and then fails for want of
permits; the slot is gone for a second. -/
theorem refusal_spares_all_but_trials_doubleDoor :
    1000000000 < UInt64.size ∧ (doubleDoorOpen.acquire 2 1000000000).value.1 ≠ none ∧
    ∃ b gauge, (doubleDoorOpen.acquire 2 1000000000).value.2.mechanisms[0]? =
        some (.breaker b gauge) ∧
      ¬ outerOpen.AnswersAlike Status b ∧ (b.ask 1999000000).answer ≠ none ∧
      (b.ask 2000000000).answer = none := by
  have fits : 1000000000 < UInt64.size := by decide
  have refused : (doubleDoorOpen.acquire 2 1000000000).value.1 ≠ none := by
    simp [refused_doubleDoorOpen]
  obtain ⟨gauge, houter⟩ := outer_doubleDoorOpen
  obtain ⟨-, first, m, hm, hreason, hbreakers⟩ :=
    refusal_spares_all_but_trials doubleDoorOpen fits refused
  have hfirst : 0 < first := by
    -- the outer circuit has granted
    rcases Nat.eq_zero_or_pos first with rfl | hpos
    · rw [houter, Option.some.injEq] at hm
      subst hm
      rw [refused_doubleDoorOpen] at hreason
      cases hreason
    · exact hpos
  obtain ⟨b, hb, -, halike, hslot⟩ := hbreakers 0 outerOpen gauge houter
  refine ⟨fits, refused, b, gauge, hb, ?_, ?_, ?_⟩
  · intro alike
    exact absurd (halike.mp alike hfirst rfl) (by decide)
  · rw [Ne, hslot hfirst rfl 1999000000 (by decide)]
    decide
  · rw [hslot hfirst rfl 2000000000 (by decide)]
    decide

/-- The trial call goes to a request that is refused, and the next one, which could have been
admitted, finds the circuit open. -/
theorem refusal_loses_trial : ¬ RefusalsConsumeNothing := by
  intro hnothing
  have fresh : ∀ m ∈ doubleDoor, m.Fresh := by
    simp only [doubleDoor, List.forall_mem_cons, List.not_mem_nil, false_implies, implies_true,
      and_true, Mechanism.Fresh]
    exact ⟨⟨outerOpen.config, "outer", rfl⟩, ⟨1, rfl⟩, ⟨{}, "inner", rfl⟩⟩
  have refused : (doubleDoorOpen.acquire 2 1000000000).value.1 ≠ none := by
    simp [refused_doubleDoorOpen]
  obtain ⟨gauge, houter⟩ := outer_doubleDoorOpen
  obtain ⟨-, hbreakers⟩ := hnothing "rail" ⟨10, 100⟩ doubleDoorMetrics 0 rfl doubleDoor fresh
    doubleDoorRun 2 1000000000 (by decide) refused
  obtain ⟨b, hb, alike⟩ := hbreakers 0 outerOpen gauge houter
  have hanswer : ((doubleDoorOpen.acquire 2 1000000000).value.2.mechanisms[0]?).bind (fun m =>
      (m.circuit? Gauge.idle).map fun p => (p.1.ask 1000000000).answer) =
        some (some .circuitOpen) := by
    decide +kernel
  rw [show doubleDoorOpen = (build "rail" doubleDoorMetrics doubleDoor).value.after doubleDoorRun
    from rfl, hb] at hanswer
  have hbefore : (outerOpen.ask 1000000000).answer = none := rfl
  have hafter : (b.ask 1000000000).answer = some .circuitOpen := by
    simpa [Mechanism.circuit?] using hanswer
  have hsame : (outerOpen.ask 1000000000).answer = (b.ask 1000000000).answer := alike [] _
  rw [hbefore, hafter] at hsame
  cases hsame

end Rail

end Turnstile
