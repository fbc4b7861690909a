import Turnstile.Proofs.RailRun
import Turnstile.Proofs.Traversal

/-!
# The balance of permits

Whatever mechanisms a rail is made of, each of its pools has lent out exactly the
permits that were granted and have not come back. A refusal leaves every pool as it
was, from wherever in the list it came.
-/

namespace Turnstile

/-- The permits that a request gives back. -/
def Request.returned? {ω : Type} : Request ω → Option Nat
  | .acquire _ _ => none
  | .rollback n _ => some n
  | .release n _ _ => some n

namespace Mechanism

variable {ω : Type} {m : Mechanism ω} {n now : Nat}

/-- The pool of permits that a mechanism is, if it is one. -/
def pool? : Mechanism ω → Option Limiter
  | limiter l => some l
  | breaker _ _ => none
  | custom _ => none

theorem pool?_eq_some {l : Limiter} : m.pool? = some l ↔ m = .limiter l := by
  cases m <;> simp [pool?]

/-- A pool that grants has taken the permits out. -/
theorem pool?_granted (h : (m.acquire n now).1 = none) :
    (m.acquire n now).2.pool? = m.pool?.bind (·.acquire? n) := by
  cases m with
  | limiter l => cases hl : l.acquire? n <;> simp [acquire, pool?, hl] at h ⊢
  | breaker b gauge => rfl
  | custom c => rfl

theorem pool?_refused {reason : Rejection} (h : (m.acquire n now).1 = some reason) :
    (m.acquire n now).2.pool? = m.pool? := by
  cases m with
  | limiter l => cases hl : l.acquire? n <;> simp [acquire, pool?, hl] at h ⊢
  | breaker b gauge => rfl
  | custom c => rfl

/-- Rolling a grant back restores the pool. -/
theorem pool?_rolledBack (h : (m.acquire n now).1 = none) :
    ((m.acquire n now).2.rollback n now).pool? = m.pool? := by
  cases m with
  | limiter l =>
    cases hl : l.acquire? n with
    | none => simp [acquire, hl] at h
    | some l' => simp [acquire, rollback, pool?, hl, Limiter.release_acquire? hl]
  | breaker b gauge => rfl
  | custom c => rfl

theorem pool?_rollback (m : Mechanism ω) (n now : Nat) :
    (m.rollback n now).pool? = m.pool?.map (·.release n) := by
  cases m <;> rfl

theorem pool?_release [Outcome ω] (m : Mechanism ω) (live : Gauge) (n : Nat) (o : ω)
    (now : Nat) : (m.release live n o now).pool? = m.pool?.map (·.release n) := by
  cases m <;> rfl

end Mechanism

namespace Rail

variable {ω : Type} [Outcome ω]

/-- The pools among the mechanisms, each at its place. -/
def pools (r : Rail ω) : List (Option Limiter) := r.mechanisms.map Mechanism.pool?

theorem getElem?_pools {r : Rail ω} {i : Nat} {l : Limiter} :
    r.pools[i]? = some (some l) ↔ r.mechanisms[i]? = some (.limiter l) := by
  simp only [pools, List.getElem?_map, Option.map_eq_some_iff, Mechanism.pool?_eq_some]
  constructor
  · rintro ⟨m, hm, rfl⟩
    exact hm
  · intro h
    exact ⟨_, h, rfl⟩

theorem mem_pools {r : Rail ω} {l : Limiter} :
    some l ∈ r.pools ↔ Mechanism.limiter l ∈ r.mechanisms := by
  simp only [List.mem_iff_getElem?, getElem?_pools]

/-- Everything that a request can do to the pools. -/
theorem pools_acquire (r : Rail ω) (n now : Nat) :
    ((r.acquire n now).value.1 = none ∧ (∀ l, some l ∈ r.pools → (l.acquire? n).isSome) ∧
      (r.acquire n now).value.2.pools = r.pools.map (·.bind (·.acquire? n))) ∨
    ((r.acquire n now).value.1.isSome ∧ (r.acquire n now).value.2.pools = r.pools) := by
  rcases r.acquire_cases n now with ⟨hall, hv⟩ | ⟨before, m, behind, reason, hms, hall, hm, hv⟩
  · left
    refine ⟨by rw [hv], ?_, ?_⟩
    · intro l hl
      have hgranted := hall _ (mem_pools.mp hl)
      cases hl' : l.acquire? n with
      | none => simp [Mechanism.acquire, hl'] at hgranted
      | some l' => rfl
    · simp only [hv, pools, List.map_map]
      exact List.map_congr_left fun m hm => Mechanism.pool?_granted (hall m hm)
  · right
    refine ⟨by simp [hv], ?_⟩
    have hback : (before.map fun m' => (m'.acquire n now).2.rollback n now).map
        Mechanism.pool? = before.map Mechanism.pool? := by
      rw [List.map_map]
      exact List.map_congr_left fun m' hm' => Mechanism.pool?_rolledBack (hall m' hm')
    simp [hv, pools, hms, hback, Mechanism.pool?_refused hm]

theorem pools_rollback (r : Rail ω) (n now : Nat) :
    (r.serve (.rollback n now)).pools = r.pools.map (Option.map (·.release n)) := by
  simp only [serve, pools, mechanisms_releaseUnused, List.map_map]
  exact List.map_congr_left fun m _ => m.pool?_rollback n now

theorem pools_release (r : Rail ω) (n : Nat) (o : ω) (now : Nat) :
    (r.serve (.release n o now)).pools = r.pools.map (Option.map (·.release n)) := by
  simp only [serve, pools, mechanisms_release, List.map_map]
  exact List.map_congr_left fun m _ => m.pool?_release _ n o now

/-- The permits in hand after a request, one entry for each grant. -/
def holding (r : Rail ω) (held : List Nat) : Request ω → List Nat
  | .acquire n now => if (r.acquire n now).value.1 = none then n :: held else held
  | .rollback n _ => held.erase n
  | .release n _ _ => held.erase n

/-- The permits in hand after a run: granted and not given back. -/
def outstanding (r : Rail ω) (held : List Nat) : List (Request ω) → List Nat
  | [] => held
  | q :: past => (r.serve q).outstanding (r.holding held q) past

/-- Whatever is given back in a run is a grant in hand. -/
def Matched (r : Rail ω) (held : List Nat) : List (Request ω) → Prop
  | [] => True
  | q :: past => (∀ n ∈ q.returned?, n ∈ held) ∧ (r.serve q).Matched (r.holding held q) past

instance decidableMatched (r : Rail ω) (held : List Nat) :
    (past : List (Request ω)) → Decidable (r.Matched held past)
  | [] => inferInstanceAs (Decidable True)
  | q :: past =>
    have := decidableMatched (r.serve q) (r.holding held q) past
    inferInstanceAs (Decidable (_ ∧ _))

/-- Every pool has lent out what is in hand. -/
def Balances (r : Rail ω) (held : List Nat) : Prop :=
  ∀ l, some l ∈ r.pools → l.inFlight = held.sum

theorem Balances.giveBack {r r' : Rail ω} {held : List Nat} (h : r.Balances held) {n : Nat}
    (hn : n ∈ held) (hpools : r'.pools = r.pools.map (Option.map (·.release n))) :
    r'.Balances (held.erase n) := by
  intro l' hl'
  rw [hpools] at hl'
  obtain ⟨p, hp, hlp⟩ := List.mem_map.mp hl'
  obtain ⟨l, rfl, rfl⟩ := Option.map_eq_some_iff.mp hlp
  have hsum := List.sum_erase hn
  rw [Limiter.inFlight_release, h l hp]
  omega

/-- One request: what is granted is lent out, what is refused is not. -/
theorem Balances.serve {r : Rail ω} {held : List Nat} (h : r.Balances held) (q : Request ω)
    (matched : ∀ n ∈ q.returned?, n ∈ held) : (r.serve q).Balances (r.holding held q) := by
  cases q with
  | acquire n now =>
    rcases r.pools_acquire n now with ⟨hgrant, -, hpools⟩ | ⟨hrefuse, hpools⟩
    · intro l' hl'
      simp only [Rail.serve, hpools] at hl'
      obtain ⟨p, hp, hlp⟩ := List.mem_map.mp hl'
      obtain ⟨l, rfl, htake⟩ := Option.bind_eq_some_iff.mp hlp
      rw [Limiter.inFlight_acquire? htake, h l hp, holding, if_pos hgrant, List.sum_cons,
        Nat.add_comm]
    · have hne : (r.acquire n now).value.1 ≠ none := Option.isSome_iff_ne_none.mp hrefuse
      rw [holding, if_neg hne]
      intro l hl
      rw [Rail.serve, hpools] at hl
      exact h l hl
  | rollback n now => exact h.giveBack (matched n rfl) (r.pools_rollback n now)
  | release n o now => exact h.giveBack (matched n rfl) (r.pools_release n o now)

/-- A run of requests. -/
theorem Balances.after {r : Rail ω} {held : List Nat} (h : r.Balances held)
    {past : List (Request ω)} (matched : r.Matched held past) :
    (r.after past).Balances (r.outstanding held past) := by
  induction past generalizing r held with
  | nil => exact h
  | cons q past ih =>
    obtain ⟨hq, hpast⟩ := matched
    exact ih (h.serve q hq) hpast

end Rail

end Turnstile
