import Turnstile.Rail

/-!
# Asking and telling every mechanism

What becomes of a list of mechanisms of any kind when a rail goes through it. A
refusal divides the list: what stands before it has granted and rolled back, what
stands behind it was never asked.
-/

namespace Turnstile

namespace Rail

variable {ω : Type}

/-- Everything that asking a list of mechanisms can come to. -/
theorem acquireAll_cases (n now index : Nat) (ms : List (Mechanism ω)) :
    ((∀ m ∈ ms, (m.acquire n now).1 = none) ∧
      (acquireAll n now index ms).value = (none, ms.map fun m => (m.acquire n now).2)) ∨
    ∃ before m behind reason, ms = before ++ m :: behind ∧
      (∀ m' ∈ before, (m'.acquire n now).1 = none) ∧ (m.acquire n now).1 = some reason ∧
      (acquireAll n now index ms).value =
        (some reason, (before.map fun m' => (m'.acquire n now).2.rollback n now) ++
          (m.acquire n now).2 :: behind) := by
  induction ms generalizing index with
  | nil =>
    left
    simp [acquireAll]
  | cons m rest ih =>
    cases hm : (m.acquire n now).1 with
    | some reason =>
      right
      refine ⟨[], m, rest, reason, rfl, by simp, hm, ?_⟩
      simp [acquireAll, hm, Traced.map_value]
    | none =>
      rcases ih (index + 1) with ⟨hall, hv⟩ | ⟨before, m', behind, reason, hms, hall, hm', hv⟩
      · left
        refine ⟨by simpa [hm] using hall, ?_⟩
        simp [acquireAll, hm, hv]
      · right
        refine ⟨m :: before, m', behind, reason, by rw [hms, List.cons_append], ?_, hm', ?_⟩
        · simpa [hm] using hall
        · simp [acquireAll, hm, hv, Traced.map_value]

theorem rollbackAll_eq (n now index : Nat) (ms : List (Mechanism ω)) :
    (rollbackAll n now index ms).value = ms.map fun m => m.rollback n now := by
  induction ms generalizing index with
  | nil => rfl
  | cons m rest ih => simp [rollbackAll, ih, Traced.map_value]

variable [Outcome ω]

theorem releaseAll_eq (live : Gauge) (n : Nat) (o : ω) (now index : Nat)
    (ms : List (Mechanism ω)) :
    (releaseAll live n o now index ms).value = ms.map fun m => m.release live n o now := by
  induction ms generalizing index with
  | nil => rfl
  | cons m rest ih => simp [releaseAll, ih, Traced.map_value]

/-- Everything that asking a rail can come to. -/
theorem acquire_cases (r : Rail ω) (n now : Nat) :
    ((∀ m ∈ r.mechanisms, (m.acquire n now).1 = none) ∧
      (r.acquire n now).value =
        (none, { r with mechanisms := r.mechanisms.map fun m => (m.acquire n now).2 })) ∨
    ∃ before m behind reason, r.mechanisms = before ++ m :: behind ∧
      (∀ m' ∈ before, (m'.acquire n now).1 = none) ∧ (m.acquire n now).1 = some reason ∧
      (r.acquire n now).value =
        (some reason, { r with
          metrics := r.metrics.add (.rejection reason) n now
          mechanisms := (before.map fun m' => (m'.acquire n now).2.rollback n now) ++
            (m.acquire n now).2 :: behind }) := by
  rcases acquireAll_cases n now 0 r.mechanisms with
    ⟨hall, hv⟩ | ⟨before, m, behind, reason, hms, hall, hm, hv⟩
  · left
    refine ⟨hall, ?_⟩
    simp [acquire, hv]
  · right
    refine ⟨before, m, behind, reason, hms, hall, hm, ?_⟩
    simp [acquire, hv, count, Traced.map_value]

theorem mechanisms_releaseUnused (r : Rail ω) (n now : Nat) :
    (r.releaseUnused n now).value.mechanisms = r.mechanisms.map fun m => m.rollback n now := by
  simp [releaseUnused, rollbackAll_eq, Traced.map_value]

/-- The breakers that watch the rail see the outcome counted already. -/
theorem mechanisms_release (r : Rail ω) (n : Nat) (o : ω) (now : Nat) :
    (r.release n o now).value.mechanisms =
      r.mechanisms.map fun m => m.release (r.metrics.add (.outcome o) n now).health n o now := by
  simp [release, releaseAll_eq, count, Traced.map_value]

end Rail

end Turnstile
