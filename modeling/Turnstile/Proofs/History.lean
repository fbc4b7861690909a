import Mathlib
import Turnstile.Metrics

/-!
# Histories of counting

Everything that was ever counted, as a list of calls, oldest first. A history
does not forget: the ring of slots and the totals are compared with sums over it.
-/

namespace Turnstile

@[simp] theorem addUp_eq_sum (counts : List Nat) : addUp counts = counts.sum := rfl

/-- One call of the metrics: `count` events of a counter at a time. -/
structure Recording (ω : Type) where
  counter : Counter ω
  count : Nat
  time : Nat
  deriving DecidableEq, Repr

namespace Counter

variable {ω : Type} [Outcome ω]

theorem index_injective {a b : Counter ω} (h : a.index = b.index) : a = b := by
  have hv : a.index.val = b.index.val := congrArg Fin.val h
  cases a with
  | outcome o =>
    cases b with
    | outcome o' => exact congrArg outcome (Outcome.ordinal_injective hv)
    | rejection r =>
      have ho := Outcome.ordinal_lt o
      simp only [index] at hv
      omega
  | rejection r =>
    cases b with
    | outcome o =>
      have ho := Outcome.ordinal_lt o
      simp only [index] at hv
      omega
    | rejection r' =>
      simp only [index, Nat.add_left_cancel_iff] at hv
      exact congrArg rejection (Rejection.ordinal_injective hv)

theorem index_inj {a b : Counter ω} : a.index = b.index ↔ a = b :=
  ⟨index_injective, congrArg index⟩

theorem index_surjective (i : Fin (width ω)) : ∃ c : Counter ω, c.index = i := by
  obtain ⟨i, hi⟩ := i
  by_cases ho : i < Outcome.count ω
  · have hlt : i < (Outcome.variants (ω := ω)).length := ho
    refine ⟨outcome (Outcome.variants.get ⟨i, hlt⟩), Fin.ext ?_⟩
    have hget := congrArg (fun ordinals => ordinals[i]?) (Outcome.map_ordinal (ω := ω))
    simpa [index, List.getElem?_eq_getElem hlt, List.getElem?_range hlt] using hget
  · have hr : i - Outcome.count ω < Rejection.all.length := by
      have hall : Rejection.all.length = Rejection.count := rfl
      simp only [width] at hi
      omega
    have hplace : ∀ k, (Rejection.all.get k).ordinal = k := by decide
    refine ⟨rejection (Rejection.all.get ⟨i - Outcome.count ω, hr⟩), Fin.ext ?_⟩
    show Outcome.count ω + (Rejection.all.get ⟨i - Outcome.count ω, hr⟩).ordinal = i
    rw [hplace ⟨i - Outcome.count ω, hr⟩]
    exact Nat.add_sub_cancel' (Nat.not_lt.mp ho)

end Counter

abbrev History (ω : Type) := List (Recording ω)

namespace History

variable {ω : Type}

/-- The sum of the counts of the calls that meet a condition. -/
def tally (h : History ω) (meets : Recording ω → Bool) : Nat :=
  ((h.filter meets).map Recording.count).sum

@[simp] theorem tally_nil (meets : Recording ω → Bool) : tally [] meets = 0 := rfl

theorem tally_cons (e : Recording ω) (h : History ω) (meets : Recording ω → Bool) :
    tally (e :: h) meets = (if meets e then e.count else 0) + tally h meets := by
  cases hm : meets e <;> simp [tally, hm]

@[simp] theorem tally_append (h h' : History ω) (meets : Recording ω → Bool) :
    tally (h ++ h') meets = tally h meets + tally h' meets := by
  simp [tally]

theorem tally_singleton (e : Recording ω) (meets : Recording ω → Bool) :
    tally [e] meets = if meets e then e.count else 0 := by
  simp [tally_cons]

theorem tally_congr {h : History ω} {p q : Recording ω → Bool} (hpq : ∀ e ∈ h, p e = q e) :
    tally h p = tally h q := by
  rw [tally, tally, List.filter_congr hpq]

/-- A narrower condition never counts more. -/
theorem tally_le {h : History ω} {p q : Recording ω → Bool}
    (hpq : ∀ e ∈ h, p e = true → q e = true) : tally h p ≤ tally h q := by
  induction h with
  | nil => exact Nat.le_refl _
  | cons e h ih =>
    have ht := ih fun a ha => hpq a (List.mem_cons_of_mem _ ha)
    have he := hpq e List.mem_cons_self
    rw [tally_cons, tally_cons]
    cases hp : p e with
    | false => simp; omega
    | true => simp [he hp, ht]

theorem tally_eq_zero {h : History ω} {p : Recording ω → Bool} (hp : ∀ e ∈ h, p e = false) :
    tally h p = 0 := by
  have hf : h.filter p = [] := by
    rw [List.filter_eq_nil_iff]
    intro e he
    simp [hp e he]
  simp [tally, hf]

/-- Two conditions that exclude each other are counted one by one. -/
theorem tally_or {h : History ω} {p q : Recording ω → Bool}
    (hpq : ∀ e, p e = true → q e = false) :
    tally h (fun e => p e || q e) = tally h p + tally h q := by
  induction h with
  | nil => rfl
  | cons e h ih =>
    have he := hpq e
    simp only [tally_cons, ih]
    cases hp : p e <;> cases hq : q e <;> simp_all <;> omega

/-- A condition that looks for one of several values is counted value by value. -/
theorem sum_tally {κ : Type} [DecidableEq κ] {keys : List κ} (hk : keys.Nodup) (h : History ω)
    (key : Recording ω → κ) (q : Recording ω → Bool) :
    (keys.map fun k => tally h fun e => decide (key e = k) && q e).sum =
      tally h fun e => decide (key e ∈ keys) && q e := by
  induction keys with
  | nil => simp [tally]
  | cons k keys ih =>
    obtain ⟨hnot, hrest⟩ := List.nodup_cons.mp hk
    rw [List.map_cons, List.sum_cons, ih hrest, ← tally_or]
    · refine tally_congr fun e _ => ?_
      rw [← Bool.and_or_distrib_right]
      congr 1
      simp [List.mem_cons]
    · intro e he
      simp only [Bool.and_eq_true, decide_eq_true_eq] at he
      simp [he.1, hnot]

end History

namespace Metrics

variable {ω : Type} [Outcome ω]

/-- Counts what one call says. -/
def record (m : Metrics ω) (e : Recording ω) : Metrics ω := m.add e.counter e.count e.time

/-- The metrics after all calls of a history. -/
def replay (m : Metrics ω) (h : History ω) : Metrics ω := h.foldl record m

@[simp] theorem replay_nil (m : Metrics ω) : m.replay [] = m := rfl
@[simp] theorem replay_cons (m : Metrics ω) (e : Recording ω) (h : History ω) :
    m.replay (e :: h) = (m.record e).replay h := rfl

@[simp] theorem replay_append (m : Metrics ω) (h h' : History ω) :
    m.replay (h ++ h') = (m.replay h).replay h' := by
  simp [replay, List.foldl_append]

/-- A call adds to its own total, modulo the width of a word, and to no other. -/
theorem total_add [DecidableEq ω] (m : Metrics ω) (c c' : Counter ω) (n now : Nat) :
    (m.add c n now).total c' = (m.total c' + if c = c' then n else 0) % UInt64.size := by
  by_cases h : c = c'
  · subst h
    simp [total, add, Slot.bump]
  · have hi : c.index.val ≠ c'.index.val := fun he => h (Counter.index_injective (Fin.ext he))
    have hlt : m.totals[c'.index.val].toNat < UInt64.size := UInt64.toNat_lt _
    simp only [total, add, Slot.bump, h, if_false, Nat.add_zero]
    simp only [Fin.getElem_fin]
    rw [Vector.getElem_set_ne _ _ hi, Nat.mod_eq_of_lt hlt]

end Metrics

end Turnstile
