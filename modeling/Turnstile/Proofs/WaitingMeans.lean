import Mathlib.Logic.Function.Basic
import Turnstile.Script.Notify

/-!
# What the means of waiting are relied on for

The laws speak of where each future stands and of who holds the lock. Whoever is on the list is
notified, and the waker of whoever was polled in vain is called once; the lock is given to one
thread at a time, and whoever sleeps on the condition when all are woken wakes up.
-/

namespace Turnstile

open Function (update eq_update_iff)

/-- A notification, given where the futures stand. An operation on one of them leaves the others
alone. A future that is not on the list yet may be notified, too. -/
structure Notify.Lawful (N : Notify) (standing : N.State → Nat → Notify.Standing) : Prop where
  idle : ∀ i, standing N.idle i = .absent
  listen : ∀ s i, standing s i = .absent →
    standing (N.listen s i) = update (standing s) i .created
  enable : ∀ s i, standing s i = .created →
    standing (N.enable s i) = update (standing s) i .enabled
  enable_notified : ∀ s i, standing s i = .notified → standing (N.enable s i) = standing s
  poll : ∀ s i, standing s i = .enabled ∨ standing s i = .waiting →
    (N.poll s i).1 = false ∧ standing (N.poll s i).2 = update (standing s) i .waiting
  poll_notified : ∀ s i, standing s i = .notified →
    (N.poll s i).1 = true ∧ standing (N.poll s i).2 = standing s
  drop : ∀ s i, standing (N.drop s i) = update (standing s) i .absent
  calls : ∀ s i, (N.ring s).1 i = if standing s i = .waiting then 1 else 0
  ring : ∀ s i, standing (N.ring s).2 i = (standing s i).ring ∨
    standing s i = .created ∧ standing (N.ring s).2 i = .created

/-- A lock with its condition, given who holds the lock. -/
structure Monitor.Lawful (M : Monitor) (holder : M.State → Option (Option Nat)) : Prop where
  idle : holder M.idle = none
  idle_awake : ∀ i, M.asleep M.idle i = false
  lock_free : ∀ s thread, holder s = none →
    ∃ s', M.lock? s thread = some s' ∧ holder s' = some thread ∧ M.asleep s' = M.asleep s
  lock_held : ∀ s thread, holder s ≠ none → M.lock? s thread = none
  unlock : ∀ s, holder (M.unlock s) = none ∧ M.asleep (M.unlock s) = M.asleep s
  sleep : ∀ s i, holder (M.sleep s i) = none ∧
    M.asleep (M.sleep s i) = update (M.asleep s) i true
  rouse : ∀ s i, holder (M.rouse s i) = holder s ∧
    M.asleep (M.rouse s i) = update (M.asleep s) i false
  notifyAll : ∀ s, holder (M.notifyAll s) = holder s ∧ ∀ i, M.asleep (M.notifyAll s) i = false

theorem Notify.plain_lawful : Notify.plain.Lawful fun s => s where
  idle _ := rfl
  listen s i _ := eq_update_iff.mpr ⟨if_pos rfl, fun _ hj => if_neg hj⟩
  enable s i h := eq_update_iff.mpr ⟨if_pos ⟨rfl, h⟩, fun _ hj => if_neg fun hj' => hj hj'.1⟩
  enable_notified s i h := by
    funext j
    refine if_neg ?_
    rintro ⟨rfl, hj⟩
    simp [h] at hj
  poll s i h := by
    have hi : s i ≠ .notified := by rcases h with h | h <;> simp [h]
    exact ⟨decide_eq_false hi, eq_update_iff.mpr
      ⟨if_pos ⟨rfl, hi⟩, fun _ hj => if_neg fun hj' => hj hj'.1⟩⟩
  poll_notified s i h := by
    refine ⟨decide_eq_true h, ?_⟩
    funext j
    refine if_neg ?_
    rintro ⟨rfl, hj⟩
    exact hj h
  drop s i := eq_update_iff.mpr ⟨if_pos rfl, fun _ hj => if_neg hj⟩
  calls _ _ := rfl
  ring _ _ := .inl rfl

theorem Monitor.plain_lawful : Monitor.plain.Lawful Prod.fst where
  idle := rfl
  idle_awake _ := rfl
  lock_free s thread h := ⟨_, if_pos h, rfl, rfl⟩
  lock_held s thread h := if_neg h
  unlock _ := ⟨rfl, rfl⟩
  sleep s i := by
    refine ⟨rfl, eq_update_iff.mpr ⟨?_, fun j hj => ?_⟩⟩ <;> simp [plain, *]
  rouse s i := by
    refine ⟨rfl, eq_update_iff.mpr ⟨?_, fun j hj => ?_⟩⟩ <;> simp [plain, *]
  notifyAll s := ⟨rfl, fun _ => rfl⟩

end Turnstile
