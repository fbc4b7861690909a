import Mathlib.Data.List.TakeWhile
import Turnstile.Timer

/-!
# The queue of a timer service

The queue is kept in the order in which its entries expire, so that what is due stands in
front and all that is left behind it is still to come.
-/

namespace Turnstile

namespace TimerEntry

variable {α : Type}

/-- Nobody waits behind an entry that comes later. -/
def Ordered (queue : List (TimerEntry α)) : Prop :=
  queue.Pairwise fun a b => b.before a = false

theorem before_eq_false_iff {a b : TimerEntry α} :
    b.before a = false ↔ a.deadline < b.deadline ∨ a.deadline = b.deadline ∧ a.seq ≤ b.seq := by
  simp only [before, Bool.or_eq_false_iff, Bool.and_eq_false_imp, decide_eq_false_iff_not,
    decide_eq_true_eq]
  omega

theorem insert_perm (e : TimerEntry α) (queue : List (TimerEntry α)) :
    (insert e queue).Perm (e :: queue) := by
  induction queue with
  | nil => exact .refl _
  | cons x queue ih =>
    unfold insert
    split
    · exact .refl _
    · exact (ih.cons x).trans (.swap e x queue)

theorem Ordered.insert {queue : List (TimerEntry α)} (h : Ordered queue) (e : TimerEntry α) :
    Ordered (insert e queue) := by
  induction queue with
  | nil => exact List.pairwise_singleton _ _
  | cons x queue ih =>
    obtain ⟨hx, hq⟩ := List.pairwise_cons.mp h
    unfold TimerEntry.insert
    split
    · rename_i hex
      refine List.pairwise_cons.mpr ⟨fun y hy => ?_, h⟩
      have hxe : x.before e = false := by
        simp only [before, Bool.or_eq_true, Bool.and_eq_true, decide_eq_true_eq] at hex
        rw [before_eq_false_iff]
        omega
      rcases List.mem_cons.mp hy with rfl | hy
      · exact hxe
      · have hxy := hx y hy
        rw [before_eq_false_iff] at hxe hxy ⊢
        omega
    · rename_i hex
      refine List.pairwise_cons.mpr ⟨fun y hy => ?_, ih hq⟩
      rcases mem_insert hy with rfl | hy
      · simpa using hex
      · exact hx y hy

end TimerEntry

namespace TimerService

open TimerEntry (Ordered)

variable {α : Type} {s : TimerService α} {now : Nat}

theorem ordered_look (h : Ordered s.queue) (now : Nat) : Ordered (s.look now).queue :=
  List.Pairwise.sublist (List.dropWhile_sublist _) h

/-- What stays in the queue when the thread looks at the clock is still to come. -/
theorem lt_of_mem_look (h : Ordered s.queue) {e : TimerEntry α} (he : e ∈ (s.look now).queue) :
    now < e.deadline := by
  have hleft := ordered_look h now
  revert he hleft
  rw [look]
  cases hq : s.queue.dropWhile fun e => decide (e.deadline ≤ now) with
  | nil =>
    intro he
    cases he
  | cons x rest =>
    intro he hleft
    -- the first entry left is later than `now`, and nobody behind it is earlier
    have hx : now < x.deadline := by
      have := List.head?_dropWhile_not (fun e : TimerEntry α => decide (e.deadline ≤ now)) s.queue
      rw [hq] at this
      simpa using this
    rcases List.mem_cons.mp he with rfl | he
    · exact hx
    · have := (List.pairwise_cons.mp hleft).1 e he
      rw [TimerEntry.before_eq_false_iff] at this
      omega

/-- Nothing is about to be fired, the queue is in order, and only a thread that takes tasks keeps
any. -/
structure Tidy (s : TimerService α) : Prop where
  ordered : Ordered s.queue
  idle : s.due = []
  stopped : s.running = false → s.queue = []
  dead : s.crashed = true → s.running = false

/-- A service at rest: all that it keeps is still to come. -/
structure AtRest (s : TimerService α) (now : Nat) : Prop extends s.Tidy where
  later : ∀ e ∈ s.queue, now < e.deadline

theorem Tidy.start (h : s.Tidy) : s.start.Tidy := by
  unfold TimerService.start
  split
  · exact h
  · rename_i hoff
    have halive : s.crashed = false := by
      simp only [isRunning, Bool.not_eq_true, Bool.or_eq_false_iff] at hoff
      exact hoff.2
    exact ⟨h.ordered, h.idle, nofun, fun hdead => absurd (halive.symm.trans hdead) nofun⟩

theorem AtRest.shutdown (s : TimerService α) (now : Nat) : s.shutdown.AtRest now :=
  ⟨⟨.nil, rfl, fun _ => rfl, nofun⟩, nofun⟩

theorem AtRest.crash (s : TimerService α) (now : Nat) : s.crash.AtRest now :=
  ⟨⟨.nil, rfl, fun _ => rfl, fun _ => rfl⟩, nofun⟩

theorem Tidy.draw (h : s.Tidy) (nextSeq : Nat) : ({ s with nextSeq := nextSeq } :
    TimerService α).Tidy := ⟨h.ordered, h.idle, h.stopped, h.dead⟩

/-- A thread that takes tasks can take any. -/
theorem Tidy.insert (h : s.Tidy) (running : s.running = true) (e : TimerEntry α) (nextSeq : Nat) :
    ({ s with nextSeq := nextSeq, queue := TimerEntry.insert e s.queue } :
      TimerService α).Tidy where
  ordered := h.ordered.insert e
  idle := h.idle
  stopped := fun hstop => absurd running (by simpa using hstop)
  dead := h.dead

/-- When all that had expired is fired, the service is at rest. -/
theorem Tidy.look (h : s.Tidy) (now : Nat) :
    ({ s.look now with due := [] } : TimerService α).AtRest now where
  ordered := ordered_look h.ordered now
  idle := rfl
  stopped := fun hstop => by
    have hqueue := h.stopped hstop
    simp [TimerService.look, hqueue]
  dead := h.dead
  later := fun _ he => lt_of_mem_look h.ordered he

end TimerService

end Turnstile
