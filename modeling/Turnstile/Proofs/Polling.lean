import Turnstile.Proofs.SessionRun
import Turnstile.Proofs.WaitingMeans

/-!
# Waiters that are polled

A waiter is on the list of the notification before it looks for the value. So if it looks in vain it
is notified later on, and if it was polled in vain its waker is called then, and only then. A poll
is over after at most seven steps of its waiter, whatever happens in between.
-/

namespace Turnstile

open Function (update)
open Notify (Standing)

variable {ω : Type}

/-- Where the future of a waiter can stand. -/
def Stage.Fits (announced : Bool) (st : Standing) : Stage → Prop
  | .top | .returned => st = .absent
  | .created => st = .created ∨ announced = true ∧ st = .notified
  | .enabled => st = .enabled ∨ announced = true ∧ st = .notified
  | .checked => if announced = true then st = .notified else st = .enabled ∨ st = .waiting

/-- The waiter was polled in vain. -/
def Waiter.vain (w : Waiter ω) : Bool := w.answers.any Option.isNone

@[simp] theorem Waiter.vain_answer (w : Waiter ω) (a : Option (Settled ω)) :
    (w.answer a).vain = (w.vain || a.isNone) := by
  simp [vain, answer]

/-- What has been answered stays. -/
theorem Waiter.answers_work (w : Waiter ω) (N : Notify) (value : Option (Settled ω)) (i : Nat)
    (n : N.State) : w.answers <+: (w.work N value i n).2.answers := by
  unfold work
  split
  · exact List.prefix_rfl
  · exact List.prefix_rfl
  · split
    · exact List.prefix_append _ _
    · exact List.prefix_rfl
  · split
    · exact List.prefix_rfl
    · exact List.prefix_append _ _
  · exact List.prefix_rfl

/-- What a waiter has been through. -/
structure Attended (announced : Bool) (value : Option (Settled ω)) (st : Standing)
    (w : Waiter ω) : Prop where
  fits : w.stage.Fits announced st
  busy : w.polled = true → w.stage ≠ .returned
  gone : w.stage = .returned → ∃ v, some v ∈ w.answers
  told : ∀ v, some v ∈ w.answers → value = some v
  waits : announced = false → (w.vain = true ↔ st = .waiting)
  woken : w.wakes = if announced && w.vain then 1 else 0

namespace Attended

variable {N : Notify} {standing : N.State → Nat → Standing} {announced : Bool}
  {value : Option (Settled ω)} {n : N.State} {i : Nat} {st st' : Standing} {w : Waiter ω}

theorem fresh : Attended announced value .absent ({} : Waiter ω) :=
  ⟨rfl, by simp, by simp, by simp, by simp [Waiter.vain], by simp [Waiter.vain]⟩

theorem value_mono (h : Attended announced value st w) {value' : Option (Settled ω)}
    (stays : ∀ v, value = some v → value' = some v) : Attended announced value' st w :=
  { h with told := fun v hv => stays v (h.told v hv) }

theorem poll (h : Attended announced value st w) : Attended announced value st w.poll :=
  { h with
    busy := by
      intro hpolled
      simp only [Waiter.poll, Bool.or_eq_true, decide_eq_true_eq] at hpolled
      exact hpolled.elim h.busy id }

/-- The waiter goes on to another stage, and its future is not polled meanwhile. -/
theorem goes (h : Attended announced value st w) {stage : Stage} (fits : stage.Fits announced st')
    (stays : stage ≠ .returned) (listens : announced = false → (st' = .waiting ↔ st = .waiting)) :
    Attended announced value st' { w with stage := stage } :=
  ⟨fits, fun _ => stays, fun hgone => absurd hgone stays, h.told,
    fun early => (h.waits early).trans (listens early).symm, h.woken⟩

/-- The poll ends, and the future stands as the answer says. -/
theorem answers (h : Attended announced value st w) {stage : Stage}
    (fits : stage.Fits announced st') (a : Option (Settled ω)) (gone : stage = .returned → a ≠ none)
    (tells : ∀ v, a = some v → value = some v)
    (listens : announced = false → (st' = .waiting ↔ st = .waiting ∨ a = none))
    (early : a = none → announced = false) :
    Attended announced value st' ({ w with stage := stage }.answer a) where
  fits := fits
  busy := by simp [Waiter.answer]
  gone hgone := by
    obtain ⟨v, hv⟩ := Option.ne_none_iff_exists'.mp (gone hgone)
    exact ⟨v, by simp [Waiter.answer, hv]⟩
  told v hv := by
    rcases List.mem_append.mp hv with hv | hv
    · exact h.told v hv
    · exact tells v (List.mem_singleton.mp hv).symm
  waits hearly := by
    have hvain : Waiter.vain { w with stage := stage } = w.vain := rfl
    rw [Waiter.vain_answer, hvain, Bool.or_eq_true, h.waits hearly, listens hearly,
      Option.isNone_iff_eq_none]
  woken := by
    have hvain : Waiter.vain { w with stage := stage } = w.vain := rfl
    rw [Waiter.vain_answer, hvain]
    cases a with
    | none => simpa [early rfl, Waiter.answer] using h.woken
    | some v => simpa [Waiter.answer] using h.woken

theorem work (laws : N.Lawful standing) (shown : announced = true → value ≠ none)
    (h : Attended announced value (standing n i) w) :
    Attended announced value (standing (w.work N value i n).1 i) (w.work N value i n).2 ∧
      ∀ j, j ≠ i → standing (w.work N value i n).1 j = standing n j := by
  have hfits := h.fits
  have hdrop := laws.drop
  unfold Waiter.work
  cases hs : w.stage with
  | top =>
    rw [hs] at hfits
    have hst : standing n i = .absent := hfits
    have hlisten := laws.listen n i hst
    refine ⟨h.goes ?_ (by simp) ?_, fun j hj => by simp [hlisten, hj]⟩
    · simp [hlisten, Stage.Fits]
    · simp [hlisten, hst]
  | created =>
    rw [hs] at hfits
    rcases hfits with hst | ⟨late, hst⟩
    · have henable := laws.enable n i hst
      refine ⟨h.goes ?_ (by simp) ?_, fun j hj => by simp [henable, hj]⟩
      · simp [henable, Stage.Fits]
      · simp [henable, hst]
    · have henable := laws.enable_notified n i hst
      refine ⟨h.goes ?_ (by simp) ?_, fun j hj => by simp [henable]⟩
      · simp [henable, hst, Stage.Fits, late]
      · simp [henable]
  | enabled =>
    rw [hs] at hfits
    have hst : standing n i ≠ .waiting := by
      rcases hfits with hst | ⟨-, hst⟩ <;> simp [hst]
    cases hv : value with
    | some v =>
      subst hv
      refine ⟨h.answers ?_ (some v) (by simp) (by simp) ?_ (by simp),
        fun j hj => by simp [hdrop, hj]⟩
      · simp [hdrop, Stage.Fits]
      · simp [hdrop, hst]
    | none =>
      have early : announced = false := Bool.eq_false_iff.mpr fun ha => shown ha hv
      subst hv
      refine ⟨h.goes ?_ (by simp) (by simp), fun _ _ => rfl⟩
      simpa [Stage.Fits, early] using .inl (hfits.resolve_right (by simp [early]))
  | checked =>
    rw [hs, Stage.Fits] at hfits
    cases ha : announced with
    | true =>
      subst ha
      obtain ⟨hpoll, hkept⟩ := laws.poll_notified n i hfits
      obtain ⟨n', hn'⟩ : ∃ n', N.poll n i = (true, n') := ⟨_, Prod.ext hpoll rfl⟩
      rw [hn'] at hkept ⊢
      refine ⟨h.goes ?_ (by simp) (by simp), fun j hj => by simp [hdrop, hj, hkept]⟩
      simp [hdrop, Stage.Fits]
    | false =>
      subst ha
      obtain ⟨hpoll, hkept⟩ := laws.poll n i hfits
      obtain ⟨n', hn'⟩ : ∃ n', N.poll n i = (false, n') := ⟨_, Prod.ext hpoll rfl⟩
      rw [hn'] at hkept ⊢
      have hw : w.answer none = { w with stage := .checked }.answer none := by rw [← hs]
      rw [hw]
      refine ⟨h.answers ?_ none (by simp) (by simp) ?_ (by simp), fun j hj => by simp [hkept, hj]⟩
      · simp [hkept, Stage.Fits]
      · simp [hkept]
  | returned => exact ⟨h, fun _ _ => rfl⟩

/-- All on the list are notified, and whoever was polled in vain is woken. -/
theorem ring (laws : N.Lawful standing) (h : Attended false value (standing n i) w) :
    Attended true value (standing (N.ring n).2 i)
      { w with wakes := w.wakes + (N.ring n).1 i } where
  fits := by
    have hring := laws.ring n i
    have hfits := h.fits
    cases hs : w.stage with
    | top | returned =>
      have hst : standing n i = .absent := by simpa [hs, Stage.Fits] using hfits
      simpa [hst, Standing.ring, Stage.Fits] using hring
    | created =>
      have hst : standing n i = .created := by simpa [hs, Stage.Fits] using hfits
      simpa [hst, Standing.ring, Stage.Fits, or_comm] using hring
    | enabled =>
      have hst : standing n i = .enabled := by simpa [hs, Stage.Fits] using hfits
      exact .inr ⟨rfl, by simpa [hst, Standing.ring] using hring⟩
    | checked =>
      have hst : standing n i = .enabled ∨ standing n i = .waiting := by
        simpa [hs, Stage.Fits] using hfits
      rcases hst with hst | hst <;> simpa [hst, Standing.ring, Stage.Fits] using hring
  busy := h.busy
  gone := h.gone
  told := h.told
  waits := by simp
  woken := by
    have hvain := h.waits rfl
    have hwakes : w.wakes = 0 := by simpa using h.woken
    rw [laws.calls n i, hwakes, Nat.zero_add, Bool.true_and]
    exact if_congr hvain.symm rfl rfl

end Attended

/-- The steps that a poll can still take. A waiter that is at its top when all are notified does not
wait any more. -/
def Stage.left (announced : Bool) : Stage → Nat
  | .top => if announced then 3 else 7
  | .created => if announced then 2 else 6
  | .enabled => if announced then 1 else 5
  | .checked => 4
  | .returned => 0

theorem Stage.left_le (stage : Stage) (announced : Bool) : stage.left announced ≤ 7 := by
  cases stage <;> cases announced <;> decide

/-- A poll that can take no more steps is over. -/
theorem Stage.left_pos {stage : Stage} (busy : stage ≠ .returned) (announced : Bool) :
    0 < stage.left announced := by
  cases stage <;> cases announced <;> first | decide | exact absurd rfl busy

theorem Stage.left_mono (stage : Stage) {announced announced' : Bool}
    (stays : announced = true → announced' = true) :
    stage.left announced' ≤ stage.left announced := by
  cases announced with
  | true => simp [stays rfl]
  | false => cases announced' <;> cases stage <;> simp [left]

/-- The course of a poll, from when the waiter had given the answers `old`. If there is a value that
it can be sure of, this is its answer. -/
inductive Polling (old : List (Option (Settled ω))) (sure : Option (Settled ω)) (left : Nat)
    (announced : Bool) (value : Option (Settled ω)) (w : Waiter ω) : Prop
  | ongoing (polled : w.polled = true) (same : w.answers = old)
    (sees : ∀ v, sure = some v → value = some v ∧ (w.stage = .checked → announced = true))
    (left : w.stage.left announced ≤ left)
  | answered (a : Option (Settled ω)) (rest : List (Option (Settled ω)))
    (answers : w.answers = old ++ a :: rest) (sees : ∀ v, sure = some v → a = some v)

namespace Polling

variable {old : List (Option (Settled ω))} {sure value value' : Option (Settled ω)} {left : Nat}
  {announced announced' : Bool} {w w' : Waiter ω}

/-- Others take a turn. -/
theorem keep (h : Polling old sure left announced value w) (stage : w'.stage = w.stage)
    (answers : w'.answers = w.answers) (polled : w.polled = true → w'.polled = true)
    (stays : announced = true → announced' = true)
    (shows : ∀ v, value = some v → value' = some v) :
    Polling old sure left announced' value' w' := by
  cases h with
  | ongoing hpolled same sees hleft =>
    refine .ongoing (polled hpolled) (answers.trans same) (fun v hv => ?_) ?_
    · obtain ⟨hvalue, hchecked⟩ := sees v hv
      exact ⟨shows v hvalue, fun hs => stays (hchecked (stage ▸ hs))⟩
    · rw [stage]
      exact Nat.le_trans (w.stage.left_mono stays) hleft
  | answered a rest hanswers sees => exact .answered a rest (answers.trans hanswers) sees

theorem work {N : Notify} {standing : N.State → Nat → Standing} (laws : N.Lawful standing)
    {n : N.State} {i : Nat} (shown : announced = true → value ≠ none)
    (attended : Attended announced value (standing n i) w)
    (h : Polling old sure left announced value w) (polled : w.polled = true) :
    Polling old sure (left - 1) announced value (w.work N value i n).2 := by
  have hfits := attended.fits
  cases h with
  | ongoing _ same sees hleft =>
    unfold Waiter.work
    cases hs : w.stage with
    | top =>
      rw [hs] at hleft
      refine .ongoing polled same (fun v hv => ⟨(sees v hv).1, by simp⟩) ?_
      cases announced <;> exact Nat.sub_le_sub_right hleft 1
    | created =>
      rw [hs] at hleft
      refine .ongoing polled same (fun v hv => ⟨(sees v hv).1, by simp⟩) ?_
      cases announced <;> exact Nat.sub_le_sub_right hleft 1
    | enabled =>
      cases hv : value with
      | some v =>
        refine .answered (some v) [] (by simp [Waiter.answer, same]) fun v' hv' => ?_
        exact hv.symm.trans (sees v' hv').1
      | none =>
        have early : announced = false := Bool.eq_false_iff.mpr fun ha => shown ha hv
        rw [hs, early] at hleft
        refine .ongoing polled same (fun v hv' => ?_) (Nat.sub_le_sub_right hleft 1)
        have hvalue := (sees v hv').1
        rw [hv] at hvalue
        cases hvalue
    | checked =>
      rw [hs, Stage.Fits] at hfits
      rw [hs] at hleft
      cases ha : announced with
      | true =>
        subst ha
        obtain ⟨hpoll, -⟩ := laws.poll_notified n i hfits
        obtain ⟨n', hn'⟩ : ∃ n', N.poll n i = (true, n') := ⟨_, Prod.ext hpoll rfl⟩
        rw [hn']
        exact .ongoing polled same (fun v hv => ⟨(sees v hv).1, by simp⟩)
          (Nat.sub_le_sub_right hleft 1)
      | false =>
        subst ha
        obtain ⟨hpoll, -⟩ := laws.poll n i hfits
        obtain ⟨n', hn'⟩ : ∃ n', N.poll n i = (false, n') := ⟨_, Prod.ext hpoll rfl⟩
        rw [hn']
        refine .answered none [] (by simp [Waiter.answer, same]) fun v hv => ?_
        exact absurd ((sees v hv).2 hs) (by simp)
    | returned => exact absurd hs (attended.busy polled)
  | answered a rest answers sees =>
    obtain ⟨more, hmore⟩ := w.answers_work N value i n
    exact .answered a (rest ++ more) (by rw [← hmore, answers]; simp) sees

end Polling

namespace Session

variable {N : Notify} {M : Monitor} {standing : N.State → Nat → Standing} {s s' : Session N M ω}

theorem value_of_announced (h : s.announced = true) : s.settled? ≠ none := by
  intro hnone
  have hdone := (announced_iff.mp h).1
  simp [isDone, Promise.isDone, hnone] at hdone

theorem work_polled {i : Nat} {w : Waiter ω} (hw : s.waiters[i]? = some w)
    (polled : w.polled = true) : s.work i = { s with
      notify := (w.work N s.settled? i s.notify).1
      waiters := s.waiters.set i (w.work N s.settled? i s.notify).2 } := by
  simp only [work, hw, polled, if_true]

theorem work_unpolled {i : Nat} {w : Waiter ω} (hw : s.waiters[i]? = some w)
    (idle : w.polled = false) : s.work i = s := by
  simp only [work, hw, idle, Bool.false_eq_true, if_false]

/-- The waiters have been through what they should, and nobody else has a future. -/
structure Tended (standing : N.State → Nat → Standing) (s : Session N M ω) : Prop where
  attended : ∀ i w, s.waiters[i]? = some w →
    Attended s.announced s.settled? (standing s.notify i) w
  absent : ∀ i, s.waiters.length ≤ i → standing s.notify i = .absent

namespace Tended

/-- What concerns the waiters is left alone. -/
theorem keep (h : s.Tended standing) (waiters : s'.waiters = s.waiters)
    (notify : s'.notify = s.notify) (announced : s'.announced = s.announced)
    (shows : ∀ v, s.settled? = some v → s'.settled? = some v) : s'.Tended standing where
  attended i w hw := by
    rw [waiters] at hw
    rw [announced, notify]
    exact (h.attended i w hw).value_mono shows
  absent i hi := by
    rw [notify]
    exact h.absent i (waiters ▸ hi)

theorem advance (h : s.Tended standing) {m : Machine ω} (carries : s.machine.Carries m) :
    (s.advance m).Tended standing :=
  h.keep rfl rfl (advance_told carries).1 fun v hv =>
    settled?_eq_some.mpr (carries.shows v (settled?_eq_some.mp hv))

theorem ring (h : s.Tended standing) (laws : N.Lawful standing) (ordered : s.InTurn) {b : Bell}
    {rest : List Bell} (hs : s.bells = b :: rest) : (s.ring rest b).Tended standing := by
  have hearly : s.announced = false := by simp [announced, hs]
  rcases ordered.cases hs with ⟨rfl, rfl⟩ | ⟨rfl, rfl⟩ | ⟨rfl, rfl⟩ | ⟨rfl, rfl⟩
  · rw [Session.ring]
    split
    · exact h
    · exact h.keep rfl rfl (by simp [announced, hs]) fun _ => id
  · exact h.keep rfl rfl (by simp [announced, hs, Session.ring]) fun _ => id
  · exact h.keep rfl rfl (by simp [announced, hs, Session.ring]) fun _ => id
  · have hdone : s.isDone = true := ordered.isDone (by simp [hs])
    have hlate : (s.ring [] .waiters).announced = true := announced_iff.mpr ⟨hdone, rfl⟩
    constructor
    · intro i w hw
      obtain ⟨w₀, hw₀, rfl⟩ : ∃ w₀, s.waiters[i]? = some w₀ ∧
          { w₀ with wakes := w₀.wakes + (N.ring s.notify).1 i } = w := by
        simpa [Session.ring, List.getElem?_mapIdx] using hw
      rw [hlate]
      exact (hearly ▸ h.attended i w₀ hw₀).ring laws
    · intro i hi
      have hst := h.absent i (by simpa [Session.ring] using hi)
      simpa [hst, Standing.ring, Session.ring] using laws.ring s.notify i

theorem work (h : s.Tended standing) (laws : N.Lawful standing) (i : Nat) :
    (s.work i).Tended standing := by
  cases hw : s.waiters[i]? with
  | none => simpa only [Session.work, hw] using h
  | some w =>
    cases hpolled : w.polled with
    | false => rwa [work_unpolled hw hpolled]
    | true =>
      obtain ⟨hself, hothers⟩ := (h.attended i w hw).work laws value_of_announced
      obtain ⟨hi, -⟩ := List.getElem?_eq_some_iff.mp hw
      rw [work_polled hw hpolled]
      constructor
      · intro j w' hw'
        rcases List.getElem?_replaced hw' with ⟨rfl, rfl⟩ | ⟨hj, hother⟩
        · exact hself
        · have hst := hothers j hj
          dsimp only
          rw [hst]
          exact h.attended j w' hother
      · intro j hj
        have hlength : s.waiters.length ≤ j := by simpa using hj
        exact (hothers j (by omega)).trans (h.absent j hlength)

variable [Outcome ω]

theorem turn (h : s.Tended standing) (laws : N.Lawful standing) (ordered : s.InTurn) {t : Turn ω}
    (quiet : t.Quiet) : (s.turn t).Tended standing := by
  cases t with
  | begin st =>
    rcases s.begin_cases st with hturn | ⟨m, hm, hturn⟩ <;> rw [hturn]
    · exact h
    · exact h.advance hm
  | tick =>
    rcases s.tick_cases with ⟨-, m, hm, hturn⟩ | ⟨b, rest, hs, hturn⟩ <;> rw [hturn]
    · exact h.advance hm
    · exact h.ring laws ordered hs
  | await =>
    constructor
    · intro i w hw
      rcases List.getElem?_snoc hw with hw | ⟨rfl, rfl⟩
      · exact h.attended i w hw
      · rw [show standing (s.turn .await).notify s.waiters.length = .absent from
          h.absent _ (Nat.le_refl _)]
        exact .fresh
    · intro i hi
      have hlength : s.waiters.length + 1 ≤ i := by simpa [Session.turn] using hi
      exact h.absent i (by omega)
  | poll i =>
    constructor
    · intro j w hw
      obtain ⟨w₀, hw₀, rfl⟩ : ∃ w₀, s.waiters[j]? = some w₀ ∧
          (if i = j then w₀.poll else w₀) = w := by
        simpa [Session.turn, List.getElem?_modify] using hw
      split
      · exact (h.attended j w₀ hw₀).poll
      · exact h.attended j w₀ hw₀
    · intro j hj
      exact h.absent j (by simpa [Session.turn] using hj)
  | work i => exact h.work laws i
  | read i =>
    obtain ⟨hmachine, hbells, hnotify, hwaiters, -⟩ := s.read_frame i
    exact h.keep hwaiters hnotify (told_congr hmachine hbells).1 fun v hv => by
      rwa [settled?, Session.turn, hmachine]
  | setFallback | pass | block => exact h.keep rfl rfl rfl fun _ => id

end Tended

theorem turn_announced [Outcome ω] {t : Turn ω} (quiet : t.Quiet) (h : s.announced = true) :
    (s.turn t).announced = true := by
  obtain ⟨hdone, hbells⟩ := announced_iff.mp h
  obtain ⟨v, hv⟩ := Machine.isDone_iff.mp hdone
  refine announced_iff.mpr ⟨((s.turn_carries quiet).shows v hv).isDone, ?_⟩
  have hadvance : ∀ m : Machine ω, (s.advance m).bells = [] := by
    intro m
    simp [advance, hdone, hbells]
  cases t with
  | begin st =>
    rcases s.begin_cases st with hturn | ⟨m, -, hturn⟩ <;> rw [hturn]
    · exact hbells
    · exact hadvance m
  | tick =>
    rcases s.tick_cases with ⟨-, m, -, hturn⟩ | ⟨b, rest, hs, -⟩
    · rw [hturn]
      exact hadvance m
    · rw [hbells] at hs
      cases hs
  | work i => rw [turn, (s.work_frame i).2.1, hbells]
  | read i => rw [turn, (s.read_frame i).2.1, hbells]
  | _ => exact hbells

/-- A turn in which the waiter with this number takes a step. -/
def Turn.isWork (i : Nat) : Turn ω → Bool
  | .work j => j = i
  | _ => false

/-- Otherwise the waiter stays where it is. -/
theorem turn_waiter [Outcome ω] {t : Turn ω} {i : Nat} (ht : t.isWork i = false) {w : Waiter ω}
    (hw : s.waiters[i]? = some w) : ∃ w', (s.turn t).waiters[i]? = some w' ∧
      w'.stage = w.stage ∧ w'.answers = w.answers ∧ (w.polled = true → w'.polled = true) := by
  cases t with
  | begin st =>
    rcases s.begin_cases st with hturn | ⟨m, -, hturn⟩ <;>
      exact ⟨w, by rwa [hturn], rfl, rfl, id⟩
  | tick =>
    rcases s.tick_cases with ⟨-, m, -, hturn⟩ | ⟨b, rest, -, hturn⟩ <;> rw [hturn]
    · exact ⟨w, hw, rfl, rfl, id⟩
    · cases b with
      | lock =>
        rw [ring]
        split <;> exact ⟨w, hw, rfl, rfl, id⟩
      | waiters =>
        exact ⟨{ w with wakes := w.wakes + (N.ring s.notify).1 i },
          by simp [ring, List.getElem?_mapIdx, hw], rfl, rfl, id⟩
      | _ => exact ⟨w, hw, rfl, rfl, id⟩
  | await =>
    have hi := (List.getElem?_eq_some_iff.mp hw).1
    exact ⟨w, List.getElem?_append_left hi ▸ hw, rfl, rfl, id⟩
  | poll j =>
    refine ⟨if j = i then w.poll else w, by simp [turn, List.getElem?_modify, hw], ?_⟩
    split
    · exact ⟨rfl, rfl, fun hpolled => by simp [Waiter.poll, hpolled]⟩
    · exact ⟨rfl, rfl, id⟩
  | work j =>
    have hj : j ≠ i := by simpa [Turn.isWork] using ht
    rw [turn, work]
    split
    · exact ⟨w, hw, rfl, rfl, id⟩
    · split
      · exact ⟨w, by simpa [List.getElem?_set_ne hj] using hw, rfl, rfl, id⟩
      · exact ⟨w, hw, rfl, rfl, id⟩
  | read j => exact ⟨w, (s.read_frame j).2.2.2.1 ▸ hw, rfl, rfl, id⟩
  | _ => exact ⟨w, hw, rfl, rfl, id⟩

section Runs

variable [Outcome ω] {old : List (Option (Settled ω))} {sure : Option (Settled ω)} {left i : Nat}

/-- The poll of a waiter in a session. -/
def InPoll (s : Session N M ω) (i : Nat) (old : List (Option (Settled ω)))
    (sure : Option (Settled ω)) (left : Nat) : Prop :=
  ∃ w, s.waiters[i]? = some w ∧ Polling old sure left s.announced s.settled? w

theorem InPoll.turn (laws : N.Lawful standing) (tended : s.Tended standing)
    (h : s.InPoll i old sure left) {t : Turn ω} (quiet : t.Quiet) :
    (s.turn t).InPoll i old sure (left - if t.isWork i then 1 else 0) := by
  obtain ⟨w, hw, hpolling⟩ := h
  have hstays : s.announced = true → (s.turn t).announced = true := turn_announced quiet
  have hshows : ∀ v, s.settled? = some v → (s.turn t).settled? = some v := fun _ =>
    turn_shown quiet
  cases ht : t.isWork i with
  | false =>
    obtain ⟨w', hw', hstage, hanswers, hpolled⟩ := turn_waiter ht hw
    exact ⟨w', hw', hpolling.keep hstage hanswers hpolled hstays hshows⟩
  | true =>
    obtain rfl : t = .work i := by
      cases t <;> simp_all [Turn.isWork]
    obtain ⟨hi, -⟩ := List.getElem?_eq_some_iff.mp hw
    rw [if_pos rfl]
    cases hpolled : w.polled with
    | true =>
      have hnext := hpolling.work laws value_of_announced (tended.attended i w hw) hpolled
      refine ⟨(w.work N s.settled? i s.notify).2, ?_, hnext.keep rfl rfl id hstays hshows⟩
      rw [Session.turn, work_polled hw hpolled]
      exact List.getElem?_set_self hi
    | false =>
      refine ⟨w, by rw [Session.turn, work_unpolled hw hpolled, hw], ?_⟩
      cases hpolling with
      | ongoing hpolled' => simp [hpolled] at hpolled'
      | answered a rest answers sees => exact .answered a rest answers sees

theorem InPoll.after (laws : N.Lawful standing) (ordered : s.InTurn) (tended : s.Tended standing)
    (h : s.InPoll i old sure left) {turns : List (Turn ω)} (quiet : ∀ t ∈ turns, t.Quiet) :
    (s.after turns).InPoll i old sure (left - turns.countP (Turn.isWork i)) := by
  induction turns generalizing s left with
  | nil => exact h
  | cons t turns ih =>
    obtain ⟨ht, hturns⟩ := List.forall_mem_cons.mp quiet
    have hrun := ih (ordered.turn ht) (tended.turn laws ordered ht) (h.turn laws tended ht) hturns
    rw [List.countP_cons, Nat.add_comm, ← Nat.sub_sub]
    exact hrun

theorem Tended.after (laws : N.Lawful standing) (ordered : s.InTurn) (h : s.Tended standing)
    {turns : List (Turn ω)} (quiet : ∀ t ∈ turns, t.Quiet) :
    (s.after turns).InTurn ∧ (s.after turns).Tended standing := by
  induction turns generalizing s with
  | nil => exact ⟨ordered, h⟩
  | cons t turns ih =>
    obtain ⟨ht, hturns⟩ := List.forall_mem_cons.mp quiet
    exact ih (ordered.turn ht) (h.turn laws ordered ht) hturns

/-- A poll ends after seven steps of the waiter, whatever else happens. It answers with the value
if that was shown when the poll began, unless the waiter waits already and has not been notified. -/
theorem poll_ends (laws : N.Lawful standing) (ordered : s.InTurn) (tended : s.Tended standing)
    {w : Waiter ω} (hw : s.waiters[i]? = some w) (present : w.stage ≠ .returned)
    {more : List (Turn ω)} (quiet : ∀ t ∈ more, t.Quiet)
    (enough : 7 ≤ more.countP (Turn.isWork i)) :
    ∃ w' a rest, (s.after (.poll i :: more)).waiters[i]? = some w' ∧
      w'.answers = w.answers ++ a :: rest ∧
      ∀ v, s.settled? = some v → (w.stage = .checked → s.announced = true) → a = some v := by
  obtain ⟨sure, hsure, hsees⟩ : ∃ sure : Option (Settled ω),
      (∀ v, sure = some v → s.settled? = some v ∧ (w.stage = .checked → s.announced = true)) ∧
      ∀ v, s.settled? = some v → (w.stage = .checked → s.announced = true) → sure = some v := by
    by_cases h : w.stage = .checked → s.announced = true
    · exact ⟨s.settled?, fun v hv => ⟨hv, h⟩, fun v hv _ => hv⟩
    · exact ⟨none, by simp, fun _ _ h' => absurd h' h⟩
  have hbegun : (s.turn (.poll i)).InPoll i w.answers sure 7 := by
    refine ⟨w.poll, by simp [turn, hw], .ongoing ?_ rfl hsure ?_⟩
    · simp [Waiter.poll, present]
    · exact Stage.left_le w.stage _
  have hpoll : (Turn.poll i : Turn ω).Quiet := trivial
  obtain ⟨w', hw', hpolling⟩ :=
    hbegun.after laws (ordered.turn hpoll) (tended.turn laws ordered hpoll) quiet
  have htended := ((tended.turn laws ordered hpoll).after laws (ordered.turn hpoll) quiet).2
  rw [show 7 - more.countP (Turn.isWork i) = 0 by omega] at hpolling
  cases hpolling with
  | ongoing polled _ _ hleft =>
    have hbusy := (htended.attended i w' hw').busy polled
    exact absurd hleft (Nat.not_le.mpr (Stage.left_pos hbusy _))
  | answered a rest answers sees =>
    exact ⟨w', a, rest, hw', answers, fun v hv h => sees v (hsees v hv h)⟩

end Runs

end Session

end Turnstile
