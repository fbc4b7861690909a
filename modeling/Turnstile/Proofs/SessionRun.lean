import Turnstile.Proofs.HookFirst
import Turnstile.Script.Session

/-!
# Sessions as runs

Whatever the turns of a session are, a value that is stored stays, and what is shown is shown for
good. When it is shown, those that wait are told, in a fixed order.
-/

namespace Turnstile

variable {ω : Type}

namespace Machine

/-- The value `v` is shown. -/
def Shows (v : Settled ω) (m : Machine ω) : Prop := m.promise.phase = .done v

variable {m : Machine ω} {v : Settled ω}

theorem handUp_cases (m : Machine ω) :
    m.stack = [] ∧ m.handUp = { m with raised := none } ∨ m.stack ≠ [] ∧ m.handUp = m := by
  unfold handUp
  split
  · exact .inl ⟨‹_›, rfl⟩
  · exact .inr ⟨‹_›, rfl⟩

@[simp] theorem weight_handUp (m : Machine ω) : m.handUp.weight = m.weight := by
  unfold handUp
  split <;> rfl

@[simp] theorem value?_handUp (m : Machine ω) : m.handUp.value? = m.value? := by
  unfold handUp
  split <;> rfl

theorem isDone_iff {p : Promise ω (Script ω) (Reaction ω)} :
    p.isDone = true ↔ ∃ v, p.phase = .done v := by
  cases hp : p.phase <;> simp [Promise.isDone, Promise.settled?, hp]

namespace Shows

theorem phase (h : m.Shows v) : m.promise.phase = .done v := h

theorem tried (h : m.Shows v) : m.promise.phase ≠ .pending := by simp [h.phase]

theorem isDone (h : m.Shows v) : m.promise.isDone = true := isDone_iff.mpr ⟨v, h⟩

theorem push (h : m.Shows v) (frames : List (Frame ω)) : (m.push frames).Shows v := h

theorem settle (h : m.Shows v) (u : Settled ω) : (m.settle u).Shows v := by
  rwa [settle_tried h.tried]

theorem register (h : m.Shows v) (c : Callback (Reaction ω)) : (m.register c).Shows v := by
  simp [Machine.register, Promise.register, h.phase, Shows, Machine.push]

theorem publish (h : m.Shows v) : m.publish.Shows v := by simp [Machine.publish, h.phase, Shows]

theorem fire (h : m.Shows v) (c : Callback (Reaction ω)) (u : Settled ω) :
    (m.fire c u).Shows v := by
  unfold Machine.fire
  split <;> exact h

theorem runTask (h : m.Shows v) : m.runTask.Shows v := by
  unfold Machine.runTask
  split
  · exact h
  · rw [if_pos h.isDone]
    exact h

theorem spend (h : m.Shows v) (q : Question) : (m.spend q).Shows v := by
  unfold Machine.spend
  split
  · rw [if_pos h.isDone]
    exact h
  · exact h

theorem afterExpiry (h : m.Shows v) (won : Bool) : (m.afterExpiry won).Shows v := by
  unfold Machine.afterExpiry
  split <;> exact h

theorem handUp (h : m.Shows v) : m.handUp.Shows v := by
  unfold Machine.handUp
  split <;> exact h

variable [Outcome ω]

theorem conclude (h : m.Shows v) (r : CallResult) : (m.conclude r).Shows v := by
  unfold Machine.conclude
  split
  · exact h
  · split
    · exact h
    · exact h.settle _

theorem expire (h : m.Shows v) : m.expire.Shows v := by
  unfold Machine.expire
  split
  · exact h
  · rw [if_pos h.isDone]
    exact h

theorem perform (h : m.Shows v) (s : Step ω) : (m.perform s).Shows v := by
  cases s with
  | complete o x => exact h.settle _
  | fail o e => exact h.settle _
  | on kind label body => exact h.register _
  | panic p => exact h
  | ask q => exact h.spend q
  | run => exact h.runTask
  | expire => exact h.expire
  | cancel => exact h

theorem work1 (h : m.Shows v) (f : Frame ω) : (m.work1 f).Shows v := by
  cases f with
  | body script =>
    cases script with
    | nil => exact h
    | cons s rest =>
      by_cases hpanic : s.verb = .panic
      · obtain ⟨p, rfl⟩ := Step.verb_eq_panic hpanic
        exact h
      · rw [m.work1_body hpanic]
        exact (h.push _).perform s
  | report verb a => exact h
  | guard kind => exact h
  | publish => exact h.publish
  | fire c u => exact h.fire c u
  | conclude e => exact h.conclude _
  | expired won => exact h.afterExpiry won

theorem unwind (h : m.Shows v) (p : Panic) (f : Frame ω) : (m.unwind p f).Shows v := by
  cases f with
  | conclude e => exact conclude (m := { m with raised := none }) h (Ending.panics p).result
  | _ => exact h

theorem step (h : m.Shows v) : m.step.Shows v := by
  cases hs : m.stack with
  | nil => rwa [step_halted hs]
  | cons f below =>
    have hbelow : ({ m with stack := below } : Machine ω).Shows v := h
    cases hr : m.raised with
    | none =>
      rw [step_frame hs hr]
      exact hbelow.work1 f
    | some p =>
      rw [step_panic hs hr]
      exact hbelow.unwind p f

end Shows

/-- Panics will be caught, and nothing is raised when nothing is left to run. -/
structure Composed (m : Machine ω) : Prop where
  secure : m.Secure
  calm : m.stack = [] → m.raised = none

theorem Composed.atRest (h : m.Composed) (ended : m.stack = []) : m.AtRest :=
  ⟨h.secure.sound (h.calm ended), ended⟩

theorem AtRest.composed (h : m.AtRest) : m.Composed := ⟨.of_upright h.toUpright, fun _ => h.sound⟩

theorem Secure.handUp (h : m.Secure) : m.handUp.Composed := by
  rcases m.handUp_cases with ⟨hs, hm⟩ | ⟨hs, hm⟩
  · rw [hm]
    exact ⟨.of_upright h.upright, fun _ => rfl⟩
  · rw [hm]
    exact ⟨h, fun hempty => absurd hempty hs⟩

/-- What a turn does to the machine: panics are caught all the same, and a value that is stored
stays, and is shown for good if it is shown. -/
structure Carries (m m' : Machine ω) : Prop where
  composed : m.Composed → m'.Composed
  stays : ∀ v, m.value? = some v → m'.value? = some v
  shows : ∀ v, m.Shows v → m'.Shows v

namespace Carries

theorem refl (m : Machine ω) : m.Carries m := ⟨id, fun _ => id, fun _ => id⟩

theorem trans {m' m'' : Machine ω} (h : m.Carries m') (h' : m'.Carries m'') : m.Carries m'' :=
  ⟨h'.composed ∘ h.composed, fun v hv => h'.stays v (h.stays v hv),
    fun v hv => h'.shows v (h.shows v hv)⟩

theorem setFallback {f : Fallback} (quiet : f.Quiet) :
    m.Carries { m with fallback := f } where
  composed h := by
    have hm := h.secure.upright
    exact ⟨⟨⟨quiet, rfl, hm.sheltered, hm.shown⟩, h.secure.caught⟩, h.calm⟩
  stays _ hv := hv
  shows _ h := h

theorem handUp {m' : Machine ω} (secure : m.Composed → m'.Secure) (evolves : m.Evolves m')
    (shows : ∀ v, m.Shows v → m'.Shows v) : m.Carries m'.handUp where
  composed h := (secure h).handUp
  stays v hv := by
    rw [value?_handUp]
    exact evolves.stays v hv
  shows v h := (shows v h).handUp

variable [Outcome ω]

theorem begin (sound : m.raised = none) {s : Step ω} (hs : m.stack = [] ∨ s.verb ≠ .panic) :
    m.Carries (m.perform s).handUp := by
  refine handUp (fun h => ?_) (m.perform_evolves s) fun _ h => h.perform s
  rcases hs with hs | hs
  · exact (h.atRest hs).perform s
  · exact .of_upright ((h.secure.sound sound).perform hs)

theorem tick (m : Machine ω) : m.Carries m.step.handUp :=
  handUp (fun h => h.secure.step) m.step_evolves fun _ h => h.step

end Carries

end Machine

/-- An entry of a list that has become longer. -/
theorem List.getElem?_snoc {α : Type} {l : List α} {a b : α} {i : Nat}
    (h : (l ++ [a])[i]? = some b) : l[i]? = some b ∨ i = l.length ∧ b = a := by
  rw [List.getElem?_append] at h
  split at h
  · exact .inl h
  · obtain ⟨hi, hb⟩ : i - l.length = 0 ∧ a = b := by simpa [List.getElem?_singleton] using h
    exact .inr ⟨by omega, hb.symm⟩

/-- An entry of a list in which one was replaced. -/
theorem List.getElem?_replaced {α : Type} {l : List α} {a b : α} {i j : Nat}
    (h : (l.set i a)[j]? = some b) : j = i ∧ b = a ∨ j ≠ i ∧ l[j]? = some b := by
  by_cases hj : j = i
  · subst hj
    obtain ⟨hi, hb⟩ := List.getElem?_eq_some_iff.mp h
    exact .inl ⟨rfl, hb.symm.trans (List.getElem_set_self hi)⟩
  · rw [List.getElem?_set_ne (Ne.symm hj)] at h
    exact .inr ⟨hj, h⟩

namespace Session

variable {N : Notify} {M : Monitor}

/-- A fallback handler that is chosen does not panic. -/
def Turn.Quiet : Turn ω → Prop
  | .setFallback f => f.Quiet
  | _ => True

/-- The value is shown, and all that wait have been told. -/
def announced (s : Session N M ω) : Bool := s.isDone && s.bells.isEmpty

/-- The readers have been woken. -/
def heard (s : Session N M ω) : Bool := s.isDone && !s.bells.contains .readers

variable {s : Session N M ω} {v : Settled ω}

theorem settled?_eq_some : s.settled? = some v ↔ s.machine.Shows v := by
  cases hp : s.machine.promise.phase <;>
    simp [settled?, Promise.settled?, Machine.Shows, hp]

theorem announced_iff : s.announced = true ↔ s.isDone = true ∧ s.bells = [] := by
  simp [announced]

theorem told_congr {s' : Session N M ω} (machine : s'.machine = s.machine)
    (bells : s'.bells = s.bells) : s'.announced = s.announced ∧ s'.heard = s.heard := by
  simp [announced, heard, isDone, machine, bells]

/-- When the value is first shown, nobody has been told. -/
theorem advance_told {m : Machine ω} (h : s.machine.Carries m) :
    (s.advance m).announced = s.announced ∧ (s.advance m).heard = s.heard := by
  cases hs : s.isDone with
  | true =>
    obtain ⟨v, hv⟩ := Machine.isDone_iff.mp hs
    have hm : m.promise.isDone = true := (h.shows v hv).isDone
    simp [announced, heard, advance, hs, hm, isDone]
  | false =>
    cases hm : m.promise.isDone <;> simp [announced, heard, advance, hs, hm, isDone, Bell.all]

theorem machine_ring (s : Session N M ω) (rest : List Bell) (b : Bell) :
    (s.ring rest b).machine = s.machine := by
  cases b with
  | lock => rw [ring]; split <;> rfl
  | _ => rfl

theorem bells_ring (s : Session N M ω) (rest : List Bell) (b : Bell) :
    s.ring rest b = s ∨ (s.ring rest b).bells = rest := by
  cases b with
  | lock =>
    rw [ring]
    split
    · exact .inl rfl
    · exact .inr rfl
  | _ => exact .inr rfl

/-- What is still to be done for those that wait is the end of a fixed list, and nothing is before
the value is shown. -/
structure InTurn (s : Session N M ω) : Prop where
  suffix : s.bells <:+ Bell.all
  early : s.isDone = false → s.bells = []

namespace InTurn

/-- The four moments of telling those that wait. -/
theorem cases (h : s.InTurn) {b : Bell} {rest : List Bell} (hs : s.bells = b :: rest) :
    b = .lock ∧ rest = [.readers, .unlock, .waiters] ∨
    b = .readers ∧ rest = [.unlock, .waiters] ∨
    b = .unlock ∧ rest = [.waiters] ∨ b = .waiters ∧ rest = [] := by
  simpa [hs, Bell.all, List.suffix_cons_iff] using h.suffix

theorem keep (h : s.InTurn) {s' : Session N M ω} (machine : s'.machine = s.machine)
    (bells : s'.bells = s.bells) : s'.InTurn where
  suffix := by
    rw [bells]
    exact h.suffix
  early hdone := by
    rw [bells]
    exact h.early (by rwa [Session.isDone, machine] at hdone)

/-- As long as something is to be done the value is shown. -/
theorem isDone (h : s.InTurn) (busy : s.bells ≠ []) : s.isDone = true := by
  cases hdone : s.isDone with
  | true => rfl
  | false => exact absurd (h.early hdone) busy

theorem advance (h : s.InTurn) {m : Machine ω} (carries : s.machine.Carries m) :
    (s.advance m).InTurn := by
  constructor
  · rw [Session.advance]
    dsimp only
    split
    · exact List.suffix_rfl
    · exact h.suffix
  · intro hm
    have hmachine : m.promise.isDone = false := hm
    cases hs : s.isDone with
    | true =>
      obtain ⟨v, hv⟩ := Machine.isDone_iff.mp hs
      exact absurd (carries.shows v hv).isDone (by simp [hmachine])
    | false => simpa [Session.advance, hmachine] using h.early hs

theorem ring (h : s.InTurn) {b : Bell} {rest : List Bell} (hs : s.bells = b :: rest) :
    (s.ring rest b).InTurn := by
  have hsuffix : rest <:+ Bell.all := (List.suffix_cons b rest).trans (hs ▸ h.suffix)
  have hdone : (s.ring rest b).isDone = true := by
    rw [Session.isDone, machine_ring]
    exact h.isDone (by simp [hs])
  constructor
  · rcases s.bells_ring rest b with heq | hbells
    · rw [heq]
      exact h.suffix
    · rwa [hbells]
  · intro hdone'
    simp [hdone] at hdone'

end InTurn

/-- What waiters and readers do leaves the machine alone, and what is to be done for them. -/
theorem work_frame (s : Session N M ω) (i : Nat) : (s.work i).machine = s.machine ∧
    (s.work i).bells = s.bells ∧ (s.work i).monitor = s.monitor ∧
    (s.work i).readers = s.readers ∧ (s.work i).now = s.now := by
  unfold work
  split
  · exact ⟨rfl, rfl, rfl, rfl, rfl⟩
  · split <;> exact ⟨rfl, rfl, rfl, rfl, rfl⟩

theorem read_frame (s : Session N M ω) (i : Nat) : (s.read i).machine = s.machine ∧
    (s.read i).bells = s.bells ∧ (s.read i).notify = s.notify ∧
    (s.read i).waiters = s.waiters ∧ (s.read i).now = s.now := by
  unfold read
  split <;> exact ⟨rfl, rfl, rfl, rfl, rfl⟩

variable [Outcome ω]

theorem tick_nil (h : s.bells = []) : s.tick = s.advance s.machine.step.handUp := by rw [tick, h]

theorem tick_cons {b : Bell} {rest : List Bell} (h : s.bells = b :: rest) :
    s.tick = s.ring rest b := by rw [tick, h]

/-- Everything that beginning a step can come to. -/
theorem begin_cases (s : Session N M ω) (st : Step ω) : s.turn (.begin st) = s ∨
    ∃ m, s.machine.Carries m ∧ s.turn (.begin st) = s.advance m := by
  rw [turn]
  split
  · rename_i h
    exact .inr ⟨_, .begin h.1 h.2, rfl⟩
  · exact .inl rfl

/-- Everything that a tick can come to. -/
theorem tick_cases (s : Session N M ω) :
    (s.bells = [] ∧ ∃ m, s.machine.Carries m ∧ s.turn .tick = s.advance m) ∨
    ∃ b rest, s.bells = b :: rest ∧ s.turn .tick = s.ring rest b := by
  cases hs : s.bells with
  | nil => exact .inl ⟨rfl, _, .tick _, tick_nil hs⟩
  | cons b rest => exact .inr ⟨b, rest, rfl, tick_cons hs⟩

theorem turn_carries (s : Session N M ω) {t : Turn ω} (quiet : t.Quiet) :
    s.machine.Carries (s.turn t).machine := by
  cases t with
  | begin st =>
    rcases s.begin_cases st with hturn | ⟨m, hm, hturn⟩ <;> rw [hturn]
    · exact .refl _
    · exact hm
  | tick =>
    rcases s.tick_cases with ⟨-, m, hm, hturn⟩ | ⟨b, rest, -, hturn⟩ <;> rw [hturn]
    · exact hm
    · rw [machine_ring]
      exact .refl _
  | setFallback f => exact .setFallback quiet
  | work i =>
    rw [turn, (s.work_frame i).1]
    exact .refl _
  | read i =>
    rw [turn, (s.read_frame i).1]
    exact .refl _
  | _ => exact .refl _

theorem after_append (s : Session N M ω) (turns turns' : List (Turn ω)) :
    s.after (turns ++ turns') = (s.after turns).after turns' := List.foldl_append

theorem after_carries (s : Session N M ω) {turns : List (Turn ω)}
    (quiet : ∀ t ∈ turns, t.Quiet) : s.machine.Carries (s.after turns).machine := by
  induction turns generalizing s with
  | nil => exact .refl _
  | cons t turns ih =>
    obtain ⟨ht, hturns⟩ := List.forall_mem_cons.mp quiet
    exact (s.turn_carries ht).trans (ih (s.turn t) hturns)

/-- A value that is shown stays. -/
theorem after_shown {turns : List (Turn ω)} (quiet : ∀ t ∈ turns, t.Quiet)
    (h : s.settled? = some v) : (s.after turns).settled? = some v :=
  settled?_eq_some.mpr ((s.after_carries quiet).shows v (settled?_eq_some.mp h))

theorem turn_shown {t : Turn ω} (quiet : t.Quiet) (h : s.settled? = some v) :
    (s.turn t).settled? = some v :=
  settled?_eq_some.mpr ((s.turn_carries quiet).shows v (settled?_eq_some.mp h))

/-- The first attempt is stored. -/
theorem begin_stores {st : Step ω} (sound : s.machine.raised = none)
    (first : s.machine.value? = none) (tries : s.machine.attempt? st = some v) :
    (s.turn (.begin st)).machine.value? = some v := by
  have hpanic : st.verb ≠ .panic := by
    intro h
    obtain ⟨p, rfl⟩ := Step.verb_eq_panic h
    cases tries
  rw [turn, if_pos ⟨sound, .inr hpanic⟩, advance, Machine.value?_handUp,
    Machine.value?_perform, first, tries]
  rfl

theorem InTurn.turn (h : s.InTurn) {t : Turn ω} (quiet : t.Quiet) : (s.turn t).InTurn := by
  cases t with
  | begin st =>
    rcases s.begin_cases st with hturn | ⟨m, hm, hturn⟩ <;> rw [hturn]
    · exact h
    · exact h.advance hm
  | tick =>
    rcases s.tick_cases with ⟨-, m, hm, hturn⟩ | ⟨b, rest, hs, hturn⟩ <;> rw [hturn]
    · exact h.advance hm
    · exact h.ring hs
  | work i =>
    obtain ⟨hmachine, hbells, -⟩ := s.work_frame i
    exact h.keep hmachine hbells
  | read i =>
    obtain ⟨hmachine, hbells, -⟩ := s.read_frame i
    exact h.keep hmachine hbells
  | _ => exact ⟨h.suffix, h.early⟩

end Session

end Turnstile
