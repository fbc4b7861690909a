import Turnstile.Proofs.PromiseCourse

/-!
# Shelter from panics

With a fallback handler that does not panic, a panic is caught before it can drop a frame that
matters: a value that is stored will be shown, and an expired task will be cancelled. And whatever
is run, the promise only goes forward: a value that was stored stays, and a hook is run for it.
Both hold for promises with and without a task.
-/

namespace Turnstile

/-- The value that a promise was settled with, shown or not. -/
def Phase.value? {ω : Type} : Phase ω → Option (Settled ω)
  | .pending => none
  | .completing v | .done v => some v

theorem Phase.value?_eq_none {ω : Type} {phase : Phase ω} :
    phase.value? = none ↔ phase = .pending := by
  cases phase <;> simp [value?]

theorem Phase.value?_of_settled? {ω η κ : Type} {p : Promise ω η κ} {v : Settled ω}
    (h : p.settled? = some v) : p.phase.value? = some v := by
  unfold Promise.settled? at h
  split at h
  · rename_i hp
    rw [hp]
    exact h
  · cases h

namespace Machine

variable {ω : Type}

section Forward

/-- The promise of `m'` is one that the promise of `m` can have become. -/
structure Evolves (m m' : Machine ω) : Prop where
  events : m.events <+: m'.events
  stays : ∀ v, m.promise.phase.value? = some v → m'.promise.phase.value? = some v
  waits : m'.promise.phase.value? = none → m'.promise.hook = m.promise.hook
  /-- A hook is run with the outcome of the value. -/
  pays : ∀ v, m.promise.phase.value? = none → m'.promise.phase.value? = some v →
    m.promise.hook ≠ none → .hook v.outcome ∈ m'.events

namespace Evolves

variable {m m' m'' : Machine ω}

theorem same (events : m.events <+: m'.events)
    (phase : m'.promise.phase.value? = m.promise.phase.value?)
    (hook : m'.promise.hook = m.promise.hook) : m.Evolves m' where
  events := events
  stays v hv := phase.trans hv
  waits _ := hook
  pays v hnone hv := by
    rw [phase, hnone] at hv
    cases hv

theorem refl (m : Machine ω) : m.Evolves m := same (List.prefix_refl _) rfl rfl

theorem trans (h : m.Evolves m') (h' : m'.Evolves m'') : m.Evolves m'' where
  events := h.events.trans h'.events
  stays v hv := h'.stays v (h.stays v hv)
  waits hnone := by
    cases hv : m'.promise.phase.value? with
    | none => exact (h'.waits hnone).trans (h.waits hv)
    | some v =>
      rw [h'.stays v hv] at hnone
      cases hnone
  pays v hnone hv hhook := by
    cases hv' : m'.promise.phase.value? with
    | none => exact h'.pays v hv' hv (by rwa [h.waits hv'])
    | some v' =>
      have hpaid := h.pays v' hnone hv' hhook
      rw [h'.stays v' hv', Option.some.injEq] at hv
      exact h'.events.subset (hv ▸ hpaid)

/-- A promise that is pending now was pending before. -/
theorem pending (h : m.Evolves m') (hp : m'.promise.phase = .pending) :
    m.promise.phase = .pending := by
  rw [← Phase.value?_eq_none] at hp ⊢
  cases hv : m.promise.phase.value? with
  | none => rfl
  | some v =>
    rw [h.stays v hv] at hp
    cases hp

/-- What stands on the stack does not matter. -/
theorem push (h : m.Evolves m') (frames : List (Frame ω)) : m.Evolves (m'.push frames) :=
  ⟨h.events, h.stays, h.waits, h.pays⟩

end Evolves

/-- An attempt comes too late, or it stores the value, to be shown after the hook if there is
one. -/
theorem settle_cases (m : Machine ω) (v : Settled ω) :
    (m.promise.phase ≠ .pending ∧ m.settle v = m) ∨
    (m.promise.phase = .pending ∧ m.promise.hook = none ∧
      m.settle v =
        { m with promise := { m.promise with phase := .completing v } }.push [.publish]) ∨
    ∃ steps, m.promise.phase = .pending ∧ m.promise.hook = some steps ∧
      m.settle v =
        ({ m with promise := { m.promise with phase := .completing v, hook := none } }.emit
          [.hook v.outcome]).push [.body steps, .guard v.kind, .publish] := by
  by_cases hp : m.promise.phase = .pending
  · right
    cases hhook : m.promise.hook with
    | none =>
      left
      exact ⟨hp, rfl, by simp only [settle, Promise.begin?, hp, hhook]⟩
    | some steps =>
      right
      exact ⟨steps, hp, rfl, by simp only [settle, Promise.begin?, hp, hhook]⟩
  · left
    exact ⟨hp, (settle_lost (Promise.isPending_eq_false_iff.mpr hp) v).1⟩

theorem settle_evolves (m : Machine ω) (v : Settled ω) : m.Evolves (m.settle v) := by
  rcases m.settle_cases v with ⟨-, h⟩ | ⟨hp, hhook, h⟩ | ⟨steps, hp, hhook, h⟩
  · rw [h]
    exact .refl m
  · rw [h]
    apply Evolves.push
    refine ⟨List.prefix_refl _, ?_, ?_, ?_⟩ <;> simp [Phase.value?, hp, hhook]
  · rw [h]
    apply Evolves.push
    refine ⟨List.prefix_append _ _, ?_, ?_, ?_⟩ <;> simp [Phase.value?, hp, emit]

theorem register_evolves (m : Machine ω) (c : Callback (Reaction ω)) :
    m.Evolves (m.register c) := by
  cases hp : m.promise.phase <;>
    exact .same (by simp [register, Promise.register, hp, push])
      (by simp [register, Promise.register, hp, push])
      (by simp [register, Promise.register, hp, push])

theorem publish_evolves (m : Machine ω) : m.Evolves m.publish := by
  cases hp : m.promise.phase <;>
    exact .same (by simp [publish, Promise.publish, hp, push])
      (by simp [publish, Promise.publish, hp, push, Phase.value?])
      (by simp [publish, Promise.publish, hp, push])

theorem fire_evolves (m : Machine ω) (c : Callback (Reaction ω)) (v : Settled ω) :
    m.Evolves (m.fire c v) := by
  unfold fire
  split
  · exact .same (List.prefix_append _ _) rfl rfl
  · exact .refl m

theorem runTask_evolves (m : Machine ω) : m.Evolves m.runTask := by
  unfold runTask
  split
  · exact .refl m
  · split
    · exact .refl m
    · split
      · exact .refl m
      · exact .same (List.prefix_append _ _) rfl rfl

theorem spend_evolves (m : Machine ω) (q : Question) : m.Evolves (m.spend q) := by
  unfold spend
  split
  · split
    · exact .refl m
    · exact .same (List.prefix_refl _) rfl rfl
  · exact .refl m

theorem afterExpiry_evolves (m : Machine ω) (won : Bool) : m.Evolves (m.afterExpiry won) := by
  unfold afterExpiry
  split
  · exact .refl m
  · exact .same (List.prefix_refl _) rfl rfl

variable [Outcome ω]

theorem conclude_evolves (m : Machine ω) (r : CallResult) : m.Evolves (m.conclude r) := by
  unfold conclude
  split
  · exact .refl m
  · split
    · exact .refl m
    · exact m.settle_evolves _

theorem expire_evolves (m : Machine ω) : m.Evolves m.expire := by
  unfold expire
  split
  · exact .refl m
  · split
    · exact .refl m
    · exact ((Evolves.refl m).push _).trans (settle_evolves _ _)

theorem perform_evolves (m : Machine ω) (s : Step ω) : m.Evolves (m.perform s) := by
  cases s with
  | complete o x => exact m.settle_evolves _
  | fail o e => exact m.settle_evolves _
  | on kind label body => exact m.register_evolves _
  | panic p => exact .same (List.prefix_refl _) rfl rfl
  | ask q => exact m.spend_evolves q
  | run => exact m.runTask_evolves
  | expire => exact m.expire_evolves
  | cancel => exact .same (List.prefix_refl _) rfl rfl

/-- Beginning a step other than a panic: it is performed above its report. -/
theorem work1_body (m : Machine ω) {s : Step ω} {rest : Script ω} (h : s.verb ≠ .panic) :
    m.work1 (.body (s :: rest)) =
      (m.push [.report s.verb (m.answer s), .body rest]).perform s := by
  cases s with
  | panic p => exact absurd rfl h
  | _ => rfl

theorem work1_evolves (m : Machine ω) (f : Frame ω) : m.Evolves (m.work1 f) := by
  cases f with
  | body script =>
    cases script with
    | nil => exact .refl m
    | cons s rest =>
      by_cases hpanic : s.verb = .panic
      · obtain ⟨p, rfl⟩ := Step.verb_eq_panic hpanic
        exact .same (List.prefix_refl _) rfl rfl
      · rw [m.work1_body hpanic]
        exact ((Evolves.refl m).push _).trans (perform_evolves _ s)
  | report verb a => exact .same (List.prefix_append _ _) rfl rfl
  | guard kind => exact .refl m
  | publish => exact m.publish_evolves
  | fire c v => exact m.fire_evolves c v
  | conclude e => exact m.conclude_evolves _
  | expired won => exact m.afterExpiry_evolves won

theorem unwind_evolves (m : Machine ω) (p : Panic) (f : Frame ω) : m.Evolves (m.unwind p f) := by
  cases f with
  | guard kind => exact .same (List.prefix_append _ _) rfl rfl
  | conclude e =>
    have hcaught : m.Evolves { m with raised := none } := .same (List.prefix_refl _) rfl rfl
    exact hcaught.trans (conclude_evolves { m with raised := none } (Ending.panics p).result)
  | _ => exact .refl m

theorem step_evolves (m : Machine ω) : m.Evolves m.step := by
  unfold step
  split
  · exact .refl m
  · rename_i f below _
    have hbelow : m.Evolves { m with stack := below } := .same (List.prefix_refl _) rfl rfl
    split
    · exact hbelow.trans (work1_evolves _ f)
    · exact hbelow.trans (unwind_evolves _ _ f)

theorem runFor_evolves (m : Machine ω) (n : Nat) : m.Evolves (m.runFor n) := by
  induction n generalizing m with
  | zero => exact .refl m
  | succ n ih => exact m.step_evolves.trans (ih m.step)

/-- A panic that nothing caught is the answer and does not stay. -/
theorem enact_lowered (m : Machine ω) (s : Step ω) :
    (m.enact s).2 = { (m.perform s).run with raised := none } := by
  simp only [Machine.enact]
  split
  · rename_i hr
    rw [← hr]
  · rfl

theorem enact_evolves (m : Machine ω) (s : Step ω) : m.Evolves (m.enact s).2 := by
  have hrun : m.Evolves (m.perform s).run := (m.perform_evolves s).trans (runFor_evolves _ _)
  rw [enact_lowered]
  exact ⟨hrun.events, hrun.stays, hrun.waits, hrun.pays⟩

theorem after_evolves (m : Machine ω) (program : Script ω) : m.Evolves (m.after program) := by
  induction program generalizing m with
  | nil => exact .refl m
  | cons s program ih => exact (m.enact_evolves s).trans (ih _)

end Forward

/-- A panic on top of these frames drops nothing but scripts and reports before it is caught. -/
def Catches : List (Frame ω) → Prop
  | .body _ :: rest | .report _ _ :: rest => Catches rest
  | .publish :: _ | .fire _ _ :: _ | .expired _ :: _ => False
  | .guard _ :: _ | .conclude _ :: _ | [] => True

/-- Whatever stands under a script catches its panic. -/
def Sheltered : List (Frame ω) → Prop
  | .body _ :: rest => Catches rest ∧ Sheltered rest
  | _ :: rest => Sheltered rest
  | [] => True

/-- Nothing is raised, panics will be caught, and a value that is stored will be shown. -/
structure Upright (m : Machine ω) : Prop where
  quiet : m.fallback.Quiet
  sound : m.raised = none
  sheltered : Sheltered m.stack
  shown : ∀ v, m.promise.phase = .completing v → .publish ∈ m.stack

theorem Sheltered.tail {f : Frame ω} {below : List (Frame ω)} (h : Sheltered (f :: below)) :
    Sheltered below := by
  cases f with
  | body script => exact h.2
  | _ => exact h

namespace Upright

variable {m : Machine ω}

/-- A frame is taken away that shows no value. -/
theorem pop (h : m.Upright) {f : Frame ω} {below : List (Frame ω)} (hs : m.stack = f :: below)
    (hf : f ≠ .publish) : ({ m with stack := below } : Machine ω).Upright := by
  refine ⟨h.quiet, h.sound, ?_, ?_⟩
  · have hsheltered := h.sheltered
    rw [hs] at hsheltered
    exact hsheltered.tail
  · intro v hv
    have hmem := h.shown v hv
    rw [hs, List.mem_cons] at hmem
    exact hmem.resolve_left (Ne.symm hf)

theorem push (h : m.Upright) (frames : List (Frame ω))
    (hframes : Sheltered (frames ++ m.stack)) : (m.push frames).Upright :=
  ⟨h.quiet, h.sound, hframes, fun v hv => List.mem_append_right _ (h.shown v hv)⟩

theorem settle (h : m.Upright) (v : Settled ω) : (m.settle v).Upright := by
  rcases m.settle_cases v with ⟨-, hs⟩ | ⟨-, -, hs⟩ | ⟨steps, -, -, hs⟩
  · rwa [hs]
  · rw [hs]
    exact ⟨h.quiet, h.sound, h.sheltered, by simp [Machine.push]⟩
  · rw [hs]
    exact ⟨h.quiet, h.sound, ⟨trivial, h.sheltered⟩, by simp [Machine.push]⟩

theorem register (h : m.Upright) (c : Callback (Reaction ω)) : (m.register c).Upright := by
  cases hdone : m.promise.isDone with
  | false =>
    rw [register_early hdone]
    exact ⟨h.quiet, h.sound, h.sheltered, h.shown⟩
  | true =>
    cases hp : m.promise.phase with
    | done v =>
      simp only [Machine.register, Promise.register, hp]
      exact ⟨h.quiet, h.sound, h.sheltered, by simp [Machine.push, hp]⟩
    | _ => simp [Promise.isDone, Promise.settled?, hp] at hdone

theorem fire (h : m.Upright) (c : Callback (Reaction ω)) (v : Settled ω) :
    (m.fire c v).Upright := by
  unfold Machine.fire
  split
  · exact ⟨h.quiet, h.sound, ⟨trivial, h.sheltered⟩,
      fun v' hv' => List.mem_append_right _ (h.shown v' hv')⟩
  · exact h

theorem runTask (h : m.Upright) : m.runTask.Upright := by
  unfold Machine.runTask
  split
  · exact h
  · split
    · exact h
    · split
      · exact h
      · exact ⟨h.quiet, h.sound, ⟨trivial, h.sheltered⟩,
          fun v' hv' => List.mem_append_right _ (h.shown v' hv')⟩

theorem spend (h : m.Upright) (q : Question) : (m.spend q).Upright := by
  unfold Machine.spend
  split
  · split
    · exact h
    · exact ⟨h.quiet, h.sound, h.sheltered, h.shown⟩
  · exact h

theorem cancel (h : m.Upright) : m.cancel.Upright := ⟨h.quiet, h.sound, h.sheltered, h.shown⟩

theorem afterExpiry (h : m.Upright) (won : Bool) : (m.afterExpiry won).Upright := by
  unfold Machine.afterExpiry
  split
  · exact h
  · exact ⟨h.quiet, h.sound, h.sheltered, h.shown⟩

variable [Outcome ω]

theorem conclude (h : m.Upright) (r : CallResult) : (m.conclude r).Upright := by
  unfold Machine.conclude
  split
  · exact h
  · split
    · exact h
    · exact h.settle _

theorem expire (h : m.Upright) : m.expire.Upright := by
  unfold Machine.expire
  split
  · exact h
  · split
    · exact h
    · exact (h.push [.expired _] h.sheltered).settle _

/-- Only a panic of its own raises anything when a step begins. -/
theorem perform (h : m.Upright) {s : Step ω} (hs : s.verb ≠ .panic) : (m.perform s).Upright := by
  cases s with
  | complete o x => exact h.settle _
  | fail o e => exact h.settle _
  | on kind label body => exact h.register _
  | panic p => exact absurd rfl hs
  | ask q => exact h.spend q
  | run => exact h.runTask
  | expire => exact h.expire
  | cancel => exact h.cancel

end Upright

theorem sheltered_fires (cs : List (Callback (Reaction ω))) (v : Settled ω)
    {below : List (Frame ω)} (h : Sheltered below) :
    Sheltered (cs.map (fun c => Frame.fire c v) ++ below) := by
  induction cs with
  | nil => exact h
  | cons c cs ih => exact ih

/-- Showing the value leaves callbacks to be fired. -/
theorem upright_publish {m : Machine ω} (quiet : m.fallback.Quiet)
    (sound : m.raised = none) (sheltered : Sheltered m.stack) : m.publish.Upright := by
  cases hp : m.promise.phase with
  | completing v =>
    simp only [publish, Promise.publish, hp]
    exact ⟨quiet, sound, sheltered_fires _ v sheltered, by simp [Machine.push]⟩
  | _ =>
    simp only [publish, hp]
    exact ⟨quiet, sound, sheltered, by simp [hp]⟩

/-- If a panic was raised, it will be caught in time. -/
structure Secure (m : Machine ω) : Prop where
  upright : ({ m with raised := none } : Machine ω).Upright
  caught : m.raised ≠ none → Catches m.stack

namespace Secure

variable {m : Machine ω}

theorem of_upright (h : m.Upright) : m.Secure := by
  have hsame : ({ m with raised := none } : Machine ω) = m := by rw [← h.sound]
  exact ⟨by rwa [hsame], fun hr => absurd h.sound hr⟩

theorem sound (h : m.Secure) (hr : m.raised = none) : m.Upright := by
  have hsame : ({ m with raised := none } : Machine ω) = m := by rw [← hr]
  rw [← hsame]
  exact h.upright

variable [Outcome ω] {f : Frame ω} {below : List (Frame ω)}

theorem work (h : m.Secure) (hs : m.stack = f :: below) (hr : m.raised = none) :
    (({ m with stack := below } : Machine ω).work1 f).Secure := by
  have hm : m.Upright := h.sound hr
  by_cases hpublish : f = .publish
  · subst hpublish
    have hsheltered := hm.sheltered
    rw [hs] at hsheltered
    exact of_upright (upright_publish hm.quiet hr hsheltered)
  · have hbelow := hm.pop hs hpublish
    cases f with
    | body script =>
      have hcatches : Catches below := by
        have hsheltered := hm.sheltered
        rw [hs] at hsheltered
        exact hsheltered.1
      cases script with
      | nil => exact of_upright hbelow
      | cons s rest =>
        by_cases hpanic : s.verb = .panic
        · obtain ⟨p, rfl⟩ := Step.verb_eq_panic hpanic
          refine ⟨?_, fun _ => hcatches⟩
          exact ⟨hbelow.quiet, rfl, hbelow.sheltered, hbelow.shown⟩
        · rw [work1_body _ hpanic]
          refine of_upright ((hbelow.push _ ?_).perform hpanic)
          exact ⟨hcatches, hbelow.sheltered⟩
    | report verb a =>
      exact of_upright ⟨hbelow.quiet, hbelow.sound, hbelow.sheltered, hbelow.shown⟩
    | guard kind => exact of_upright hbelow
    | publish => exact absurd rfl hpublish
    | fire c v => exact of_upright (hbelow.fire c v)
    | conclude e => exact of_upright (hbelow.conclude _)
    | expired won => exact of_upright (hbelow.afterExpiry won)

theorem unwind (h : m.Secure) (hs : m.stack = f :: below) {p : Panic} (hr : m.raised = some p) :
    (({ m with stack := below } : Machine ω).unwind p f).Secure := by
  have hcatches : Catches (f :: below) := by
    rw [← hs]
    exact h.caught (by simp [hr])
  have hbelow : f ≠ .publish → ({ m with stack := below, raised := none } : Machine ω).Upright :=
    fun hf => h.upright.pop hs hf
  cases f with
  | body script => exact ⟨hbelow (by simp), fun _ => hcatches⟩
  | report verb a => exact ⟨hbelow (by simp), fun _ => hcatches⟩
  | guard kind =>
    have hquiet := hbelow (by simp)
    exact of_upright ⟨hquiet.quiet, hquiet.quiet kind p, hquiet.sheltered, hquiet.shown⟩
  | conclude e =>
    have hconcluded := (hbelow (by simp)).conclude (Ending.panics p).result
    exact of_upright hconcluded
  | publish => exact hcatches.elim
  | fire c v => exact hcatches.elim
  | expired won => exact hcatches.elim

theorem step (h : m.Secure) : m.step.Secure := by
  cases hs : m.stack with
  | nil => rwa [step_halted hs]
  | cons f below =>
    cases hr : m.raised with
    | none =>
      rw [step_frame hs hr]
      exact h.work hs hr
    | some p =>
      rw [step_panic hs hr]
      exact h.unwind hs hr

theorem runFor (h : m.Secure) (n : Nat) : (m.runFor n).Secure := by
  induction n generalizing m with
  | zero => exact h
  | succ n ih => exact ih h.step

end Secure

/-- Between two steps from outside nothing is left to run, and the promise is pending or done. -/
structure AtRest (m : Machine ω) : Prop extends Upright m where
  ended : m.stack = []

theorem AtRest.isDone {m : Machine ω} (h : m.AtRest) (hp : m.promise.phase ≠ .pending) :
    m.promise.isDone = true := by
  cases hphase : m.promise.phase with
  | pending => exact absurd hphase hp
  | completing v =>
    have hmem := h.shown v hphase
    rw [h.ended] at hmem
    cases hmem
  | done v => simp [Promise.isDone, Promise.settled?, hphase]

variable [Outcome ω]

/-- A step begins from outside; there is nothing that its panic could drop. -/
theorem AtRest.perform {m : Machine ω} (h : m.AtRest) (s : Step ω) : (m.perform s).Secure := by
  by_cases hpanic : s.verb = .panic
  · obtain ⟨p, rfl⟩ := Step.verb_eq_panic hpanic
    refine ⟨⟨h.quiet, rfl, h.sheltered, h.shown⟩, fun _ => ?_⟩
    show Catches m.stack
    rw [h.ended]
    trivial
  · exact .of_upright (h.toUpright.perform hpanic)

theorem AtRest.enact {m : Machine ω} (h : m.AtRest) (s : Step ω) : (m.enact s).2.AtRest := by
  have hrun : (m.perform s).run.Secure := (h.perform s).runFor _
  have hended : (m.perform s).run.stack = [] := halted_run _
  rw [enact_lowered]
  exact ⟨hrun.upright, hended⟩

theorem AtRest.after {m : Machine ω} (h : m.AtRest) (program : Script ω) :
    (m.after program).AtRest := by
  induction program generalizing m with
  | nil => exact h
  | cons s program ih => exact ih (h.enact s)

end Machine

end Turnstile
