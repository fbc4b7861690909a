import Turnstile.Proofs.Episodes
import Turnstile.Proofs.Shelter

/-!
# Trimmed programs

In a trimmed program every body ends just before its first panic. A program and its trimmed program
keep step with each other for good: right under a body stands the guard that catches its panic, so
trimming commutes with every step of the machine.
-/

namespace Turnstile

variable {ω : Type}

section Trimming

mutual

/-- A step whose body, if it has one, is trimmed. -/
def Step.trim : Step ω → Step ω
  | .on kind label body => .on kind label (Step.trims body)
  | s => s

def Step.trims : List (Step ω) → List (Step ω)
  | [] => []
  | .panic _ :: _ => []
  | s :: rest => s.trim :: Step.trims rest

end

/-- A body up to its first panic, and likewise all bodies in it. -/
def Script.trim (script : Script ω) : Script ω := Step.trims script

namespace Script

@[simp] theorem trim_nil : trim ([] : Script ω) = [] := by rw [trim, Step.trims]

@[simp] theorem trim_panic (p : Panic) (rest : Script ω) : trim (.panic p :: rest) = [] := by
  rw [trim, Step.trims]

theorem trim_cons {s : Step ω} (h : s.verb ≠ .panic) (rest : Script ω) :
    trim (s :: rest) = s.trim :: trim rest := by
  rw [trim, Step.trims, trim]
  rintro p rfl
  exact h rfl

end Script

@[simp] theorem Step.trim_on (kind : Kind) (label : String) (body : Script ω) :
    (Step.on kind label body).trim = .on kind label body.trim := by rw [Step.trim, Script.trim]

theorem Step.trim_of_ne_on {s : Step ω} (h : s.verb ≠ .on) : s.trim = s := by
  rw [Step.trim]
  rintro kind label body rfl
  exact h rfl

@[simp] theorem Step.verb_trim (s : Step ω) : s.trim.verb = s.verb := by
  cases s with
  | on kind label body => rw [trim_on]; rfl
  | _ => rw [trim_of_ne_on (by simp [verb])]

def Callback.trim (c : Callback (Reaction ω)) : Callback (Reaction ω) :=
  ⟨c.kind, ⟨c.body.label, c.body.body.trim⟩⟩

def Frame.trim : Frame ω → Frame ω
  | .body script => .body script.trim
  | .fire c v => .fire c.trim v
  | f => f

/-- What the fallback handler was told. -/
def Event.report? : Event ω → Option (Kind × String)
  | .fallback _ kind message => some (kind, message)
  | .hook _ | .callback .. | .action _ | .did .. | .fired _ => none

/-- What was noted instead, if there is no handler. -/
def Note.report? : Note → Option (Kind × String)
  | .callbackPanicked kind message => some (kind, message)
  | _ => none

namespace Machine

/-- The reports of panics in what happened and what was noted. -/
def reports (m : Machine ω) : List (Kind × String) :=
  m.events.filterMap Event.report? ++ m.notes.filterMap Note.report?

/-- The machine with trimmed bodies, without panics and the reports of them. -/
def trim (m : Machine ω) : Machine ω where
  promise :=
    { m.promise with
      hook := m.promise.hook.map Script.trim
      callbacks := m.promise.callbacks.map Callback.trim }
  work := m.work
  fallback := m.fallback
  stack := m.stack.map Frame.trim
  raised := none
  events := m.events.filter fun e => e.report?.isNone
  notes := m.notes.filter fun n => n.report?.isNone
  waited := m.waited

theorem trim_push (m : Machine ω) (frames : List (Frame ω)) :
    (m.push frames).trim = m.trim.push (frames.map Frame.trim) := by
  simp [trim, push]

theorem trim_emit (m : Machine ω) {e : Event ω} (h : e.report? = none) :
    (m.emit [e]).trim = m.trim.emit [e] := by
  simp [trim, emit, h]

theorem trim_settle (m : Machine ω) (v : Settled ω) : (m.settle v).trim = m.trim.settle v := by
  obtain ⟨⟨phase, hook, callbacks⟩, _, _, _, _, _, _, _⟩ := m
  cases phase <;> cases hook <;>
    simp [settle, Promise.begin?, trim, push, emit, Frame.trim, Event.report?]

theorem trim_publish (m : Machine ω) : m.publish.trim = m.trim.publish := by
  obtain ⟨⟨phase, hook, callbacks⟩, _, _, _, _, _, _, _⟩ := m
  cases phase <;> simp [publish, Promise.publish, trim, push, Frame.trim]

theorem trim_register (m : Machine ω) (c : Callback (Reaction ω)) :
    (m.register c).trim = m.trim.register c.trim := by
  obtain ⟨⟨phase, hook, callbacks⟩, _, _, _, _, _, _, _⟩ := m
  cases phase <;> simp [register, Promise.register, trim, push, Frame.trim]

theorem trim_fire (m : Machine ω) (c : Callback (Reaction ω)) (v : Settled ω) :
    (m.fire c v).trim = m.trim.fire c.trim v := by
  by_cases h : c.kind = v.kind <;>
    simp [fire, h, trim, push, emit, Frame.trim, Callback.trim, Event.report?]

theorem trim_report (m : Machine ω) (kind : Kind) (p : Panic) :
    (m.report kind p).trim = m.trim := by
  cases hf : m.fallback <;>
    simp [report, trim, hf, Fallback.events, Fallback.notes, Event.report?, Note.report?]

theorem trim_spend (m : Machine ω) (q : Question) : (m.spend q).trim = m.trim.spend q := by
  cases q with
  | getTimeout wait =>
    have hdone : m.trim.promise.isDone = m.promise.isDone := rfl
    simp only [spend, hdone]
    split <;> rfl
  | _ => rfl

variable [Outcome ω]

theorem answer_trim (m : Machine ω) (s : Step ω) : m.trim.answer s.trim = m.answer s := by
  cases s with
  | on kind label body => rw [Step.trim_on]; rfl
  | ask q =>
    rw [Step.trim_of_ne_on (by simp [Step.verb])]
    cases q <;> rfl
  | _ => rw [Step.trim_of_ne_on (by simp [Step.verb])]; rfl

theorem trim_perform {m : Machine ω} (alone : m.work = none) {s : Step ω} (h : s.verb ≠ .panic) :
    (m.perform s).trim = m.trim.perform s.trim := by
  have alone' : m.trim.work = none := alone
  by_cases hon : s.verb = .on
  · cases s with
    | on kind label body => rw [Step.trim_on]; exact trim_register m _
    | _ => cases hon
  · rw [Step.trim_of_ne_on hon]
    cases s with
    | complete o x => exact trim_settle m _
    | fail o e => exact trim_settle m _
    | on kind label body => exact absurd rfl hon
    | panic p => exact absurd rfl h
    | ask q => exact trim_spend m q
    | run => simp only [perform, runTask, alone, alone']
    | expire => simp only [perform, expire, alone, alone']
    | cancel => rfl

end Machine

end Trimming

theorem Step.verb_ne_panic {s : Step ω} {rest : Script ω}
    (h : ∀ p rest', Frame.body (s :: rest) ≠ .body (.panic p :: rest')) : s.verb ≠ .panic := by
  intro hverb
  obtain ⟨p, rfl⟩ := Step.verb_eq_panic hverb
  exact h p rest rfl

/-- A frame of the ending that came. -/
def Frame.Fits (phase : Phase ω) : Frame ω → Prop
  | .guard kind => ∃ v, phase.value? = some v ∧ kind = v.kind
  | .fire _ v => phase.value? = some v
  | .body _ | .report .. | .publish | .conclude _ | .expired _ => True

/-- Before there is a value no frame belongs to one. -/
theorem Frame.Fits.early {phase : Phase ω} {f : Frame ω} (h : f.Fits phase)
    (hp : phase = .pending) (phase' : Phase ω) : f.Fits phase' := by
  subst hp
  cases f with
  | guard kind => obtain ⟨v, hv, -⟩ := h; cases hv
  | fire c v => cases h
  | _ => trivial

namespace Machine

/-- Right under a body stands the guard that catches its panic. -/
def Guarded : List (Frame ω) → Prop
  | .body _ :: rest => (∃ kind below, rest = .guard kind :: below) ∧ Guarded rest
  | _ :: rest => Guarded rest
  | [] => True

theorem Guarded.tail {f : Frame ω} {below : List (Frame ω)} (h : Guarded (f :: below)) :
    Guarded below := by
  cases f with
  | body script => exact h.2
  | _ => exact h

theorem guarded_fires (cs : List (Callback (Reaction ω))) (v : Settled ω)
    {below : List (Frame ω)} (h : Guarded below) :
    Guarded (cs.map (fun c => Frame.fire c v) ++ below) := by
  induction cs with
  | nil => exact h
  | cons c cs ih => exact ih

/-- A promise on its own: bodies are guarded, and what is left to run belongs to the ending that
came. -/
structure Framed (m : Machine ω) : Prop extends Calm m where
  guarded : Guarded m.stack
  fits : ∀ f ∈ m.stack, f.Fits m.promise.phase

namespace Framed

variable {m : Machine ω} {f : Frame ω} {below : List (Frame ω)}

theorem pop (h : m.Framed) (hs : m.stack = f :: below) :
    ({ m with stack := below } : Machine ω).Framed := by
  have hguarded := h.guarded
  rw [hs] at hguarded
  exact ⟨⟨h.alone, h.quiet⟩, hguarded.tail, fun g hg => h.fits g (by simp [hs, hg])⟩

theorem push (h : m.Framed) {frames : List (Frame ω)} (guarded : Guarded (frames ++ m.stack))
    (fits : ∀ f ∈ frames, f.Fits m.promise.phase) : (m.push frames).Framed :=
  ⟨⟨h.alone, h.quiet⟩, guarded, fun f hf => (List.mem_append.mp hf).elim (fits f) (h.fits f)⟩

theorem settle (h : m.Framed) (v : Settled ω) : (m.settle v).Framed := by
  rcases m.settle_cases v with ⟨-, hs⟩ | ⟨hp, -, hs⟩ | ⟨steps, hp, -, hs⟩
  · rwa [hs]
  · have hstored : ∀ hook, ({ m with promise := ⟨.completing v, hook, m.promise.callbacks⟩ } :
        Machine ω).Framed := fun hook =>
      ⟨⟨h.alone, h.quiet⟩, h.guarded, fun f hf => (h.fits f hf).early hp _⟩
    rw [hs]
    exact (hstored _).push h.guarded (by simp [Frame.Fits])
  · have hstored : ({ m with
        promise := ⟨.completing v, none, m.promise.callbacks⟩
        events := m.events ++ [.hook v.outcome] } : Machine ω).Framed :=
      ⟨⟨h.alone, h.quiet⟩, h.guarded, fun f hf => (h.fits f hf).early hp _⟩
    rw [hs]
    exact hstored.push ⟨⟨_, _, rfl⟩, h.guarded⟩ (by simp [Frame.Fits, Phase.value?])

theorem register (h : m.Framed) (c : Callback (Reaction ω)) : (m.register c).Framed := by
  cases hdone : m.promise.isDone with
  | false =>
    rw [register_early hdone]
    exact ⟨⟨h.alone, h.quiet⟩, h.guarded, h.fits⟩
  | true =>
    cases hp : m.promise.phase with
    | done v =>
      have hregister : m.register c = m.push [.fire c v] := by
        simp [Machine.register, Promise.register, hp]
      rw [hregister]
      exact h.push h.guarded (by simp [Frame.Fits, hp, Phase.value?])
    | _ => simp [Promise.isDone, Promise.settled?, hp] at hdone

theorem fire (h : m.Framed) {v : Settled ω} (hv : m.promise.phase.value? = some v)
    (c : Callback (Reaction ω)) : (m.fire c v).Framed := by
  unfold Machine.fire
  split
  · rename_i hkind
    have hemitted : (m.emit [.callback c.body.label v.result]).Framed :=
      ⟨⟨h.alone, h.quiet⟩, h.guarded, h.fits⟩
    exact hemitted.push ⟨⟨_, _, rfl⟩, h.guarded⟩ (by simp [Frame.Fits, emit, hv, hkind])
  · exact h

theorem publish (h : m.Framed) : m.publish.Framed := by
  cases hp : m.promise.phase with
  | completing v =>
    have hshown : ({ m with promise := { m.promise with phase := .done v, callbacks := [] } } :
        Machine ω).Framed := by
      refine ⟨⟨h.alone, h.quiet⟩, h.guarded, fun f hf => ?_⟩
      have hfits := h.fits f hf
      rw [hp] at hfits
      cases f <;> exact hfits
    have hpublish : m.publish =
        ({ m with promise := { m.promise with phase := .done v, callbacks := [] } } :
          Machine ω).push (m.promise.callbacks.map fun c => .fire c v) := by
      simp [Machine.publish, Promise.publish, hp]
    rw [hpublish]
    refine hshown.push (guarded_fires _ v h.guarded) fun f hf => ?_
    obtain ⟨c, -, rfl⟩ := List.mem_map.mp hf
    rfl
  | _ => simpa [Machine.publish, hp] using h

theorem report (h : m.Framed) (kind : Kind) (p : Panic) : (m.report kind p).Framed :=
  ⟨⟨h.alone, h.quiet⟩, h.guarded, h.fits⟩

variable [Outcome ω]

theorem perform (h : m.Framed) (s : Step ω) : (m.perform s).Framed := by
  rcases s.sorts with ⟨v, ha⟩ | hidle | ⟨p, rfl⟩ | ⟨kind, label, body, rfl⟩
  · rw [(perform_attempt ha m).1]
    exact h.settle v
  · obtain ⟨hs, -, hp, calm⟩ := perform_idle h.toCalm hidle
    exact ⟨calm, hs ▸ h.guarded, hs ▸ hp ▸ h.fits⟩
  · exact ⟨⟨h.alone, h.quiet⟩, h.guarded, h.fits⟩
  · exact h.register _

end Framed

section Steps

variable [Outcome ω] {m : Machine ω} {f : Frame ω} {below : List (Frame ω)}

theorem raised_perform (calm : m.Calm) {s : Step ω} (h : s.verb ≠ .panic) :
    (m.perform s).raised = m.raised := by
  rcases s.sorts with ⟨v, ha⟩ | hidle | ⟨p, rfl⟩ | ⟨kind, label, body, rfl⟩
  · rw [(perform_attempt ha m).1]
    rcases m.settle_cases v with ⟨-, hs⟩ | ⟨-, -, hs⟩ | ⟨steps, -, -, hs⟩ <;> rw [hs] <;> rfl
  · exact (perform_idle calm hidle).2.1
  · exact absurd rfl h
  · rw [perform, Machine.register]
    split <;> rfl

/-- What a step can do: nothing is left, a body ends by a panic, its guard hands the panic over
to the handler, or a frame is worked off without any panic. -/
inductive Advance (m : Machine ω) : Machine ω → Prop where
  | rest (hs : m.stack = []) : Advance m m
  | outburst {p : Panic} {rest : Script ω} {kind : Kind} {below : List (Frame ω)}
      (hr : m.raised = none) (hs : m.stack = .body (.panic p :: rest) :: .guard kind :: below) :
      Advance m { m with stack := .guard kind :: below, raised := some p }
  | report {p : Panic} {kind : Kind} {below : List (Frame ω)} (hr : m.raised = some p)
      (hs : m.stack = .guard kind :: below) :
      Advance m (({ m with stack := below } : Machine ω).report kind p)
  | work {f : Frame ω} {below : List (Frame ω)} (hr : m.raised = none)
      (hs : m.stack = f :: below) (hf : ∀ p rest, f ≠ .body (.panic p :: rest)) :
      Advance m (({ m with stack := below } : Machine ω).work1 f)

/-- A panic that was raised has reached its guard. -/
def Caught (m : Machine ω) : Prop :=
  m.raised ≠ none → ∃ kind below, m.stack = .guard kind :: below

theorem Framed.advance (h : m.Framed) (caught : m.Caught) : m.Advance m.step := by
  by_cases hr : m.raised = none
  · cases hs : m.stack with
    | nil =>
      rw [step_halted hs]
      exact .rest hs
    | cons f below =>
      rw [step_frame hs hr]
      by_cases hf : ∃ p rest, f = .body (.panic p :: rest)
      · obtain ⟨p, rest, rfl⟩ := hf
        have hguarded := h.guarded
        rw [hs] at hguarded
        obtain ⟨⟨kind, below', rfl⟩, -⟩ := hguarded
        exact .outburst hr hs
      · exact .work hr hs (by simpa using hf)
  · obtain ⟨p, hp⟩ := Option.ne_none_iff_exists'.mp hr
    obtain ⟨kind, below, hs⟩ := caught hr
    rw [step_panic hs hp]
    exact .report hp hs

theorem trim_work1 (calm : m.Calm) (hf : ∀ p rest, f ≠ .body (.panic p :: rest)) :
    (m.work1 f).trim = m.trim.work1 f.trim := by
  cases f with
  | body script =>
    cases script with
    | nil => simp [work1, Frame.trim]
    | cons s rest =>
      have hpanic := Step.verb_ne_panic hf
      rw [work1_body _ hpanic, trim_perform (by exact calm.alone) hpanic, trim_push, Frame.trim,
        Script.trim_cons hpanic, work1_body _ (by simpa using hpanic), answer_trim, Step.verb_trim]
      rfl
  | report verb a => exact trim_emit m rfl
  | guard kind => rfl
  | publish => exact trim_publish m
  | fire c v => exact trim_fire m c v
  | conclude ending =>
    have alone' : m.trim.work = none := calm.alone
    simp only [Frame.trim, work1, conclude, calm.alone, alone']
  | expired won =>
    have alone' : m.trim.work = none := calm.alone
    simp only [Frame.trim, work1, afterExpiry, calm.alone, alone']

omit [Outcome ω] in
theorem stack_trim (hs : m.stack = f :: below) :
    m.trim.stack = f.trim :: below.map Frame.trim := by simp [trim, hs]

/-- Trimming commutes with every step of the machine. -/
theorem trim_step (h : m.Framed) (caught : m.Caught) : m.step.trim = m.trim.step := by
  have advance := h.advance caught
  generalize m.step = m' at advance
  cases advance with
  | rest hs => exact (step_halted (by simp [trim, hs])).symm
  | outburst hr hs =>
    -- the trimmed body is at its end
    have hend := stack_trim hs
    rw [Frame.trim, Script.trim_panic] at hend
    rw [step_frame hend rfl]
    rfl
  | report hr hs =>
    rw [trim_report, step_frame (stack_trim hs) rfl]
    rfl
  | @work f below hr hs hf =>
    rw [trim_work1 (m := { m with stack := below }) ⟨h.alone, h.quiet⟩ hf,
      step_frame (stack_trim hs) rfl]
    rfl

/-- Working off a frame without a panic raises none. -/
theorem Framed.work1 (h : m.Framed) (hr : m.raised = none) (hs : m.stack = f :: below)
    (hf : ∀ p rest, f ≠ .body (.panic p :: rest)) :
    (({ m with stack := below } : Machine ω).work1 f).Framed ∧
      (({ m with stack := below } : Machine ω).work1 f).raised = none := by
  have hpop := h.pop hs
  have hfits : f.Fits m.promise.phase := h.fits f (by simp [hs])
  cases f with
  | body script =>
    cases script with
    | nil => exact ⟨hpop, hr⟩
    | cons s rest =>
      have hpanic := Step.verb_ne_panic hf
      have hguarded : Guarded (.body (s :: rest) :: below) := hs ▸ h.guarded
      have hpush : (({ m with stack := below } : Machine ω).push
          [.report s.verb (answer { m with stack := below } s), .body rest]).Framed :=
        hpop.push hguarded (by simp [Frame.Fits])
      rw [work1_body _ hpanic]
      exact ⟨hpush.perform s, (raised_perform hpush.toCalm hpanic).trans hr⟩
  | report verb a => exact ⟨⟨⟨h.alone, h.quiet⟩, hpop.guarded, hpop.fits⟩, hr⟩
  | guard kind => exact ⟨hpop, hr⟩
  | publish =>
    refine ⟨hpop.publish, ?_⟩
    rw [Machine.work1, Machine.publish]
    split <;> exact hr
  | fire c v =>
    refine ⟨hpop.fire hfits c, ?_⟩
    rw [Machine.work1, Machine.fire]
    split <;> exact hr
  | conclude ending =>
    simp only [Machine.work1, Machine.conclude, h.alone]
    exact ⟨⟨⟨rfl, h.quiet⟩, hpop.guarded, hpop.fits⟩, hr⟩
  | expired won =>
    simp only [Machine.work1, Machine.afterExpiry, h.alone]
    exact ⟨⟨⟨rfl, h.quiet⟩, hpop.guarded, hpop.fits⟩, hr⟩

theorem Framed.step (h : m.Framed) (caught : m.Caught) : m.step.Framed ∧ m.step.Caught := by
  have advance := h.advance caught
  generalize m.step = m' at advance
  cases advance with
  | rest hs => exact ⟨h, caught⟩
  | outburst hr hs =>
    have hpop := h.pop hs
    exact ⟨⟨⟨h.alone, h.quiet⟩, hpop.guarded, hpop.fits⟩, fun _ => ⟨_, _, rfl⟩⟩
  | report hr hs => exact ⟨(h.pop hs).report _ _, fun hraised => absurd (h.quiet _ _) hraised⟩
  | work hr hs hf =>
    obtain ⟨hframed, hraised⟩ := h.work1 hr hs hf
    exact ⟨hframed, fun hne => absurd hraised hne⟩

/-- Both programs keep step with each other. -/
theorem Framed.runFor (h : m.Framed) (caught : m.Caught) (n : Nat) :
    (m.runFor n).Framed ∧ (m.runFor n).Caught ∧ (m.runFor n).trim = m.trim.runFor n := by
  induction n generalizing m with
  | zero => exact ⟨h, caught, rfl⟩
  | succ n ih =>
    obtain ⟨hframed, hcaught⟩ := h.step caught
    obtain ⟨hframed', hcaught', htrim⟩ := ih hframed hcaught
    refine ⟨hframed', hcaught', ?_⟩
    rw [Machine.runFor, htrim, trim_step h caught, Machine.runFor]

/-- The answers to the steps of a program, given from outside. -/
def answers (m : Machine ω) : Script ω → List (Answer ω)
  | [] => []
  | s :: program => (m.enact s).1 :: (m.enact s).2.answers program

omit [Outcome ω] in
theorem Resting.framed (rest : m.Resting) : m.Framed :=
  ⟨rest.toCalm, by simp [rest.ended, Guarded], by simp [rest.ended]⟩

/-- A step from outside begins without a panic, unless it is one. -/
theorem Resting.begins (rest : m.Resting) {s : Step ω} (h : s.verb ≠ .panic) :
    (m.perform s).Framed ∧ (m.perform s).Caught := by
  refine ⟨rest.framed.perform s, fun hr => absurd ?_ hr⟩
  rw [raised_perform rest.toCalm h, rest.sound]

/-- What a step from outside leads to ends without a panic, unless the step is one. -/
theorem Resting.run (rest : m.Resting) {s : Step ω} (h : s.verb ≠ .panic) :
    m.enact s = (m.answer s, (m.perform s).run) ∧ (m.perform s).run.Resting ∧
      (m.trim.perform s.trim).run = (m.perform s).run.trim := by
  obtain ⟨hframed, hcaught⟩ := rest.begins h
  obtain ⟨hend, hcaught', htrim⟩ := hframed.runFor hcaught (m.perform s).weight
  rw [← Machine.run] at hend hcaught' htrim
  have hstack : (m.perform s).run.stack = [] := halted_run _
  have hsound : (m.perform s).run.raised = none := by
    cases hr : (m.perform s).run.raised with
    | none => rfl
    | some p =>
      obtain ⟨kind, below, hs⟩ := hcaught' (by simp [hr])
      rw [hstack] at hs
      cases hs
  refine ⟨by simp [Machine.enact, hsound], ⟨hend.toCalm, hstack, hsound⟩, ?_⟩
  rw [trim_perform rest.alone h] at htrim
  have hlead : (m.trim.perform s.trim).Leads
      ((m.trim.perform s.trim).storyFor (m.perform s).weight) (m.perform s).run.trim :=
    ⟨(m.perform s).weight, htrim.symm, rfl⟩
  exact (hlead.run (by simp [trim, hstack])).1

theorem Resting.enact (rest : m.Resting) (s : Step ω) :
    (m.enact s).2.Resting ∧ m.trim.enact s.trim = ((m.enact s).1, (m.enact s).2.trim) := by
  by_cases hpanic : s.verb = .panic
  · obtain ⟨p, rfl⟩ := Step.verb_eq_panic hpanic
    have rest' : m.trim.Resting :=
      ⟨⟨rest.alone, rest.quiet⟩, by simp [trim, rest.ended], rfl⟩
    rw [Step.trim_of_ne_on (by simp [Step.verb]), (enact_panic rest.still p).1,
      (enact_panic rest'.still p).1]
    exact ⟨rest, rfl⟩
  · obtain ⟨henact, hresting, hrun⟩ := rest.run hpanic
    rw [henact]
    refine ⟨hresting, ?_⟩
    simp only [Machine.enact, hrun, answer_trim]
    rfl

theorem Resting.after (rest : m.Resting) (program : Script ω) :
    (m.after program).Resting ∧
      m.trim.after (program.map Step.trim) = (m.after program).trim ∧
      m.trim.answers (program.map Step.trim) = m.answers program := by
  induction program generalizing m with
  | nil => exact ⟨rest, rfl, rfl⟩
  | cons s program ih =>
    obtain ⟨rest', henact⟩ := rest.enact s
    obtain ⟨rest'', hafter, hanswers⟩ := ih rest'
    refine ⟨rest'', ?_, ?_⟩
    · rw [List.map_cons, after_cons, henact, hafter, after_cons]
    · rw [List.map_cons, answers, henact, hanswers, answers]

end Steps

end Machine

end Turnstile
