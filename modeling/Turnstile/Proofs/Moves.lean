import Turnstile.Proofs.PromiseCourse

/-!
# Moves of the script machine

What one step of a machine without a task can do, said once for all frames: begin a step of a
script, call a callback, show the value, or work off a frame that the promise has no part in.
What holds along every run is then proved by these cases.
-/

namespace Turnstile

/-- What a callback was given, with the label it goes by. -/
def Event.call? {ω : Type} : Event ω → Option (String × CallResult)
  | .callback label got => some (label, got)
  | .hook _ | .action _ | .did .. | .fallback .. | .fired _ => none

namespace Story

variable {ω : Type}

/-- The calls of a story as they can be seen: by the labels of the callbacks. -/
def shown (t : Story ω) : List (String × CallResult) :=
  t.called.map fun call => (call.1.body.label, call.2)

theorem shown_append (t t' : Story ω) : shown (t ++ t') = shown t ++ shown t' := by
  simp [shown]

end Story

namespace Machine

open Story

variable {ω : Type}

/-- The calls of callbacks that can be seen. -/
def seen (m : Machine ω) : List (String × CallResult) := m.events.filterMap Event.call?

variable [Outcome ω]

/-- What one step can do, with its story. -/
inductive Move (m : Machine ω) : Story ω → Machine ω → Prop where
  /-- Nothing is left to run. -/
  | rest (h : m.stack = []) : Move m [] m
  /-- A frame is worked off that the promise has no part in. -/
  | pass {d : Story ω} {m' : Machine ω} (busy : m.stack ≠ []) (keeps : m.Keeps m')
      (seen : m'.seen = m.seen) (hd : d = [] ∨ ∃ verb a, d = [.reply verb a]) : Move m d m'
  /-- A step of a script begins, above its report and the rest of the script. -/
  | begin (s : Step ω) (rest : Script ω) (below : List (Frame ω))
      (hs : m.stack = .body (s :: rest) :: below) :
      Move m (m.begins s)
        (({ m with stack := .report s.verb (m.answer s) :: .body rest :: below } :
          Machine ω).perform s)
  /-- A callback is called with the result. -/
  | call {c : Callback (Reaction ω)} {v : Settled ω} {m' : Machine ω} (busy : m.stack ≠ [])
      (keeps : m.Keeps m') (seen : m'.seen = m.seen ++ [(c.body.label, v.result)]) :
      Move m [.call c v.result] m'
  /-- The value is shown. -/
  | publish {v : Settled ω} {m' : Machine ω} (hp : m.promise.phase = .completing v)
      (hp' : m'.promise.phase = .done v) (work : m'.work = m.work)
      (fallback : m'.fallback = m.fallback) (seen : m'.seen = m.seen) :
      Move m [.publish v] m'

variable {m : Machine ω} {f : Frame ω} {below : List (Frame ω)}

/-- A frame that a panic drops. -/
theorem unwind_move (alone : m.work = none) (hs : m.stack = f :: below) {p : Panic}
    (hr : m.raised = some p) : m.Move m.deeds m.step := by
  have hdeeds : m.deeds = [] := by simp [deeds, hr]
  have busy : m.stack ≠ [] := by simp [hs]
  rw [hdeeds, step_panic hs hr]
  cases f with
  | guard kind =>
    refine .pass busy ⟨rfl, rfl, rfl⟩ ?_ (.inl rfl)
    have hevents : (m.fallback.events kind p).filterMap (Event.call? (ω := ω)) = [] := by
      cases m.fallback <;> rfl
    simp [unwind, report, seen, hevents]
  | conclude ending =>
    have hsame : ({ m with stack := below } : Machine ω).unwind p (.conclude ending) =
        { m with stack := below, raised := none } := by simp [unwind, conclude, alone]
    rw [hsame]
    exact .pass busy ⟨rfl, rfl, rfl⟩ rfl (.inl rfl)
  | _ => exact .pass busy ⟨rfl, rfl, rfl⟩ rfl (.inl rfl)

theorem body_move {script : Script ω} (hs : m.stack = .body script :: below)
    (hr : m.raised = none) : m.Move m.deeds m.step := by
  have busy : m.stack ≠ [] := by simp [hs]
  cases script with
  | nil =>
    have hdeeds : m.deeds = [] := by simp [deeds, hs, hr]
    rw [hdeeds, step_frame hs hr]
    exact .pass busy ⟨rfl, rfl, rfl⟩ rfl (.inl rfl)
  | cons s rest =>
    by_cases hpanic : s.verb = .panic
    · obtain ⟨p, rfl⟩ := Step.verb_eq_panic hpanic
      have hdeeds : m.deeds = [] := by simp [deeds, begins, hs, hr]
      rw [hdeeds, step_frame hs hr]
      exact .pass busy ⟨rfl, rfl, rfl⟩ rfl (.inl rfl)
    · obtain ⟨hstep, hdeeds⟩ := step_body hs hr hpanic
      rw [hstep, hdeeds]
      exact .begin s rest below hs

theorem fire_move {c : Callback (Reaction ω)} {v : Settled ω}
    (hs : m.stack = .fire c v :: below) (hr : m.raised = none) : m.Move m.deeds m.step := by
  have busy : m.stack ≠ [] := by simp [hs]
  rw [step_frame hs hr]
  by_cases hkind : c.kind = v.kind
  · have hdeeds : m.deeds = [.call c v.result] := by simp [deeds, hs, hr, hkind]
    simp only [hdeeds, work1, fire, hkind, if_true]
    exact .call busy ⟨rfl, rfl, rfl⟩ (by simp [seen, push, emit, Event.call?])
  · have hdeeds : m.deeds = [] := by simp [deeds, hs, hr, hkind]
    simp only [hdeeds, work1, fire, hkind, if_false]
    exact .pass busy ⟨rfl, rfl, rfl⟩ rfl (.inl rfl)

theorem publish_move (hs : m.stack = .publish :: below) (hr : m.raised = none) :
    m.Move m.deeds m.step := by
  have busy : m.stack ≠ [] := by simp [hs]
  rw [step_frame hs hr]
  cases hp : m.promise.phase with
  | completing v =>
    have hdeeds : m.deeds = [.publish v] := by simp [deeds, hs, hr, hp]
    rw [hdeeds]
    refine .publish hp ?_ ?_ ?_ ?_ <;> simp [work1, publish, Promise.publish, hp, push, seen]
  | _ =>
    have hdeeds : m.deeds = [] := by simp [deeds, hs, hr, hp]
    simp only [hdeeds, work1, publish, hp]
    exact .pass busy ⟨rfl, rfl, rfl⟩ rfl (.inl rfl)

/-- Every step is one of the moves. -/
theorem step_move (alone : m.work = none) : m.Move m.deeds m.step := by
  cases hs : m.stack with
  | nil =>
    have hdeeds : m.deeds = [] := by simp [deeds, hs]
    rw [step_halted hs, hdeeds]
    exact .rest hs
  | cons f below =>
    have busy : m.stack ≠ [] := by simp [hs]
    cases hr : m.raised with
    | some p => exact unwind_move alone hs hr
    | none =>
      cases f with
      | body script => exact body_move hs hr
      | fire c v => exact fire_move hs hr
      | publish => exact publish_move hs hr
      | report verb a =>
        obtain ⟨hstep, hdeeds⟩ := step_report hs hr
        rw [hstep, hdeeds]
        exact .pass busy ⟨rfl, rfl, rfl⟩ (by simp [seen, Event.call?]) (.inr ⟨verb, a, rfl⟩)
      | guard kind =>
        have hdeeds : m.deeds = [] := by simp [deeds, hs, hr]
        rw [hdeeds, step_frame hs hr]
        exact .pass busy ⟨rfl, rfl, rfl⟩ rfl (.inl rfl)
      | conclude ending =>
        have hdeeds : m.deeds = [] := by simp [deeds, hs, hr]
        rw [hdeeds, step_frame hs hr]
        simp only [work1, conclude, alone]
        exact .pass busy ⟨rfl, alone.symm, rfl⟩ rfl (.inl rfl)
      | expired won =>
        have hdeeds : m.deeds = [] := by simp [deeds, hs, hr]
        rw [hdeeds, step_frame hs hr]
        simp only [work1, afterExpiry, alone]
        exact .pass busy ⟨rfl, alone.symm, rfl⟩ rfl (.inl rfl)

end Machine

end Turnstile
