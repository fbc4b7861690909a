import Turnstile.Script.Step

/-!
# The script machine

A small-step machine that runs scripts on one promise and its task. The stack
holds what is still to be done, the nearest first. A panic is raised and then
drops frames until one catches it. Every step of the machine uses up part of a
finite weight, so every run ends: `halted_run`.
-/

namespace Turnstile

/-- A task with the outcome it reports for each status. -/
structure Work (ω : Type) where
  task : Task (Step ω)
  grade : Status → ω

inductive Frame (ω : Type) where
  /-- The rest of a script. -/
  | body (steps : Script ω)
  /-- The step before is over and had this answer. -/
  | report (verb : Verb) (answer : Answer ω)
  /-- A panic above goes to the fallback handler. -/
  | guard (kind : Kind)
  /-- The hook is over: the value can be shown. -/
  | publish
  | fire (c : Callback (Reaction ω)) (s : Settled ω)
  /-- The steps of the action are over; a panic above is its ending. -/
  | conclude (ending : Ending)
  /-- The attempt of an expired task is over. -/
  | expired (won : Bool)

structure Machine (ω : Type) where
  promise : Promise ω (Script ω) (Reaction ω)
  work : Option (Work ω) := none
  fallback : Fallback := .note
  stack : List (Frame ω) := []
  raised : Option Panic := none
  /-- What happened, oldest first. -/
  events : List (Event ω) := []
  notes : List Note := []
  /-- The time that steps have spent waiting for the value in vain. -/
  waited : Duration := ⟨0⟩

mutual

def Step.weight {ω : Type} : Step ω → Nat
  | .on _ _ body => 6 + Step.weights body
  | .complete .. | .fail .. | .panic _ | .ask _ | .run | .expire | .cancel => 6

def Step.weights {ω : Type} : List (Step ω) → Nat
  | [] => 0
  | s :: rest => s.weight + Step.weights rest

end

namespace Machine

variable {ω : Type}

/-- The weight of a callback that waits or is about to be fired. -/
def callbackWeight (c : Callback (Reaction ω)) : Nat := 3 + Step.weights c.body.body

def frameWeight : Frame ω → Nat
  | .body steps => 1 + Step.weights steps
  | .report .. | .guard _ | .publish | .expired _ => 1
  | .fire c _ => callbackWeight c
  | .conclude _ => 2

def stackWeight : List (Frame ω) → Nat
  | [] => 0
  | f :: rest => frameWeight f + stackWeight rest

def callbacksWeight : List (Callback (Reaction ω)) → Nat
  | [] => 0
  | c :: rest => callbackWeight c + callbacksWeight rest

def promiseWeight (p : Promise ω (Script ω) (Reaction ω)) : Nat :=
  (p.hook.elim 0 fun steps => 2 + Step.weights steps) + callbacksWeight p.callbacks

def workWeight (w : Option (Work ω)) : Nat :=
  (w.bind fun w => w.task.action).elim 0 fun a => 3 + Step.weights a.steps

/-- What is left to run, in the stack and in store. -/
def weight (m : Machine ω) : Nat :=
  stackWeight m.stack + promiseWeight m.promise + workWeight m.work

def push (m : Machine ω) (frames : List (Frame ω)) : Machine ω :=
  { m with stack := frames ++ m.stack }

def emit (m : Machine ω) (events : List (Event ω)) : Machine ω :=
  { m with events := m.events ++ events }

def noteDown (m : Machine ω) (notes : List Note) : Machine ω :=
  { m with notes := m.notes ++ notes }

/-- Hands a panic to the fallback handler, which may panic in turn. -/
def report (m : Machine ω) (kind : Kind) (p : Panic) : Machine ω :=
  { m with
    events := m.events ++ m.fallback.events kind p
    notes := m.notes ++ m.fallback.notes kind p
    raised := m.fallback.raised kind p }

/-- An attempt to settle. The winner runs the hook, if there is one, and publishes. -/
def settle (m : Machine ω) (s : Settled ω) : Machine ω :=
  match m.promise.begin? s with
  | none => m
  | some (none, p) => { m with promise := p }.push [.publish]
  | some (some steps, p) =>
    ({ m with promise := p }.emit [.hook s.outcome]).push
      [.body steps, .guard s.kind, .publish]

/-- Shows the value and fires the callbacks that waited for it. -/
def publish (m : Machine ω) : Machine ω :=
  match m.promise.phase with
  | .completing s =>
    let (callbacks, p) := m.promise.publish
    { m with promise := p }.push (callbacks.map fun c => .fire c s)
  | _ => m

/-- Runs a callback if it is meant for this kind of ending, and drops it otherwise. -/
def fire (m : Machine ω) (c : Callback (Reaction ω)) (s : Settled ω) : Machine ω :=
  if c.kind = s.kind then
    (m.emit [.callback c.body.label s.result]).push [.body c.body.body, .guard c.kind]
  else m

def register (m : Machine ω) (c : Callback (Reaction ω)) : Machine ω :=
  match m.promise.register c with
  | (none, p) => { m with promise := p }
  | (some (c, s), p) => { m with promise := p }.push [.fire c s]

/-- Runs the action of the task, unless the promise is done or the action is taken. -/
def runTask (m : Machine ω) : Machine ω :=
  match m.work with
  | none => m
  | some w =>
    if m.promise.isDone then m
    else
      match w.task.action with
      | none => m
      | some a =>
        let work := some { w with task := { w.task with action := none } }
        ({ m with work := work }.emit [.action a.label]).push
          [.body a.steps, .conclude a.ending]

variable [Outcome ω]

/-- Settles the promise by the result of the action. -/
def conclude (m : Machine ω) (r : CallResult) : Machine ω :=
  match m.work with
  | none => m
  | some w =>
    match Task.verdict w.grade w.task.cancelled r with
    | none => m
    | some s => m.settle s

/-- The deadline of the task has come. -/
def expire (m : Machine ω) : Machine ω :=
  match m.work with
  | none => m
  | some w =>
    if m.promise.isDone then m
    else (m.push [.expired m.promise.isPending]).settle (w.task.expiry w.grade)

omit [Outcome ω] in
def cancel (m : Machine ω) : Machine ω :=
  { m with work := m.work.map fun w => { w with task := w.task.cancel } }

omit [Outcome ω] in
/-- After the attempt of an expired task: the task is cancelled, whoever won. -/
def afterExpiry (m : Machine ω) (won : Bool) : Machine ω :=
  match m.work with
  | none => m
  | some w => (m.noteDown (if won then [.taskTimedOut w.task.timeoutMillis] else [])).cancel

/-- The answer to a question. -/
def reply (m : Machine ω) : Question → Answer ω
  | .isDone => .truths m.promise.isDone m.promise.isDone
  | .peek | .get => .settled m.promise.settled?
  | .getTimeout wait =>
    match m.promise.settled? with
    | some s => .settled (some s)
    | none => .failed (.waitTimedOut wait)
  | .intoResult => .result (m.promise.settled?.map Settled.result)
  | .promiseText => .texts m.promise.inspect.1 m.promise.inspect.2
  | .settledText => .text (Text.optional (m.promise.settled?.map Settled.inspect))
  | .isCancelled => .truth (m.work.elim false fun w => w.task.cancelled)
  | .times =>
    match m.work with
    | none => .nothing
    | some w => .numbers [w.task.start, w.task.timeoutMillis, w.task.deadline]
  | .taskText =>
    match m.work with
    | none => .nothing
    | some w => .text w.task.inspect

/-- The answer of a step, which is known when it begins. -/
def answer (m : Machine ω) : Step ω → Answer ω
  | .complete .. | .fail .. => .truth m.promise.isPending
  | .ask q => m.reply q
  | .on .. | .panic _ | .run | .expire | .cancel => .nothing

omit [Outcome ω] in
/-- A question that waits takes all its time while there is no value. -/
def spend (m : Machine ω) : Question → Machine ω
  | .getTimeout wait =>
    if m.promise.isDone then m else { m with waited := m.waited + wait }
  | _ => m

/-- Begins a step; what it leads to is pushed on the stack. -/
def perform (m : Machine ω) : Step ω → Machine ω
  | .complete outcome value => m.settle (.ofValue outcome value)
  | .fail outcome e => m.settle (.ofError outcome e)
  | .on kind label body => m.register ⟨kind, ⟨label, body⟩⟩
  | .panic p => { m with raised := some p }
  | .ask q => m.spend q
  | .run => m.runTask
  | .expire => m.expire
  | .cancel => m.cancel

/-- Works off one frame. -/
def work1 (m : Machine ω) : Frame ω → Machine ω
  | .body [] => m
  | .body (.panic p :: _) => { m with raised := some p }
  | .body (s :: rest) => (m.push [.report s.verb (m.answer s), .body rest]).perform s
  | .report verb a => m.emit [.did verb a]
  | .guard _ => m
  | .publish => m.publish
  | .fire c s => m.fire c s
  | .conclude ending => m.conclude ending.result
  | .expired won => m.afterExpiry won

/-- Drops one frame under a panic, unless the frame catches it. -/
def unwind (m : Machine ω) (p : Panic) : Frame ω → Machine ω
  | .guard kind => m.report kind p
  | .conclude _ => { m with raised := none }.conclude (Ending.panics p).result
  | _ => m

def step (m : Machine ω) : Machine ω :=
  match m.stack with
  | [] => m
  | frame :: rest =>
    let below := { m with stack := rest }
    match m.raised with
    | none => below.work1 frame
    | some p => below.unwind p frame

def runFor : Nat → Machine ω → Machine ω
  | 0, m => m
  | n + 1, m => runFor n m.step

/-- Runs until the stack is empty. -/
def run (m : Machine ω) : Machine ω := m.runFor m.weight

/-- Performs one step from outside and runs all it leads to. A panic that nothing caught
is the answer. -/
def enact (m : Machine ω) (s : Step ω) : Answer ω × Machine ω :=
  let m' := (m.perform s).run
  match m'.raised with
  | none => (m.answer s, m')
  | some p => (.panicked p, { m' with raised := none })

end Machine

end Turnstile
