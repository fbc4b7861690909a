import Turnstile.Rail.Lobby
import Turnstile.Script.Step
import Turnstile.Timer

/-!
# Service desks

A desk runs actions behind one guard rail. `run` executes an action at once and
hands its result back. `call` admits the action, arms its deadline and returns
a promise; the action is executed at once or waits as a job. The deadline and
the action race for the promise, and whoever settles it gives the permit back.

Moving the clock fires no deadline. The thread of the timer service looks at
the clock and fires what it found expired in steps of its own, which come at any
time, also in the middle of an action, and for the expired deadlines in any order.
-/

namespace Turnstile

/-- A step that is taken while an action is executed. -/
inductive Errand where
  | isCancelled
  /-- Raises the flag that the action was handed. -/
  | cancel
  | advance (millis : Nat)
  | setClock (nanos : Nat)
  /-- Works the breaker of the rail by hand. -/
  | pull (l : Lever)
  /-- The thread of the timer service looks at the clock. -/
  | look
  /-- The thread of the timer service fires the expired deadline at a position. -/
  | fire (position : Nat)
  /-- The action shows that it has taken a step of its own. -/
  | tell (verb : Verb)
  deriving DecidableEq, Repr

/-- An admitted call: its promise and its task. -/
structure Call where
  permit : Permit Status
  task : Task Errand

structure Desk where
  rail : Rail Status
  clock : Clock
  /-- Deadlines by the number of their call. -/
  timers : TimerService Nat
  calls : List Call := []
  /-- Whether actions wait as jobs. -/
  queued : Bool := false
  /-- The numbers of the calls whose action waits, oldest first. -/
  jobs : List Nat := []
  /-- The labels given to calls, latest first. -/
  futures : List (String × Nat) := []
  events : List (Event Status) := []
  notes : List Note := []
  /-- What the thread of the timer service notes. -/
  timerNotes : List Note := []

/-- The status that a result is counted as. -/
def CallResult.status : CallResult → Status
  | .ok _ => .success
  | .error e => if e.isTimeout then .timeout else .error

namespace Desk

def emit (d : Desk) (events : List (Event Status)) : Desk :=
  { d with events := d.events ++ events }

def noteDown (d : Desk) (notes : List Note) : Desk := { d with notes := d.notes ++ notes }

/-- The notes in the trace of a rail. -/
def notesOf {ω : Type} (trace : List (RailEvent ω)) : List Note :=
  trace.filterMap fun
    | .note n => some n
    | .request .. => none

def setCall (d : Desk) (i : Nat) (c : Call) : Desk := { d with calls := d.calls.set i c }

/-- Settles the promise of call `i`; says whether this was the first attempt. -/
def settle (d : Desk) (i : Nat) (s : Settled Status) : Bool × Desk :=
  match d.calls[i]? with
  | none => (false, d)
  | some c =>
    let handover := c.permit.settle d.rail s d.clock.now
    let h := handover.value
    let d' := { d with rail := h.rail }.setCall i { c with permit := h.permit }
    (h.won, (d'.noteDown (notesOf handover.trace)).emit
      (h.fired.map fun label => .callback label s.result))

/-- Raises the cancellation flag of call `i`. -/
def cancel (d : Desk) (i : Nat) : Desk :=
  match d.calls[i]? with
  | none => d
  | some c => d.setCall i { c with task := c.task.cancel }

/-- The deadline of call `i` has come. -/
def expire (d : Desk) (i : Nat) : Desk :=
  match d.calls[i]? with
  | none => d
  | some c =>
    if c.permit.isDone then d
    else
      let (won, d') := d.settle i (c.task.expiry id)
      (d'.noteDown (if won then [.taskTimedOut c.task.timeoutMillis] else [])).cancel i

def setClock (d : Desk) (nanos : Nat) : Desk := { d with clock := d.clock.set nanos }

def advance (d : Desk) (millis : Nat) : Desk := { d with clock := d.clock.advance millis }

/-- The thread of the timer service looks at the clock. -/
def look (d : Desk) : Desk := { d with timers := d.timers.look d.clock.now }

/-- The thread of the timer service fires the expired deadline at a position, if there is one. -/
def fire (d : Desk) (position : Nat) : Desk :=
  match d.timers.due[position]? with
  | none => d
  | some e =>
    let d' := { d with timers := d.timers.take position, notes := [] }.expire e.task
    { d' with
      notes := d.notes
      timerNotes := d.timerNotes ++ .timerFired d.timers.name e.deadline :: d'.notes }

/-- The thread of the timer service looks at the clock and fires all that has expired. -/
def catchUp (d : Desk) : Desk :=
  d.look.timers.due.foldl (fun d _ => d.fire 0) d.look

/-- Whether the task of a call is cancelled; a plain run has no flag to raise. -/
def isCancelled (d : Desk) (owner : Option Nat) : Bool :=
  (owner.bind fun i => d.calls[i]?).elim false fun c => c.task.cancelled

/-- Works the breaker of the rail, if it has one. -/
def pull (d : Desk) (l : Lever) : Desk :=
  match d.rail.breaker? with
  | none => d
  | some (b, _) =>
    { d with rail := d.rail.setBreaker (b.pull l).breaker }.noteDown (b.pull l).notes

/-- One step of an action that belongs to call `owner`, if to any. -/
def errand (owner : Option Nat) (d : Desk) (e : Errand) : Desk :=
  match e with
  | .isCancelled => d.emit [.did (.ask .isCancelled) (.truth (d.isCancelled owner))]
  | .cancel => (owner.elim d d.cancel).emit [.did .cancel .nothing]
  | .advance millis => d.advance millis
  | .setClock nanos => d.setClock nanos
  | .pull l => d.pull l
  | .look => d.look
  | .fire position => d.fire position
  | .tell verb => d.emit [.did verb .nothing]

/-- The desk after the steps of an action. -/
def execute (d : Desk) (owner : Option Nat) (a : Action Errand) : Desk :=
  a.steps.foldl (errand owner) (d.emit [.action a.label])

/-- Takes and executes the action of call `i`, unless its promise is done. -/
def runTask (d : Desk) (i : Nat) : Desk :=
  match d.calls[i]? with
  | none => d
  | some c =>
    if c.permit.isDone then d
    else
      match c.task.action with
      | none => d
      | some a =>
        let taken := d.setCall i { c with task := { c.task with action := none } }
        let d' := taken.execute (some i) a
        match Task.verdict id (d'.isCancelled (some i)) a.ending.result with
        | none => d'
        | some s => (d'.settle i s).2

/-- Applies what a rail reports. -/
def takeRail (d : Desk) (report : Rail.Report Status (Rail Status)) : Desk :=
  { d with rail := report.value }.noteDown (notesOf report.trace)

/-- Asks the rail for `n` permits. -/
def acquire (d : Desk) (n now : Nat) : Option Rejection × Desk :=
  let report := d.rail.acquire n now
  (report.value.1,
    { d with rail := report.value.2 }.noteDown (notesOf report.trace))

def release (d : Desk) (n : Nat) (o : Status) (now : Nat) : Desk :=
  d.takeRail (d.rail.release n o now)

def releaseUnused (d : Desk) (n now : Nat) : Desk :=
  d.takeRail (d.rail.releaseUnused n now)

/-- How a run came out. -/
inductive RunEnd where
  | refused (reason : Rejection)
  | returned (r : CallResult)
  | panicked (p : Panic)

/-- Executes an action in place, between acquiring and releasing one permit. -/
def run (d : Desk) (a : Action Errand) : RunEnd × Desk :=
  match d.acquire 1 d.clock.now with
  | (some reason, d') => (.refused reason, d')
  | (none, d') =>
    let d'' := d'.execute none a
    match a.ending with
    | .returns r => (.returned r, d''.release 1 (CallResult.status r) d''.clock.now)
    | .panics p => (.panicked p, d''.release 1 .error d''.clock.now)

/-- Hands the permit of a call that cannot start back without an outcome. -/
def abandon (d : Desk) (i : Nat) (e : GuardError) : Desk :=
  match d.calls[i]? with
  | none => d
  | some c =>
    let (armed, permit) := c.permit.disarm
    let d' := d.setCall i { c with permit := permit }
    let d'' := if armed then d'.releaseUnused 1 d'.clock.now else d'
    d''.noteDown [.callNotStarted d.rail.name e]

/-- Has the action of call `i` executed at once, or keeps it as a job. -/
def spawn (d : Desk) (i : Nat) : Desk :=
  if d.queued then { d with jobs := d.jobs ++ [i] } else d.runTask i

/-- Admits an action, arms its deadline and has it executed. The promise is kept
under the label. -/
def call (d : Desk) (label : String) (a : Action Errand) (timeoutMillis : Nat) :
    Except GuardError Unit × Desk :=
  let now := d.clock.now
  match d.acquire 1 now with
  | (some reason, d') => (.error (.rejected reason), d')
  | (none, d') =>
    let i := d'.calls.length
    let task : Task Errand := { action := some a, timeoutMillis := timeoutMillis, start := now }
    let d' := { d' with calls := d'.calls ++ [Call.mk (Permit.hold 1) task] }
    let (scheduling, timers) := d'.timers.schedule i task.deadline timeoutMillis now
    let d' := { d' with timers := timers }
    let accept (d : Desk) : Except GuardError Unit × Desk :=
      let d' := d.spawn i
      (.ok (), { d' with futures := (label, i) :: d'.futures })
    match scheduling with
    | .stopped =>
      let e := GuardError.schedulerStopped timers.name
      (.error e, d'.abandon i e)
    | .expired => accept ((d'.noteDown [.timerFired timers.name task.deadline]).expire i)
    | .unneeded | .queued => accept d'

/-- Executes the waiting job at a position; says whether there is one. -/
def runJob (d : Desk) (position : Nat) : Bool × Desk :=
  match d.jobs[position]? with
  | none => (false, d)
  | some i => (true, { d with jobs := d.jobs.eraseIdx position }.runTask i)

/-- The call that a label was last given to. -/
def future? (d : Desk) (label : String) : Option Call :=
  (d.futures.lookup label).bind fun i => d.calls[i]?

/-- What the promise under a label shows. -/
def peek (d : Desk) (label : String) : Option (Settled Status) :=
  (d.future? label).bind fun c => c.permit.settled?

/-- Registers a callback that shows a label of its own. -/
def on (d : Desk) (label : String) (kind : Kind) (shown : String) : Desk :=
  match d.futures.lookup label with
  | none => d
  | some i =>
    match d.calls[i]? with
    | none => d
    | some c =>
      let (fired, permit) := c.permit.register ⟨kind, shown⟩
      let d' := d.setCall i { c with permit := permit }
      match fired with
      | some (callback, s) =>
        if callback.kind = s.kind then d'.emit [.callback callback.body s.result] else d'
      | none => d'

def start (d : Desk) : Desk :=
  { d with timers := d.timers.start }.noteDown d.timers.startNotes

def shutdown (d : Desk) : Desk :=
  { d with timers := d.timers.shutdown }.noteDown d.timers.shutdownNotes

/-- The texts of the running and of the calling side. -/
def inspect (d : Desk) : String × String :=
  (Text.record "RunService" [("guard_rail", d.rail.inspect)],
    Text.record "CallService"
      [("guard_rail", Text.quoted d.rail.name), ("timeouts", d.timers.inspect)])

end Desk

end Turnstile
