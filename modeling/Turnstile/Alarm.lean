import Turnstile.Clock
import Turnstile.Script.Step
import Turnstile.Timer

/-!
# Alarms

Timer tasks that only show that they were fired, and may then panic. The panic
goes to the fallback handler. If the handler panics in turn, this panic leaves
the firing: it ends the thread of the service, or the call that fired the alarm
in place.
-/

namespace Turnstile

structure Alarm where
  label : String
  panic : Option Panic := none

/-- A timer service with alarms, its clock, and what happened so far. -/
structure AlarmBoard where
  service : TimerService Alarm
  clock : Clock
  fallback : Fallback
  events : List (Event Status) := []
  notes : List Note := []
  /-- What the thread of the service notes. -/
  timerNotes : List Note := []

/-- What the firing of an alarm comes to. -/
structure Firing where
  events : List (Event Status)
  notes : List Note
  /-- The panic that leaves it. -/
  escaped : Option Panic

namespace AlarmBoard

/-- Fires an alarm; its panic goes to the fallback handler. -/
def fire (fallback : Fallback) (service : String) (a : Alarm) (deadline : Nat) : Firing where
  events := .fired a.label :: a.panic.elim [] fun p => fallback.events .timeout p
  notes := .timerFired service deadline :: a.panic.elim [] fun p => fallback.notes .timeout p
  escaped := a.panic.bind (fallback.raised .timeout)

/-- The answer to a call that schedules an alarm. -/
inductive Reply where
  /-- Whether the alarm was fired or queued. -/
  | ok (armed : Bool)
  | error (e : GuardError)
  /-- The fallback handler has panicked while the alarm was fired in place. -/
  | panicked (p : Panic)
  deriving DecidableEq

def start (b : AlarmBoard) : AlarmBoard :=
  { b with service := b.service.start, notes := b.notes ++ b.service.startNotes }

def shutdown (b : AlarmBoard) : AlarmBoard :=
  { b with service := b.service.shutdown, notes := b.notes ++ b.service.shutdownNotes }

def setClock (b : AlarmBoard) (nanos : Nat) : AlarmBoard := { b with clock := b.clock.set nanos }

def advance (b : AlarmBoard) (millis : Nat) : AlarmBoard :=
  { b with clock := b.clock.advance millis }

/-- Schedules an alarm. -/
def schedule (b : AlarmBoard) (a : Alarm) (deadline relative now : Nat) : Reply × AlarmBoard :=
  match b.service.schedule a deadline relative now with
  | (.unneeded, service) => (.ok false, { b with service := service })
  | (.expired, service) =>
    let f := fire b.fallback b.service.name a deadline
    (f.escaped.elim (.ok true) .panicked,
      { b with service := service, events := b.events ++ f.events, notes := b.notes ++ f.notes })
  | (.queued, service) => (.ok true, { b with service := service })
  | (.stopped, service) =>
    (.error (.schedulerStopped b.service.name), { b with service := service })

/-- The thread of the service fires the first expired alarm, if there is one. -/
def fireNext (b : AlarmBoard) : AlarmBoard :=
  match b.service.due with
  | [] => b
  | e :: _ =>
    let f := fire b.fallback b.service.name e.task e.deadline
    { b with
      service := if f.escaped.isSome then b.service.crash else b.service.take 0
      events := b.events ++ f.events
      timerNotes := b.timerNotes ++ f.notes }

/-- The thread of the service looks at the clock and fires all that has expired. -/
def catchUp (b : AlarmBoard) : AlarmBoard :=
  let b' := { b with service := b.service.look b.clock.now }
  b'.service.due.foldl (fun b _ => b.fireNext) b'

end AlarmBoard

end Turnstile
