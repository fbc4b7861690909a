import Turnstile.Settled

/-!
# Notes

What the mechanisms report while they work. A note has a level, a message and
named fields; it never influences an answer.
-/

namespace Turnstile

inductive Level where
  | trace | debug | info | warn | error
  deriving DecidableEq, Repr

def Level.name : Level → String
  | .trace => "trace"
  | .debug => "debug"
  | .info => "info"
  | .warn => "warn"
  | .error => "error"

inductive Note where
  | noCapacity (requested : Nat)
  | exhausted (requested available : Nat)
  | overReleased (released available capacity : Nat)
  /-- A metrics slot now counts `period`; it counted `previous` before, if anything. -/
  | rotated (period : Nat) (previous : Option Nat)
  | late (counter now : Nat)
  | forcedOpen (circuit : String)
  | forcedClosed (circuit : String)
  | configReplaced (circuit : String)
  | trialCall (circuit : String) (nowMillis : Nat)
  | circuitClosed (circuit outcome : String)
  | circuitOpened (circuit : String) (failures total percentage : Nat)
  | railBuilt (rail : String) (mechanisms : Nat)
  | refused (rail : String) (permits : Nat) (reason : Rejection)
  | callbackPanicked (kind : Kind) (message : String)
  | taskTimedOut (millis : Nat)
  | timerFired (service : String) (deadline : Nat)
  | timerStarted (service : String)
  | timerStopped (service : String)
  | timerPanicked (service : String)
  | callNotStarted (rail : String) (error : GuardError)
  deriving DecidableEq, Repr

namespace Note

def level : Note → Level
  | noCapacity .. | exhausted .. | rotated .. | late .. => .trace
  | configReplaced .. | trialCall .. | railBuilt .. | refused .. | taskTimedOut ..
  | timerFired .. => .debug
  | forcedOpen .. | forcedClosed .. | circuitClosed .. | circuitOpened .. | timerStarted ..
  | timerStopped .. => .info
  | overReleased .. | callNotStarted .. => .warn
  | callbackPanicked .. | timerPanicked .. => .error

def message : Note → String
  | noCapacity .. => "permit limiter has no capacity"
  | exhausted .. => "permit limiter exhausted"
  | overReleased .. => "released more permits than were held"
  | rotated .. => "rotated metrics slot"
  | late .. => "event older than its slot, kept in totals only"
  | forcedOpen .. => "circuit forced open"
  | forcedClosed .. => "circuit forced closed"
  | configReplaced .. => "breaker config replaced"
  | trialCall .. => "admitting trial call through open circuit"
  | circuitClosed .. => "circuit closed"
  | circuitOpened .. => "circuit opened"
  | railBuilt .. => "guard rail built"
  | refused .. => "admission rejected"
  | callbackPanicked _ message => message
  | taskTimedOut .. => "task timed out"
  | timerFired .. => "timeout fired"
  | timerStarted .. => "timeout service started"
  | timerStopped .. => "timeout service stopped"
  | timerPanicked .. => "timeout thread panicked"
  | callNotStarted .. => "call not started"

/-- The mark that a slot carries for the period it counts; an unused slot carries zero. -/
def slotMark : Option Nat → Nat
  | none => 0
  | some period => period + 1

/-- The named fields in text form. -/
def fields : Note → List (String × String)
  | noCapacity requested => [("requested", toString requested)]
  | exhausted requested available =>
    [("requested", toString requested), ("available", toString available)]
  | overReleased released available capacity =>
    [("released", toString released), ("available", toString available),
      ("capacity", toString capacity)]
  | rotated period previous =>
    [("slot", toString period), ("previous", toString (slotMark previous))]
  | late counter now => [("counter", toString counter), ("now_nanos", toString now)]
  | forcedOpen circuit | forcedClosed circuit | configReplaced circuit =>
    [("target_name", circuit)]
  | trialCall circuit nowMillis => [("target_name", circuit), ("now_ms", toString nowMillis)]
  | circuitClosed circuit outcome => [("target_name", circuit), ("outcome", outcome)]
  | circuitOpened circuit failures total percentage =>
    [("target_name", circuit), ("failures", toString failures), ("total", toString total),
      ("failure_percentage", toString percentage)]
  | railBuilt rail mechanisms => [("rail", rail), ("mechanisms", toString mechanisms)]
  | refused rail permits reason =>
    [("rail", rail), ("permits", toString permits), ("reason", reason.message)]
  | callbackPanicked kind _ => [("kind", kind.name)]
  | taskTimedOut millis => [("timeout_ms", toString millis)]
  | timerFired service deadline => [("service", service), ("deadline", toString deadline)]
  | timerStarted service | timerStopped service | timerPanicked service => [("service", service)]
  | callNotStarted rail error => [("rail", rail), ("error", error.message)]

end Note

end Turnstile
