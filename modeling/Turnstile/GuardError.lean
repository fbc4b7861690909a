import Turnstile.Duration
import Turnstile.Rejection
import Turnstile.Text.Quoted
import Turnstile.Text.Record

/-!
# Errors of guarded calls
-/

namespace Turnstile

inductive GuardError where
  | invalidConfig (reason : String)
  | configParse (detail : String)
  | rejected (reason : Rejection)
  /-- The call itself took longer than it was given. -/
  | timeout (after : Duration)
  /-- A reader stopped waiting; the call goes on. -/
  | waitTimedOut (after : Duration)
  | execution (detail : String)
  | cancelled
  | schedulerStopped (service : String)
  deriving DecidableEq, Repr

namespace GuardError

def message : GuardError → String
  | invalidConfig reason => "Invalid configuration: " ++ reason
  | configParse detail => "Failed to load configuration: " ++ detail
  | rejected reason => "Rejected: " ++ reason.message
  | timeout after => "Operation timeout after " ++ after.text
  | waitTimedOut after => "Wait on pending result timed out after " ++ after.text
  | execution detail => "Execution failed: " ++ detail
  | cancelled => "Operation cancelled"
  | schedulerStopped service => "Timeout service '" ++ service ++ "' is not running"

def inspect : GuardError → String
  | invalidConfig reason => Text.tagged "InvalidConfig" (Text.quoted reason)
  | configParse detail => Text.tagged "ConfigParse" (Text.quoted detail)
  | rejected reason => Text.tagged "Rejected" reason.inspect
  | timeout after => Text.tagged "Timeout" after.text
  | waitTimedOut after => Text.tagged "WaitTimedOut" after.text
  | execution detail => Text.tagged "Execution" (Text.quoted detail)
  | cancelled => "Cancelled"
  | schedulerStopped service => Text.tagged "SchedulerStopped" (Text.quoted service)

def isRejection : GuardError → Bool
  | rejected _ => true
  | _ => false

def isTimeout : GuardError → Bool
  | timeout _ => true
  | _ => false

/-- Whether the error says something about the health of the guarded target. -/
def tripsBreaker : GuardError → Bool
  | timeout _ | execution _ | cancelled => true
  | invalidConfig _ | configParse _ | rejected _ | waitTimedOut _ | schedulerStopped _ => false

end GuardError

end Turnstile
