import Turnstile.GuardError

/-!
# Faults of a configuration
-/

namespace Turnstile

/-- The shortest period that metrics can resolve. -/
def minResolutionMillis : Nat := 100

inductive ConfigFault where
  | percentageTooHigh (got : Nat)
  | noTrailingPeriod
  | noSlots
  | resolutionTooLow (millis : Nat)
  | trailingExceedsSpan (trailing span : Duration)
  deriving DecidableEq, Repr

namespace ConfigFault

def message : ConfigFault → String
  | percentageTooHigh got =>
    "failure_percentage_threshold must be <= 100, got " ++ toString got
  | noTrailingPeriod => "trailing_period_millis must be greater than 0"
  | noSlots => "slots_to_track must be at least 1"
  | resolutionTooLow millis =>
    "Too low of resolution: [" ++ toString millis ++ " milliseconds]. "
      ++ toString minResolutionMillis ++ " milliseconds is the minimum resolution."
  | trailingExceedsSpan trailing span =>
    "breaker trailing period " ++ trailing.text ++ " exceeds metrics span " ++ span.text

def toError (fault : ConfigFault) : GuardError := .invalidConfig fault.message

end ConfigFault

/-- Why something could not be built from a configuration. -/
inductive BuildFault where
  | config (fault : ConfigFault)
  /-- The configuration has no fault, but a product of its numbers does not fit a word. -/
  | overflow
  deriving DecidableEq, Repr

end Turnstile
