import Turnstile.GuardError
import Turnstile.Outcome

/-!
# Settled results

The final value of a promise: the reported outcome, the kind of ending that
callbacks are chosen by, and the value or error itself.
-/

namespace Turnstile

/-- How a promise ended. -/
inductive Kind where
  | success | error | timeout
  deriving DecidableEq, Repr

namespace Kind

def name : Kind → String
  | .success => "success"
  | .error => "error"
  | .timeout => "timeout"

def inspect : Kind → String
  | .success => "Success"
  | .error => "Error"
  | .timeout => "Timeout"

end Kind

/-- What a call produced. -/
abbrev CallResult := Except GuardError String

namespace CallResult

def inspect : CallResult → String
  | .ok value => Text.tagged "Ok" (Text.quoted value)
  | .error e => Text.tagged "Err" e.inspect

end CallResult

structure Settled (ω : Type) where
  outcome : ω
  kind : Kind
  result : CallResult
  deriving Repr

namespace Settled

variable {ω : Type} [Outcome ω]

/-- A value always settles as a success, whatever outcome is reported with it. -/
def ofValue (outcome : ω) (value : String) : Settled ω := ⟨outcome, .success, .ok value⟩

/-- An error settles as a timeout exactly when the reported outcome is one. -/
def ofError (outcome : ω) (e : GuardError) : Settled ω :=
  ⟨outcome, if Outcome.isTimeout outcome then .timeout else .error, .error e⟩

def inspect (s : Settled ω) : String :=
  Text.record "Settled"
    [("outcome", Outcome.inspect s.outcome), ("kind", s.kind.inspect),
      ("result", CallResult.inspect s.result)]

end Settled

end Turnstile
