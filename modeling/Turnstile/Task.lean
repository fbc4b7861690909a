import Turnstile.Settled

/-!
# Tasks

A task binds an action, which runs at most once, to a deadline and a
cancellation flag. What the action returns decides how its promise settles; a
panic counts as a failed execution, and an action that reports its own
cancellation after the flag was raised leaves the promise alone.
-/

namespace Turnstile

/-- What a panic carries: a text, or something else. -/
inductive Panic where
  | text (s : String)
  | other
  deriving DecidableEq, Repr

/-- The text of a panic in reports. -/
def Panic.message : Panic → String
  | .text s => s
  | .other => "non-string panic payload"

/-- How an action ends. -/
inductive Ending where
  | returns (r : CallResult)
  | panics (p : Panic)
  deriving Repr

/-- The result that stands for an ending. -/
def Ending.result : Ending → CallResult
  | .returns r => r
  | .panics p => .error (.execution ("action panicked: " ++ p.message))

/-- An action: the steps it takes and how it ends after them. -/
structure Action (σ : Type) where
  label : Option String := none
  steps : List σ := []
  ending : Ending

/-- The timeout that stands for none. -/
def noTimeout : Nat := 0

structure Task (σ : Type) where
  /-- The action, until it is taken to be run. -/
  action : Option (Action σ)
  cancelled : Bool := false
  timeoutMillis : Nat
  /-- When the task was made. -/
  start : Nat

namespace Task

variable {σ : Type}

/-- The time of expiry, at most `2 ^ 64 - 1`; zero for a task without a timeout. -/
def deadline (t : Task σ) : Nat :=
  if t.timeoutMillis = noTimeout then 0
  else min (t.start + t.timeoutMillis * 1000000) (UInt64.size - 1)

def cancel (t : Task σ) : Task σ := { t with cancelled := true }

variable {ω : Type} [Outcome ω]

/-- How the promise of a task settles on the result of its action, if it does;
`grade` is the outcome reported for each status. -/
def verdict (grade : Status → ω) (cancelled : Bool) : CallResult → Option (Settled ω)
  | .ok value => some (.ofValue (grade .success) value)
  | .error (.timeout d) => some (.ofError (grade .timeout) (.timeout d))
  | .error .cancelled =>
    if cancelled then none else some (.ofError (grade .error) .cancelled)
  | .error e => some (.ofError (grade .error) e)

/-- How the promise of a task settles when the deadline comes first. -/
def expiry (grade : Status → ω) (t : Task σ) : Settled ω :=
  .ofError (grade .timeout) (.timeout (.ofMillis t.timeoutMillis))

def inspect (t : Task σ) : String :=
  Text.record "ResilientTask"
    [("relative_timeout_millis", toString t.timeoutMillis),
      ("deadline_nanos", toString t.deadline), ("cancelled", Text.truth t.cancelled)]

end Task

end Turnstile
