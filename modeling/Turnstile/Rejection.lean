/-!
# Reasons for a refusal
-/

namespace Turnstile

inductive Rejection where
  | maxConcurrencyLevelExceeded
  | circuitOpen
  | forcedOpen
  | allServicesRejected
  deriving DecidableEq, Repr

namespace Rejection

/-- All reasons, in the order of their numbers. -/
def all : List Rejection :=
  [.maxConcurrencyLevelExceeded, .circuitOpen, .forcedOpen, .allServicesRejected]

def count : Nat := 4

def ordinal : Rejection → Nat
  | .maxConcurrencyLevelExceeded => 0
  | .circuitOpen => 1
  | .forcedOpen => 2
  | .allServicesRejected => 3

theorem ordinal_lt (r : Rejection) : r.ordinal < count := by cases r <;> decide

theorem ordinal_injective {a b : Rejection} (h : a.ordinal = b.ordinal) : a = b := by
  cases a <;> cases b <;> first | rfl | exact absurd h (by decide)

theorem mem_all (r : Rejection) : r ∈ all := by cases r <;> decide

/-- The wording used in messages. -/
def message : Rejection → String
  | .maxConcurrencyLevelExceeded => "max concurrency level exceeded"
  | .circuitOpen => "circuit open"
  | .forcedOpen => "circuit forced open"
  | .allServicesRejected => "all services rejected"

/-- The name shown in texts. -/
def inspect : Rejection → String
  | .maxConcurrencyLevelExceeded => "MaxConcurrencyLevelExceeded"
  | .circuitOpen => "CircuitOpen"
  | .forcedOpen => "ForcedOpen"
  | .allServicesRejected => "AllServicesRejected"

end Rejection

end Turnstile
