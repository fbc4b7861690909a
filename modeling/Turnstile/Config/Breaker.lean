import Turnstile.Config.Fault

/-!
# Breaker configuration
-/

namespace Turnstile

/-- A failure threshold that no count exceeds in practice. -/
def unboundedFailures : Nat := Nat.pow 2 63 - 1

structure BreakerConfig where
  /-- The circuit opens on more failures than this, ... -/
  failureThreshold : Nat := unboundedFailures
  /-- ... or on a larger share of failures than this, ... -/
  failurePercentageThreshold : Nat := 50
  /-- ... once there are more events than this. -/
  sampleSizeThreshold : Nat := 10
  trailingPeriodMillis : Nat := 5000
  healthRefreshMillis : Nat := 500
  backOffTimeMillis : Nat := 1000
  deriving DecidableEq, Repr

namespace BreakerConfig

/-- The stretch of history that decisions look back on. -/
def trailingPeriod (c : BreakerConfig) : Duration := .ofMillis c.trailingPeriodMillis

/-- The first fault, if there is one. -/
def fault? (c : BreakerConfig) : Option ConfigFault :=
  if 100 < c.failurePercentageThreshold then
    some (.percentageTooHigh c.failurePercentageThreshold)
  else if c.trailingPeriodMillis = 0 then some .noTrailingPeriod
  else none

/-- The settings by name, in the order in which they are written. -/
def settings (c : BreakerConfig) : List (String × Nat) :=
  [("failure_threshold", c.failureThreshold),
    ("failure_percentage_threshold", c.failurePercentageThreshold),
    ("sample_size_threshold", c.sampleSizeThreshold),
    ("trailing_period_millis", c.trailingPeriodMillis),
    ("health_refresh_millis", c.healthRefreshMillis),
    ("back_off_time_millis", c.backOffTimeMillis)]

/-- Gives the named setting another value; an unknown name changes nothing. -/
def set (c : BreakerConfig) (name : String) (value : Nat) : BreakerConfig :=
  match name with
  | "failure_threshold" => { c with failureThreshold := value }
  | "failure_percentage_threshold" => { c with failurePercentageThreshold := value }
  | "sample_size_threshold" => { c with sampleSizeThreshold := value }
  | "trailing_period_millis" => { c with trailingPeriodMillis := value }
  | "health_refresh_millis" => { c with healthRefreshMillis := value }
  | "back_off_time_millis" => { c with backOffTimeMillis := value }
  | _ => c

def inspect (c : BreakerConfig) : String :=
  Text.record "BreakerConfig" (c.settings.map fun s => (s.1, toString s.2))

theorem fault?_eq_none_iff {c : BreakerConfig} :
    c.fault? = none ↔ c.failurePercentageThreshold ≤ 100 ∧ 0 < c.trailingPeriodMillis := by
  unfold fault?
  split
  · simp; omega
  · split <;> simp <;> omega

end BreakerConfig

end Turnstile
