import Turnstile.Config.Breaker
import Turnstile.Config.Metrics

/-!
# Guard rail configuration

The two parts are checked first; together they must let the breaker look back
no further than the metrics remember.
-/

namespace Turnstile

/-- The capacity of a limiter that is not meant to limit. -/
def defaultMaxConcurrency : Nat := Nat.pow 2 30 - 1

structure RailConfig where
  maxConcurrency : Nat := defaultMaxConcurrency
  breaker : BreakerConfig := {}
  metrics : MetricsConfig := {}
  deriving DecidableEq, Repr

namespace RailConfig

def fault? (c : RailConfig) : Option ConfigFault :=
  match c.breaker.fault? with
  | some fault => some fault
  | none =>
    match c.metrics.fault? with
    | some fault => some fault
    | none =>
      if c.metrics.span < c.breaker.trailingPeriod then
        some (.trailingExceedsSpan c.breaker.trailingPeriod c.metrics.span)
      else none

def inspect (c : RailConfig) : String :=
  Text.record "GuardRailConfig"
    [("max_concurrency", toString c.maxConcurrency), ("breaker", c.breaker.inspect),
      ("metrics", c.metrics.inspect)]

theorem fault?_eq_none_iff {c : RailConfig} :
    c.fault? = none ↔ c.breaker.fault? = none ∧ c.metrics.fault? = none ∧
      c.breaker.trailingPeriod ≤ c.metrics.span := by
  unfold fault?
  cases c.breaker.fault? <;> cases c.metrics.fault? <;>
    simp [Duration.lt_def, Duration.le_def]

end RailConfig

end Turnstile
