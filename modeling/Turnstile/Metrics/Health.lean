import Turnstile.Duration
import Turnstile.Text.Record

/-!
# Health

A summary of the events in a trailing window, and the gauges that deliver one.
-/

namespace Turnstile

structure Health where
  total : Nat
  nonRejected : Nat
  failures : Nat
  rejections : Nat
  deriving DecidableEq, Repr

namespace Health

/-- Nothing happened. -/
def empty : Health := ⟨0, 0, 0, 0⟩

def isEmpty (h : Health) : Bool := h = empty

/-- The share of failures among all events, rounded down; its low 64 bits are kept. -/
def failurePercentage (h : Health) : Nat :=
  if h.total = 0 then 0 else h.failures * 100 / h.total % UInt64.size

def inspect (h : Health) : String :=
  Text.record "HealthSnapshot"
    [("total", toString h.total), ("non_rejected_total", toString h.nonRejected),
      ("failures", toString h.failures), ("rejections", toString h.rejections)]

end Health

/-- The health over a trailing period, read at a given time. -/
abbrev Gauge := (trailing : Duration) → (now : Nat) → Health

namespace Gauge

/-- Always shows that nothing happened. -/
def idle : Gauge := fun _ _ => .empty

/-- Shows at each listed time the health listed for it, the first entry winning. -/
def ofReadings (readings : List (Nat × Health)) : Gauge :=
  fun _ now => (readings.lookup now).getD .empty

end Gauge

end Turnstile
