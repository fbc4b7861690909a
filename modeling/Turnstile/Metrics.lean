import Turnstile.Config.Metrics
import Turnstile.Metrics.Health
import Turnstile.Metrics.SlotRing
import Turnstile.Note
import Turnstile.Outcome

/-!
# Metrics

Counts of outcomes and refusals, each kept twice: as a total since the start
and per period in a ring of slots. The trailing length of a window enters with
the low 64 bits of its nanoseconds.

Whatever is added up or multiplied is a 64-bit word. A build that checks its
arithmetic breaks off where a word would wrap, and any other one goes on with
the low bits: a reading whose name ends in a question mark is that of the
former, without it that of the latter.
-/

namespace Turnstile

/-- What is counted. -/
inductive Counter (ω : Type) where
  | outcome (o : ω)
  | rejection (reason : Rejection)
  deriving DecidableEq, Repr

namespace Counter

variable {ω : Type} [Outcome ω]

/-- How many counters an outcome set needs. -/
def width (ω : Type) [Outcome ω] : Nat := Outcome.count ω + Rejection.count

/-- Outcomes come first, then reasons, each in the order of their numbers. -/
def index : Counter ω → Fin (width ω)
  | outcome o => ⟨Outcome.ordinal o, Nat.lt_add_right _ (Outcome.ordinal_lt o)⟩
  | rejection r =>
    ⟨Outcome.count ω + r.ordinal, Nat.add_lt_add_left r.ordinal_lt _⟩

/-- All counters in the order of their indices. -/
def all (ω : Type) [Outcome ω] : List (Counter ω) :=
  (Outcome.variants (ω := ω)).map .outcome ++ Rejection.all.map .rejection

end Counter

structure Metrics (ω : Type) [Outcome ω] where
  ring : SlotRing (Counter.width ω)
  totals : Vector UInt64 (Counter.width ω)

namespace Metrics

variable {ω : Type} [Outcome ω]

/-- Empty metrics that begin to count at `start`, the length of a period being of any size. -/
def ofConfig (c : MetricsConfig) (start : Nat) : Except ConfigFault (Metrics ω) :=
  match h : c.fault? with
  | some fault => .error fault
  | none => .ok
    { ring := .create _ c.slotsToTrack (c.resolutionMillis * 1000000) start
        (MetricsConfig.slots_pos h) (MetricsConfig.resolution_pos h)
      totals := .replicate _ 0 }

/-- Empty metrics that begin to count at `start`, if a word holds the nanoseconds of a period. -/
def make (c : MetricsConfig) (start : Nat) : Except BuildFault (Metrics ω) :=
  match ofConfig c start with
  | .error fault => .error (.config fault)
  | .ok m => if c.FitsWord then .ok m else .error .overflow

/-- The length of a period. -/
def resolution (m : Metrics ω) : Duration := ⟨m.ring.resolution⟩

/-- How far back the ring remembers. -/
def span (m : Metrics ω) : Duration := ⟨m.ring.resolution * m.ring.size % UInt64.size⟩

def span? (m : Metrics ω) : Option Duration :=
  if m.ring.resolution * m.ring.size < UInt64.size then some m.span else none

/-- Counts `n` events; an event too late for its slot counts in the totals only. -/
def add (m : Metrics ω) (c : Counter ω) (n now : Nat) : Metrics ω where
  ring := m.ring.add c.index (UInt64.ofNat n) now
  totals := Slot.bump m.totals c.index (UInt64.ofNat n)

/-- What counting an event reports. -/
def addNotes (m : Metrics ω) (c : Counter ω) (now : Nat) : List Note :=
  match m.ring.arrival now with
  | .current => []
  | .fresh previous => [.rotated (m.ring.period now) previous]
  | .late => [.late c.index now]

/-- The total of a counter since the start. -/
def total (m : Metrics ω) (c : Counter ω) : Nat := m.totals[c.index].toNat

/-- All totals in the order of their counters. -/
def totalCounts (m : Metrics ω) : List Nat := (Counter.all ω).map m.total

/-- The trailing length that a window is cut with. -/
def trailingNanos (trailing : Duration) : Nat := trailing.nanos % UInt64.size

/-- The events of a counter in the window of length `trailing` that ends at `now`. -/
def count (m : Metrics ω) (c : Counter ω) (trailing : Duration) (now : Nat) : Nat :=
  m.ring.sum c.index (trailingNanos trailing) now

/-- All counters are added up together, so each one counts only if every one does. -/
def count? (m : Metrics ω) (c : Counter ω) (trailing : Duration) (now : Nat) : Option Nat :=
  if m.ring.SumsFit (trailingNanos trailing) now then some (m.count c trailing now) else none

def health (m : Metrics ω) (trailing : Duration) (now : Nat) : Health :=
  let outcomes := (Outcome.variants (ω := ω)).map fun o =>
    (o, m.count (.outcome o) trailing now)
  let nonRejected := addUp (outcomes.map (·.2)) % UInt64.size
  let failures :=
    addUp ((outcomes.filter fun p => Outcome.isFailure p.1).map (·.2)) % UInt64.size
  let rejections :=
    addUp (Rejection.all.map fun r => m.count (.rejection r) trailing now) % UInt64.size
  ⟨(nonRejected + rejections) % UInt64.size, nonRejected, failures, rejections⟩

/-- All events in a window, of whatever counter. -/
def countAll (m : Metrics ω) (trailing : Duration) (now : Nat) : Nat :=
  addUp ((Counter.all ω).map fun c => m.count c trailing now)

def health? (m : Metrics ω) (trailing : Duration) (now : Nat) : Option Health :=
  if m.ring.SumsFit (trailingNanos trailing) now ∧ m.countAll trailing now < UInt64.size then
    some (m.health trailing now)
  else none

/-- The counts of one period, cut off at the time of reading. -/
structure Interval where
  /-- How many intervals are left, this one included. -/
  remaining : Nat
  start : Nat
  stop : Nat
  counts : List Nat
  deriving DecidableEq, Repr

def Interval.isEmpty (i : Interval) : Bool := i.counts.all (· = 0)

/-- The interval of period `p` in a window that ends at `now`. -/
def interval (m : Metrics ω) (now p : Nat) : Interval :=
  let start := m.ring.periodStart p
  { remaining := m.ring.period now + 1 - p
    start := start
    stop := min ((start + m.ring.resolution) % UInt64.size) (max now start)
    counts := (m.ring.read p).toList.map UInt64.toNat }

/-- The intervals of a window, oldest first. -/
def intervals (m : Metrics ω) (trailing : Duration) (now : Nat) : List Interval :=
  (m.ring.window (trailingNanos trailing) now).map (m.interval now)

def intervals? (m : Metrics ω) (trailing : Duration) (now : Nat) : Option (List Interval) :=
  if ∀ i ∈ m.intervals trailing now, i.start + m.ring.resolution < UInt64.size then
    some (m.intervals trailing now)
  else none

def inspect (m : Metrics ω) : String :=
  let ring := Text.record "SlotBuffer"
    [("slots", toString m.ring.size), ("width", toString (Counter.width ω)),
      ("resolution_nanos", toString m.ring.resolution)]
  Text.record "CountMetrics" [("buffer", ring)]

end Metrics

end Turnstile
