import Turnstile.Config.Breaker
import Turnstile.Metrics.Health
import Turnstile.Note
import Turnstile.Outcome

/-!
# Circuit breakers

A closed circuit admits every call. An outcome that is no success makes a
closed circuit look at the health of its target, at most once per refresh
interval, and open when a threshold is crossed. An open circuit admits one
trial call per back-off time; any success closes it. A circuit can be forced
open or closed, and then stays forced until it is forced the other way.
-/

namespace Turnstile

inductive CircuitState where
  | closed | opened | forcedOpen
  deriving DecidableEq, Repr

def CircuitState.inspect : CircuitState → String
  | .closed => "Closed"
  | .opened => "Open"
  | .forcedOpen => "ForcedOpen"

structure Breaker where
  name : String
  config : BreakerConfig
  state : CircuitState
  /-- The back-off time that admission goes by, in milliseconds. -/
  backOff : Nat
  /-- The millisecond of the opening or of the last trial call. -/
  lastTested : Nat
  /-- The millisecond of the last look at the health. -/
  lastRefresh : Option Nat
  /-- The health as last read. -/
  health : Health
  deriving DecidableEq, Repr

/-- What can be done to a breaker by hand. -/
inductive Lever where
  | forceOpen
  | forceClosed
  | configure (c : BreakerConfig)
  deriving DecidableEq, Repr

/-- Whole milliseconds of a time in nanoseconds. -/
def millisOf (nanos : Nat) : Nat := nanos / 1000000

/-- Whether a health reading calls for an open circuit. -/
def BreakerConfig.tripsOn (c : BreakerConfig) (h : Health) : Bool :=
  c.failureThreshold < h.failures ||
    (c.failurePercentageThreshold < h.failurePercentage && c.sampleSizeThreshold < h.total)

namespace Breaker

/-- A closed circuit that has not looked at its target yet. -/
def ofConfig (c : BreakerConfig) (name : String) : Except ConfigFault Breaker :=
  match c.fault? with
  | some fault => .error fault
  | none => .ok ⟨name, c, .closed, c.backOffTimeMillis, 0, none, .empty⟩

/-- The name of a breaker that was given none. -/
def defaultName : String := "default"

/-- An open circuit that is forced open counts as open. -/
def isOpen (b : Breaker) : Bool := b.state ≠ .closed

def forceOpen (b : Breaker) : Breaker := { b with state := .forcedOpen }

def forceClosed (b : Breaker) : Breaker := { b with state := .closed }

/-- Swaps the configuration; everything learnt so far stays. -/
def setConfig (b : Breaker) (c : BreakerConfig) : Except ConfigFault Breaker :=
  match c.fault? with
  | some fault => .error fault
  | none => .ok { b with config := c, backOff := c.backOffTimeMillis }

/-- Whether an open circuit may admit a trial call; the sum stops at `2 ^ 64 - 1`. -/
def trialDue (b : Breaker) (now : Nat) : Bool :=
  min (b.lastTested + b.backOff) (UInt64.size - 1) ≤ millisOf now

/-- Asks for admission; a trial call starts the back-off time anew. -/
def allow (b : Breaker) (now : Nat) : Option Rejection × Breaker :=
  match b.state with
  | .closed => (none, b)
  | .forcedOpen => (some .forcedOpen, b)
  | .opened =>
    if b.trialDue now then (none, { b with lastTested := millisOf now })
    else (some .circuitOpen, b)

/-- What asking for admission reports. -/
def allowNotes (b : Breaker) (now : Nat) : List Note :=
  if b.state = .opened && b.trialDue now then [.trialCall b.name (millisOf now)] else []

/-- Whether the health reading in store is too old to decide on; the sum stops at
`2 ^ 64 - 1`. -/
def refreshDue (b : Breaker) (now : Nat) : Bool :=
  match b.lastRefresh with
  | none => true
  | some last => min (last + b.config.healthRefreshMillis) (UInt64.size - 1) ≤ millisOf now

/-- Reads the gauge if the reading in store is too old. -/
def refresh (b : Breaker) (gauge : Gauge) (now : Nat) : Breaker :=
  if b.refreshDue now then
    { b with
      lastRefresh := some (millisOf now)
      health := gauge b.config.trailingPeriod now }
  else b

/-- Opens the circuit if the health in store calls for it. -/
def judge (b : Breaker) (now : Nat) : Breaker :=
  if b.config.tripsOn b.health then { b with state := .opened, lastTested := millisOf now }
  else b

variable {ω : Type} [Outcome ω]

/-- Learns the outcome of a call. -/
def inform (b : Breaker) (gauge : Gauge) (o : ω) (now : Nat) : Breaker :=
  if Outcome.isSuccess o then
    if b.state = .opened then { b with state := .closed } else b
  else if b.state = .closed then (b.refresh gauge now).judge now
  else b

/-- What learning an outcome reports: nothing unless the circuit opens or closes. -/
def informNotes (b : Breaker) (gauge : Gauge) (o : ω) (now : Nat) : List Note :=
  let b' := b.inform gauge o now
  match b.state, b'.state with
  | .opened, .closed => [.circuitClosed b.name (Outcome.inspect o)]
  | .closed, .opened =>
    [.circuitOpened b.name b'.health.failures b'.health.total b'.health.failurePercentage]
  | _, _ => []

/-- The reading of the gauge that learning an outcome takes, if it takes one. -/
def reading (b : Breaker) (o : ω) (now : Nat) : Option (Duration × Nat) :=
  if !Outcome.isSuccess o && b.state = .closed && b.refreshDue now then
    some (b.config.trailingPeriod, now)
  else none

/-- One turn of a breaker: its answer, what has become of it, what it noted and which
readings it took. -/
structure Turn (α : Type) where
  answer : α
  breaker : Breaker
  notes : List Note := []
  readings : List (Duration × Nat) := []

namespace Turn

def map {α β : Type} (f : α → β) (t : Turn α) : Turn β := { t with answer := f t.answer }

end Turn

def ask (b : Breaker) (now : Nat) : Turn (Option Rejection) :=
  { answer := (b.allow now).1, breaker := (b.allow now).2, notes := b.allowNotes now }

def tell (b : Breaker) (gauge : Gauge) (o : ω) (now : Nat) : Turn PUnit :=
  { answer := ⟨⟩
    breaker := b.inform gauge o now
    notes := b.informNotes gauge o now
    readings := (b.reading o now).toList }

def force (b : Breaker) (opened : Bool) : Turn PUnit :=
  if opened then { answer := ⟨⟩, breaker := b.forceOpen, notes := [.forcedOpen b.name] }
  else { answer := ⟨⟩, breaker := b.forceClosed, notes := [.forcedClosed b.name] }

/-- A faulty configuration is not taken over. -/
def configure (b : Breaker) (c : BreakerConfig) : Turn (Except ConfigFault PUnit) :=
  match b.setConfig c with
  | .error fault => { answer := .error fault, breaker := b }
  | .ok b' => { answer := .ok ⟨⟩, breaker := b', notes := [.configReplaced b.name] }

def pull (b : Breaker) : Lever → Turn PUnit
  | .forceOpen => b.force true
  | .forceClosed => b.force false
  | .configure c => (b.configure c).map fun _ => ⟨⟩

def inspect (b : Breaker) : String :=
  Text.record "CircuitBreaker"
    [("name", Text.quoted b.name), ("state", b.state.inspect), ("config", b.config.inspect)]

end Breaker

end Turnstile
