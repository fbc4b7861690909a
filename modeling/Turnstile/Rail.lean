import Turnstile.Config.Rail
import Turnstile.Mechanism
import Turnstile.Metrics
import Turnstile.Traced

/-!
# Guard rails

A guard rail asks its mechanisms in order. The first refusal is the answer of
the rail: the mechanisms before it give back what they granted, latest first,
and the metrics count the refusal. An outcome is counted first and then told
to every mechanism in order.
-/

namespace Turnstile

/-- An entry in the trace of a rail. -/
inductive RailEvent (ω : Type) where
  | note (n : Note)
  /-- The mechanism at `index` was asked or told something. -/
  | request (index : Nat) (r : Request ω)
  deriving Repr

structure Rail (ω : Type) [Outcome ω] where
  name : String
  metrics : Metrics ω
  mechanisms : List (Mechanism ω)

namespace Rail

variable {ω : Type} [Outcome ω]

/-- A computation that reports to the trace of a rail. -/
abbrev Report (ω α : Type) := Traced (RailEvent ω) α

/-- Reports one request and what it made the mechanism note. -/
def tell (index : Nat) (r : Request ω) (notes : List Note) : Report ω PUnit :=
  Traced.emit (.request index r :: notes.map .note)

def noteAll (notes : List Note) : Report ω PUnit := Traced.emit (notes.map .note)

/-- Asks the mechanisms, the first of which has number `index`, for `n` permits. -/
def acquireAll (n now : Nat) :
    (index : Nat) → List (Mechanism ω) → Report ω (Option Rejection × List (Mechanism ω))
  | _, [] => pure (none, [])
  | index, m :: rest => do
    tell index (.acquire n now) (m.acquireNotes n now)
    let granted := (m.acquire n now).2
    match (m.acquire n now).1 with
    | some reason => pure (some reason, granted :: rest)
    | none =>
      let (answer, rest') ← acquireAll n now (index + 1) rest
      match answer with
      | none => pure (none, granted :: rest')
      | some reason =>
        tell index (.rollback n now) (granted.rollbackNotes n)
        pure (some reason, granted.rollback n now :: rest')

/-- Gives `n` permits back without an outcome, to the last mechanism first. -/
def rollbackAll (n now : Nat) :
    (index : Nat) → List (Mechanism ω) → Report ω (List (Mechanism ω))
  | _, [] => pure []
  | index, m :: rest => do
    let rest' ← rollbackAll n now (index + 1) rest
    tell index (.rollback n now) (m.rollbackNotes n)
    pure (m.rollback n now :: rest')

/-- Tells the outcome of `n` permits to every mechanism in order. -/
def releaseAll (live : Gauge) (n : Nat) (o : ω) (now : Nat) :
    (index : Nat) → List (Mechanism ω) → Report ω (List (Mechanism ω))
  | _, [] => pure []
  | index, m :: rest => do
    tell index (.release n o now) (m.releaseNotes live n o now)
    let rest' ← releaseAll live n o now (index + 1) rest
    pure (m.release live n o now :: rest')

/-- Counts `n` events. -/
def count (r : Rail ω) (c : Counter ω) (n now : Nat) : Report ω (Rail ω) := do
  noteAll (r.metrics.addNotes c now)
  pure { r with metrics := r.metrics.add c n now }

/-- Asks for `n` permits: a reason for the refusal, or `none` for a grant. -/
def acquire (r : Rail ω) (n now : Nat) : Report ω (Option Rejection × Rail ω) := do
  let (answer, mechanisms) ← acquireAll n now 0 r.mechanisms
  let r' := { r with mechanisms := mechanisms }
  match answer with
  | none => pure (none, r')
  | some reason =>
    let r'' ← r'.count (.rejection reason) n now
    noteAll [.refused r.name n reason]
    pure (some reason, r'')

/-- Gives back `n` permits that were used with outcome `o`. -/
def release (r : Rail ω) (n : Nat) (o : ω) (now : Nat) : Report ω (Rail ω) := do
  let r' ← r.count (.outcome o) n now
  let mechanisms ← releaseAll r'.metrics.health n o now 0 r'.mechanisms
  pure { r' with mechanisms := mechanisms }

/-- Gives back `n` permits that were not used. -/
def releaseUnused (r : Rail ω) (n now : Nat) : Report ω (Rail ω) := do
  let mechanisms ← rollbackAll n now 0 r.mechanisms
  pure { r with mechanisms := mechanisms }

/-- Puts a rail together; the mechanisms are asked in the order given. -/
def build (name : String) (metrics : Metrics ω) (mechanisms : List (Mechanism ω)) :
    Report ω (Rail ω) := do
  noteAll [.railBuilt name mechanisms.length]
  pure ⟨name, metrics, mechanisms⟩

/-- A limiter and a breaker that watches the metrics of the rail. -/
def ofConfig (name : String) (c : RailConfig) (start : Nat) :
    Except ConfigFault (Report ω (Rail ω)) :=
  match c.fault? with
  | some fault => .error fault
  | none => do
    let metrics ← Metrics.ofConfig c.metrics start
    let breaker ← Breaker.ofConfig c.breaker name
    pure (build name metrics
      [.limiter (.ofCapacity c.maxConcurrency), .breaker breaker none])

/-- The same, if a word holds the nanoseconds of a period of the metrics. -/
def make (name : String) (c : RailConfig) (start : Nat) :
    Except BuildFault (Report ω (Rail ω)) :=
  match ofConfig name c start with
  | .error fault => .error (.config fault)
  | .ok built => if c.metrics.FitsWord then .ok built else .error .overflow

/-- The limiter that was added last. -/
def limiter? (r : Rail ω) : Option Limiter :=
  r.mechanisms.reverse.findSome? fun
    | .limiter l => some l
    | _ => none

/-- The breaker that was added last, with the gauge it watches. -/
def breaker? (r : Rail ω) : Option (Breaker × Gauge) :=
  r.mechanisms.reverse.findSome? fun
    | .breaker b gauge => some (b, gauge.getD r.metrics.health)
    | _ => none

/-- Puts `b` in the place of the last breaker. -/
def replaceBreaker (b : Breaker) : List (Mechanism ω) → Option (List (Mechanism ω))
  | [] => none
  | m :: rest =>
    match replaceBreaker b rest, m with
    | some rest', _ => some (m :: rest')
    | none, .breaker _ gauge => some (.breaker b gauge :: rest)
    | none, _ => none

/-- The rail with another breaker in the place of its last one. -/
def setBreaker (r : Rail ω) (b : Breaker) : Rail ω :=
  { r with mechanisms := (replaceBreaker b r.mechanisms).getD r.mechanisms }

def inspect (r : Rail ω) : String :=
  Text.record "GuardRail"
    [("name", Text.quoted r.name), ("mechanisms", toString r.mechanisms.length),
      ("limiter", Text.optional (r.limiter?.map Limiter.inspect)),
      ("breaker", Text.optional (r.breaker?.map fun p => p.1.inspect))]

end Rail

end Turnstile
