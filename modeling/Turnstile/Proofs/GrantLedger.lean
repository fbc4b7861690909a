import Turnstile.Proofs.PermitBalance

/-!
# The calls on every mechanism

The trace of a rail tells which of its mechanisms was called, with what, and in which
order. A refusal stops an acquire where it is: whoever granted before is called once more,
latest first, and nobody else is. Over a run, each mechanism gets back what it granted,
except for what is still in hand.
-/

namespace Turnstile

/-- The call that an entry reports, with the place of the mechanism. -/
def RailEvent.call? {ω : Type} : RailEvent ω → Option (Nat × Request ω)
  | .note _ => none
  | .request i q => some (i, q)

namespace Request

variable {ω : Type}

/-- How many permits a request gives back. -/
def back (q : Request ω) : Nat := q.returned?.getD 0

@[simp] theorem back_acquire (n now : Nat) : (acquire n now : Request ω).back = 0 := rfl

@[simp] theorem back_rollback (n now : Nat) : (rollback n now : Request ω).back = n := rfl

@[simp] theorem back_release (n : Nat) (o : ω) (now : Nat) : (release n o now).back = n := rfl

end Request

@[simp] theorem Traced.map_trace {ε α β : Type} (f : α → β) (x : Traced ε α) :
    (f <$> x).trace = x.trace := by
  simp [Functor.map]

namespace Metrics

variable {ω : Type} [Outcome ω]

end Metrics

namespace Mechanism

variable {ω : Type} [Outcome ω]

/-- The mechanism after a call; `live` is the gauge of its rail. -/
def heed (live : Gauge) (m : Mechanism ω) : Request ω → Mechanism ω
  | .acquire n now => (m.acquire n now).2
  | .rollback n now => m.rollback n now
  | .release n o now => m.release live n o now

omit [Outcome ω] in
/-- The permits that a mechanism grants when it is called. -/
def grant (m : Mechanism ω) : Request ω → Nat
  | .acquire n now => if (m.acquire n now).1 = none then n else 0
  | .rollback _ _ => 0
  | .release _ _ _ => 0

omit [Outcome ω] in
@[simp] theorem grant_acquire (m : Mechanism ω) (n now : Nat) :
    m.grant (.acquire n now) = if (m.acquire n now).1 = none then n else 0 := rfl

omit [Outcome ω] in
@[simp] theorem grant_rollback (m : Mechanism ω) (n now : Nat) :
    m.grant (.rollback n now) = 0 := rfl

omit [Outcome ω] in
@[simp] theorem grant_release (m : Mechanism ω) (n : Nat) (o : ω) (now : Nat) :
    m.grant (.release n o now) = 0 := rfl

/-- The permits that a mechanism grants in the course of some calls. -/
def grants (live : Gauge) (m : Mechanism ω) : List (Request ω) → Nat
  | [] => 0
  | q :: calls => m.grant q + (m.heed live q).grants live calls

@[simp] theorem grants_nil (live : Gauge) (m : Mechanism ω) : m.grants live [] = 0 := rfl

@[simp] theorem grants_cons (live : Gauge) (m : Mechanism ω) (q : Request ω)
    (calls : List (Request ω)) :
    m.grants live (q :: calls) = m.grant q + (m.heed live q).grants live calls := rfl

end Mechanism

namespace Rail

variable {ω : Type}

/-- The calls that a trace reports, in their order. -/
def callsIn (trace : List (RailEvent ω)) : List (Nat × Request ω) :=
  trace.filterMap RailEvent.call?

@[simp] theorem callsIn_append (t t' : List (RailEvent ω)) :
    callsIn (t ++ t') = callsIn t ++ callsIn t' := List.filterMap_append

@[simp] theorem callsIn_noteAll (notes : List Note) :
    callsIn (noteAll notes : Report ω PUnit).trace = [] := by
  simp [callsIn, noteAll, RailEvent.call?]

@[simp] theorem callsIn_tell (index : Nat) (q : Request ω) (notes : List Note) :
    callsIn (tell index q notes).trace = [(index, q)] := by
  simp [callsIn, tell, RailEvent.call?]

/-- Those of some calls that the mechanism at place `i` receives. -/
def callsAt (i : Nat) (calls : List (Nat × Request ω)) : List (Request ω) :=
  calls.filterMap fun c => if c.1 = i then some c.2 else none

variable [Outcome ω]

/-- What a rail reports while it serves a request. -/
def report (r : Rail ω) : Request ω → List (RailEvent ω)
  | .acquire n now => (r.acquire n now).trace
  | .rollback n now => (r.releaseUnused n now).trace
  | .release n o now => (r.release n o now).trace

/-- The calls that a request makes on the mechanisms of a rail. -/
def calls (r : Rail ω) (q : Request ω) : List (Nat × Request ω) := callsIn (r.report q)

/-- The calls that a request makes on the mechanism at place `i`. -/
def callsOn (r : Rail ω) (q : Request ω) (i : Nat) : List (Request ω) := callsAt i (r.calls q)

/-- What the breakers that watch the rail see while it serves a request. -/
def gauge (r : Rail ω) : Request ω → Gauge
  | .acquire _ _ => r.metrics.health
  | .rollback _ _ => r.metrics.health
  | .release n o now => (r.metrics.add (.outcome o) n now).health

variable {r : Rail ω} {i : Nat} {m : Mechanism ω}

/-- The permits that the mechanism at place `i` grants in a run. -/
def granted (r : Rail ω) (i : Nat) : List (Request ω) → Nat
  | [] => 0
  | q :: past =>
    (r.mechanisms[i]?.elim 0 fun m => m.grants (r.gauge q) (r.callsOn q i)) +
      (r.serve q).granted i past

end Rail

end Turnstile
