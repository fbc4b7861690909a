import Turnstile.Breaker
import Turnstile.Limiter

/-!
# Admission mechanisms

A mechanism grants or refuses permits, takes back a grant that came to nothing,
and is told the outcome of a grant that was used.
-/

namespace Turnstile

/-- What a mechanism is asked or told. -/
inductive Request (ω : Type) where
  | acquire (permits now : Nat)
  /-- A grant goes back without an outcome. -/
  | rollback (permits now : Nat)
  | release (permits : Nat) (outcome : ω) (now : Nat)
  deriving DecidableEq, Repr

/-- A mechanism of one's own: it answers by any rule on the requests it has seen. -/
structure Custom (ω : Type) where
  /-- The answer to an acquire request, given all requests up to it, latest first. -/
  policy : List (Request ω) → Option Rejection
  history : List (Request ω) := []

namespace Custom

variable {ω : Type}

/-- Gives the same answer every time. -/
def constant (answer : Option Rejection) : Custom ω := { policy := fun _ => answer }

def record (c : Custom ω) (r : Request ω) : Custom ω := { c with history := r :: c.history }

/-- The answer to the latest request. -/
def answer (c : Custom ω) : Option Rejection := c.policy c.history

end Custom

inductive Mechanism (ω : Type) where
  | limiter (l : Limiter)
  /-- A breaker with a gauge of its own, or else with the metrics of its rail. -/
  | breaker (b : Breaker) (gauge : Option Gauge)
  | custom (c : Custom ω)

namespace Mechanism

variable {ω : Type}

def acquire (m : Mechanism ω) (n now : Nat) : Option Rejection × Mechanism ω :=
  match m with
  | limiter l =>
    match l.acquire? n with
    | some l' => (none, limiter l')
    | none => (some .maxConcurrencyLevelExceeded, limiter l)
  | breaker b gauge =>
    let (answer, b') := b.allow now
    (answer, breaker b' gauge)
  | custom c =>
    let c' := c.record (.acquire n now)
    (c'.answer, custom c')

def acquireNotes (m : Mechanism ω) (n now : Nat) : List Note :=
  match m with
  | limiter l => l.acquireNotes n
  | breaker b _ => b.allowNotes now
  | custom _ => []

/-- A breaker keeps no account of grants, so nothing goes back to it. -/
def rollback (m : Mechanism ω) (n now : Nat) : Mechanism ω :=
  match m with
  | limiter l => limiter (l.release n)
  | breaker b gauge => breaker b gauge
  | custom c => custom (c.record (.rollback n now))

def rollbackNotes (m : Mechanism ω) (n : Nat) : List Note :=
  match m with
  | limiter l => l.releaseNotes n
  | breaker _ _ | custom _ => []

variable [Outcome ω]

/-- Learns the outcome of `n` permits; `live` is the gauge of the rail. -/
def release (m : Mechanism ω) (live : Gauge) (n : Nat) (o : ω) (now : Nat) : Mechanism ω :=
  match m with
  | limiter l => limiter (l.release n)
  | breaker b gauge => breaker (b.inform (gauge.getD live) o now) gauge
  | custom c => custom (c.record (.release n o now))

def releaseNotes (m : Mechanism ω) (live : Gauge) (n : Nat) (o : ω) (now : Nat) : List Note :=
  match m with
  | limiter l => l.releaseNotes n
  | breaker b gauge => b.informNotes (gauge.getD live) o now
  | custom _ => []

end Mechanism

end Turnstile
