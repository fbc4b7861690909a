import Turnstile.Clock
import Turnstile.Labelled
import Turnstile.Rail.Permit

/-!
# Lobbies

A rail together with its clock and the promises made for its permits, each under
a label. A completion gives permits back at the time that the clock then shows.
-/

namespace Turnstile

structure Lobby (ω : Type) [Outcome ω] where
  rail : Rail ω
  clock : Clock
  /-- What the clock of the rail shows, if it is another than the one that is set by hand. -/
  own : Option Nat := none
  permits : Labelled (Permit ω) := []

namespace Lobby

variable {ω : Type} [Outcome ω]

/-- The time on the clock of the rail. -/
def now (l : Lobby ω) : Nat := l.own.getD l.clock.now

def acquire (l : Lobby ω) (n now : Nat) : Rail.Report ω (Option Rejection × Lobby ω) := do
  let (answer, rail) ← l.rail.acquire n now
  pure (answer, { l with rail := rail })

def release (l : Lobby ω) (n : Nat) (o : ω) (now : Nat) : Rail.Report ω (Lobby ω) := do
  let rail ← l.rail.release n o now
  pure { l with rail := rail }

def releaseUnused (l : Lobby ω) (n now : Nat) : Rail.Report ω (Lobby ω) := do
  let rail ← l.rail.releaseUnused n now
  pure { l with rail := rail }

/-- Acquires `n` permits and, if they are granted, keeps a promise for them. -/
def acquirePermit (l : Lobby ω) (label : String) (n now : Nat) :
    Rail.Report ω (Option Rejection × Lobby ω) := do
  let (answer, l') ← l.acquire n now
  match answer with
  | some reason => pure (some reason, l')
  | none => pure (none, { l' with permits := Labelled.assign label (Permit.hold n) l'.permits })

/-- Settles the promise under a label; says whether this was the first attempt. -/
def settle (l : Lobby ω) (label : String) (s : Settled ω) : Rail.Report ω (Bool × Lobby ω) :=
  match Labelled.get? l.permits label with
  | none => pure (false, l)
  | some p => do
    let h ← p.settle l.rail s l.now
    pure (h.won, { l with rail := h.rail, permits := Labelled.assign label h.permit l.permits })

/-- What the promise under a label shows. -/
def peek (l : Lobby ω) (label : String) : Option (Settled ω) :=
  (Labelled.get? l.permits label).bind Promise.settled?

def setClock (l : Lobby ω) (nanos : Nat) : Lobby ω := { l with clock := l.clock.set nanos }

def advance (l : Lobby ω) (millis : Nat) : Lobby ω :=
  { l with clock := l.clock.advance millis }

end Lobby

end Turnstile
