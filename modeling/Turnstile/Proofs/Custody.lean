import Turnstile.Proofs.HookFirst
import Turnstile.Proofs.PermitBalance
import Turnstile.Proofs.Pledges

/-!
# Permits in the custody of a promise

The hook of a promise for permits gives them back to their rail. Its scripts are run by the
machine while anybody else uses the rail, between any two steps. Whoever sees the value, and every
callback, finds that the permits have gone back and that the outcome has been counted.
-/

namespace Turnstile

variable {ω : Type} [Outcome ω]

namespace Metrics

end Metrics

namespace Rail

end Rail

/-- A promise for permits: the lobby of the rail that they belong to, and the machine that runs
the scripts on the promise. -/
structure Custody (ω : Type) [Outcome ω] where
  lobby : Lobby ω
  permits : Nat
  machine : Machine ω

namespace Custody

/-- What can happen next. -/
inductive Turn (ω : Type) where
  /-- Somebody uses the rail or its clock. -/
  | act (a : Lobby.Act ω)
  /-- A step on the promise begins from outside, if nothing is left to run. -/
  | begin (s : Step ω)
  /-- The machine takes one step. -/
  | tick

def Turn.act? : Turn ω → Option (Lobby.Act ω)
  | .act a => some a
  | .begin _ | .tick => none

/-- What others have done to the rail. -/
def acts (turns : List (Turn ω)) : List (Lobby.Act ω) := turns.filterMap Turn.act?

/-- The machine has moved on. A hook that was run has given the permits back at the time of the
clock. -/
def moveOn (c : Custody ω) (m : Machine ω) : Custody ω :=
  { c with
    lobby := (m.hooked.drop c.machine.hooked.length).foldl
      (fun l o => (l.release c.permits o l.now).value) c.lobby
    machine := m }

def turn (c : Custody ω) : Turn ω → Custody ω
  | .act a => { c with lobby := (c.lobby.perform a).2 }
  | .begin s =>
    if c.machine.stack = [] then c.moveOn ({ c.machine with raised := none }.perform s) else c
  | .tick => c.moveOn c.machine.step

def run (c : Custody ω) (turns : List (Turn ω)) : Custody ω := turns.foldl turn c

variable {c : Custody ω} {hook : Script ω} {attempts : List (Settled ω)}

end Custody

namespace Lobby

variable {l : Lobby ω} {label : String}

/-- A promise for `n` permits was made under this label in the course of the deals. -/
def Granted (l : Lobby ω) (deals : List (Deal ω)) (label : String) (n : Nat) : Prop :=
  ∃ made now between, deals = made ++ .promise label n now :: between ∧
    ((l.run deal made).2.acquire n now).value.1 = none

theorem run_snoc (l : Lobby ω) (deals : List (Deal ω)) (d : Deal ω) :
    (l.run deal (deals ++ [d])).2 = ((l.run deal deals).2.deal d).2 := by
  rw [run_append]
  rfl

theorem Granted.snoc {deals : List (Deal ω)} {n : Nat} (h : l.Granted deals label n)
    (d : Deal ω) : l.Granted (deals ++ [d]) label n := by
  obtain ⟨made, now, between, rfl, hgrant⟩ := h
  exact ⟨made, now, between ++ [d], by simp, hgrant⟩

end Lobby

end Turnstile
