import Turnstile.Settled

/-!
# Promises

A promise is assigned once. The winning attempt first makes it completing: the
value is stored but not shown, and the hook is taken to be run. Publishing then
shows the value, and the callbacks registered so far are handed out to be fired
in their order. A callback registered later is fired at once.

The steps are pure; who runs hooks and callbacks decides what they are.
-/

namespace Turnstile

inductive Phase (ω : Type) where
  | pending
  | completing (s : Settled ω)
  | done (s : Settled ω)

/-- A callback for one kind of ending. -/
structure Callback (κ : Type) where
  kind : Kind
  body : κ

structure Promise (ω η κ : Type) where
  phase : Phase ω := .pending
  hook : Option η := none
  /-- The callbacks that wait for the value, oldest first. -/
  callbacks : List (Callback κ) := []

namespace Promise

variable {ω η κ : Type}

def withHook (hook : η) : Promise ω η κ := { hook := some hook }

/-- The value that readers see. -/
def settled? (p : Promise ω η κ) : Option (Settled ω) :=
  match p.phase with
  | .done s => some s
  | _ => none

def isDone (p : Promise ω η κ) : Bool := p.settled?.isSome

def isPending (p : Promise ω η κ) : Bool :=
  match p.phase with
  | .pending => true
  | _ => false

theorem isPending_iff {p : Promise ω η κ} : p.isPending = true ↔ p.phase = .pending := by
  unfold isPending
  split <;> simp_all

theorem isPending_eq_false_iff {p : Promise ω η κ} :
    p.isPending = false ↔ p.phase ≠ .pending := by
  rw [← Bool.not_eq_true, isPending_iff]

/-- An attempt to settle: the winner gets the hook to run and the completing promise. -/
def begin? (p : Promise ω η κ) (s : Settled ω) : Option (Option η × Promise ω η κ) :=
  match p.phase with
  | .pending => some (p.hook, { p with phase := .completing s, hook := none })
  | _ => none

/-- Shows the stored value and hands out the waiting callbacks. -/
def publish (p : Promise ω η κ) : List (Callback κ) × Promise ω η κ :=
  match p.phase with
  | .completing s => (p.callbacks, { p with phase := .done s, callbacks := [] })
  | _ => ([], p)

/-- Keeps a callback for later; on a promise that is done it is handed back to be fired. -/
def register (p : Promise ω η κ) (c : Callback κ) :
    Option (Callback κ × Settled ω) × Promise ω η κ :=
  match p.phase with
  | .done s => (some (c, s), p)
  | _ => (none, { p with callbacks := p.callbacks ++ [c] })

/-- Takes the hook away from a pending promise; says whether there was one. -/
def disarm (p : Promise ω η κ) : Bool × Promise ω η κ :=
  match p.phase with
  | .pending => (p.hook.isSome, { p with hook := none })
  | _ => (false, p)

/-- The text of the write side and of the read side. -/
def inspect (p : Promise ω η κ) : String × String :=
  let done := [("done", Text.truth p.isDone)]
  (Text.record "Promise" done, Text.record "Eventual" done)

end Promise

end Turnstile
