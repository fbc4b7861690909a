import Turnstile.Note
import Turnstile.Promise
import Turnstile.Task

/-!
# Scripts

The bodies of hooks, callbacks and actions are scripts: lists of steps on the
promise they belong to, and on its task if it has one. A callback registered by
a step carries a script of its own, so scripts nest.
-/

namespace Turnstile

/-- Questions, which change nothing. -/
inductive Question where
  | isDone
  | peek
  | get
  | getTimeout (wait : Duration)
  | intoResult
  | promiseText
  | settledText
  | isCancelled
  | times
  | taskText
  deriving DecidableEq, Repr

inductive Step (ω : Type) where
  | complete (outcome : ω) (value : String)
  | fail (outcome : ω) (error : GuardError)
  | on (kind : Kind) (label : String) (body : List (Step ω))
  | panic (p : Panic)
  | ask (q : Question)
  /-- Runs the action of the task. -/
  | run
  /-- Tells the task that its deadline has come. -/
  | expire
  /-- Raises the cancellation flag of the task. -/
  | cancel

abbrev Script (ω : Type) := List (Step ω)

/-- The name of a step. -/
inductive Verb where
  | complete | fail | on | panic | run | expire | cancel
  | ask (q : Question)
  | advance | setClock
  deriving DecidableEq, Repr

def Step.verb {ω : Type} : Step ω → Verb
  | .complete .. => .complete
  | .fail .. => .fail
  | .on .. => .on
  | .panic _ => .panic
  | .ask q => .ask q
  | .run => .run
  | .expire => .expire
  | .cancel => .cancel

inductive Answer (ω : Type) where
  | nothing
  | truth (b : Bool)
  | truths (a b : Bool)
  | number (n : Nat)
  | numbers (ns : List Nat)
  | text (s : String)
  | texts (a b : String)
  | settled (s : Option (Settled ω))
  /-- The answer to a poll, with the number of wake-ups so far. -/
  | polled (s : Option (Settled ω)) (wakes : Nat)
  | result (r : Option CallResult)
  | failed (e : GuardError)
  | panicked (p : Panic)

/-- What can be seen from outside while scripts run. -/
inductive Event (ω : Type) where
  | hook (outcome : ω)
  | callback (label : String) (got : CallResult)
  | action (label : Option String)
  | did (verb : Verb) (answer : Answer ω)
  | fallback (tag : String) (kind : Kind) (message : String)
  | fired (label : String)

/-- A callback body with the label it reports. -/
structure Reaction (ω : Type) where
  label : String
  body : Script ω

/-- What is done with a panic that leaves a callback or a hook. -/
inductive Fallback where
  /-- It is noted. -/
  | note
  /-- It is shown under a tag. The handler may then panic itself, as it chooses. -/
  | notify (tag : String) (raises : Kind → Panic → Option Panic)

namespace Fallback

def events {ω : Type} (f : Fallback) (kind : Kind) (p : Panic) : List (Event ω) :=
  match f with
  | note => []
  | notify tag _ => [.fallback tag kind p.message]

def notes (f : Fallback) (kind : Kind) (p : Panic) : List Note :=
  match f with
  | note => [.callbackPanicked kind p.message]
  | notify .. => []

/-- The panic that the handler raises in turn. -/
def raised (f : Fallback) (kind : Kind) (p : Panic) : Option Panic :=
  match f with
  | note => none
  | notify _ raises => raises kind p

/-- The handler does not panic, whatever it is told. -/
def Quiet (f : Fallback) : Prop := ∀ kind p, f.raised kind p = none

/-- The handler that only shows what it is told. -/
def shown (tag : String) : Fallback := .notify tag fun _ _ => none

/-- The handler that also panics, whatever it is told. -/
def loud (tag : String) (p : Panic) : Fallback := .notify tag fun _ _ => some p

theorem quiet_note : note.Quiet := fun _ _ => rfl

theorem quiet_shown (tag : String) : (shown tag).Quiet := fun _ _ => rfl

theorem Quiet.bind_raised {f : Fallback} (quiet : f.Quiet) (kind : Kind) (raised : Option Panic) :
    raised.bind (f.raised kind) = none := by
  cases raised with
  | none => rfl
  | some p => exact quiet kind p

end Fallback

end Turnstile
