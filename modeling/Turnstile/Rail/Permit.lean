import Turnstile.Promise
import Turnstile.Rail

/-!
# Promises for permits

A promise can stand for admitted permits. Its hook gives them back to the rail
with the outcome of the first completion, before anybody sees the value.
-/

namespace Turnstile

/-- A promise whose hook holds a number of permits and whose callbacks show a label. -/
abbrev Permit (ω : Type) := Promise ω Nat String

/-- What an attempt to settle a permit came to. -/
structure Handover (ω : Type) [Outcome ω] where
  won : Bool
  rail : Rail ω
  permit : Permit ω
  /-- The labels of the callbacks that are fired, in their order. -/
  fired : List String

namespace Permit

variable {ω : Type} [Outcome ω]

/-- A promise for `n` admitted permits. -/
def hold (n : Nat) : Permit ω := Promise.withHook n

/-- Settles the promise. The winner gives back the permits at time `now`, then shows its value. -/
def settle (p : Permit ω) (r : Rail ω) (s : Settled ω) (now : Nat) :
    Rail.Report ω (Handover ω) :=
  match p.begin? s with
  | none => pure ⟨false, r, p, []⟩
  | some (hook, completing) => do
    let r' ← match hook with
      | some n => r.release n s.outcome now
      | none => pure r
    let (callbacks, shown) := completing.publish
    let meant := callbacks.filter fun c => c.kind = s.kind
    pure ⟨true, r', shown, meant.map Callback.body⟩

end Permit

end Turnstile
