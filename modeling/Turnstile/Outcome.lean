/-!
# Outcomes of guarded calls

A set of outcomes is a finite type whose members are numbered from zero in a
fixed order. Failure, success and timeout are independent flags: an outcome may
carry both of the first two, or neither.
-/

namespace Turnstile

class Outcome (ω : Type) where
  /-- All outcomes, in the order of their numbers. -/
  variants : List ω
  /-- The number of an outcome. -/
  ordinal : ω → Nat
  /-- The name shown in texts and notes. -/
  inspect : ω → String
  isFailure : ω → Bool
  isSuccess : ω → Bool := fun o => !isFailure o
  isTimeout : ω → Bool := fun _ => false
  getElem?_ordinal : ∀ o, variants[ordinal o]? = some o
  map_ordinal : variants.map ordinal = List.range variants.length

namespace Outcome

variable {ω : Type} [Outcome ω]

/-- How many outcomes there are. -/
def count (ω : Type) [Outcome ω] : Nat := (variants (ω := ω)).length

theorem ordinal_lt (o : ω) : ordinal o < count ω := by
  have h := getElem?_ordinal o
  exact (List.getElem?_eq_some_iff.mp h).1

theorem ordinal_injective {a b : ω} (h : ordinal a = ordinal b) : a = b := by
  have ha := getElem?_ordinal a
  rw [h, getElem?_ordinal b] at ha
  exact (Option.some.inj ha).symm

theorem mem_variants (o : ω) : o ∈ (variants : List ω) :=
  List.mem_of_getElem? (getElem?_ordinal o)

end Outcome

/-- The outcomes of calls that run an action. -/
inductive Status where
  | success | error | timeout
  deriving DecidableEq, Repr

instance : Outcome Status where
  variants := [.success, .error, .timeout]
  ordinal
    | .success => 0
    | .error => 1
    | .timeout => 2
  inspect
    | .success => "Success"
    | .error => "Error"
    | .timeout => "Timeout"
  isFailure
    | .success => false
    | _ => true
  isTimeout
    | .timeout => true
    | _ => false
  getElem?_ordinal o := by cases o <;> rfl
  map_ordinal := rfl

end Turnstile
