import Turnstile.Toml.Value

/-!
# Document formats

What a configuration needs of a format: tables become texts and texts become
tables, and structures are filled from values.
-/

namespace Turnstile

open Toml (Value)

/-- A field of a structure: how its value is read, and where it goes. -/
structure Field (α : Type) where
  name : String
  take : Value → Except String (α → α)

/-- A format. What goes wrong is told in its own words. -/
structure Codec where
  write : List (String × Value) → Except String String
  /-- The entries of a document, in the order of its text. -/
  read : String → Except String (List (String × Value))
  /-- A whole number of at most so many bits. -/
  word : (bits : Nat) → Value → Except String Nat
  /-- A structure from what a value gives of its fields. It is `base` in the others. -/
  fill : {α : Type} → (base : α) → List (Field α) → Value → Except String α

namespace Codec

variable {α : Type}

/-- A field that holds a number. -/
def number (k : Codec) (bits : Nat) (name : String) (set : Nat → α → α) : Field α :=
  ⟨name, fun v => (k.word bits v).map set⟩

/-- A field that holds a structure. -/
def part {β : Type} (k : Codec) (name : String) (base : β) (fields : List (Field β))
    (set : β → α → α) : Field α :=
  ⟨name, fun v => (k.fill base fields v).map set⟩

end Codec

namespace Field

variable {α : Type}

/-- Takes the value of a field, if there is one. -/
def store (entries : List (String × Value)) (a : α) (f : Field α) : Except String α :=
  match entries.lookup f.name with
  | none => .ok a
  | some v => (f.take v).map (· a)

end Field

end Turnstile
