import Turnstile.Toml.Moment
import Turnstile.Toml.Number

/-!
# Values
-/

namespace Turnstile.Toml

def isBare (c : Char) : Bool := c.isAlphanum || c = '-' || c = '_'

/-- Whether the characters are a key without quotes. -/
def isName (s : List Char) : Bool := s != [] && s.all isBare

inductive Value where
  | text (s : String)
  | number (n : Number)
  | boolean (b : Bool)
  | moment (m : Moment)
  | array (items : List Value)
  | table (entries : List (String × Value))

namespace Value

mutual

/-- Whether all numbers in the value are representable. -/
def isRepresentable : Value → Bool
  | number n => n.isRepresentable
  | array items => areRepresentable items
  | table entries => entriesRepresentable entries
  | text _ | boolean _ | moment _ => true

def areRepresentable : List Value → Bool
  | [] => true
  | v :: rest => v.isRepresentable && areRepresentable rest

def entriesRepresentable : List (String × Value) → Bool
  | [] => true
  | (_, v) :: rest => v.isRepresentable && entriesRepresentable rest

end

end Value

/-- Numbers as the entries of a table. -/
def values (es : List (String × Nat)) : List (String × Value) :=
  es.map fun e => (e.1, .number (.integer e.2))

/-- The entries of a document of numbers and tables of numbers. -/
def sheet (numbers : List (String × Nat)) (tables : List (String × List (String × Nat))) :
    List (String × Value) :=
  values numbers ++ tables.map fun t => (t.1, .table (values t.2))

end Turnstile.Toml
