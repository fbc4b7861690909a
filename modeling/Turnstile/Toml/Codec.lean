import Turnstile.Config.Codec
import Turnstile.Toml.Document

/-!
# The format at work

A document is written line by line: its numbers, then its tables under their
headers. In a structure unknown fields are ignored, if all their numbers are
representable. A structure may also be given as an array of its fields in their
order; a date, which has no fields, leaves it as it is.
-/

namespace Turnstile.Toml

/-- A line of a document that is written. -/
inductive Line where
  | blank
  | header (title : String)
  | entry (key : String) (value : Nat)
  deriving DecidableEq, Repr

namespace Line

def text : Line → String
  | blank => "\n"
  | header title => "[" ++ title ++ "]\n"
  | entry key value => key ++ " = " ++ toString value ++ "\n"

/-- The text of several lines. -/
def write (ls : List Line) : String := String.join (ls.map text)

def setting? : String × Value → Option Line
  | (key, .number (.integer (.ofNat n))) => some (entry key n)
  | _ => none

/-- The lines of an entry of a document. -/
def item? : String × Value → Option (List Line)
  | (title, .table es) => (es.mapM setting?).map fun ls => blank :: header title :: ls
  | e => (setting? e).map ([·])

end Line

def write (entries : List (String × Value)) : Except String String :=
  match entries.mapM Line.item? with
  | none => .error "unsupported value"
  | some ls => .ok (Line.write ls.flatten)

def read (text : String) : Except String (List (String × Value)) :=
  match document? text with
  | none => .error "malformed document"
  | some entries => .ok entries

def word (bits : Nat) : Value → Except String Nat
  | .number (.integer (.ofNat n)) =>
    if n < Nat.pow 2 bits then .ok n else .error "number out of range"
  | _ => .error "no whole number"

def fill {α : Type} (base : α) (fields : List (Field α)) : Value → Except String α
  | .moment _ => .ok base
  | .table entries =>
    if entries.all fun e => (fields.map Field.name).contains e.1 || e.2.isRepresentable then
      fields.foldlM (Field.store entries) base
    else .error "number out of range"
  | .array items =>
    (fields.zip items).foldlM (fun a p => (p.1.take p.2).map (· a)) base
  | _ => .error "no table"

def codec : Codec where
  write := write
  read := read
  word := word
  fill := fill

end Turnstile.Toml
