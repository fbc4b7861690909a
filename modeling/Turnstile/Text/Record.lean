/-!
# Records as text

One line for a record: its name, then its fields in order.
-/

namespace Turnstile.Text

/-- `Name { field: value, ... }`. -/
def record (name : String) (fields : List (String × String)) : String :=
  let body := String.intercalate ", " (fields.map fun f => f.1 ++ ": " ++ f.2)
  name ++ " \x7b " ++ body ++ " \x7d"

/-- `Name(value)`. -/
def tagged (name value : String) : String := name ++ "(" ++ value ++ ")"

/-- `true` or `false`. -/
def truth (b : Bool) : String := if b then "true" else "false"

/-- `Some(value)` or `None`. -/
def optional : Option String → String
  | some value => tagged "Some" value
  | none => "None"

end Turnstile.Text
