/-!
# Durations

A duration is a whole number of nanoseconds. Its text uses the largest of the
units s, ms, µs and ns that gives a nonzero integer part, followed by the exact
decimal fraction without trailing zeros.
-/

namespace Turnstile

/-- A length of time in nanoseconds. -/
structure Duration where
  nanos : Nat
  deriving DecidableEq, Repr

namespace Duration

def ofMillis (n : Nat) : Duration := ⟨n * 1000000⟩

def ofSeconds (seconds nanos : Nat) : Duration := ⟨seconds * 1000000000 + nanos⟩

def seconds (d : Duration) : Nat := d.nanos / 1000000000

/-- What is left of the last started second. -/
def subsecond (d : Duration) : Nat := d.nanos % 1000000000

/-- Whole milliseconds; the rest is dropped. -/
def millis (d : Duration) : Nat := d.nanos / 1000000

instance : Add Duration := ⟨fun a b => ⟨a.nanos + b.nanos⟩⟩

instance : LE Duration := ⟨fun a b => a.nanos ≤ b.nanos⟩
instance : LT Duration := ⟨fun a b => a.nanos < b.nanos⟩

theorem le_def {a b : Duration} : a ≤ b ↔ a.nanos ≤ b.nanos := Iff.rfl
theorem lt_def {a b : Duration} : a < b ↔ a.nanos < b.nanos := Iff.rfl

instance (a b : Duration) : Decidable (a ≤ b) := inferInstanceAs (Decidable (a.nanos ≤ b.nanos))
instance (a b : Duration) : Decidable (a < b) := inferInstanceAs (Decidable (a.nanos < b.nanos))

@[simp] theorem ofMillis_le_ofMillis {m n : Nat} : ofMillis m ≤ ofMillis n ↔ m ≤ n := by
  simp only [le_def, ofMillis]; omega

@[simp] theorem millis_ofMillis (n : Nat) : (ofMillis n).millis = n := by
  simp [millis, ofMillis]

theorem ofSeconds_seconds_subsecond (d : Duration) :
    ofSeconds d.seconds d.subsecond = d := by
  cases d; simp only [ofSeconds, seconds, subsecond, mk.injEq]; omega

/-- The decimals of `part / 10 ^ places`, ending with the last nonzero one. -/
def decimals : (places part : Nat) → List Char
  | 0, _ => []
  | places + 1, part =>
    if part = 0 then []
    else Nat.digitChar (part / Nat.pow 10 places) :: decimals places (part % Nat.pow 10 places)

/-- A measuring unit of `10 ^ places` nanoseconds. -/
structure Unit where
  places : Nat
  symbol : String

/-- The units of the text form, largest first. -/
def units : List Unit := [⟨9, "s"⟩, ⟨6, "ms"⟩, ⟨3, "µs"⟩, ⟨0, "ns"⟩]

/-- The count of `unit` in `nanos`, with its fraction. -/
def amount (nanos : Nat) (unit : Unit) : String :=
  let whole := toString (nanos / Nat.pow 10 unit.places)
  match decimals unit.places (nanos % Nat.pow 10 unit.places) with
  | [] => whole ++ unit.symbol
  | fraction => whole ++ "." ++ String.ofList fraction ++ unit.symbol

/-- The text of a duration; nothing at all is `0ns`. -/
def text (d : Duration) : String :=
  match units.find? (fun u => Nat.pow 10 u.places ≤ d.nanos) with
  | some unit => amount d.nanos unit
  | none => "0ns"

end Duration

end Turnstile
