/-!
# Numbers

Integers are decimal with an optional sign, or hexadecimal, octal or binary
without one. Floats have a fraction, an exponent or both, or are infinite or no
number. Underscores separate digits; a number that begins with a digit has no
leading zero in front of others.

What is written is judged before its value is: an integer may have no digits
behind its base, or strange characters behind an underscore. It then has no
value, which matters only to whoever asks for the value.
-/

namespace Turnstile.Toml

inductive Number where
  | integer (n : Int)
  /-- `coefficient * 10 ^ exponent`, negated or not. -/
  | decimal (negative : Bool) (coefficient : Nat) (exponent : Int)
  | infinite (negative : Bool)
  | notANumber
  /-- Written like an integer, but without a value. -/
  | void
  deriving DecidableEq, Repr

namespace Number

/-- The value of a digit in bases up to sixteen. -/
def digit? (base : Nat) (c : Char) : Option Nat :=
  let value :=
    if '0' ≤ c && c ≤ '9' then c.toNat - 48
    else if 'a' ≤ c && c ≤ 'f' then c.toNat - 87
    else if 'A' ≤ c && c ≤ 'F' then c.toNat - 55
    else base
  if value < base then some value else none

def isDigit (base : Nat) (c : Char) : Bool := (digit? base c).isSome

def ofDigits (base : Nat) (digits : List Nat) : Nat :=
  digits.foldl (fun n d => n * base + d) 0

/-- Whether each underscore has a digit on both sides. `before` says whether a digit precedes
the text. -/
def marksFit (base : Nat) : (before : Bool) → List Char → Bool
  | _, [] => true
  | before, c :: rest =>
    if c = '_' then before && rest.head?.any (isDigit base) && marksFit base false rest
    else marksFit base (isDigit base c) rest

/-- The digits of a text of nothing but digits and underscores. -/
def digits? (base : Nat) (s : List Char) : Option (List Nat) :=
  (s.filter (· ≠ '_')).mapM (digit? base)

/-- A nonempty run of decimal digits and underscores, and the rest. -/
def run? (s : List Char) : Option (List Nat × List Char) :=
  let isDigitOrMark (c : Char) : Bool := c.isDigit || c = '_'
  match digits? 10 (s.takeWhile isDigitOrMark) with
  | none | some [] => none
  | some digits => some (digits, s.dropWhile isDigitOrMark)

def startsWithZero (s : List Char) : Bool := s.head? = some '0'

def signed (negative : Bool) (n : Nat) : Int := if negative then -(n : Int) else n

/-- An exponent with its sign. -/
def exponent? (s : List Char) : Option Int :=
  let unsigned? (negative : Bool) (s : List Char) : Option Int :=
    match run? s with
    | some (digits, []) => some (signed negative (ofDigits 10 digits))
    | _ => none
  match s with
  | '+' :: rest => unsigned? false rest
  | '-' :: rest => unsigned? true rest
  | s => unsigned? false s

/-- The decimal with the given digits before and behind the point, and an exponent. -/
def ofParts (negative : Bool) (whole fraction : List Nat) (exponent : Int) : Number :=
  .decimal negative (ofDigits 10 (whole ++ fraction)) (exponent - fraction.length)

/-- A float behind its sign, underscores aside. -/
def float? (negative : Bool) (s : List Char) : Option Number := do
  let (whole, rest) ← run? s
  if startsWithZero s && 1 < whole.length then none
  else do
    let (fraction, rest) ← match rest with
      | '.' :: rest => run? rest
      | rest => some ([], rest)
    match rest with
    | [] => some (ofParts negative whole fraction 0)
    | c :: rest =>
      if c = 'e' || c = 'E' then (exponent? rest).map (ofParts negative whole fraction) else none

/-- A decimal integer behind its sign, underscores aside; digits of any base may follow an
underscore, but give no value. -/
def wholeNumber (negative : Bool) (s : List Char) : Number :=
  match digits? 10 s with
  | some digits => .integer (signed negative (ofDigits 10 digits))
  | none => .void

/-- A decimal number behind its sign, if there is one. What follows the leading digits tells
integers from floats. -/
def decimal? (negative : Bool) (s : List Char) : Option Number :=
  let rest := s.dropWhile Char.isDigit
  if s = [] || rest.contains ' ' then none
  else if rest.any fun c => c = '.' || c = 'e' || c = 'E' then
    if marksFit 10 false s then float? negative s else none
  else if rest = [] || rest.head? = some '_' then
    if startsWithZero s && 1 < s.length then none
    else if marksFit 16 false s then some (wholeNumber negative s)
    else none
  else none

/-- A number without its sign, if there is one. -/
def magnitude? (negative : Bool) (s : List Char) : Option Number :=
  if s = ['i', 'n', 'f'] then some (.infinite negative)
  else if s = ['n', 'a', 'n'] then some .notANumber
  else decimal? negative s

/-- An integer in another base. -/
def based? (base : Nat) (s : List Char) : Option Number :=
  if marksFit 16 false s then
    match digits? base s with
    | none => none
    | some [] => some .void
    | some digits => some (.integer (ofDigits base digits))
  else none

/-- The number that a whole text denotes. -/
def read? (s : List Char) : Option Number :=
  match s with
  | '+' :: rest => magnitude? false rest
  | '-' :: rest => magnitude? true rest
  | '0' :: 'x' :: rest => based? 16 rest
  | '0' :: 'o' :: rest => based? 8 rest
  | '0' :: 'b' :: rest => based? 2 rest
  | s => magnitude? false s

/-- The least magnitude that rounds to an infinite value in double precision. -/
def floatBound : Nat := Nat.pow 2 1024 - Nat.pow 2 970

/-- Whether `coefficient * 10 ^ exponent` is finite in double precision. The number of
digits decides far from the bound. -/
def isFinite (coefficient : Nat) (exponent : Int) : Bool :=
  let places := (Nat.toDigits 10 coefficient).length + exponent
  if coefficient = 0 || places < 300 then true
  else if 320 < places then false
  else if 0 ≤ exponent then coefficient * Nat.pow 10 exponent.toNat < floatBound
  else coefficient < floatBound * Nat.pow 10 (-exponent).toNat

/-- Whether the number has a value in 128-bit integers or in double precision. -/
def isRepresentable : Number → Bool
  | integer (.ofNat n) => n < Nat.pow 2 128
  | integer (.negSucc n) => n < Nat.pow 2 127
  | decimal _ coefficient exponent => isFinite coefficient exponent
  | infinite _ | notANumber => true
  | void => false

end Number

end Turnstile.Toml
