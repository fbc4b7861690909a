/-!
# Dates and times

A date, a time of day, or both with or without an offset. A time may leave out
its seconds; a second numbered sixty is allowed for leap seconds.
-/

namespace Turnstile.Toml

structure Date where
  year : Nat
  month : Nat
  day : Nat
  deriving DecidableEq, Repr

structure TimeOfDay where
  hour : Nat
  minute : Nat
  second : Option Nat
  /-- The digits behind the point of the seconds. -/
  fraction : List Nat
  deriving DecidableEq, Repr

inductive Moment where
  | date (d : Date)
  | time (t : TimeOfDay)
  /-- The offset is in minutes. -/
  | dateTime (d : Date) (t : TimeOfDay) (offset : Option Int)
  deriving DecidableEq, Repr

namespace Moment

def digit? (c : Char) : Option Nat := if c.isDigit then some (c.toNat - 48) else none

/-- A number of exactly `n` digits, and the rest. -/
def fixed? : (n : Nat) → List Char → Option (Nat × List Char)
  | 0, s => some (0, s)
  | _ + 1, [] => none
  | n + 1, c :: rest => do
    let d ← digit? c
    let (lower, rest) ← fixed? n rest
    some (d * Nat.pow 10 n + lower, rest)

/-- The rest behind an expected character. -/
def expect? (c : Char) : List Char → Option (List Char)
  | [] => none
  | d :: rest => if c = d then some rest else none

def isLeap (year : Nat) : Bool := year % 4 = 0 && (year % 100 ≠ 0 || year % 400 = 0)

def daysIn (year month : Nat) : Nat :=
  if month = 2 then (if isLeap year then 29 else 28)
  else if month = 4 || month = 6 || month = 9 || month = 11 then 30
  else 31

def date? (s : List Char) : Option (Date × List Char) := do
  let (year, s) ← fixed? 4 s
  let (month, s) ← fixed? 2 (← expect? '-' s)
  let (day, s) ← fixed? 2 (← expect? '-' s)
  if 1 ≤ month && month ≤ 12 && 1 ≤ day && day ≤ daysIn year month then
    some (⟨year, month, day⟩, s)
  else none

/-- The digits behind a point, at least one. -/
def fraction? (s : List Char) : Option (List Nat × List Char) :=
  match s with
  | '.' :: rest =>
    let digits := (rest.takeWhile Char.isDigit).filterMap digit?
    if digits = [] then none else some (digits, rest.dropWhile Char.isDigit)
  | _ => some ([], s)

def time? (s : List Char) : Option (TimeOfDay × List Char) := do
  let (hour, s) ← fixed? 2 s
  let (minute, s) ← fixed? 2 (← expect? ':' s)
  if 23 < hour || 59 < minute then none
  else
    match s with
    | ':' :: rest => do
      let (second, s) ← fixed? 2 rest
      let (fraction, s) ← fraction? s
      if 60 < second then none else some (⟨hour, minute, some second, fraction⟩, s)
    | _ => some (⟨hour, minute, none, []⟩, s)

/-- An offset up to the end of the text, in minutes. -/
def offset? (s : List Char) : Option Int :=
  match s with
  | ['Z'] | ['z'] => some 0
  | sign :: rest => do
    let (hours, s) ← fixed? 2 rest
    let (minutes, s) ← fixed? 2 (← expect? ':' s)
    if s ≠ [] || 23 < hours || 59 < minutes then none
    else if sign = '+' then some (hours * 60 + minutes)
    else if sign = '-' then some (-(hours * 60 + minutes : Nat))
    else none
  | [] => none

/-- The moment that a whole text denotes; a blank or a `T` stands between date and time. -/
def read? (s : List Char) : Option Moment :=
  match date? s with
  | some (d, []) => some (.date d)
  | some (d, c :: rest) =>
    if c = 'T' || c = 't' || c = ' ' then
      match time? rest with
      | some (t, []) => some (.dateTime d t none)
      | some (t, s) => (offset? s).map fun offset => .dateTime d t (some offset)
      | none => none
    else none
  | none =>
    match time? s with
    | some (t, []) => some (.time t)
    | _ => none

/-- Whether a text begins like a date or a time and not like a number. -/
def isLikely (s : List Char) : Bool :=
  let lead := s.takeWhile Char.isDigit
  match s.drop lead.length with
  | c :: _ => lead ≠ [] && (c = '-' || c = ':')
  | [] => false

end Moment

end Turnstile.Toml
