import Turnstile.Toml.Source

/-!
# Quoted strings

Basic strings have escapes and literal strings have none. Both come on one line
or, between triple quotes, on several; a line end right after the opening
quotes is dropped, and up to two quotes may precede the closing ones. All
readers start behind the opening quotes and give the contents and the rest.
-/

namespace Turnstile.Toml

/-- Contents and rest. -/
abbrev Cut := Option (List Char × List Char)

def Cut.cons (c : Char) (cut : Cut) : Cut := cut.map fun p => (c :: p.1, p.2)

def hexDigit? (c : Char) : Option Nat :=
  if '0' ≤ c && c ≤ '9' then some (c.toNat - 48)
  else if 'a' ≤ c && c ≤ 'f' then some (c.toNat - 87)
  else if 'A' ≤ c && c ≤ 'F' then some (c.toNat - 55)
  else none

/-- The character with the code point written by hexadecimal digits. -/
def codePoint? (digits : List Char) : Option Char := do
  let n ← digits.foldlM (fun n c => (hexDigit? c).map (n * 16 + ·)) 0
  if Nat.isValidChar n then some (Char.ofNat n) else none

/-- The characters with an escape of one letter. -/
def namedEscape? (c : Char) : Option Char :=
  match c with
  | 'b' => some '\x08'
  | 't' => some '\t'
  | 'n' => some '\n'
  | 'f' => some '\x0c'
  | 'r' => some '\r'
  | 'e' => some '\x1b'
  | '"' => some '"'
  | '\\' => some '\\'
  | _ => none

/-- The character that an escape stands for; the backslash has been read. -/
def escape? : List Char → Option (Char × List Char)
  | [] => none
  | c :: rest =>
    let digits? := match c with
      | 'x' => some 2
      | 'u' => some 4
      | 'U' => some 8
      | _ => none
    match digits? with
    | none => (namedEscape? c).map (·, rest)
    | some n =>
      if rest.length < n then none
      else (codePoint? (rest.take n)).map (·, rest.drop n)

def basic : (fuel : Nat) → List Char → Cut
  | 0, _ | _, [] => none
  | fuel + 1, c :: rest =>
    if c = '"' then some ([], rest)
    else if !isLegible c then none
    else if c = '\\' then (escape? rest).bind fun e => (basic fuel e.2).cons e.1
    else (basic fuel rest).cons c

def literal : List Char → Cut
  | [] => none
  | c :: rest =>
    if c = '\'' then some ([], rest)
    else if !isLegible c then none
    else (literal rest).cons c

/-- Whether three quotes stand at the front. -/
def startsTriple (quote : Char) (s : List Char) : Bool :=
  s.take 3 = [quote, quote, quote]

/-- The end of a multi-line string: the quotes that still belong to it, and the rest. -/
def closing (quote : Char) (s : List Char) : List Char × List Char :=
  let extra := ((s.drop 3).takeWhile (· = quote)).take 2
  (extra, (s.drop 3).drop extra.length)

/-- A backslash at the end of a line takes all space up to the next text with it. -/
def lineJoin? (s : List Char) : Option (List Char) :=
  let rest := skipBlanks s
  if rest.head? = some '\n' then some (rest.dropWhile isSpace) else none

def multiBasic : (fuel : Nat) → List Char → Cut
  | 0, _ | _, [] => none
  | fuel + 1, c :: rest =>
    if startsTriple '"' (c :: rest) then some (closing '"' (c :: rest))
    else if c = '\\' then
      match lineJoin? rest with
      | some rest => multiBasic fuel rest
      | none => (escape? rest).bind fun e => (multiBasic fuel e.2).cons e.1
    else if isLegible c || c = '\n' then (multiBasic fuel rest).cons c
    else none

def multiLiteral : List Char → Cut
  | [] => none
  | c :: rest =>
    if startsTriple '\'' (c :: rest) then some (closing '\'' (c :: rest))
    else if isLegible c || c = '\n' then (multiLiteral rest).cons c
    else none

def dropFirstLineEnd (s : List Char) : List Char :=
  match s with
  | '\n' :: rest => rest
  | _ => s

/-- A string on one line, if one starts here. -/
def quotedLine? (s : List Char) : Cut :=
  match s with
  | '"' :: rest => basic s.length rest
  | '\'' :: rest => literal rest
  | _ => none

/-- A string of any form, if one starts here. -/
def quoted? (s : List Char) : Cut :=
  if startsTriple '"' s then multiBasic s.length (dropFirstLineEnd (s.drop 3))
  else if startsTriple '\'' s then multiLiteral (dropFirstLineEnd (s.drop 3))
  else quotedLine? s

end Turnstile.Toml
