/-!
# Source text

Before a document is read its text is brought into one form: a leading byte
order mark is dropped, and each line ends with a line feed alone. Comments and
strings hold no control character but the tab.
-/

namespace Turnstile.Toml

def isBlank (c : Char) : Bool := c = ' ' || c = '\t'

def isSpace (c : Char) : Bool := isBlank c || c = '\n'

/-- Whether a character may stand in comments and strings. -/
def isLegible (c : Char) : Bool :=
  c = '\t' || (0x20 ≤ c.toNat && c.toNat ≠ 0x7f)

/-- Ends each line with a line feed alone; a carriage return elsewhere stays. -/
def joinLineEnds : List Char → List Char
  | [] => []
  | '\r' :: '\n' :: rest => '\n' :: joinLineEnds rest
  | c :: rest => c :: joinLineEnds rest

def dropMark : List Char → List Char
  | c :: rest => if c.toNat = 0xfeff then rest else c :: rest
  | [] => []

/-- The form of a text in which it is read. A carriage return that ends no line has no place
in it. -/
def source? (text : List Char) : Option (List Char) :=
  let joined := joinLineEnds (dropMark text)
  if joined.contains '\r' then none else some joined

def skipBlanks (s : List Char) : List Char := s.dropWhile isBlank

/-- Skips a comment up to the end of its line, or up to a character that may not stand in
it and fits nowhere else either. -/
def skipComment (s : List Char) : List Char := s.dropWhile isLegible

/-- Skips blanks, line ends and comments. -/
def skipSpace : List Char → List Char
  | [] => []
  | c :: rest =>
    if isSpace c then skipSpace rest
    else if c = '#' then skipLine rest
    else c :: rest
where
  /-- Skips the rest of a comment and goes on behind it. -/
  skipLine : List Char → List Char
    | [] => []
    | c :: rest =>
      if c = '\n' then skipSpace rest
      else if isLegible c then skipLine rest
      else c :: rest

/-- The text after the end of a line, which may hold blanks and a comment before it. -/
def lineEnd? (s : List Char) : Option (List Char) :=
  let s := skipBlanks s
  let s := if s.head? = some '#' then skipComment s else s
  match s with
  | [] => some []
  | c :: rest => if c = '\n' then some rest else none

end Turnstile.Toml
