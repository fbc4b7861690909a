import Turnstile.Toml.Draft
import Turnstile.Toml.Quoted

/-!
# Documents

The grammar of documents: lines that are empty, or hold a header or an entry,
with an optional comment. Arrays and inline tables may span lines, also around
an equals sign, and end with a comma. Readers take the rest of the text and
give back what they leave.
-/

namespace Turnstile.Toml

/-- How deep arrays and inline tables nest at most, and how many parts a path has at most
before its key. -/
def depthLimit : Nat := 80

/-- One part of a key. -/
def keyPart? (s : List Char) : Option (String × List Char) :=
  match quotedLine? s with
  | some (name, rest) => some (String.ofList name, rest)
  | none =>
    let bare := s.takeWhile isBare
    if bare = [] then none else some (String.ofList bare, s.dropWhile isBare)

/-- The parts of a dotted key, and the rest behind the blanks that follow it. -/
def keyParts? : (fuel : Nat) → List Char → Option (List String × List Char)
  | 0, _ => none
  | fuel + 1, s => do
    let (part, rest) ← keyPart? s
    match skipBlanks rest with
    | '.' :: rest => do
      let (parts, rest) ← keyParts? fuel (skipBlanks rest)
      some (part :: parts, rest)
    | rest => some ([part], rest)

/-- A path and the key at its end. -/
structure Key where
  path : List String
  last : String

def Key.parts (k : Key) : List String := k.path ++ [k.last]

def key? (s : List Char) : Option (Key × List Char) := do
  let (parts, rest) ← keyParts? (s.length + 1) s
  let last ← parts.getLast?
  if depthLimit < parts.length then none else some (⟨parts.dropLast, last⟩, rest)

/-- The key of an entry, and the rest behind the equals sign. What may stand on both sides of
the sign is for `skip` to remove: blanks on a line, line ends and comments too in a table. -/
def entryKey? (skip : List Char → List Char) (s : List Char) : Option (Key × List Char) := do
  let (key, rest) ← key? s
  match skip rest with
  | '=' :: rest => some (key, skip rest)
  | _ => none

/-- Whether a character belongs to a word: it is no space and does not divide. -/
def isWord (c : Char) : Bool :=
  !(isSpace c || ['.', '=', ',', '#', '[', ']', '\x7b', '\x7d'].contains c)

/-- Whether a word starts here; a quote would start a string. -/
def startsWord (s : List Char) : Bool :=
  s.head?.any fun c => isWord c && c ≠ '"' && c ≠ '\''

/-- The text of a scalar: words, points, and the blanks in front of a further word, as between
a date and a time. -/
def scalarText : List Char → List Char × List Char
  | [] => ([], [])
  | c :: rest =>
    if isWord c || c = '.' || isBlank c && startsWord (skipBlanks rest) then
      let (text, rest) := scalarText rest
      (c :: text, rest)
    else ([], c :: rest)

/-- The value that the text of a scalar denotes. -/
def scalar? (text : List Char) : Option Value :=
  if text = "true".toList then some (.boolean true)
  else if text = "false".toList then some (.boolean false)
  else if Moment.isLikely text then (Moment.read? text).map .moment
  else (Number.read? text).map .number

mutual

/-- A value inside at most `room` further arrays and inline tables. -/
def value? : (fuel room : Nat) → List Char → Option (Value × List Char)
  | 0, _, _ => none
  | fuel + 1, room, s =>
    match s with
    | [] => none
    | c :: rest =>
      if c = '"' || c = '\'' then
        (quoted? s).map fun cut => (.text (String.ofList cut.1), cut.2)
      else if c = '[' then
        if room = 0 then none
        else (items? fuel (room - 1) (skipSpace rest)).map fun p => (.array p.1, p.2)
      else if c = '\x7b' then
        if room = 0 then none
        else (pairs? fuel (room - 1) [] (skipSpace rest)).map fun p =>
          (.table (Node.closeEntries p.1), p.2)
      else
        let (text, rest) := scalarText s
        (scalar? text).map (·, rest)

/-- The items of an array up to its end. -/
def items? : (fuel room : Nat) → List Char → Option (List Value × List Char)
  | 0, _, _ => none
  | fuel + 1, room, s =>
    match s with
    | ']' :: rest => some ([], rest)
    | s => do
      let (v, rest) ← value? fuel room s
      match skipSpace rest with
      | ',' :: rest => do
        let (vs, rest) ← items? fuel room (skipSpace rest)
        some (v :: vs, rest)
      | ']' :: rest => some ([v], rest)
      | _ => none

/-- The entries of an inline table up to its end, added to those read before. -/
def pairs? : (fuel room : Nat) → Entries → List Char → Option (Entries × List Char)
  | 0, _, _, _ => none
  | fuel + 1, room, entries, s =>
    match s with
    | '\x7d' :: rest => some (entries, rest)
    | s => do
      let (key, rest) ← entryKey? skipSpace s
      let (v, rest) ← value? fuel room rest
      let entries ← Entries.put v key.path key.last entries
      match skipSpace rest with
      | ',' :: rest => pairs? fuel room entries (skipSpace rest)
      | '\x7d' :: rest => some (entries, rest)
      | _ => none

end

/-- A header behind its opening brackets, up to the end of its line. -/
def header? (closing : List Char) (s : List Char) : Option (Key × List Char) := do
  let (key, rest) ← key? (skipBlanks s)
  if rest.take closing.length = closing then
    (lineEnd? (rest.drop closing.length)).map (key, ·)
  else none

/-- One line that is not empty, added to the draft. -/
def line? (d : Draft) (s : List Char) : Option (Draft × List Char) :=
  match s with
  | '[' :: '[' :: rest => do
    let (key, rest) ← header? [']', ']'] rest
    let d ← d.openElement key.parts
    some (d, rest)
  | '[' :: rest => do
    let (key, rest) ← header? [']'] rest
    let d ← d.openTable key.parts
    some (d, rest)
  | s => do
    let (key, rest) ← entryKey? skipBlanks s
    let (v, rest) ← value? (2 * rest.length + 2) depthLimit rest
    let rest ← lineEnd? rest
    let d ← d.put key.path key.last v
    some (d, rest)

def lines? : (fuel : Nat) → Draft → List Char → Option Draft
  | 0, _, _ => none
  | fuel + 1, d, s =>
    match skipSpace s with
    | [] => some d
    | s => do
      let (d, rest) ← line? d s
      lines? fuel d rest

/-- The entries of the document that a text holds. -/
def document? (text : String) : Option (List (String × Value)) := do
  let s ← source? text.toList
  let d ← lines? (s.length + 1) {} s
  some d.close

end Turnstile.Toml
