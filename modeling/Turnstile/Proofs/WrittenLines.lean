import Mathlib
import Turnstile.Toml.Codec

/-!
# Reading written lines

A document that is written consists of headers, settings and empty lines. Each of them is read
back as what it says, whatever follows it: a number as its value, a name as a key, a header as a
table. So reading such a text is going through its lines one by one.
-/

namespace Turnstile.Toml

section Digits

/-- A digit is none of the characters that something else begins with or that end a scalar. -/
theorem ne_of_isDigit {c d : Char} (hc : c.isDigit = true) (hd : d.isDigit = false) : c ≠ d := by
  rintro rfl
  rw [hc] at hd
  cases hd

theorem isDigit_bounds {c : Char} : c.isDigit = true ↔ 48 ≤ c.toNat ∧ c.toNat ≤ 57 := by
  simp only [Char.isDigit, Bool.and_eq_true, decide_eq_true_eq, ge_iff_le, UInt32.le_iff_toNat_le]
  rfl

theorem digit?_of_isDigit {c : Char} (hc : c.isDigit = true) {base : Nat} (hbase : 10 ≤ base) :
    Number.digit? base c = some (c.toNat - 48) := by
  obtain ⟨hlow, hhigh⟩ := isDigit_bounds.mp hc
  have hin : ('0' ≤ c && c ≤ '9') = true := by
    simp only [Bool.and_eq_true, decide_eq_true_eq, Char.le_def, UInt32.le_iff_toNat_le]
    exact ⟨hlow, hhigh⟩
  simp only [Number.digit?, hin, if_true]
  rw [if_pos (by omega)]

variable {s : List Char}

theorem marksFit_digits (hs : ∀ c ∈ s, c.isDigit = true) (base : Nat) (before : Bool) :
    Number.marksFit base before s = true := by
  induction s generalizing before with
  | nil => rfl
  | cons c rest ih =>
    have hmark : c ≠ '_' := ne_of_isDigit (hs c List.mem_cons_self) rfl
    rw [Number.marksFit, if_neg hmark]
    exact ih (fun a ha => hs a (List.mem_cons_of_mem _ ha)) _

theorem mapM_digit? (hs : ∀ c ∈ s, c.isDigit = true) :
    s.mapM (Number.digit? 10) = some (s.map fun c => c.toNat - 48) := by
  induction s with
  | nil => rfl
  | cons c rest ih =>
    have hrest := ih fun a ha => hs a (List.mem_cons_of_mem _ ha)
    simp [List.mapM_cons, digit?_of_isDigit (hs c List.mem_cons_self) (Nat.le_refl 10), hrest]

/-- Digits without marks denote their value. -/
theorem wholeNumber_digits (hs : ∀ c ∈ s, c.isDigit = true) :
    Number.wholeNumber false s = .integer (Nat.ofDigitChars 10 s 0) := by
  have hmarks : s.filter (· ≠ '_') = s := List.filter_eq_self.mpr fun c hc => by
    simpa using ne_of_isDigit (hs c hc) (d := '_') rfl
  have hdigits : Number.digits? 10 s = some (s.map fun c => c.toNat - 48) := by
    rw [Number.digits?, hmarks, mapM_digit? hs]
  have hvalue : Number.ofDigits 10 (s.map fun c => c.toNat - 48) = Nat.ofDigitChars 10 s 0 := by
    rw [Number.ofDigits, List.foldl_map, Nat.ofDigitChars_eq_foldl]
    congr 1
    funext n c
    rw [Nat.mul_comm]
    rfl
  simp only [Number.wholeNumber, hdigits, hvalue, Number.signed]
  rfl

/-- Digits that begin with no zero, unless that is all. -/
structure IsDecimal (s : List Char) : Prop where
  nonempty : s ≠ []
  digits : ∀ c ∈ s, c.isDigit = true
  lead : 1 < s.length → s.head? ≠ some '0'

theorem head?_toDigits {n : Nat} (hn : 0 < n) : (Nat.toDigits 10 n).head? ≠ some '0' := by
  induction n using Nat.strong_induction_on with
  | _ n ih =>
    by_cases hsmall : n < 10
    · rw [Nat.toDigits_of_lt_base hsmall]
      simp
      omega
    · rw [Nat.toDigits_of_base_le (by decide) (by omega), List.head?_append_of_ne_nil _
        Nat.toDigits_ne_nil]
      exact ih (n / 10) (by omega) (by omega)

theorem isDecimal_toDigits (n : Nat) : IsDecimal (Nat.toDigits 10 n) where
  nonempty := Nat.toDigits_ne_nil
  digits c hc := Nat.isDigit_of_mem_toDigits (by decide) (by decide) hc
  lead hlong := by
    refine head?_toDigits ?_
    by_contra hzero
    have hn : n = 0 := by omega
    subst hn
    simp at hlong

namespace IsDecimal

theorem dropWhile (h : IsDecimal s) : s.dropWhile Char.isDigit = [] :=
  List.dropWhile_eq_nil_iff.mpr h.digits

theorem takeWhile (h : IsDecimal s) : s.takeWhile Char.isDigit = s :=
  List.takeWhile_eq_self_iff.mpr h.digits

theorem decimal? (h : IsDecimal s) :
    Number.decimal? false s = some (.integer (Nat.ofDigitChars 10 s 0)) := by
  have hlead : (Number.startsWithZero s && decide (1 < s.length)) = false := by
    rw [Bool.and_eq_false_iff, Number.startsWithZero, decide_eq_false_iff_not,
      decide_eq_false_iff_not]
    by_cases hlong : 1 < s.length
    · exact .inl (h.lead hlong)
    · exact .inr hlong
  simp [Number.decimal?, h.dropWhile, h.nonempty, hlead, marksFit_digits h.digits 16 false,
    wholeNumber_digits h.digits]

/-- Decimal digits are read as a number. -/
theorem read? (h : IsDecimal s) :
    Number.read? s = some (.integer (Nat.ofDigitChars 10 s 0)) := by
  obtain ⟨c, rest, rfl⟩ := List.exists_cons_of_ne_nil h.nonempty
  have hc : c.isDigit = true := h.digits c List.mem_cons_self
  have hmagnitude : Number.magnitude? false (c :: rest) =
      some (.integer (Nat.ofDigitChars 10 (c :: rest) 0)) := by
    have hinf : c :: rest ≠ ['i', 'n', 'f'] := fun he =>
      ne_of_isDigit hc (d := 'i') rfl (List.cons.inj he).1
    have hnan : c :: rest ≠ ['n', 'a', 'n'] := fun he =>
      ne_of_isDigit hc (d := 'n') rfl (List.cons.inj he).1
    rw [Number.magnitude?, if_neg hinf, if_neg hnan, h.decimal?]
  have hnone : ∀ d ∈ c :: rest, d.isDigit = false → False := fun d hd hnot =>
    ne_of_isDigit (h.digits d hd) hnot rfl
  rw [← hmagnitude]
  unfold Number.read?
  split
  · rename_i heq
    exact (hnone '+' (by simp [heq]) rfl).elim
  · rename_i heq
    exact (hnone '-' (by simp [heq]) rfl).elim
  · rename_i heq
    exact (hnone 'x' (by simp [heq]) rfl).elim
  · rename_i heq
    exact (hnone 'o' (by simp [heq]) rfl).elim
  · rename_i heq
    exact (hnone 'b' (by simp [heq]) rfl).elim
  · rfl

theorem scalar? (h : IsDecimal s) :
    Toml.scalar? s = some (.number (.integer (Nat.ofDigitChars 10 s 0))) := by
  have hdigit : ∀ t : List Char, (∃ d ∈ t, d.isDigit = false) → s ≠ t := by
    rintro t ⟨d, hd, hnot⟩ rfl
    exact ne_of_isDigit (h.digits d hd) hnot rfl
  have htrue : s ≠ "true".toList := hdigit _ ⟨'t', by decide, rfl⟩
  have hfalse : s ≠ "false".toList := hdigit _ ⟨'f', by decide, rfl⟩
  have hmoment : Moment.isLikely s = false := by
    simp [Moment.isLikely, h.takeWhile]
  rw [Toml.scalar?, if_neg htrue, if_neg hfalse, hmoment, h.read?]
  rfl

/-- A scalar ends with its line. -/
theorem scalarText (hs : ∀ c ∈ s, c.isDigit = true) (rest : List Char) :
    Toml.scalarText (s ++ '\n' :: rest) = (s, '\n' :: rest) := by
  induction s with
  | nil => rfl
  | cons c s ih =>
    have hc : c.isDigit = true := hs c List.mem_cons_self
    have hword : isWord c = true := by
      simp [isWord, isSpace, isBlank, ne_of_isDigit hc (d := ' ') rfl,
        ne_of_isDigit hc (d := '\t') rfl, ne_of_isDigit hc (d := '\n') rfl,
        ne_of_isDigit hc (d := '.') rfl, ne_of_isDigit hc (d := '=') rfl,
        ne_of_isDigit hc (d := ',') rfl, ne_of_isDigit hc (d := '#') rfl,
        ne_of_isDigit hc (d := '[') rfl, ne_of_isDigit hc (d := ']') rfl,
        ne_of_isDigit hc (d := '\x7b') rfl, ne_of_isDigit hc (d := '\x7d') rfl]
    have hrest := ih fun a ha => hs a (List.mem_cons_of_mem _ ha)
    simp [Toml.scalarText, hword, hrest]

/-- The value behind an equals sign. -/
theorem value? (h : IsDecimal s) (fuel room : Nat) (rest : List Char) :
    Toml.value? (fuel + 1) room (s ++ '\n' :: rest) =
      some (.number (.integer (Nat.ofDigitChars 10 s 0)), '\n' :: rest) := by
  obtain ⟨c, t, rfl⟩ := List.exists_cons_of_ne_nil h.nonempty
  have hc : c.isDigit = true := h.digits c List.mem_cons_self
  have htext := scalarText h.digits rest
  rw [List.cons_append] at htext ⊢
  rw [Toml.value?]
  simp [ne_of_isDigit hc (d := '"') rfl, ne_of_isDigit hc (d := '\'') rfl,
    ne_of_isDigit hc (d := '[') rfl, ne_of_isDigit hc (d := '\x7b') rfl, htext, h.scalar?]

end IsDecimal

end Digits

theorem ne_of_isBare {c d : Char} (hc : isBare c = true) (hd : isBare d = false) : c ≠ d := by
  rintro rfl
  rw [hc] at hd
  cases hd

section Names

variable {name rest : List Char}

theorem isName_iff : isName name = true ↔ name ≠ [] ∧ ∀ c ∈ name, isBare c = true := by
  simp [isName]

theorem takeWhile_isBare (h : ∀ c ∈ name, isBare c = true)
    (hrest : ∀ c ∈ rest.head?, isBare c = false) :
    (name ++ rest).takeWhile isBare = name ∧ (name ++ rest).dropWhile isBare = rest := by
  rw [List.takeWhile_append_of_pos h, List.dropWhile_append_of_pos h]
  cases rest with
  | nil => simp
  | cons c rest => simp [hrest c rfl]

theorem keyPart?_name (h : isName name = true) (hrest : ∀ c ∈ rest.head?, isBare c = false) :
    keyPart? (name ++ rest) = some (String.ofList name, rest) := by
  obtain ⟨hne, hbare⟩ := isName_iff.mp h
  obtain ⟨htake, hdrop⟩ := takeWhile_isBare hbare hrest
  have hquoted : quotedLine? (name ++ rest) = none := by
    obtain ⟨c, t, rfl⟩ := List.exists_cons_of_ne_nil hne
    have hc : isBare c = true := hbare c List.mem_cons_self
    unfold quotedLine?
    split
    · rename_i heq
      exact absurd (List.cons.inj heq).1 (ne_of_isBare hc rfl)
    · rename_i heq
      exact absurd (List.cons.inj heq).1 (ne_of_isBare hc rfl)
    · rfl
  simp only [keyPart?, hquoted, htake, hdrop, if_neg hne]

/-- A name before anything but a further part of a key is a key. -/
theorem key?_name (h : isName name = true) (hrest : ∀ c ∈ rest.head?, isBare c = false)
    (hlast : (skipBlanks rest).head? ≠ some '.') :
    key? (name ++ rest) = some (⟨[], String.ofList name⟩, skipBlanks rest) := by
  have hparts : keyParts? ((name ++ rest).length + 1) (name ++ rest) =
      some ([String.ofList name], skipBlanks rest) := by
    simp only [keyParts?, keyPart?_name h hrest, Option.bind_eq_bind, Option.bind_some]
    split
    · rename_i heq
      exact absurd (by rw [heq]; rfl) hlast
    · rfl
  rw [key?, hparts]
  simp [depthLimit]

end Names

namespace Line

/-- Whether the line needs no quotes. -/
def isPlain : Line → Bool
  | blank => true
  | header title => isName title.toList
  | entry key _ => isName key.toList

/-- What a line does to the draft. -/
def apply (d : Draft) : Line → Option Draft
  | blank => some d
  | header title => d.openTable [title]
  | entry key value => d.put [] key (.number (.integer value))

theorem toList_write_nil : (write []).toList = [] := by simp [write]

theorem toList_write_cons (l : Line) (ls : List Line) :
    (write (l :: ls)).toList = l.text.toList ++ (write ls).toList := by
  simp [write]

theorem toList_header (title : String) :
    (header title).text.toList = '[' :: (title.toList ++ [']', '\n']) := by
  simp [text]

theorem toList_entry (key : String) (value : Nat) :
    (entry key value).text.toList =
      key.toList ++ ([' ', '=', ' '] ++ Nat.toDigits 10 value ++ ['\n']) := by
  simp [text, Nat.toString_eq_repr, Nat.toList_repr]

/-- A written line has none of the characters that are changed before the lines are read. -/
theorem unchanged {l : Line} (h : l.isPlain = true) :
    ∀ c ∈ l.text.toList, c ≠ '\r' ∧ c ≠ '\ufeff' := by
  have hname : ∀ {s : List Char}, isName s = true → ∀ c ∈ s, c ≠ '\r' ∧ c ≠ '\ufeff' :=
    fun hs c hc => have hbare := (isName_iff.mp hs).2 c hc
      ⟨ne_of_isBare hbare rfl, ne_of_isBare hbare rfl⟩
  cases l with
  | blank =>
    intro c hc
    obtain rfl : c = '\n' := by simpa [text] using hc
    decide
  | header title =>
    intro c hc
    rw [toList_header] at hc
    simp only [List.mem_cons, List.mem_append, List.not_mem_nil, or_false] at hc
    rcases hc with rfl | hc | rfl | rfl
    · decide
    · exact hname h c hc
    · decide
    · decide
  | entry key value =>
    intro c hc
    rw [toList_entry] at hc
    simp only [List.mem_cons, List.mem_append, List.not_mem_nil, or_false] at hc
    rcases hc with hc | ((rfl | rfl | rfl) | hc) | rfl
    · exact hname h c hc
    · decide
    · decide
    · decide
    · have hdigit := Nat.isDigit_of_mem_toDigits (by decide) (by decide) hc
      exact ⟨ne_of_isDigit hdigit rfl, ne_of_isDigit hdigit rfl⟩
    · decide

section Reading

variable (d : Draft) (rest : List Char)

theorem line?_header {title : String} (h : isName title.toList = true) :
    line? d ((header title).text.toList ++ rest) =
      (apply d (header title)).map (·, rest) := by
  obtain ⟨c, t, hcons⟩ := List.exists_cons_of_ne_nil (isName_iff.mp h).1
  have hc : isBare c = true := (isName_iff.mp h).2 c (hcons ▸ List.mem_cons_self)
  have hskip : skipBlanks (title.toList ++ ']' :: '\n' :: rest) =
      title.toList ++ ']' :: '\n' :: rest := by
    rw [hcons, List.cons_append, skipBlanks, List.dropWhile_cons_of_neg]
    simp [isBlank, ne_of_isBare hc (d := ' ') rfl, ne_of_isBare hc (d := '\t') rfl]
  have hkey : key? (title.toList ++ ']' :: '\n' :: rest) =
      some (⟨[], String.ofList title.toList⟩, skipBlanks (']' :: '\n' :: rest)) :=
    key?_name h (by simp; decide) (by simp [skipBlanks, isBlank])
  have hheader : header? [']'] (title.toList ++ ']' :: '\n' :: rest) =
      some (⟨[], title⟩, rest) := by
    rw [header?, hskip, hkey]
    simp [skipBlanks, isBlank, lineEnd?]
  have hshape : (header title).text.toList ++ rest =
      '[' :: (title.toList ++ ']' :: '\n' :: rest) := by
    simp [toList_header]
  rw [hshape]
  unfold line?
  split
  · rename_i heq
    rw [hcons] at heq
    exact absurd (List.cons.inj (List.cons.inj heq).2).1 (ne_of_isBare hc rfl)
  · rename_i heq
    rw [← (List.cons.inj heq).2, hheader]
    simp [Key.parts, apply, Option.map_eq_bind]
  · rename_i hno
    exact absurd rfl (hno _)

theorem line?_entry {key : String} (h : isName key.toList = true) (value : Nat) :
    line? d ((entry key value).text.toList ++ rest) =
      (apply d (entry key value)).map (·, rest) := by
  have hdecimal := isDecimal_toDigits value
  obtain ⟨c, t, hcons⟩ := List.exists_cons_of_ne_nil (isName_iff.mp h).1
  have hc : isBare c = true := (isName_iff.mp h).2 c (hcons ▸ List.mem_cons_self)
  have hvalue : Nat.ofDigitChars 10 (Nat.toDigits 10 value) 0 = value :=
    Nat.ofDigitChars_toDigits (by decide) (by decide)
  have hskip : skipBlanks (Nat.toDigits 10 value ++ '\n' :: rest) =
      Nat.toDigits 10 value ++ '\n' :: rest := by
    obtain ⟨a, u, hdigits⟩ := List.exists_cons_of_ne_nil hdecimal.nonempty
    have ha : a.isDigit = true := hdecimal.digits a (hdigits ▸ List.mem_cons_self)
    rw [hdigits, List.cons_append, skipBlanks, List.dropWhile_cons_of_neg]
    simp [isBlank, ne_of_isDigit ha (d := ' ') rfl, ne_of_isDigit ha (d := '\t') rfl]
  have hkey : entryKey? skipBlanks
      (key.toList ++ ' ' :: '=' :: ' ' :: (Nat.toDigits 10 value ++ '\n' :: rest)) =
      some (⟨[], key⟩, Nat.toDigits 10 value ++ '\n' :: rest) := by
    rw [entryKey?, key?_name h (by simp; decide) (by simp [skipBlanks, isBlank])]
    simp [skipBlanks, isBlank] at hskip ⊢
    exact hskip
  have hshape : (entry key value).text.toList ++ rest =
      key.toList ++ ' ' :: '=' :: ' ' :: (Nat.toDigits 10 value ++ '\n' :: rest) := by
    simp [toList_entry]
  rw [hshape]
  unfold line?
  split
  · rename_i heq
    rw [hcons] at heq
    exact absurd (List.cons.inj heq).1 (ne_of_isBare hc rfl)
  · rename_i heq
    rw [hcons] at heq
    exact absurd (List.cons.inj heq).1 (ne_of_isBare hc rfl)
  · simp [hkey, hdecimal.value?, hvalue, lineEnd?, skipBlanks, isBlank, apply,
      Option.map_eq_bind]

end Reading

variable {ls : List Line}

theorem write_unchanged (h : ∀ l ∈ ls, l.isPlain = true) :
    ∀ c ∈ (write ls).toList, c ≠ '\r' ∧ c ≠ '\ufeff' := by
  induction ls with
  | nil => simp [toList_write_nil]
  | cons l ls ih =>
    intro c hc
    rw [toList_write_cons, List.mem_append] at hc
    rcases hc with hc | hc
    · exact unchanged (h l List.mem_cons_self) c hc
    · exact ih (fun a ha => h a (List.mem_cons_of_mem _ ha)) c hc

theorem joinLineEnds_eq {s : List Char} (h : ∀ c ∈ s, c ≠ '\r') : joinLineEnds s = s := by
  induction s with
  | nil => rfl
  | cons c rest ih =>
    have hrest := ih fun a ha => h a (List.mem_cons_of_mem _ ha)
    unfold joinLineEnds
    split
    · contradiction
    · rename_i heq
      exact absurd (List.cons.inj heq).1 (h c List.mem_cons_self)
    · rename_i heq
      obtain ⟨rfl, rfl⟩ := List.cons.inj heq
      rw [hrest]

theorem source?_eq {s : List Char} (h : ∀ c ∈ s, c ≠ '\r' ∧ c ≠ '\ufeff') :
    source? s = some s := by
  have hmark : dropMark s = s := by
    cases s with
    | nil => rfl
    | cons c rest =>
      have hc : c.toNat ≠ 0xfeff := fun he =>
        (h c List.mem_cons_self).2 (Char.toNat_inj.mp he)
      simp [dropMark, hc]
  have hjoined := joinLineEnds_eq fun c hc => (h c hc).1
  have hnone : '\r' ∉ s := fun hc => (h _ hc).1 rfl
  simp [source?, hmark, hjoined, hnone]

theorem lines?_blank (fuel : Nat) (d : Draft) (rest : List Char) :
    lines? fuel d ('\n' :: rest) = lines? fuel d rest := by
  cases fuel with
  | zero => rfl
  | succ fuel => simp [lines?, skipSpace, isSpace]

/-- A line that is read takes one step of the reader. -/
theorem lines?_step {fuel : Nat} {d : Draft} {s rest : List Char} {c : Char} {t : List Char}
    {d' : Option Draft} (hs : s = c :: t) (hspace : isSpace c = false) (hcomment : c ≠ '#')
    (hread : line? d s = d'.map (·, rest)) :
    lines? (fuel + 1) d s = d'.bind fun d => lines? fuel d rest := by
  subst hs
  cases d' <;> simp [lines?, skipSpace, hspace, hcomment, hread]

/-- Reading lines is applying them one after another. -/
theorem lines?_write (h : ∀ l ∈ ls, l.isPlain = true) (d : Draft) {fuel : Nat}
    (hfuel : ls.length < fuel) :
    lines? fuel d (write ls).toList = ls.foldlM apply d := by
  obtain ⟨fuel, rfl⟩ : ∃ n, fuel = n + 1 := ⟨fuel - 1, by omega⟩
  induction ls generalizing d fuel with
  | nil => simp [toList_write_nil, lines?, skipSpace]
  | cons l ls ih =>
    have hl := h l List.mem_cons_self
    have hls : ∀ l ∈ ls, l.isPlain = true := fun a ha => h a (List.mem_cons_of_mem _ ha)
    rw [List.length_cons] at hfuel
    rw [toList_write_cons, List.foldlM_cons]
    cases l with
    | blank => exact (lines?_blank _ _ _).trans (ih hls d fuel (by omega))
    | header title =>
      have hread := line?_header d (write ls).toList hl
      obtain ⟨fuel, rfl⟩ : ∃ n, fuel = n + 1 := ⟨fuel - 1, by omega⟩
      rw [lines?_step (by rw [toList_header]; rfl) rfl (by decide) hread]
      exact congrArg (Option.bind _) (funext fun d => ih hls d fuel (by omega))
    | entry key value =>
      have hread := line?_entry d (write ls).toList hl value
      obtain ⟨c, t, hcons⟩ := List.exists_cons_of_ne_nil (isName_iff.mp hl).1
      have hc : isBare c = true := (isName_iff.mp hl).2 c (hcons ▸ List.mem_cons_self)
      have hspace : isSpace c = false := by
        simp [isSpace, isBlank, ne_of_isBare hc (d := ' ') rfl,
          ne_of_isBare hc (d := '\t') rfl, ne_of_isBare hc (d := '\n') rfl]
      obtain ⟨fuel, rfl⟩ : ∃ n, fuel = n + 1 := ⟨fuel - 1, by omega⟩
      rw [lines?_step (by rw [toList_entry, hcons]; rfl) hspace (ne_of_isBare hc rfl) hread]
      exact congrArg (Option.bind _) (funext fun d => ih hls d fuel (by omega))

theorem length_le_write (ls : List Line) : ls.length ≤ (write ls).toList.length := by
  induction ls with
  | nil => simp
  | cons l ls ih =>
    have hpos : 0 < l.text.toList.length := by
      cases l <;> simp [text]
    rw [toList_write_cons, List.length_append, List.length_cons]
    omega

/-- The document that a written text holds. -/
theorem document?_write (h : ∀ l ∈ ls, l.isPlain = true) :
    document? (write ls) = (ls.foldlM apply {}).map Draft.close := by
  have hlength := length_le_write ls
  rw [document?, source?_eq (write_unchanged h)]
  simp only [Option.bind_eq_bind, Option.bind_some]
  rw [lines?_write h {} (by omega), Option.map_eq_bind]
  rfl

end Line

end Turnstile.Toml
