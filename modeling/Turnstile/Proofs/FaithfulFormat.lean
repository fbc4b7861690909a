import Mathlib
import Turnstile.Proofs.WrittenLines

/-!
# Faithful formats

What a configuration asks of its format, and that the format at work does it. The lines of a
written document fill the draft of one table by table.
-/

namespace Turnstile

open Toml (Value)

/-- Numbers that every format can hold, under different names that need no quotes. -/
structure Toml.Plain (es : List (String × Nat)) : Prop where
  distinct : (es.map (·.1)).Nodup
  names : ∀ e ∈ es, Toml.isName e.1.toList = true
  fits : ∀ e ∈ es, e.2 ≤ 2 ^ 63 - 1

/-- What is asked of a format, and of the way in which it fills structures. -/
structure Codec.Faithful (k : Codec) : Prop where
  /-- A document of numbers and tables of numbers is written, and the text denotes it. -/
  written : ∀ (numbers : List (String × Nat)) (tables : List (String × List (String × Nat))),
    Toml.Plain numbers → (∀ t ∈ tables, Toml.isName t.1.toList = true ∧ Toml.Plain t.2) →
    (numbers.map (·.1) ++ tables.map (·.1)).Nodup →
    ∃ text, k.write (Toml.sheet numbers tables) = .ok text ∧
      k.read text = .ok (Toml.sheet numbers tables)
  /-- A number that the format can hold is read, if it has no more bits than it may. -/
  word : ∀ bits n : Nat, n ≤ 2 ^ 63 - 1 → n < Nat.pow 2 bits →
    k.word bits (.number (.integer n)) = .ok n
  /-- A table fills in the fields that it gives, and leaves the others as they are. -/
  fill : ∀ {α : Type} (base a : α) (fields : List (Field α)) (entries : List (String × Value)),
    (fields.map Field.name).Nodup → (entries.map (·.1)).Nodup →
    (∀ e ∈ entries, e.1 ∈ fields.map Field.name) →
    fields.foldlM (Field.store entries) base = .ok a →
    k.fill base fields (.table entries) = .ok a

namespace Toml

/-- Numbers as the entries of a table that is open. -/
def nodes (es : List (String × Nat)) : Entries :=
  es.map fun e => (e.1, .closed (.number (.integer e.2)))

def Line.entries (es : List (String × Nat)) : List Line := es.map fun e => .entry e.1 e.2

theorem Node.closeEntries_eq_map (es : Entries) :
    Node.closeEntries es = es.map fun e => (e.1, e.2.close) := by
  induction es with
  | nil => rfl
  | cons e es ih => rw [Node.closeEntries, ih, List.map_cons]

theorem lookup_fresh {α : Type} {es : List (String × α)} {key : String}
    (h : key ∉ es.map (·.1)) : es.lookup key = none := by
  refine List.lookup_eq_none_iff.mpr fun e he => ?_
  have hne : key ≠ e.1 := fun heq => h (heq ▸ List.mem_map_of_mem he)
  simpa using hne

theorem Entries.put_fresh {es : Entries} {key : String} (h : key ∉ es.map (·.1)) (v : Value) :
    Entries.put v [] key es = some (es ++ [(key, .closed v)]) := by
  simp [Entries.put, lookup_fresh h, Entries.append]

/-- Settings with names of their own go to the end of the table that takes them, wherever in
the draft it is. -/
theorem Line.foldlM_entries (place : Entries → Draft)
    (hplace : ∀ es key v, (place es).put [] key v = (Entries.put v [] key es).map place)
    (es : List (String × Nat)) (inner : Entries)
    (hfresh : (inner.map (·.1) ++ es.map (·.1)).Nodup) :
    (Line.entries es).foldlM Line.apply (place inner) = some (place (inner ++ nodes es)) := by
  induction es generalizing inner with
  | nil => simp [Line.entries, nodes]
  | cons e es ih =>
    obtain ⟨key, value⟩ := e
    have hkey : key ∉ inner.map (·.1) := fun hmem =>
      (List.nodup_append.mp hfresh).2.2 key hmem key (by simp) rfl
    have hput : Line.apply (place inner) (.entry key value) =
        some (place (inner ++ [(key, .closed (.number (.integer value)))])) := by
      rw [Line.apply, hplace, Entries.put_fresh hkey]
      rfl
    have hrest := ih (inner ++ [(key, .closed (.number (.integer value)))])
      (by simpa using hfresh)
    rw [Line.entries, List.map_cons, List.foldlM_cons, hput]
    simpa [Line.entries, nodes] using hrest

/-- A table under its header. -/
theorem Line.foldlM_table {root : Entries} {title : String} (htitle : title ∉ root.map (·.1))
    (cursor : List String) {es : List (String × Nat)} (hes : (es.map (·.1)).Nodup) :
    (Line.header title :: Line.entries es).foldlM Line.apply ⟨root, cursor⟩ =
      some ⟨root ++ [(title, .table .header (nodes es))], [title]⟩ := by
  have hlookup : root.lookup title = none := lookup_fresh htitle
  have hopen : Line.apply ⟨root, cursor⟩ (.header title) =
      some ⟨root ++ [(title, .table .header [])], [title]⟩ := by
    simp [Line.apply, Draft.openTable, Entries.atPath, hlookup, Node.openTable, Entries.append]
  have hput : ∀ (inner : Entries) (key : String) (v : Value),
      Draft.put ⟨root ++ [(title, .table .header inner)], [title]⟩ [] key v =
        (Entries.put v [] key inner).map fun inner =>
          ⟨root ++ [(title, .table .header inner)], [title]⟩ := by
    intro inner key v
    have hfound : (root ++ [(title, Node.table .header inner)]).lookup title =
        some (.table .header inner) := by
      simp [List.lookup_append, hlookup]
    have hreplace : ∀ node : Node, Entries.replace title node
        (root ++ [(title, .table .header inner)]) = root ++ [(title, node)] := by
      intro node
      have hroot : (root.map fun e => if e.1 = title then (title, node) else e) = root := by
        refine List.map_congr_left (fun e he => if_neg ?_) |>.trans (List.map_id _)
        exact fun heq => htitle (heq ▸ List.mem_map_of_mem he)
      simp [Entries.replace, hroot]
    simp [Draft.put, Entries.atPath, hfound, Node.putInside, hreplace, Option.map_map,
      Function.comp_def]
  rw [List.foldlM_cons, hopen]
  simpa using Line.foldlM_entries
    (fun inner => ⟨root ++ [(title, .table .header inner)], [title]⟩) hput es []
    (by simpa using hes)

/-- The lines of a table that is written. -/
def Line.table (t : String × List (String × Nat)) : List Line :=
  .blank :: .header t.1 :: Line.entries t.2

/-- Tables follow one another. -/
theorem Line.foldlM_tables (tables : List (String × List (String × Nat))) (root : Entries)
    (cursor : List String) (distinct : (root.map (·.1) ++ tables.map (·.1)).Nodup)
    (plain : ∀ t ∈ tables, (t.2.map (·.1)).Nodup) :
    ∃ cursor', (tables.flatMap Line.table).foldlM Line.apply ⟨root, cursor⟩ =
      some ⟨root ++ tables.map fun t => (t.1, .table .header (nodes t.2)), cursor'⟩ := by
  induction tables generalizing root cursor with
  | nil => exact ⟨cursor, by simp⟩
  | cons t tables ih =>
    obtain ⟨title, es⟩ := t
    have hfresh : title ∉ root.map (·.1) := fun hmem =>
      (List.nodup_append.mp distinct).2.2 title hmem title (by simp) rfl
    have htable := Line.foldlM_table hfresh cursor (plain (title, es) List.mem_cons_self)
    obtain ⟨last, hrest⟩ := ih (root ++ [(title, .table .header (nodes es))]) [title]
      (by simpa using distinct) fun t ht => plain t (List.mem_cons_of_mem _ ht)
    refine ⟨last, ?_⟩
    rw [List.flatMap_cons, List.foldlM_append, Line.table, List.foldlM_cons]
    simp only [Line.apply, Option.bind_eq_bind, Option.bind_some]
    rw [htable, Option.bind_some, hrest]
    simp

theorem Line.mapM_setting? (es : List (String × Nat)) :
    (values es).mapM Line.setting? = some (Line.entries es) := by
  induction es with
  | nil => rfl
  | cons e es ih =>
    have hrest : (values (e :: es)).mapM Line.setting? = ((values es).mapM Line.setting?).bind
        fun ls => some (.entry e.1 e.2 :: ls) := by
      simp [values, List.mapM_cons, Line.setting?]
    rw [hrest, ih]
    rfl

/-- A document of numbers and tables is written as their lines. -/
theorem write_sheet (numbers : List (String × Nat))
    (tables : List (String × List (String × Nat))) :
    write (sheet numbers tables) =
      .ok (Line.write (Line.entries numbers ++ tables.flatMap Line.table)) := by
  have hnumbers : (values numbers).mapM Line.item? =
      some ((Line.entries numbers).map ([·])) := by
    induction numbers with
    | nil => rfl
    | cons e es ih =>
      have ih := ih
      simp only [values, List.map_cons, List.mapM_cons] at ih ⊢
      rw [ih]
      rfl
  have htables : (tables.map fun t => (t.1, Value.table (values t.2))).mapM Line.item? =
      some (tables.map Line.table) := by
    induction tables with
    | nil => rfl
    | cons t tables ih =>
      simp only [List.map_cons, List.mapM_cons, Line.item?, Line.mapM_setting?, ih]
      rfl
  have hall : (sheet numbers tables).mapM Line.item? =
      some ((Line.entries numbers).map ([·]) ++ tables.map Line.table) := by
    rw [sheet, List.mapM_append, hnumbers, htables]
    rfl
  rw [write, hall]
  simp only [List.flatten_append, ← List.flatMap_def, List.flatMap_singleton']

/-- The entries of a draft are those of the document. -/
theorem closeEntries_sheet (numbers : List (String × Nat))
    (tables : List (String × List (String × Nat))) :
    Node.closeEntries (nodes numbers ++
      tables.map fun t => (t.1, Node.table .header (nodes t.2))) = sheet numbers tables := by
  have hnodes : ∀ es : List (String × Nat), Node.closeEntries (nodes es) = values es := by
    intro es
    simp [Node.closeEntries_eq_map, nodes, values, Node.close]
  rw [Node.closeEntries_eq_map, List.map_append, ← Node.closeEntries_eq_map, hnodes, sheet]
  simp [Node.close, hnodes]

theorem codec_faithful : codec.Faithful where
  written := by
    intro numbers tables hnumbers htables distinct
    refine ⟨_, write_sheet numbers tables, ?_⟩
    have hplain : ∀ l ∈ Line.entries numbers ++ tables.flatMap Line.table, l.isPlain = true := by
      have hentries : ∀ es, Plain es → ∀ l ∈ Line.entries es, l.isPlain = true := by
        intro es hes l hl
        obtain ⟨e, he, rfl⟩ := List.mem_map.mp hl
        exact hes.names e he
      intro l hl
      rcases List.mem_append.mp hl with hl | hl
      · exact hentries numbers hnumbers l hl
      · obtain ⟨t, ht, hl⟩ := List.mem_flatMap.mp hl
        obtain ⟨htitle, hes⟩ := htables t ht
        rcases List.mem_cons.mp hl with rfl | hl
        · rfl
        · rcases List.mem_cons.mp hl with rfl | hl
          · exact htitle
          · exact hentries t.2 hes l hl
    have hroot : (Line.entries numbers).foldlM Line.apply {} = some ⟨nodes numbers, []⟩ :=
      Line.foldlM_entries (fun es => ⟨es, []⟩) (fun _ _ _ => rfl) numbers []
        hnumbers.distinct
    have hnames : (nodes numbers).map (·.1) = numbers.map (·.1) := by simp [nodes]
    obtain ⟨cursor, hdraft⟩ := Line.foldlM_tables tables (nodes numbers) []
      (by rwa [hnames]) fun t ht => (htables t ht).2.distinct
    have hread : document? (Line.write (Line.entries numbers ++ tables.flatMap Line.table)) =
        some (sheet numbers tables) := by
      rw [Line.document?_write hplain, List.foldlM_append, hroot]
      simp only [Option.bind_eq_bind, Option.bind_some]
      rw [hdraft, Option.map_some, Draft.close, closeEntries_sheet]
    show read _ = _
    rw [read, hread]
  word bits n _ hbits := if_pos hbits
  fill base a fields entries _ _ hknown hfold := by
    have hall : (entries.all fun e =>
        (fields.map Field.name).contains e.1 || e.2.isRepresentable) = true :=
      List.all_eq_true.mpr fun e he => by simp [hknown e he]
    show fill base fields (.table entries) = _
    rw [fill, if_pos hall, hfold]

end Toml

end Turnstile
