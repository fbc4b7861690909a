import Turnstile.Config.Document
import Turnstile.Proofs.FaithfulFormat

/-!
# Configurations through text

A valid configuration that is written and read again is the same, and it still is after entries
with the values of the defaults were deleted, emptied tables included. The format does not
matter, as long as it is faithful: a field is either found with its value or left at its
default, which then is its value.
-/

namespace Turnstile

open Toml (Value)

/-- What is left of a table after some entries were deleted that `base` has too. -/
inductive Thinned : (base whole left : List (String × Value)) → Prop where
  | nil {base} : Thinned base [] []
  | keep {base whole left e} (rest : Thinned base whole left) :
    Thinned base (e :: whole) (e :: left)
  | drop {base whole left e} (same : e ∈ base) (rest : Thinned base whole left) :
    Thinned base (e :: whole) left
  /-- Entries of a table in the table were deleted. -/
  | within {base whole left key inner all kept} (known : (key, .table inner) ∈ base)
    (part : Thinned inner all kept) (rest : Thinned base whole left) :
    Thinned base ((key, .table all) :: whole) ((key, .table kept) :: left)

namespace Thinned

variable {base whole left : List (String × Value)} {key : String} {v : Value}

theorem refl (base whole : List (String × Value)) : Thinned base whole whole := by
  induction whole with
  | nil => exact .nil
  | cons e whole ih => exact .keep ih

theorem keys (h : Thinned base whole left) : (left.map (·.1)).Sublist (whole.map (·.1)) := by
  induction h with
  | nil => exact .slnil
  | keep rest ih => exact ih.cons_cons _
  | drop same rest ih => exact ih.cons _
  | within known part rest _ ih => exact ih.cons_cons _

/-- An entry is found as it was, or it was deleted, or it is a table of which entries were
deleted. -/
theorem lookup (h : Thinned base whole left) (distinct : (whole.map (·.1)).Nodup)
    (hmem : (key, v) ∈ whole) :
    left.lookup key = some v ∨ left.lookup key = none ∧ (key, v) ∈ base ∨
      ∃ inner all kept, v = .table all ∧ left.lookup key = some (.table kept) ∧
        (key, .table inner) ∈ base ∧ Thinned inner all kept := by
  have hskip : ∀ {k : String} {es : List (String × Value)}, k ∉ es.map (·.1) →
      (key, v) ∈ es → ∀ (w : Value) (rest : List (String × Value)),
        ((k, w) :: rest).lookup key = rest.lookup key := by
    intro k es hfresh hlater w rest
    have hne : (key == k) = false := by
      rw [beq_eq_false_iff_ne]
      exact fun he => hfresh (he ▸ List.mem_map_of_mem (f := (·.1)) hlater)
    simp [List.lookup_cons, hne]
  induction h with
  | nil => cases hmem
  | @keep base whole left e rest ih =>
    rw [List.map_cons, List.nodup_cons] at distinct
    rcases List.mem_cons.mp hmem with rfl | hlater
    · exact .inl (by simp)
    · rw [hskip distinct.1 hlater]
      exact ih distinct.2 hlater
  | @drop base whole left e same rest ih =>
    rw [List.map_cons, List.nodup_cons] at distinct
    rcases List.mem_cons.mp hmem with rfl | hlater
    · exact .inr (.inl ⟨Toml.lookup_fresh fun hk => distinct.1 (rest.keys.subset hk), same⟩)
    · exact ih distinct.2 hlater
  | @within base whole left k inner all kept known part rest _ ih =>
    rw [List.map_cons, List.nodup_cons] at distinct
    rcases List.mem_cons.mp hmem with heq | hlater
    · cases heq
      exact .inr (.inr ⟨inner, all, kept, rfl, by simp, known, part⟩)
    · rw [hskip distinct.1 hlater]
      exact ih distinct.2 hlater

end Thinned

namespace Codec.Faithful

variable {α : Type} {k : Codec} {base whole left : List (String × Value)} {name : String}

/-- A number arrives in its field. If it was deleted, the field has it already. -/
theorem store_number (hk : k.Faithful) (h : Thinned base whole left)
    (distinct : (whole.map (·.1)).Nodup) {n bits : Nat}
    (hmem : (name, .number (.integer n)) ∈ whole) (fits : n ≤ 2 ^ 63 - 1)
    (narrow : n < Nat.pow 2 bits) {set : Nat → α → α} {a : α}
    (idle : (name, .number (.integer n)) ∈ base → set n a = a) :
    Field.store left a (k.number bits name set) = .ok (set n a) := by
  rcases h.lookup distinct hmem with hfound | ⟨hnone, hbase⟩ | ⟨inner, all, kept, hv, -⟩
  · simp only [Field.store, Codec.number, hfound, hk.word bits n fits narrow]
    rfl
  · simp only [Field.store, Codec.number, hnone, idle hbase]
  · cases hv

/-- A structure arrives in its field, if it can be filled from what is left of its table. -/
theorem store_part {β : Type} (h : Thinned base whole left)
    (distinct : (whole.map (·.1)).Nodup) (all inner : List (String × Value))
    (hmem : (name, .table all) ∈ whole)
    (hbase : ∀ es, (name, Value.table es) ∈ base → es = inner) {b₀ b : β}
    {fields : List (Field β)}
    (fills : ∀ kept, Thinned inner all kept → k.fill b₀ fields (.table kept) = .ok b)
    {set : β → α → α} {a : α} (idle : all = inner → set b a = a) :
    Field.store left a (k.part name b₀ fields set) = .ok (set b a) := by
  rcases h.lookup distinct hmem with hfound | ⟨hnone, hsame⟩ | ⟨known, all', kept, hv, hfound,
    hknown, hthinned⟩
  · simp only [Field.store, Codec.part, hfound, fills all (.refl inner all)]
    rfl
  · simp only [Field.store, Codec.part, hnone, idle (hbase all hsame)]
  · cases hv
    rw [hbase known hknown] at hthinned
    simp only [Field.store, Codec.part, hfound, fills kept hthinned]
    rfl

end Codec.Faithful

/-- Settings that can be given to a structure one after the other, where those that are in `B`
too change nothing. -/
def Idle {α : Type} (B : List (String × Nat)) (set : String → Nat → α → α) :
    List (String × Nat) → α → Prop
  | [], _ => True
  | e :: S, a => (e ∈ B → set e.1 e.2 a = a) ∧ Idle B set S (set e.1 e.2 a)

section Settings

variable {α : Type} {k : Codec} {B S : List (String × Nat)} {left : List (String × Value)}
  {set : String → Nat → α → α} {a : α}

theorem map_fst_values (es : List (String × Nat)) :
    (Toml.values es).map (·.1) = es.map (·.1) := by
  simp [Toml.values]

/-- What is left of the settings of a structure fills it with all of them. -/
theorem Codec.Faithful.fill_settings (hk : k.Faithful) (width : String → Nat)
    (h : Thinned (Toml.values B) (Toml.values S) left) (distinct : (S.map (·.1)).Nodup)
    (fits : ∀ e ∈ S, e.2 ≤ 2 ^ 63 - 1) (narrow : ∀ e ∈ S, e.2 < Nat.pow 2 (width e.1))
    (idle : Idle B set S a) :
    k.fill a (S.map fun s => k.number (width s.1) s.1 (set s.1)) (.table left) =
      .ok (S.foldl (fun a e => set e.1 e.2 a) a) := by
  have hkeys := h.keys
  rw [map_fst_values] at hkeys
  have hnames : (S.map fun s => k.number (width s.1) s.1 (set s.1)).map Field.name =
      S.map (·.1) := by
    simp [Codec.number]
  refine hk.fill a _ _ left (hnames ▸ distinct) (distinct.sublist hkeys) ?_ ?_
  · intro e he
    rw [hnames]
    exact hkeys.subset (List.mem_map_of_mem (f := (·.1)) he)
  · -- the settings are stored one after the other
    have hall : ∀ (T : List (String × Nat)) (a : α), T ⊆ S → Idle B set T a →
        (T.map fun s => k.number (width s.1) s.1 (set s.1)).foldlM (Field.store left) a =
          .ok (T.foldl (fun a e => set e.1 e.2 a) a) := by
      intro T
      induction T with
      | nil => exact fun a _ _ => rfl
      | cons e T ih =>
        intro a hsub hidle
        have he : e ∈ S := hsub List.mem_cons_self
        have hmem : (e.1, Value.number (.integer e.2)) ∈ Toml.values S :=
          List.mem_map_of_mem he
        have hstore : Field.store left a (k.number (width e.1) e.1 (set e.1)) =
            .ok (set e.1 e.2 a) := by
          refine hk.store_number h (map_fst_values S ▸ distinct) hmem (fits e he) (narrow e he) ?_
          intro hbase
          refine hidle.1 ?_
          simpa [Toml.values] using hbase
        rw [List.map_cons, List.foldlM_cons, hstore, List.foldl_cons]
        exact ih _ (fun x hx => hsub (List.mem_cons_of_mem _ hx)) hidle.2
    exact hall S a (List.Subset.refl S) idle

end Settings

theorem BreakerConfig.eq_of_values {c c' : BreakerConfig}
    (h : Toml.values c.settings = Toml.values c'.settings) : c = c' := by
  cases c
  cases c'
  simpa [Toml.values, settings] using h

theorem MetricsConfig.eq_of_values {c c' : MetricsConfig}
    (h : Toml.values c.settings = Toml.values c'.settings) : c = c' := by
  cases c
  cases c'
  simpa [Toml.values, settings] using h

theorem BreakerConfig.fill_left {k : Codec} (hk : k.Faithful) {c : BreakerConfig}
    (valid : c.fault? = none) (fits : ∀ e ∈ c.settings, e.2 ≤ 2 ^ 63 - 1)
    {left : List (String × Value)}
    (h : Thinned (Toml.values ({} : BreakerConfig).settings) (Toml.values c.settings) left) :
    k.fill {} (fields k) (.table left) = .ok c := by
  have hshare := (fault?_eq_none_iff.mp valid).1
  have narrow : ∀ e ∈ c.settings, e.2 < Nat.pow 2 (width e.1) := by
    intro e he
    have hfits := fits e he
    simp only [settings, List.mem_cons, List.not_mem_nil, or_false] at he
    rcases he with rfl | rfl | rfl | rfl | rfl | rfl <;> simp [width] at hfits ⊢ <;> omega
  have idle : Idle ({} : BreakerConfig).settings (fun name n (c : BreakerConfig) => c.set name n)
      c.settings {} := by
    simp [Idle, settings, set]
  exact hk.fill_settings width h (by simp [settings]) fits narrow idle

theorem MetricsConfig.fill_left {k : Codec} (hk : k.Faithful) {c : MetricsConfig}
    (fits : ∀ e ∈ c.settings, e.2 ≤ 2 ^ 63 - 1) {left : List (String × Value)}
    (h : Thinned (Toml.values ({} : MetricsConfig).settings) (Toml.values c.settings) left) :
    k.fill {} (fields k) (.table left) = .ok c := by
  have narrow : ∀ e ∈ c.settings, e.2 < Nat.pow 2 64 := by
    intro e he
    have hfits := fits e he
    norm_num at hfits ⊢
    omega
  have idle : Idle ({} : MetricsConfig).settings (fun name n (c : MetricsConfig) => c.set name n)
      c.settings {} := by
    simp [Idle, settings, set]
  exact hk.fill_settings (fun _ => 64) h (by simp [settings]) fits narrow idle

namespace RailConfig

/-- The settings of a configuration with those of its parts. -/
def settings (c : RailConfig) : List (String × Nat) :=
  ("max_concurrency", c.maxConcurrency) :: c.breaker.settings ++ c.metrics.settings

variable {k : Codec} {c : RailConfig} {left : List (String × Value)}

/-- What is left of the document of a configuration is read as the whole. -/
theorem fill_left (hk : k.Faithful) (valid : c.fault? = none)
    (fits : ∀ e ∈ c.settings, e.2 ≤ 2 ^ 63 - 1)
    (h : Thinned ({} : RailConfig).document c.document left) :
    k.fill {} (fields k) (.table left) = .ok c := by
  have hnames : c.document.map (·.1) = ["max_concurrency", "breaker", "metrics"] := rfl
  have distinct : (c.document.map (·.1)).Nodup := by simp [hnames]
  have hkeys := h.keys
  have hbreaker : ∀ left, Thinned (Toml.values ({} : BreakerConfig).settings)
      (Toml.values c.breaker.settings) left →
      k.fill {} (BreakerConfig.fields k) (.table left) = .ok c.breaker :=
    fun _ => BreakerConfig.fill_left hk (fault?_eq_none_iff.mp valid).1
      fun e he => fits e (by simp [settings, he])
  have hmetrics : ∀ left, Thinned (Toml.values ({} : MetricsConfig).settings)
      (Toml.values c.metrics.settings) left →
      k.fill {} (MetricsConfig.fields k) (.table left) = .ok c.metrics :=
    fun _ => MetricsConfig.fill_left hk fun e he => fits e (by simp [settings, he])
  have hfit : c.maxConcurrency ≤ 2 ^ 63 - 1 :=
    fits ("max_concurrency", c.maxConcurrency) (by simp [settings])
  refine hk.fill {} c (fields k) left (by simp [fields, Codec.number, Codec.part])
    (distinct.sublist hkeys) ?_ ?_
  · intro e he
    have hmem := hkeys.subset (List.mem_map_of_mem (f := (·.1)) he)
    rw [hnames] at hmem
    exact hmem
  · let c₁ : RailConfig := { maxConcurrency := c.maxConcurrency }
    let c₂ : RailConfig := { c₁ with breaker := c.breaker }
    have hfirst : Field.store left ({} : RailConfig) (k.number 64 "max_concurrency" fun n c =>
        { c with maxConcurrency := n }) = .ok c₁ := by
      refine hk.store_number h distinct (by simp [document, Toml.sheet, Toml.values]) hfit
        (by norm_num at hfit ⊢; omega) fun hbase => ?_
      have hsame : c.maxConcurrency = defaultMaxConcurrency := by
        simpa [document, Toml.sheet, Toml.values] using hbase
      rw [hsame]
    have hsecond : Field.store left c₁ (k.part "breaker" {} (BreakerConfig.fields k) fun b c =>
        { c with breaker := b }) = .ok c₂ := by
      refine Codec.Faithful.store_part h distinct (Toml.values c.breaker.settings)
        (Toml.values ({} : BreakerConfig).settings) (by simp [document, Toml.sheet])
        (by simp [document, Toml.sheet, Toml.values]) hbreaker fun hsame => ?_
      rw [BreakerConfig.eq_of_values hsame]
    have hthird : Field.store left c₂ (k.part "metrics" {} (MetricsConfig.fields k) fun m c =>
        { c with metrics := m }) = .ok c := by
      refine Codec.Faithful.store_part h distinct (Toml.values c.metrics.settings)
        (Toml.values ({} : MetricsConfig).settings) (by simp [document, Toml.sheet])
        (by simp [document, Toml.sheet, Toml.values]) hmetrics fun hsame => ?_
      rw [MetricsConfig.eq_of_values hsame]
    simp [fields, hfirst, hsecond, hthird, bind, Except.bind, pure, Except.pure]

/-- Whatever faithful format is used: a valid configuration whose settings the format can hold is
written, and read back unchanged; and it is read from every text that denotes its document without
some of the entries that have their values by default. -/
theorem text_round_trip (k : Codec) (hk : k.Faithful) (c : RailConfig) (valid : c.fault? = none)
    (fits : ∀ e ∈ c.settings, e.2 ≤ 2 ^ 63 - 1) :
    (∃ text, c.toText k = .ok text ∧ ofText k text = .ok c) ∧
      ∀ left, Thinned ({} : RailConfig).document c.document left →
        ∀ text, k.read text = .ok left → ofText k text = .ok c := by
  have hread : ∀ left, Thinned ({} : RailConfig).document c.document left →
      ∀ text, k.read text = .ok left → ofText k text = .ok c := by
    intro left h text hleft
    have hfill := fill_left hk valid fits h
    simp only [ofText, hleft, Except.bind, hfill, valid]
  have hbreaker : Toml.Plain c.breaker.settings := by
    refine ⟨by simp [BreakerConfig.settings], ?_, fun e he => fits e (by simp [settings, he])⟩
    simp only [BreakerConfig.settings, List.forall_mem_cons]
    decide
  have hmetrics : Toml.Plain c.metrics.settings := by
    refine ⟨by simp [MetricsConfig.settings], ?_, fun e he => fits e (by simp [settings, he])⟩
    simp only [MetricsConfig.settings, List.forall_mem_cons]
    decide
  have hfirst : Toml.Plain [("max_concurrency", c.maxConcurrency)] := by
    refine ⟨by simp, ?_, fun e he => fits e (by simp_all [settings])⟩
    simp only [List.forall_mem_cons]
    decide
  refine ⟨?_, hread⟩
  obtain ⟨text, hwrite, hdenotes⟩ := hk.written [("max_concurrency", c.maxConcurrency)]
    [("breaker", c.breaker.settings), ("metrics", c.metrics.settings)] hfirst
    (by
      simp only [List.forall_mem_cons]
      exact ⟨⟨by decide, hbreaker⟩, ⟨by decide, hmetrics⟩, nofun⟩)
    (by simp)
  refine ⟨text, ?_, hread _ (.refl _ _) text hdenotes⟩
  rw [toText, document, hwrite]
  rfl

/-- The numbers of the configuration below that are not at their defaults. -/
theorem plain_trimmed : Toml.Plain [("failure_threshold", 3), ("back_off_time_millis", 250)] :=
  ⟨by decide, by decide, by decide⟩

/-- A configuration with other values than the defaults in three places, and a text from which
every setting with its default value is missing, and with them the whole table of the metrics. -/
theorem text_round_trip_trimmed :
    let c : RailConfig :=
      { maxConcurrency := 8, breaker := { failureThreshold := 3, backOffTimeMillis := 250 } }
    let left := Toml.sheet [("max_concurrency", 8)]
      [("breaker", [("failure_threshold", 3), ("back_off_time_millis", 250)])]
    let text := "max_concurrency = 8\n\n[breaker]\nfailure_threshold = 3\n" ++
      "back_off_time_millis = 250\n"
    Toml.codec.Faithful ∧ c.fault? = none ∧ (∀ e ∈ c.settings, e.2 ≤ 2 ^ 63 - 1) ∧
      Thinned ({} : RailConfig).document c.document left ∧ Toml.codec.read text = .ok left ∧
      ofText Toml.codec text = .ok c := by
  intro c left text
  have valid : c.fault? = none := by decide
  have fits : ∀ e ∈ c.settings, e.2 ≤ 2 ^ 63 - 1 := by decide
  have hdefault : ∀ e ∈ ({} : BreakerConfig).settings, (e.1, Value.number (.integer e.2)) ∈
      Toml.values ({} : BreakerConfig).settings := fun e he => List.mem_map_of_mem he
  have thinned : Thinned ({} : RailConfig).document c.document left := by
    refine .keep (.within (List.mem_append_right _ (List.mem_cons_self)) ?_
      (.drop (List.mem_append_right _ (.tail _ List.mem_cons_self)) .nil))
    have hshare := hdefault ("failure_percentage_threshold", 50) (by decide)
    have hsample := hdefault ("sample_size_threshold", 10) (by decide)
    have htrailing := hdefault ("trailing_period_millis", 5000) (by decide)
    have hrefresh := hdefault ("health_refresh_millis", 500) (by decide)
    exact .keep (.drop hshare (.drop hsample (.drop htrailing (.drop hrefresh (.keep .nil)))))
  have denotes : Toml.codec.read text = .ok left := by
    obtain ⟨text', hwrite, hread⟩ := Toml.codec_faithful.written [("max_concurrency", 8)]
      [("breaker", [("failure_threshold", 3), ("back_off_time_millis", 250)])]
      ⟨by decide, by decide, by decide⟩
      (by simp only [List.forall_mem_cons]; exact ⟨⟨by decide, plain_trimmed⟩, nofun⟩) (by decide)
    have htext : (Toml.codec.write left).toOption = some text := by decide +kernel
    rw [hwrite] at htext
    cases htext
    exact hread
  exact ⟨Toml.codec_faithful, valid, fits, thinned, denotes,
    (text_round_trip Toml.codec Toml.codec_faithful c valid fits).2 left thinned text denotes⟩

end RailConfig

end Turnstile
