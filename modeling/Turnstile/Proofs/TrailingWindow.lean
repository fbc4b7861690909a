import Turnstile.Proofs.Intervals
import Turnstile.Proofs.Reading

/-!
# How far a window reaches

The trailing length of a window is a duration, and the window covers as many periods as that
length takes up, cut off at the size of the ring. Main statements: two lengths compare for every
history exactly as the numbers of their periods do, so a longer one never shows less as long as
its nanoseconds fit a word; and what a window shows is all that is young enough, up to one period,
and nothing that is older.
-/

namespace Turnstile

variable {ω : Type}

namespace Health

/-- No number of the one exceeds that of the other. -/
instance : LE Health where
  le a b := a.total ≤ b.total ∧ a.nonRejected ≤ b.nonRejected ∧ a.failures ≤ b.failures ∧
    a.rejections ≤ b.rejections

instance (a b : Health) : Decidable (a ≤ b) :=
  inferInstanceAs (Decidable (a.total ≤ b.total ∧ a.nonRejected ≤ b.nonRejected ∧
    a.failures ≤ b.failures ∧ a.rejections ≤ b.rejections))

/-- All numbers are the same modulo the width of a word. -/
structure SameWords (a b : Health) : Prop where
  total : a.total ≡ b.total [MOD UInt64.size]
  nonRejected : a.nonRejected ≡ b.nonRejected [MOD UInt64.size]
  failures : a.failures ≡ b.failures [MOD UInt64.size]
  rejections : a.rejections ≡ b.rejections [MOD UInt64.size]

variable [Outcome ω] {f g : Counter ω → Nat}

theorem ofCounts_mono (h : ∀ c, f c ≤ g c) : ofCounts f ≤ ofCounts g :=
  ⟨Nat.add_le_add (List.sum_le_sum fun _ _ => h _) (List.sum_le_sum fun _ _ => h _),
    List.sum_le_sum fun _ _ => h _, List.sum_le_sum fun _ _ => h _,
    List.sum_le_sum fun _ _ => h _⟩

theorem sum_modEq {α : Type} {n : Nat} {f g : α → Nat} (h : ∀ a, f a ≡ g a [MOD n])
    (as : List α) : (as.map f).sum ≡ (as.map g).sum [MOD n] := by
  induction as with
  | nil => rfl
  | cons a as ih => exact (h a).add ih

theorem SameWords.trans {a b c : Health} (h : a.SameWords b) (h' : b.SameWords c) :
    a.SameWords c where
  total := h.total.trans h'.total
  nonRejected := h.nonRejected.trans h'.nonRejected
  failures := h.failures.trans h'.failures
  rejections := h.rejections.trans h'.rejections

theorem words_sameWords (a : Health) : a.words.SameWords a where
  total := Nat.mod_modEq _ _
  nonRejected := Nat.mod_modEq _ _
  failures := Nat.mod_modEq _ _
  rejections := Nat.mod_modEq _ _

theorem ofCounts_sameWords (h : ∀ c, f c ≡ g c [MOD UInt64.size]) :
    (ofCounts f).SameWords (ofCounts g) where
  total := (sum_modEq (fun _ => h _) _).add (sum_modEq (fun _ => h _) _)
  nonRejected := sum_modEq (fun _ => h _) _
  failures := sum_modEq (fun _ => h _) _
  rejections := sum_modEq (fun _ => h _) _

end Health

namespace SlotRing

variable {width : Nat} (r : SlotRing width)

theorem periodsIn_mono {a b : Nat} (h : a ≤ b) : r.periodsIn a ≤ r.periodsIn b := by
  have hdiv : (a + r.resolution - 1) / r.resolution ≤ (b + r.resolution - 1) / r.resolution :=
    Nat.div_le_div_right (by omega)
  simp only [periodsIn]
  omega

/-- A window that covers the whole ring cannot grow. -/
theorem periodsIn_span {a : Nat} (h : r.resolution * r.size ≤ a) :
    r.periodsIn a = r.periodsIn (r.resolution * r.size) := by
  have hsize : r.size ≤ (r.resolution * r.size + r.resolution - 1) / r.resolution := by
    have hpos := r.resolution_pos
    rw [Nat.le_div_iff_mul_le hpos, Nat.mul_comm]
    omega
  have hmono : (r.resolution * r.size + r.resolution - 1) / r.resolution ≤
      (a + r.resolution - 1) / r.resolution := Nat.div_le_div_right (by omega)
  simp only [periodsIn]
  omega

/-- Windows that end together overlap at their ends. -/
theorem window_suffix {a b : Nat} (h : r.periodsIn a ≤ r.periodsIn b) (now : Nat) :
    r.window a now <:+ r.window b now := by
  have hfirst : r.firstPeriod b now ≤ r.firstPeriod a now := by
    simp only [firstPeriod]
    omega
  have hlast : r.firstPeriod a now ≤ r.period now + 1 := Nat.sub_le _ _
  refine ⟨List.range' (r.firstPeriod b now) (r.firstPeriod a now - r.firstPeriod b now), ?_⟩
  have hglue := List.range'_append_1 (s := r.firstPeriod b now)
    (m := r.firstPeriod a now - r.firstPeriod b now)
    (n := r.period now + 1 - r.firstPeriod a now)
  rw [Nat.add_sub_cancel' hfirst] at hglue
  simp only [window, hglue]
  congr 1
  omega

theorem exactSum_mono {a b : Nat} (h : r.periodsIn a ≤ r.periodsIn b) (c : Fin width)
    (now : Nat) : r.exactSum c a now ≤ r.exactSum c b now :=
  ((r.window_suffix h now).sublist.map _).sum_le_sum fun _ _ => Nat.zero_le _

end SlotRing

namespace MetricsConfig

variable {c : MetricsConfig} {start : Nat}

/-- The span that the configuration promises is no longer than all slots together. -/
theorem span_le (config : MetricsConfig) :
    config.span.nanos ≤ config.resolutionMillis * 1000000 * config.slotsToTrack := by
  rw [span, Duration.ofMillis, Nat.mul_right_comm]
  exact Nat.mul_le_mul_right _ (Nat.min_le_left _ _)

/-- Within the span a window covers as many periods as its length takes up. -/
theorem reach_of_le_span (valid : c.fault? = none) {d : Duration} (pos : 0 < d.nanos)
    (h : d.nanos ≤ c.resolutionMillis * 1000000 * c.slotsToTrack) :
    c.reach d = d.nanos ⌈/⌉ (c.resolutionMillis * 1000000) := by
  have hpos := resolution_pos valid
  have hle : d.nanos ⌈/⌉ (c.resolutionMillis * 1000000) ≤ c.slotsToTrack :=
    (ceilDiv_le_iff_le_mul hpos).mpr (Nat.mul_comm _ _ ▸ h)
  have hone : 1 ≤ d.nanos ⌈/⌉ (c.resolutionMillis * 1000000) := by
    by_contra hzero
    have hnone := (ceilDiv_le_iff_le_mul hpos).mp (Nat.le_of_lt_succ (Nat.not_le.mp hzero))
    omega
  simp only [reach]
  omega

variable {time now k : Nat}

/-- What is young enough lies in one of the last `k` periods. -/
theorem mem_lastPeriods_of_age (valid : c.fault? = none) (hk : 0 < k) (told : time ≤ now)
    (young : now - time ≤ (k - 1) * (c.resolutionMillis * 1000000)) :
    c.periodAt start time ∈ c.lastPeriods start k now := by
  have hpos := resolution_pos valid
  have hfirst : c.periodAt start time ≤ c.periodAt start now :=
    Nat.div_le_div_right (Nat.sub_le_sub_right told start)
  have hlast : c.periodAt start now ≤ c.periodAt start time + (k - 1) := by
    rw [periodAt, periodAt, ← Nat.add_mul_div_right _ _ hpos]
    exact Nat.div_le_div_right (by omega)
  rw [lastPeriods, Finset.mem_Icc]
  omega

/-- What lies in one of the last `k` periods is not older than all of them. -/
theorem age_of_mem_lastPeriods (valid : c.fault? = none) (begun : start ≤ time)
    (h : c.periodAt start time ∈ c.lastPeriods start k now) :
    now - time < k * (c.resolutionMillis * 1000000) := by
  have hpos := resolution_pos valid
  rw [lastPeriods, Finset.mem_Icc] at h
  have hnow : now - start < (c.periodAt start now + 1) * (c.resolutionMillis * 1000000) :=
    Nat.lt_mul_of_div_lt (Nat.lt_succ_self _) hpos
  have htime : c.periodAt start time * (c.resolutionMillis * 1000000) ≤ time - start :=
    Nat.div_mul_le_self _ _
  have hperiods : (c.periodAt start now + 1) * (c.resolutionMillis * 1000000) ≤
      c.periodAt start time * (c.resolutionMillis * 1000000) +
        k * (c.resolutionMillis * 1000000) := by
    rw [← Nat.add_mul]
    exact Nat.mul_le_mul_right _ (by omega)
  have hwidth : 0 < k * (c.resolutionMillis * 1000000) := Nat.mul_pos (by omega) hpos
  omega

end MetricsConfig

namespace Metrics

variable [Outcome ω] {m : Metrics ω} {trailing trailing' : Duration} {now : Nat}

/-- Both windows can be read, and the one shows no more than the other. -/
def ReadsWithin (m : Metrics ω) (d d' : Duration) (now : Nat) : Prop :=
  ∃ a b, m.health? d now = some a ∧ m.health? d' now = some b ∧ a ≤ b

theorem readsWithin_of_le
    (h : m.ring.periodsIn (trailingNanos trailing) ≤ m.ring.periodsIn (trailingNanos trailing'))
    (sums : m.ring.SumsFit (trailingNanos trailing') now)
    (fits : m.countAll trailing' now < UInt64.size) : m.ReadsWithin trailing trailing' now := by
  have hsum := fun c => m.ring.exactSum_mono h c now
  have hsums : m.ring.SumsFit (trailingNanos trailing) now := fun c =>
    Nat.lt_of_le_of_lt (hsum c) (sums c)
  have hcount : ∀ c, m.count c trailing now ≤ m.count c trailing' now := fun c => by
    rw [count, count, SlotRing.sum, SlotRing.sum, Nat.mod_eq_of_lt (hsums _),
      Nat.mod_eq_of_lt (sums _)]
    exact hsum _
  have hmono := Health.ofCounts_mono hcount
  have hless : m.countAll trailing now < UInt64.size := by
    rw [countAll_eq] at fits ⊢
    exact Nat.lt_of_le_of_lt hmono.1 fits
  refine ⟨_, _, if_pos ⟨hsums, hless⟩, if_pos ⟨sums, fits⟩, ?_⟩
  rw [health_eq_ofCounts hless, health_eq_ofCounts fits]
  exact hmono

/-- Windows of as many periods are the same windows. -/
theorem health_congr
    (h : m.ring.periodsIn (trailingNanos trailing) = m.ring.periodsIn (trailingNanos trailing')) :
    m.health trailing now = m.health trailing' now ∧
      m.health? trailing now = m.health? trailing' now := by
  have hfirst : m.ring.firstPeriod (trailingNanos trailing) now =
      m.ring.firstPeriod (trailingNanos trailing') now := by
    rw [SlotRing.firstPeriod, h, SlotRing.firstPeriod]
  have hsum : ∀ c, m.ring.exactSum c (trailingNanos trailing) now =
      m.ring.exactSum c (trailingNanos trailing') now := fun c => by
    simp only [SlotRing.exactSum, SlotRing.window, hfirst]
  have hcount : ∀ c, m.count c trailing now = m.count c trailing' now := fun c => by
    rw [count, count, SlotRing.sum, SlotRing.sum, hsum]
  have hhealth : m.health trailing now = m.health trailing' now := by
    rw [health_eq_words, health_eq_words, funext hcount]
  have hsums : m.ring.SumsFit (trailingNanos trailing) now ↔
      m.ring.SumsFit (trailingNanos trailing') now := by
    simp only [SlotRing.SumsFit, hsum]
  have hall : m.countAll trailing now = m.countAll trailing' now := by
    rw [countAll, countAll, funext hcount]
  exact ⟨hhealth, if_congr (by rw [hsums, hall]) (by rw [hhealth]) rfl⟩

theorem trailingNanos_lt (trailing : Duration) : trailingNanos trailing < UInt64.size :=
  Nat.mod_lt _ (by decide)

theorem trailingNanos_of_lt (h : trailing.nanos < UInt64.size) :
    trailingNanos trailing = trailing.nanos := Nat.mod_eq_of_lt h

/-- Of a trailing length only the low bits are looked at. -/
theorem health_low (m : Metrics ω) (trailing : Duration) (now : Nat) :
    m.health ⟨trailingNanos trailing⟩ now = m.health trailing now ∧
      m.health? ⟨trailingNanos trailing⟩ now = m.health? trailing now :=
  health_congr (congrArg _ (Nat.mod_mod _ _))

section Laws

variable {config : MetricsConfig} {start : Nat}

/-- How far a window reaches back, by the configuration of its metrics. -/
theorem periodsIn_replay (made : ofConfig config start = .ok m) (h : History ω)
    (trailing : Duration) : (m.replay h).ring.periodsIn (trailingNanos trailing) =
      config.reach ⟨trailingNanos trailing⟩ := by
  obtain ⟨hsize, -, hres⟩ := ring_ofConfig made
  have hsame : (m.replay h).ring.periodsIn (trailingNanos trailing) =
      m.ring.periodsIn (trailingNanos trailing) :=
    replay_keeps (f := fun m => m.ring.periodsIn (trailingNanos trailing)) (fun _ _ => rfl) m h
  rw [hsame, SlotRing.periodsIn_eq, hsize, hres]
  rfl

/-- The span of metrics is that of their slots, as far as a word keeps it. -/
theorem span_ofConfig (made : ofConfig config start = .ok m) : m.span.nanos =
    config.resolutionMillis * 1000000 * config.slotsToTrack % UInt64.size := by
  obtain ⟨hsize, -, hres⟩ := ring_ofConfig made
  rw [span, hsize, hres]

theorem span?_eq (made : ofConfig config start = .ok m)
    (fits : config.resolutionMillis * 1000000 * config.slotsToTrack < UInt64.size) :
    m.span? = some ⟨config.resolutionMillis * 1000000 * config.slotsToTrack⟩ := by
  obtain ⟨hsize, -, hres⟩ := ring_ofConfig made
  rw [span?, span, hsize, hres, if_pos fits, Nat.mod_eq_of_lt fits]

variable [DecidableEq ω]

/-- A window can be read if all that it holds fits a word. -/
theorem Fresh.fits_of_held (fresh : m.Fresh config start) (h : History ω)
    (low : trailing.nanos < UInt64.size)
    (fits : ((Counter.all ω).map fun c => config.held start h c trailing now).sum <
      UInt64.size) :
    (m.replay h).ring.SumsFit (trailingNanos trailing) now ∧
      (m.replay h).countAll trailing now < UInt64.size := by
  have hheld : ∀ c, config.held start h c trailing now < UInt64.size := fun c =>
    Nat.lt_of_le_of_lt (List.single_le_sum (fun _ _ => Nat.zero_le _) _
      (List.mem_map.mpr ⟨c, Counter.mem_all c, rfl⟩)) fits
  refine ⟨(fresh.sumsFit_iff h low).mpr hheld, ?_⟩
  have hcount : ∀ c, (m.replay h).count c trailing now = config.held start h c trailing now :=
    fun c => by rw [fresh.count_eq h c low, Nat.mod_eq_of_lt (hheld c)]
  rw [countAll, addUp_eq_sum, funext hcount]
  exact fits

/-- One refusal at the very start shows in the windows that reach back to it. -/
theorem rejections_lone (fresh : m.Fresh config start) (valid : config.fault? = none)
    (trailing : Duration) (p : Nat) :
    ∃ a, (m.replay [⟨.rejection .circuitOpen, 1, start⟩]).health? trailing
        (start + p * (config.resolutionMillis * 1000000)) = some a ∧
      a.rejections = if p < config.reach ⟨trailingNanos trailing⟩ then 1 else 0 := by
  have hpos := MetricsConfig.resolution_pos valid
  have hfirst : config.periodAt start start = 0 := by simp [MetricsConfig.periodAt]
  have hlater : config.periodAt start (start + p * (config.resolutionMillis * 1000000)) = p := by
    rw [MetricsConfig.periodAt, Nat.add_sub_cancel_left, Nat.mul_div_cancel _ hpos]
  have hlast : ∀ e ∈ ([⟨.rejection .circuitOpen, 1, start⟩] : History ω),
      config.periodAt start e.time ≤
        config.periodAt start (start + p * (config.resolutionMillis * 1000000)) := by
    intro e he
    rw [List.mem_singleton.mp he, hfirst]
    exact Nat.zero_le _
  have hfits : History.tally ([⟨.rejection .circuitOpen, 1, start⟩] : History ω)
      (fun _ => true) < UInt64.size := by
    rw [History.tally_singleton]
    exact (by decide : 1 < UInt64.size)
  have hlow : (⟨trailingNanos trailing⟩ : Duration).nanos < UInt64.size :=
    trailingNanos_lt trailing
  rw [← (health_low _ trailing _).2, fresh.health?_eq hlow hfits]
  refine ⟨_, rfl, ?_⟩
  rw [fresh.health_eq hlast hlow hfits]
  simp only [History.healthIn, History.recordedIn, History.tally_singleton, hfirst,
    Counter.isRejection, MetricsConfig.windowAt, MetricsConfig.lastPeriods, hlater,
    Finset.mem_Icc, Bool.and_true, decide_eq_true_eq]
  congr 1
  apply propext
  omega

/-- A longer window never shows less, and none shows more than that of the whole span. -/
def LongerWindowsShowMore (ω : Type) [Outcome ω] : Prop :=
  ∀ (config : MetricsConfig) (start : Nat) (m : Metrics ω), make config start = .ok m →
    ∀ (h : History ω) (now : Nat), h.tally (fun _ => true) < UInt64.size →
      (∀ d d' : Duration, d ≤ d' → (m.replay h).ReadsWithin d d' now) ∧
      ∀ span, m.span? = some span → ∀ d, span ≤ d →
        (m.replay h).health? d now = (m.replay h).health? span now

/-- The nanoseconds of 584 years and a half do not fit a word, and what is left of them is a
window of one period. -/
theorem long_window_forgets : ¬ LongerWindowsShowMore Status := by
  intro hmore
  obtain ⟨m, hm⟩ : ∃ m : Metrics Status, make ⟨4, 100⟩ 0 = .ok m := ⟨_, rfl⟩
  have hread : (make (ω := Status) ⟨4, 100⟩ 0).toOption.map (fun m =>
      ((m.replay [⟨.outcome .error, 1, 0⟩]).health? (.ofMillis 400) 100000000,
        (m.replay [⟨.outcome .error, 1, 0⟩]).health? ⟨UInt64.size⟩ 100000000)) =
      some (some ⟨1, 1, 1, 0⟩, some .empty) := by decide +kernel
  rw [hm] at hread
  obtain ⟨hshort, hlong⟩ := Prod.mk.inj (Option.some.inj hread)
  obtain ⟨a, b, ha, hb, hle⟩ := (hmore ⟨4, 100⟩ 0 m hm [⟨.outcome .error, 1, 0⟩] 100000000
    (by decide)).1 (.ofMillis 400) ⟨UInt64.size⟩ (by decide)
  rw [hshort] at ha
  rw [hlong] at hb
  cases ha
  cases hb
  exact absurd hle (by decide)

/-- Lengths whose nanoseconds fit a word show more the longer they are, and from the span on all
the same, as long as all counts together and the span fit a word. Of a length that does not fit,
what is left modulo the width of a word counts: whatever the history, one length shows no more than
another exactly if what is left of it takes up no more periods. -/
theorem longer_windows_show_more {config : MetricsConfig} {start : Nat} {m : Metrics ω}
    (made : make config start = .ok m) :
    (∀ d d' : Duration, d ≤ d' → d'.nanos < UInt64.size → ∀ (h : History ω) (now : Nat),
      ((Counter.all ω).map fun c => config.held start h c d' now).sum < UInt64.size →
      (m.replay h).ReadsWithin d d' now) ∧
    (config.resolutionMillis * 1000000 * config.slotsToTrack < UInt64.size →
      ∃ span, m.span? = some span ∧
        span.nanos = config.resolutionMillis * 1000000 * config.slotsToTrack ∧
        ∀ d : Duration, span ≤ d → d.nanos < UInt64.size → ∀ (h : History ω) (now : Nat),
          (m.replay h).health? d now = (m.replay h).health? span now) ∧
    ∀ d d' : Duration,
      (∀ (h : History ω) (now : Nat), h.tally (fun _ => true) < UInt64.size →
        (m.replay h).ReadsWithin d d' now) ↔
      config.reach ⟨d.nanos % UInt64.size⟩ ≤ config.reach ⟨d'.nanos % UInt64.size⟩ := by
  have hfresh := fresh_of_make made
  obtain ⟨hm, valid, -⟩ := ofConfig_of_make made
  refine ⟨fun d d' hle hlow h now hfits => ?_, fun hwidth => ?_, fun d d' => ?_⟩
  · obtain ⟨hsums, hall⟩ := hfresh.fits_of_held h hlow hfits
    refine readsWithin_of_le ?_ hsums hall
    rw [trailingNanos_of_lt (Nat.lt_of_le_of_lt hle hlow), trailingNanos_of_lt hlow]
    exact SlotRing.periodsIn_mono _ hle
  · refine ⟨_, span?_eq hm hwidth, rfl, fun d hle hlow h now => (health_congr ?_).2⟩
    obtain ⟨hsize, -, hres⟩ := ring_ofConfig hm
    have hspan : config.resolutionMillis * 1000000 * config.slotsToTrack =
        (m.replay h).ring.resolution * (m.replay h).ring.size := by
      rw [← hsize, ← hres]
      exact (replay_keeps (f := fun m => m.ring.resolution * m.ring.size) (fun _ _ => rfl) m h).symm
    rw [trailingNanos_of_lt hlow, trailingNanos_of_lt hwidth, hspan]
    exact SlotRing.periodsIn_span _ (hspan ▸ hle)
  · constructor
    · intro hmore
      by_contra hnot
      have hless : config.reach ⟨trailingNanos d'⟩ < config.reach ⟨trailingNanos d⟩ :=
        Nat.not_le.mp hnot
      -- a refusal at the start, read when the shorter window has just lost it
      have hone : History.tally ([⟨.rejection .circuitOpen, 1, start⟩] : History ω)
          (fun _ => true) < UInt64.size := by
        rw [History.tally_singleton]
        exact (by decide : 1 < UInt64.size)
      let now := start + config.reach ⟨trailingNanos d'⟩ * (config.resolutionMillis * 1000000)
      obtain ⟨a, b, ha, hb, hle⟩ := hmore [⟨.rejection .circuitOpen, 1, start⟩] now hone
      obtain ⟨a', ha', hshown⟩ :=
        rejections_lone hfresh valid d (config.reach ⟨trailingNanos d'⟩)
      obtain ⟨b', hb', hlost⟩ :=
        rejections_lone hfresh valid d' (config.reach ⟨trailingNanos d'⟩)
      have haa : a = a' := Option.some.inj (ha.symm.trans ha')
      have hbb : b = b' := Option.some.inj (hb.symm.trans hb')
      rw [if_pos hless, ← haa] at hshown
      rw [if_neg (Nat.lt_irrefl _), ← hbb] at hlost
      exact absurd (hshown ▸ hlost ▸ hle.2.2.2) (by decide)
    · intro hreach h now hfits
      have hlow : (⟨trailingNanos d'⟩ : Duration).nanos < UInt64.size := trailingNanos_lt d'
      have hheld : ((Counter.all ω).map fun c =>
          config.held start h c ⟨trailingNanos d'⟩ now).sum < UInt64.size := by
        rw [← Health.total_ofCounts]
        exact Nat.lt_of_le_of_lt (config.sum_held_le start h _ now) hfits
      obtain ⟨hsums, hall⟩ := hfresh.fits_of_held h hlow hheld
      have hsame : trailingNanos ⟨trailingNanos d'⟩ = trailingNanos d' := Nat.mod_mod _ _
      have hcount : ∀ c, (m.replay h).count c ⟨trailingNanos d'⟩ now =
          (m.replay h).count c d' now := fun c => by rw [count, count, hsame]
      refine readsWithin_of_le ?_ (hsame ▸ hsums) ?_
      · rw [periodsIn_replay hm, periodsIn_replay hm]
        exact hreach
      · rwa [countAll, funext hcount] at hall

/-- Windows of 200 ms, of the span of 400 ms and of a thousand years, on the same four slots. -/
theorem longer_windows_show_more_jumbled :
    ∃ m : Metrics Status, make ⟨4, 100⟩ 100000000 = .ok m ∧
      (Duration.ofMillis 200) ≤ .ofMillis 500 ∧ (Duration.ofMillis 500).nanos < UInt64.size ∧
      ((Counter.all Status).map fun c => MetricsConfig.held ⟨4, 100⟩ 100000000 jumbled c
        (.ofMillis 500) 650000000).sum < UInt64.size ∧
      100 * 1000000 * 4 < UInt64.size ∧
      (m.replay jumbled).ReadsWithin (.ofMillis 200) (.ofMillis 500) 650000000 ∧
      (∃ span, m.span? = some span ∧ span ≤ .ofMillis 500 ∧
        (m.replay jumbled).health? (.ofMillis 500) 650000000 =
          (m.replay jumbled).health? span 650000000) ∧
      ¬ ∀ (h : History Status) (now : Nat), h.tally (fun _ => true) < UInt64.size →
        (m.replay h).ReadsWithin (.ofMillis 200) ⟨UInt64.size + 7⟩ now := by
  obtain ⟨m, hm⟩ : ∃ m : Metrics Status, make ⟨4, 100⟩ 100000000 = .ok m := ⟨_, rfl⟩
  obtain ⟨hmore, hspan, hreach⟩ := longer_windows_show_more hm
  have hle : (Duration.ofMillis 200) ≤ .ofMillis 500 := by decide
  have hlow : (Duration.ofMillis 500).nanos < UInt64.size := by decide
  have hfits : ((Counter.all Status).map fun c => MetricsConfig.held ⟨4, 100⟩ 100000000 jumbled c
      (.ofMillis 500) 650000000).sum < UInt64.size := by
    rw [← Health.total_ofCounts]
    exact Nat.lt_of_le_of_lt (MetricsConfig.sum_held_le _ _ _ _ _)
      (show jumbled.tally (fun _ => true) < UInt64.size by decide +kernel)
  have hwidth : 100 * 1000000 * 4 < UInt64.size := by decide
  obtain ⟨span, hsome, hnanos, hall⟩ := hspan hwidth
  have hlong : span ≤ .ofMillis 500 := by
    rw [Duration.le_def, hnanos]
    decide
  refine ⟨m, hm, hle, hlow, hfits, hwidth, hmore _ _ hle hlow jumbled _ hfits,
    ⟨span, hsome, hlong, hall _ hlong hlow jumbled _⟩, ?_⟩
  rw [hreach]
  decide +kernel

namespace Fresh

variable {h : History ω}

/-- A window that no later call has touched shows what was told of its periods, modulo the width
of a word. -/
theorem health_sameWords (fresh : m.Fresh config start)
    (hlast : ∀ e ∈ h, config.periodAt start e.time ≤ config.periodAt start now)
    (low : trailing.nanos < UInt64.size) :
    ((m.replay h).health trailing now).SameWords
      (h.healthIn (config.periodAt start) (config.windowAt start trailing now)) := by
  rw [health_eq_words, ← Health.ofCounts_recordedIn]
  refine (Health.words_sameWords _).trans (Health.ofCounts_sameWords fun c => ?_)
  rw [fresh.count_eq h c low, fresh.held_of_le hlast c low, ← History.sum_recorded, Nat.ModEq,
    Nat.mod_mod]
  exact (Finset.sum_nat_mod _ _ _).symm

/-- If all of that together fits a word, it shows exactly that. -/
theorem health?_eq_healthIn (fresh : m.Fresh config start)
    (hlast : ∀ e ∈ h, config.periodAt start e.time ≤ config.periodAt start now)
    (low : trailing.nanos < UInt64.size)
    (fits : (h.healthIn (config.periodAt start) (config.windowAt start trailing now)).total <
      UInt64.size) :
    (m.replay h).health? trailing now =
      some (h.healthIn (config.periodAt start) (config.windowAt start trailing now)) := by
  have hword : ∀ c, h.recordedIn (config.periodAt start) (config.windowAt start trailing now)
      (fun a => decide (a = c)) < UInt64.size := fun c =>
    Nat.lt_of_le_of_lt (h.recordedIn_le _ _ _) fits
  have hheld : (fun c => config.held start h c trailing now) = fun c =>
      h.recordedIn (config.periodAt start) (config.windowAt start trailing now)
        fun a => decide (a = c) :=
    funext fun c => fresh.held_eq_recordedIn hlast low (hword c)
  have hsum : ((Counter.all ω).map fun c => config.held start h c trailing now).sum <
      UInt64.size := by
    rw [← Health.total_ofCounts, hheld, Health.ofCounts_recordedIn]
    exact fits
  obtain ⟨hsums, hall⟩ := fresh.fits_of_held h low hsum
  have hcount : ∀ c, (m.replay h).count c trailing now =
      h.recordedIn (config.periodAt start) (config.windowAt start trailing now)
        fun a => decide (a = c) := fun c => by
    rw [fresh.count_eq h c low, congrFun hheld c, Nat.mod_eq_of_lt (hword c)]
  rw [health?, if_pos ⟨hsums, hall⟩, health_eq_ofCounts hall, funext hcount,
    Health.ofCounts_recordedIn]

end Fresh

/-- A window within the span shows everything that is younger than its periods but one, and
nothing that is older than all of them. -/
def WindowsAccurate (ω : Type) [Outcome ω] [DecidableEq ω] : Prop :=
  ∀ (config : MetricsConfig) (start : Nat) (m : Metrics ω), make config start = .ok m →
    ∀ (h : History ω) (d : Duration) (now : Nat),
      (∀ e ∈ h, start ≤ e.time ∧ e.time ≤ now) → h.tally (fun _ => true) < UInt64.size →
      0 < d.nanos → d ≤ config.span →
      let width := config.resolutionMillis * 1000000
      let k := d.nanos ⌈/⌉ width
      ∃ health, (m.replay h).health? d now = some health ∧
        (h.tally fun e => decide (now - e.time ≤ (k - 1) * width)) ≤ health.total ∧
        health.total ≤ h.tally fun e => decide (now - e.time < k * width)

/-- Two slots of 317 years remember more than a word of nanoseconds, and a window of 584 years and
a half looks at the last one only. -/
theorem wide_window_misses : ¬ WindowsAccurate Status := by
  intro haccurate
  obtain ⟨m, hm⟩ : ∃ m : Metrics Status, make ⟨2, 10000000000000⟩ 0 = .ok m := ⟨_, rfl⟩
  have hread : (make (ω := Status) ⟨2, 10000000000000⟩ 0).toOption.map (fun m =>
      (m.replay [⟨.outcome .error, 1, 0⟩]).health? ⟨UInt64.size⟩ 10000000000000000000) =
      some (some .empty) := by decide +kernel
  rw [hm] at hread
  obtain ⟨health, hsome, hshown, -⟩ := haccurate ⟨2, 10000000000000⟩ 0 m hm
    [⟨.outcome .error, 1, 0⟩] ⟨UInt64.size⟩ 10000000000000000000 (by decide) (by decide)
    (by decide) (by decide)
  have hempty : health = .empty := Option.some.inj (hsome.symm.trans (Option.some.inj hread))
  rw [hempty] at hshown
  exact absurd hshown (by decide +kernel)

/-- What a window shows of a history up to its end: for every counter all that was told of the
events that it counts, modulo the width of a word, and exactly that if all of it together fits a
word. It counts by the time of an event: every one that is no older than its periods but one, and
none as old as all of them together. A length within the span that fits a word takes up as many
periods as it has begun, so that nothing is missed that is a period younger than the length, and
nothing of that age is counted if the length is made of whole periods. -/
theorem windows_accurate {config : MetricsConfig} {start : Nat} {m : Metrics ω}
    (made : make config start = .ok m) (h : History ω) (d : Duration) (now : Nat)
    (timely : ∀ e ∈ h, start ≤ e.time ∧ e.time ≤ now) :
    let width := config.resolutionMillis * 1000000
    let window := config.windowAt start ⟨d.nanos % UInt64.size⟩ now
    let k := config.reach ⟨d.nanos % UInt64.size⟩
    let counted := fun time => config.periodAt start time ∈ window
    let told := h.healthIn (config.periodAt start) window
    ((m.replay h).health d now).SameWords told ∧
    (told.total < UInt64.size → (m.replay h).health? d now = some told) ∧
    (∀ time, start ≤ time → time ≤ now →
      (now - time ≤ (k - 1) * width → counted time) ∧
      (counted time → now - time < k * width)) ∧
    (0 < d.nanos → d ≤ config.span → d.nanos < UInt64.size →
      k = d.nanos ⌈/⌉ width ∧
      ∀ time, start ≤ time → time ≤ now →
        (now - time ≤ d.nanos - width → counted time) ∧
        (width ∣ d.nanos → counted time → now - time < d.nanos)) := by
  have hfresh := fresh_of_make made
  obtain ⟨-, valid, -⟩ := ofConfig_of_make made
  intro width window k counted all
  have hlow : (⟨trailingNanos d⟩ : Duration).nanos < UInt64.size := trailingNanos_lt d
  have hhealth := (m.replay h).health_low d now
  have hlast : ∀ e ∈ h, config.periodAt start e.time ≤ config.periodAt start now := fun e he =>
    Nat.div_le_div_right (Nat.sub_le_sub_right (timely e he).2 start)
  have hk : 0 < k := by
    have hslots := MetricsConfig.slots_pos valid
    simp only [k, MetricsConfig.reach]
    omega
  have hages : ∀ time, start ≤ time → time ≤ now →
      (now - time ≤ (k - 1) * width → counted time) ∧
      (counted time → now - time < k * width) := fun time begun past =>
    ⟨MetricsConfig.mem_lastPeriods_of_age valid hk past,
      MetricsConfig.age_of_mem_lastPeriods valid begun⟩
  refine ⟨hhealth.1 ▸ hfresh.health_sameWords hlast hlow,
    fun fits => hhealth.2 ▸ hfresh.health?_eq_healthIn hlast hlow fits, hages,
    fun pos hspan hfits => ?_⟩
  have hreach : k = d.nanos ⌈/⌉ width := by
    have hd : (⟨d.nanos % UInt64.size⟩ : Duration) = d := by rw [Nat.mod_eq_of_lt hfits]
    simp only [k, hd]
    exact MetricsConfig.reach_of_le_span valid pos (Nat.le_trans hspan config.span_le)
  have hpos : 0 < width := MetricsConfig.resolution_pos valid
  have hlength : d.nanos ≤ k * width := by
    rw [hreach, Nat.mul_comm]
    exact le_smul_ceilDiv hpos
  refine ⟨hreach, fun time begun past => ⟨fun young => (hages time begun past).1 ?_,
    fun whole shown => ?_⟩⟩
  · rw [Nat.sub_mul, Nat.one_mul]
    omega
  · have hwhole : k * width = d.nanos := by
      obtain ⟨n, hn⟩ := whole
      rw [hreach, hn, ← smul_eq_mul width n, smul_ceilDiv hpos, smul_eq_mul, Nat.mul_comm]
    exact hwhole ▸ (hages time begun past).2 shown

/-- Events of the ages 200 ms, 100 ms and a nanosecond, as of 350 ms. -/
def paced : History Status :=
  [⟨.outcome .error, 1, 150000000⟩, ⟨.rejection .forcedOpen, 2, 250000000⟩,
    ⟨.outcome .error, 4, 349999999⟩]

/-- A window of 200 ms on slots of 100 ms counts the second event and no longer the first. -/
theorem windows_accurate_paced :
    (∀ e ∈ paced, 100000000 ≤ e.time ∧ e.time ≤ 350000000) ∧
    0 < (Duration.ofMillis 200).nanos ∧ (Duration.ofMillis 200).nanos < UInt64.size ∧
    Duration.ofMillis 200 ≤ MetricsConfig.span ⟨4, 100⟩ ∧
    ∃ m : Metrics Status, make ⟨4, 100⟩ 100000000 = .ok m ∧
      (m.replay paced).health? (.ofMillis 200) 350000000 = some ⟨6, 4, 4, 2⟩ ∧
      350000000 - 250000000 ≤ (Duration.ofMillis 200).nanos - 100000000 ∧
      100000000 ∣ (Duration.ofMillis 200).nanos ∧
      ¬ 350000000 - 150000000 < (Duration.ofMillis 200).nanos ∧
      MetricsConfig.periodAt ⟨4, 100⟩ 100000000 250000000 ∈
        MetricsConfig.windowAt ⟨4, 100⟩ 100000000 (.ofMillis 200) 350000000 ∧
      MetricsConfig.periodAt ⟨4, 100⟩ 100000000 150000000 ∉
        MetricsConfig.windowAt ⟨4, 100⟩ 100000000 (.ofMillis 200) 350000000 := by
  have htold : ∀ e ∈ paced, 100000000 ≤ e.time ∧ e.time ≤ 350000000 := by decide
  have hpos : 0 < (Duration.ofMillis 200).nanos := by decide
  have hfits : (Duration.ofMillis 200).nanos < UInt64.size := by decide
  have hspan : Duration.ofMillis 200 ≤ MetricsConfig.span ⟨4, 100⟩ := by decide
  obtain ⟨m, hm⟩ : ∃ m : Metrics Status, make ⟨4, 100⟩ 100000000 = .ok m := ⟨_, rfl⟩
  obtain ⟨-, hhealth, -, hages⟩ := windows_accurate hm paced (.ofMillis 200) 350000000 htold
  obtain ⟨-, hages⟩ := hages hpos hspan hfits
  have hyoung : 350000000 - 250000000 ≤ (Duration.ofMillis 200).nanos - 100000000 := by decide
  have hwhole : 100000000 ∣ (Duration.ofMillis 200).nanos := by decide
  have hold : ¬ 350000000 - 150000000 < (Duration.ofMillis 200).nanos := by decide
  refine ⟨htold, hpos, hfits, hspan, m, hm,
    (hhealth (by decide +kernel)).trans (by decide +kernel), hyoung, hwhole, hold,
    (hages 250000000 (by decide) (by decide)).1 hyoung, fun shown => hold ?_⟩
  exact (hages 150000000 (by decide) (by decide)).2 hwhole shown

end Laws

end Metrics

end Turnstile
