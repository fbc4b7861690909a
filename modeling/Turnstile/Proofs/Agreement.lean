import Turnstile.Proofs.Intervals
import Turnstile.Proofs.Reading

/-!
# All readings agree

Health, counts, intervals and totals are four readings of the same metrics. Main statement: after
any history in which no counter has wrapped, they tell the same numbers, and none tells more than
was counted since the start.
-/

namespace Turnstile.Metrics

variable {ω : Type} [Outcome ω]

/-- All counters of a sum over the intervals are read off the ring as it is. -/
theorem exactSum_eq_sum_intervals (m : Metrics ω) (trailing : Duration) (now : Nat)
    (c : Counter ω) : m.ring.exactSum c.index (trailingNanos trailing) now =
      ((m.intervals trailing now).map fun i => i.count c).sum := by
  rw [SlotRing.exactSum, addUp_eq_sum, intervals, List.map_map]
  congr 2
  funext p
  exact (m.count_interval now p c).symm

variable [DecidableEq ω]

/-- The total of a counter is all that was counted, modulo the width of a word. -/
theorem total_replay (m : Metrics ω) (h : History ω) (c : Counter ω) :
    (m.replay h).total c =
      (m.total c + h.tally fun e => decide (e.counter = c)) % UInt64.size := by
  induction h generalizing m with
  | nil => exact (Nat.mod_eq_of_lt (UInt64.toNat_lt _)).symm
  | cons e h ih =>
    rw [replay_cons, ih, record, total_add, Nat.mod_add_mod, History.tally_cons, Nat.add_assoc]
    simp

/-- No window holds more than there is in the history. -/
theorem exactSum_le_tally {m : Metrics ω} {h : History ω} (hm : m.ring.Mirrors h)
    (c : Counter ω) (trailing now : Nat) :
    m.ring.exactSum c.index trailing now ≤ h.tally fun e => decide (e.counter = c) := by
  let periods := Finset.Icc (m.ring.firstPeriod trailing now) (m.ring.period now)
  calc m.ring.exactSum c.index trailing now
      = ∑ p ∈ periods with ¬ h.Overtaken m.ring.period m.ring.size p,
          h.recorded m.ring.period c p % UInt64.size := hm.exactSum c _ now
    _ ≤ ∑ p ∈ periods with ¬ h.Overtaken m.ring.period m.ring.size p,
          h.recorded m.ring.period c p := Finset.sum_le_sum fun _ _ => Nat.mod_le _ _
    _ ≤ ∑ p ∈ periods, h.recorded m.ring.period c p :=
        Finset.sum_le_sum_of_subset (Finset.filter_subset _ _)
    _ = h.recordedIn m.ring.period periods fun a => decide (a = c) := h.sum_recorded _ c periods
    _ ≤ h.tally fun e => decide (e.counter = c) := History.tally_le fun e _ he => by simp_all

/-- As long as no counter has wrapped, no sum of a single one does. -/
theorem sumsFit_of_unwrapped {m : Metrics ω} {h : History ω} (hm : m.ring.Mirrors h)
    (unwrapped : ∀ c : Counter ω, (h.tally fun e => decide (e.counter = c)) < UInt64.size)
    (trailing now : Nat) : m.ring.SumsFit trailing now := by
  intro i
  obtain ⟨c, rfl⟩ := Counter.index_surjective i
  exact Nat.lt_of_le_of_lt (exactSum_le_tally hm c trailing now) (unwrapped c)

omit [DecidableEq ω] in
/-- Where the word that ends the last period does not wrap, none of a window does. -/
theorem intervals?_eq (m : Metrics ω) (trailing : Duration) {now : Nat}
    (fits : max now m.ring.start + m.ring.resolution < UInt64.size) :
    m.intervals? trailing now = some (m.intervals trailing now) := by
  refine if_pos fun i hi => ?_
  obtain ⟨p, hp, rfl⟩ := List.mem_map.mp hi
  have hlast : p ≤ m.ring.period now := by
    simp only [SlotRing.window, List.mem_range'_1] at hp
    omega
  have hmono := m.ring.periodStart_mono hlast
  have hnow := (m.ring.periodStart_period now).1
  simp only [interval]
  omega

/-- All counts fit their words, and so does every reading of them. -/
def ReadingsAgree (ω : Type) [Outcome ω] [DecidableEq ω] : Prop :=
  ∀ (config : MetricsConfig) (start : Nat) (m : Metrics ω), make config start = .ok m →
    ∀ (h : History ω) (trailing : Duration) (now : Nat),
      (∀ c, (h.tally fun e => decide (e.counter = c)) < UInt64.size) →
      ∃ health, (m.replay h).health? trailing now = some health ∧
        health.nonRejected = ((Outcome.variants (ω := ω)).map fun o =>
          (m.replay h).count (.outcome o) trailing now).sum

/-- Two counters that fit a word each, but not together. -/
def crowded : History Status :=
  [⟨.outcome .success, 9223372036854775808, 0⟩, ⟨.outcome .error, 9223372036854775808, 0⟩]

/-- The sum over all outcomes overflows though no counter does: a build that checks it has no
reading, and any other one reads more failures than events. Nor can the intervals be read once the
last one ends after the last word. -/
theorem crowded_counts_overflow : ¬ ReadingsAgree Status ∧
    ∃ m : Metrics Status, make ⟨4, 100⟩ 0 = .ok m ∧
      (m.replay crowded).health (.ofMillis 100) 0 = ⟨0, 0, 9223372036854775808, 0⟩ ∧
      (m.replay crowded).intervals? (.ofMillis 100) 18446744073709551615 = none := by
  obtain ⟨m, hm⟩ : ∃ m : Metrics Status, make ⟨4, 100⟩ 0 = .ok m := ⟨_, rfl⟩
  have hread : (make (ω := Status) ⟨4, 100⟩ 0).toOption.map (fun m =>
      ((m.replay crowded).health? (.ofMillis 100) 0,
        (m.replay crowded).health (.ofMillis 100) 0,
        (m.replay crowded).intervals? (.ofMillis 100) 18446744073709551615)) =
      some (none, ⟨0, 0, 9223372036854775808, 0⟩, none) := by decide +kernel
  rw [hm] at hread
  simp only [Except.toOption, Option.map_some, Option.some.injEq, Prod.mk.injEq] at hread
  obtain ⟨hnone, hwrapped, hlate⟩ := hread
  refine ⟨fun hagree => ?_, m, hm, hwrapped, hlate⟩
  have hunwrapped : ∀ c, (crowded.tally fun e => decide (e.counter = c)) < UInt64.size := by
    intro c
    by_cases hc : c = .outcome .success
    · subst hc
      decide +kernel
    · refine Nat.lt_of_le_of_lt (History.tally_le (q := fun e =>
        decide (e.counter = .outcome .error)) fun e he hce => ?_) (by decide +kernel)
      rcases List.mem_pair.mp he with rfl | rfl <;> simp_all
  obtain ⟨health, hsome, -⟩ := hagree ⟨4, 100⟩ 0 m hm crowded (.ofMillis 100) 0 hunwrapped
  rw [hnone] at hsome
  cases hsome

/-- As long as no counter has wrapped, every one of them can be read, and the intervals of a window
add up to its count. The health of the window tells the same numbers if all of them together fit a
word, and otherwise cannot be read. -/
theorem readings_agree {config : MetricsConfig} {start : Nat} {m : Metrics ω}
    (made : make config start = .ok m) (h : History ω) (trailing : Duration) (now : Nat)
    (unwrapped : ∀ c, (h.tally fun e => decide (e.counter = c)) < UInt64.size) :
    let m' := m.replay h
    let shown := fun c => ((m'.intervals trailing now).map fun i => i.count c).sum
    (∀ c, m'.count? c trailing now = some (shown c) ∧ shown c ≤ m'.total c ∧
      m'.total c = h.tally fun e => decide (e.counter = c)) ∧
    (max now start + config.resolutionMillis * 1000000 < UInt64.size →
      m'.intervals? trailing now = some (m'.intervals trailing now)) ∧
    (((Counter.all ω).map shown).sum < UInt64.size →
      ∃ health, m'.health? trailing now = some health ∧
        health.nonRejected =
          ((Outcome.variants (ω := ω)).map fun o => shown (.outcome o)).sum ∧
        health.failures = (((Outcome.variants (ω := ω)).filter Outcome.isFailure).map fun o =>
          shown (.outcome o)).sum ∧
        health.rejections = (Rejection.all.map fun r => shown (.rejection r)).sum ∧
        health.total = health.nonRejected + health.rejections ∧
        health.failures ≤ health.nonRejected ∧ health.nonRejected ≤ health.total ∧
        health.total ≤ m'.totalCounts.sum ∧
        health.failurePercentage = 100 * health.failures / health.total ∧
        health.failurePercentage ≤ 100 ∧
        (health.total = 0 → health.failurePercentage = 0)) ∧
    (UInt64.size ≤ ((Counter.all ω).map shown).sum → m'.health? trailing now = none) := by
  intro m' shown
  have hfresh := fresh_of_make made
  obtain ⟨hconfig, -, -⟩ := ofConfig_of_make made
  obtain ⟨-, hstart, hres⟩ := ring_ofConfig hconfig
  have hmirrors : m'.ring.Mirrors h := mirrors_replay hfresh.mirrors h
  have hsums : m'.ring.SumsFit (trailingNanos trailing) now :=
    sumsFit_of_unwrapped hmirrors unwrapped _ now
  have hshown : ∀ c, m'.count c trailing now = shown c := fun c => by
    rw [count, SlotRing.sum, Nat.mod_eq_of_lt (hsums c.index)]
    exact m'.exactSum_eq_sum_intervals trailing now c
  have htotal : ∀ c, m'.total c = h.tally fun e => decide (e.counter = c) := fun c => by
    rw [total_replay, hfresh.total, Nat.zero_add, Nat.mod_eq_of_lt (unwrapped c)]
  have hle : ∀ c, shown c ≤ m'.total c := fun c => by
    rw [htotal c]
    exact (m'.exactSum_eq_sum_intervals trailing now c).symm.trans_le
      (exactSum_le_tally hmirrors c _ now)
  have hall : m'.countAll trailing now = ((Counter.all ω).map shown).sum := by
    rw [countAll, addUp_eq_sum]
    exact congrArg (fun counts => ((Counter.all ω).map counts).sum) (funext hshown)
  refine ⟨fun c => ⟨?_, hle c, htotal c⟩, fun hlast => ?_, fun hfits => ?_, fun hwide => ?_⟩
  · rw [count?, if_pos hsums, hshown]
  · have hstart' : m'.ring.start = start :=
      (replay_keeps (f := fun m => m.ring.start) (fun _ _ => rfl) m h).trans hstart
    have hres' : m'.ring.resolution = config.resolutionMillis * 1000000 :=
      (replay_keeps (f := fun m => m.ring.resolution) (fun _ _ => rfl) m h).trans hres
    exact m'.intervals?_eq trailing (by rw [hstart', hres']; exact hlast)
  · have hhealth : m'.health trailing now = .ofCounts shown := by
      rw [health_eq_ofCounts (hall.trans_lt hfits), funext hshown]
    have hfailures := Health.failures_ofCounts_le shown
    have houtcomes : (Health.ofCounts shown).nonRejected ≤ (Health.ofCounts shown).total :=
      Nat.le_add_right _ _
    have hpercentage := Health.failurePercentage_eq (hfailures.trans houtcomes)
    refine ⟨.ofCounts shown, ?_, rfl, rfl, rfl, rfl, hfailures, houtcomes, ?_, hpercentage, ?_,
      fun hzero => ?_⟩
    · rw [health?, if_pos ⟨hsums, hall.trans_lt hfits⟩, hhealth]
    · rw [Health.total_ofCounts]
      exact List.sum_le_sum fun c _ => hle c
    · rw [hpercentage]
      exact Nat.div_le_of_le_mul (by omega)
    · rw [hpercentage, hzero, Nat.div_zero]
  · refine if_neg fun hfits => ?_
    rw [hall] at hfits
    exact Nat.not_lt.mpr hwide hfits.2

/-- Four slots of 100 ms from 100 ms on, with a timeout that is told before the start. -/
def mixed : History Status :=
  [⟨.outcome .success, 5, 120000000⟩, ⟨.outcome .timeout, 1, 30000000⟩,
    ⟨.outcome .error, 3, 210000000⟩, ⟨.rejection .circuitOpen, 2, 250000000⟩]

/-- Four failures among eleven calls are 36 percent. -/
theorem readings_agree_mixed :
    (∀ c, (mixed.tally fun e => decide (e.counter = c)) < UInt64.size) ∧
    max 260000000 100000000 + 100 * 1000000 < UInt64.size ∧
    ∃ m : Metrics Status, make ⟨4, 100⟩ 100000000 = .ok m ∧
      (∃ items, (m.replay mixed).intervals? (.ofMillis 200) 260000000 = some items ∧
        (items.map fun i => i.count (.outcome Status.error)).sum = 3) ∧
      ∃ health, (m.replay mixed).health? (.ofMillis 200) 260000000 = some health ∧
        health.total = 11 ∧ health.failurePercentage = 36 := by
  have hunwrapped : ∀ c, (mixed.tally fun e => decide (e.counter = c)) < UInt64.size := fun c =>
    Nat.lt_of_le_of_lt (History.tally_le fun _ _ _ => rfl)
      (show mixed.tally (fun _ => true) < UInt64.size by decide +kernel)
  have hlast : max 260000000 100000000 + 100 * 1000000 < UInt64.size := by decide
  obtain ⟨m, hm⟩ : ∃ m : Metrics Status, make ⟨4, 100⟩ 100000000 = .ok m := ⟨_, rfl⟩
  have hread : (make (ω := Status) ⟨4, 100⟩ 100000000).toOption.map (fun m =>
      (((Counter.all Status).map fun c =>
          (((m.replay mixed).intervals (.ofMillis 200) 260000000).map fun i => i.count c).sum).sum,
        (m.replay mixed).health? (.ofMillis 200) 260000000,
        (m.replay mixed).count? (.outcome .error) (.ofMillis 200) 260000000)) =
      some (11, some ⟨11, 9, 4, 2⟩, some 3) := by decide +kernel
  rw [hm] at hread
  obtain ⟨hall, hrest⟩ := Prod.mk.inj (Option.some.inj hread)
  obtain ⟨hhealth, hcount⟩ := Prod.mk.inj hrest
  obtain ⟨hcounts, hitems, hreads, -⟩ :=
    readings_agree hm mixed (.ofMillis 200) 260000000 hunwrapped
  have hthree := (hcounts (.outcome .error)).1
  rw [hcount] at hthree
  obtain ⟨health, hsome, -, -, -, -, -, -, -, hpercentage, -, -⟩ :=
    hreads (hall.trans_lt (by decide))
  rw [hhealth] at hsome
  cases hsome
  exact ⟨hunwrapped, hlast, m, hm, ⟨_, hitems hlast, (Option.some.inj hthree).symm⟩, _, hhealth,
    rfl, hpercentage⟩

end Turnstile.Metrics
