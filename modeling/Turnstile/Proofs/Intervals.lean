import Turnstile.Proofs.Window

/-!
# Intervals tile the window

The intervals of a window are its periods, oldest first. Main statement: how many there are, that
each one ends where the next one begins and the last one at the time of reading, and that an event
shows in no interval but the one whose period contains its time.
-/

namespace Turnstile

variable {ω : Type}

namespace SlotRing

variable {width : Nat} (r : SlotRing width)

/-- A time belongs to the period that contains it, and a time before the start to the first one. -/
theorem period_eq_iff {time p : Nat} :
    r.period time = p ↔ r.periodStart p ≤ max time r.start ∧
      max time r.start < r.periodStart p + r.resolution := by
  have hres := r.resolution_pos
  rw [period, periodStart, Nat.div_eq_iff hres]
  generalize hp : p * r.resolution = q
  omega

theorem periodStart_succ (p : Nat) : r.periodStart (p + 1) = r.periodStart p + r.resolution := by
  rw [periodStart, periodStart, Nat.succ_mul, Nat.add_assoc]

theorem periodStart_mono {p q : Nat} (h : p ≤ q) : r.periodStart p ≤ r.periodStart q :=
  Nat.add_le_add_left (Nat.mul_le_mul_right _ h) _

theorem periodStart_period (now : Nat) : r.periodStart (r.period now) ≤ max now r.start ∧
    max now r.start < r.periodStart (r.period now) + r.resolution := r.period_eq_iff.mp rfl

theorem length_window (trailing now : Nat) :
    (r.window trailing now).length = min (r.periodsIn trailing) (r.period now + 1) := by
  simp only [window, firstPeriod, List.length_range']
  omega

theorem getElem_window {trailing now i : Nat} (hi : i < (r.window trailing now).length) :
    (r.window trailing now)[i] = r.period now + 1 - (r.window trailing now).length + i := by
  rw [length_window] at hi
  simp only [length_window]
  simp only [window, firstPeriod, List.getElem_range', Nat.one_mul]
  omega

theorem periodsIn_eq (trailing : Nat) :
    r.periodsIn trailing = min r.size (max 1 (trailing ⌈/⌉ r.resolution)) := by
  rw [periodsIn, Nat.ceilDiv_eq_add_pred_div, Nat.max_comm, Nat.min_comm]

theorem periodsIn_pos (trailing : Nat) : 0 < r.periodsIn trailing := by
  have := r.size_pos
  simp only [periodsIn]
  omega

end SlotRing

namespace Metrics

variable [Outcome ω]

/-- What an interval shows of a counter. -/
def Interval.count (i : Interval) (c : Counter ω) : Nat := i.counts.getD c.index 0

theorem count_interval (m : Metrics ω) (now p : Nat) (c : Counter ω) :
    (m.interval now p).count c = ((m.ring.read p).get c.index).toNat := by
  have hlt : c.index.val < (m.ring.read p).toList.length := by simp
  simp only [Interval.count, interval, List.getD_eq_getElem?_getD, List.getElem?_map,
    List.getElem?_eq_getElem hlt]
  rfl

/-- An interval before the last one is a whole period. -/
theorem stop_interval_of_lt (m : Metrics ω) {now p : Nat} (h : p < m.ring.period now)
    (fits : max now m.ring.start < UInt64.size) :
    (m.interval now p).stop = m.ring.periodStart (p + 1) := by
  have hmono := m.ring.periodStart_mono (show p + 1 ≤ m.ring.period now from h)
  have hnow := (m.ring.periodStart_period now).1
  have hsucc := m.ring.periodStart_succ p
  have hpos := m.ring.resolution_pos
  -- the period of `now` is not the first one, so `now` is not before the start
  have hstart : m.ring.start ≤ m.ring.periodStart p := Nat.le_add_right _ _
  have hword : m.ring.periodStart p + m.ring.resolution < UInt64.size := by omega
  simp only [interval, Nat.mod_eq_of_lt hword]
  omega

/-- The last interval ends at the time of reading. -/
theorem stop_interval_period (m : Metrics ω) {now : Nat}
    (fits : max now m.ring.start + m.ring.resolution < UInt64.size) :
    (m.interval now (m.ring.period now)).stop = max now m.ring.start := by
  have hnow := m.ring.periodStart_period now
  have hstart : m.ring.start ≤ m.ring.periodStart (m.ring.period now) := Nat.le_add_right _ _
  have hpos := m.ring.resolution_pos
  have hearly : now < m.ring.start → m.ring.periodStart (m.ring.period now) = m.ring.start := by
    intro h
    rw [SlotRing.period, Nat.sub_eq_zero_of_le (Nat.le_of_lt h), Nat.zero_div,
      SlotRing.periodStart, Nat.zero_mul, Nat.add_zero]
  have hword : m.ring.periodStart (m.ring.period now) + m.ring.resolution < UInt64.size := by omega
  simp only [interval, Nat.mod_eq_of_lt hword]
  omega

theorem length_intervals (m : Metrics ω) (trailing : Duration) (now : Nat) :
    (m.intervals trailing now).length =
      min (m.ring.periodsIn (trailingNanos trailing)) (m.ring.period now + 1) := by
  rw [intervals, List.length_map, SlotRing.length_window]

/-- The intervals by their places in the list. -/
theorem getElem_intervals (m : Metrics ω) {trailing : Duration} {now i : Nat}
    (hi : i < (m.intervals trailing now).length) :
    (m.intervals trailing now)[i] =
      m.interval now (m.ring.period now + 1 - (m.intervals trailing now).length + i) := by
  have hlength : (m.intervals trailing now).length =
      (m.ring.window (trailingNanos trailing) now).length := by rw [intervals, List.length_map]
  have hlt : i < (m.ring.window (trailingNanos trailing) now).length := hlength ▸ hi
  rw [hlength, ← m.ring.getElem_window hlt]
  exact List.getElem_map _

theorem length_intervals_le (m : Metrics ω) (trailing : Duration) (now : Nat) :
    (m.intervals trailing now).length ≤ m.ring.period now + 1 := by
  rw [length_intervals]
  exact Nat.min_le_right _ _

theorem length_intervals_pos (m : Metrics ω) (trailing : Duration) (now : Nat) :
    0 < (m.intervals trailing now).length := by
  have := m.ring.periodsIn_pos (trailingNanos trailing)
  rw [length_intervals]
  omega

/-- Each interval knows how many are left. -/
theorem remaining_getElem (m : Metrics ω) {trailing : Duration} {now i : Nat}
    (hi : i < (m.intervals trailing now).length) :
    (m.intervals trailing now)[i].remaining = (m.intervals trailing now).length - i := by
  have hle := m.length_intervals_le trailing now
  rw [m.getElem_intervals hi]
  simp only [interval]
  omega

/-- Intervals are contiguous. -/
theorem stop_getElem (m : Metrics ω) {trailing : Duration} {now i : Nat}
    (fits : max now m.ring.start < UInt64.size)
    (hi : i + 1 < (m.intervals trailing now).length) :
    (m.intervals trailing now)[i].stop = (m.intervals trailing now)[i + 1].start := by
  have hle := m.length_intervals_le trailing now
  rw [m.getElem_intervals (Nat.lt_of_succ_lt hi), m.getElem_intervals hi,
    m.stop_interval_of_lt (by omega) fits]
  rfl

theorem getLast?_intervals (m : Metrics ω) (trailing : Duration) (now : Nat) :
    (m.intervals trailing now).getLast? = some (m.interval now (m.ring.period now)) := by
  have hpos := m.length_intervals_pos trailing now
  have hle := m.length_intervals_le trailing now
  have hlast : (m.intervals trailing now).length - 1 < (m.intervals trailing now).length := by omega
  rw [List.getLast?_eq_getElem?, List.getElem?_eq_getElem hlast, m.getElem_intervals hlast]
  congr 2
  omega

/-- Every interval is the one of its period. -/
theorem eq_interval_of_mem {m : Metrics ω} {trailing : Duration} {now : Nat} {item : Interval}
    (h : item ∈ m.intervals trailing now) :
    item = m.interval now (m.ring.period item.start) := by
  obtain ⟨p, -, rfl⟩ := List.mem_map.mp h
  have hp : m.ring.period (m.ring.periodStart p) = p := by
    have hpos := m.ring.resolution_pos
    have hstart : m.ring.start ≤ m.ring.periodStart p := Nat.le_add_right _ _
    rw [SlotRing.period_eq_iff]
    omega
  exact congrArg (m.interval now) hp.symm

theorem ring_ofConfig {config : MetricsConfig} {start : Nat} {m : Metrics ω}
    (h : ofConfig config start = .ok m) :
    m.ring.size = config.slotsToTrack ∧ m.ring.start = start ∧
      m.ring.resolution = config.resolutionMillis * 1000000 := by
  unfold ofConfig at h
  split at h
  · cases h
  · cases h
    exact ⟨rfl, rfl, rfl⟩

variable [DecidableEq ω]

/-- An interval shows what was recorded at the times of its period, unless its slot was taken. -/
theorem count_of_mem {m : Metrics ω} {h : History ω} (hm : m.ring.Mirrors h) {trailing : Duration}
    {now : Nat} {item : Interval} (hitem : item ∈ m.intervals trailing now) (c : Counter ω) :
    item.count c =
      if h.Overtaken m.ring.period m.ring.size (m.ring.period item.start) then 0
      else (h.tally fun e => decide (e.counter = c) &&
        decide (item.start ≤ max e.time m.ring.start ∧
          max e.time m.ring.start < item.start + m.ring.resolution)) % UInt64.size := by
  have heq := eq_interval_of_mem hitem
  have hstart : item.start = m.ring.periodStart (m.ring.period item.start) :=
    congrArg Interval.start heq
  rw [heq, count_interval, hm.read _ c, ← heq]
  congr 2
  refine History.tally_congr fun e _ => ?_
  rw [Bool.and_comm]
  simp only [m.ring.period_eq_iff]
  rw [← hstart]

/-- The intervals of a window are as many as the periods that it covers, as far as there were so
many. Each one ends where the next one begins, the last one at the time of reading, and an interval
shows the events whose times lie in its period, or nothing if a later period has taken its slot. -/
theorem intervals_tile (config : MetricsConfig) (valid : config.fault? = none) (start : Nat) :
    ∃ m : Metrics ω, ofConfig config start = .ok m ∧
      ∀ (h : History ω) (trailing : Duration) (now : Nat),
        let width := config.resolutionMillis * 1000000
        let period := (now - start) / width
        let k := min config.slotsToTrack (max 1 ((trailing.nanos % UInt64.size) ⌈/⌉ width))
        let items := (m.replay h).intervals trailing now
        max now start + width < UInt64.size →
        items.length = min k (period + 1) ∧
        (∀ i (hi : i < items.length),
          items[i].remaining = items.length - i ∧
          items[i].start = start + (period + 1 - items.length + i) * width ∧
          items[i].start + width < UInt64.size) ∧
        (∀ i (hi : i + 1 < items.length),
          items[i].stop = items[i].start + width ∧ items[i].stop = items[i + 1].start) ∧
        (∃ last, items.getLast? = some last ∧ last.stop = max now start) ∧
        ∀ item ∈ items, ∀ c,
          item.count c =
            if h.Overtaken (config.periodAt start) config.slotsToTrack
                (config.periodAt start item.start) then 0
            else (h.tally fun e => decide (e.counter = c) &&
              decide (item.start ≤ max e.time start ∧ max e.time start < item.start + width)) %
              UInt64.size := by
  obtain ⟨m, hm, hfresh⟩ := ofConfig_fresh (ω := ω) valid start
  obtain ⟨hsize, hstart, hres⟩ := ring_ofConfig hm
  refine ⟨m, hm, fun h trailing now => ?_⟩
  intro width period k items hfits
  have hmirrors : (m.replay h).ring.Mirrors h := mirrors_replay hfresh.mirrors h
  have hsize' : (m.replay h).ring.size = config.slotsToTrack := by rw [size_replay, hsize]
  have hstart' : (m.replay h).ring.start = start :=
    (replay_keeps (f := fun m => m.ring.start) (fun _ _ => rfl) m h).trans hstart
  have hres' : (m.replay h).ring.resolution = width :=
    (replay_keeps (f := fun m => m.ring.resolution) (fun _ _ => rfl) m h).trans hres
  have hperiod : (m.replay h).ring.period = config.periodAt start := by
    rw [period_replay, hfresh.period]
  have hlength : items.length = min k (period + 1) := by
    rw [length_intervals, SlotRing.periodsIn_eq, hsize', hres', hperiod]
    rfl
  have hstarts : ∀ i (hi : i < items.length),
      items[i].start = start + (period + 1 - items.length + i) * width := by
    intro i hi
    rw [getElem_intervals _ hi]
    show (m.replay h).ring.periodStart _ = _
    rw [SlotRing.periodStart, hstart', hres', hperiod]
    rfl
  have hlatest : start + period * width ≤ max now start := by
    have hfloor : period * width ≤ now - start := Nat.div_mul_le_self _ _
    generalize period * width = elapsed at hfloor ⊢
    omega
  refine ⟨hlength, fun i hi => ⟨remaining_getElem _ hi, hstarts i hi, ?_⟩, fun i hi => ?_,
    ⟨_, getLast?_intervals _ trailing now, ?_⟩, fun item hitem c => ?_⟩
  · have hle : (period + 1 - items.length + i) * width ≤ period * width :=
      Nat.mul_le_mul_right _ (by omega)
    have hbegun : items[i].start ≤ max now start :=
      (hstarts i hi).trans_le ((Nat.add_le_add_left hle start).trans hlatest)
    exact Nat.lt_of_le_of_lt (Nat.add_le_add_right hbegun width) hfits
  · have hstop : items[i].stop = items[i + 1].start :=
      stop_getElem _ (hstart' ▸ Nat.lt_of_le_of_lt (Nat.le_add_right _ _) hfits) hi
    refine ⟨?_, hstop⟩
    rw [hstop, hstarts i (by omega), hstarts (i + 1) hi, ← Nat.add_assoc, Nat.succ_mul,
      Nat.add_assoc]
  · rw [stop_interval_period _ (by rw [hstart', hres']; exact hfits), hstart']
  · have hcount := count_of_mem hmirrors hitem c
    rwa [hperiod, hsize', hstart', hres'] at hcount

/-- Three slots of 100 ms from 100 ms on, read within the fifth period: the last interval is cut
off, and of the errors it shows only those of its own period. -/
theorem intervals_tile_jumbled :
    MetricsConfig.fault? ⟨3, 100⟩ = none ∧
    max 530000000 100000000 + 100 * 1000000 < UInt64.size ∧
    ∃ m : Metrics Status, ofConfig ⟨3, 100⟩ 100000000 = .ok m ∧
      let items := (m.replay jumbled).intervals (.ofMillis 1000) 530000000
      items.length = 3 ∧
      (∀ i (hi : i < items.length), items[i].start = 300000000 + i * 100000000) ∧
      (∃ last, items.getLast? = some last ∧ last.stop = 530000000) ∧
      ∀ item ∈ items, item.start = 500000000 → item.count (.outcome Status.error) = 2 := by
  obtain ⟨m, hm, htile⟩ := intervals_tile (ω := Status) ⟨3, 100⟩ rfl 100000000
  have hfits : max 530000000 100000000 + 100 * 1000000 < UInt64.size := by decide
  refine ⟨rfl, hfits, m, hm, ?_⟩
  obtain ⟨hlength, hstarts, -, ⟨last, hlast, hstop⟩, hcounts⟩ :=
    htile jumbled (.ofMillis 1000) 530000000 hfits
  intro items
  have hthree : items.length = 3 := hlength.trans (by decide +kernel)
  refine ⟨hthree, fun i hi => ?_, ⟨last, hlast, hstop.trans (by decide)⟩,
    fun item hitem hstart => ?_⟩
  · have hwidth : MetricsConfig.resolutionMillis ⟨3, 100⟩ * 1000000 = 100000000 := rfl
    rw [(hstarts i hi).2.1, hthree, hwidth]
    omega
  · rw [hcounts item hitem, hstart]
    decide +kernel

end Metrics

end Turnstile
