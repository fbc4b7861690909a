import Turnstile.Proofs.History

/-!
# Windows over a history

A slot mirrors the calls that were addressed to it: it serves the latest of
their periods and holds what they added in that one. So a period is read in full
until a later one takes its slot, and then reads as nothing. The main statement
gives the count of every window as a sum over the history.
-/

namespace Turnstile

variable {ω : Type}

namespace History

/-- Everything that was added to counter `c` in period `p`. -/
def recorded [DecidableEq ω] (h : History ω) (period : Nat → Nat) (c : Counter ω) (p : Nat) :
    Nat :=
  h.tally fun e => decide (period e.time = p) && decide (e.counter = c)

/-- Everything that was added to counters of one sort in the periods of a set. -/
def recordedIn (h : History ω) (period : Nat → Nat) (periods : Finset Nat)
    (sort : Counter ω → Bool) : Nat :=
  h.tally fun e => decide (period e.time ∈ periods) && sort e.counter

/-- A later period that shares a slot with period `p` occurs. -/
def Overtaken (h : History ω) (period : Nat → Nat) (slots p : Nat) : Prop :=
  ∃ e ∈ h, p < period e.time ∧ slots ∣ period e.time - p

instance (h : History ω) (period : Nat → Nat) (slots p : Nat) :
    Decidable (h.Overtaken period slots p) :=
  inferInstanceAs (Decidable (∃ e ∈ h, p < period e.time ∧ slots ∣ period e.time - p))

/-- The calls addressed to the slot of period `p`. -/
def addressed (h : History ω) (period : Nat → Nat) (slots p : Nat) : History ω :=
  h.filter fun e => period e.time % slots = p % slots

theorem mem_addressed {h : History ω} {period : Nat → Nat} {slots p : Nat} {e : Recording ω} :
    e ∈ h.addressed period slots p ↔ e ∈ h ∧ period e.time % slots = p % slots := by
  simp [addressed]

@[simp] theorem addressed_append (h h' : History ω) (period : Nat → Nat) (slots p : Nat) :
    (h ++ h').addressed period slots p =
      h.addressed period slots p ++ h'.addressed period slots p := by
  simp [addressed]

variable [DecidableEq ω]

theorem recorded_append (h h' : History ω) (period : Nat → Nat) (c : Counter ω) (p : Nat) :
    (h ++ h').recorded period c p = h.recorded period c p + h'.recorded period c p :=
  tally_append h h' _

theorem recorded_singleton (e : Recording ω) (period : Nat → Nat) (c : Counter ω) (p : Nat) :
    recorded [e] period c p = if e.counter = c ∧ period e.time = p then e.count else 0 := by
  simp [recorded, tally_singleton, and_comm]

theorem recorded_eq_zero {h : History ω} {period : Nat → Nat} {p : Nat}
    (hp : ∀ e ∈ h, period e.time ≠ p) (c : Counter ω) : h.recorded period c p = 0 :=
  tally_eq_zero fun e he => by simp [hp e he]

/-- Nothing of period `p` is addressed to another slot. -/
theorem recorded_addressed (h : History ω) (period : Nat → Nat) (slots : Nat) (c : Counter ω)
    (p : Nat) : (h.addressed period slots p).recorded period c p = h.recorded period c p := by
  rw [recorded, recorded, tally, tally, addressed, List.filter_filter]
  congr 2
  refine List.filter_congr fun e _ => ?_
  by_cases hp : period e.time = p <;> simp [hp]

theorem sum_recorded (h : History ω) (period : Nat → Nat) (c : Counter ω)
    (periods : Finset Nat) :
    ∑ p ∈ periods, h.recorded period c p =
      h.recordedIn period periods fun a => decide (a = c) := by
  have hkeys := sum_tally periods.nodup_toList h (fun e => period e.time)
    fun e => decide (e.counter = c)
  simp only [Finset.mem_toList] at hkeys
  rw [recordedIn, ← hkeys, Finset.sum_map_toList]
  rfl

/-- As long as no word wraps, the periods of a set add up to everything added in them. -/
theorem sum_recorded_mod {h : History ω} {period : Nat → Nat} {c : Counter ω}
    {periods : Finset Nat}
    (hfits : h.recordedIn period periods (fun a => decide (a = c)) < UInt64.size) :
    ∑ p ∈ periods, h.recorded period c p % UInt64.size =
      h.recordedIn period periods fun a => decide (a = c) := by
  rw [← sum_recorded] at hfits ⊢
  refine Finset.sum_congr rfl fun p hp => Nat.mod_eq_of_lt ?_
  have hle : h.recorded period c p ≤ ∑ p ∈ periods, h.recorded period c p :=
    Finset.single_le_sum (fun _ _ => Nat.zero_le _) hp
  omega

end History

namespace Slot

theorem get_bump {width : Nat} (counts : Vector UInt64 width) (i j : Fin width) (n : UInt64) :
    (bump counts i n).get j = counts.get j + if i = j then n else 0 := by
  show (bump counts i n)[j.val] = counts[j.val] + if i = j then n else 0
  by_cases h : i = j
  · subst h
    simp [bump]
  · have hv : i.val ≠ j.val := fun he => h (Fin.ext he)
    simp [bump, h, Vector.getElem_set_ne, hv]

/-- Everything that receiving a call can do to a slot. -/
theorem receive_cases {width : Nat} (s : Slot width) (p : Nat) (c : Fin width) (n : UInt64) :
    (s.period = some p ∧ s.receive p c n = ⟨some p, bump s.counts c n⟩) ∨
    ((∀ q, s.period = some q → q < p) ∧
      s.receive p c n = ⟨some p, bump (.replicate width 0) c n⟩) ∨
    (∃ q, s.period = some q ∧ p < q ∧ s.receive p c n = s) := by
  cases hs : s.period with
  | none => simp [receive, arrival, hs]
  | some q =>
    rcases Nat.lt_trichotomy q p with h | h | h
    · right; left
      have hne : q ≠ p := by omega
      have hnot : ¬ p < q := by omega
      simp [receive, arrival, hs, hne, hnot, h]
    · left
      subst h
      simp [receive, arrival, hs]
    · right; right
      have hne : q ≠ p := by omega
      simp [receive, arrival, hs, hne, h]

variable [Outcome ω] [DecidableEq ω]

/-- The slot shows exactly what the calls of `h`, all addressed to it, leave behind. -/
structure Mirrors (s : Slot (Counter.width ω)) (period : Nat → Nat) (h : History ω) : Prop where
  latest : ∀ e ∈ h, ∃ q, s.period = some q ∧ period e.time ≤ q
  served : ∀ q, s.period = some q → ∃ e ∈ h, period e.time = q
  counts : ∀ q, s.period = some q → ∀ c : Counter ω,
    s.counts.get c.index = UInt64.ofNat (h.recorded period c q)

theorem unused_mirrors (period : Nat → Nat) : Mirrors (ω := ω) unused period [] := by
  constructor <;> simp [unused]

theorem bump_recorded (counts : Vector UInt64 (Counter.width ω)) (h : History ω)
    (period : Nat → Nat) (e : Recording ω) (c : Counter ω)
    (hc : counts.get c.index = UInt64.ofNat (h.recorded period c (period e.time))) :
    (bump counts e.counter.index (UInt64.ofNat e.count)).get c.index =
      UInt64.ofNat ((h ++ [e]).recorded period c (period e.time)) := by
  rw [get_bump, hc, History.recorded_append, History.recorded_singleton, UInt64.ofNat_add]
  by_cases he : e.counter = c <;> simp [he, Counter.index_inj]

/-- Receiving one more call keeps the slot in step with its history. -/
theorem Mirrors.receive {s : Slot (Counter.width ω)} {period : Nat → Nat} {h : History ω}
    (hs : s.Mirrors period h) (e : Recording ω) :
    (s.receive (period e.time) e.counter.index (UInt64.ofNat e.count)).Mirrors period
      (h ++ [e]) := by
  rcases receive_cases s (period e.time) e.counter.index (UInt64.ofNat e.count) with
    ⟨hp, hr⟩ | ⟨hp, hr⟩ | ⟨q, hp, hlt, hr⟩
  · -- the slot already serves the period of the call
    rw [hr]
    constructor
    · intro a ha
      refine ⟨period e.time, rfl, ?_⟩
      rcases List.mem_append.mp ha with ha | ha
      · obtain ⟨q, hq, hle⟩ := hs.latest a ha
        rw [hp] at hq
        cases hq
        exact hle
      · rw [List.mem_singleton.mp ha]
    · intro q hq
      cases hq
      exact ⟨e, by simp, rfl⟩
    · intro q hq c
      cases hq
      exact bump_recorded _ h period e c (hs.counts _ hp c)
  · -- the slot is cleared, and no call of this period came before
    rw [hr]
    have hnone : ∀ a ∈ h, period a.time < period e.time := by
      intro a ha
      obtain ⟨q, hq, hle⟩ := hs.latest a ha
      have := hp q hq
      omega
    constructor
    · intro a ha
      refine ⟨period e.time, rfl, ?_⟩
      rcases List.mem_append.mp ha with ha | ha
      · exact Nat.le_of_lt (hnone a ha)
      · rw [List.mem_singleton.mp ha]
    · intro q hq
      cases hq
      exact ⟨e, by simp, rfl⟩
    · intro q hq c
      cases hq
      have hz := History.recorded_eq_zero (fun a ha => Nat.ne_of_lt (hnone a ha)) c
      exact bump_recorded _ h period e c (by rw [hz]; simp)
  · -- the call comes too late
    rw [hr]
    constructor
    · intro a ha
      rcases List.mem_append.mp ha with ha | ha
      · exact hs.latest a ha
      · rw [List.mem_singleton.mp ha]
        exact ⟨q, hp, Nat.le_of_lt hlt⟩
    · intro q' hq'
      obtain ⟨a, ha, hat⟩ := hs.served q' hq'
      exact ⟨a, List.mem_append_left _ ha, hat⟩
    · intro q' hq' c
      have hne : period e.time ≠ q' := by
        rw [hp] at hq'
        cases hq'
        omega
      rw [hs.counts q' hq' c, History.recorded_append, History.recorded_singleton]
      simp [hne]

/-- A mirror reads as the record of a period, or as nothing once a later period took the slot. -/
theorem Mirrors.read {s : Slot (Counter.width ω)} {period : Nat → Nat} {h : History ω}
    (hs : s.Mirrors period h) (p : Nat) (c : Counter ω) :
    (s.read p).get c.index =
      if ∃ e ∈ h, p < period e.time then 0 else UInt64.ofNat (h.recorded period c p) := by
  by_cases hp : s.period = some p
  · have hnone : ¬ ∃ e ∈ h, p < period e.time := by
      rintro ⟨e, he, hlt⟩
      obtain ⟨q, hq, hle⟩ := hs.latest e he
      rw [hp] at hq
      cases hq
      omega
    rw [if_neg hnone, Slot.read, if_pos hp]
    exact hs.counts p hp c
  · rw [Slot.read, if_neg hp]
    split
    · simp
    · rename_i hnone
      have habsent : ∀ e ∈ h, period e.time ≠ p := by
        intro e he hep
        obtain ⟨q, hq, hle⟩ := hs.latest e he
        obtain ⟨a, ha, haq⟩ := hs.served q hq
        have hqp : q ≠ p := fun hqp => hp (hqp ▸ hq)
        exact hnone ⟨a, ha, by omega⟩
      rw [History.recorded_eq_zero habsent]
      simp

end Slot

namespace SlotRing

/-- The slot that period `p` is counted in. -/
def serving {width : Nat} (r : SlotRing width) (p : Nat) : Slot width := r.slots.get (r.place p)

theorem serving_add {width : Nat} (r : SlotRing width) (c : Fin width) (n : UInt64)
    (now p : Nat) :
    (r.add c n now).serving p =
      if r.period now % r.size = p % r.size then (r.serving p).receive (r.period now) c n
      else r.serving p := by
  have hp : p % r.size < r.size := Nat.mod_lt _ r.size_pos
  have hq : r.period now % r.size < r.size := Nat.mod_lt _ r.size_pos
  show (r.slots.set (r.period now % r.size) _ hq)[p % r.size] = _
  by_cases h : r.period now % r.size = p % r.size
  · simp only [place, h, if_true, Vector.getElem_set_self]
    rfl
  · rw [if_neg h, Vector.getElem_set_ne _ _ h]
    rfl

variable [Outcome ω] [DecidableEq ω]

/-- Every slot mirrors the calls addressed to it. -/
def Mirrors (r : SlotRing (Counter.width ω)) (h : History ω) : Prop :=
  ∀ p, (r.serving p).Mirrors r.period (h.addressed r.period r.size p)

theorem create_mirrors (size resolution start : Nat) (hs : 0 < size) (hr : 0 < resolution) :
    Mirrors (ω := ω) (create _ size resolution start hs hr) [] := by
  intro p
  have hu : (create (Counter.width ω) size resolution start hs hr).serving p = .unused :=
    Vector.getElem_replicate _
  rw [hu]
  exact Slot.unused_mirrors _

theorem Mirrors.add {r : SlotRing (Counter.width ω)} {h : History ω} (hr : r.Mirrors h)
    (e : Recording ω) :
    (r.add e.counter.index (UInt64.ofNat e.count) e.time).Mirrors (h ++ [e]) := by
  intro p
  show Slot.Mirrors _ r.period ((h ++ [e]).addressed r.period r.size p)
  rw [serving_add, History.addressed_append]
  by_cases hp : r.period e.time % r.size = p % r.size
  · have he : History.addressed [e] r.period r.size p = [e] := by
      simp [History.addressed, hp]
    rw [if_pos hp, he]
    exact (hr p).receive e
  · have he : History.addressed [e] r.period r.size p = [] := by
      simp [History.addressed, hp]
    rw [if_neg hp, he, List.append_nil]
    exact hr p

/-- A period reads as its record unless it has been overtaken. -/
theorem Mirrors.read {r : SlotRing (Counter.width ω)} {h : History ω} (hr : r.Mirrors h)
    (p : Nat) (c : Counter ω) :
    ((r.read p).get c.index).toNat =
      if h.Overtaken r.period r.size p then 0 else h.recorded r.period c p % UInt64.size := by
  have hover : (∃ e ∈ h.addressed r.period r.size p, p < r.period e.time) ↔
      h.Overtaken r.period r.size p := by
    constructor
    · rintro ⟨e, he, hlt⟩
      obtain ⟨hmem, hmod⟩ := History.mem_addressed.mp he
      exact ⟨e, hmem, hlt, (Nat.modEq_iff_dvd' (Nat.le_of_lt hlt)).mp hmod.symm⟩
    · rintro ⟨e, he, hlt, hdvd⟩
      have hmod : p ≡ r.period e.time [MOD r.size] :=
        (Nat.modEq_iff_dvd' (Nat.le_of_lt hlt)).mpr hdvd
      exact ⟨e, History.mem_addressed.mpr ⟨he, hmod.symm⟩, hlt⟩
  have hread := (hr p).read p c
  rw [History.recorded_addressed] at hread
  show (((r.serving p).read p).get c.index).toNat = _
  rw [hread]
  simp only [hover]
  split <;> simp

/-- A window holds what was recorded in its periods, those left out that have been overtaken. -/
theorem Mirrors.exactSum {r : SlotRing (Counter.width ω)} {h : History ω} (hr : r.Mirrors h)
    (c : Counter ω) (trailing now : Nat) :
    r.exactSum c.index trailing now =
      ∑ p ∈ Finset.Icc (r.firstPeriod trailing now) (r.period now) with
        ¬ h.Overtaken r.period r.size p, h.recorded r.period c p % UInt64.size := by
  have hsum : r.exactSum c.index trailing now =
      ∑ p ∈ Finset.Icc (r.firstPeriod trailing now) (r.period now),
        ((r.read p).get c.index).toNat := by
    rw [Nat.Icc_eq_range']
    rfl
  rw [hsum, Finset.sum_filter]
  refine Finset.sum_congr rfl fun p _ => ?_
  rw [hr.read p c]
  by_cases ho : h.Overtaken r.period r.size p <;> simp [ho]

omit [Outcome ω] [DecidableEq ω] in
/-- Nothing in a window is overtaken by a period that does not come after the window. -/
theorem not_overtaken {width : Nat} (r : SlotRing width) {h : History ω} {trailing now p : Nat}
    (hlast : ∀ e ∈ h, r.period e.time ≤ r.period now) (hp : r.firstPeriod trailing now ≤ p) :
    ¬ h.Overtaken r.period r.size p := by
  rintro ⟨e, he, hlt, hdvd⟩
  have hle := hlast e he
  have hsize : r.size ≤ r.period e.time - p := Nat.le_of_dvd (by omega) hdvd
  have hperiods : r.periodsIn trailing ≤ r.size := Nat.min_le_right _ _
  simp only [firstPeriod] at hp
  omega

end SlotRing

namespace Metrics

variable [Outcome ω]

/-- What a single call keeps, a run of calls keeps. -/
theorem replay_keeps {α : Type} {f : Metrics ω → α} (hf : ∀ m e, f (m.record e) = f m)
    (m : Metrics ω) (h : History ω) : f (m.replay h) = f m := by
  induction h generalizing m with
  | nil => rfl
  | cons e h ih => rw [replay_cons, ih, hf]

@[simp] theorem period_replay (m : Metrics ω) (h : History ω) :
    (m.replay h).ring.period = m.ring.period :=
  replay_keeps (f := fun m => m.ring.period) (fun _ _ => rfl) m h

@[simp] theorem size_replay (m : Metrics ω) (h : History ω) :
    (m.replay h).ring.size = m.ring.size :=
  replay_keeps (f := fun m => m.ring.size) (fun _ _ => rfl) m h

@[simp] theorem firstPeriod_replay (m : Metrics ω) (h : History ω) (trailing now : Nat) :
    (m.replay h).ring.firstPeriod trailing now = m.ring.firstPeriod trailing now :=
  replay_keeps (f := fun m => m.ring.firstPeriod trailing now) (fun _ _ => rfl) m h

end Metrics

namespace MetricsConfig

/-- The period of a time on metrics that began at `start`. -/
def periodAt (c : MetricsConfig) (start time : Nat) : Nat :=
  (time - start) / (c.resolutionMillis * 1000000)

/-- How many periods a window covers. -/
def reach (c : MetricsConfig) (trailing : Duration) : Nat :=
  min c.slotsToTrack (max 1 (trailing.nanos ⌈/⌉ (c.resolutionMillis * 1000000)))

/-- The last `k` periods up to that of `now`. -/
def lastPeriods (c : MetricsConfig) (start k now : Nat) : Finset Nat :=
  Finset.Icc (c.periodAt start now + 1 - k) (c.periodAt start now)

/-- The periods of the window that ends at `now`. -/
def windowAt (c : MetricsConfig) (start : Nat) (trailing : Duration) (now : Nat) : Finset Nat :=
  c.lastPeriods start (c.reach trailing) now

/-- What a window holds of a counter: in each of its periods that no later one has taken the slot
of, everything that was added there, as far as a word keeps it. -/
def held [DecidableEq ω] (config : MetricsConfig) (start : Nat) (h : History ω) (c : Counter ω)
    (trailing : Duration) (now : Nat) : Nat :=
  ∑ p ∈ config.windowAt start trailing now with
    ¬ h.Overtaken (config.periodAt start) config.slotsToTrack p,
    h.recorded (config.periodAt start) c p % UInt64.size

/-- A window holds no more than was added in its periods. -/
theorem held_le_recordedIn [DecidableEq ω] (config : MetricsConfig) (start : Nat) (h : History ω)
    (c : Counter ω) (trailing : Duration) (now : Nat) :
    config.held start h c trailing now ≤
      h.recordedIn (config.periodAt start) (config.windowAt start trailing now)
        fun a => decide (a = c) :=
  calc config.held start h c trailing now
      ≤ ∑ p ∈ config.windowAt start trailing now with
          ¬ h.Overtaken (config.periodAt start) config.slotsToTrack p,
          h.recorded (config.periodAt start) c p :=
        Finset.sum_le_sum fun _ _ => Nat.mod_le _ _
    _ ≤ ∑ p ∈ config.windowAt start trailing now, h.recorded (config.periodAt start) c p :=
        Finset.sum_le_sum_of_subset (Finset.filter_subset _ _)
    _ = h.recordedIn (config.periodAt start) (config.windowAt start trailing now)
          fun a => decide (a = c) := h.sum_recorded _ c _

theorem held_le [DecidableEq ω] (config : MetricsConfig) (start : Nat) (h : History ω)
    (c : Counter ω) (trailing : Duration) (now : Nat) :
    config.held start h c trailing now ≤ h.tally fun _ => true :=
  (config.held_le_recordedIn start h c trailing now).trans (History.tally_le fun _ _ _ => rfl)

end MetricsConfig

namespace Metrics

variable [Outcome ω] [DecidableEq ω]

/-- A run of calls, from metrics in step with an earlier history. -/
theorem mirrors_replay {m : Metrics ω} {g : History ω} (hm : m.ring.Mirrors g)
    (h : History ω) : (m.replay h).ring.Mirrors (g ++ h) := by
  induction h generalizing m g with
  | nil => simpa using hm
  | cons e h ih =>
    have he : (m.record e).ring.Mirrors (g ++ [e]) := hm.add e
    simpa using ih he

/-- Metrics laid out by a configuration that have counted nothing yet. -/
structure Fresh (m : Metrics ω) (config : MetricsConfig) (start : Nat) : Prop where
  period : m.ring.period = config.periodAt start
  size : m.ring.size = config.slotsToTrack
  window : ∀ trailing now, trailing.nanos < UInt64.size →
    Finset.Icc (m.ring.firstPeriod (trailingNanos trailing) now) (m.ring.period now) =
      config.windowAt start trailing now
  total : ∀ c, m.total c = 0
  mirrors : m.ring.Mirrors []

theorem ofConfig_fresh {config : MetricsConfig} (valid : config.fault? = none) (start : Nat) :
    ∃ m : Metrics ω, ofConfig config start = .ok m ∧ m.Fresh config start := by
  have hs := MetricsConfig.slots_pos valid
  have hr := MetricsConfig.resolution_pos valid
  refine ⟨⟨.create _ config.slotsToTrack (config.resolutionMillis * 1000000) start hs hr,
    .replicate _ 0⟩, ?_, ?_⟩
  · unfold ofConfig
    split
    · rename_i fault hf
      rw [valid] at hf
      cases hf
    · rfl
  · constructor
    · rfl
    · rfl
    · intro trailing now ht
      have hmod : trailingNanos trailing = trailing.nanos := Nat.mod_eq_of_lt ht
      simp only [SlotRing.firstPeriod, SlotRing.periodsIn, SlotRing.period, SlotRing.create,
        MetricsConfig.windowAt, MetricsConfig.lastPeriods, MetricsConfig.reach,
        MetricsConfig.periodAt, hmod, Nat.ceilDiv_eq_add_pred_div, Nat.max_comm, Nat.min_comm]
    · intro c
      simp [Metrics.total]
    · exact SlotRing.create_mirrors _ _ _ hs hr

namespace Fresh

variable {m : Metrics ω} {config : MetricsConfig} {start : Nat} {trailing : Duration} {now : Nat}

/-- The counts of a window after any run of calls. -/
theorem exactSum_eq (hm : m.Fresh config start) (h : History ω) (c : Counter ω)
    (ht : trailing.nanos < UInt64.size) :
    (m.replay h).ring.exactSum c.index (trailingNanos trailing) now =
      config.held start h c trailing now := by
  have hr : (m.replay h).ring.Mirrors h := mirrors_replay hm.mirrors h
  rw [hr.exactSum c (trailingNanos trailing) now, MetricsConfig.held,
    ← hm.window trailing now ht, ← hm.period, ← hm.size]
  simp

theorem count_eq (hm : m.Fresh config start) (h : History ω) (c : Counter ω)
    (ht : trailing.nanos < UInt64.size) :
    (m.replay h).count c trailing now = config.held start h c trailing now % UInt64.size := by
  rw [count, SlotRing.sum, hm.exactSum_eq h c ht]

theorem sumsFit_iff (hm : m.Fresh config start) (h : History ω)
    (ht : trailing.nanos < UInt64.size) :
    (m.replay h).ring.SumsFit (trailingNanos trailing) now ↔
      ∀ c : Counter ω, config.held start h c trailing now < UInt64.size := by
  constructor
  · intro fits c
    rw [← hm.exactSum_eq h c ht]
    exact fits c.index
  · intro fits i
    obtain ⟨c, rfl⟩ := Counter.index_surjective i
    rw [hm.exactSum_eq h c ht]
    exact fits c

/-- Nothing in a window is overtaken by a period that does not come after the window. -/
theorem not_overtaken (hm : m.Fresh config start) {h : History ω} {p : Nat}
    (hlast : ∀ e ∈ h, config.periodAt start e.time ≤ config.periodAt start now)
    (ht : trailing.nanos < UInt64.size) (hp : p ∈ config.windowAt start trailing now) :
    ¬ h.Overtaken (config.periodAt start) config.slotsToTrack p := by
  rw [← hm.window trailing now ht] at hp
  rw [← hm.period] at hlast ⊢
  rw [← hm.size]
  exact m.ring.not_overtaken hlast (Finset.mem_Icc.mp hp).1

/-- While no call lies in a later period than the window, nothing is left out. -/
theorem held_of_le (hm : m.Fresh config start) {h : History ω}
    (hlast : ∀ e ∈ h, config.periodAt start e.time ≤ config.periodAt start now) (c : Counter ω)
    (ht : trailing.nanos < UInt64.size) :
    config.held start h c trailing now =
      ∑ p ∈ config.windowAt start trailing now,
        h.recorded (config.periodAt start) c p % UInt64.size := by
  rw [MetricsConfig.held, Finset.filter_true_of_mem]
  exact fun p hp => hm.not_overtaken hlast ht hp

/-- While no word wraps either, the window counts all that was added in its periods. -/
theorem held_eq_recordedIn (hm : m.Fresh config start) {h : History ω}
    (hlast : ∀ e ∈ h, config.periodAt start e.time ≤ config.periodAt start now) {c : Counter ω}
    (ht : trailing.nanos < UInt64.size)
    (hfits : h.recordedIn (config.periodAt start) (config.windowAt start trailing now)
      (fun a => decide (a = c)) < UInt64.size) :
    config.held start h c trailing now =
      h.recordedIn (config.periodAt start) (config.windowAt start trailing now)
        fun a => decide (a = c) := by
  rw [hm.held_of_le hlast c ht, History.sum_recorded_mod hfits]

end Fresh

omit [DecidableEq ω] in
theorem ofConfig_of_make {config : MetricsConfig} {start : Nat} {m : Metrics ω}
    (made : make config start = .ok m) :
    ofConfig config start = .ok m ∧ config.fault? = none ∧ config.FitsWord := by
  unfold make at made
  cases hm : ofConfig (ω := ω) config start with
  | error fault =>
    rw [hm] at made
    cases made
  | ok m' =>
    have valid : config.fault? = none := by
      unfold ofConfig at hm
      split at hm
      · cases hm
      · assumption
    simp only [hm] at made
    split at made
    · cases made
      exact ⟨rfl, valid, ‹_›⟩
    · cases made

/-- Metrics are built from a faultless configuration exactly if a word holds a period. -/
theorem make_fresh {config : MetricsConfig} (valid : config.fault? = none)
    (fits : config.FitsWord) (start : Nat) :
    ∃ m : Metrics ω, make config start = .ok m ∧ m.Fresh config start := by
  obtain ⟨m, hm, hfresh⟩ := ofConfig_fresh (ω := ω) valid start
  exact ⟨m, by simp [make, hm, fits], hfresh⟩

theorem make_overflow {config : MetricsConfig} (valid : config.fault? = none)
    (wide : ¬ config.FitsWord) (start : Nat) :
    make (ω := ω) config start = .error .overflow := by
  obtain ⟨m, hm, -⟩ := ofConfig_fresh (ω := ω) valid start
  simp [make, hm, wide]

theorem fresh_of_make {config : MetricsConfig} {start : Nat} {m : Metrics ω}
    (made : make config start = .ok m) : m.Fresh config start := by
  obtain ⟨hm, valid, -⟩ := ofConfig_of_make made
  obtain ⟨m', hm', hfresh⟩ := ofConfig_fresh (ω := ω) valid start
  rw [hm] at hm'
  cases hm'
  exact hfresh

/-- Every faultless configuration makes metrics, and a window of theirs counts all that it holds
unless that outgrows a word. -/
def WindowsCount (ω : Type) [Outcome ω] [DecidableEq ω] : Prop :=
  ∀ (config : MetricsConfig) (start : Nat), config.fault? = none →
    ∃ m : Metrics ω, make config start = .ok m ∧
      ∀ (h : History ω) (trailing : Duration) (now : Nat), trailing.nanos < UInt64.size →
        (∀ c, config.held start h c trailing now < UInt64.size) →
        ∀ c, (m.replay h).count? c trailing now = some (config.held start h c trailing now)

/-- A period of 213 days that passes for faultless, and whose nanoseconds do not fit a word. -/
theorem long_period_overflows : ¬ WindowsCount Status := by
  intro hcount
  have hvalid : MetricsConfig.fault? ⟨4, 18446744073710⟩ = none := by decide
  obtain ⟨m, hm, -⟩ := hcount ⟨4, 18446744073710⟩ 0 hvalid
  rw [make_overflow hvalid (by decide) 0] at hm
  cases hm

/-- No metrics are made of periods whose nanoseconds do not fit a word. All others count what a
window holds: in each of its periods that no later one has taken the slot of, everything that was
added there. -/
theorem count_replay (config : MetricsConfig) (valid : config.fault? = none) (start : Nat) :
    (¬ config.FitsWord → make (ω := ω) config start = .error .overflow) ∧
    (config.FitsWord → ∃ m : Metrics ω, make config start = .ok m ∧
      ∀ (h : History ω) (trailing : Duration) (now : Nat), trailing.nanos < UInt64.size →
        let counted := fun c => ∑ p ∈ config.windowAt start trailing now with
          ¬ h.Overtaken (config.periodAt start) config.slotsToTrack p,
          h.recorded (config.periodAt start) c p % UInt64.size
        (∀ c, (m.replay h).count c trailing now = counted c % UInt64.size) ∧
        ((∀ c, counted c < UInt64.size) →
          ∀ c, (m.replay h).count? c trailing now = some (counted c)) ∧
        ((∀ e ∈ h, config.periodAt start e.time ≤ config.periodAt start now) → ∀ c,
          counted c = ∑ p ∈ config.windowAt start trailing now,
            h.recorded (config.periodAt start) c p % UInt64.size ∧
          (h.recordedIn (config.periodAt start) (config.windowAt start trailing now)
              (fun a => decide (a = c)) < UInt64.size →
            counted c = h.recordedIn (config.periodAt start)
              (config.windowAt start trailing now) fun a => decide (a = c)))) := by
  refine ⟨fun wide => make_overflow valid wide start, fun fits => ?_⟩
  obtain ⟨m, hm, hfresh⟩ := make_fresh (ω := ω) valid fits start
  refine ⟨m, hm, fun h trailing now ht => ?_⟩
  intro counted
  have hcount : ∀ c, (m.replay h).count c trailing now = counted c % UInt64.size :=
    fun c => hfresh.count_eq h c ht
  refine ⟨hcount, fun hall c => ?_, fun hlast c => ⟨hfresh.held_of_le hlast c ht, fun hc =>
    hfresh.held_eq_recordedIn hlast ht hc⟩⟩
  rw [count?, if_pos ((hfresh.sumsFit_iff h ht).mpr hall), hcount, Nat.mod_eq_of_lt (hall c)]

/-- Four slots of 100 ms from 100 ms on, used before the start, out of order, too late, around
the ring and with a count of zero. -/
def jumbled : History Status :=
  [⟨.outcome .error, 3, 0⟩, ⟨.outcome .success, 1, 250000000⟩, ⟨.outcome .error, 2, 550000000⟩,
    ⟨.outcome .error, 5, 120000000⟩, ⟨.rejection .circuitOpen, 0, 650000000⟩,
    ⟨.outcome .error, 7, 350000000⟩]

theorem count_replay_jumbled :
    MetricsConfig.fault? ⟨4, 100⟩ = none ∧ MetricsConfig.FitsWord ⟨4, 100⟩ ∧
    (Duration.ofMillis 400).nanos < UInt64.size ∧
    ∃ m : Metrics Status, make ⟨4, 100⟩ 100000000 = .ok m ∧
      (m.replay jumbled).count? (.outcome .success) (.ofMillis 400) 500000000 = some 0 ∧
      (∀ e ∈ jumbled, MetricsConfig.periodAt ⟨4, 100⟩ 100000000 e.time ≤
        MetricsConfig.periodAt ⟨4, 100⟩ 100000000 650000000) ∧
      (m.replay jumbled).count? (.outcome .error) (.ofMillis 400) 650000000 = some 9 := by
  have hfits : MetricsConfig.FitsWord ⟨4, 100⟩ := by decide
  have ht : (Duration.ofMillis 400).nanos < UInt64.size := by decide
  have hlast : ∀ e ∈ jumbled, MetricsConfig.periodAt ⟨4, 100⟩ 100000000 e.time ≤
      MetricsConfig.periodAt ⟨4, 100⟩ 100000000 650000000 := by decide
  obtain ⟨m, hm, hcount⟩ := (count_replay (ω := Status) ⟨4, 100⟩ rfl 100000000).2 hfits
  have hsmall : ∀ now c, MetricsConfig.held ⟨4, 100⟩ 100000000 jumbled c (.ofMillis 400) now <
      UInt64.size := fun now c =>
    Nat.lt_of_le_of_lt (MetricsConfig.held_le _ _ _ _ _ _)
      (show jumbled.tally (fun _ => true) < UInt64.size by decide +kernel)
  obtain ⟨-, hearly, -⟩ := hcount jumbled (.ofMillis 400) 500000000 ht
  obtain ⟨-, hlate, hall⟩ := hcount jumbled (.ofMillis 400) 650000000 ht
  refine ⟨rfl, hfits, ht, m, hm, ?_, hlast, ?_⟩
  · rw [hearly (hsmall _)]
    decide +kernel
  · rw [hlate (hsmall _), (hall hlast _).2 (by decide +kernel)]
    decide +kernel

end Metrics

end Turnstile
