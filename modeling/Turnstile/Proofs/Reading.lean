import Turnstile.Proofs.Window

/-!
# Health read off a history

While no word wraps and nothing later has been counted, the health of a window
is four sums over the history, one for each sort of counter.
-/

namespace Turnstile

variable {ω : Type}

namespace Outcome

variable [Outcome ω]

theorem variants_nodup : (variants : List ω).Nodup := by
  refine List.Nodup.of_map ordinal ?_
  rw [map_ordinal]
  exact List.nodup_range

end Outcome

theorem Rejection.all_nodup : Rejection.all.Nodup := by decide

namespace Counter

def isOutcome : Counter ω → Bool
  | outcome _ => true
  | rejection _ => false

def isRejection : Counter ω → Bool
  | outcome _ => false
  | rejection _ => true

def isFailure [Outcome ω] : Counter ω → Bool
  | outcome o => Outcome.isFailure o
  | rejection _ => false

end Counter

namespace History

theorem recordedIn_le (h : History ω) (period : Nat → Nat) (periods : Finset Nat)
    (sort : Counter ω → Bool) :
    h.recordedIn period periods sort ≤ h.recordedIn period periods fun _ => true :=
  tally_le fun e _ he => by simp_all

theorem recordedIn_le_tally (h : History ω) (period : Nat → Nat) (periods : Finset Nat)
    (sort : Counter ω → Bool) :
    h.recordedIn period periods sort ≤ h.tally fun _ => true :=
  tally_le fun _ _ _ => rfl

/-- Outcomes and refusals together are everything. -/
theorem recordedIn_sorts (h : History ω) (period : Nat → Nat) (periods : Finset Nat) :
    h.recordedIn period periods Counter.isOutcome +
        h.recordedIn period periods Counter.isRejection =
      h.recordedIn period periods fun _ => true := by
  rw [recordedIn, recordedIn, ← tally_or]
  · refine tally_congr fun e _ => ?_
    cases e.counter <;> simp [Counter.isOutcome, Counter.isRejection]
  · intro e
    cases e.counter <;> simp [Counter.isOutcome, Counter.isRejection]

/-- A sort that is listed counter by counter is counted counter by counter. -/
theorem sum_recordedIn [DecidableEq ω] {counters : List (Counter ω)} (hn : counters.Nodup)
    (sort : Counter ω → Bool) (hsort : ∀ c, c ∈ counters ↔ sort c = true) (h : History ω)
    (period : Nat → Nat) (periods : Finset Nat) :
    (counters.map fun c => h.recordedIn period periods fun a => decide (a = c)).sum =
      h.recordedIn period periods sort := by
  have hkeys := sum_tally hn h Recording.counter fun e => decide (period e.time ∈ periods)
  have hcomm : ∀ c, (h.recordedIn period periods fun a => decide (a = c)) =
      h.tally fun e => decide (e.counter = c) && decide (period e.time ∈ periods) := by
    intro c
    exact tally_congr fun e _ => Bool.and_comm _ _
  simp only [hcomm, hkeys]
  refine tally_congr fun e _ => ?_
  rw [Bool.and_comm]
  congr 1
  rw [Bool.eq_iff_iff, decide_eq_true_eq]
  exact hsort e.counter

end History

theorem Health.failurePercentage_eq {h : Health} (hle : h.failures ≤ h.total) :
    h.failurePercentage = 100 * h.failures / h.total := by
  unfold failurePercentage
  split
  · rename_i h0
    simp [h0]
  · have hdiv : h.failures * 100 / h.total ≤ 100 :=
      Nat.div_le_of_le_mul (Nat.mul_le_mul_right 100 hle)
    rw [Nat.mod_eq_of_lt (Nat.lt_of_le_of_lt hdiv (by decide)), Nat.mul_comm]

/-- The health that the counts of all counters make up. -/
def Health.ofCounts [Outcome ω] (counts : Counter ω → Nat) : Health where
  total := ((Outcome.variants (ω := ω)).map fun o => counts (.outcome o)).sum +
    (Rejection.all.map fun r => counts (.rejection r)).sum
  nonRejected := ((Outcome.variants (ω := ω)).map fun o => counts (.outcome o)).sum
  failures := (((Outcome.variants (ω := ω)).filter Outcome.isFailure).map fun o =>
    counts (.outcome o)).sum
  rejections := (Rejection.all.map fun r => counts (.rejection r)).sum

/-- The health of some periods as the history tells it. -/
def History.healthIn [Outcome ω] (h : History ω) (period : Nat → Nat) (periods : Finset Nat) :
    Health where
  total := h.recordedIn period periods fun _ => true
  nonRejected := h.recordedIn period periods Counter.isOutcome
  failures := h.recordedIn period periods Counter.isFailure
  rejections := h.recordedIn period periods Counter.isRejection

theorem Health.ofCounts_recordedIn [Outcome ω] [DecidableEq ω] (h : History ω)
    (period : Nat → Nat) (periods : Finset Nat) :
    Health.ofCounts (fun c => h.recordedIn period periods fun a => decide (a = c)) =
      h.healthIn period periods := by
  have hall : ((Outcome.variants (ω := ω)).map Counter.outcome).Nodup :=
    Outcome.variants_nodup.map fun a b hab => by injection hab
  have hfail : (((Outcome.variants (ω := ω)).filter Outcome.isFailure).map
      Counter.outcome).Nodup :=
    (Outcome.variants_nodup.filter _).map fun a b hab => by injection hab
  have hrej : (Rejection.all.map (Counter.rejection (ω := ω))).Nodup :=
    Rejection.all_nodup.map fun a b hab => by injection hab
  have houtcomes := History.sum_recordedIn hall Counter.isOutcome
    (fun c => by cases c <;> simp [Counter.isOutcome, Outcome.mem_variants]) h period periods
  have hfailures := History.sum_recordedIn hfail Counter.isFailure
    (fun c => by cases c <;> simp [Counter.isFailure, Outcome.mem_variants]) h period periods
  have hrejections := History.sum_recordedIn hrej Counter.isRejection
    (fun c => by cases c <;> simp [Counter.isRejection, Rejection.mem_all]) h period periods
  rw [List.map_map] at houtcomes hfailures hrejections
  have hsum := h.recordedIn_sorts period periods
  simp only [Health.ofCounts, History.healthIn, Function.comp_def] at *
  rw [houtcomes, hfailures, hrejections, hsum]

/-- What words keep of a health. -/
def Health.words (h : Health) : Health :=
  ⟨h.total % UInt64.size, h.nonRejected % UInt64.size, h.failures % UInt64.size,
    h.rejections % UInt64.size⟩

theorem Counter.mem_all [Outcome ω] (c : Counter ω) : c ∈ Counter.all ω := by
  cases c with
  | outcome o => exact List.mem_append_left _ (List.mem_map_of_mem (Outcome.mem_variants o))
  | rejection r => exact List.mem_append_right _ (List.mem_map_of_mem (Rejection.mem_all r))

/-- The total is the sum over all counters. -/
theorem Health.total_ofCounts [Outcome ω] (counts : Counter ω → Nat) :
    (Health.ofCounts counts).total = ((Counter.all ω).map counts).sum := by
  simp only [Health.ofCounts, Counter.all, List.map_append, List.sum_append, List.map_map,
    Function.comp_def]

theorem Health.failures_ofCounts_le [Outcome ω] (counts : Counter ω → Nat) :
    (Health.ofCounts counts).failures ≤ (Health.ofCounts counts).nonRejected :=
  (List.filter_sublist.map _).sum_le_sum fun _ _ => Nat.zero_le _

namespace Metrics

variable [Outcome ω] (m : Metrics ω) (trailing : Duration) (now : Nat)

theorem health_eq_words :
    m.health trailing now = (Health.ofCounts fun c => m.count c trailing now).words := by
  simp only [health, Health.ofCounts, Health.words, addUp_eq_sum, List.filter_map, List.map_map,
    Function.comp_def, ← Nat.add_mod]

theorem countAll_eq :
    m.countAll trailing now = (Health.ofCounts fun c => m.count c trailing now).total := by
  rw [countAll, addUp_eq_sum, Health.total_ofCounts]

variable {m trailing now}

/-- As long as all counts together fit a word, none of the sums over them wraps. -/
theorem health_eq_ofCounts (fits : m.countAll trailing now < UInt64.size) :
    m.health trailing now = .ofCounts fun c => m.count c trailing now := by
  rw [countAll_eq] at fits
  have hfailures := Health.failures_ofCounts_le fun c => m.count c trailing now
  have htotal : (Health.ofCounts fun c => m.count c trailing now).total =
      (Health.ofCounts fun c => m.count c trailing now).nonRejected +
        (Health.ofCounts fun c => m.count c trailing now).rejections := rfl
  rw [health_eq_words, Health.words, Nat.mod_eq_of_lt fits, Nat.mod_eq_of_lt (by omega),
    Nat.mod_eq_of_lt (by omega), Nat.mod_eq_of_lt (by omega)]

end Metrics

namespace MetricsConfig

variable [Outcome ω] [DecidableEq ω]

/-- All counters together hold no more than there is in the history. -/
theorem sum_held_le (config : MetricsConfig) (start : Nat) (h : History ω) (trailing : Duration)
    (now : Nat) : (Health.ofCounts fun c => config.held start h c trailing now).total ≤
      h.tally fun _ => true := by
  have hle : (Health.ofCounts fun c => config.held start h c trailing now).total ≤
      (h.healthIn (config.periodAt start) (config.windowAt start trailing now)).total := by
    rw [← Health.ofCounts_recordedIn]
    exact Nat.add_le_add (List.sum_le_sum fun _ _ => config.held_le_recordedIn _ _ _ _ _)
      (List.sum_le_sum fun _ _ => config.held_le_recordedIn _ _ _ _ _)
  exact hle.trans (h.recordedIn_le_tally (config.periodAt start)
    (config.windowAt start trailing now) fun _ => true)

end MetricsConfig

namespace Metrics.Fresh

variable [Outcome ω] [DecidableEq ω] {m : Metrics ω} {config : MetricsConfig} {start : Nat}
  {trailing : Duration} {now : Nat}

theorem countAll_le (hm : m.Fresh config start) (h : History ω)
    (ht : trailing.nanos < UInt64.size) :
    (m.replay h).countAll trailing now ≤ h.tally fun _ => true := by
  refine Nat.le_trans ?_ (config.sum_held_le start h trailing now)
  have hcount : ∀ c, (m.replay h).count c trailing now ≤ config.held start h c trailing now :=
    fun c => by
      rw [hm.count_eq h c ht]
      exact Nat.mod_le _ _
  rw [countAll_eq]
  exact Nat.add_le_add (List.sum_le_sum fun _ _ => hcount _) (List.sum_le_sum fun _ _ => hcount _)

theorem count_eq_recordedIn (hm : m.Fresh config start) {h : History ω}
    (hlast : ∀ e ∈ h, config.periodAt start e.time ≤ config.periodAt start now)
    (ht : trailing.nanos < UInt64.size)
    (hfits : h.tally (fun _ => true) < UInt64.size) (c : Counter ω) :
    (m.replay h).count c trailing now =
      h.recordedIn (config.periodAt start) (config.windowAt start trailing now)
        fun a => decide (a = c) := by
  have hword := Nat.lt_of_le_of_lt (h.recordedIn_le_tally (config.periodAt start)
    (config.windowAt start trailing now) fun a => decide (a = c)) hfits
  rw [hm.count_eq h c ht, hm.held_eq_recordedIn hlast ht hword, Nat.mod_eq_of_lt hword]

/-- The health of a window that no later call has touched. -/
theorem health_eq (hm : m.Fresh config start) {h : History ω}
    (hlast : ∀ e ∈ h, config.periodAt start e.time ≤ config.periodAt start now)
    (ht : trailing.nanos < UInt64.size) (hfits : h.tally (fun _ => true) < UInt64.size) :
    (m.replay h).health trailing now =
      h.healthIn (config.periodAt start) (config.windowAt start trailing now) := by
  rw [health_eq_ofCounts (Nat.lt_of_le_of_lt (hm.countAll_le h ht) hfits),
    funext (hm.count_eq_recordedIn hlast ht hfits), Health.ofCounts_recordedIn]

/-- A build that checks its arithmetic delivers it, too. -/
theorem health?_eq (hm : m.Fresh config start) {h : History ω}
    (ht : trailing.nanos < UInt64.size) (hfits : h.tally (fun _ => true) < UInt64.size) :
    (m.replay h).health? trailing now = some ((m.replay h).health trailing now) := by
  refine if_pos ⟨(hm.sumsFit_iff h ht).mpr fun c => ?_, ?_⟩
  · exact Nat.lt_of_le_of_lt (config.held_le start h c trailing now) hfits
  · exact Nat.lt_of_le_of_lt (hm.countAll_le h ht) hfits

end Metrics.Fresh

end Turnstile
