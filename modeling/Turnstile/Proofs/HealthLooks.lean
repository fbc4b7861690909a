import Mathlib.Data.List.Chain
import Turnstile.Proofs.BreakerRun

/-!
# Looks at the health

A breaker looks at the health of its target when a closed circuit learns of an outcome that
is no success, and not again before the refresh interval in force is over. Until then it
decides by what it saw last.
-/

namespace Turnstile

namespace Breaker

/-- A look at the health of the target. -/
structure Look where
  trailing : Duration
  time : Nat
  /-- The refresh interval in force, in milliseconds. -/
  interval : Nat
  health : Health
  deriving DecidableEq, Repr

variable {ω : Type} [Outcome ω]

/-- The gauge that an operation brings along. -/
def Move.gauge : Move ω → Gauge
  | .tell gauge _ _ => gauge
  | .ask _ | .pull _ => .idle

/-- The time of an operation, if it has one. -/
def Move.time? : Move ω → Option Nat
  | .ask now | .tell _ _ now => some now
  | .pull _ => none

/-- The readings that an operation takes. -/
def readings (b : Breaker) : Move ω → List (Duration × Nat)
  | .ask now => (b.ask now).readings
  | .tell gauge o now => (b.tell gauge o now).readings
  | .pull l => (b.pull l).readings

/-- The looks that an operation takes: its readings, with what the gauge shows. -/
def looksOf (b : Breaker) (m : Move ω) : List Look :=
  (b.readings m).map fun r =>
    ⟨r.1, r.2, b.config.healthRefreshMillis, m.gauge r.1 r.2⟩

/-- The looks that a run of operations takes, in the order of the run. -/
def looks (b : Breaker) : List (Move ω) → List Look
  | [] => []
  | m :: moves => b.looksOf m ++ (b.step m).looks moves

theorem looks_append (b : Breaker) (moves moves' : List (Move ω)) :
    b.looks (moves ++ moves') = b.looks moves ++ (b.after moves).looks moves' := by
  induction moves generalizing b with
  | nil => rfl
  | cons m moves ih => rw [List.cons_append, looks, ih, looks, after_cons, List.append_assoc]

@[simp] theorem health_judge (b : Breaker) (now : Nat) : (b.judge now).health = b.health := by
  unfold judge
  split <;> rfl

@[simp] theorem health_allow (b : Breaker) (now : Nat) : (b.allow now).2.health = b.health := by
  rcases allow_cases b now with h | ⟨-, -, -, h⟩ <;> rw [h]

/-- The sum that stops at the largest word gives the same answer as the exact one. -/
theorem refreshDue_iff {b : Breaker} {last : Nat} (h : b.lastRefresh = some last) {now : Nat}
    (fits : now < UInt64.size) :
    b.refreshDue now = true ↔ last + b.config.healthRefreshMillis ≤ millisOf now := by
  have hword : millisOf now < UInt64.size - 1 := by
    simp only [millisOf, UInt64.size] at fits ⊢
    omega
  simp only [refreshDue, h, decide_eq_true_eq]
  omega

/-- Everything an operation can mean for what a breaker knows of the health: it keeps what it
knows, or an outcome that is no success makes a closed circuit look. -/
theorem step_looks (b : Breaker) (m : Move ω) :
    (b.looksOf m = [] ∧ (b.step m).lastRefresh = b.lastRefresh ∧
      (b.step m).health = b.health) ∨
    ∃ gauge o now, m = .tell gauge o now ∧ Outcome.isSuccess o = false ∧ b.state = .closed ∧
      b.refreshDue now = true ∧
      b.looksOf m = [⟨b.config.trailingPeriod, now, b.config.healthRefreshMillis,
        gauge b.config.trailingPeriod now⟩] ∧
      (b.step m).lastRefresh = some (millisOf now) ∧
      (b.step m).health = gauge b.config.trailingPeriod now := by
  cases m with
  | ask now => exact .inl ⟨rfl, lastRefresh_allow b now, health_allow b now⟩
  | pull l =>
    left
    cases l with
    | forceOpen => exact ⟨rfl, rfl, rfl⟩
    | forceClosed => exact ⟨rfl, rfl, rfl⟩
    | configure c =>
      cases hc : c.fault? <;>
        simp [looksOf, readings, step, pull, configure, setConfig, hc, Turn.map]
  | tell gauge o now =>
    by_cases hlook : Outcome.isSuccess o = false ∧ b.state = .closed ∧ b.refreshDue now = true
    · obtain ⟨ho, hc, hdue⟩ := hlook
      refine .inr ⟨gauge, o, now, rfl, ho, hc, hdue, ?_, ?_, ?_⟩
      · simp [looksOf, readings, tell, reading, ho, hc, hdue, Move.gauge]
      · simp [step, tell, inform_closed hc ho, lastRefresh_refresh, hdue]
      · simp [step, tell, inform_closed hc ho, snapshot, hdue]
    · left
      have hnone : b.looksOf (.tell gauge o now) = [] := by
        simp only [looksOf, readings, tell, reading]
        rw [if_neg (by simpa using hlook)]
        rfl
      refine ⟨hnone, ?_⟩
      simp only [step, tell]
      rcases inform_cases b gauge o now with h | ⟨-, -, h⟩ | ⟨ho, hc, h⟩
      · simp [h]
      · simp [h]
      · have hdue : b.refreshDue now = false := by simpa [ho, hc] using hlook
        simp [h, lastRefresh_refresh, snapshot, hdue]

/-- An outcome learns nothing of the gauge but what it reads. -/
theorem tell_congr (b : Breaker) (gauge gauge' : Gauge) (o : ω) (now : Nat)
    (h : ∀ r ∈ b.readings (.tell gauge o now), gauge r.1 r.2 = gauge' r.1 r.2) :
    b.step (.tell gauge o now) = b.step (.tell gauge' o now) := by
  simp only [step, tell]
  unfold inform
  split
  · rfl
  · split
    · rename_i ho hc
      have hsame : b.refresh gauge now = b.refresh gauge' now := by
        unfold refresh
        split
        · rename_i hdue
          have hread := h (b.config.trailingPeriod, now) (by
            simp [readings, tell, reading, ho, hc, hdue])
          rw [hread]
        · rfl
      rw [hsame]
    · rfl

/-- A breaker remembers the last of its looks. -/
structure Remembers (b : Breaker) (seen : List Look) : Prop where
  lastRefresh : b.lastRefresh = seen.getLast?.map fun l => millisOf l.time
  health : b.health = (seen.getLast?.map Look.health).getD .empty

/-- Each look comes after the one before it by the refresh interval in force at the time. -/
def Spaced (seen : List Look) : Prop :=
  seen.IsChain fun l l' => millisOf l.time + l'.interval ≤ millisOf l'.time

theorem Remembers.ofConfig {config : BreakerConfig} {name : String} {b : Breaker}
    (h : ofConfig config name = .ok b) : b.Remembers [] := by
  unfold Breaker.ofConfig at h
  split at h
  · cases h
  · cases h
    exact ⟨rfl, rfl⟩

theorem Remembers.step {b : Breaker} {seen : List Look} (h : b.Remembers seen) (m : Move ω) :
    (b.step m).Remembers (seen ++ b.looksOf m) := by
  rcases step_looks b m with ⟨hnone, hlast, hhealth⟩ | ⟨_, _, _, -, -, -, -, hlook, hlast, hhealth⟩
  · rw [hnone, List.append_nil]
    exact ⟨hlast.trans h.lastRefresh, hhealth.trans h.health⟩
  · rw [hlook]
    exact ⟨by simp [hlast], by simp [hhealth]⟩

theorem Remembers.after {b : Breaker} {seen : List Look} (h : b.Remembers seen)
    (moves : List (Move ω)) : (b.after moves).Remembers (seen ++ b.looks moves) := by
  induction moves generalizing b seen with
  | nil => simpa [looks] using h
  | cons m moves ih => simpa [looks] using ih (h.step m)

theorem Spaced.step {b : Breaker} {seen : List Look} (hb : b.Remembers seen) (h : Spaced seen)
    {m : Move ω} (fits : ∀ now ∈ m.time?, now < UInt64.size) : Spaced (seen ++ b.looksOf m) := by
  rcases step_looks b m with ⟨hnone, -⟩ | ⟨gauge, o, now, rfl, -, -, hdue, hlook, -⟩
  · rwa [hnone, List.append_nil]
  · rw [hlook, Spaced, List.isChain_append]
    refine ⟨h, .singleton _, ?_⟩
    intro l hl l' hl'
    have hlast : b.lastRefresh = some (millisOf l.time) := by
      rw [hb.lastRefresh, Option.mem_def.mp hl, Option.map_some]
    cases hl'
    exact (refreshDue_iff hlast (fits now rfl)).mp hdue

theorem Spaced.after {b : Breaker} {seen : List Look} (hb : b.Remembers seen) (h : Spaced seen)
    {moves : List (Move ω)} (fits : ∀ m ∈ moves, ∀ now ∈ m.time?, now < UInt64.size) :
    Spaced (seen ++ b.looks moves) := by
  induction moves generalizing b seen with
  | nil => simpa [looks] using h
  | cons m moves ih =>
    have hfirst := h.step hb (fits m List.mem_cons_self)
    simpa [looks] using ih (hb.step m) hfirst fun m' hm' => fits m' (List.mem_cons_of_mem _ hm')

/-- The time of a look is the time of an operation. -/
theorem time_looks {b : Breaker} {moves : List (Move ω)} {l : Look} (h : l ∈ b.looks moves) :
    l.time ∈ moves.filterMap Move.time? := by
  induction moves generalizing b with
  | nil => cases h
  | cons m moves ih =>
    rcases List.mem_append.mp h with h | h
    · rcases step_looks b m with ⟨hnone, -⟩ | ⟨gauge, o, now, rfl, -, -, -, hlook, -⟩
      · rw [hnone] at h
        cases h
      · rw [hlook] at h
        rw [List.mem_singleton.mp h]
        simp [Move.time?]
    · have := ih h
      simp only [List.mem_filterMap, List.mem_cons] at this ⊢
      obtain ⟨m', hm', ht⟩ := this
      exact ⟨m', .inr hm', ht⟩

omit [Outcome ω] in
/-- A configuration that is never swapped stays in force. -/
theorem inForce_steady {config : BreakerConfig} {moves : List (Move ω)}
    (h : ∀ m ∈ moves, m.inForce config = config) : moves.foldl Move.inForce config = config := by
  induction moves with
  | nil => rfl
  | cons m moves ih =>
    rw [List.foldl_cons, h m List.mem_cons_self]
    exact ih fun m' hm' => h m' (List.mem_cons_of_mem _ hm')

/-- The time of a look is less than the refresh interval behind an outcome that does not look
again. -/
theorem Remembers.fresh {b : Breaker} {seen : List Look} (hb : b.Remembers seen) {l : Look}
    (hl : seen.getLast? = some l) {now : Nat} (fits : now < UInt64.size)
    (hdue : b.refreshDue now = false) :
    now < l.time + b.config.healthRefreshMillis * 1000000 := by
  have hlast : b.lastRefresh = some (millisOf l.time) := by rw [hb.lastRefresh, hl, Option.map_some]
  have hearly : ¬ millisOf l.time + b.config.healthRefreshMillis ≤ millisOf now := by
    rw [← refreshDue_iff hlast fits, hdue]
    decide
  simp only [millisOf] at hearly
  omega

/-- A closed circuit decides by its last look, which it took just now or a moment ago. -/
theorem Remembers.decides {b : Breaker} {seen : List Look} (hb : b.Remembers seen)
    (hc : b.state = .closed) (gauge : Gauge) {o : ω} (ho : Outcome.isSuccess o = false) {now : Nat}
    (fits : now < UInt64.size) :
    ∃ l, (seen ++ b.looksOf (.tell gauge o now)).getLast? = some l ∧
      (b.step (.tell gauge o now)).state =
        (if b.config.tripsOn l.health then .opened else .closed) ∧
      (b.looksOf (.tell gauge o now) = [l] ∧ l.time = now ∨
        l ∈ seen ∧ now < l.time + b.config.healthRefreshMillis * 1000000) := by
  have hstate : (b.step (.tell gauge o now)).state =
      if b.config.tripsOn (b.snapshot gauge now) then .opened else .closed := by
    simp [Breaker.step, tell, inform_closed hc ho, state_judge, hc]
  cases hdue : b.refreshDue now with
  | true =>
    have hlook : b.looksOf (.tell gauge o now) = [⟨b.config.trailingPeriod, now,
        b.config.healthRefreshMillis, gauge b.config.trailingPeriod now⟩] := by
      simp [looksOf, readings, tell, reading, ho, hc, hdue, Move.gauge]
    refine ⟨_, by rw [hlook, List.getLast?_concat], ?_, .inl ⟨hlook, rfl⟩⟩
    rw [hstate, snapshot, if_pos hdue]
  | false =>
    have hnone : b.looksOf (.tell gauge o now) = [] := by
      simp [looksOf, readings, tell, reading, hdue]
    cases hl : seen.getLast? with
    | none =>
      -- without a look the first outcome would be one
      have hnever : b.lastRefresh = none := by rw [hb.lastRefresh, hl, Option.map_none]
      simp [refreshDue, hnever] at hdue
    | some l =>
      refine ⟨l, by rw [hnone, List.append_nil, hl], ?_, .inr ⟨?_, hb.fresh hl fits hdue⟩⟩
      · have hkept : b.snapshot gauge now = l.health := by
          rw [snapshot, if_neg (by simp [hdue]), hb.health, hl]
          rfl
        rw [hstate, hkept]
      · exact List.mem_of_getLast? hl

/-- A breaker looks at the health only when a closed circuit learns of an outcome that is no
success, the first time always, and then keeps to the refresh interval in force. What it shows as
health is what it saw last. As long as time does not run backwards and the configuration stays, a
decision is taken on a look of the same moment or of less than a refresh interval before. -/
theorem looks_keep_interval {config : BreakerConfig} {name : String} {b : Breaker}
    (made : ofConfig config name = .ok b) (past : List (Move ω))
    (fits : ∀ m ∈ past, ∀ now ∈ m.time?, now < UInt64.size) :
    let r := b.after past
    (∀ m : Move ω, r.readings m ≠ [] → ∃ gauge o now, m = .tell gauge o now ∧
      Outcome.isSuccess o = false ∧ r.state = .closed) ∧
    (∀ gauge gauge' (o : ω) now,
      (∀ x ∈ r.readings (.tell gauge o now), gauge x.1 x.2 = gauge' x.1 x.2) →
        r.step (.tell gauge o now) = r.step (.tell gauge' o now)) ∧
    (b.looks past = [] → r.state = .closed → ∀ gauge (o : ω) now, Outcome.isSuccess o = false →
      r.readings (.tell gauge o now) = [(r.config.trailingPeriod, now)]) ∧
    (b.looks past).IsChain (fun l l' => millisOf l.time + l'.interval ≤ millisOf l'.time) ∧
    r.health = ((b.looks past).getLast?.map Look.health).getD .empty ∧
    ∀ gauge (o : ω) now, now < UInt64.size → Outcome.isSuccess o = false → r.state = .closed →
      (∀ m ∈ past, m.inForce config = config) →
      ((past ++ [Move.tell gauge o now]).filterMap Move.time?).Pairwise (· ≤ ·) →
      ∃ l, (b.looks (past ++ [.tell gauge o now])).getLast? = some l ∧
        (r.step (.tell gauge o now)).state =
          (if config.tripsOn l.health then .opened else .closed) ∧
        (r.looksOf (.tell gauge o now) = [l] ∧ l.time = now ∨
          l.time ≤ now ∧ now < l.time + config.healthRefreshMillis * 1000000) := by
  intro r
  have hb : b.Remembers [] := .ofConfig made
  have hr : r.Remembers (b.looks past) := by simpa using hb.after past
  have hspaced : Spaced (b.looks past) := by
    simpa using Spaced.after hb (List.isChain_nil) fits
  refine ⟨?_, fun gauge gauge' o now h => r.tell_congr gauge gauge' o now h, ?_, hspaced,
    hr.health, ?_⟩
  · intro m hm
    rcases step_looks r m with ⟨hnone, -⟩ | ⟨gauge, o, now, rfl, ho, hc, -⟩
    · exact absurd (List.map_eq_nil_iff.mp hnone) hm
    · exact ⟨gauge, o, now, rfl, ho, hc⟩
  · intro hnever hc gauge o now ho
    have hnone : r.lastRefresh = none := by rw [hr.lastRefresh, hnever]; rfl
    simp [readings, tell, reading, refreshDue, ho, hc, hnone]
  · intro gauge o now hfits ho hc steady sorted
    have hconfig : r.config = config := by
      rw [config_after, config_ofConfig made, inForce_steady steady]
    obtain ⟨l, hlast, hstate, hwhen⟩ := hr.decides hc gauge ho hfits
    rw [hconfig] at hstate hwhen
    refine ⟨l, ?_, hstate, ?_⟩
    · rw [looks_append, looks, looks, List.append_nil]
      exact hlast
    · rcases hwhen with hnow | ⟨hl, hfresh⟩
      · exact .inl hnow
      · rw [List.filterMap_append, List.pairwise_append] at sorted
        exact .inr ⟨sorted.2.2 _ (time_looks hl) now (by simp [Move.time?]), hfresh⟩

/-- A breaker that waits 100 milliseconds between looks and bears one failure. -/
def patient : Breaker :=
  ⟨"door", { failureThreshold := 1, healthRefreshMillis := 100 }, .closed, 1000, 0, none, .empty⟩

/-- A success and a question, which show nothing, then two failures under one look, and a look
that is due. -/
def patientDay : List (Move Status) :=
  [.tell (fun _ _ => ⟨9, 9, 9, 0⟩) .success 1000000, .ask 1500000,
    .tell (fun _ _ => ⟨1, 1, 1, 0⟩) .error 2000000,
    .tell (fun _ _ => ⟨2, 2, 2, 0⟩) .timeout 101999999,
    .tell (fun _ now => ⟨now, 0, 1, 0⟩) .error 102000000]

theorem looks_keep_interval_patient :
    ofConfig patient.config "door" = .ok patient ∧
    (∀ m ∈ patientDay, ∀ now ∈ m.time?, now < UInt64.size) ∧
    (patient.looks patientDay).map Look.time = [2000000, 102000000] ∧
    (patient.looks patientDay).IsChain
      (fun l l' => millisOf l.time + l'.interval ≤ millisOf l'.time) ∧
    (patient.after patientDay).health = ⟨102000000, 0, 1, 0⟩ ∧
    ∃ l, (patient.looks (patientDay ++ [.tell Gauge.idle .error 201999999])).getLast? = some l ∧
      ((patient.after patientDay).step (.tell Gauge.idle Status.error 201999999)).state =
        (if patient.config.tripsOn l.health then .opened else .closed) ∧
      201999999 < l.time + 100 * 1000000 := by
  have made : ofConfig patient.config "door" = .ok patient := rfl
  have fits : ∀ m ∈ patientDay, ∀ now ∈ m.time?, now < UInt64.size := by
    simp [patientDay, Move.time?, UInt64.size]
  have steady : ∀ m ∈ patientDay, m.inForce patient.config = patient.config := by
    simp [patientDay, Move.inForce]
  have sorted : ((patientDay ++ [Move.tell Gauge.idle Status.error 201999999]).filterMap
      Move.time?).Pairwise (· ≤ ·) := by
    simp [patientDay, Move.time?]
  obtain ⟨-, -, -, hspaced, hhealth, hdecides⟩ := looks_keep_interval made patientDay fits
  obtain ⟨l, hl, hstate, hnow | ⟨-, hfresh⟩⟩ :=
    hdecides Gauge.idle .error 201999999 (by decide) rfl rfl steady sorted
  · cases hnow.1
  · exact ⟨made, fits, rfl, hspaced, by rw [hhealth]; rfl, l, hl, hstate, hfresh⟩

end Breaker

end Turnstile
