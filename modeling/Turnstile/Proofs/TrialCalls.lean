import Mathlib.Data.List.Induction
import Turnstile.Proofs.BreakerRun

/-!
# Trial calls

An open circuit lets a trial call through when the back-off time of the configuration
in force has passed since it was last tested: since it opened or, if that is later, since
the last trial call. So the trial calls of one open period keep their distance.
-/

namespace Turnstile

/-- Numbers in a range that keep a distance are few. -/
theorem length_le_of_spaced {gap low high : Nat} (hgap : 0 < gap) {times : List Nat}
    (spaced : times.Pairwise fun s t => s + gap ≤ t)
    (range : ∀ t ∈ times, low ≤ t ∧ t ≤ high) : times.length ≤ (high - low) / gap + 1 := by
  induction times generalizing low with
  | nil => exact Nat.zero_le _
  | cons t times ih =>
    obtain ⟨hfirst, hrest⟩ := List.pairwise_cons.mp spaced
    obtain ⟨hlow, hhigh⟩ := range t List.mem_cons_self
    cases times with
    | nil => simp
    | cons t' times' =>
      -- the numbers behind the first lie in a range that is shorter by one distance
      have hnext := hfirst t' List.mem_cons_self
      have hlast := (range t' (List.mem_cons_of_mem _ List.mem_cons_self)).2
      have hlater : ∀ s ∈ t' :: times', low + gap ≤ s ∧ s ≤ high := by
        intro s hs
        have hs' := hfirst s hs
        exact ⟨by omega, (range s (List.mem_cons_of_mem _ hs)).2⟩
      have hlen := ih hrest hlater
      have hsplit : (high - low) / gap = (high - (low + gap)) / gap + 1 := by
        rw [Nat.div_eq_sub_div hgap (by omega), Nat.sub_sub]
      rw [List.length_cons, hsplit]
      omega

namespace Breaker

/-- Admission goes by the back-off time of the configuration. -/
def InStep (b : Breaker) : Prop := b.backOff = b.config.backOffTimeMillis

theorem InStep.ofConfig {config : BreakerConfig} {name : String} {b : Breaker}
    (h : ofConfig config name = .ok b) : b.InStep := by
  unfold Breaker.ofConfig at h
  split at h
  · cases h
  · cases h
    rfl

@[simp] theorem backOff_refresh (b : Breaker) (gauge : Gauge) (now : Nat) :
    (b.refresh gauge now).backOff = b.backOff := by
  unfold refresh
  split <;> rfl

@[simp] theorem backOff_judge (b : Breaker) (now : Nat) : (b.judge now).backOff = b.backOff := by
  unfold judge
  split <;> rfl

@[simp] theorem backOff_allow (b : Breaker) (now : Nat) : (b.allow now).2.backOff = b.backOff := by
  rcases allow_cases b now with h | ⟨-, -, -, h⟩ <;> rw [h]

variable {ω : Type} [Outcome ω]

@[simp] theorem backOff_inform (b : Breaker) (gauge : Gauge) (o : ω) (now : Nat) :
    (b.inform gauge o now).backOff = b.backOff := by
  rcases inform_cases b gauge o now with h | ⟨-, -, h⟩ | ⟨-, -, h⟩ <;> simp [h]

theorem InStep.step {b : Breaker} (h : b.InStep) (m : Move ω) : (b.step m).InStep := by
  cases m with
  | ask now => simpa [InStep, Breaker.step, Breaker.ask] using h
  | tell gauge o now => simpa [InStep, Breaker.step, Breaker.tell] using h
  | pull l =>
    cases l with
    | forceOpen => exact h
    | forceClosed => exact h
    | configure c =>
      cases hc : c.fault? with
      | none => simp [InStep, Breaker.step, Breaker.pull, configure, setConfig, hc, Turn.map]
      | some fault =>
        simpa [InStep, Breaker.step, Breaker.pull, configure, setConfig, hc, Turn.map] using h

theorem InStep.after {b : Breaker} (h : b.InStep) (moves : List (Move ω)) :
    (b.after moves).InStep := by
  induction moves generalizing b with
  | nil => exact h
  | cons m moves ih => exact ih (h.step m)

/-- The sum that stops at the largest word gives the same answer as the exact one. -/
theorem trialDue_iff (b : Breaker) {now : Nat} (fits : now < UInt64.size) :
    b.trialDue now = true ↔ b.lastTested + b.backOff ≤ millisOf now := by
  have hword : millisOf now < UInt64.size - 1 := by
    simp only [millisOf, UInt64.size] at fits ⊢
    omega
  simp only [trialDue, decide_eq_true_eq]
  omega

theorem ask_due {b : Breaker} (hopen : b.state = .opened) {now : Nat}
    (hdue : b.trialDue now = true) :
    (b.ask now).answer = none ∧ (b.ask now).breaker = { b with lastTested := millisOf now } := by
  simp [ask, allow, hopen, hdue]

theorem ask_early {b : Breaker} (hopen : b.state = .opened) {now : Nat}
    (hdue : b.trialDue now = false) :
    (b.ask now).answer = some .circuitOpen ∧ (b.ask now).breaker = b := by
  simp [ask, allow, hopen, hdue]

theorem ask_admits_iff {b : Breaker} (hopen : b.state = .opened) (now : Nat) :
    (b.ask now).answer = none ↔ b.trialDue now = true := by
  cases hdue : b.trialDue now with
  | true => simp [ask_due hopen hdue]
  | false => simp [ask_early hopen hdue]

/-- The circuit is open before and after each operation of a run. -/
def StaysOpen (b : Breaker) : List (Move ω) → Prop
  | [] => b.state = .opened
  | m :: moves => b.state = .opened ∧ (b.step m).StaysOpen moves

/-- The millisecond of a trial call that an operation lets through. -/
def trial? (b : Breaker) : Move ω → Option Nat
  | .ask now =>
    if b.state = .opened ∧ (b.ask now).answer = none then some (millisOf now) else none
  | .tell .. | .pull _ => none

/-- The milliseconds of the trial calls of a run, in the order of the run. -/
def trials (b : Breaker) : List (Move ω) → List Nat
  | [] => []
  | m :: moves => (b.trial? m).toList ++ (b.step m).trials moves

theorem StaysOpen.first {b : Breaker} {moves : List (Move ω)} (h : b.StaysOpen moves) :
    b.state = .opened := by
  cases moves with
  | nil => exact h
  | cons m moves => exact h.1

theorem StaysOpen.snoc {b : Breaker} {moves : List (Move ω)} (h : b.StaysOpen moves)
    {m : Move ω} (hm : ((b.after moves).step m).state = .opened) :
    b.StaysOpen (moves ++ [m]) := by
  induction moves generalizing b with
  | nil => exact ⟨h, hm⟩
  | cons m' moves ih => exact ⟨h.1, ih h.2 hm⟩

/-- Within an open period only a trial call is a test. -/
theorem lastTested_step {b : Breaker} (hopen : b.state = .opened) {m : Move ω}
    (hstays : (b.step m).state = .opened) :
    (b.step m).lastTested = (b.trial? m).getD b.lastTested := by
  cases m with
  | ask now =>
    cases hdue : b.trialDue now with
    | true => simp [step, trial?, hopen, ask_due hopen hdue]
    | false => simp [step, trial?, hopen, ask_early hopen hdue]
  | tell gauge o now =>
    rcases inform_cases b gauge o now with h | ⟨-, -, h⟩ | ⟨-, hclosed, -⟩
    · simp [step, tell, trial?, h]
    · simp [step, tell, h] at hstays
    · rw [hopen] at hclosed
      cases hclosed
  | pull l =>
    cases l with
    | forceOpen => simp [step, pull, force, forceOpen] at hstays
    | forceClosed => simp [step, pull, force, forceClosed] at hstays
    | configure c =>
      cases hc : c.fault? <;> simp [step, pull, configure, setConfig, hc, Turn.map, trial?]

theorem StaysOpen.lastTested {b : Breaker} {moves : List (Move ω)} (h : b.StaysOpen moves) :
    (b.after moves).lastTested = (b.trials moves).getLastD b.lastTested := by
  induction moves generalizing b with
  | nil => rfl
  | cons m moves ih =>
    obtain ⟨hopen, hrest⟩ := h
    rw [after_cons, ih hrest, lastTested_step hopen hrest.first, trials]
    cases b.trial? m with
    | none => rfl
    | some t => cases (b.step m).trials moves <;> rfl

/-- The outcome that opens a circuit counts as a test. -/
theorem lastTested_opening {b : Breaker} (hclosed : b.state = .closed) {gauge : Gauge} {o : ω}
    {now : Nat} (hopen : (b.step (.tell gauge o now)).state = .opened) :
    (b.step (.tell gauge o now)).lastTested = millisOf now := by
  obtain ⟨ho, htrip⟩ := (inform_opens_iff hclosed gauge o now).mp hopen
  simp only [step, tell, inform_closed hclosed ho, judge]
  rw [if_pos (by simpa using htrip)]

/-- What is forced open does not open by itself. -/
theorem step_forcedOpen {b : Breaker} (hforced : b.state = .forcedOpen) (m : Move ω) :
    (b.step m).state ≠ .opened := by
  cases m with
  | ask now => simp [step, ask, hforced]
  | tell gauge o now => simp [step, tell, inform, hforced]
  | pull l =>
    cases l with
    | forceOpen => simp [step, pull, force, forceOpen]
    | forceClosed => simp [step, pull, force, forceClosed]
    | configure c =>
      cases hc : c.fault? <;> simp [step, pull, configure, setConfig, hc, Turn.map, hforced]

/-- An open circuit has been opened by an outcome, and has been open ever since. -/
theorem exists_opening {b : Breaker} (hb : b.state = .closed) {past : List (Move ω)}
    (hopen : (b.after past).state = .opened) :
    ∃ before gauge o t during, past = before ++ .tell gauge o t :: during ∧
      (b.after before).state = .closed ∧
      ((b.after before).step (.tell gauge o t)).StaysOpen during := by
  induction past using List.reverseRecOn with
  | nil =>
    rw [after_nil, hb] at hopen
    cases hopen
  | append_singleton past m ih =>
    have hstep : (b.after (past ++ [m])) = (b.after past).step m := by simp [after]
    rw [hstep] at hopen
    cases hs : (b.after past).state with
    | forcedOpen => exact absurd hopen (step_forcedOpen hs m)
    | closed =>
      obtain ⟨gauge, o, t, rfl, -⟩ := (step_opens_iff hs m).mp hopen
      exact ⟨past, gauge, o, t, [], rfl, hs, hopen⟩
    | opened =>
      obtain ⟨before, gauge, o, t, during, hpast, hclosed, hstays⟩ := ih hs
      refine ⟨before, gauge, o, t, during ++ [m], by simp [hpast], hclosed, hstays.snoc ?_⟩
      have hafter : b.after past = ((b.after before).step (.tell gauge o t)).after during := by
        rw [hpast]
        simp [after]
      rw [← hafter]
      exact hopen

/-- Under one configuration the trial calls of an open period keep their distance from each
other and from the test before them. -/
theorem StaysOpen.spaced {b : Breaker} (hb : b.InStep) {during : List (Move ω)}
    (h : b.StaysOpen during) (fits : ∀ now, Move.ask now ∈ during → now < UInt64.size)
    (same : ∀ m ∈ during, m.inForce b.config = b.config) :
    (b.trials during).Pairwise (fun s t => s + b.config.backOffTimeMillis ≤ t) ∧
      ∀ t ∈ b.trials during, b.lastTested + b.config.backOffTimeMillis ≤ t := by
  induction during generalizing b with
  | nil => simp [trials]
  | cons m during ih =>
    obtain ⟨hopen, hrest⟩ := h
    have hconfig : (b.step m).config = b.config := by
      rw [config_step, same m List.mem_cons_self]
    have htested := lastTested_step hopen hrest.first
    obtain ⟨hpairs, hfirst⟩ := ih (hb.step m) hrest
      (fun now hnow => fits now (List.mem_cons_of_mem _ hnow))
      (fun m' hm' => hconfig ▸ same m' (List.mem_cons_of_mem _ hm'))
    rw [hconfig] at hpairs hfirst
    rw [trials]
    cases ht : b.trial? m with
    | none =>
      rw [ht, Option.getD_none] at htested
      rw [htested] at hfirst
      exact ⟨hpairs, hfirst⟩
    | some t =>
      rw [ht, Option.getD_some] at htested
      rw [htested] at hfirst
      have hdue : b.lastTested + b.config.backOffTimeMillis ≤ t := by
        cases m with
        | ask now =>
          simp only [trial?, Option.ite_none_right_eq_some, Option.some.injEq] at ht
          obtain ⟨⟨-, hadmitted⟩, rfl⟩ := ht
          rw [ask_admits_iff hopen, trialDue_iff b (fits now List.mem_cons_self)] at hadmitted
          rwa [← hb]
        | tell gauge o now => cases ht
        | pull l => cases ht
      refine ⟨List.pairwise_cons.mpr ⟨hfirst, hpairs⟩, ?_⟩
      intro t' ht'
      rcases List.mem_cons.mp ht' with rfl | ht'
      · exact hdue
      · have := hfirst t' ht'
        omega

/-- An open circuit admits exactly when the back-off time in force has passed since the outcome
that opened it or, if there was one since, the last trial call; otherwise it refuses and stays as
it is. Under one configuration the trial calls of an open period keep their distance, so that
there are few of them in any range of milliseconds. -/
theorem trials_keep_distance {config : BreakerConfig} {name : String} {b : Breaker}
    (made : ofConfig config name = .ok b) (past : List (Move ω))
    (hopen : (b.after past).state = .opened) :
    let r := b.after past
    let wait := r.config.backOffTimeMillis
    (∃ before gauge o t during, past = before ++ .tell gauge o t :: during ∧
      (b.after before).state = .closed ∧
      ((b.after before).step (.tell gauge o t)).StaysOpen during ∧
      ∀ now < UInt64.size,
        let last :=
          (((b.after before).step (.tell gauge o t)).trials during).getLastD (millisOf t)
        ((r.ask now).answer = none ↔ last + wait ≤ millisOf now) ∧
        (millisOf now < last + wait →
          (r.ask now).answer = some .circuitOpen ∧ (r.ask now).breaker = r)) ∧
    ∀ during : List (Move ω), r.StaysOpen during →
      (∀ now, Move.ask now ∈ during → now < UInt64.size) →
      (∀ m ∈ during, m.inForce r.config = r.config) →
      (r.trials during).Pairwise (fun s t => s + wait ≤ t) ∧
      (0 < wait → ∀ low high,
        ((r.trials during).countP fun t => low ≤ t ∧ t ≤ high) ≤ (high - low) / wait + 1) := by
  intro r wait
  have hstep : r.InStep := (InStep.ofConfig made).after past
  have hclosed : b.state = .closed := by
    unfold Breaker.ofConfig at made
    split at made
    · cases made
    · cases made
      rfl
  constructor
  · obtain ⟨before, gauge, o, t, during, hpast, hbefore, hstays⟩ := exists_opening hclosed hopen
    refine ⟨before, gauge, o, t, during, hpast, hbefore, hstays, fun now fits => ?_⟩
    have hr : r = ((b.after before).step (.tell gauge o t)).after during := by
      simp only [r, hpast]
      simp [after]
    have hlast := hstays.lastTested
    rw [← hr, lastTested_opening hbefore hstays.first] at hlast
    have hdue : r.trialDue now = true ↔ r.lastTested + wait ≤ millisOf now := by
      rw [trialDue_iff r fits, hstep]
    rw [hlast] at hdue
    refine ⟨(ask_admits_iff hopen now).trans hdue, fun hearly => ask_early hopen ?_⟩
    rw [← Bool.not_eq_true, hdue]
    omega
  · intro during hstays fits same
    obtain ⟨hpairs, -⟩ := hstays.spaced hstep fits same
    refine ⟨hpairs, fun hwait low high => ?_⟩
    rw [List.countP_eq_length_filter]
    refine length_le_of_spaced hwait (hpairs.filter _) fun t ht => ?_
    simpa using (List.mem_filter.mp ht).2

/-- A breaker that opens on the first failure. -/
def touchy : Breaker :=
  ⟨"door", { failureThreshold := 0, backOffTimeMillis := 100 }, .closed, 100, 0, none, .empty⟩

/-- Opened at one second, tested once, then given a shorter back-off time. -/
def nudged : List (Move Status) :=
  [.tell (fun _ _ => ⟨1, 1, 1, 0⟩) .error 1000000000, .ask 1099999999, .ask 1100000000,
    .pull (.configure { backOffTimeMillis := 40 })]

/-- Further questions, between which the time once goes back. -/
def nudgedAgain : List (Move Status) :=
  [.ask 1139000000, .ask 1140000000, .ask 500000000, .tell Gauge.idle .timeout 1150000000,
    .ask 1185000000]

theorem trials_keep_distance_nudged :
    ofConfig touchy.config "door" = .ok touchy ∧ (touchy.after nudged).state = .opened ∧
    (∃ last, ∀ now < UInt64.size,
      (((touchy.after nudged).ask now).answer = none ↔ last + 40 ≤ millisOf now)) ∧
    (touchy.after nudged).StaysOpen nudgedAgain ∧
    (touchy.after nudged).trials nudgedAgain = [1140, 1185] ∧
    ((touchy.after nudged).trials nudgedAgain).Pairwise (fun s t => s + 40 ≤ t) ∧
    ((touchy.after nudged).trials nudgedAgain).countP (fun t => 1130 ≤ t ∧ t ≤ 1200) ≤ 2 := by
  have made : ofConfig touchy.config "door" = .ok touchy := rfl
  have hopen : (touchy.after nudged).state = .opened := rfl
  obtain ⟨⟨before, gauge, o, t, during, -, -, -, hask⟩, hspaced⟩ :=
    trials_keep_distance made nudged hopen
  have hstays : (touchy.after nudged).StaysOpen nudgedAgain := ⟨rfl, rfl, rfl, rfl, rfl, rfl⟩
  have fits : ∀ now, Move.ask now ∈ nudgedAgain → now < UInt64.size := by
    simp [nudgedAgain, UInt64.size]
  have same : ∀ m ∈ nudgedAgain,
      m.inForce (touchy.after nudged).config = (touchy.after nudged).config := by
    simp [nudgedAgain, Move.inForce]
  obtain ⟨hpairs, hfew⟩ := hspaced nudgedAgain hstays fits same
  exact ⟨made, hopen, ⟨_, fun now fits => (hask now fits).1⟩, hstays, rfl, hpairs,
    hfew (by decide) 1130 1200⟩

end Breaker

end Turnstile
