import Turnstile.Breaker

/-!
# Runs of a breaker

What each operation can do to a breaker, and which operation of a run can open
its circuit. The gauge comes with each outcome, so that it may show anything at
any time.
-/

namespace Turnstile

namespace Breaker

/-- The health that an outcome is judged by: a fresh reading or the one in store. -/
def snapshot (b : Breaker) (gauge : Gauge) (now : Nat) : Health :=
  if b.refreshDue now then gauge b.config.trailingPeriod now else b.health

/-- Everything that asking can come to: only a trial call changes a breaker. -/
theorem allow_cases (b : Breaker) (now : Nat) :
    (b.allow now).2 = b ∨
    ((b.allow now).1 = none ∧ b.state = .opened ∧ b.trialDue now = true ∧
      (b.allow now).2 = { b with lastTested := millisOf now }) := by
  unfold allow
  cases hs : b.state with
  | closed => simp
  | forcedOpen => simp
  | opened => by_cases hd : b.trialDue now <;> simp [hd]

/-- A refusal teaches a breaker nothing. -/
theorem allow_refused {b : Breaker} {now : Nat} {reason : Rejection}
    (h : (b.allow now).1 = some reason) : (b.allow now).2 = b := by
  rcases allow_cases b now with hsame | ⟨hnone, -⟩
  · exact hsame
  · rw [hnone] at h
    cases h

@[simp] theorem config_allow (b : Breaker) (now : Nat) : (b.allow now).2.config = b.config := by
  rcases allow_cases b now with h | ⟨-, -, -, h⟩ <;> rw [h]

@[simp] theorem state_allow (b : Breaker) (now : Nat) : (b.allow now).2.state = b.state := by
  rcases allow_cases b now with h | ⟨-, -, -, h⟩ <;> rw [h]

@[simp] theorem lastRefresh_allow (b : Breaker) (now : Nat) :
    (b.allow now).2.lastRefresh = b.lastRefresh := by
  rcases allow_cases b now with h | ⟨-, -, -, h⟩ <;> rw [h]

@[simp] theorem config_refresh (b : Breaker) (gauge : Gauge) (now : Nat) :
    (b.refresh gauge now).config = b.config := by
  unfold refresh
  split <;> rfl

@[simp] theorem state_refresh (b : Breaker) (gauge : Gauge) (now : Nat) :
    (b.refresh gauge now).state = b.state := by
  unfold refresh
  split <;> rfl

@[simp] theorem health_refresh (b : Breaker) (gauge : Gauge) (now : Nat) :
    (b.refresh gauge now).health = b.snapshot gauge now := by
  unfold refresh snapshot
  split <;> rfl

theorem lastRefresh_refresh (b : Breaker) (gauge : Gauge) (now : Nat) :
    (b.refresh gauge now).lastRefresh =
      if b.refreshDue now then some (millisOf now) else b.lastRefresh := by
  unfold refresh
  split <;> rfl

@[simp] theorem config_judge (b : Breaker) (now : Nat) : (b.judge now).config = b.config := by
  unfold judge
  split <;> rfl

@[simp] theorem lastRefresh_judge (b : Breaker) (now : Nat) :
    (b.judge now).lastRefresh = b.lastRefresh := by
  unfold judge
  split <;> rfl

theorem state_judge (b : Breaker) (now : Nat) :
    (b.judge now).state = if b.config.tripsOn b.health then .opened else b.state := by
  unfold judge
  split <;> rfl

variable {ω : Type} [Outcome ω]

/-- Everything that learning an outcome can come to. -/
theorem inform_cases (b : Breaker) (gauge : Gauge) (o : ω) (now : Nat) :
    b.inform gauge o now = b ∨
    (Outcome.isSuccess o = true ∧ b.state = .opened ∧
      b.inform gauge o now = { b with state := .closed }) ∨
    (Outcome.isSuccess o = false ∧ b.state = .closed ∧
      b.inform gauge o now = (b.refresh gauge now).judge now) := by
  unfold inform
  cases ho : Outcome.isSuccess o <;> cases hs : b.state <;> simp

theorem inform_closed {b : Breaker} (hc : b.state = .closed) {o : ω}
    (ho : Outcome.isSuccess o = false) (gauge : Gauge) (now : Nat) :
    b.inform gauge o now = (b.refresh gauge now).judge now := by
  simp [inform, hc, ho]

/-- A success leaves a closed circuit alone. -/
theorem inform_success {b : Breaker} (hc : b.state = .closed) {o : ω}
    (ho : Outcome.isSuccess o = true) (gauge : Gauge) (now : Nat) :
    b.inform gauge o now = b := by
  simp [inform, hc, ho]

@[simp] theorem config_inform (b : Breaker) (gauge : Gauge) (o : ω) (now : Nat) :
    (b.inform gauge o now).config = b.config := by
  rcases inform_cases b gauge o now with h | ⟨-, -, h⟩ | ⟨-, -, h⟩ <;> simp [h]

/-- Learning an outcome takes a reading now or keeps the time of the last one. -/
theorem lastRefresh_inform (b : Breaker) (gauge : Gauge) (o : ω) (now : Nat) :
    (b.inform gauge o now).lastRefresh = b.lastRefresh ∨
      (b.inform gauge o now).lastRefresh = some (millisOf now) := by
  rcases inform_cases b gauge o now with h | ⟨-, -, h⟩ | ⟨-, -, h⟩
  · simp [h]
  · simp [h]
  · rw [h, lastRefresh_judge, lastRefresh_refresh]
    split <;> simp

/-- A closed circuit opens on an outcome exactly when it is no success and the snapshot
crosses a threshold. -/
theorem inform_opens_iff {b : Breaker} (hc : b.state = .closed) (gauge : Gauge) (o : ω)
    (now : Nat) :
    (b.inform gauge o now).state = .opened ↔
      Outcome.isSuccess o = false ∧ b.config.tripsOn (b.snapshot gauge now) = true := by
  cases ho : Outcome.isSuccess o with
  | true => simp [inform_success hc ho, hc]
  | false =>
    rw [inform_closed hc ho, state_judge]
    simp [hc]

/-- One operation of a breaker. -/
inductive Move (ω : Type) where
  | ask (now : Nat)
  | tell (gauge : Gauge) (outcome : ω) (now : Nat)
  | pull (l : Lever)

def step (b : Breaker) : Move ω → Breaker
  | .ask now => (b.ask now).breaker
  | .tell gauge o now => (b.tell gauge o now).breaker
  | .pull l => (b.pull l).breaker

/-- The breaker after a run of operations. -/
def after (b : Breaker) (moves : List (Move ω)) : Breaker := moves.foldl step b

@[simp] theorem after_nil (b : Breaker) : b.after ([] : List (Move ω)) = b := rfl

@[simp] theorem after_cons (b : Breaker) (m : Move ω) (moves : List (Move ω)) :
    b.after (m :: moves) = (b.step m).after moves := rfl

/-- The configuration in force after an operation. -/
def Move.inForce (c : BreakerConfig) : Move ω → BreakerConfig
  | .pull (.configure c') => if c'.fault? = none then c' else c
  | _ => c

theorem config_step (b : Breaker) (m : Move ω) : (b.step m).config = m.inForce b.config := by
  cases m with
  | ask now => exact config_allow b now
  | tell gauge o now => exact config_inform b gauge o now
  | pull l =>
    cases l with
    | forceOpen => rfl
    | forceClosed => rfl
    | configure c => cases hc : c.fault? <;> simp [step, pull, configure, setConfig, hc,
        Turn.map, Move.inForce]

/-- The configuration in force is the one that was last taken over. -/
theorem config_after (b : Breaker) (moves : List (Move ω)) :
    (b.after moves).config = moves.foldl Move.inForce b.config := by
  induction moves generalizing b with
  | nil => rfl
  | cons m moves ih => rw [after_cons, ih, config_step, List.foldl_cons]

/-- Of all operations only an outcome opens a closed circuit; force puts it in another state. -/
theorem step_opens_iff {b : Breaker} (hc : b.state = .closed) (m : Move ω) :
    (b.step m).state = .opened ↔
      ∃ gauge o now, m = .tell gauge o now ∧ Outcome.isSuccess o = false ∧
        b.config.tripsOn (b.snapshot gauge now) = true := by
  cases m with
  | ask now => simp [step, Breaker.ask, hc]
  | tell gauge o now =>
    rw [step, Breaker.tell, inform_opens_iff hc]
    constructor
    · intro h
      exact ⟨gauge, o, now, rfl, h⟩
    · rintro ⟨gauge', o', now', hm, h⟩
      cases hm
      exact h
  | pull l =>
    cases l with
    | forceOpen => simp [step, Breaker.pull, force, Breaker.forceOpen]
    | forceClosed => simp [step, Breaker.pull, force, Breaker.forceClosed]
    | configure c => cases hf : c.fault? <;> simp [step, Breaker.pull, configure, setConfig, hf,
        Turn.map, hc]

/-- Whenever an operation of a run opens a closed circuit, it tells of a failure, and the
snapshot it uses crosses a threshold of the configuration in force. -/
def OnlyFailureOpens (ω : Type) [Outcome ω] : Prop :=
  ∀ (config : BreakerConfig) (name : String) (b : Breaker), ofConfig config name = .ok b →
    ∀ (past : List (Move ω)) (m : Move ω), (b.after past).state = .closed →
      ((b.after past).step m).state = .opened →
        ∃ gauge o now, m = .tell gauge o now ∧ Outcome.isFailure o = true ∧
          (past.foldl Move.inForce config).tripsOn ((b.after past).snapshot gauge now) = true

theorem config_ofConfig {config : BreakerConfig} {name : String} {b : Breaker}
    (h : ofConfig config name = .ok b) : b.config = config := by
  unfold ofConfig at h
  split at h
  · cases h
  · cases h
    rfl

/-- In every run, a circuit opens on exactly those outcomes that are no success and find a
threshold crossed. Only failures open it if and only if no outcome is neither a success nor a
failure. -/
theorem opens_iff :
    (∀ (b : Breaker) (past : List (Move ω)) (m : Move ω), (b.after past).state = .closed →
      (((b.after past).step m).state = .opened ↔
        ∃ gauge o now, m = .tell gauge o now ∧ Outcome.isSuccess o = false ∧
          (past.foldl Move.inForce b.config).tripsOn
            ((b.after past).snapshot gauge now) = true)) ∧
    (OnlyFailureOpens ω ↔
      ∀ o : ω, Outcome.isSuccess o = true ∨ Outcome.isFailure o = true) := by
  have hstep : ∀ (b : Breaker) (past : List (Move ω)) (m : Move ω),
      (b.after past).state = .closed → (((b.after past).step m).state = .opened ↔
        ∃ gauge o now, m = .tell gauge o now ∧ Outcome.isSuccess o = false ∧
          (past.foldl Move.inForce b.config).tripsOn
            ((b.after past).snapshot gauge now) = true) := by
    intro b past m hc
    rw [step_opens_iff hc m, config_after]
  refine ⟨hstep, ?_, ?_⟩
  · intro honly o
    cases ho : Outcome.isSuccess o with
    | true => exact .inl rfl
    | false =>
      -- a first outcome opens the circuit when a single failure is one too many
      right
      let sick : Gauge := fun _ _ => ⟨1, 1, 1, 0⟩
      let config : BreakerConfig := { failureThreshold := 0 }
      obtain ⟨gauge, o', now, hm, hfailure, -⟩ := honly config "" _ rfl [] (.tell sick o 0) rfl
        ((inform_opens_iff rfl sick o 0).mpr ⟨ho, rfl⟩)
      cases hm
      exact hfailure
  · intro hall config name b hb past m hc hopen
    obtain ⟨gauge, o, now, hm, ho, htrip⟩ := (hstep b past m hc).mp hopen
    rw [config_ofConfig hb] at htrip
    refine ⟨gauge, o, now, hm, ?_, htrip⟩
    rcases hall o with h | h
    · rw [h] at ho
      cases ho
    · exact h

/-- Three outcomes, one of which is neither a success nor a failure. -/
inductive Verdict where
  | good | bad | undecided
  deriving DecidableEq, Repr

instance : Outcome Verdict where
  variants := [.good, .bad, .undecided]
  ordinal
    | .good => 0
    | .bad => 1
    | .undecided => 2
  inspect
    | .good => "Good"
    | .bad => "Bad"
    | .undecided => "Undecided"
  isFailure o := o = .bad
  isSuccess o := o = .good
  getElem?_ordinal o := by cases o <;> rfl
  map_ordinal := rfl

/-- With three failures among five events, an undecided outcome opens the circuit. -/
theorem undecided_opens : ¬ OnlyFailureOpens Verdict := by
  intro honly
  obtain ⟨gauge, o, now, hm, hfailure, -⟩ :=
    honly { failureThreshold := 2 } "" _ rfl []
      (.tell (fun _ _ => ⟨5, 5, 3, 0⟩) .undecided 1000000) rfl rfl
  cases hm
  cases hfailure

/-- Every status is a success or a failure, so that the circuit of a guarded action opens on
failures only. -/
theorem opens_iff_status :
    OnlyFailureOpens Status ∧
    ∃ b, ofConfig { failureThreshold := 2 } "" = .ok b ∧
      (b.after [.tell Gauge.idle Status.error 0, .ask 5, .pull (.configure {})]).state =
        .closed ∧
      ((b.after [.tell Gauge.idle Status.error 0]).step
        (.tell (fun _ _ => ⟨5, 5, 3, 0⟩) Status.timeout 500000000)).state = .opened := by
  have hall : ∀ o : Status, Outcome.isSuccess o = true ∨ Outcome.isFailure o = true := by
    intro o
    cases o <;> decide
  refine ⟨(opens_iff (ω := Status)).2.mpr hall, _, rfl, rfl, ?_⟩
  rw [(opens_iff (ω := Status)).1 _ [.tell Gauge.idle Status.error 0] _ rfl]
  exact ⟨_, _, _, rfl, rfl, rfl⟩

end Breaker

end Turnstile
