import Turnstile.Proofs.HealthLooks

/-!
# Circuits forced open

A circuit that is forced open is deaf: it refuses every call, takes no reading and learns
nothing, until it is forced closed. So a run can leave out whatever was asked and told in the
meantime, and all the rest of it goes as before.
-/

namespace Turnstile

/-- The elements of a list that are marked. -/
def marked {α : Type} : List Bool → List α → List α
  | true :: marks, x :: xs => x :: marked marks xs
  | false :: marks, _ :: xs => marked marks xs
  | _, _ => []

namespace Breaker

variable {ω : Type}

/-- Whether the levers hold the circuit forced open after an operation. -/
def Move.forces (forced : Bool) : Move ω → Bool
  | .pull .forceOpen => true
  | .pull .forceClosed => false
  | .pull (.configure _) | .ask _ | .tell _ _ _ => forced

/-- Only the lever that forces the circuit closed ends it. -/
theorem forces_eq_true {m : Move ω} (h : m ≠ .pull .forceClosed) : m.forces true = true := by
  cases m with
  | ask now => rfl
  | tell gauge o now => rfl
  | pull l =>
    cases l with
    | forceOpen => rfl
    | forceClosed => exact absurd rfl h
    | configure c => rfl

/-- Whether an operation goes by the circuit itself and not by its levers. -/
def Move.isTraffic : Move ω → Bool
  | .ask _ | .tell _ _ _ => true
  | .pull _ => false

/-- Marks the operations of a run, all but those that ask or tell while the circuit is forced
open. -/
def heeded (forced : Bool) : List (Move ω) → List Bool
  | [] => []
  | m :: moves => (!forced || !m.isTraffic) :: heeded (m.forces forced) moves

/-- What an operation is answered. -/
inductive Answer where
  | admission (refusal : Option Rejection)
  | acceptance (result : Except ConfigFault PUnit)
  | done
  deriving DecidableEq

/-- All that an operation shows: its answer, the readings it takes and the breaker it leaves. -/
structure Glimpse where
  answer : Answer
  readings : List (Duration × Nat)
  breaker : Breaker

variable [Outcome ω]

def answer (b : Breaker) : Move ω → Answer
  | .ask now => .admission (b.ask now).answer
  | .pull (.configure c) => .acceptance (b.configure c).answer
  | .pull .forceOpen | .pull .forceClosed | .tell _ _ _ => .done

def glimpse (b : Breaker) (m : Move ω) : Glimpse := ⟨b.answer m, b.readings m, b.step m⟩

/-- What every operation of a run shows. -/
def transcript (b : Breaker) : List (Move ω) → List Glimpse
  | [] => []
  | m :: moves => b.glimpse m :: (b.step m).transcript moves

theorem after_append (b : Breaker) (moves moves' : List (Move ω)) :
    b.after (moves ++ moves') = (b.after moves).after moves' :=
  List.foldl_append

/-- Neither a request nor an outcome leaves a trace on a circuit that is forced open. -/
theorem step_traffic {b : Breaker} (h : b.state = .forcedOpen) {m : Move ω}
    (traffic : m.isTraffic = true) : b.step m = b := by
  cases m with
  | ask now =>
    show (b.allow now).2 = b
    simp [allow, h]
  | tell gauge o now =>
    show b.inform gauge o now = b
    simp [inform, h]
  | pull l => cases traffic

@[simp] theorem state_configure (b : Breaker) (c : BreakerConfig) :
    (b.step (.pull (.configure c) : Move ω)).state = b.state := by
  cases hc : c.fault? <;> simp [step, pull, configure, setConfig, hc, Turn.map]

/-- The circuit is forced open whenever its levers say so. -/
theorem state_step_forced {b : Breaker} {forced : Bool}
    (h : forced = true → b.state = .forcedOpen) (m : Move ω) (still : m.forces forced = true) :
    (b.step m).state = .forcedOpen := by
  cases m with
  | ask now => rw [step_traffic (h still) rfl, h still]
  | tell gauge o now => rw [step_traffic (h still) rfl, h still]
  | pull l =>
    cases l with
    | forceOpen => rfl
    | forceClosed => cases still
    | configure c => rw [state_configure, h still]

theorem ask_forced {b : Breaker} (h : b.state = .forcedOpen) (now : Nat) :
    (b.ask now).answer = some .forcedOpen := by
  simp [ask, allow, h]

theorem readings_forced {b : Breaker} (h : b.state = .forcedOpen) (m : Move ω) :
    b.readings m = [] := by
  rcases step_looks b m with ⟨hnone, -⟩ | ⟨_, _, _, -, -, hclosed, -⟩
  · exact List.map_eq_nil_iff.mp hnone
  · rw [h] at hclosed
    cases hclosed

theorem state_after_forced {b : Breaker} (h : b.state = .forcedOpen) {moves : List (Move ω)}
    (kept : Move.pull .forceClosed ∉ moves) : (b.after moves).state = .forcedOpen := by
  induction moves generalizing b with
  | nil => exact h
  | cons m moves ih =>
    rw [List.mem_cons, not_or] at kept
    have hstep : (b.step m).state = .forcedOpen :=
      state_step_forced (fun _ => h) m (forces_eq_true (Ne.symm kept.1))
    exact ih hstep kept.2

/-- What a run does not heed, it can do without. -/
theorem heeded_suffices {b : Breaker} {forced : Bool}
    (h : forced = true → b.state = .forcedOpen) (moves : List (Move ω)) :
    b.after (marked (heeded forced moves) moves) = b.after moves ∧
      b.transcript (marked (heeded forced moves) moves) =
        marked (heeded forced moves) (b.transcript moves) := by
  induction moves generalizing b forced with
  | nil => exact ⟨rfl, rfl⟩
  | cons m moves ih =>
    obtain ⟨hafter, htranscript⟩ := ih (state_step_forced h m)
    by_cases hdeaf : forced = true ∧ m.isTraffic = true
    · -- the operation is left out, and the rest of the run starts from the same breaker
      obtain ⟨hforced, htraffic⟩ := hdeaf
      have hmark : (!forced || !m.isTraffic) = false := by simp [hforced, htraffic]
      have hsame : b.step m = b := step_traffic (h hforced) htraffic
      rw [hsame] at hafter htranscript
      simp only [heeded, hmark, marked, transcript, after_cons, hsame]
      exact ⟨hafter, htranscript⟩
    · have hmark : (!forced || !m.isTraffic) = true := by
        cases forced <;> simp_all
      simp only [heeded, hmark, marked, transcript, after_cons]
      exact ⟨hafter, congrArg _ htranscript⟩

/-- From the time that a circuit is forced open until it is forced closed, it reads as forced
open, refuses every call for that reason and takes no reading. A run can do without all that it
is asked and told in the meantime: the breaker after it is the same, and so is everything that
the rest of the run shows. It may begin with a circuit that was forced open before. -/
theorem forcedOpen_suspends (b : Breaker) :
    (∀ past during : List (Move ω), .pull .forceClosed ∉ during →
      let r := b.after (past ++ .pull .forceOpen :: during)
      r.state = .forcedOpen ∧ (∀ now, (r.ask now).answer = some .forcedOpen) ∧
        ∀ m : Move ω, r.readings m = []) ∧
    ∀ forced : Bool, (forced = true → b.state = .forcedOpen) → ∀ moves : List (Move ω),
      b.after (marked (heeded forced moves) moves) = b.after moves ∧
        b.transcript (marked (heeded forced moves) moves) =
          marked (heeded forced moves) (b.transcript moves) := by
  constructor
  · intro past during kept r
    have hr : r.state = .forcedOpen := by
      show (b.after (past ++ .pull .forceOpen :: during)).state = .forcedOpen
      rw [after_append, after_cons]
      exact state_after_forced rfl kept
    exact ⟨hr, ask_forced hr, readings_forced hr⟩
  · intro forced h moves
    exact heeded_suffices h moves

/-- Calls fail, succeed and are refused while the circuit is forced open twice under another
configuration; afterwards the first failure is judged by the look from before. -/
def drill : List (Move Status) :=
  [.tell (fun _ _ => ⟨1, 1, 1, 0⟩) .error 2000000, .pull .forceOpen, .ask 3000000,
    .tell (fun _ _ => ⟨9, 9, 9, 0⟩) .error 200000000, .pull (.configure { failureThreshold := 0 }),
    .tell (fun _ _ => ⟨9, 9, 9, 0⟩) .success 300000000, .pull .forceOpen, .ask 2000000000,
    .pull .forceClosed, .ask 2000000000, .tell (fun _ _ => ⟨9, 9, 9, 0⟩) .error 2000001]

theorem forcedOpen_suspends_drill :
    Move.pull .forceClosed ∉ (drill.drop 2).take 6 ∧
    (patient.after (drill.take 8)).state = .forcedOpen ∧
    (∀ now, ((patient.after (drill.take 8)).ask now).answer = some .forcedOpen) ∧
    marked (heeded false drill) drill =
      drill.take 2 ++ [.pull (.configure { failureThreshold := 0 }), .pull .forceOpen] ++
        drill.drop 8 ∧
    patient.after (marked (heeded false drill) drill) = patient.after drill ∧
    (patient.after drill).health = ⟨1, 1, 1, 0⟩ ∧ (patient.after drill).state = .opened := by
  have kept : Move.pull .forceClosed ∉ (drill.drop 2).take 6 := by simp [drill]
  obtain ⟨hduring, hwithout⟩ := forcedOpen_suspends (ω := Status) patient
  obtain ⟨hstate, hask, -⟩ := hduring (drill.take 1) ((drill.drop 2).take 6) kept
  refine ⟨kept, hstate, hask, rfl, (hwithout false nofun drill).1, ?_, ?_⟩
  · rfl
  · rfl

end Breaker

end Turnstile
