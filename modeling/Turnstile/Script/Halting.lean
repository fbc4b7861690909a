import Turnstile.Script.Machine

/-!
# Runs of the script machine end

Each step of the machine lowers its weight: a script only ever moves from the
place where it is kept to the stack, and loses a step there. So the weight is
fuel enough, and a run ends with an empty stack.
-/

namespace Turnstile.Machine

variable {ω : Type}

@[simp] theorem weights_cons (s : Step ω) (rest : List (Step ω)) :
    Step.weights (s :: rest) = s.weight + Step.weights rest := by rw [Step.weights]

@[simp] theorem weights_nil : Step.weights ([] : List (Step ω)) = 0 := by rw [Step.weights]

@[simp] theorem weight_on (kind : Kind) (label : String) (body : List (Step ω)) :
    (Step.on kind label body).weight = 6 + Step.weights body := by rw [Step.weight]

theorem six_le_weight (s : Step ω) : 6 ≤ s.weight := by
  cases s with
  | on kind label body => rw [Step.weight]; exact Nat.le_add_right _ _
  | _ => exact Nat.le_of_eq (by rw [Step.weight])

@[simp] theorem stackWeight_nil : stackWeight ([] : List (Frame ω)) = 0 := rfl

@[simp] theorem stackWeight_cons (f : Frame ω) (rest : List (Frame ω)) :
    stackWeight (f :: rest) = frameWeight f + stackWeight rest := rfl

@[simp] theorem stackWeight_append (a b : List (Frame ω)) :
    stackWeight (a ++ b) = stackWeight a + stackWeight b := by
  induction a with
  | nil => simp
  | cons f a ih => simp [ih, Nat.add_assoc]

@[simp] theorem callbacksWeight_append (a b : List (Callback (Reaction ω))) :
    callbacksWeight (a ++ b) = callbacksWeight a + callbacksWeight b := by
  induction a with
  | nil => simp [callbacksWeight]
  | cons c a ih => simp [callbacksWeight, ih, Nat.add_assoc]

theorem stackWeight_fire (cs : List (Callback (Reaction ω))) (s : Settled ω) :
    stackWeight (cs.map fun c => .fire c s) = callbacksWeight cs := by
  induction cs with
  | nil => rfl
  | cons c cs ih => simp_all [callbacksWeight, frameWeight]

@[simp] theorem weight_push (m : Machine ω) (frames : List (Frame ω)) :
    (m.push frames).weight = stackWeight frames + m.weight := by
  simp only [weight, push, stackWeight_append]; omega

@[simp] theorem weight_emit (m : Machine ω) (events : List (Event ω)) :
    (m.emit events).weight = m.weight := rfl

@[simp] theorem weight_noteDown (m : Machine ω) (notes : List Note) :
    (m.noteDown notes).weight = m.weight := rfl

@[simp] theorem weight_report (m : Machine ω) (kind : Kind) (p : Panic) :
    (m.report kind p).weight = m.weight := rfl

@[simp] theorem weight_raise (m : Machine ω) (raised : Option Panic) :
    ({ m with raised := raised } : Machine ω).weight = m.weight := rfl

theorem weight_settle_le (m : Machine ω) (s : Settled ω) : (m.settle s).weight ≤ m.weight + 1 := by
  obtain ⟨⟨phase, hook, callbacks⟩, _, _, _, _, _, _, _⟩ := m
  cases phase <;> cases hook <;>
    simp [settle, Promise.begin?, weight, promiseWeight, push, emit, frameWeight] <;> omega

theorem weight_publish (m : Machine ω) : m.publish.weight = m.weight := by
  obtain ⟨⟨phase, hook, callbacks⟩, _, _, _, _, _, _, _⟩ := m
  cases phase <;>
    simp [publish, Promise.publish, weight, promiseWeight, push, stackWeight_fire,
      callbacksWeight]
  omega

theorem weight_fire_lt (m : Machine ω) (c : Callback (Reaction ω)) (s : Settled ω) :
    (m.fire c s).weight < m.weight + callbackWeight c := by
  unfold fire
  split
  · simp [frameWeight, callbackWeight]; omega
  · exact Nat.lt_add_of_pos_right (by unfold callbackWeight; omega)

theorem weight_register (m : Machine ω) (c : Callback (Reaction ω)) :
    (m.register c).weight = m.weight + callbackWeight c := by
  obtain ⟨⟨phase, hook, callbacks⟩, _, _, _, _, _, _, _⟩ := m
  cases phase <;>
    simp [register, Promise.register, weight, promiseWeight, push, frameWeight,
      callbacksWeight] <;> omega

theorem weight_runTask_le (m : Machine ω) : m.runTask.weight ≤ m.weight := by
  unfold runTask
  split
  · exact Nat.le_refl _
  · rename_i w hw
    split
    · exact Nat.le_refl _
    · split
      · exact Nat.le_refl _
      · rename_i a ha
        simp [weight, emit, push, frameWeight, workWeight, hw, ha]
        omega

theorem weight_cancel (m : Machine ω) : m.cancel.weight = m.weight := by
  simp only [weight, cancel, workWeight]
  cases m.work <;> rfl

@[simp] theorem weight_spend (m : Machine ω) (q : Question) : (m.spend q).weight = m.weight := by
  cases q with
  | getTimeout wait => rw [spend]; split <;> rfl
  | _ => rfl

variable [Outcome ω]

theorem weight_conclude_le (m : Machine ω) (r : CallResult) :
    (m.conclude r).weight ≤ m.weight + 1 := by
  unfold conclude
  split
  · omega
  · split
    · omega
    · exact weight_settle_le _ _

theorem weight_expire_le (m : Machine ω) : m.expire.weight ≤ m.weight + 2 := by
  unfold expire
  split
  · omega
  · split
    · omega
    · refine Nat.le_trans (weight_settle_le _ _) ?_
      simp [frameWeight]; omega

omit [Outcome ω] in
theorem weight_afterExpiry (m : Machine ω) (won : Bool) :
    (m.afterExpiry won).weight = m.weight := by
  unfold afterExpiry
  split
  · rfl
  · rw [weight_cancel, weight_noteDown]

theorem weight_perform_lt (m : Machine ω) (s : Step ω) :
    (m.perform s).weight < m.weight + s.weight - 2 := by
  have six := six_le_weight s
  cases s with
  | complete o v => have := weight_settle_le m (.ofValue o v); simp only [perform]; omega
  | fail o e => have := weight_settle_le m (.ofError o e); simp only [perform]; omega
  | on kind label body =>
    simp only [perform, weight_register, callbackWeight, weight_on]; omega
  | panic p => simp only [perform, weight_raise]; omega
  | ask q => simp only [perform, weight_spend]; omega
  | run => have := weight_runTask_le m; simp only [perform]; omega
  | expire => have := weight_expire_le m; simp only [perform]; omega
  | cancel => have := weight_cancel m; simp only [perform]; omega

theorem weight_work1_lt (m : Machine ω) (f : Frame ω) :
    (m.work1 f).weight < m.weight + frameWeight f := by
  cases f with
  | body steps =>
    cases steps with
    | nil => simp [work1, frameWeight]
    | cons s rest =>
      have six := six_le_weight s
      have := weight_perform_lt (m.push [.report s.verb (m.answer s), .body rest]) s
      cases s <;> simp [work1, frameWeight] at this ⊢ <;> omega
  | report verb a => simp [work1, frameWeight]
  | guard kind => simp [work1, frameWeight]
  | publish => simp [work1, frameWeight, weight_publish]
  | fire c s => simpa [work1, frameWeight] using weight_fire_lt m c s
  | conclude ending =>
    have := weight_conclude_le m ending.result
    simp only [work1, frameWeight]; omega
  | expired won => simp [work1, frameWeight, weight_afterExpiry]

theorem weight_unwind_lt (m : Machine ω) (p : Panic) (f : Frame ω) :
    (m.unwind p f).weight < m.weight + frameWeight f := by
  cases f with
  | conclude ending =>
    have := weight_conclude_le { m with raised := none } (Ending.panics p).result
    simp only [unwind, frameWeight, weight_raise] at this ⊢; omega
  | fire c s => simp only [unwind, frameWeight, callbackWeight]; omega
  | body steps => simp only [unwind, frameWeight]; omega
  | _ => simp [unwind, frameWeight]

theorem weight_step_lt (m : Machine ω) (h : m.stack ≠ []) : m.step.weight < m.weight := by
  obtain ⟨promise, work, fallback, stack, raised, events, notes, waited⟩ := m
  cases stack with
  | nil => exact absurd rfl h
  | cons f rest =>
    have split_weight :
        (Machine.mk promise work fallback (f :: rest) raised events notes waited).weight =
          (Machine.mk promise work fallback rest raised events notes waited).weight +
          frameWeight f := by
      simp only [weight, stackWeight_cons]; omega
    rw [split_weight]
    cases raised with
    | none => exact weight_work1_lt _ f
    | some p => exact weight_unwind_lt _ p f

theorem stack_runFor (n : Nat) (m : Machine ω) (h : m.weight ≤ n) : (m.runFor n).stack = [] := by
  induction n generalizing m with
  | zero =>
    apply Classical.byContradiction
    intro hne
    have := weight_step_lt m hne
    omega
  | succ n ih =>
    by_cases hne : m.stack = []
    · have hs : m.step = m := by simp [step, hne]
      rw [runFor, hs]
      cases hw : m.weight with
      | zero => exact ih m (by omega)
      | succ k =>
        clear ih
        have : ∀ k, (m.runFor k).stack = [] := by
          intro k
          induction k with
          | zero => exact hne
          | succ k ih => rw [runFor, hs]; exact ih
        exact this n
    · exact ih m.step (by have := weight_step_lt m hne; omega)

/-- Every run ends. -/
theorem halted_run (m : Machine ω) : m.run.stack = [] := stack_runFor _ m (Nat.le_refl _)

end Turnstile.Machine
