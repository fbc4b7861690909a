import Turnstile.Proofs.Assignment
import Turnstile.Proofs.Shelter

/-!
# The hook comes first

A value is stored, the hook is run, the value is shown, and the callbacks are fired, in this
order for everybody who looks, also for scripts that run in the middle of it. The proof divides
the life of a promise into four chapters, with or without a task, and says what can stand on the
stack in each. Beside the machine it keeps the list of all attempts to settle.
-/

namespace Turnstile

/-- The outcome that the hook was run with. -/
def Event.hook? {ω : Type} : Event ω → Option ω
  | .hook outcome => some outcome
  | .callback .. | .action _ | .did .. | .fallback .. | .fired _ => none

namespace Frame

variable {ω : Type}

/-- A frame of a script or of a task: what it does by itself shows nothing and fires nothing. -/
def IsPlain : Frame ω → Prop
  | .body _ | .report .. | .conclude _ | .expired _ => True
  | .guard _ | .publish | .fire .. => False

/-- A frame that may be left to run when `v` has been shown. -/
def Suits (v : Settled ω) : Frame ω → Prop
  | .publish => False
  | .fire _ v' => v' = v
  | .body _ | .report .. | .guard _ | .conclude _ | .expired _ => True

theorem IsPlain.suits {f : Frame ω} (h : f.IsPlain) (v : Settled ω) : f.Suits v := by
  cases f <;> first | exact h.elim | trivial

end Frame

namespace Machine

variable {ω : Type}

/-- The outcomes that hooks were run with, oldest first. -/
def hooked (m : Machine ω) : List ω := m.events.filterMap Event.hook?

section Attempts

variable [Outcome ω]

/-- The attempt that a task makes on the result of its action. -/
def verdict? (m : Machine ω) (r : CallResult) : Option (Settled ω) :=
  m.work.bind fun w => Task.verdict w.grade w.task.cancelled r

/-- The attempt that a step makes when it begins. -/
def attempt? (m : Machine ω) : Step ω → Option (Settled ω)
  | .expire => m.work.bind fun w =>
      if m.promise.isDone then none else some (w.task.expiry w.grade)
  | s => s.attempt?

/-- The attempt that the next step of the machine makes. -/
def nextAttempt? (m : Machine ω) : Option (Settled ω) :=
  match m.raised, m.stack with
  | none, .body (s :: _) :: _ => m.attempt? s
  | none, .conclude ending :: _ => m.verdict? ending.result
  | some p, .conclude _ :: _ => m.verdict? (Ending.panics p).result
  | _, _ => none

/-- The attempts in the next `n` steps of the machine, oldest first. -/
def attemptsFor : Nat → Machine ω → List (Settled ω)
  | 0, _ => []
  | n + 1, m => m.nextAttempt?.toList ++ attemptsFor n m.step

/-- The attempts in a program, oldest first. -/
def attemptsOf (m : Machine ω) : Script ω → List (Settled ω)
  | [] => []
  | s :: program => (m.attempt? s).toList ++ (m.perform s).attemptsFor (m.perform s).weight ++
      (m.enact s).2.attemptsOf program

/-- The value that the promise was settled with, shown or not. -/
def value? (m : Machine ω) : Option (Settled ω) := m.promise.phase.value?

variable {m : Machine ω}

omit [Outcome ω] in
/-- An attempt counts if there was none before. -/
theorem value?_settle (m : Machine ω) (v : Settled ω) :
    (m.settle v).value? = m.value?.or (some v) := by
  rcases m.settle_cases v with ⟨hp, h⟩ | ⟨hp, -, h⟩ | ⟨steps, hp, -, h⟩
  · rw [h]
    cases hv : m.value? with
    | none => exact absurd (Phase.value?_eq_none.mp hv) hp
    | some v' => rfl
  · rw [h, value?, value?, hp]
    rfl
  · rw [h, value?, value?, hp]
    rfl

theorem value?_conclude (m : Machine ω) (r : CallResult) :
    (m.conclude r).value? = m.value?.or (m.verdict? r) := by
  unfold conclude verdict?
  cases m.work with
  | none => simp
  | some w =>
    simp only [Option.bind_some]
    cases Task.verdict w.grade w.task.cancelled r with
    | none => simp
    | some v => exact m.value?_settle v

theorem value?_expire (m : Machine ω) :
    m.expire.value? = m.value?.or (m.attempt? .expire) := by
  unfold expire attempt?
  cases m.work with
  | none => simp
  | some w =>
    simp only [Option.bind_some]
    split
    · simp
    · exact value?_settle _ _

theorem value?_perform (m : Machine ω) (s : Step ω) :
    (m.perform s).value? = m.value?.or (m.attempt? s) := by
  have hsame : ∀ m' : Machine ω, m'.promise = m.promise → m'.value? = m.value?.or none :=
    fun m' h => by rw [value?, h, Option.or_none]; rfl
  cases s with
  | complete o x => exact m.value?_settle _
  | fail o e => exact m.value?_settle _
  | on kind label body =>
    rw [perform, register, attempt?, Step.attempt?, Option.or_none]
    · cases hp : m.promise.phase <;> simp [Promise.register, hp, value?, push]
    · simp
  | panic p => exact hsame _ rfl
  | ask q =>
    refine hsame _ ?_
    cases q with
    | getTimeout wait =>
      rw [perform, spend]
      split <;> rfl
    | _ => rfl
  | run =>
    refine hsame _ ?_
    rw [perform, runTask]
    split
    · rfl
    · split
      · rfl
      · split <;> rfl
  | expire => exact m.value?_expire
  | cancel => exact hsame _ rfl

omit [Outcome ω] in
theorem value?_publish (m : Machine ω) : m.publish.value? = m.value? := by
  cases hp : m.promise.phase <;> simp [publish, Promise.publish, value?, Phase.value?, hp, push]

/-- The next step settles the promise by its attempt, unless it was settled before. -/
theorem value?_step (m : Machine ω) : m.step.value? = m.value?.or m.nextAttempt? := by
  cases hs : m.stack with
  | nil => simp [step, nextAttempt?, hs]
  | cons f below =>
    cases hr : m.raised with
    | some p =>
      rw [step_panic hs hr]
      cases f with
      | conclude ending =>
        simp only [nextAttempt?, hs, hr]
        exact value?_conclude { m with stack := below, raised := none } _
      | _ => simp only [nextAttempt?, hs, hr, Option.or_none]; rfl
    | none =>
      rw [step_frame hs hr]
      cases f with
      | body script =>
        cases script with
        | nil => simp only [nextAttempt?, hs, hr, Option.or_none]; rfl
        | cons s rest =>
          simp only [nextAttempt?, hs, hr]
          by_cases hpanic : s.verb = .panic
          · obtain ⟨p, rfl⟩ := Step.verb_eq_panic hpanic
            exact (Option.or_none).symm
          · rw [work1_body _ hpanic, value?_perform]
            rfl
      | conclude ending =>
        simp only [nextAttempt?, hs, hr]
        exact value?_conclude { m with stack := below, raised := none } _
      | publish =>
        simp only [nextAttempt?, hs, hr, Option.or_none]
        exact value?_publish { m with stack := below, raised := none }
      | fire c v =>
        simp only [nextAttempt?, hs, hr, Option.or_none, work1, fire]
        split <;> rfl
      | expired won =>
        simp only [nextAttempt?, hs, hr, Option.or_none, work1, afterExpiry]
        split <;> rfl
      | _ => simp only [nextAttempt?, hs, hr, Option.or_none]; rfl

end Attempts

/-- The promise and what was seen of its hook and its callbacks stay, and only plain frames are
added to the stack. -/
structure Adds (m m' : Machine ω) : Prop where
  promise : m'.promise = m.promise
  stack : ∃ frames, m'.stack = frames ++ m.stack ∧ ∀ f ∈ frames, f.IsPlain
  hooked : m'.hooked = m.hooked
  seen : m'.seen = m.seen

theorem Adds.same {m m' : Machine ω} (promise : m'.promise = m.promise)
    (stack : m'.stack = m.stack) (events : m'.events = m.events) : m.Adds m' :=
  ⟨promise, ⟨[], by simp [stack], by simp⟩, by rw [Machine.hooked, events]; rfl,
    by rw [Machine.seen, events]; rfl⟩

theorem Adds.refl (m : Machine ω) : m.Adds m := .same rfl rfl rfl

theorem Adds.trans {m m' m'' : Machine ω} (h : m.Adds m') (h' : m'.Adds m'') : m.Adds m'' := by
  obtain ⟨frames, hs, hplain⟩ := h.stack
  obtain ⟨frames', hs', hplain'⟩ := h'.stack
  refine ⟨h'.promise.trans h.promise, ⟨frames' ++ frames, by simp [hs', hs], fun f hf => ?_⟩,
    h'.hooked.trans h.hooked, h'.seen.trans h.seen⟩
  exact (List.mem_append.mp hf).elim (hplain' f) (hplain f)

theorem push_adds (m : Machine ω) {frames : List (Frame ω)} (plain : ∀ f ∈ frames, f.IsPlain) :
    m.Adds (m.push frames) := ⟨rfl, ⟨frames, rfl, plain⟩, rfl, rfl⟩

theorem raise_adds (m : Machine ω) (raised : Option Panic) : m.Adds { m with raised := raised } :=
  .same rfl rfl rfl

theorem spend_adds (m : Machine ω) (q : Question) : m.Adds (m.spend q) := by
  cases q with
  | getTimeout wait =>
    rw [spend]
    split
    · exact .refl m
    · exact .same rfl rfl rfl
  | _ => exact .refl m

theorem runTask_adds (m : Machine ω) : m.Adds m.runTask := by
  unfold runTask
  split
  · exact .refl m
  · split
    · exact .refl m
    · split
      · exact .refl m
      · refine ⟨rfl, ⟨_, rfl, by simp [Frame.IsPlain]⟩, ?_, ?_⟩
        · simp [Machine.hooked, push, emit, Event.hook?]
        · simp [Machine.seen, push, emit, Event.call?]

theorem did_adds (m : Machine ω) (verb : Verb) (a : Answer ω) : m.Adds (m.emit [.did verb a]) :=
  ⟨rfl, ⟨[], rfl, by simp⟩, by simp [Machine.hooked, emit, Event.hook?],
    by simp [Machine.seen, emit, Event.call?]⟩

theorem report_adds (m : Machine ω) (kind : Kind) (p : Panic) : m.Adds (m.report kind p) := by
  have hhook : (m.fallback.events kind p).filterMap (Event.hook? (ω := ω)) = [] := by
    cases m.fallback <;> rfl
  have hcall : (m.fallback.events kind p).filterMap (Event.call? (ω := ω)) = [] := by
    cases m.fallback <;> rfl
  exact ⟨rfl, ⟨[], rfl, by simp⟩, by simp [Machine.hooked, report, hhook],
    by simp [Machine.seen, report, hcall]⟩

theorem afterExpiry_adds (m : Machine ω) (won : Bool) : m.Adds (m.afterExpiry won) := by
  unfold afterExpiry
  split
  · exact .refl m
  · exact .same rfl rfl rfl

theorem settle_tried {m : Machine ω} (tried : m.promise.phase ≠ .pending) (v : Settled ω) :
    m.settle v = m := (settle_lost (Promise.isPending_eq_false_iff.mpr tried) v).1

section Tried

variable [Outcome ω] {m : Machine ω}

theorem conclude_adds (tried : m.promise.phase ≠ .pending) (r : CallResult) :
    m.Adds (m.conclude r) := by
  unfold conclude
  split
  · exact .refl m
  · split
    · exact .refl m
    · rw [settle_tried tried]
      exact .refl m

theorem expire_adds (tried : m.promise.phase ≠ .pending) : m.Adds m.expire := by
  unfold expire
  split
  · exact .refl m
  · split
    · exact .refl m
    · rw [settle_tried (by exact tried)]
      exact m.push_adds (by simp [Frame.IsPlain])

/-- Once there was an attempt, a step that does not register only adds plain frames. -/
theorem perform_adds (tried : m.promise.phase ≠ .pending) (s : Step ω) :
    m.Adds (m.perform s) ∨ ∃ c, m.perform s = m.register c := by
  cases s with
  | complete o x => exact .inl (by rw [perform, settle_tried tried]; exact .refl m)
  | fail o e => exact .inl (by rw [perform, settle_tried tried]; exact .refl m)
  | on kind label body => exact .inr ⟨_, rfl⟩
  | panic p => exact .inl (m.raise_adds _)
  | ask q => exact .inl (m.spend_adds q)
  | run => exact .inl m.runTask_adds
  | expire => exact .inl (expire_adds tried)
  | cancel => exact .inl (.same rfl rfl rfl)

/-- A script is over, or it panics, or its next step begins above its report. -/
theorem work1_script (m : Machine ω) (script : Script ω) :
    m.Adds (m.work1 (.body script)) ∨
      ∃ s m', m.Adds m' ∧ m.work1 (.body script) = m'.perform s := by
  cases script with
  | nil => exact .inl (.refl m)
  | cons s rest =>
    by_cases hpanic : s.verb = .panic
    · obtain ⟨p, rfl⟩ := Step.verb_eq_panic hpanic
      exact .inl (m.raise_adds _)
    · exact .inr ⟨s, _, m.push_adds (by simp [Frame.IsPlain]), m.work1_body hpanic⟩

theorem work1_adds (tried : m.promise.phase ≠ .pending) {f : Frame ω} (hf : f.IsPlain) :
    m.Adds (m.work1 f) ∨ ∃ c m', m.Adds m' ∧ m.work1 f = m'.register c := by
  cases f with
  | body script =>
    rcases m.work1_script script with hadds | ⟨s, m', hadds, hs⟩
    · exact .inl hadds
    · rw [hs]
      rcases perform_adds (hadds.promise ▸ tried) s with hadds' | ⟨c, hc⟩
      · exact .inl (hadds.trans hadds')
      · exact .inr ⟨c, m', hadds, hc⟩
  | report verb a => exact .inl (m.did_adds verb a)
  | conclude ending => exact .inl (conclude_adds tried _)
  | expired won => exact .inl (m.afterExpiry_adds won)
  | _ => exact hf.elim

theorem unwind_adds (tried : m.promise.phase ≠ .pending) (p : Panic) (f : Frame ω) :
    m.Adds (m.unwind p f) := by
  cases f with
  | guard kind => exact m.report_adds kind p
  | conclude ending =>
    exact (m.raise_adds none).trans
      (conclude_adds (m := { m with raised := none }) tried (Ending.panics p).result)
  | _ => exact .refl m

end Tried

/-- Nothing was tried: the hook is kept. -/
structure Untried (hook : Script ω) (m : Machine ω) : Prop where
  phase : m.promise.phase = .pending
  kept : m.promise.hook = some hook
  plain : ∀ f ∈ m.stack, f.IsPlain
  unrun : m.hooked = []
  silent : m.seen = []

/-- `v` is stored and the hook runs. -/
structure InHook (v : Settled ω) (m : Machine ω) : Prop where
  phase : m.promise.phase = .completing v
  taken : m.promise.hook = none
  shape : ∃ above below, m.stack = above ++ .guard v.kind :: .publish :: below ∧
    (∀ f ∈ above, f.IsPlain) ∧ ∀ f ∈ below, f.IsPlain
  run : m.hooked = [v.outcome]
  silent : m.seen = []

/-- The hook is over, and the next step shows `v`. -/
structure HookOver (v : Settled ω) (m : Machine ω) : Prop where
  phase : m.promise.phase = .completing v
  taken : m.promise.hook = none
  shape : ∃ below, m.stack = .publish :: below ∧ ∀ f ∈ below, f.IsPlain
  sound : m.raised = none
  run : m.hooked = [v.outcome]
  silent : m.seen = []

/-- `v` has been shown, and callbacks are given its result. -/
structure Shown (v : Settled ω) (m : Machine ω) : Prop where
  phase : m.promise.phase = .done v
  taken : m.promise.hook = none
  suits : ∀ f ∈ m.stack, f.Suits v
  run : m.hooked = [v.outcome]
  told : ∀ call ∈ m.seen, call.2 = v.result

/-- How far a promise with a hook has come. -/
inductive Chapter (hook : Script ω) (m : Machine ω) : Prop where
  | untried (h : m.Untried hook)
  | inHook (v : Settled ω) (h : m.InHook v)
  | hookOver (v : Settled ω) (h : m.HookOver v)
  | shown (v : Settled ω) (h : m.Shown v)

variable {hook : Script ω} {v : Settled ω} {m m' : Machine ω} {f : Frame ω}
  {below : List (Frame ω)}

theorem InHook.tried (h : m.InHook v) : m.promise.phase ≠ .pending := by simp [h.phase]

theorem Shown.tried (h : m.Shown v) : m.promise.phase ≠ .pending := by simp [h.phase]

/-- A hook was run at most once. -/
theorem Chapter.hooked (h : m.Chapter hook) : m.hooked = [] ∨ ∃ o, m.hooked = [o] := by
  cases h with
  | untried h => exact .inl h.unrun
  | inHook v h => exact .inr ⟨_, h.run⟩
  | hookOver v h => exact .inr ⟨_, h.run⟩
  | shown v h => exact .inr ⟨_, h.run⟩

theorem Untried.adds (h : m.Untried hook) (hadds : m.Adds m') : m'.Untried hook := by
  obtain ⟨frames, hs, hplain⟩ := hadds.stack
  refine ⟨hadds.promise ▸ h.phase, hadds.promise ▸ h.kept, fun f hf => ?_,
    hadds.hooked.trans h.unrun, hadds.seen.trans h.silent⟩
  rw [hs, List.mem_append] at hf
  exact hf.elim (hplain f) (h.plain f)

theorem InHook.adds (h : m.InHook v) (hadds : m.Adds m') : m'.InHook v := by
  obtain ⟨frames, hs, hplain⟩ := hadds.stack
  obtain ⟨above, below, hshape, habove, hbelow⟩ := h.shape
  refine ⟨hadds.promise ▸ h.phase, hadds.promise ▸ h.taken,
    ⟨frames ++ above, below, by simp [hs, hshape], fun f hf => ?_, hbelow⟩,
    hadds.hooked.trans h.run, hadds.seen.trans h.silent⟩
  exact (List.mem_append.mp hf).elim (hplain f) (habove f)

theorem Shown.adds (h : m.Shown v) (hadds : m.Adds m') : m'.Shown v := by
  obtain ⟨frames, hs, hplain⟩ := hadds.stack
  refine ⟨hadds.promise ▸ h.phase, hadds.promise ▸ h.taken, fun f hf => ?_,
    hadds.hooked.trans h.run, fun call hcall => h.told call (hadds.seen ▸ hcall)⟩
  rw [hs, List.mem_append] at hf
  exact hf.elim (fun hf => (hplain f hf).suits v) (h.suits f)

theorem Untried.pop (h : m.Untried hook) (hs : m.stack = f :: below) :
    ({ m with stack := below } : Machine ω).Untried hook :=
  ⟨h.phase, h.kept, fun g hg => h.plain g (by simp [hs, hg]), h.unrun, h.silent⟩

theorem Shown.pop (h : m.Shown v) (hs : m.stack = f :: below) :
    ({ m with stack := below } : Machine ω).Shown v :=
  ⟨h.phase, h.taken, fun g hg => h.suits g (by simp [hs, hg]), h.run, h.told⟩

/-- The first attempt runs the hook. -/
theorem Untried.settle (h : m.Untried hook) (v : Settled ω) : (m.settle v).InHook v := by
  have hunrun : m.events.filterMap Event.hook? = [] := h.unrun
  have hsilent : m.events.filterMap Event.call? = [] := h.silent
  rcases m.settle_cases v with ⟨hp, -⟩ | ⟨-, hnone, -⟩ | ⟨steps, -, -, hsettle⟩
  · exact absurd h.phase hp
  · rw [h.kept] at hnone
    cases hnone
  · rw [hsettle]
    refine ⟨rfl, rfl, ⟨[.body steps], m.stack, rfl, by simp [Frame.IsPlain], h.plain⟩, ?_, ?_⟩
    · simp [Machine.hooked, push, emit, hunrun, Event.hook?]
    · simp [Machine.seen, push, emit, hsilent, Event.call?]

theorem Untried.register (h : m.Untried hook) (c : Callback (Reaction ω)) :
    (m.register c).Untried hook := by
  rw [register_early (by simp [Promise.isDone, Promise.settled?, h.phase])]
  exact ⟨h.phase, h.kept, h.plain, h.unrun, h.silent⟩

theorem InHook.register (h : m.InHook v) (c : Callback (Reaction ω)) : (m.register c).InHook v := by
  rw [register_early (by simp [Promise.isDone, Promise.settled?, h.phase])]
  exact ⟨h.phase, h.taken, h.shape, h.run, h.silent⟩

theorem Shown.fire (h : m.Shown v) (c : Callback (Reaction ω)) : (m.fire c v).Shown v := by
  unfold Machine.fire
  split
  · have hhooked : (m.emit [.callback c.body.label v.result]).hooked = m.hooked := by
      simp [Machine.hooked, emit, Event.hook?]
    have hseen : (m.emit [.callback c.body.label v.result]).seen =
        m.seen ++ [(c.body.label, v.result)] := by simp [Machine.seen, emit, Event.call?]
    refine ⟨h.phase, h.taken, by simpa [push, emit, Frame.Suits] using h.suits,
      hhooked.trans h.run, fun call hcall => ?_⟩
    rcases List.mem_append.mp (hseen ▸ hcall) with hcall | hcall
    · exact h.told call hcall
    · rw [List.mem_singleton.mp hcall]
  · exact h

theorem Shown.register (h : m.Shown v) (c : Callback (Reaction ω)) : (m.register c).Shown v := by
  have hregister : m.register c = m.push [.fire c v] := by
    simp [Machine.register, Promise.register, h.phase, push]
  rw [hregister]
  exact ⟨h.phase, h.taken, by simpa [push, Frame.Suits] using h.suits, h.run, h.told⟩

variable [Outcome ω]

/-- What is read at this moment, on the write side and on the read side. -/
def Reads (m : Machine ω) (v? : Option (Settled ω)) : Prop :=
  m.answer (.ask .isDone) = .truths v?.isSome v?.isSome ∧ m.answer (.ask .peek) = .settled v?

theorem reads_iff {v? : Option (Settled ω)} : m.Reads v? ↔ m.promise.settled? = v? := by
  simp only [Reads, answer, reply, Promise.isDone, Answer.settled.injEq, Answer.truths.injEq]
  constructor
  · exact fun h => h.2
  · rintro rfl
    exact ⟨⟨rfl, rfl⟩, rfl⟩

theorem InHook.reads (h : m.InHook v) : m.Reads none :=
  reads_iff.mpr (by simp [Promise.settled?, h.phase])

theorem Shown.reads (h : m.Shown v) : m.Reads (some v) :=
  reads_iff.mpr (by simp [Promise.settled?, h.phase])

theorem Untried.perform (h : m.Untried hook) (s : Step ω) : (m.perform s).Chapter hook := by
  cases s with
  | complete o x => exact .inHook _ (h.settle _)
  | fail o e => exact .inHook _ (h.settle _)
  | on kind label body => exact .untried (h.register _)
  | panic p => exact .untried (h.adds (m.raise_adds _))
  | ask q => exact .untried (h.adds (m.spend_adds q))
  | run => exact .untried (h.adds m.runTask_adds)
  | expire =>
    rw [Machine.perform, expire]
    split
    · exact .untried h
    · split
      · exact .untried h
      · exact .inHook _ ((h.adds (m.push_adds (by simp [Frame.IsPlain]))).settle _)
  | cancel => exact .untried (h.adds (.same rfl rfl rfl))

theorem Untried.conclude (h : m.Untried hook) (r : CallResult) : (m.conclude r).Chapter hook := by
  unfold Machine.conclude
  split
  · exact .untried h
  · split
    · exact .untried h
    · exact .inHook _ (h.settle _)

theorem Untried.work1 (h : m.Untried hook) (hf : f.IsPlain) : (m.work1 f).Chapter hook := by
  cases f with
  | body script =>
    rcases m.work1_script script with hadds | ⟨s, m', hadds, hs⟩
    · exact .untried (h.adds hadds)
    · exact hs ▸ (h.adds hadds).perform s
  | report verb a => exact .untried (h.adds (m.did_adds verb a))
  | conclude ending => exact h.conclude _
  | expired won => exact .untried (h.adds (m.afterExpiry_adds won))
  | _ => exact hf.elim

theorem Untried.unwind (h : m.Untried hook) (p : Panic) (hf : f.IsPlain) :
    (m.unwind p f).Chapter hook := by
  cases f with
  | conclude ending => exact (h.adds (m.raise_adds none)).conclude (Ending.panics p).result
  | guard kind => exact hf.elim
  | _ => exact .untried h

/-- A script or a task may make the first attempt. -/
theorem Untried.step (h : m.Untried hook) : m.step.Chapter hook := by
  cases hs : m.stack with
  | nil => exact .untried (by rwa [step_halted hs])
  | cons f below =>
    have hf : f.IsPlain := h.plain f (by simp [hs])
    cases hr : m.raised with
    | none =>
      rw [step_frame hs hr]
      exact (h.pop hs).work1 hf
    | some p =>
      rw [step_panic hs hr]
      exact (h.pop hs).unwind p hf

/-- The hook goes on, or its guard is reached and it is over, with or without a panic. -/
theorem InHook.step (h : m.InHook v) (quiet : m.fallback.Quiet) :
    m.step.InHook v ∨ m.step.HookOver v := by
  obtain ⟨above, below, hs, habove, hbelow⟩ := h.shape
  cases above with
  | nil =>
    right
    cases hr : m.raised with
    | none =>
      rw [step_frame hs hr]
      exact ⟨h.phase, h.taken, ⟨below, rfl, hbelow⟩, hr, h.run, h.silent⟩
    | some p =>
      have hadds := report_adds ({ m with stack := .publish :: below } : Machine ω) v.kind p
      rw [step_panic hs hr]
      exact ⟨h.phase, h.taken, ⟨below, rfl, hbelow⟩, quiet v.kind p, hadds.hooked.trans h.run,
        hadds.seen.trans h.silent⟩
  | cons f above =>
    left
    have hf : f.IsPlain := habove f List.mem_cons_self
    have hrest : ({ m with stack := above ++ .guard v.kind :: .publish :: below } :
        Machine ω).InHook v :=
      ⟨h.phase, h.taken, ⟨above, below, rfl, fun g hg => habove g (List.mem_cons_of_mem _ hg),
        hbelow⟩, h.run, h.silent⟩
    cases hr : m.raised with
    | none =>
      rw [step_frame hs hr]
      rcases work1_adds hrest.tried hf with hadds | ⟨c, m', hadds, hc⟩
      · exact hrest.adds hadds
      · exact hc ▸ (hrest.adds hadds).register c
    | some p =>
      rw [step_panic hs hr]
      exact hrest.adds (unwind_adds hrest.tried p f)

theorem HookOver.step (h : m.HookOver v) : m.step.Shown v := by
  obtain ⟨below, hs, hplain⟩ := h.shape
  have hstep : m.step = { m with
      promise := { m.promise with phase := .done v, callbacks := [] }
      stack := (m.promise.callbacks.map fun c => .fire c v) ++ below } := by
    rw [step_frame hs h.sound]
    simp [work1, publish, Promise.publish, h.phase, push]
  rw [hstep]
  refine ⟨rfl, h.taken, fun f hf => ?_, h.run, fun call hcall => ?_⟩
  · rcases List.mem_append.mp hf with hf | hf
    · obtain ⟨c, -, rfl⟩ := List.mem_map.mp hf
      rfl
    · exact (hplain f hf).suits v
  · have hsilent : call ∈ m.seen := hcall
    rw [h.silent] at hsilent
    cases hsilent

theorem Shown.work1 (h : m.Shown v) (hf : f.Suits v) : (m.work1 f).Shown v := by
  by_cases hplain : f.IsPlain
  · rcases work1_adds h.tried hplain with hadds | ⟨c, m', hadds, hc⟩
    · exact h.adds hadds
    · exact hc ▸ (h.adds hadds).register c
  · cases f with
    | guard kind => exact h
    | publish => exact hf.elim
    | fire c v' =>
      cases hf
      exact h.fire c
    | _ => exact absurd trivial hplain

theorem Shown.step (h : m.Shown v) : m.step.Shown v := by
  cases hs : m.stack with
  | nil => rwa [step_halted hs]
  | cons f below =>
    cases hr : m.raised with
    | none =>
      rw [step_frame hs hr]
      exact (h.pop hs).work1 (h.suits f (by simp [hs]))
    | some p =>
      rw [step_panic hs hr]
      exact (h.pop hs).adds (unwind_adds (h.pop hs).tried p f)

/-- The chapters follow each other. -/
theorem Chapter.step (h : m.Chapter hook) (quiet : m.fallback.Quiet) :
    m.step.Chapter hook := by
  cases h with
  | untried h => exact h.step
  | inHook v h => exact (h.step quiet).elim (.inHook v) (.hookOver v)
  | hookOver v h => exact .shown v h.step
  | shown v h => exact .shown v h.step

/-- A step from outside begins when nothing is left to run. -/
theorem Chapter.perform (h : m.Chapter hook) (rests : m.stack = []) (s : Step ω) :
    (m.perform s).Chapter hook := by
  cases h with
  | untried h => exact h.perform s
  | inHook v h =>
    obtain ⟨above, below, hs, -⟩ := h.shape
    simp [rests] at hs
  | hookOver v h =>
    obtain ⟨below, hs, -⟩ := h.shape
    simp [rests] at hs
  | shown v h =>
    rcases perform_adds h.tried s with hadds | ⟨c, hc⟩
    · exact .shown v (h.adds hadds)
    · exact .shown v (hc ▸ h.register c)

omit [Outcome ω] in
theorem Chapter.lower (h : m.Chapter hook) :
    ({ m with raised := none } : Machine ω).Chapter hook := by
  cases h with
  | untried h => exact .untried (h.adds (m.raise_adds none))
  | inHook v h => exact .inHook v (h.adds (m.raise_adds none))
  | hookOver v h => exact .hookOver v ⟨h.phase, h.taken, h.shape, rfl, h.run, h.silent⟩
  | shown v h => exact .shown v (h.adds (m.raise_adds none))

/-- A machine in its chapter, with the attempts so far: the value is that of the first. -/
structure Unfolds (hook : Script ω) (attempts : List (Settled ω)) (m : Machine ω) : Prop where
  secure : m.Secure
  chapter : m.Chapter hook
  first : m.value? = attempts.head?

namespace Unfolds

variable {attempts : List (Settled ω)}

theorem step (h : m.Unfolds hook attempts) :
    m.step.Unfolds hook (attempts ++ m.nextAttempt?.toList) :=
  ⟨h.secure.step, h.chapter.step h.secure.upright.quiet,
    by rw [value?_step, h.first, List.head?_append, Option.head?_toList]⟩

theorem runFor (h : m.Unfolds hook attempts) (n : Nat) :
    (m.runFor n).Unfolds hook (attempts ++ m.attemptsFor n) := by
  induction n generalizing attempts m with
  | zero => simpa [attemptsFor, Machine.runFor] using h
  | succ n ih =>
    have hrest := ih h.step
    rwa [List.append_assoc] at hrest

omit [Outcome ω] in
theorem lower (h : m.Unfolds hook attempts) :
    ({ m with raised := none } : Machine ω).Unfolds hook attempts :=
  ⟨.of_upright h.secure.upright, h.chapter.lower, h.first⟩

theorem perform (h : m.Unfolds hook attempts) (rest : m.AtRest) (s : Step ω) :
    (m.perform s).Unfolds hook (attempts ++ (m.attempt? s).toList) :=
  ⟨rest.perform s, h.chapter.perform rest.ended s,
    by rw [value?_perform, h.first, List.head?_append, Option.head?_toList]⟩

theorem after (h : m.Unfolds hook attempts) (rest : m.AtRest) (program : Script ω) :
    (m.after program).Unfolds hook (attempts ++ m.attemptsOf program) := by
  induction program generalizing attempts m with
  | nil => simpa [attemptsOf] using h
  | cons s program ih =>
    have henact := ((h.perform rest s).runFor (m.perform s).weight).lower
    rw [attemptsOf, ← List.append_assoc, ← List.append_assoc]
    refine ih ?_ (rest.enact s)
    rwa [enact_lowered]

omit [Outcome ω] in
/-- The hook was run for the first attempt alone, and with its outcome. -/
theorem hooked (h : m.Unfolds hook attempts) :
    m.hooked = (attempts.head?.map Settled.outcome).toList := by
  rw [← h.first, value?]
  cases h.chapter with
  | untried h => rw [h.unrun, h.phase]; rfl
  | inHook v h => rw [h.run, h.phase]; rfl
  | hookOver v h => rw [h.run, h.phase]; rfl
  | shown v h => rw [h.run, h.phase]; rfl

omit [Outcome ω] in
theorem isPending (h : m.Unfolds hook attempts) :
    m.promise.isPending = attempts.isEmpty := by
  have hfirst := h.first
  rw [value?] at hfirst
  unfold Promise.isPending
  cases hp : m.promise.phase <;> cases attempts <;> simp_all [Phase.value?]

end Unfolds

end Machine

end Turnstile
