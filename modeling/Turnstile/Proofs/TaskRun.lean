import Turnstile.Proofs.Shelter

/-!
# The run of a task

While the promise of a task is pending, nothing but the action itself can be running. So an
action that is over has settled the promise, unless the action says that it was cancelled and the
flag was raised by hand: then nobody settles the promise, since the deadline has not come.
-/

namespace Turnstile.Machine

variable {ω : Type}

/-- A task that has not been run, and a promise with a hook or without. -/
def tasked (hook : Option (Script ω)) (fallback : Fallback) (grade : Status → ω)
    (a : Action (Step ω)) (timeoutMillis start : Nat) : Machine ω where
  promise := { hook := hook }
  work := some ⟨{ action := some a, timeoutMillis := timeoutMillis, start := start }, grade⟩
  fallback := fallback

/-- The action has been taken to be run. -/
def taken (m : Machine ω) : Bool := m.work.any fun w => w.task.action.isNone

/-- What an action that is running has on the stack as long as it settles nothing. -/
inductive Running (a : Action (Step ω)) : List (Frame ω) → Prop where
  | conclude : Running a [.conclude a.ending]
  | body (script : Script ω) {below : List (Frame ω)} (h : Running a below) :
      Running a (.body script :: below)
  | report (verb : Verb) (answer : Answer ω) {below : List (Frame ω)} (h : Running a below) :
      Running a (.report verb answer :: below)

/-- How far a task with action `a` is, by the action that is left, the flag and the stack. -/
inductive Stage (a : Action (Step ω)) : Option (Action (Step ω)) → Bool → List (Frame ω) → Prop
    where
  | ready (cancelled : Bool) : Stage a (some a) cancelled []
  | running (cancelled : Bool) {stack : List (Frame ω)} (h : Running a stack) :
      Stage a none cancelled stack
  /-- The action is over and has settled nothing. -/
  | dropped (h : a.ending = .returns (.error .cancelled)) : Stage a none true []

theorem Stage.cancel {a : Action (Step ω)} {left : Option (Action (Step ω))} {cancelled : Bool}
    {stack : List (Frame ω)} (h : Stage a left cancelled stack) : Stage a left true stack := by
  cases h with
  | ready => exact .ready true
  | running _ hrun => exact .running true hrun
  | dropped he => exact .dropped he

theorem Stage.of_left {a a' : Action (Step ω)} {cancelled : Bool} {stack : List (Frame ω)}
    (h : Stage a (some a') cancelled stack) : a' = a ∧ stack = [] := by
  cases h
  exact ⟨rfl, rfl⟩

theorem Stage.of_busy {a : Action (Step ω)} {left : Option (Action (Step ω))} {cancelled : Bool}
    {f : Frame ω} {below : List (Frame ω)} (h : Stage a left cancelled (f :: below)) :
    left = none ∧ Running a (f :: below) := by
  cases h with
  | running _ hrun => exact ⟨rfl, hrun⟩

theorem Stage.of_over {a : Action (Step ω)} {cancelled : Bool}
    (h : Stage a none cancelled []) :
    cancelled = true ∧ a.ending = .returns (.error .cancelled) := by
  cases h with
  | running _ hrun => cases hrun
  | dropped he => exact ⟨rfl, he⟩

/-- A step that raises the flag has returned, or is about to. -/
def ByHand (t : Story ω) (m : Machine ω) : Prop :=
  (∃ x, Deed.reply .cancel x ∈ t) ∨
    m.raised = none ∧ ∃ x below, m.stack = .report .cancel x :: below

/-- Where a task with action `a` stands while its promise is pending. -/
def Unsettled (a : Action (Step ω)) (t : Story ω) (m : Machine ω) : Prop :=
  ∃ w, m.work = some w ∧ Stage a w.task.action w.task.cancelled m.stack ∧
    (w.task.cancelled = true → ByHand t m)

variable {a : Action (Step ω)} {t t' : Story ω} {m : Machine ω}

theorem ByHand.mono (h : ByHand t m) (ht : t ⊆ t') : ByHand t' m := by
  rcases h with ⟨x, hx⟩ | hreport
  · exact .inl ⟨x, ht hx⟩
  · exact .inr hreport

theorem Unsettled.mono (h : Unsettled a t m) (ht : t ⊆ t') : Unsettled a t' m := by
  obtain ⟨w, hw, hstage, hhand⟩ := h
  exact ⟨w, hw, hstage, fun hc => (hhand hc).mono ht⟩

/-- Without such a report on top the step has returned. -/
theorem ByHand.told (h : ByHand t m) (hs : ∀ x below, m.stack ≠ .report .cancel x :: below) :
    ∃ x, Deed.reply .cancel x ∈ t := by
  rcases h with hx | ⟨-, x, below, hreport⟩
  · exact hx
  · exact absurd hreport (hs x below)

/-- An action that is over between two steps from outside was cancelled by hand if its promise
is still pending. -/
theorem Unsettled.over (h : Unsettled a t m) (hs : m.stack = []) (ht : m.taken = true) :
    a.ending = .returns (.error .cancelled) ∧ ∃ x, Deed.reply .cancel x ∈ t := by
  obtain ⟨w, hw, hstage, hhand⟩ := h
  have hleft : w.task.action = none := by simpa [taken, hw] using ht
  rw [hs, hleft] at hstage
  obtain ⟨hc, hending⟩ := hstage.of_over
  exact ⟨hending, (hhand hc).told (by simp [hs])⟩

/-- The action has been taken, and whoever has raised the flag by hand has returned. -/
structure Acting (w : Work ω) (t : Story ω) (m : Machine ω) : Prop where
  work : m.work = some w
  left : w.task.action = none
  told : w.task.cancelled = true → ∃ x, Deed.reply .cancel x ∈ t

theorem Acting.unsettled {w : Work ω} (h : Acting w t m) (hrun : Running a m.stack) :
    Unsettled a t m := by
  refine ⟨w, h.work, ?_, fun hc => .inl (h.told hc)⟩
  rw [h.left]
  exact .running _ hrun

/-- As long as the promise is pending, its task stands as told. -/
def Awaits (a : Action (Step ω)) (t : Story ω) (m : Machine ω) : Prop :=
  m.promise.phase = .pending → Unsettled a t m

theorem Awaits.of_begun (h : m.promise.phase ≠ .pending) : Awaits a t m := fun hp => absurd hp h

/-- While the promise is pending an attempt begins to settle it. -/
theorem begun_settle (m : Machine ω) (v : Settled ω) :
    (m.settle v).promise.phase ≠ .pending := by
  rcases m.settle_cases v with ⟨hp, h⟩ | ⟨-, -, h⟩ | ⟨steps, -, -, h⟩
  · rwa [h]
  · simp [h, push]
  · simp [h, push, emit]

theorem isDone_of_pending {η κ : Type} {p : Promise ω η κ} (h : p.phase = .pending) :
    p.isDone = false := by
  simp [Promise.isDone, Promise.settled?, h]

variable [Outcome ω]

/-- An action that is over settles the promise, unless it was cancelled and says so. -/
theorem conclude_settles {w : Work ω} (hw : m.work = some w) (r : CallResult) :
    (m.conclude r).promise.phase ≠ .pending ∨
      m.conclude r = m ∧ w.task.cancelled = true ∧ r = .error .cancelled := by
  cases hv : Task.verdict w.grade w.task.cancelled r with
  | some v =>
    left
    have hsettle : m.conclude r = m.settle v := by simp only [conclude, hw, hv]
    rw [hsettle]
    exact begun_settle m v
  | none =>
    right
    have hnone : m.conclude r = m := by simp only [conclude, hw, hv]
    refine ⟨hnone, ?_⟩
    unfold Task.verdict at hv
    split at hv <;> simp_all

theorem begun_expire {w : Work ω} (hw : m.work = some w) : m.expire.promise.phase ≠ .pending := by
  cases hdone : m.promise.isDone with
  | true =>
    have hsame : m.expire = m := by simp [expire, hw, hdone]
    rw [hsame]
    intro hp
    rw [isDone_of_pending hp] at hdone
    cases hdone
  | false =>
    have hsettle : m.expire =
        (m.push [.expired m.promise.isPending]).settle (w.task.expiry w.grade) := by
      simp [expire, hw, hdone]
    rw [hsettle]
    exact begun_settle _ _

/-- A step that begins settles the promise or changes little. -/
theorem Unsettled.perform (h : Unsettled a t m) (hp : m.promise.phase = .pending) {s : Step ω}
    (hpanic : s.verb ≠ .panic) (hand : s = .cancel → ByHand t m) : Awaits a t (m.perform s) := by
  obtain ⟨w, hw, hstage, hhand⟩ := h
  cases s with
  | complete o x => exact .of_begun (begun_settle m _)
  | fail o e => exact .of_begun (begun_settle m _)
  | panic p => exact absurd rfl hpanic
  | expire => exact .of_begun (begun_expire hw)
  | on kind label body =>
    intro _
    show Unsettled a t (m.register _)
    rw [register_early (isDone_of_pending hp)]
    exact ⟨w, hw, hstage, hhand⟩
  | ask q =>
    intro _
    show Unsettled a t (m.spend q)
    unfold spend
    split
    · split <;> exact ⟨w, hw, hstage, hhand⟩
    · exact ⟨w, hw, hstage, hhand⟩
  | cancel =>
    intro _
    exact ⟨{ w with task := w.task.cancel }, by simp [Machine.perform, Machine.cancel, hw],
      hstage.cancel, fun _ => hand rfl⟩
  | run =>
    intro _
    show Unsettled a t m.runTask
    cases hleft : w.task.action with
    | none =>
      have hsame : m.runTask = m := by simp [runTask, hw, hleft]
      rw [hsame]
      exact ⟨w, hw, hstage, hhand⟩
    | some a' =>
      rw [hleft] at hstage
      obtain ⟨rfl, hs⟩ := hstage.of_left
      simp only [runTask, hw, isDone_of_pending hp, hleft]
      refine ⟨_, rfl, ?_, fun hc => .inl ((hhand hc).told (by simp [hs]))⟩
      simp only [push, emit, hs]
      exact .running _ (.body _ .conclude)

namespace Acting

variable {w : Work ω} {f : Frame ω} {below : List (Frame ω)}

/-- A panic leaves the action, and then counts as a failure of the action. -/
theorem raised (h : Acting w t m) (hs : m.stack = f :: below) (hrun : Running a (f :: below))
    {p : Panic} (hr : m.raised = some p) : Awaits a t m.step := by
  rw [step_panic hs hr]
  have hbelow : Acting w t { m with stack := below } := ⟨h.work, h.left, h.told⟩
  cases hrun with
  | conclude =>
    have hw : ({ m with stack := [], raised := none } : Machine ω).work = some w := h.work
    rcases conclude_settles hw (Ending.panics p).result with hbegun | ⟨-, -, hresult⟩
    · exact .of_begun hbegun
    · cases hresult
  | body script hrun => exact fun _ => hbelow.unsettled hrun
  | report verb x hrun => exact fun _ => hbelow.unsettled hrun

/-- The action is over. -/
theorem concluded (h : Acting w t m) (hs : m.stack = [.conclude a.ending])
    (hr : m.raised = none) : Awaits a t m.step := by
  rw [step_frame hs hr]
  have hw : ({ m with stack := [] } : Machine ω).work = some w := h.work
  rcases conclude_settles hw a.ending.result with hbegun | ⟨hsame, hc, hresult⟩
  · exact .of_begun hbegun
  · have hending : a.ending = .returns (.error .cancelled) := by
      cases he : a.ending with
      | returns r => rw [← hresult, he, Ending.result]
      | panics p =>
        rw [he] at hresult
        cases hresult
    intro _
    show Unsettled a t (({ m with stack := [] } : Machine ω).conclude a.ending.result)
    rw [hsame]
    refine ⟨w, h.work, ?_, fun _ => .inl (h.told hc)⟩
    rw [h.left, hc]
    exact .dropped hending

/-- A step of the action begins, or a panic of its own. -/
theorem begins (h : Acting w t m) (hp : m.promise.phase = .pending) {script : Script ω}
    (hs : m.stack = .body script :: below) (hrun : Running a below) (hr : m.raised = none) :
    Awaits a t m.step := by
  have hbelow : Acting w t { m with stack := below } := ⟨h.work, h.left, h.told⟩
  cases script with
  | nil =>
    rw [step_frame hs hr]
    exact fun _ => hbelow.unsettled hrun
  | cons s rest =>
    by_cases hpanic : s.verb = .panic
    · obtain ⟨p, rfl⟩ := Step.verb_eq_panic hpanic
      rw [step_frame hs hr]
      intro _
      exact unsettled ⟨h.work, h.left, h.told⟩ hrun
    · rw [(step_body hs hr hpanic).1]
      apply Unsettled.perform
      · exact unsettled ⟨h.work, h.left, h.told⟩ (.report _ _ (.body _ hrun))
      · exact hp
      · exact hpanic
      · intro hcancel
        exact .inr ⟨hr, _, _, by rw [hcancel]; rfl⟩

end Acting

/-- While the promise is pending, every step is one of the action, if it runs. -/
theorem Awaits.step (h : Awaits a t m) : Awaits a (t ++ m.deeds) m.step := by
  intro hp'
  have hp := m.step_evolves.pending hp'
  have hnow : Unsettled a (t ++ m.deeds) m := (h hp).mono (List.subset_append_left _ _)
  cases hs : m.stack with
  | nil => rwa [step_halted hs]
  | cons f below =>
    obtain ⟨w, hw, hstage, hhand⟩ := hnow
    rw [hs] at hstage
    obtain ⟨hleft, hrun⟩ := hstage.of_busy
    cases hr : m.raised with
    | some p =>
      refine Acting.raised ⟨hw, hleft, fun hc => ?_⟩ hs hrun hr hp'
      rcases hhand hc with hx | ⟨hnone, -⟩
      · exact hx
      · rw [hr] at hnone
        cases hnone
    | none =>
      cases hrun with
      | conclude =>
        exact Acting.concluded ⟨hw, hleft, fun hc => (hhand hc).told (by simp [hs])⟩ hs hr hp'
      | body script hrun =>
        exact Acting.begins ⟨hw, hleft, fun hc => (hhand hc).told (by simp [hs])⟩ hp hs hrun hr hp'
      | report verb x hrun =>
        -- a step returns, and the story tells of it if it has raised the flag
        obtain ⟨hstep, hdeeds⟩ := step_report hs hr
        rw [hstep]
        refine Acting.unsettled ⟨hw, hleft, fun hc => ?_⟩ hrun
        rcases hhand hc with hx | ⟨-, x', below', hreport⟩
        · exact hx
        · rw [hs] at hreport
          cases hreport
          exact ⟨x, by simp [hdeeds]⟩

theorem Awaits.runFor (h : Awaits a t m) (n : Nat) : Awaits a (t ++ m.storyFor n) (m.runFor n) := by
  induction n generalizing t m with
  | zero =>
    rw [storyFor, List.append_nil]
    exact h
  | succ n ih =>
    have hrest := ih h.step
    rwa [List.append_assoc] at hrest

theorem Awaits.perform (h : Awaits a t m) (rest : m.AtRest) {s : Step ω} (ht : t ⊆ t')
    (hand : s = .cancel → ∃ x, Deed.reply .cancel x ∈ t') : Awaits a t' (m.perform s) := by
  intro hp
  have hbefore := (m.perform_evolves s).pending hp
  have hnow : Unsettled a t' m := (h hbefore).mono ht
  by_cases hpanic : s.verb = .panic
  · obtain ⟨p, rfl⟩ := Step.verb_eq_panic hpanic
    obtain ⟨w, hw, hstage, hhand⟩ := hnow
    exact ⟨w, hw, hstage, fun hc => .inl ((hhand hc).told (by simp [rest.ended]))⟩
  · exact hnow.perform hbefore hpanic (fun hc => .inl (hand hc)) hp

/-- The story of a step from outside tells of a flag that was raised by it. -/
theorem Awaits.enact (h : Awaits a t m) (rest : m.AtRest) (s : Step ω) :
    Awaits a (t ++ m.episode s) (m.enact s).2 := by
  have hreply : s = .cancel → ∃ x, Deed.reply .cancel x ∈ t ++ m.episode s := by
    intro hs
    subst hs
    exact ⟨_, List.mem_append_right _ (List.mem_append_right _ (List.mem_singleton_self _))⟩
  have hrun := (h.perform rest (List.subset_append_left _ _) hreply).runFor (m.perform s).weight
  have hstack : ((m.perform s).runFor (m.perform s).weight).stack = [] := halted_run _
  have hstory : t ++ m.episode s ++ (m.perform s).storyFor (m.perform s).weight ⊆
      t ++ m.episode s := by
    intro d hd
    rcases List.mem_append.mp hd with hd | hd
    · exact hd
    · exact List.mem_append_right _ (List.mem_append_left _ (List.mem_append_right _ hd))
  intro hp
  rw [enact_lowered] at hp ⊢
  obtain ⟨w, hw, hstage, hhand⟩ := (hrun hp).mono hstory
  exact ⟨w, hw, hstage, fun hc => .inl ((hhand hc).told (by simp [hstack]))⟩

theorem Awaits.after (h : Awaits a t m) (rest : m.AtRest) (program : Script ω) :
    Awaits a (t ++ m.tale program) (m.after program) := by
  induction program generalizing t m with
  | nil =>
    rw [tale, List.append_nil]
    exact h
  | cons s program ih =>
    have hrest := ih (h.enact rest s) (rest.enact s)
    rwa [List.append_assoc] at hrest

/-- Whatever is done with a task, and in whatever order: once its action has been run, its promise
is done. -/
def ExecutionSettles (ω : Type) [Outcome ω] : Prop :=
  ∀ (hook : Option (Script ω)) (fallback : Fallback) (grade : Status → ω) (a : Action (Step ω))
    (timeoutMillis start : Nat) (program : Script ω), fallback.Quiet →
    let m := (tasked hook fallback grade a timeoutMillis start).after program
    m.taken = true → m.promise.isDone = true

variable (hook : Option (Script ω)) (fallback : Fallback) (grade : Status → ω)
  (timeoutMillis start : Nat)

/-- An action that is cancelled by hand before it is run, and says so, settles nothing. -/
theorem cancelled_first (label : Option String) :
    let m := (tasked hook fallback grade ⟨label, [], .returns (.error .cancelled)⟩ timeoutMillis
      start).after [.cancel, .run]
    m.taken = true ∧ m.promise = { hook := hook } := by
  let ready := tasked hook fallback grade ⟨label, [], .returns (.error .cancelled)⟩ timeoutMillis
    start
  have hcancel : (ready.enact .cancel).2 = ready.cancel := by
    rw [enact_lowered, run, runFor_halted rfl]
    rfl
  have hlead : (ready.cancel.perform .run).Leads []
      ((ready.cancel.perform .run).runFor 2) := ⟨2, rfl, rfl⟩
  have hrun : (ready.cancel.enact .run).2 =
      { (ready.cancel.perform .run).runFor 2 with raised := none } := by
    rw [enact_lowered, (hlead.run rfl).1]
  show ((ready.enact .cancel).2.enact .run).2.taken = true ∧
    ((ready.enact .cancel).2.enact .run).2.promise = { hook := hook }
  rw [hcancel, hrun]
  exact ⟨rfl, rfl⟩

theorem unsettled_execution : ¬ ExecutionSettles Status := by
  intro hsettles
  let fallback : Fallback := .shown "default"
  obtain ⟨htaken, hpending⟩ := cancelled_first (ω := Status) none fallback id 100 0 none
  have hdone := hsettles none fallback id _ 100 0 [.cancel, .run]
    (Fallback.quiet_shown _) htaken
  rw [hpending] at hdone
  cases hdone

/-- Once an action has been run, its promise is done, and the hook has been run with the outcome.
The only exception is an action that says that it was cancelled when the flag was raised by hand:
its promise stays pending and keeps its hook. Without a hand, only a deadline raises the flag, and
the deadline settles the promise. -/
theorem execution_settles_unless (quiet : fallback.Quiet) :
    (∀ (a : Action (Step ω)) (program : Script ω),
      let m := (tasked hook fallback grade a timeoutMillis start).after program
      m.taken = true →
        (∃ v, m.promise.settled? = some v ∧ (hook ≠ none → .hook v.outcome ∈ m.events)) ∨
        (m.promise.phase = .pending ∧ m.promise.hook = hook ∧
          a.ending = .returns (.error .cancelled) ∧
          ∃ x, .reply .cancel x ∈
            (tasked hook fallback grade a timeoutMillis start).tale program)) ∧
    ∀ label, let m := (tasked hook fallback grade ⟨label, [], .returns (.error .cancelled)⟩
      timeoutMillis start).after [.cancel, .run]
      m.taken = true ∧ m.promise.phase = .pending := by
  constructor
  · intro a program m taken
    let ready := tasked hook fallback grade a timeoutMillis start
    have hready : ready.AtRest := ⟨⟨quiet, rfl, trivial, by simp [ready, tasked]⟩, rfl⟩
    have hrest : m.AtRest := hready.after program
    have hcourse : ready.Evolves m := ready.after_evolves program
    have hwaits : Awaits a [] ready := by
      intro _
      exact ⟨_, rfl, .ready false, by simp⟩
    by_cases hp : m.promise.phase = .pending
    · right
      obtain ⟨hending, hhand⟩ := (hwaits.after hready program hp).over hrest.ended taken
      exact ⟨hp, hcourse.waits (Phase.value?_eq_none.mpr hp), hending, hhand⟩
    · left
      obtain ⟨v, hv⟩ := Option.isSome_iff_exists.mp (hrest.isDone hp)
      exact ⟨v, hv, hcourse.pays v rfl (Phase.value?_of_settled? hv)⟩
  · intro label
    obtain ⟨htaken, hpromise⟩ := cancelled_first hook fallback grade timeoutMillis start label
    exact ⟨htaken, by rw [hpromise]⟩

/-- An action that finds the flag raised and panics over it. -/
def startled : Action (Step Status) :=
  ⟨some "job", [.ask .isCancelled, .panic (.text "oops")], .returns (.error .cancelled)⟩

def startledTask : Machine Status :=
  tasked (some [.ask .isDone]) (.shown "alarm") id startled 100 0

/-- A panic settles the promise, flag or no flag. -/
theorem execution_settles_unless_startled :
    startledTask.fallback.Quiet ∧ (startledTask.after [.cancel, .run]).taken = true ∧
      ∃ v, (startledTask.after [.cancel, .run]).promise.settled? = some v ∧ v.kind = .error ∧
        .hook v.outcome ∈ (startledTask.after [.cancel, .run]).events := by
  have htaken : (startledTask.after [.cancel, .run]).taken = true := by decide +kernel
  have hkind : (startledTask.after [.cancel, .run]).promise.settled?.map Settled.kind =
      some .error := by decide +kernel
  obtain ⟨hsettles, -⟩ :=
    execution_settles_unless (some [.ask .isDone]) (.shown "alarm") (id : Status → Status)
      100 0 (Fallback.quiet_shown _)
  rcases hsettles startled [.cancel, .run] htaken with ⟨v, hv, hhook⟩ | ⟨hpending, -⟩
  · rw [startledTask, hv] at hkind
    exact ⟨Fallback.quiet_shown _, htaken, v, hv, Option.some.inj hkind, hhook (by simp)⟩
  · have hnone : (startledTask.after [.cancel, .run]).promise.settled? = none := by
      rw [Promise.settled?, startledTask, hpending]
    rw [hnone] at hkind
    cases hkind

end Turnstile.Machine
