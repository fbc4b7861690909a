import Turnstile.Proofs.RaisedFlag

/-!
# The life of a task

A task on a promise without a hook, whose flag nobody raises by hand. The action is executed at
most once: it begins only from outside, on a pending promise, and whatever runs meanwhile finds it
taken or the promise done. An execution that finds the promise pending at its end settles it.
-/

namespace Turnstile

variable {ω : Type}

namespace Machine

variable [Outcome ω] {m : Machine ω} {grade : Status → ω} {timeoutMillis : Nat} {f : Frame ω}
  {below : List (Frame ω)}

/-- A state in the life of a task with action `a`, between two steps of the machine. -/
structure Living (grade : Status → ω) (timeoutMillis : Nat) (a : Action (Step ω)) (m : Machine ω) :
    Prop where
  orderly : m.Orderly grade timeoutMillis
  /-- While the promise is pending nothing runs but the action. -/
  awaits : ∃ t, Awaits a t m
  once : m.executions = m.taken.toNat

variable {a : Action (Step ω)}

namespace Living

/-- A script that runs the task while another script is running comes too late. -/
theorem late (h : m.Living grade timeoutMillis a) (hs : m.stack = f :: below)
    (hf : f ≠ .publish) : m.promise.isDone = true ∨ m.taken = true := by
  cases hp : m.promise.phase with
  | done v => exact .inl (by simp [Promise.isDone, Promise.settled?, hp])
  | completing v =>
    obtain ⟨-, below', hpublish⟩ := h.orderly.brief v hp
    rw [hs] at hpublish
    exact absurd (List.cons.inj hpublish).1 hf
  | pending =>
    obtain ⟨t, hawaits⟩ := h.awaits
    obtain ⟨w, hw, hstage, -⟩ := hawaits hp
    rw [hs] at hstage
    obtain ⟨hleft, -⟩ := hstage.of_busy
    exact .inr (by simp [taken, hw, hleft])

theorem sameRuns (h : m.Living grade timeoutMillis a) : m.SameRuns m.step :=
  m.step_sameRuns fun _ _ hs => h.late hs (by simp)

theorem step (h : m.Living grade timeoutMillis a) : m.step.Living grade timeoutMillis a := by
  obtain ⟨t, hawaits⟩ := h.awaits
  refine ⟨h.orderly.step, ⟨_, hawaits.step⟩, ?_⟩
  rw [h.sameRuns.executions, h.once, h.sameRuns.taken]

theorem runFor (h : m.Living grade timeoutMillis a) (n : Nat) :
    (m.runFor n).Living grade timeoutMillis a := by
  induction n generalizing m with
  | zero => exact h
  | succ n ih => exact ih h.step

/-- From outside an execution begins on a pending promise, and no other step begins one. -/
theorem begins (h : m.Living grade timeoutMillis a) (rest : m.AtRest) {s : Step ω}
    (hs : m.executions < (m.perform s).executions) :
    s = .run ∧ m.promise.phase = .pending ∧ m.taken = false := by
  obtain rfl : s = .run := by
    by_cases hrun : s.verb = .run
    · exact Step.verb_eq_run hrun
    · rw [(m.perform_sameRuns hrun).executions] at hs
      omega
  have hearly : ¬ (m.promise.isDone = true ∨ m.taken = true) := by
    intro hlate
    have hsame : m.perform .run = m := runTask_late hlate
    rw [hsame] at hs
    omega
  rw [not_or, Bool.not_eq_true, Bool.not_eq_true] at hearly
  exact ⟨rfl, (h.orderly.steady_of_rest rest.ended).pending hearly.1, hearly.2⟩

theorem perform (h : m.Living grade timeoutMillis a) (rest : m.AtRest) {s : Step ω}
    (hs : s.handsOff = true) : (m.perform s).Living grade timeoutMillis a := by
  obtain ⟨t, hawaits⟩ := h.awaits
  refine ⟨h.orderly.perform (h.orderly.steady_of_rest rest.ended) rest.sound hs,
    ⟨t, hawaits.perform rest (List.Subset.refl t) fun hc => absurd hc (Step.ne_cancel hs)⟩, ?_⟩
  by_cases hrun : s.verb = .run
  · obtain rfl := Step.verb_eq_run hrun
    show m.runTask.executions = m.runTask.taken.toNat
    rcases m.runTask_cases with hsame | ⟨w, a', hw, ha, -, hbegun⟩
    · rw [hsame, h.once]
    · have htaken : m.taken = false := by simp [taken, hw, ha]
      have honce := h.once
      rw [htaken] at honce
      rw [hbegun]
      have hcount : (m.events ++ [Event.action a'.label]).countP Event.isAction = 1 := by
        rw [List.countP_append]
        exact congrArg (· + 1) honce
      exact hcount
  · have hsame := m.perform_sameRuns hrun
    rw [hsame.executions, h.once, hsame.taken]

theorem enact (h : m.Living grade timeoutMillis a) (rest : m.AtRest) {s : Step ω}
    (hs : s.handsOff = true) : (m.enact s).2.Living grade timeoutMillis a := by
  have hrun : (m.perform s).run.Living grade timeoutMillis a := (h.perform rest hs).runFor _
  have hended : (m.perform s).run.stack = [] := halted_run _
  obtain ⟨t, hawaits⟩ := hrun.awaits
  rw [enact_lowered]
  refine ⟨hrun.orderly.raise (hrun.orderly.steady_of_rest hended) none, ⟨t, ?_⟩, hrun.once⟩
  intro hp
  obtain ⟨w, hw, hstage, hhand⟩ := hawaits hp
  exact ⟨w, hw, hstage, fun hc => .inl ((hhand hc).told (by simp [hended]))⟩

theorem after (h : m.Living grade timeoutMillis a) (rest : m.AtRest) {program : Script ω}
    (hprogram : Script.handsOff program = true) :
    (m.after program).Living grade timeoutMillis a := by
  induction program generalizing m with
  | nil => exact h
  | cons s program ih =>
    obtain ⟨hs, hlater⟩ : s.handsOff = true ∧ Script.handsOff program = true := by
      simpa using hprogram
    exact ih (h.enact rest hs) (rest.enact s) hlater

end Living

omit [Outcome ω] in
theorem stack_settle (m : Machine ω) (v : Settled ω) : m.stack <:+ (m.settle v).stack := by
  rcases m.settle_cases v with ⟨-, h⟩ | ⟨-, -, h⟩ | ⟨steps, -, -, h⟩
  · simp [h]
  · rw [h]
    exact List.suffix_append _ _
  · rw [h]
    exact List.suffix_append _ _

theorem stack_expire (m : Machine ω) : m.stack <:+ m.expire.stack := by
  unfold expire
  split
  · exact List.suffix_refl _
  · split
    · exact List.suffix_refl _
    · have hpush : m.stack <:+ (m.push [.expired m.promise.isPending]).stack :=
        List.suffix_append _ _
      exact hpush.trans (stack_settle _ _)

/-- A step of an action that leaves the promise pending leaves nothing to be run. -/
theorem perform_pending {s : Step ω} (hpanic : s.verb ≠ .panic)
    (hp : m.promise.phase = .pending) (ht : m.taken = true) (e : Ending)
    (hbelow : .conclude e ∈ m.stack)
    (hstill : .conclude e ∈ (m.perform s).stack → (m.perform s).promise.phase = .pending) :
    (m.perform s).stack = m.stack ∧ (m.perform s).raised = m.raised ∧
      (m.perform s).taken = true := by
  have hsettle : ∀ v, (.conclude e ∈ (m.settle v).stack → (m.settle v).promise.phase = .pending) →
      False := fun v h => begun_settle m v (h ((stack_settle m v).subset hbelow))
  cases s with
  | complete o x => exact (hsettle _ hstill).elim
  | fail o e => exact (hsettle _ hstill).elim
  | on kind label body =>
    rw [perform, register_early (isDone_of_pending hp)]
    exact ⟨rfl, rfl, ht⟩
  | panic p => exact absurd rfl hpanic
  | ask q =>
    show (m.spend q).stack = m.stack ∧ (m.spend q).raised = m.raised ∧ (m.spend q).taken = true
    unfold spend
    split
    · split <;> exact ⟨rfl, rfl, ht⟩
    · exact ⟨rfl, rfl, ht⟩
  | run =>
    rw [perform, runTask_late (.inr ht)]
    exact ⟨rfl, rfl, ht⟩
  | expire =>
    cases hw : m.work with
    | none => simp [taken, hw] at ht
    | some w => exact absurd (hstill ((stack_expire m).subset hbelow)) (begun_expire hw)
  | cancel => exact ⟨rfl, rfl, (m.cancel_sameRuns).taken.trans ht⟩

/-- If the promise stays pending, the steps of an action end with their panic, or without one. -/
theorem steps_end {e : Ending} (script : Script ω) {m : Machine ω}
    (hs : m.stack = [.body script, .conclude e]) (hr : m.raised = none) (ht : m.taken = true)
    (hpending : ∀ k, .conclude e ∈ (m.runFor k).stack →
      (m.runFor k).promise.phase = .pending) :
    ∃ k, (m.runFor k).stack = [.conclude e] ∧ (m.runFor k).raised = Script.outburst? script := by
  induction script generalizing m with
  | nil =>
    refine ⟨1, ?_⟩
    rw [Machine.runFor, Machine.runFor, step_frame hs hr]
    exact ⟨rfl, hr⟩
  | cons s rest ih =>
    by_cases hpanic : s.verb = .panic
    · obtain ⟨p, rfl⟩ := Step.verb_eq_panic hpanic
      refine ⟨1, ?_⟩
      rw [Machine.runFor, Machine.runFor, step_frame hs hr]
      exact ⟨rfl, rfl⟩
    · have hstep := (step_body hs hr hpanic).1
      have hp : m.promise.phase = .pending := hpending 0 (by simp [Machine.runFor, hs])
      have hstill : .conclude e ∈ m.step.stack → m.step.promise.phase = .pending := hpending 1
      rw [hstep] at hstill
      obtain ⟨hstack, hraised, htaken⟩ := perform_pending
        (m := { m with stack := [.report s.verb (m.answer s), .body rest, .conclude e] })
        hpanic hp ht e (by simp) hstill
      rw [← hstep] at hstack hraised htaken
      -- the step returns, and the rest of the script is left
      have hreport := (step_report hstack (hraised.trans hr)).1
      have htwo : m.runFor 2 = m.step.step := rfl
      obtain ⟨k, hk⟩ := @ih (m.runFor 2) (by rw [htwo, hreport])
        (by rw [htwo, hreport]; exact hraised.trans hr) (by rw [htwo, hreport]; exact htaken)
        fun k hmem => by
          rw [← runFor_add] at hmem ⊢
          exact hpending _ hmem
      refine ⟨2 + k, ?_⟩
      rw [runFor_add, Script.outburst?_cons hpanic]
      exact hk

end Machine

/-- How an action ends: by the first panic in its steps, or as it says. -/
def Action.ends (a : Action (Step ω)) : Ending :=
  (Script.outburst? a.steps).elim a.ending .panics

variable [Outcome ω]

/-- What the ending of an action settles a pending promise with. -/
def Ending.settling (grade : Status → ω) : Ending → Settled ω
  | .returns (.ok value) => .ofValue (grade .success) value
  | .returns (.error (.timeout d)) => .ofError (grade .timeout) (.timeout d)
  | .returns (.error e) => .ofError (grade .error) e
  | .panics p => .ofError (grade .error) (.execution ("action panicked: " ++ p.message))

theorem Ending.verdict_eq (grade : Status → ω) (e : Ending) :
    Task.verdict grade false e.result = some (e.settling grade) := by
  cases e with
  | panics p => rfl
  | returns r =>
    cases r with
    | ok value => rfl
    | error e => cases e <;> rfl

namespace Machine

variable {m : Machine ω} {grade : Status → ω} {timeoutMillis : Nat} {a : Action (Step ω)}

/-- The end of an action settles a promise that is pending. -/
theorem Living.concluded (h : m.Living grade timeoutMillis a)
    (hp : m.promise.phase = .pending) (hs : m.stack = [.conclude a.ending])
    (hr : m.raised = Script.outburst? a.steps) :
    m.step.value? = some (a.ends.settling grade) := by
  obtain ⟨w, hw, hfaithful⟩ := h.orderly.work
  have hflag : w.task.cancelled = false := by
    rw [← Bool.not_eq_true]
    intro hc
    have hdone := hfaithful.flag hc
    rw [hp] at hdone
    cases hdone
  have hnext : m.nextAttempt? = m.verdict? a.ends.result := by
    cases hpanic : Script.outburst? a.steps with
    | none => simp [nextAttempt?, hs, hr, hpanic, Action.ends]
    | some p => simp [nextAttempt?, hs, hr, hpanic, Action.ends]
  have hverdict : m.verdict? a.ends.result = some (a.ends.settling grade) := by
    simp only [verdict?, hw, Option.bind_some, hflag, hfaithful.graded]
    exact a.ends.verdict_eq grade
  rw [value?_step, value?, hp, hnext, hverdict]
  rfl

/-- An execution that finds the promise pending all the time settles it. -/
theorem Living.executed (h : m.Living grade timeoutMillis a) (rest : m.AtRest)
    (hbegins : m.executions < (m.perform .run).executions)
    (hpending : ∀ k, .conclude a.ending ∈ ((m.perform .run).runFor k).stack →
      ((m.perform .run).runFor k).promise.phase = .pending) :
    (m.perform .run).run.value? = some (a.ends.settling grade) := by
  obtain ⟨-, hp, htaken⟩ := h.begins rest hbegins
  have hliving : (m.perform .run).Living grade timeoutMillis a := h.perform rest rfl
  obtain ⟨t, hawaits⟩ := h.awaits
  obtain ⟨w, hw, hstage, -⟩ := hawaits hp
  have hleft : w.task.action.isSome = true := by simpa [taken, hw] using htaken
  obtain ⟨a', ha⟩ := Option.isSome_iff_exists.mp hleft
  rw [ha] at hstage
  obtain ⟨rfl, -⟩ := hstage.of_left
  have hrun : m.perform .run =
      (({ m with work := some { w with task := { w.task with action := none } } } :
        Machine ω).emit [.action a'.label]).push [.body a'.steps, .conclude a'.ending] := by
    simp only [Machine.perform, runTask, hw, isDone_of_pending hp, ha]
    rfl
  have hstack : (m.perform .run).stack = [.body a'.steps, .conclude a'.ending] := by
    rw [hrun]
    simp [push, emit, rest.ended]
  obtain ⟨k, hk, hraised⟩ := steps_end a'.steps hstack (by rw [hrun]; exact rest.sound)
    (by rw [hrun]; rfl) hpending
  -- the ending of the action comes next, and nothing takes the value away again
  have hvalue := (hliving.runFor k).concluded
    (hpending k (by rw [hk]; exact List.mem_singleton_self _)) hk hraised
  have hrest : (m.perform .run).run = ((m.perform .run).runFor k).step.run := by
    have hlead : (m.perform .run).Leads ((m.perform .run).storyFor (k + 1 +
        ((m.perform .run).runFor k).step.weight)) ((m.perform .run).runFor k).step.run :=
      ⟨k + 1 + ((m.perform .run).runFor k).step.weight, by rw [runFor_add, runFor_add]; rfl, rfl⟩
    exact (hlead.run (halted_run _)).1
  rw [hrest]
  exact (runFor_evolves _ _).stays _ hvalue

/-- A task on a promise without a hook, whose flag nobody else raises, at any moment of any
program. The action has been executed once at most: an execution begins only from outside and on
a pending promise, and none while anything is running. If the flag is raised, the promise has been
settled by the deadline. And an execution that finds the promise pending all the time settles it
by what the action says, or by its panic. -/
theorem action_runs_once_and_settles (fallback : Fallback) (grade : Status → ω)
    (a : Action (Step ω)) (timeoutMillis start : Nat) (before : Script ω) (s : Step ω) (n : Nat)
    (quiet : fallback.Quiet) (action : Script.handsOff a.steps = true)
    (program : Script.handsOff before = true) (last : s.handsOff = true) :
    let m := (tasked none fallback grade a timeoutMillis start).after before
    let now := (m.perform s).runFor n
    (now.executions ≤ 1 ∧ now.step.executions = now.executions ∧
      (m.executions < (m.perform s).executions → s.verb = .run ∧ m.promise.isPending = true)) ∧
    (∀ w, now.work = some w → w.task.cancelled = true → now.promise.settled? =
      some (.ofError (grade .timeout) (.timeout (.ofMillis timeoutMillis)))) ∧
    (m.executions < (m.perform s).executions →
      (∀ k, .conclude a.ending ∈ ((m.perform s).runFor k).stack →
        ((m.perform s).runFor k).promise.isPending = true) →
      (m.enact s).2.promise.settled? = some (a.ends.settling grade)) := by
  intro m now
  let ready := tasked none fallback grade a timeoutMillis start
  have hready : ready.AtRest := ⟨⟨quiet, rfl, trivial, by simp [ready, tasked]⟩, rfl⟩
  have hrest : m.AtRest := hready.after before
  have hstart : ready.Living grade timeoutMillis a := by
    refine ⟨⟨rfl, ⟨_, rfl, rfl, rfl, ?_, by simp⟩, by simp [ready, tasked], by simp [ready, tasked],
      by simp [ready, tasked], by simp [ready, tasked]⟩, ⟨[], ?_⟩, rfl⟩
    · rintro a' ⟨⟩
      exact action
    · intro _
      exact ⟨_, rfl, .ready false, by simp⟩
  have hm : m.Living grade timeoutMillis a := hstart.after hready program
  have hnow : now.Living grade timeoutMillis a := (hm.perform hrest last).runFor n
  refine ⟨⟨?_, hnow.sameRuns.executions, fun hbegins => ?_⟩, fun w hw hc => ?_,
    fun hbegins hpending => ?_⟩
  · rw [hnow.once]
    exact Bool.toNat_le _
  · obtain ⟨rfl, hp, -⟩ := hm.begins hrest hbegins
    exact ⟨rfl, Promise.isPending_iff.mpr hp⟩
  · obtain ⟨w', hw', hfaithful⟩ := hnow.orderly.work
    obtain rfl : w = w' := Option.some.inj (hw.symm.trans hw')
    rw [Promise.settled?, hfaithful.flag hc]
    rfl
  · obtain ⟨rfl, -, -⟩ := hm.begins hrest hbegins
    have hvalue := hm.executed hrest hbegins fun k hk => Promise.isPending_iff.mp (hpending k hk)
    have hend : (m.enact .run).2.promise.phase.value? = some (a.ends.settling grade) := by
      rw [enact_lowered]
      exact hvalue
    have hdone := (hrest.enact .run).isDone fun hp => by
      rw [hp] at hend
      cases hend
    obtain ⟨v, hv⟩ := Option.isSome_iff_exists.mp hdone
    rw [hv, ← hend, Phase.value?_of_settled? hv]

/-- Whether an action is over with this frame. -/
def endsAction : Frame ω → Bool
  | .conclude _ => true
  | .body _ | .report .. | .guard _ | .publish | .fire .. | .expired _ => false

/-- An action that runs its own task again, registers a callback that does so too, and then reports
a cancellation that nobody has asked for. -/
def mistaken : Action (Step Status) :=
  ⟨some "job", [.on .error "again" [.run, .expire], .run], .returns (.error .cancelled)⟩

/-- An action that expires its own task and then has a value. -/
def hasty : Action (Step Status) :=
  ⟨some "job", [.on .timeout "again" [.run], .expire, .run], .returns (.ok "7")⟩

/-- A task that has not been run, with a handler that is not loud. -/
def waiting (a : Action (Step Status)) : Machine Status :=
  tasked none (.shown "alarm") id a 100 0

/-- The mistaken action settles its promise by what it reports, and the hasty one has settled it
by the deadline when its flag is raised. -/
theorem action_runs_once_and_settles_nested :
    Script.handsOff mistaken.steps = true ∧ Script.handsOff hasty.steps = true ∧
    ((waiting mistaken).enact .run).2.promise.settled? = some (.ofError .error .cancelled) ∧
    ∃ w, (((waiting hasty).perform .run).runFor 12).work = some w ∧ w.task.cancelled = true ∧
      (((waiting hasty).perform .run).runFor 12).promise.settled? =
        some (.ofError .timeout (.timeout (.ofMillis 100))) := by
  have hmistaken : Script.handsOff mistaken.steps = true := by decide +kernel
  have hhasty : Script.handsOff hasty.steps = true := by decide +kernel
  -- while the mistaken action is executed its promise is pending
  have hpending : ∀ k, .conclude mistaken.ending ∈
      (((waiting mistaken).perform .run).runFor k).stack →
      (((waiting mistaken).perform .run).runFor k).promise.isPending = true := by
    intro k hk
    have hover : (((waiting mistaken).perform .run).runFor 20).stack = [] :=
      List.isEmpty_iff.mp (by decide +kernel)
    have hshort : ∀ k < 20, (((waiting mistaken).perform .run).runFor k).promise.isPending = true ∨
        (((waiting mistaken).perform .run).runFor k).stack.any endsAction = false := by
      decide +kernel
    rcases Nat.lt_or_ge k 20 with hlt | hge
    · rcases hshort k hlt with hp | hgone
      · exact hp
      · exact absurd rfl (List.any_eq_false.mp hgone _ hk)
    · obtain ⟨j, rfl⟩ := Nat.exists_eq_add_of_le hge
      rw [runFor_add, runFor_halted hover, hover] at hk
      cases hk
  have hraised : ((((waiting hasty).perform .run).runFor 12).work.map
      fun w => w.task.cancelled) = some true := by decide +kernel
  obtain ⟨w, hw, hc⟩ := Option.map_eq_some_iff.mp hraised
  obtain ⟨-, -, hsettles⟩ := action_runs_once_and_settles (.shown "alarm") id mistaken 100 0
    [] .run 0 (Fallback.quiet_shown _) hmistaken rfl rfl
  obtain ⟨-, hflag, -⟩ := action_runs_once_and_settles (.shown "alarm") id hasty 100 0
    [] .run 12 (Fallback.quiet_shown _) hhasty rfl rfl
  exact ⟨hmistaken, hhasty, hsettles (by decide +kernel) hpending, w, hw, hc, hflag w hw hc⟩

end Machine

end Turnstile
