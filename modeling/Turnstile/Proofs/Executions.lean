import Turnstile.Proofs.TaskRun

/-!
# Executions

How often the action of a task is executed can be seen from outside. An execution begins where a
step runs the task on a promise that is not done and whose action is not taken; nothing else
begins one.
-/

namespace Turnstile

variable {ω : Type}

def Event.isAction : Event ω → Bool
  | .action _ => true
  | .hook _ | .callback .. | .did .. | .fallback .. | .fired _ => false

theorem Step.verb_eq_run {s : Step ω} (h : s.verb = .run) : s = .run := by
  cases s <;> simp_all [Step.verb]

namespace Machine

/-- How often the action was executed. -/
def executions (m : Machine ω) : Nat := m.events.countP Event.isAction

/-- No execution has begun between the two. -/
structure SameRuns (m m' : Machine ω) : Prop where
  executions : m'.executions = m.executions
  taken : m'.taken = m.taken

theorem SameRuns.refl (m : Machine ω) : m.SameRuns m := ⟨rfl, rfl⟩

theorem SameRuns.trans {m m' m'' : Machine ω} (h : m.SameRuns m') (h' : m'.SameRuns m'') :
    m.SameRuns m'' :=
  ⟨h'.executions.trans h.executions, h'.taken.trans h.taken⟩

/-- Other events are no executions. -/
theorem SameRuns.of_events {m m' : Machine ω} {new : List (Event ω)}
    (events : m'.events = m.events ++ new) (other : ∀ e ∈ new, e.isAction = false)
    (work : m'.work = m.work) : m.SameRuns m' := by
  refine ⟨?_, by simp only [Machine.taken, work]⟩
  have hnone : new.countP Event.isAction = 0 := List.countP_eq_zero.mpr (by simpa using other)
  rw [Machine.executions, events, List.countP_append, hnone]
  rfl

theorem SameRuns.same {m m' : Machine ω} (events : m'.events = m.events)
    (work : m'.work = m.work) : m.SameRuns m' :=
  .of_events (events.trans (List.append_nil _).symm) (by simp) work

variable (m : Machine ω)

theorem settle_sameRuns (v : Settled ω) : m.SameRuns (m.settle v) := by
  rcases m.settle_cases v with ⟨-, h⟩ | ⟨-, -, h⟩ | ⟨steps, -, -, h⟩
  · rw [h]
    exact .refl m
  · rw [h]
    exact .same rfl rfl
  · rw [h]
    exact .of_events rfl (by simp [Event.isAction]) rfl

theorem register_sameRuns (c : Callback (Reaction ω)) : m.SameRuns (m.register c) := by
  unfold register
  split <;> exact .same rfl rfl

theorem publish_sameRuns : m.SameRuns m.publish := by
  unfold publish
  split <;> exact .same rfl rfl

theorem fire_sameRuns (c : Callback (Reaction ω)) (v : Settled ω) : m.SameRuns (m.fire c v) := by
  unfold fire
  split
  · exact .of_events rfl (by simp [Event.isAction]) rfl
  · exact .refl m

theorem spend_sameRuns (q : Question) : m.SameRuns (m.spend q) := by
  unfold spend
  split
  · split <;> exact .same rfl rfl
  · exact .refl m

theorem report_sameRuns (kind : Kind) (p : Panic) : m.SameRuns (m.report kind p) :=
  .of_events rfl (by cases m.fallback <;> simp [Fallback.events, Event.isAction]) rfl

theorem cancel_sameRuns : m.SameRuns m.cancel :=
  ⟨rfl, by cases hw : m.work <;> simp [cancel, taken, hw, Task.cancel]⟩

theorem afterExpiry_sameRuns (won : Bool) : m.SameRuns (m.afterExpiry won) := by
  unfold afterExpiry
  split
  · exact .refl m
  · rename_i w _
    have hnoted : m.SameRuns
        (m.noteDown (if won then [.taskTimedOut w.task.timeoutMillis] else [])) := .same rfl rfl
    exact hnoted.trans (cancel_sameRuns _)

/-- Nothing is run on a promise that is done, and no action twice. -/
theorem runTask_late {m : Machine ω} (h : m.promise.isDone = true ∨ m.taken = true) :
    m.runTask = m := by
  unfold runTask
  cases hw : m.work with
  | none => rfl
  | some w =>
    rcases h with hdone | htaken
    · simp [hdone]
    · have hleft : w.task.action = none := by simpa [taken, hw] using htaken
      simp [hleft]

/-- The action begins, which is seen, or nothing does. -/
theorem runTask_cases : m.runTask = m ∨
    ∃ w a, m.work = some w ∧ w.task.action = some a ∧ m.promise.isDone = false ∧
      m.runTask = (({ m with work := some { w with task := { w.task with action := none } } } :
        Machine ω).emit [.action a.label]).push [.body a.steps, .conclude a.ending] := by
  unfold runTask
  cases hw : m.work with
  | none => exact .inl rfl
  | some w =>
    cases hdone : m.promise.isDone with
    | true => exact .inl rfl
    | false =>
      cases ha : w.task.action with
      | none => exact .inl (by simp [ha])
      | some a => exact .inr ⟨w, a, rfl, ha, rfl, by simp [ha]⟩

variable [Outcome ω]

theorem conclude_sameRuns (r : CallResult) : m.SameRuns (m.conclude r) := by
  unfold conclude
  split
  · exact .refl m
  · split
    · exact .refl m
    · exact m.settle_sameRuns _

theorem expire_sameRuns : m.SameRuns m.expire := by
  unfold expire
  split
  · exact .refl m
  · split
    · exact .refl m
    · have hpushed : m.SameRuns (m.push [.expired m.promise.isPending]) := .same rfl rfl
      exact hpushed.trans (settle_sameRuns _ _)

theorem perform_sameRuns {s : Step ω} (hs : s.verb ≠ .run) : m.SameRuns (m.perform s) := by
  cases s with
  | complete o x => exact m.settle_sameRuns _
  | fail o e => exact m.settle_sameRuns _
  | on kind label body => exact m.register_sameRuns _
  | panic p => exact .same rfl rfl
  | ask q => exact m.spend_sameRuns q
  | run => exact absurd rfl hs
  | expire => exact m.expire_sameRuns
  | cancel => exact m.cancel_sameRuns

theorem unwind_sameRuns (p : Panic) (f : Frame ω) : m.SameRuns (m.unwind p f) := by
  cases f with
  | guard kind => exact m.report_sameRuns kind p
  | conclude e =>
    have hcaught : m.SameRuns { m with raised := none } := .same rfl rfl
    exact hcaught.trans (conclude_sameRuns { m with raised := none } (Ending.panics p).result)
  | _ => exact .refl m

/-- A step of the machine begins no execution, if a script that runs the task comes too late. -/
theorem step_sameRuns (late : ∀ rest below, m.stack = .body (.run :: rest) :: below →
    m.promise.isDone = true ∨ m.taken = true) : m.SameRuns m.step := by
  cases hs : m.stack with
  | nil =>
    rw [step_halted hs]
    exact .refl m
  | cons f below =>
    have hpop : m.SameRuns { m with stack := below } := .same rfl rfl
    cases hr : m.raised with
    | some p =>
      rw [step_panic hs hr]
      exact hpop.trans (unwind_sameRuns _ p f)
    | none =>
      rw [step_frame hs hr]
      cases f with
      | body script =>
        cases script with
        | nil => exact hpop
        | cons s rest =>
          by_cases hpanic : s.verb = .panic
          · obtain ⟨p, rfl⟩ := Step.verb_eq_panic hpanic
            exact .same rfl rfl
          · rw [work1_body _ hpanic]
            have hpush : m.SameRuns (({ m with stack := below } : Machine ω).push
              [.report s.verb (({ m with stack := below } : Machine ω).answer s), .body rest]) :=
              .same rfl rfl
            by_cases hrun : s.verb = .run
            · obtain rfl := Step.verb_eq_run hrun
              refine hpush.trans ?_
              show SameRuns _ (runTask _)
              rw [runTask_late]
              · exact .refl _
              · exact late rest below hs
            · exact hpush.trans (perform_sameRuns _ hrun)
      | report verb a => exact hpop.trans (.of_events rfl (by simp [Event.isAction]) rfl)
      | guard kind => exact hpop
      | publish => exact hpop.trans (publish_sameRuns _)
      | fire c v => exact hpop.trans (fire_sameRuns _ c v)
      | conclude e => exact hpop.trans (conclude_sameRuns _ _)
      | expired won => exact hpop.trans (afterExpiry_sameRuns _ won)

end Machine

end Turnstile
