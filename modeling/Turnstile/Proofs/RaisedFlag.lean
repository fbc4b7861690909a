import Turnstile.Proofs.Executions
import Turnstile.Proofs.HookFirst

/-!
# The flag of a task

A task on a promise without a hook, whose flag nobody raises by hand. A value that is stored is
shown at once, so an expiry that comes before the value settles the promise itself, and the flag is
raised behind it only. The invariant is kept by every operation, and so by every step.
-/

namespace Turnstile

variable {ω : Type}

mutual

/-- Whether a step, with all the bodies inside it, never raises the flag by hand. -/
def Step.handsOff : Step ω → Bool
  | .on _ _ body => Step.allHandsOff body
  | .cancel => false
  | .complete .. | .fail .. | .panic _ | .ask _ | .run | .expire => true

def Step.allHandsOff : List (Step ω) → Bool
  | [] => true
  | s :: rest => s.handsOff && Step.allHandsOff rest

end

/-- Whether nothing in a script raises the flag by hand. -/
def Script.handsOff (script : Script ω) : Bool := Step.allHandsOff script

@[simp] theorem Script.handsOff_nil : Script.handsOff ([] : Script ω) = true := by
  rw [handsOff, Step.allHandsOff]

@[simp] theorem Script.handsOff_cons (s : Step ω) (rest : Script ω) :
    Script.handsOff (s :: rest) = (s.handsOff && Script.handsOff rest) := by
  rw [handsOff, Step.allHandsOff, handsOff]

@[simp] theorem Step.handsOff_on (kind : Kind) (label : String) (body : Script ω) :
    (Step.on kind label body).handsOff = Script.handsOff body := by
  rw [handsOff, Script.handsOff]

theorem Step.ne_cancel {s : Step ω} (h : s.handsOff = true) : s ≠ .cancel := by
  rintro rfl
  rw [handsOff] at h
  cases h

/-- What a frame will run leaves the flag alone. -/
def Frame.HandsOff : Frame ω → Prop
  | .body script => script.handsOff = true
  | .fire c _ => c.body.body.handsOff = true
  | .report .. | .guard _ | .publish | .conclude _ | .expired _ => True

namespace Machine

variable [Outcome ω] {m : Machine ω}

omit [Outcome ω] in
/-- A promise that nobody is about to show a value of. -/
def Steady (m : Machine ω) : Prop := ∀ v, m.promise.phase ≠ .completing v

omit [Outcome ω] in
theorem Steady.pending {m : Machine ω} (h : m.Steady) (hdone : m.promise.isDone = false) :
    m.promise.phase = .pending := by
  cases hp : m.promise.phase with
  | pending => rfl
  | completing v => exact absurd hp (h v)
  | done v => simp [Promise.isDone, Promise.settled?, hp] at hdone

/-- What an expired task settles its promise with. -/
def tooLate (grade : Status → ω) (timeoutMillis : Nat) : Settled ω :=
  .ofError (grade .timeout) (.timeout (.ofMillis timeoutMillis))

/-- The task has the timeout and the outcomes it was made with, and its flag is raised only if it
has settled the promise. -/
structure Faithful (grade : Status → ω) (timeoutMillis : Nat) (phase : Phase ω) (w : Work ω) :
    Prop where
  graded : w.grade = grade
  timeout : w.task.timeoutMillis = timeoutMillis
  handsOff : ∀ a ∈ w.task.action, Script.handsOff a.steps = true
  flag : w.task.cancelled = true → phase = .done (tooLate grade timeoutMillis)

/-- A value that is stored is shown at once, an expiry that is not over has settled the promise,
and no script raises the flag by hand. -/
structure Orderly (grade : Status → ω) (timeoutMillis : Nat) (m : Machine ω) : Prop where
  hookless : m.promise.hook = none
  work : ∃ w, m.work = some w ∧ Faithful grade timeoutMillis m.promise.phase w
  brief : ∀ v, m.promise.phase = .completing v →
    m.raised = none ∧ ∃ below, m.stack = .publish :: below
  due : ∀ won, .expired won ∈ m.stack → m.value? = some (tooLate grade timeoutMillis)
  frames : ∀ f ∈ m.stack, f.HandsOff
  callbacks : ∀ c ∈ m.promise.callbacks, Script.handsOff c.body.body = true

variable {grade : Status → ω} {timeoutMillis : Nat} {f : Frame ω} {below : List (Frame ω)}

theorem Faithful.expiry {phase : Phase ω} {w : Work ω} (h : Faithful grade timeoutMillis phase w) :
    w.task.expiry w.grade = tooLate grade timeoutMillis := by
  rw [Task.expiry, h.graded, h.timeout]
  rfl

namespace Orderly

/-- A frame is left, or several, but none that shows a value. -/
theorem pop (h : m.Orderly grade timeoutMillis) (steady : m.Steady) (hs : m.stack = f :: below) :
    ({ m with stack := below } : Machine ω).Orderly grade timeoutMillis where
  hookless := h.hookless
  work := h.work
  brief v hv := absurd hv (steady v)
  due won hmem := h.due won (by rw [hs]; exact List.mem_cons_of_mem _ hmem)
  frames f hf := h.frames f (by rw [hs]; exact List.mem_cons_of_mem _ hf)
  callbacks := h.callbacks

theorem push (h : m.Orderly grade timeoutMillis) (steady : m.Steady) {frames : List (Frame ω)}
    (hframes : ∀ f ∈ frames, f.HandsOff) (hexpired : ∀ won, .expired won ∉ frames) :
    (m.push frames).Orderly grade timeoutMillis where
  hookless := h.hookless
  work := h.work
  brief v hv := absurd hv (steady v)
  due won hmem := h.due won ((List.mem_append.mp hmem).resolve_left (hexpired won))
  frames f hf := (List.mem_append.mp hf).elim (hframes f) (h.frames f)
  callbacks := h.callbacks

theorem emit (h : m.Orderly grade timeoutMillis) (events : List (Event ω)) :
    (m.emit events).Orderly grade timeoutMillis :=
  ⟨h.hookless, h.work, h.brief, h.due, h.frames, h.callbacks⟩

theorem raise (h : m.Orderly grade timeoutMillis) (steady : m.Steady) (raised : Option Panic) :
    ({ m with raised := raised } : Machine ω).Orderly grade timeoutMillis :=
  ⟨h.hookless, h.work, fun v hv => absurd hv (steady v), h.due, h.frames, h.callbacks⟩

theorem settle (h : m.Orderly grade timeoutMillis) (hr : m.raised = none) (v : Settled ω) :
    (m.settle v).Orderly grade timeoutMillis := by
  rcases m.settle_cases v with ⟨-, hs⟩ | ⟨hp, -, hs⟩ | ⟨steps, -, hhook, -⟩
  · rwa [hs]
  · obtain ⟨w, hw, hfaithful⟩ := h.work
    rw [hs]
    refine ⟨h.hookless, ⟨w, hw, { hfaithful with flag := fun hc => ?_ }⟩, fun _ _ => ⟨hr, _, rfl⟩,
      fun won hmem => ?_, fun f hf => ?_, h.callbacks⟩
    · rw [hp] at hfaithful
      cases hfaithful.flag hc
    · have hdue := h.due won ((List.mem_cons.mp hmem).resolve_left (by simp))
      rw [value?, hp] at hdue
      cases hdue
    · rcases List.mem_cons.mp hf with rfl | hf
      · trivial
      · exact h.frames f hf
  · rw [h.hookless] at hhook
    cases hhook

theorem register (h : m.Orderly grade timeoutMillis) (steady : m.Steady)
    {c : Callback (Reaction ω)} (hc : Script.handsOff c.body.body = true) :
    (m.register c).Orderly grade timeoutMillis := by
  cases hdone : m.promise.isDone with
  | false =>
    rw [register_early hdone]
    refine ⟨h.hookless, h.work, h.brief, h.due, h.frames, fun c' hc' => ?_⟩
    rcases List.mem_append.mp hc' with hc' | hc'
    · exact h.callbacks c' hc'
    · rwa [List.mem_singleton.mp hc']
  | true =>
    cases hp : m.promise.phase with
    | done v =>
      have hfire : m.register c = m.push [.fire c v] := by
        simp [Machine.register, Promise.register, hp]
      rw [hfire]
      refine h.push steady (fun f hf => ?_) (by simp)
      rw [List.mem_singleton.mp hf]
      exact hc
    | _ => simp [Promise.isDone, Promise.settled?, hp] at hdone

theorem spend (h : m.Orderly grade timeoutMillis) (q : Question) :
    (m.spend q).Orderly grade timeoutMillis := by
  unfold Machine.spend
  split
  · split
    · exact h
    · exact ⟨h.hookless, h.work, h.brief, h.due, h.frames, h.callbacks⟩
  · exact h

theorem runTask (h : m.Orderly grade timeoutMillis) (steady : m.Steady) :
    m.runTask.Orderly grade timeoutMillis := by
  rcases m.runTask_cases with hs | ⟨w, a, hw, ha, -, hs⟩
  · rwa [hs]
  · obtain ⟨w', hw', hfaithful⟩ := h.work
    obtain rfl : w = w' := Option.some.inj (hw.symm.trans hw')
    have htaken : ({ m with work := some { w with task := { w.task with action := none } } } :
        Machine ω).Orderly grade timeoutMillis :=
      ⟨h.hookless, ⟨_, rfl, hfaithful.graded, hfaithful.timeout, by simp, hfaithful.flag⟩,
        h.brief, h.due, h.frames, h.callbacks⟩
    rw [hs]
    refine (htaken.emit _).push steady (fun f hf => ?_) (by simp)
    rcases List.mem_cons.mp hf with rfl | hf
    · exact hfaithful.handsOff a ha
    · rw [List.mem_singleton.mp hf]
      trivial

theorem fire (h : m.Orderly grade timeoutMillis) (steady : m.Steady)
    {c : Callback (Reaction ω)} (hc : Script.handsOff c.body.body = true) (v : Settled ω) :
    (m.fire c v).Orderly grade timeoutMillis := by
  unfold Machine.fire
  split
  · refine (h.emit _).push steady (fun f hf => ?_) (by simp)
    rcases List.mem_cons.mp hf with rfl | hf
    · exact hc
    · rw [List.mem_singleton.mp hf]
      trivial
  · exact h

/-- The value is shown, and its callbacks are left to be fired. -/
theorem publish (h : m.Orderly grade timeoutMillis) (hs : m.stack = .publish :: below) :
    ({ m with stack := below } : Machine ω).publish.Orderly grade timeoutMillis := by
  cases hp : m.promise.phase with
  | completing v =>
    obtain ⟨w, hw, hfaithful⟩ := h.work
    simp only [Machine.publish, Promise.publish, hp]
    refine ⟨h.hookless, ⟨w, hw, { hfaithful with flag := fun hc => ?_ }⟩, by simp [Machine.push],
      fun won hmem => ?_, fun f hf => ?_, by simp [Machine.push]⟩
    · rw [hp] at hfaithful
      cases hfaithful.flag hc
    · have hbelow : .expired won ∈ below := by simpa [Machine.push] using hmem
      have hdue := h.due won (by rw [hs]; exact List.mem_cons_of_mem _ hbelow)
      rw [value?, hp] at hdue
      exact hdue
    · rcases List.mem_append.mp hf with hf | hf
      · obtain ⟨c, hc, rfl⟩ := List.mem_map.mp hf
        exact h.callbacks c hc
      · exact h.frames f (by rw [hs]; exact List.mem_cons_of_mem _ hf)
  | _ =>
    have hsteady : m.Steady := by
      intro v hv
      rw [hp] at hv
      cases hv
    simp only [Machine.publish, hp]
    exact h.pop hsteady hs

/-- The flag is raised by a task that has settled its promise. -/
theorem afterExpiry (h : m.Orderly grade timeoutMillis) (steady : m.Steady) (won : Bool)
    (hwon : m.value? = some (tooLate grade timeoutMillis)) :
    (m.afterExpiry won).Orderly grade timeoutMillis := by
  obtain ⟨w, hw, hfaithful⟩ := h.work
  have hdone : m.promise.phase = .done (tooLate grade timeoutMillis) := by
    cases hp : m.promise.phase with
    | pending =>
      rw [value?, hp] at hwon
      cases hwon
    | completing v => exact absurd hp (steady v)
    | done v =>
      rw [value?, hp] at hwon
      rw [Option.some.inj hwon]
  have hcancel : m.afterExpiry won =
      (m.noteDown (if won then [.taskTimedOut w.task.timeoutMillis] else [])).cancel := by
    simp only [Machine.afterExpiry, hw]
  rw [hcancel]
  refine ⟨h.hookless, ⟨{ w with task := w.task.cancel }, ?_, ?_⟩, h.brief, h.due, h.frames,
    h.callbacks⟩
  · simp [Machine.cancel, noteDown, hw]
  · exact ⟨hfaithful.graded, hfaithful.timeout, hfaithful.handsOff, fun _ => hdone⟩

theorem conclude (h : m.Orderly grade timeoutMillis) (hr : m.raised = none) (r : CallResult) :
    (m.conclude r).Orderly grade timeoutMillis := by
  unfold Machine.conclude
  split
  · exact h
  · split
    · exact h
    · exact h.settle hr _

/-- An expiry that comes in time settles the promise before anything else happens. -/
theorem expire (h : m.Orderly grade timeoutMillis) (steady : m.Steady) (hr : m.raised = none) :
    m.expire.Orderly grade timeoutMillis := by
  obtain ⟨w, hw, hfaithful⟩ := h.work
  cases hdone : m.promise.isDone with
  | true =>
    have hsame : m.expire = m := by simp [Machine.expire, hw, hdone]
    rwa [hsame]
  | false =>
    have hp := steady.pending hdone
    have hexpire : m.expire =
        ({ m with promise := { m.promise with
          phase := .completing (tooLate grade timeoutMillis) } } : Machine ω).push
          [.publish, .expired m.promise.isPending] := by
      simp only [Machine.expire, hw, hdone, hfaithful.expiry, Machine.settle, Promise.begin?,
        Machine.push, hp, h.hookless]
      rfl
    rw [hexpire]
    refine ⟨h.hookless, ⟨w, hw, { hfaithful with flag := fun hc => ?_ }⟩, fun _ _ => ⟨hr, _, rfl⟩,
      fun _ _ => rfl, fun f hf => ?_, h.callbacks⟩
    · rw [hp] at hfaithful
      cases hfaithful.flag hc
    · rcases List.mem_cons.mp hf with rfl | hf
      · trivial
      · rcases List.mem_cons.mp hf with rfl | hf
        · trivial
        · exact h.frames f hf

/-- A step begins that is no panic. -/
theorem perform (h : m.Orderly grade timeoutMillis) (steady : m.Steady) (hr : m.raised = none)
    {s : Step ω} (hs : s.handsOff = true) : (m.perform s).Orderly grade timeoutMillis := by
  cases s with
  | complete o x => exact h.settle hr _
  | fail o e => exact h.settle hr _
  | on kind label body => exact h.register steady (by simpa using hs)
  | panic p => exact h.raise steady _
  | ask q => exact h.spend q
  | run => exact h.runTask steady
  | expire => exact h.expire steady hr
  | cancel => exact absurd rfl (Step.ne_cancel hs)

/-- A frame is worked off that shows no value. -/
theorem work1 (h : m.Orderly grade timeoutMillis) (steady : m.Steady) (hr : m.raised = none)
    (hs : m.stack = f :: below) (hf : f ≠ .publish) :
    (({ m with stack := below } : Machine ω).work1 f).Orderly grade timeoutMillis := by
  have hpop := h.pop steady hs
  have hframe : f.HandsOff := h.frames f (by rw [hs]; exact List.mem_cons_self)
  cases f with
  | body script =>
    cases script with
    | nil => exact hpop
    | cons s rest =>
      obtain ⟨hstep, hrest⟩ : s.handsOff = true ∧ Script.handsOff rest = true := by
        simpa [Frame.HandsOff] using hframe
      by_cases hpanic : s.verb = .panic
      · obtain ⟨p, rfl⟩ := Step.verb_eq_panic hpanic
        exact hpop.raise steady _
      · rw [work1_body _ hpanic]
        refine (hpop.push steady (fun f hf => ?_) (by simp)).perform steady hr hstep
        rcases List.mem_cons.mp hf with rfl | hf
        · trivial
        · rw [List.mem_singleton.mp hf]
          exact hrest
  | report verb a => exact hpop.emit _
  | guard kind => exact hpop
  | publish => exact absurd rfl hf
  | fire c v => exact hpop.fire steady hframe v
  | conclude e => exact hpop.conclude hr _
  | expired won =>
    exact hpop.afterExpiry steady won (h.due won (by rw [hs]; exact List.mem_cons_self))

theorem unwind (h : m.Orderly grade timeoutMillis) (steady : m.Steady)
    (hs : m.stack = f :: below) (p : Panic) :
    (({ m with stack := below } : Machine ω).unwind p f).Orderly grade timeoutMillis := by
  have hpop := h.pop steady hs
  cases f with
  | guard kind =>
    exact ⟨hpop.hookless, hpop.work, fun v hv => absurd hv (steady v), hpop.due, hpop.frames,
      hpop.callbacks⟩
  | conclude e => exact (hpop.raise steady none).conclude rfl (Ending.panics p).result
  | _ => exact hpop

theorem step (h : m.Orderly grade timeoutMillis) : m.step.Orderly grade timeoutMillis := by
  cases hs : m.stack with
  | nil => rwa [step_halted hs]
  | cons f below =>
    by_cases steady : m.Steady
    · cases hr : m.raised with
      | some p =>
        rw [step_panic hs hr]
        exact h.unwind steady hs p
      | none =>
        rw [step_frame hs hr]
        by_cases hf : f = .publish
        · subst hf
          exact h.publish hs
        · exact h.work1 steady hr hs hf
    · -- the value is about to be shown
      obtain ⟨v, hv⟩ : ∃ v, m.promise.phase = .completing v := by
        simpa [Steady] using steady
      obtain ⟨hr, below, hpublish⟩ := h.brief v hv
      rw [step_frame hpublish hr]
      exact h.publish hpublish

/-- When the machine rests no value waits to be shown. -/
theorem steady_of_rest (h : m.Orderly grade timeoutMillis) (hs : m.stack = []) : m.Steady := by
  intro v hv
  obtain ⟨-, below, hpublish⟩ := h.brief v hv
  rw [hs] at hpublish
  cases hpublish

end Orderly

end Machine

end Turnstile
