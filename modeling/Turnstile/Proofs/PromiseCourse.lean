import Turnstile.Proofs.Story

/-!
# The course of a promise

What scripts can do to a promise on its own, as a grammar of stories: before the value is
shown they only gather callbacks, the callbacks gathered are then fired in their order, and
whatever is registered afterwards is fired at once. Every run of a machine whose fallback
handler does not panic keeps to the grammar.
-/

namespace Turnstile

/-- Whether a step of this name tries to settle. -/
def Verb.settles : Verb → Bool
  | .complete | .fail => true
  | _ => false

namespace Story

variable {ω : Type}

/-- Scripts before the value is shown: attempts lose at once, and callbacks are put by. -/
inductive Gathering : Story ω → Prop where
  | done : Gathering []
  | other {verb : Verb} (answer : Answer ω) {t : Story ω} (h : verb.settles = false)
      (rest : Gathering t) : Gathering (.reply verb answer :: t)
  | attempt (v : Settled ω) (verb : Verb) {t : Story ω} (rest : Gathering t) :
      Gathering (.attempt v :: .reply verb (.truth false) :: t)
  | register (c : Callback (Reaction ω)) {t : Story ω} (rest : Gathering t) :
      Gathering (.register c :: .reply .on .nothing :: t)

/-- Scripts on a promise that is done: attempts lose at once, and a callback for the ending
that came is run from its beginning to its end before its registration returns. -/
inductive Aftermath (v : Settled ω) : Story ω → Prop where
  | done : Aftermath v []
  | other {verb : Verb} (answer : Answer ω) {t : Story ω} (h : verb.settles = false)
      (rest : Aftermath v t) : Aftermath v (.reply verb answer :: t)
  | attempt (v' : Settled ω) (verb : Verb) {t : Story ω} (rest : Aftermath v t) :
      Aftermath v (.attempt v' :: .reply verb (.truth false) :: t)
  | ignored {c : Callback (Reaction ω)} {t : Story ω} (h : c.kind ≠ v.kind)
      (rest : Aftermath v t) : Aftermath v (.register c :: .reply .on .nothing :: t)
  | prompt {c : Callback (Reaction ω)} {inner t : Story ω} (h : c.kind = v.kind)
      (body : Aftermath v inner) (rest : Aftermath v t) :
      Aftermath v (.register c :: .call c v.result :: (inner ++ .reply .on .nothing :: t))

/-- The callbacks that have waited are fired in their order. -/
inductive Firing (v : Settled ω) : List (Callback (Reaction ω)) → Story ω → Prop where
  | done : Firing v [] []
  | ignored {c : Callback (Reaction ω)} {cs : List (Callback (Reaction ω))} {t : Story ω}
      (h : c.kind ≠ v.kind) (rest : Firing v cs t) : Firing v (c :: cs) t
  | fired {c : Callback (Reaction ω)} {cs : List (Callback (Reaction ω))}
      {inner t : Story ω} (h : c.kind = v.kind) (body : Aftermath v inner)
      (rest : Firing v cs t) : Firing v (c :: cs) (.call c v.result :: (inner ++ t))

/-- The hook is run once, if there is one. -/
inductive HookRun (v : Settled ω) : Option (Script ω) → Story ω → Prop where
  | none : HookRun v none []
  | some {hook : Script ω} {body : Story ω} (h : Gathering body) :
      HookRun v (some hook) (.hook v.outcome :: body)

theorem Gathering.append {t t' : Story ω} (h : Gathering t) (h' : Gathering t') :
    Gathering (t ++ t') := by
  induction h with
  | done => exact h'
  | other answer hverb _ ih => exact ih.other answer hverb
  | attempt v verb _ ih => exact ih.attempt v verb
  | register c _ ih => exact ih.register c

theorem Aftermath.append {v : Settled ω} {t t' : Story ω} (h : Aftermath v t)
    (h' : Aftermath v t') : Aftermath v (t ++ t') := by
  induction h with
  | done => exact h'
  | other answer hverb _ ih => exact ih.other answer hverb
  | attempt v' verb _ ih => exact ih.attempt v' verb
  | ignored hkind _ ih => exact ih.ignored hkind
  | prompt hkind body _ _ ih =>
    have hprompt := Aftermath.prompt hkind body ih
    simpa using hprompt

/-- Before the value is shown no callback is run. -/
theorem Gathering.called {t : Story ω} (h : Gathering t) : t.called = [] := by
  induction h with
  | done => rfl
  | other _ _ _ ih => exact ih
  | attempt _ _ _ ih => exact ih
  | register _ _ ih => exact ih

/-- Nor does the hook run one. -/
theorem HookRun.called {v : Settled ω} {hook : Option (Script ω)} {t : Story ω}
    (h : HookRun v hook t) : t.called = [] := by
  cases h with
  | none => rfl
  | some body => exact body.called

/-- The calls that an ending owes to callbacks: those for its kind are given its result. -/
def owed (v : Settled ω) (cs : List (Callback (Reaction ω))) :
    List (Callback (Reaction ω) × CallResult) :=
  (cs.filter (·.kind = v.kind)).map (·, v.result)

theorem owed_append (v : Settled ω) (cs cs' : List (Callback (Reaction ω))) :
    owed v (cs ++ cs') = owed v cs ++ owed v cs' := by simp [owed]

theorem owed_cons_of_eq {v : Settled ω} {c : Callback (Reaction ω)} (h : c.kind = v.kind)
    (cs : List (Callback (Reaction ω))) : owed v (c :: cs) = (c, v.result) :: owed v cs := by
  simp [owed, h]

theorem owed_cons_of_ne {v : Settled ω} {c : Callback (Reaction ω)} (h : c.kind ≠ v.kind)
    (cs : List (Callback (Reaction ω))) : owed v (c :: cs) = owed v cs := by
  simp [owed, h]

/-- After the value is shown the calls are those owed to the callbacks registered. -/
theorem Aftermath.called_perm {v : Settled ω} {t : Story ω} (h : Aftermath v t) :
    t.called.Perm (owed v t.registered) := by
  induction h with
  | done => exact .refl _
  | other _ _ _ ih => exact ih
  | attempt _ _ _ ih => exact ih
  | @ignored c t hkind _ ih =>
    have hreg : registered (.register c :: .reply .on .nothing :: t) = c :: t.registered := rfl
    rw [hreg, owed_cons_of_ne hkind]
    exact ih
  | @prompt c inner t hkind _ _ ihb ih =>
    have hperm := (ihb.append ih).cons (c, v.result)
    rw [← owed_append, ← owed_cons_of_eq hkind] at hperm
    simpa using hperm

/-- Firing calls what is owed to the callbacks that waited and to those registered meanwhile. -/
theorem Firing.called_perm {v : Settled ω} {cs : List (Callback (Reaction ω))} {t : Story ω}
    (h : Firing v cs t) : t.called.Perm (owed v (cs ++ t.registered)) := by
  induction h with
  | done => exact .refl _
  | @ignored c cs t hkind _ ih =>
    rw [List.cons_append, owed_cons_of_ne hkind]
    exact ih
  | @fired c cs inner t hkind body _ ih =>
    rw [owed_append] at ih
    rw [owed_append, owed_cons_of_eq hkind]
    have hperm :=
      ((body.called_perm.append ih).trans (List.perm_append_comm_assoc _ _ _)).cons
        (c, v.result)
    rw [← owed_append v inner.registered] at hperm
    simpa using hperm

end Story

/-- Whether a step only asks, or is about a task that the promise does not have. -/
def Step.IsIdle {ω : Type} : Step ω → Prop
  | .ask _ | .run | .expire | .cancel => True
  | .complete .. | .fail .. | .on .. | .panic _ => False

theorem Step.IsIdle.not_settles {ω : Type} {s : Step ω} (h : s.IsIdle) :
    s.verb.settles = false := by
  cases s <;> first | rfl | exact h.elim

theorem Step.IsIdle.verb_ne {ω : Type} {s : Step ω} (h : s.IsIdle) :
    s.verb ≠ .panic ∧ s.verb ≠ .on := by
  cases s <;> simp_all [verb, IsIdle]

theorem Step.verb_ne_of_attempt {ω : Type} [Outcome ω] {s : Step ω} {v : Settled ω}
    (h : s.attempt? = some v) : s.verb ≠ .panic ∧ s.verb ≠ .on := by
  cases s <;> simp_all [verb, attempt?]

/-- The sorts of steps: attempts, idle steps, panics and registrations. -/
theorem Step.sorts {ω : Type} [Outcome ω] (s : Step ω) :
    (∃ v, s.attempt? = some v) ∨ s.IsIdle ∨ (∃ p, s = .panic p) ∨
      ∃ kind label body, s = .on kind label body := by
  cases s with
  | complete o x => exact .inl ⟨_, rfl⟩
  | fail o e => exact .inl ⟨_, rfl⟩
  | panic p => exact .inr (.inr (.inl ⟨p, rfl⟩))
  | on kind label body => exact .inr (.inr (.inr ⟨kind, label, body, rfl⟩))
  | _ => exact .inr (.inl trivial)

theorem Step.verb_eq_panic {ω : Type} {s : Step ω} (h : s.verb = .panic) :
    ∃ p, s = .panic p := by
  cases s with
  | panic p => exact ⟨p, rfl⟩
  | _ => cases h

namespace Script

variable {ω : Type}

/-- The panic that ends a body. -/
def outburst? : Script ω → Option Panic
  | [] => none
  | .panic p :: _ => some p
  | _ :: rest => outburst? rest

/-- The callbacks that a body puts by before the value is shown: those up to its first panic. -/
def enlists : Script ω → List (Callback (Reaction ω))
  | [] => []
  | .panic _ :: _ => []
  | .on kind label body :: rest => ⟨kind, ⟨label, body⟩⟩ :: enlists rest
  | _ :: rest => enlists rest

theorem outburst?_cons {s : Step ω} (h : s.verb ≠ .panic) (rest : Script ω) :
    outburst? (s :: rest) = outburst? rest := by
  rw [outburst?]
  rintro p rfl
  exact h rfl

theorem enlists_cons {s : Step ω} (h : s.verb ≠ .panic) (h' : s.verb ≠ .on) (rest : Script ω) :
    enlists (s :: rest) = enlists rest := by
  rw [enlists]
  · rintro p rfl
    exact h rfl
  · rintro kind label body rfl
    exact h' rfl

end Script

namespace Machine

open Story

variable {ω : Type} [Outcome ω]

/-- The promise has no task, and the fallback handler does not panic. -/
structure Calm (m : Machine ω) : Prop where
  alone : m.work = none
  quiet : m.fallback.Quiet

/-- The promise and its surroundings stay as they are. -/
structure Keeps (m m' : Machine ω) : Prop where
  promise : m'.promise = m.promise
  work : m'.work = m.work
  fallback : m'.fallback = m.fallback

omit [Outcome ω] in
theorem Keeps.trans {m m' m'' : Machine ω} (h : m.Keeps m') (h' : m'.Keeps m'') : m.Keeps m'' :=
  ⟨h'.promise.trans h.promise, h'.work.trans h.work, h'.fallback.trans h.fallback⟩

omit [Outcome ω] in
theorem Calm.keep {m m' : Machine ω} (calm : m.Calm) (keeps : m.Keeps m') : m'.Calm :=
  ⟨keeps.work.trans calm.alone, keeps.fallback ▸ calm.quiet⟩

theorem step_frame {m : Machine ω} {f : Frame ω} {rest : List (Frame ω)}
    (hs : m.stack = f :: rest) (hr : m.raised = none) :
    m.step = ({ m with stack := rest } : Machine ω).work1 f := by
  simp [step, hs, hr]

theorem step_panic {m : Machine ω} {f : Frame ω} {rest : List (Frame ω)}
    (hs : m.stack = f :: rest) {p : Panic} (hr : m.raised = some p) :
    m.step = ({ m with stack := rest } : Machine ω).unwind p f := by
  simp [step, hs, hr]

/-- Beginning a step other than a panic. -/
theorem step_body {m : Machine ω} {s : Step ω} {rest : Script ω} {base : List (Frame ω)}
    (hs : m.stack = .body (s :: rest) :: base) (hr : m.raised = none) (h : s.verb ≠ .panic) :
    m.step = ({ m with
      stack := .report s.verb (m.answer s) :: .body rest :: base } : Machine ω).perform s ∧
    m.deeds = m.begins s := by
  constructor
  · rw [step_frame hs hr]
    cases s with
    | panic p => exact absurd rfl h
    | _ => rfl
  · simp [deeds, hs, hr]

/-- A step returns. -/
theorem step_report {m : Machine ω} {verb : Verb} {a : Answer ω} {base : List (Frame ω)}
    (hs : m.stack = .report verb a :: base) (hr : m.raised = none) :
    m.step = { m with stack := base, events := m.events ++ [.did verb a] } ∧
    m.deeds = [.reply verb a] := by
  constructor
  · rw [step_frame hs hr]
    rfl
  · simp [deeds, hs, hr]

theorem perform_attempt {s : Step ω} {v : Settled ω} (h : s.attempt? = some v)
    (m : Machine ω) :
    m.perform s = m.settle v ∧ m.begins s = m.tries v ∧
      m.answer s = .truth m.promise.isPending ∧ s.verb.settles = true := by
  cases s <;> simp_all [Step.attempt?, perform, begins, answer, Step.verb, Verb.settles]

omit [Outcome ω] in
theorem settle_lost {m : Machine ω} (h : m.promise.isPending = false) (v : Settled ω) :
    m.settle v = m ∧ m.tries v = [.attempt v] := by
  have hbegin : m.promise.begin? v = none := by
    unfold Promise.isPending at h
    unfold Promise.begin?
    split <;> simp_all
  simp [settle, tries, hbegin]

omit [Outcome ω] in
theorem settle_first {m : Machine ω} (hp : m.promise.phase = .pending) (v : Settled ω) :
    (m.settle v).promise.phase = .completing v ∧ (m.settle v).work = m.work ∧
      (m.settle v).fallback = m.fallback := by
  cases hhook : m.promise.hook <;> simp [settle, Promise.begin?, hp, hhook, push, emit]

/-- Once there was an attempt, every other attempt fails at once and changes nothing. -/
theorem attempt_lost {m : Machine ω} {s : Step ω} {v : Settled ω} {rest : Script ω}
    {base : List (Frame ω)} (hs : m.stack = .body (s :: rest) :: base) (hr : m.raised = none)
    (ha : s.attempt? = some v) (h : m.promise.isPending = false) :
    m.runFor 2 = { m with
      stack := .body rest :: base
      events := m.events ++ [.did s.verb (.truth false)] } ∧
    m.storyFor 2 = [.attempt v, .reply s.verb (.truth false)] := by
  obtain ⟨-, hbegins, hanswer, hverb⟩ := perform_attempt ha m
  have hpanic : s.verb ≠ .panic := by
    intro hv
    simp [hv, Verb.settles] at hverb
  obtain ⟨hstep, hdeeds⟩ := step_body hs hr hpanic
  rw [(perform_attempt ha _).1, hanswer, h, (settle_lost (by exact h) v).1] at hstep
  obtain ⟨hstep', hdeeds'⟩ := step_report (m := m.step) (by rw [hstep]) (by rw [hstep]; exact hr)
  constructor
  · rw [runFor, runFor, runFor, hstep', hstep]
  · rw [storyFor, storyFor, storyFor, hdeeds, hdeeds', hbegins, (settle_lost h v).2]
    rfl

/-- An idle step of a promise on its own changes nothing but the time spent. -/
theorem perform_idle_keeps {m : Machine ω} (alone : m.work = none) {s : Step ω}
    (hidle : s.IsIdle) :
    (m.perform s).stack = m.stack ∧ (m.perform s).raised = m.raised ∧
      m.Keeps (m.perform s) := by
  cases s with
  | ask q =>
    rw [perform]
    cases q with
    | getTimeout wait =>
      rw [spend]
      split <;> exact ⟨rfl, rfl, rfl, rfl, rfl⟩
    | _ => exact ⟨rfl, rfl, rfl, rfl, rfl⟩
  | run =>
    simp only [perform, runTask, alone]
    exact ⟨trivial, trivial, rfl, rfl, rfl⟩
  | expire =>
    simp only [perform, expire, alone]
    exact ⟨trivial, trivial, rfl, rfl, rfl⟩
  | cancel =>
    simp only [perform, cancel, alone]
    exact ⟨trivial, trivial, rfl, alone.symm, rfl⟩
  | _ => exact hidle.elim

theorem perform_idle {m : Machine ω} (calm : m.Calm) {s : Step ω} (hidle : s.IsIdle) :
    (m.perform s).stack = m.stack ∧ (m.perform s).raised = m.raised ∧
      (m.perform s).promise = m.promise ∧ (m.perform s).Calm := by
  obtain ⟨hs, hr, keeps⟩ := perform_idle_keeps calm.alone hidle
  exact ⟨hs, hr, keeps.promise, calm.keep keeps⟩

theorem begins_idle (m : Machine ω) {s : Step ω} (hidle : s.IsIdle) : m.begins s = [] := by
  cases s <;> first | rfl | exact hidle.elim

/-- A step that only asks is answered at once. -/
theorem idle_leads_keeps {m : Machine ω} {s : Step ω} {rest : Script ω} {base : List (Frame ω)}
    (alone : m.work = none) (hs : m.stack = .body (s :: rest) :: base) (hr : m.raised = none)
    (hidle : s.IsIdle) :
    ∃ m', m.Leads [.reply s.verb (m.answer s)] m' ∧ m'.stack = .body rest :: base ∧
      m'.raised = none ∧ m.Keeps m' := by
  obtain ⟨hstep, hdeeds⟩ := step_body hs hr hidle.verb_ne.1
  obtain ⟨hs₁, hr₁, keeps⟩ := perform_idle_keeps (m := { m with
      stack := .report s.verb (m.answer s) :: .body rest :: base }) alone hidle
  rw [← hstep] at hs₁ hr₁ keeps
  obtain ⟨hstep₂, hdeeds₂⟩ := step_report hs₁ (hr₁.trans hr)
  have hlead := (Leads.refl m.step.step).next.next
  rw [hdeeds, begins_idle m hidle, hdeeds₂, hstep₂] at hlead
  exact ⟨_, hlead, rfl, hr₁.trans hr, keeps.promise, keeps.work, keeps.fallback⟩

theorem idle_leads {m : Machine ω} {s : Step ω} {rest : Script ω} {base : List (Frame ω)}
    (calm : m.Calm) (hs : m.stack = .body (s :: rest) :: base) (hr : m.raised = none)
    (hidle : s.IsIdle) :
    ∃ m', m.Leads [.reply s.verb (m.answer s)] m' ∧ m'.stack = .body rest :: base ∧
      m'.raised = none ∧ m'.promise = m.promise ∧ m'.Calm := by
  obtain ⟨m', hlead, hs', hr', keeps⟩ := idle_leads_keeps calm.alone hs hr hidle
  exact ⟨m', hlead, hs', hr', keeps.promise, calm.keep keeps⟩

theorem nil_leads {m : Machine ω} {base : List (Frame ω)} (hs : m.stack = .body [] :: base)
    (hr : m.raised = none) : m.Leads [] { m with stack := base } := by
  have hstep : m.step = { m with stack := base } := by
    rw [step_frame hs hr]
    rfl
  have hdeeds : m.deeds = [] := by simp [deeds, hs, hr]
  have hlead := (Leads.refl m.step).next
  rwa [hdeeds, hstep] at hlead

theorem panic_leads {m : Machine ω} {p : Panic} {rest : Script ω} {base : List (Frame ω)}
    (hs : m.stack = .body (.panic p :: rest) :: base) (hr : m.raised = none) :
    m.Leads [] { m with stack := base, raised := some p } := by
  have hstep : m.step = { m with stack := base, raised := some p } := by
    rw [step_frame hs hr]
    rfl
  have hdeeds : m.deeds = [] := by simp [deeds, hs, hr, begins]
  have hlead := (Leads.refl m.step).next
  rwa [hdeeds, hstep] at hlead

/-- A guard catches whatever panic there is, and what the handler raises then is new. -/
theorem guard_leads_keeps {m : Machine ω} {kind : Kind} {base : List (Frame ω)}
    (hs : m.stack = .guard kind :: base) :
    ∃ m', m.Leads [] m' ∧ m'.stack = base ∧
      m'.raised = m.raised.bind (m.fallback.raised kind) ∧ m.Keeps m' := by
  have hdeeds : m.deeds = [] := by simp [deeds, hs]
  have hlead := (Leads.refl m.step).next
  rw [hdeeds] at hlead
  refine ⟨m.step, hlead, ?_⟩
  cases hr : m.raised with
  | none =>
    rw [step_frame hs hr]
    exact ⟨rfl, hr, rfl, rfl, rfl⟩
  | some p =>
    rw [step_panic hs hr]
    exact ⟨rfl, rfl, rfl, rfl, rfl⟩

theorem guard_leads {m : Machine ω} {kind : Kind} {base : List (Frame ω)} (calm : m.Calm)
    (hs : m.stack = .guard kind :: base) :
    ∃ m', m.Leads [] m' ∧ m'.stack = base ∧ m'.raised = none ∧ m'.promise = m.promise ∧
      m'.Calm := by
  obtain ⟨m', hlead, hs', hr', keeps⟩ := guard_leads_keeps hs
  exact ⟨m', hlead, hs', hr'.trans (calm.quiet.bind_raised kind m.raised), keeps.promise,
    calm.keep keeps⟩

/-- The script is worked off, keeps to the grammar and leaves the promise alone. -/
def Plays (v : Settled ω) (script : Script ω) : Prop :=
  ∀ (m : Machine ω) (base : List (Frame ω)), m.Calm → m.promise.phase = .done v →
    m.raised = none → m.stack = .body script :: base →
    ∃ t m', m.Leads t m' ∧ Aftermath v t ∧ m'.stack = base ∧ m'.promise = m.promise ∧ m'.Calm

variable {v : Settled ω} {rest : Script ω}

theorem Plays.nil : Plays v ([] : Script ω) := fun _ _ calm _ hr hs =>
  ⟨[], _, nil_leads hs hr, .done, rfl, rfl, calm.alone, calm.quiet⟩

theorem Plays.panic (p : Panic) : Plays v (.panic p :: rest) := fun _ _ calm _ hr hs =>
  ⟨[], _, panic_leads hs hr, .done, rfl, rfl, calm.alone, calm.quiet⟩

theorem Plays.attempt {s : Step ω} {v' : Settled ω} (ha : s.attempt? = some v')
    (h : Plays v rest) : Plays v (s :: rest) := by
  intro m base calm hdone hr hs
  have hlate : m.promise.isPending = false := by simp [Promise.isPending, hdone]
  obtain ⟨hrun, hstory⟩ := attempt_lost hs hr ha hlate
  obtain ⟨t, m', hlead, ht, hs', hp', calm'⟩ :=
    h (m.runFor 2) base (by rw [hrun]; exact ⟨calm.alone, calm.quiet⟩)
      (by rw [hrun]; exact hdone) (by rw [hrun]; exact hr) (by rw [hrun])
  exact ⟨_, m', Leads.trans ⟨2, rfl, hstory⟩ hlead, ht.attempt v' s.verb, hs',
    by rw [hp', hrun], calm'⟩

theorem Plays.idle {s : Step ω} (hidle : s.IsIdle) (h : Plays v rest) : Plays v (s :: rest) := by
  intro m base calm hdone hr hs
  obtain ⟨m₁, hlead₁, hs₁, hr₁, hp₁, calm₁⟩ := idle_leads calm hs hr hidle
  obtain ⟨t, m', hlead, ht, hs', hp', calm'⟩ := h m₁ base calm₁ (hp₁ ▸ hdone) hr₁ hs₁
  exact ⟨_, m', hlead₁.trans hlead, ht.other _ hidle.not_settles, hs', hp'.trans hp₁, calm'⟩

/-- A callback is run if it is meant for the ending that came; a panic of its body is caught. -/
theorem fire_leads {c : Callback (Reaction ω)} (h : Plays v c.body.body)
    {m : Machine ω} {base : List (Frame ω)} (calm : m.Calm) (hdone : m.promise.phase = .done v)
    (hr : m.raised = none) (hs : m.stack = .fire c v :: base) :
    ∃ t m', m.Leads t m' ∧
      (c.kind ≠ v.kind ∧ t = [] ∨
        c.kind = v.kind ∧ ∃ inner, Aftermath v inner ∧ t = .call c v.result :: inner) ∧
      m'.stack = base ∧ m'.raised = none ∧ m'.promise = m.promise ∧ m'.Calm := by
  have hstep := step_frame hs hr
  by_cases hkind : c.kind = v.kind
  · have hdeeds : m.deeds = [.call c v.result] := by simp [deeds, hs, hr, hkind]
    simp only [work1, fire, hkind, if_true] at hstep
    obtain ⟨inner, m₁, hlead₁, hinner, hs₁, hp₁, calm₁⟩ :=
      h m.step (.guard v.kind :: base) (by rw [hstep]; exact ⟨calm.alone, calm.quiet⟩)
        (by rw [hstep]; exact hdone) (by rw [hstep]; exact hr) (by rw [hstep]; rfl)
    obtain ⟨m₂, hlead₂, hs₂, hr₂, hp₂, calm₂⟩ := guard_leads calm₁ hs₁
    have hlead := (hlead₁.trans hlead₂).next
    rw [hdeeds, List.append_nil] at hlead
    refine ⟨_, m₂, hlead, .inr ⟨hkind, inner, hinner, rfl⟩, hs₂, hr₂, ?_, calm₂⟩
    rw [hp₂, hp₁, hstep]
    rfl
  · have hdeeds : m.deeds = [] := by simp [deeds, hs, hr, hkind]
    simp only [work1, fire, hkind, if_false] at hstep
    have hlead := (Leads.refl m.step).next
    rw [hdeeds] at hlead
    refine ⟨[], m.step, hlead, .inl ⟨hkind, rfl⟩, ?_⟩
    rw [hstep]
    exact ⟨rfl, hr, rfl, calm.alone, calm.quiet⟩

theorem Plays.on {kind : Kind} {label : String} {body : Script ω} (hbody : Plays v body)
    (h : Plays v rest) : Plays v (.on kind label body :: rest) := by
  intro m base calm hdone hr hs
  obtain ⟨hstep, hdeeds⟩ := step_body hs hr (by simp [Step.verb])
  have hregister : m.step = { m with
      stack := .fire ⟨kind, ⟨label, body⟩⟩ v :: .report .on .nothing :: .body rest :: base } := by
    rw [hstep]
    simp [perform, register, Promise.register, hdone, push, answer, Step.verb]
  obtain ⟨t₁, m₁, hlead₁, ht₁, hs₁, hr₁, hp₁, calm₁⟩ :=
    fire_leads (m := m.step) (c := ⟨kind, ⟨label, body⟩⟩) hbody
      (by rw [hregister]; exact ⟨calm.alone, calm.quiet⟩)
      (by rw [hregister]; exact hdone) (by rw [hregister]; exact hr) (by rw [hregister])
  obtain ⟨hstep₂, hdeeds₂⟩ := step_report hs₁ hr₁
  obtain ⟨t, m', hlead, ht, hs', hp', calm'⟩ := h m₁.step base
    (by rw [hstep₂]; exact ⟨calm₁.alone, calm₁.quiet⟩)
    (by rw [hstep₂]; simpa [hp₁, hregister] using hdone) (by rw [hstep₂]; exact hr₁)
    (by rw [hstep₂])
  have hall := (hlead₁.trans hlead.next).next
  rw [hdeeds, hdeeds₂] at hall
  refine ⟨_, m', hall, ?_, hs', ?_, calm'⟩
  · rcases ht₁ with ⟨hkind, rfl⟩ | ⟨hkind, inner, hinner, rfl⟩
    · exact ht.ignored hkind
    · exact .prompt hkind hinner ht
  · rw [hp', hstep₂]
    simp [hp₁, hregister]

/-- Every script is worked off on a promise that is done. -/
theorem plays (v : Settled ω) (script : Script ω) : Plays v script := by
  -- a callback is run inside its registration, so the induction is on the weight of the script
  induction hn : Step.weights script using Nat.strongRecOn generalizing script with
  | ind n ih =>
    subst hn
    cases script with
    | nil => exact .nil
    | cons s rest =>
      have hrest : Plays v rest := by
        refine ih _ ?_ rest rfl
        have := six_le_weight s
        rw [weights_cons]
        omega
      rcases s.sorts with ⟨v', ha⟩ | hidle | ⟨p, rfl⟩ | ⟨kind, label, body, rfl⟩
      · exact hrest.attempt ha
      · exact hrest.idle hidle
      · exact .panic p
      · refine .on (ih _ ?_ body rfl) hrest
        rw [weights_cons, weight_on]
        omega

/-- The callbacks that have waited are fired one after the other. -/
theorem fireAll_leads {cs : List (Callback (Reaction ω))} {m : Machine ω}
    {base : List (Frame ω)} (calm : m.Calm) (hdone : m.promise.phase = .done v)
    (hr : m.raised = none) (hs : m.stack = (cs.map fun c => .fire c v) ++ base) :
    ∃ t m', m.Leads t m' ∧ Firing v cs t ∧ m'.stack = base ∧ m'.raised = none ∧
      m'.promise = m.promise ∧ m'.Calm := by
  induction cs generalizing m with
  | nil => exact ⟨[], m, .refl m, .done, hs, hr, rfl, calm⟩
  | cons c cs ih =>
    obtain ⟨t₁, m₁, hlead₁, ht₁, hs₁, hr₁, hp₁, calm₁⟩ :=
      fire_leads (plays v c.body.body) calm hdone hr hs
    obtain ⟨t, m', hlead, ht, hs', hr', hp', calm'⟩ := ih calm₁ (hp₁ ▸ hdone) hr₁ hs₁
    refine ⟨_, m', hlead₁.trans hlead, ?_, hs', hr', hp'.trans hp₁, calm'⟩
    rcases ht₁ with ⟨hkind, rfl⟩ | ⟨hkind, inner, hinner, rfl⟩
    · exact ht.ignored hkind
    · exact .fired hkind hinner ht

omit [Outcome ω] in
theorem register_early {m : Machine ω} (h : m.promise.isDone = false)
    (c : Callback (Reaction ω)) :
    m.register c = { m with
      promise := { m.promise with callbacks := m.promise.callbacks ++ [c] } } := by
  unfold register Promise.register
  unfold Promise.isDone Promise.settled? at h
  cases hp : m.promise.phase <;> simp_all

/-- A registration before the value is shown puts the callback by, after the others. -/
theorem register_leads {m : Machine ω} {kind : Kind} {label : String} {body rest : Script ω}
    {base : List (Frame ω)} (hs : m.stack = .body (.on kind label body :: rest) :: base)
    (hr : m.raised = none) (h : m.promise.isDone = false) :
    m.Leads [.register ⟨kind, ⟨label, body⟩⟩, .reply .on .nothing]
      { m with
        promise := { m.promise with
          callbacks := m.promise.callbacks ++ [⟨kind, ⟨label, body⟩⟩] }
        stack := .body rest :: base
        events := m.events ++ [.did .on .nothing] } := by
  obtain ⟨hstep, hdeeds⟩ := step_body hs hr (by simp [Step.verb])
  have hregister : m.step = { m with
      promise := { m.promise with
        callbacks := m.promise.callbacks ++ [⟨kind, ⟨label, body⟩⟩] }
      stack := .report .on .nothing :: .body rest :: base } := by
    rw [hstep]
    exact register_early (by exact h) _
  obtain ⟨hstep₂, hdeeds₂⟩ := step_report (m := m.step) (by rw [hregister])
    (by rw [hregister]; exact hr)
  have hlead := (Leads.refl m.step.step).next.next
  rw [hdeeds, hdeeds₂, hstep₂] at hlead
  simp only [hregister] at hlead
  exact hlead

/-- A script that runs while the promise is completing only adds to the callbacks that wait. -/
theorem gather_leads {script : Script ω} {m : Machine ω} {base : List (Frame ω)}
    (alone : m.work = none) (hp : m.promise.phase = .completing v) (hr : m.raised = none)
    (hs : m.stack = .body script :: base) :
    ∃ t m', m.Leads t m' ∧ Gathering t ∧ t.registered = script.enlists ∧ m'.stack = base ∧
      m'.raised = script.outburst? ∧
      m'.promise = { m.promise with callbacks := m.promise.callbacks ++ script.enlists } ∧
      m'.work = none ∧ m'.fallback = m.fallback := by
  have hlate : m.promise.isPending = false := by simp [Promise.isPending, hp]
  -- what is registered here is not run yet, so the induction is on the list
  induction script generalizing m with
  | nil =>
    exact ⟨[], _, nil_leads hs hr, .done, rfl, rfl, hr, by simp [Script.enlists], alone, rfl⟩
  | cons s rest ih =>
    rcases s.sorts with ⟨v', ha⟩ | hidle | ⟨p, rfl⟩ | ⟨kind, label, body, rfl⟩
    · obtain ⟨hrun, hstory⟩ := attempt_lost hs hr ha hlate
      obtain ⟨t, m', hlead, ht, hrest⟩ := ih (m := m.runFor 2) (by rw [hrun]; exact alone)
        (by rw [hrun]; exact hp) (by rw [hrun]; exact hr) (by rw [hrun])
        (by rw [hrun]; exact hlate)
      rw [hrun] at hrest
      obtain ⟨hpanic, hon⟩ := Step.verb_ne_of_attempt ha
      rw [Script.enlists_cons hpanic hon, Script.outburst?_cons hpanic]
      exact ⟨_, m', Leads.trans ⟨2, rfl, hstory⟩ hlead, ht.attempt v' s.verb, hrest⟩
    · obtain ⟨m₁, hlead₁, hs₁, hr₁, hp₁, hwork₁, hfallback₁⟩ := idle_leads_keeps alone hs hr hidle
      obtain ⟨t, m', hlead, ht, hrest⟩ :=
        ih (hwork₁.trans alone) (hp₁ ▸ hp) hr₁ hs₁ (hp₁ ▸ hlate)
      rw [hp₁, hfallback₁] at hrest
      obtain ⟨hpanic, hon⟩ := hidle.verb_ne
      rw [Script.enlists_cons hpanic hon, Script.outburst?_cons hpanic]
      exact ⟨_, m', hlead₁.trans hlead, ht.other _ hidle.not_settles, hrest⟩
    · exact ⟨[], _, panic_leads hs hr, .done, rfl, rfl, rfl, by simp [Script.enlists], alone, rfl⟩
    · have hlead₁ := register_leads hs hr (by simp [Promise.isDone, Promise.settled?, hp])
      obtain ⟨t, m', hlead, ht, hreg, hs', hr', hp', hrest⟩ :=
        ih (m := { m with
          promise := { m.promise with
            callbacks := m.promise.callbacks ++ [⟨kind, ⟨label, body⟩⟩] }
          stack := .body rest :: base
          events := m.events ++ [.did .on .nothing] })
          alone hp hr rfl hlate
      refine ⟨_, m', hlead₁.trans hlead, ht.register _, ?_, hs', hr', ?_, hrest⟩
      · rw [registered_append, hreg]
        rfl
      · rw [hp']
        simp [Script.enlists]

theorem publish_leads {m : Machine ω} {base : List (Frame ω)}
    (hp : m.promise.phase = .completing v) (hr : m.raised = none)
    (hs : m.stack = .publish :: base) :
    m.Leads [.publish v] { m with
      promise := { m.promise with phase := .done v, callbacks := [] }
      stack := m.promise.callbacks.map (fun c => .fire c v) ++ base } := by
  have hstep : m.step = { m with
      promise := { m.promise with phase := .done v, callbacks := [] }
      stack := m.promise.callbacks.map (fun c => .fire c v) ++ base } := by
    rw [step_frame hs hr]
    simp [work1, publish, hp, Promise.publish, push]
  have hdeeds : m.deeds = [.publish v] := by simp [deeds, hs, hr, hp]
  have hlead := (Leads.refl m.step).next
  rwa [hdeeds, hstep] at hlead

/-- The value is shown, and the callbacks that have waited for it are fired. -/
theorem drain_leads {m : Machine ω} (calm : m.Calm) (hp : m.promise.phase = .completing v)
    (hr : m.raised = none) (hs : m.stack = [.publish]) :
    ∃ drained m', m.Leads (.publish v :: drained) m' ∧
      Firing v m.promise.callbacks drained ∧ m'.stack = [] ∧ m'.raised = none ∧
      m'.promise = { m.promise with phase := .done v, callbacks := [] } ∧ m'.Calm := by
  have hlead₁ := publish_leads hp hr hs
  obtain ⟨drained, m', hlead, hfiring, hrest⟩ := fireAll_leads (v := v)
    (m := { m with
      promise := { m.promise with phase := .done v, callbacks := [] }
      stack := m.promise.callbacks.map (fun c => .fire c v) ++ [] })
    ⟨calm.alone, calm.quiet⟩ rfl hr rfl
  exact ⟨drained, m', hlead₁.trans hlead, hfiring, hrest⟩

/-- The first attempt: the hook, the value, and the callbacks that have waited until then. -/
theorem settle_leads {m : Machine ω} (calm : m.Calm) (hp : m.promise.phase = .pending)
    (hr : m.raised = none) (hs : m.stack = []) (v : Settled ω) :
    ∃ hooked drained t m', (m.settle v).Leads t m' ∧
      m.tries v ++ t = .attempt v :: (hooked ++ .publish v :: drained) ∧
      HookRun v m.promise.hook hooked ∧
      Firing v (m.promise.callbacks ++ hooked.registered) drained ∧
      m'.stack = [] ∧ m'.raised = none ∧ m'.promise = { phase := .done v } ∧ m'.Calm := by
  cases hhook : m.promise.hook with
  | none =>
    have hsettle : m.settle v = { m with
        promise := { m.promise with phase := .completing v, hook := none }
        stack := [.publish] } := by
      simp [settle, Promise.begin?, hp, hhook, push, hs]
    obtain ⟨drained, m', hlead, hfiring, hs', hr', hp', calm'⟩ := drain_leads (m := m.settle v)
      (by rw [hsettle]; exact ⟨calm.alone, calm.quiet⟩) (by rw [hsettle])
      (by rw [hsettle]; exact hr) (by rw [hsettle])
    refine ⟨[], drained, _, m', hlead, ?_, .none, ?_, hs', hr', ?_, calm'⟩
    · simp [tries, Promise.begin?, hp, hhook]
    · simpa [hsettle] using hfiring
    · rw [hp', hsettle]
  | some hook =>
    have hsettle : m.settle v = { m with
        promise := { m.promise with phase := .completing v, hook := none }
        stack := [.body hook, .guard v.kind, .publish]
        events := m.events ++ [.hook v.outcome] } := by
      simp [settle, Promise.begin?, hp, hhook, push, emit, hs]
    obtain ⟨body, m₁, hlead₁, hbody, hreg, hs₁, -, hp₁, hwork₁, hfallback₁⟩ :=
      gather_leads (m := m.settle v) (by rw [hsettle]; exact calm.alone) (by rw [hsettle])
        (by rw [hsettle]; exact hr) (by rw [hsettle])
    rw [hsettle] at hp₁ hfallback₁
    rw [← hreg] at hp₁
    obtain ⟨m₂, hlead₂, hs₂, hr₂, hp₂, calm₂⟩ :=
      guard_leads (m := m₁) ⟨hwork₁, hfallback₁ ▸ calm.quiet⟩ hs₁
    obtain ⟨drained, m', hlead, hfiring, hs', hr', hp', calm'⟩ := drain_leads (v := v) calm₂
      (by rw [hp₂, hp₁]) hr₂ hs₂
    rw [hp₂, hp₁] at hfiring hp'
    refine ⟨.hook v.outcome :: body, drained, _, m', (hlead₁.trans hlead₂).trans hlead, ?_,
      .some hbody, hfiring, hs', hr', hp', calm'⟩
    simp [tries, Promise.begin?, hp, hhook]

end Machine

end Turnstile
