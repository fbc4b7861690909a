import Turnstile.Proofs.Trimming

/-!
# Panics are isolated

All that a panic leaves behind is one report to the fallback handler. The reports are kept in books
against the panicking bodies that have been begun, and the program is compared with its trimmed
program.
-/

namespace Turnstile

variable {ω : Type}

def Frame.outburst? : Frame ω → Option Panic
  | .body script => script.outburst?
  | .report .. | .guard _ | .publish | .fire .. | .conclude _ | .expired _ => none

/-- The panic that ends the body that is run. -/
def Deed.outburst? (hook : Option (Script ω)) : Deed ω → Option Panic
  | .hook _ => hook.bind Script.outburst?
  | .call c _ => c.body.body.outburst?
  | .attempt _ | .publish _ | .register _ | .reply .. => none

/-- The panics of all bodies that are run, in the order in which the bodies begin. -/
def Story.outbursts (hook : Option (Script ω)) (t : Story ω) : List Panic :=
  t.filterMap (Deed.outburst? hook)

@[simp] theorem Story.outbursts_append (hook : Option (Script ω)) (t t' : Story ω) :
    (t ++ t').outbursts hook = t.outbursts hook ++ t'.outbursts hook := List.filterMap_append

namespace Machine

/-- The panics that are still to be reported: one on its way to its guard, and those of the bodies
that are running. -/
def brewing (m : Machine ω) : List Panic := m.raised.toList ++ m.stack.filterMap Frame.outburst?

theorem reports_report (m : Machine ω) (kind : Kind) (p : Panic) :
    (m.report kind p).reports.Perm (m.reports ++ [(kind, p.message)]) := by
  cases hf : m.fallback with
  | note => simp [reports, report, hf, Fallback.events, Fallback.notes, Note.report?]
  | notify tag raises =>
    simp only [reports, report, hf, Fallback.events, Fallback.notes, List.filterMap_append,
      List.append_assoc, List.append_nil]
    exact List.perm_append_comm.append_left _

theorem reports_idle [Outcome ω] {m : Machine ω} (calm : m.Calm) {s : Step ω} (h : s.IsIdle) :
    (m.perform s).reports = m.reports := by
  cases s with
  | ask q =>
    rw [perform]
    cases q with
    | getTimeout wait =>
      rw [spend]
      split <;> rfl
    | _ => rfl
  | run => simp only [perform, runTask, calm.alone]
  | expire => simp only [perform, expire, calm.alone]
  | cancel => rfl
  | _ => exact h.elim

theorem brewing_push (m : Machine ω) (frames : List (Frame ω)) :
    (m.push frames).brewing.Perm (m.brewing ++ frames.filterMap Frame.outburst?) := by
  simp only [brewing, push, List.filterMap_append, List.append_assoc]
  exact List.perm_append_comm.append_left _

/-- The reports so far and those to come are one for each panicking body that has been begun, and
they name the ending that came. -/
structure Booked (hook : Option (Script ω)) (t : Story ω) (m : Machine ω) : Prop where
  kept : ∀ steps, m.promise.hook = some steps → hook = some steps
  books : (m.reports.map Prod.snd ++ m.brewing.map Panic.message).Perm
    ((t.outbursts hook).map Panic.message)
  kinds : ∀ r ∈ m.reports, ∃ v, m.promise.phase.value? = some v ∧ r.1 = v.kind

namespace Booked

variable {hook : Option (Script ω)} {t d : Story ω} {m m' : Machine ω}

/-- Nothing is reported, and the bodies that are begun are those that the story tells of. -/
theorem next (h : Booked hook t m) (kept : ∀ steps, m'.promise.hook = some steps →
      m.promise.hook = some steps) (stays : ∀ v, m.promise.phase.value? = some v →
      m'.promise.phase.value? = some v) (reports : m'.reports = m.reports)
    (brewing : m'.brewing.Perm (m.brewing ++ d.outbursts hook)) : Booked hook (t ++ d) m' where
  kept steps hsteps := h.kept steps (kept steps hsteps)
  books := by
    rw [reports, Story.outbursts_append, List.map_append]
    refine ((brewing.map Panic.message).append_left _).trans ?_
    rw [List.map_append, ← List.append_assoc]
    exact h.books.append_right _
  kinds r hr := by
    obtain ⟨v, hv, hkind⟩ := h.kinds r (reports ▸ hr)
    exact ⟨v, stays v hv, hkind⟩

/-- What does not concern the promise. -/
theorem pass (h : Booked hook t m) (promise : m'.promise = m.promise)
    (reports : m'.reports = m.reports) (brewing : m'.brewing = m.brewing)
    (hd : d.outbursts hook = []) : Booked hook (t ++ d) m' :=
  h.next (by simp [promise]) (by simp [promise]) reports (by simp [brewing, hd])

theorem settle (h : Booked hook t m) (v : Settled ω) :
    Booked hook (t ++ m.tries v) (m.settle v) := by
  rcases m.settle_cases v with ⟨hp, hs⟩ | ⟨hp, hhook, hs⟩ | ⟨steps, hp, hhook, hs⟩
  · have hlate := Promise.isPending_eq_false_iff.mpr hp
    rw [hs, (settle_lost hlate v).2]
    exact h.pass rfl rfl rfl rfl
  · have htries : m.tries v = [.attempt v] := by simp [tries, Promise.begin?, hp, hhook]
    rw [hs, htries]
    exact h.next (by simp [push]) (by simp [hp, Phase.value?]) rfl (brewing_push _ _)
  · have htries : m.tries v = [.attempt v, .hook v.outcome] := by
      simp [tries, Promise.begin?, hp, hhook]
    have hbegun : Story.outbursts hook [.attempt v, .hook v.outcome] =
        [.body steps, .guard v.kind, .publish].filterMap Frame.outburst? := by
      simp [Story.outbursts, Deed.outburst?, h.kept steps hhook, Frame.outburst?,
        List.filterMap_cons]
    rw [hs, htries]
    refine h.next (by simp [push, emit]) (by simp [hp, Phase.value?])
      (by simp [Machine.reports, push, emit, Event.report?]) ?_
    rw [hbegun]
    exact brewing_push _ _

theorem register (h : Booked hook t m) (c : Callback (Reaction ω)) :
    Booked hook (t ++ [.register c]) (m.register c) := by
  cases hdone : m.promise.isDone with
  | false =>
    rw [register_early hdone]
    exact h.next (by simp) (by simp) rfl (.of_eq (List.append_nil _).symm)
  | true =>
    cases hp : m.promise.phase with
    | done v =>
      have hregister : m.register c = m.push [.fire c v] := by
        simp [Machine.register, Promise.register, hp]
      rw [hregister]
      exact h.next (by simp [push]) (by simp [push]) rfl (brewing_push _ _)
    | _ => simp [Promise.isDone, Promise.settled?, hp] at hdone

/-- A callback begins, or it is dropped. -/
theorem fire (h : Booked hook t m) (c : Callback (Reaction ω)) (v : Settled ω) :
    Booked hook (t ++ if c.kind = v.kind then [.call c v.result] else []) (m.fire c v) := by
  unfold Machine.fire
  split
  · have hbegun : Story.outbursts hook [.call c v.result] =
        [.body c.body.body, .guard c.kind].filterMap Frame.outburst? := by
      simp [Story.outbursts, Deed.outburst?, Frame.outburst?, List.filterMap_cons]
    refine h.next (by simp [push, emit]) (by simp [push, emit])
      (by simp [Machine.reports, push, emit, Event.report?]) ?_
    rw [hbegun]
    exact brewing_push _ _
  · exact h.pass rfl rfl rfl rfl

theorem publish (h : Booked hook t m) : Booked hook t m.publish := by
  cases hp : m.promise.phase with
  | completing v =>
    have hfires : (m.promise.callbacks.map fun c => Frame.fire c v).filterMap Frame.outburst? =
        [] := by
      simp [List.filterMap_map, Frame.outburst?, Function.comp_def]
    have hnext : Booked hook (t ++ []) m.publish := by
      refine h.next ?_ ?_ ?_ ?_
      · simp [Machine.publish, Promise.publish, hp, push]
      · simp [Machine.publish, Promise.publish, hp, push, Phase.value?]
      · simp [Machine.publish, Promise.publish, hp, push, Machine.reports]
      · simp only [Machine.publish, Promise.publish, hp]
        refine (brewing_push _ _).trans (.of_eq ?_)
        rw [hfires]
        rfl
    simpa using hnext
  | _ => simpa [Machine.publish, hp] using h

theorem report (h : Booked hook t m) (quiet : m.fallback.Quiet) {p : Panic} {kind : Kind}
    {below : List (Frame ω)} (hr : m.raised = some p) (hs : m.stack = .guard kind :: below)
    (fits : ∃ v, m.promise.phase.value? = some v ∧ kind = v.kind) :
    Booked hook t (({ m with stack := below } : Machine ω).report kind p) := by
  have hreports := reports_report { m with stack := below } kind p
  have hbefore : m.brewing = p :: below.filterMap Frame.outburst? := by
    simp [brewing, hr, hs, Frame.outburst?, List.filterMap_cons]
  have hafter : (({ m with stack := below } : Machine ω).report kind p).brewing =
      below.filterMap Frame.outburst? := by
    simp [brewing, Machine.report, quiet kind p]
  refine ⟨h.kept, ?_, fun r hmem => ?_⟩
  · rw [hafter]
    refine (((hreports.map Prod.snd).append_right _).trans (.of_eq ?_)).trans h.books
    simp only [hbefore, List.map_append, List.map_cons, List.map_nil, List.append_assoc]
    rfl
  · rcases List.mem_append.mp (hreports.mem_iff.mp hmem) with hmem | hmem
    · exact h.kinds r hmem
    · rw [List.mem_singleton.mp hmem]
      exact fits

variable [Outcome ω]

theorem perform (h : Booked hook t m) (calm : m.Calm) {s : Step ω} (hs : s.verb ≠ .panic) :
    Booked hook (t ++ m.begins s) (m.perform s) := by
  rcases s.sorts with ⟨v, ha⟩ | hidle | ⟨p, rfl⟩ | ⟨kind, label, body, rfl⟩
  · rw [(perform_attempt ha m).1, (perform_attempt ha m).2.1]
    exact h.settle v
  · obtain ⟨hstack, hraised, hp, -⟩ := perform_idle calm hidle
    rw [begins_idle m hidle]
    exact h.pass hp (reports_idle calm hidle) (by rw [brewing, hraised, hstack, brewing]) rfl
  · exact absurd rfl hs
  · exact h.register _

theorem work1 (h : Booked hook t m) (calm : m.Calm) {f : Frame ω} {below : List (Frame ω)}
    (hr : m.raised = none) (hs : m.stack = f :: below)
    (hf : ∀ p rest, f ≠ .body (.panic p :: rest)) :
    Booked hook (t ++ m.deeds) (({ m with stack := below } : Machine ω).work1 f) := by
  have hpop : f.outburst? = none → Booked hook t { m with stack := below } := fun hnone => by
    have hsame : Booked hook (t ++ []) { m with stack := below } :=
      h.pass rfl rfl (by simp [brewing, hs, hnone]) rfl
    rwa [List.append_nil] at hsame
  cases f with
  | body script =>
    cases script with
    | nil =>
      have hdeeds : m.deeds = [] := by simp [deeds, hs, hr]
      rw [hdeeds, List.append_nil]
      exact hpop rfl
    | cons s rest =>
      have hpanic := Step.verb_ne_panic hf
      have hpushed : Booked hook (t ++ []) (({ m with stack := below } : Machine ω).push
          [.report s.verb (answer { m with stack := below } s), .body rest]) :=
        h.pass rfl rfl (by simp [brewing, hs, push, List.filterMap_cons, Frame.outburst?,
          Script.outburst?_cons hpanic]) rfl
      rw [List.append_nil] at hpushed
      rw [(step_body hs hr hpanic).2, work1_body _ hpanic]
      exact hpushed.perform ⟨calm.alone, calm.quiet⟩ hpanic
  | report verb a =>
    rw [(step_report hs hr).2]
    exact (hpop rfl).pass rfl (by simp [Machine.reports, Machine.work1, emit, Event.report?]) rfl
      rfl
  | guard kind => exact (hpop rfl).pass rfl rfl rfl (by simp [deeds, hs, hr, Story.outbursts])
  | publish =>
    have hdeeds : m.deeds.outbursts hook = [] := by
      cases hp : m.promise.phase <;> simp [deeds, hs, hr, hp, Story.outbursts, Deed.outburst?]
    exact (hpop rfl).publish.pass rfl rfl rfl hdeeds
  | fire c v =>
    have hdeeds : m.deeds = if c.kind = v.kind then [.call c v.result] else [] := by
      simp [deeds, hs, hr]
    rw [hdeeds]
    exact (hpop rfl).fire c v
  | conclude ending =>
    have hsame : ({ m with stack := below } : Machine ω).work1 (.conclude ending) =
        { m with stack := below } := by simp [Machine.work1, Machine.conclude, calm.alone]
    rw [hsame]
    exact (hpop rfl).pass rfl rfl rfl (by simp [deeds, hs, hr, Story.outbursts])
  | expired won =>
    have hsame : ({ m with stack := below } : Machine ω).work1 (.expired won) =
        { m with stack := below } := by simp [Machine.work1, Machine.afterExpiry, calm.alone]
    rw [hsame]
    exact (hpop rfl).pass rfl rfl rfl (by simp [deeds, hs, hr, Story.outbursts])

theorem step (h : Booked hook t m) (framed : m.Framed) (caught : m.Caught) :
    Booked hook (t ++ m.deeds) m.step := by
  have advance := framed.advance caught
  generalize m.step = m' at advance
  cases advance with
  | rest hs => exact h.pass rfl rfl rfl (by simp [deeds, hs, Story.outbursts])
  | @outburst p rest kind below hr hs =>
    have hdeeds : m.deeds = [] := by simp [deeds, hs, hr, begins]
    rw [hdeeds]
    refine h.pass rfl rfl ?_ rfl
    simp [brewing, hs, hr, Frame.outburst?, List.filterMap_cons, Script.outburst?]
  | @report p kind below hr hs =>
    have hdeeds : m.deeds = [] := by simp [deeds, hr]
    have hfits : (Frame.guard kind).Fits m.promise.phase := framed.fits _ (by simp [hs])
    rw [hdeeds, List.append_nil]
    exact h.report framed.quiet hr hs hfits
  | work hr hs hf => exact h.work1 framed.toCalm hr hs hf

theorem runFor (h : Booked hook t m) (framed : m.Framed) (caught : m.Caught) (n : Nat) :
    Booked hook (t ++ m.storyFor n) (m.runFor n) := by
  induction n generalizing t m with
  | zero => simpa [storyFor, Machine.runFor] using h
  | succ n ih =>
    obtain ⟨framed', caught'⟩ := framed.step caught
    have hrest := ih (h.step framed caught) framed' caught'
    rwa [List.append_assoc] at hrest

theorem enact (h : Booked hook t m) (rest : m.Resting) (s : Step ω) :
    Booked hook (t ++ m.episode s) (m.enact s).2 := by
  by_cases hpanic : s.verb = .panic
  · obtain ⟨p, rfl⟩ := Step.verb_eq_panic hpanic
    obtain ⟨henact, hepisode⟩ := enact_panic rest.still p
    rw [henact, hepisode]
    exact h.pass rfl rfl rfl rfl
  · obtain ⟨framed, caught⟩ := rest.begins hpanic
    have hrun := (h.perform rest.toCalm hpanic).runFor framed caught (m.perform s).weight
    rw [(rest.run hpanic).1, episode, ← List.append_assoc, ← List.append_assoc]
    exact hrun.pass rfl rfl rfl rfl

theorem after (h : Booked hook t m) (rest : m.Resting) (program : Script ω) :
    Booked hook (t ++ m.tale program) (m.after program) := by
  induction program generalizing t m with
  | nil => simpa [tale] using h
  | cons s program ih =>
    have hrest := ih (h.enact rest s) (rest.enact s).1
    rwa [List.append_assoc] at hrest

end Booked

/-- Before there is a value nothing is reported; afterwards every report names its kind. -/
theorem Booked.reports_perm {hook : Option (Script ω)} {t : Story ω} {m : Machine ω}
    (h : Booked hook t m) (ended : m.brewing = []) {v : Settled ω}
    (hv : m.promise.phase.value? = some v) :
    m.reports.Perm ((t.outbursts hook).map fun p => (v.kind, p.message)) := by
  have hbooks := h.books
  rw [ended, List.map_nil, List.append_nil] at hbooks
  have hkinds : (m.reports.map Prod.snd).map (v.kind, ·) = m.reports := by
    rw [List.map_map]
    refine (List.map_congr_left fun r hr => ?_).trans (List.map_id m.reports)
    obtain ⟨v', hv', hkind⟩ := h.kinds r hr
    cases hv.symm.trans hv'
    exact Prod.ext hkind.symm rfl
  rw [← hkinds]
  simpa [List.map_map, Function.comp_def] using hbooks.map (v.kind, ·)

theorem reports_trim (m : Machine ω) : m.trim.reports = [] := by
  simp [reports, trim, List.filterMap_filter, List.filterMap_eq_nil_iff]

variable [Outcome ω]

/-- When a body panics, its report is the next thing that happens. -/
theorem Framed.outburst {m : Machine ω} (h : m.Framed) (hr : m.raised = none) {p : Panic}
    {rest : Script ω} {below : List (Frame ω)} (hs : m.stack = .body (.panic p :: rest) :: below) :
    ∃ v below', m.promise.phase.value? = some v ∧ below = .guard v.kind :: below' ∧
      m.runFor 2 = ({ m with stack := below' } : Machine ω).report v.kind p := by
  have hguarded := h.guarded
  rw [hs] at hguarded
  obtain ⟨⟨kind, below', rfl⟩, -⟩ := hguarded
  have hfits : (Frame.guard kind).Fits m.promise.phase := h.fits _ (by simp [hs])
  obtain ⟨v, hv, rfl⟩ := hfits
  have hstep : m.step = { m with stack := .guard v.kind :: below', raised := some p } :=
    step_frame hs hr
  refine ⟨v, below', hv, rfl, ?_⟩
  rw [Machine.runFor, Machine.runFor, Machine.runFor, hstep, step_panic rfl rfl]
  rfl

/-- A program and its trimmed program answer the same, settle with the same value and show the
same events, apart from the reports to the fallback handler. These are one for each panicking body
that is run, with the kind of the ending and the text of the panic; and at every moment at which a
body panics, its report is the next thing that happens, and both programs go on below it. -/
theorem panics_isolated (hook : Option (Script ω)) (fallback : Fallback)
    (quiet : fallback.Quiet) (program : Script ω) :
    let start : Machine ω := { promise := { hook := hook }, fallback := fallback }
    let calm : Machine ω := { promise := { hook := hook.map Script.trim }, fallback := fallback }
    let trimmed := program.map Step.trim
    calm.answers trimmed = start.answers program ∧
    (calm.after trimmed).promise.settled? = (start.after program).promise.settled? ∧
    (calm.after trimmed).events =
      (start.after program).events.filter (fun e => e.report?.isNone) ∧
    (calm.after trimmed).reports = [] ∧
    (match (start.after program).promise.settled? with
      | none => (start.after program).reports = []
      | some v => (start.after program).reports.Perm
          (((start.tale program).outbursts hook).map fun p =>
            (v.kind, match p with
              | .text s => s
              | .other => "non-string panic payload"))) ∧
    ∀ (before : Script ω) (s : Step ω) (n : Nat),
      let now := ((start.after before).perform s).runFor n
      let calmly := ((calm.after (before.map Step.trim)).perform s.trim).runFor n
      calmly.promise.settled? = now.promise.settled? ∧
      calmly.events = now.events.filter (fun e => e.report?.isNone) ∧
      calmly.stack = now.stack.map Frame.trim ∧
      ∀ p rest below, now.raised = none → now.stack = .body (.panic p :: rest) :: below →
        ∃ v below', now.promise.phase.value? = some v ∧ below = .guard v.kind :: below' ∧
          now.runFor 2 = ({ now with stack := below' } : Machine ω).report v.kind p := by
  intro start calm trimmed
  have hstart : start.Resting := ⟨⟨rfl, quiet⟩, rfl, rfl⟩
  have hbegun : Booked hook [] start := ⟨fun _ h => h, .refl _, by simp [start, reports]⟩
  have hboth : ∀ program : Script ω, (start.after program).Resting ∧
      calm.after (program.map Step.trim) = (start.after program).trim ∧
      calm.answers (program.map Step.trim) = start.answers program := hstart.after
  obtain ⟨hrest, hafter, hanswers⟩ := hboth program
  have hbooked := hbegun.after hstart program
  rw [List.nil_append] at hbooked
  have hquiet : (start.after program).brewing = [] := by
    simp [brewing, hrest.ended, hrest.sound]
  refine ⟨hanswers, by rw [hafter]; rfl, by rw [hafter]; rfl, by rw [hafter, reports_trim], ?_,
    fun before s n => ?_⟩
  · split
    · rename_i hsettled
      have hpending : (start.after program).promise.phase = .pending := by
        have hatRest : (start.after program).AtRest :=
          AtRest.after (m := start) ⟨⟨quiet, rfl, trivial, by simp [start]⟩, rfl⟩ program
        refine Classical.byContradiction fun hp => ?_
        have hdone := hatRest.isDone hp
        simp [Promise.isDone, hsettled] at hdone
      refine List.eq_nil_iff_forall_not_mem.mpr fun r hr => ?_
      obtain ⟨v, hv, -⟩ := hbooked.kinds r hr
      rw [hpending] at hv
      cases hv
    · rename_i v hsettled
      exact hbooked.reports_perm hquiet (Phase.value?_of_settled? hsettled)
  · obtain ⟨rest, hcalm, -⟩ := hboth before
    rw [hcalm]
    by_cases hpanic : s.verb = .panic
    · obtain ⟨p, rfl⟩ := Step.verb_eq_panic hpanic
      rw [Step.trim_of_ne_on (by simp [Step.verb]),
        runFor_halted (m := (start.after before).perform (.panic p)) rest.ended,
        runFor_halted (m := (start.after before).trim.perform (.panic p))
          (by simp [perform, trim, rest.ended])]
      exact ⟨rfl, rfl, rfl, fun _ _ _ hr => absurd hr (by simp [perform])⟩
    · obtain ⟨hframed, hcaught⟩ := rest.begins hpanic
      obtain ⟨hnow, -, htrim⟩ := hframed.runFor hcaught n
      rw [← trim_perform rest.alone hpanic, ← htrim]
      exact ⟨rfl, rfl, rfl, fun p rest below hr hs => hnow.outburst hr hs⟩

/-- The hook panics after it has registered a callback. -/
def stormyHook : Script Status := [.on .success "late" [.panic (.text "storm")], .panic .other]

/-- A callback panics inside another one that panics afterwards. -/
def stormyProgram : Script Status :=
  [.on .success "a" [.on .success "b" [.panic (.text "deep"), .ask .peek], .ask .isDone,
      .panic (.text "flat"), .complete .error "never"],
    .complete .success "x", .on .success "c" [.panic .other], .on .error "d" [.panic .other],
    .ask .peek]

def stormyStart : Machine Status :=
  { promise := { hook := some stormyHook }, fallback := .shown "alarm" }

/-- Five panics are reported as they happen, and the trimmed program shows the same. -/
theorem panics_isolated_stormy :
    stormyStart.fallback.Quiet ∧
    (stormyStart.after stormyProgram).reports =
      [(.success, "non-string panic payload"), (.success, "deep"), (.success, "flat"),
        (.success, "storm"), (.success, "non-string panic payload")] ∧
    (stormyStart.trim.after (stormyProgram.map Step.trim)).events =
      (stormyStart.after stormyProgram).events.filter (fun e => e.report?.isNone) ∧
    stormyStart.trim.answers (stormyProgram.map Step.trim) =
      stormyStart.answers stormyProgram := by
  have h := panics_isolated (some stormyHook) (.shown "alarm") (Fallback.quiet_shown _)
    stormyProgram
  exact ⟨Fallback.quiet_shown _, by decide +kernel, h.2.2.1, h.1⟩

end Machine

end Turnstile
