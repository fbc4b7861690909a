import Turnstile.Proofs.PromiseCourse

/-!
# Episodes of a promise

What one step from outside does to a promise on its own, with all that it leads to, and from
it what a program does: up to the first attempt it gathers callbacks, the first attempt runs
the hook, shows the value and fires what has waited, and after that a callback is fired as it
comes. Between two steps nothing is left to run.
-/

namespace Turnstile.Machine

open Story

variable {ω : Type} [Outcome ω]

/-- Between two steps from outside: nothing is left to run. -/
structure Resting (m : Machine ω) : Prop extends Calm m where
  ended : m.stack = []
  sound : m.raised = none

/-- Between two steps from outside, whatever the fallback handler does. -/
structure Still (m : Machine ω) : Prop where
  alone : m.work = none
  ended : m.stack = []
  sound : m.raised = none

omit [Outcome ω] in
theorem Resting.still {m : Machine ω} (rest : m.Resting) : m.Still :=
  ⟨rest.alone, rest.ended, rest.sound⟩

omit [Outcome ω] in
theorem Still.resting {m : Machine ω} (still : m.Still) (quiet : m.fallback.Quiet) :
    m.Resting := ⟨⟨still.alone, quiet⟩, still.ended, still.sound⟩

theorem enact_of_leads {m m' : Machine ω} {s : Step ω} {t : Story ω}
    (h : (m.perform s).Leads t m') (hs : m'.stack = []) (hr : m'.raised = none) :
    m.enact s = (m.answer s, m') ∧
      m.episode s = m.begins s ++ t ++ [.reply s.verb (m.answer s)] := by
  obtain ⟨hrun, hstory⟩ := h.run hs
  have henact : m.enact s = (m.answer s, m') := by simp [enact, hrun, hr]
  exact ⟨henact, by rw [episode, hstory, henact]⟩

/-- A panic from outside is the answer, and nothing else happens. -/
theorem enact_panic {m : Machine ω} (still : m.Still) (p : Panic) :
    m.enact (.panic p) = (.panicked p, m) ∧
      m.episode (.panic p) = [.reply .panic (.panicked p)] := by
  have hrun := runFor_halted (m := m.perform (.panic p)) still.ended
  have hstory := storyFor_halted (m := m.perform (.panic p)) still.ended
  have hsame : { m with raised := none } = m := by rw [← still.sound]
  have henact : m.enact (.panic p) = (.panicked p, m) := by
    simp only [enact, run, hrun]
    simp [perform, hsame]
  exact ⟨henact, by simp [episode, hstory, henact, begins, Step.verb]⟩

theorem enact_idle {m : Machine ω} (still : m.Still) {s : Step ω} (hidle : s.IsIdle) :
    m.Keeps (m.enact s).2 ∧ (m.enact s).2.Still ∧
      m.episode s = [.reply s.verb (m.answer s)] := by
  obtain ⟨hs, hr, keeps⟩ := perform_idle_keeps still.alone hidle
  obtain ⟨henact, hepisode⟩ :=
    enact_of_leads (Leads.refl (m.perform s)) (hs.trans still.ended) (hr.trans still.sound)
  rw [henact, hepisode, begins_idle m hidle]
  exact ⟨keeps, ⟨keeps.work.trans still.alone, hs.trans still.ended, hr.trans still.sound⟩, rfl⟩

/-- A registration before the value is shown puts the callback by, after the others. -/
theorem enact_on_early {m : Machine ω} (still : m.Still) (h : m.promise.isDone = false)
    (kind : Kind) (label : String) (body : Script ω) :
    m.enact (.on kind label body) =
        (.nothing, { m with promise := { m.promise with
          callbacks := m.promise.callbacks ++ [⟨kind, ⟨label, body⟩⟩] } }) ∧
      m.episode (.on kind label body) =
        [.register ⟨kind, ⟨label, body⟩⟩, .reply .on .nothing] :=
  enact_of_leads (s := .on kind label body)
    ⟨0, register_early h ⟨kind, ⟨label, body⟩⟩, rfl⟩ still.ended still.sound

/-- Once there was an attempt, every other attempt fails and changes nothing. -/
theorem enact_late_attempt {m : Machine ω} (still : m.Still)
    (h : m.promise.isPending = false) {s : Step ω} {v : Settled ω} (ha : s.attempt? = some v) :
    m.enact s = (.truth false, m) ∧
      m.episode s = [.attempt v, .reply s.verb (.truth false)] := by
  obtain ⟨hperform, hbegins, hanswer, -⟩ := perform_attempt ha m
  obtain ⟨hsettle, htries⟩ := settle_lost h v
  have hlead : (m.perform s).Leads [] m := by
    rw [hperform, hsettle]
    exact .refl m
  have henact := enact_of_leads hlead still.ended still.sound
  rwa [hbegins, htries, hanswer, h] at henact

/-- The first attempt wins. -/
theorem enact_first_attempt {m : Machine ω} (rest : m.Resting)
    (hp : m.promise.phase = .pending) {s : Step ω} {v : Settled ω} (ha : s.attempt? = some v) :
    ∃ hooked drained,
      m.episode s = .attempt v ::
        (hooked ++ .publish v :: (drained ++ [.reply s.verb (.truth true)])) ∧
      HookRun v m.promise.hook hooked ∧
      Firing v (m.promise.callbacks ++ hooked.registered) drained ∧
      (m.enact s).1 = .truth true ∧ (m.enact s).2.promise = { phase := .done v } ∧
      (m.enact s).2.Resting := by
  obtain ⟨hperform, hbegins, hanswer, -⟩ := perform_attempt ha m
  obtain ⟨hooked, drained, t, m', hlead, ht, hhook, hfiring, hs, hr, hp', calm⟩ :=
    settle_leads rest.toCalm hp rest.sound rest.ended v
  have hpending : m.promise.isPending = true := by simp [Promise.isPending, hp]
  rw [← hperform] at hlead
  obtain ⟨henact, hepisode⟩ := enact_of_leads hlead hs hr
  rw [hbegins, hanswer, hpending, ht] at hepisode
  rw [henact, hanswer, hpending]
  exact ⟨hooked, drained, by simpa using hepisode, hhook, hfiring, rfl, hp', calm, hs, hr⟩

/-- A program with an attempt in it has a first one. -/
theorem first_attempt (program : Script ω) :
    (∀ s ∈ program, s.attempt? = none) ∨
      ∃ before winner late v, program = before ++ winner :: late ∧
        (∀ s ∈ before, s.attempt? = none) ∧ winner.attempt? = some v := by
  cases h : program.find? (·.attempt?.isSome) with
  | none => exact .inl (by simpa using h)
  | some winner =>
    obtain ⟨hw, before, late, hprogram, hbefore⟩ := List.find?_eq_some_iff_append.mp h
    obtain ⟨v, hv⟩ := Option.isSome_iff_exists.mp hw
    exact .inr ⟨before, winner, late, v, hprogram, by simpa using hbefore, hv⟩

/-- Before the value is shown a step only adds to the callbacks that wait, unless it is the first
attempt. -/
theorem episode_unshown {m : Machine ω} (still : m.Still) (h : m.promise.isDone = false)
    {s : Step ω} (hlost : m.promise.isPending = false ∨ s.attempt? = none) :
    Gathering (m.episode s) ∧ (s.attempt? = none → (m.episode s).attempts = []) ∧
      (m.enact s).2.Still ∧ (m.enact s).2.fallback = m.fallback ∧
      (m.enact s).2.promise =
        { m.promise with callbacks := m.promise.callbacks ++ (m.episode s).registered } := by
  rcases s.sorts with ⟨v, ha⟩ | hidle | ⟨p, rfl⟩ | ⟨kind, label, body, rfl⟩
  · have hlate : m.promise.isPending = false := hlost.resolve_right (by simp [ha])
    obtain ⟨henact, hepisode⟩ := enact_late_attempt still hlate ha
    rw [henact, hepisode]
    exact ⟨.attempt v _ .done, by simp [ha], still, rfl, by simp⟩
  · obtain ⟨keeps, still', hepisode⟩ := enact_idle still hidle
    rw [hepisode, keeps.promise]
    exact ⟨.other _ hidle.not_settles .done, fun _ => rfl, still', keeps.fallback, by simp⟩
  · obtain ⟨henact, hepisode⟩ := enact_panic still p
    rw [henact, hepisode]
    exact ⟨.other _ rfl .done, fun _ => rfl, still, rfl, by simp⟩
  · obtain ⟨henact, hepisode⟩ := enact_on_early still h kind label body
    rw [henact, hepisode]
    exact ⟨.register _ .done, fun _ => rfl, ⟨still.alone, still.ended, still.sound⟩, rfl, rfl⟩

theorem tale_unshown {m : Machine ω} (still : m.Still) (h : m.promise.isDone = false)
    {program : Script ω}
    (hlost : m.promise.isPending = false ∨ ∀ s ∈ program, s.attempt? = none) :
    Gathering (m.tale program) ∧
      ((∀ s ∈ program, s.attempt? = none) → (m.tale program).attempts = []) ∧
      (m.after program).Still ∧ (m.after program).fallback = m.fallback ∧
      (m.after program).promise =
        { m.promise with callbacks := m.promise.callbacks ++ (m.tale program).registered } := by
  induction program generalizing m with
  | nil => exact ⟨.done, fun _ => rfl, still, rfl, by simp [tale]⟩
  | cons s program ih =>
    obtain ⟨hgather, hattempts, still', hfallback, hp⟩ :=
      episode_unshown still h (hlost.imp_right fun ha => ha s List.mem_cons_self)
    obtain ⟨hgather', hattempts', still'', hfallback', hp'⟩ :=
      ih still' (by rw [hp]; exact h)
        (by rw [hp]; exact hlost.imp_right fun ha s' hs' => ha s' (List.mem_cons_of_mem _ hs'))
    refine ⟨hgather.append hgather', fun ha => ?_, still'', hfallback'.trans hfallback, ?_⟩
    · rw [tale, attempts_append, hattempts (ha s List.mem_cons_self),
        hattempts' fun s' hs' => ha s' (List.mem_cons_of_mem _ hs')]
      rfl
    · rw [after_cons, hp', hp, tale, registered_append, List.append_assoc]

/-- Before the first attempt a program only adds to the callbacks that wait. -/
theorem tale_early {m : Machine ω} (rest : m.Resting) (hp : m.promise.phase = .pending)
    {program : Script ω} (ha : ∀ s ∈ program, s.attempt? = none) :
    Gathering (m.tale program) ∧ (m.tale program).attempts = [] ∧ (m.after program).Resting ∧
      (m.after program).promise =
        { m.promise with callbacks := m.promise.callbacks ++ (m.tale program).registered } := by
  obtain ⟨hgather, hattempts, still, hfallback, hp'⟩ :=
    tale_unshown rest.still (by simp [Promise.isDone, Promise.settled?, hp]) (.inr ha)
  exact ⟨hgather, hattempts ha, still.resting (hfallback ▸ rest.quiet), hp'⟩

/-- On a promise that is done a step leaves the promise alone. -/
theorem episode_late {m : Machine ω} {v : Settled ω} (rest : m.Resting)
    (hp : m.promise.phase = .done v) (s : Step ω) :
    Aftermath v (m.episode s) ∧ (m.enact s).2.Resting ∧ (m.enact s).2.promise = m.promise := by
  rcases s.sorts with ⟨v', ha⟩ | hidle | ⟨p, rfl⟩ | ⟨kind, label, body, rfl⟩
  · obtain ⟨henact, hepisode⟩ :=
      enact_late_attempt rest.still (by simp [Promise.isPending, hp]) ha
    rw [henact, hepisode]
    exact ⟨.attempt v' _ .done, rest, rfl⟩
  · obtain ⟨keeps, still, hepisode⟩ := enact_idle rest.still hidle
    rw [hepisode]
    exact ⟨.other _ hidle.not_settles .done, still.resting (keeps.fallback ▸ rest.quiet),
      keeps.promise⟩
  · obtain ⟨henact, hepisode⟩ := enact_panic rest.still p
    rw [henact, hepisode]
    exact ⟨.other _ rfl .done, rest, rfl⟩
  · have hregister : m.perform (.on kind label body) =
        { m with stack := [.fire ⟨kind, ⟨label, body⟩⟩ v] } := by
      simp [perform, register, Promise.register, hp, push, rest.ended]
    obtain ⟨t, m', hlead, ht, hs, hr, hp', calm⟩ :=
      fire_leads (m := m.perform (.on kind label body)) (c := ⟨kind, ⟨label, body⟩⟩)
        (plays v body) (by rw [hregister]; exact ⟨rest.alone, rest.quiet⟩)
        (by rw [hregister]; exact hp) (by rw [hregister]; exact rest.sound)
        (by rw [hregister])
    obtain ⟨henact, hepisode⟩ := enact_of_leads hlead hs hr
    rw [henact, hepisode]
    refine ⟨?_, ⟨calm, hs, hr⟩, by rw [hp', hregister]⟩
    rcases ht with ⟨hkind, rfl⟩ | ⟨hkind, inner, hinner, rfl⟩
    · exact .ignored hkind .done
    · have hprompt := Aftermath.prompt hkind hinner .done
      simpa [begins, answer, Step.verb] using hprompt

theorem tale_late {m : Machine ω} {v : Settled ω} (rest : m.Resting)
    (hp : m.promise.phase = .done v) (program : Script ω) :
    Aftermath v (m.tale program) ∧ (m.after program).Resting ∧
      (m.after program).promise = m.promise := by
  induction program generalizing m with
  | nil => exact ⟨.done, rest, rfl⟩
  | cons s program ih =>
    obtain ⟨hstory, rest', hp'⟩ := episode_late rest hp s
    obtain ⟨hstory', rest'', hp''⟩ := ih rest' (by rw [hp']; exact hp)
    exact ⟨hstory.append hstory', rest'', by rw [after_cons, hp'', hp']⟩

/-- After every program nothing is left to run. -/
theorem after_resting {m : Machine ω} (rest : m.Resting) (hp : m.promise.phase = .pending)
    (program : Script ω) : (m.after program).Resting := by
  rcases first_attempt program with hnone | ⟨before, winner, late, v, rfl, hbefore, hw⟩
  · obtain ⟨-, -, hrest, -⟩ := tale_early rest hp hnone
    exact hrest
  · obtain ⟨-, -, hrest, hp'⟩ := tale_early rest hp hbefore
    obtain ⟨-, -, -, -, -, -, hdone, hrest'⟩ :=
      enact_first_attempt hrest (by rw [hp']; exact hp) hw
    obtain ⟨-, hrest'', -⟩ := tale_late hrest' (by rw [hdone]) late
    simpa using hrest''

end Turnstile.Machine
