import Turnstile.Proofs.Episodes
import Turnstile.Proofs.Moves

/-!
# Callbacks

A program of steps from outside, seen as a whole. Main statement: every callback is run once
if the promise ends the way the callback is meant for, and never otherwise; those that have
waited are run in their order before the winning attempt returns, and a later one is run before
its registration returns. What is told of calls is what can be seen of them.
-/

namespace Turnstile.Machine

open Story

variable {ω : Type}

theorem settle_seen (m : Machine ω) (v : Settled ω) :
    (m.settle v).work = m.work ∧ (m.settle v).seen = m.seen := by
  unfold settle
  split
  · exact ⟨rfl, rfl⟩
  · exact ⟨rfl, rfl⟩
  · exact ⟨rfl, by simp [seen, push, emit, Event.call?]⟩

variable [Outcome ω]

theorem perform_seen {m : Machine ω} (alone : m.work = none) (s : Step ω) :
    (m.perform s).work = none ∧ (m.perform s).seen = m.seen := by
  cases s with
  | complete o x => simpa only [perform, alone] using settle_seen m (.ofValue o x)
  | fail o e => simpa only [perform, alone] using settle_seen m (.ofError o e)
  | on kind label body =>
    rw [perform, register]
    split <;> exact ⟨alone, rfl⟩
  | panic p => exact ⟨alone, rfl⟩
  | ask q =>
    rw [perform]
    cases q with
    | getTimeout wait =>
      rw [spend]
      split <;> exact ⟨alone, rfl⟩
    | _ => exact ⟨alone, rfl⟩
  | run => simp only [perform, runTask, alone, and_self]
  | expire => simp only [perform, expire, alone, and_self]
  | cancel => simp [perform, cancel, alone, seen]

theorem called_begins (m : Machine ω) (s : Step ω) : (m.begins s).called = [] := by
  cases s with
  | complete o x => exact called_tries m _
  | fail o e => exact called_tries m _
  | _ => rfl

/-- The calls of the story are those that can be seen. -/
theorem step_seen {m : Machine ω} (alone : m.work = none) :
    m.step.work = none ∧ m.step.seen = m.seen ++ m.deeds.shown := by
  have move := step_move alone
  generalize m.deeds = d, m.step = m' at move ⊢
  cases move with
  | rest => exact ⟨alone, (List.append_nil _).symm⟩
  | pass busy keeps hseen hd =>
    refine ⟨keeps.work.trans alone, hseen.trans ?_⟩
    rcases hd with hd | ⟨verb, a, hd⟩ <;> rw [hd] <;> exact (List.append_nil _).symm
  | begin s script below hs =>
    obtain ⟨hwork, hseen⟩ := perform_seen (m := { m with
      stack := .report s.verb (m.answer s) :: .body script :: below }) alone s
    rw [shown, called_begins]
    exact ⟨hwork, hseen.trans (List.append_nil _).symm⟩
  | call busy keeps hseen => exact ⟨keeps.work.trans alone, hseen⟩
  | publish hp hp' hwork hfallback hseen =>
    exact ⟨hwork.trans alone, hseen.trans (List.append_nil _).symm⟩

theorem runFor_seen {m : Machine ω} (alone : m.work = none) (n : Nat) :
    (m.runFor n).work = none ∧ (m.runFor n).seen = m.seen ++ (m.storyFor n).shown := by
  induction n generalizing m with
  | zero => exact ⟨alone, (List.append_nil _).symm⟩
  | succ n ih =>
    obtain ⟨hwork, hseen⟩ := step_seen alone
    obtain ⟨hwork', hseen'⟩ := ih hwork
    refine ⟨hwork', ?_⟩
    rw [runFor, hseen', hseen, storyFor, shown_append, List.append_assoc]

theorem enact_seen {m : Machine ω} (alone : m.work = none) (s : Step ω) :
    (m.enact s).2.work = none ∧ (m.enact s).2.seen = m.seen ++ (m.episode s).shown := by
  obtain ⟨hwork, hseen⟩ := perform_seen alone s
  obtain ⟨hwork', hseen'⟩ := runFor_seen hwork (m.perform s).weight
  have hstory : (m.episode s).shown = ((m.perform s).storyFor (m.perform s).weight).shown := by
    simp only [episode, shown, called_append, called_begins]
    simp
  rw [hstory, ← hseen, ← hseen']
  simp only [enact, run]
  split <;> exact ⟨hwork', rfl⟩

/-- What can be seen of a program is what its story tells. -/
theorem after_seen {m : Machine ω} (alone : m.work = none) (program : Script ω) :
    (m.after program).seen = m.seen ++ (m.tale program).shown := by
  induction program generalizing m with
  | nil => exact (List.append_nil _).symm
  | cons s program ih =>
    obtain ⟨hwork, hseen⟩ := enact_seen alone s
    rw [after_cons, ih hwork, hseen, tale, shown_append, List.append_assoc]

omit [Outcome ω] in
/-- The calls of a program that settles the promise are those owed to its callbacks. -/
theorem called_of_parts {v : Settled ω} {hook : Option (Script ω)} {w : Verb} {a : Answer ω}
    {cs : List (Callback (Reaction ω))} {gathered hooked drained late : Story ω}
    (hgathered : gathered.called = []) (hcs : gathered.registered = cs)
    (hhook : HookRun v hook hooked) (hfiring : Firing v (cs ++ hooked.registered) drained)
    (hlate : Aftermath v late) :
    let story := gathered ++ (.attempt v ::
      (hooked ++ .publish v :: (drained ++ [.reply w a]))) ++ late
    story.called.Perm (owed v story.registered) := by
  intro story
  have hcalled : story.called = drained.called ++ late.called := by
    simp [story, hgathered, hhook.called]
  have hregistered : story.registered =
      (cs ++ hooked.registered ++ drained.registered) ++ late.registered := by
    simp [story, ← hcs]
  rw [hcalled, hregistered, owed_append]
  exact hfiring.called_perm.append hlate.called_perm

/-- Every callback is run once, with the value or the error, if the promise ends the way the
callback is meant for, and never otherwise. Those registered before the value was shown, by
the hook too, are run after the hook, in the order of their registration, before the winning
attempt returns; a later one is run before its registration returns. -/
theorem callbacks_run_once (hook : Option (Script ω)) (fallback : Fallback)
    (quiet : fallback.Quiet) (program : Script ω) :
    let start : Machine ω := { promise := { hook := hook }, fallback := fallback }
    let story := start.tale program
    (start.after program).seen = story.shown ∧
    match (start.after program).promise.settled? with
    | none => (∀ s ∈ program, s.attempt? = none) ∧ story.called = []
    | some v =>
      story.called.Perm (owed v story.registered) ∧
      ∃ before winner late hooked drained,
        program = before ++ winner :: late ∧ winner.attempt? = some v ∧
        Gathering (start.tale before) ∧ (start.tale before).attempts = [] ∧
        (start.after before).episode winner = .attempt v ::
          (hooked ++ .publish v :: (drained ++ [.reply winner.verb (.truth true)])) ∧
        HookRun v hook hooked ∧
        Firing v ((start.tale before).registered ++ hooked.registered) drained ∧
        Aftermath v ((start.after (before ++ [winner])).tale late) := by
  intro start story
  have hstart : start.Resting := ⟨⟨rfl, quiet⟩, rfl, rfl⟩
  have hseen : (start.after program).seen = story.shown := after_seen rfl program
  refine ⟨hseen, ?_⟩
  rcases first_attempt program with hnone | ⟨before, winner, late, v, rfl, hbefore, hw⟩
  · obtain ⟨hgather, -, -, hp⟩ := tale_early hstart rfl hnone
    have hsettled : (start.after program).promise.settled? = none := by
      rw [hp]
      rfl
    rw [hsettled]
    exact ⟨hnone, hgather.called⟩
  · obtain ⟨hgather, hattempts, hrest, hp⟩ := tale_early hstart rfl hbefore
    obtain ⟨hooked, drained, hepisode, hhook, hfiring, -, hp', hrest'⟩ :=
      enact_first_attempt hrest (by rw [hp]) hw
    obtain ⟨hlate, -, hp''⟩ := tale_late hrest' (by rw [hp']) late
    rw [hp] at hhook hfiring
    have hafter : start.after (before ++ winner :: late) =
        ((start.after before).enact winner).2.after late := by simp
    have hsettled : (start.after (before ++ winner :: late)).promise.settled? = some v := by
      rw [hafter, hp'', hp']
      rfl
    have hstory : story = start.tale before ++ (.attempt v ::
        (hooked ++ .publish v :: (drained ++ [.reply winner.verb (.truth true)]))) ++
        ((start.after before).enact winner).2.tale late := by
      rw [← hepisode, List.append_assoc, ← tale, ← tale_append]
    rw [hsettled]
    refine ⟨?_, before, winner, late, hooked, drained, rfl, hw, hgather, hattempts, hepisode,
      hhook, hfiring, ?_⟩
    · rw [hstory]
      exact called_of_parts hgather.called rfl hhook hfiring hlate
    · simpa using hlate

/-- A hook that registers two callbacks and tries to settle in its turn. -/
def eagerHook : Script Status :=
  [.on .error "e" [], .on .success "b" [], .complete .success "late"]

/-- A callback registered early registers another one that panics, and tries to settle. -/
def nestedProgram : Script Status :=
  [.on .success "a" [.on .success "c" [.panic (.text "oops")], .complete .error "again"],
    .complete .success "x", .on .success "d" []]

def nestedStart : Machine Status :=
  { promise := { hook := some eagerHook }, fallback := .shown "alarm" }

/-- The callback registered by a callback is run before the one that the hook registered. -/
theorem callbacks_run_once_nested :
    let v : Settled Status := ⟨.success, .success, .ok "x"⟩
    nestedStart.fallback.Quiet ∧
      (nestedStart.after nestedProgram).promise.settled? = some v ∧
      (nestedStart.after nestedProgram).seen =
        [("a", .ok "x"), ("c", .ok "x"), ("b", .ok "x"), ("d", .ok "x")] ∧
      (nestedStart.tale nestedProgram).called.Perm
        (owed v (nestedStart.tale nestedProgram).registered) := by
  intro v
  have hsettled : (nestedStart.after nestedProgram).promise.settled? = some v := rfl
  have hseen : (nestedStart.after nestedProgram).seen =
      [("a", .ok "x"), ("c", .ok "x"), ("b", .ok "x"), ("d", .ok "x")] := rfl
  have h :=
    callbacks_run_once (some eagerHook) (.shown "alarm") (Fallback.quiet_shown _) nestedProgram
  rw [← nestedStart] at h
  simp only [hsettled] at h
  exact ⟨Fallback.quiet_shown _, hsettled, hseen, h.2.1⟩

end Turnstile.Machine
