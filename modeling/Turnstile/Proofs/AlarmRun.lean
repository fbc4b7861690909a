import Mathlib.Data.List.Perm.Basic
import Turnstile.Alarm
import Turnstile.Proofs.TimerQueue

/-!
# Alarms fire once

A call that schedules an alarm fires it at most once: at once when the deadline has passed, and
otherwise as soon as the clock shows the deadline, unless the service is shut down first. What
becomes of a call is said here by the commands alone, without the queue.
-/

namespace Turnstile

namespace AlarmBoard

/-- A board that nobody has used yet. -/
def opening (name : String) (clock : Clock) (fallback : Fallback) : AlarmBoard :=
  { service := { name := name }, clock := clock, fallback := fallback }

inductive Command where
  | start
  | shutdown
  | setClock (nanos : Nat)
  | advance (millis : Nat)
  | schedule (a : Alarm) (deadline relative now : Nat)

def perform (b : AlarmBoard) : Command → AlarmBoard
  | .start => b.start
  | .shutdown => b.shutdown
  | .setClock nanos => b.setClock nanos
  | .advance millis => b.advance millis
  | .schedule a deadline relative now => (b.schedule a deadline relative now).2

/-- A command, after which the thread of the service catches up. -/
def step (b : AlarmBoard) (c : Command) : AlarmBoard := (b.perform c).catchUp

/-- The board after a run of commands. -/
def after (b : AlarmBoard) (commands : List Command) : AlarmBoard := commands.foldl step b

@[simp] theorem after_nil (b : AlarmBoard) : b.after [] = b := rfl

@[simp] theorem after_cons (b : AlarmBoard) (c : Command) (commands : List Command) :
    b.after (c :: commands) = (b.step c).after commands := rfl

/-- The labels of the alarms that were fired. -/
def fired (events : List (Event Status)) : List String :=
  events.filterMap fun
    | .fired label => some label
    | _ => none

/-- The clock after a command. -/
def Command.turn (clock : Clock) : Command → Clock
  | .setClock nanos => clock.set nanos
  | .advance millis => clock.advance millis
  | .start | .shutdown | .schedule .. => clock

/-- Whether the service runs after a command. -/
def Command.switch (running : Bool) : Command → Bool
  | .start => true
  | .shutdown => false
  | .setClock _ | .advance _ | .schedule .. => running

/-- The clock comes to show the deadline, at the start or after some of the commands, before the
service is shut down. -/
def Reaches (deadline : Nat) (clock : Clock) (commands : List Command) : Prop :=
  ∃ stretch, stretch <+: commands ∧ Command.shutdown ∉ stretch ∧
    deadline ≤ (stretch.foldl Command.turn clock).now

theorem Reaches.of_le {deadline : Nat} {clock : Clock} (h : deadline ≤ clock.now)
    (commands : List Command) : Reaches deadline clock commands :=
  ⟨[], List.nil_prefix, List.not_mem_nil, h⟩

/-- Until the clock shows the deadline, each command matters. -/
theorem reaches_cons {deadline : Nat} {clock : Clock} (h : clock.now < deadline) (c : Command)
    (commands : List Command) :
    Reaches deadline clock (c :: commands) ↔
      c ≠ .shutdown ∧ Reaches deadline (c.turn clock) commands := by
  constructor
  · rintro ⟨stretch, hprefix, hshut, hshows⟩
    cases stretch with
    | nil => exact absurd hshows (Nat.not_le_of_lt h)
    | cons c' stretch =>
      obtain ⟨rfl, hrest⟩ := List.cons_prefix_cons.mp hprefix
      obtain ⟨hc, hshut⟩ := not_or.mp (List.mem_cons.not.mp hshut)
      exact ⟨fun h => hc h.symm, stretch, hrest, hshut, hshows⟩
  · rintro ⟨hc, stretch, hprefix, hshut, hshows⟩
    refine ⟨c :: stretch, List.cons_prefix_cons.mpr ⟨rfl, hprefix⟩, ?_, hshows⟩
    simp only [List.mem_cons, not_or]
    exact ⟨fun h => hc h.symm, hshut⟩

theorem reaches_nil {deadline : Nat} {clock : Clock} :
    Reaches deadline clock [] ↔ deadline ≤ clock.now := by
  constructor
  · rintro ⟨stretch, hprefix, -, hshows⟩
    rwa [List.prefix_nil.mp hprefix] at hshows
  · exact fun h => .of_le h []

instance (c : Command) : Decidable (c ≠ .shutdown) :=
  match c with
  | .shutdown => .isFalse (· rfl)
  | .start | .setClock _ | .advance _ | .schedule .. => .isTrue nofun

instance Reaches.decidable (deadline : Nat) (clock : Clock) :
    (commands : List Command) → Decidable (Reaches deadline clock commands)
  | [] => decidable_of_iff _ reaches_nil.symm
  | c :: commands =>
    if h : clock.now < deadline then
      have := Reaches.decidable deadline (c.turn clock) commands
      decidable_of_iff _ (reaches_cons h c commands).symm
    else .isTrue (.of_le (Nat.le_of_not_lt h) _)

/-- The alarm that a command fires, at once or in the course of the commands behind it. -/
def Command.fires? (clock : Clock) (running : Bool) (later : List Command) :
    Command → Option String
  | .schedule a deadline relative now =>
    if relative ≠ noTimeout ∧ (deadline ≤ now ∨ running = true ∧ Reaches deadline clock later) then
      some a.label
    else none
  | .start | .shutdown | .setClock _ | .advance _ => none

/-- The alarms that a run of commands fires, in the order in which they were scheduled. -/
def firings (clock : Clock) (running : Bool) : List Command → List String
  | [] => []
  | c :: commands =>
    (c.fires? clock running commands).toList ++
      firings (c.turn clock) (c.switch running) commands

theorem fired_append (events events' : List (Event Status)) :
    fired (events ++ events') = fired events ++ fired events' := List.filterMap_append

/-- A panic goes to the fallback handler and fires nothing. -/
@[simp] theorem fired_fire (fallback : Fallback) (service : String) (a : Alarm) (deadline : Nat) :
    fired (fire fallback service a deadline).events = [a.label] := by
  cases hp : a.panic with
  | none => simp [fire, hp, fired]
  | some p => cases fallback <;> simp [fire, hp, fired, Fallback.events]

/-- The alarm panics, and so does the fallback handler. -/
def escapes (fallback : Fallback) (a : Alarm) : Bool :=
  (a.panic.bind (fallback.raised .timeout)).isSome

theorem escapes_quiet {fallback : Fallback} (quiet : fallback.Quiet) (a : Alarm) :
    escapes fallback a = false := by
  rw [escapes, quiet.bind_raised, Option.isSome_none]

/-- Of the alarms that are due, those that fire: the thread does not survive the first panic that
leaves a firing. -/
def reached (fallback : Fallback) (due : List (TimerEntry Alarm)) : List (TimerEntry Alarm) :=
  due.take (due.findIdx (fun e => escapes fallback e.task) + 1)

theorem reached_cons (fallback : Fallback) (e : TimerEntry Alarm) (due : List (TimerEntry Alarm)) :
    reached fallback (e :: due) =
      e :: if escapes fallback e.task then [] else reached fallback due := by
  rw [reached, List.findIdx_cons]
  cases escapes fallback e.task <;> simp [reached]

theorem reached_quiet {fallback : Fallback} {due : List (TimerEntry Alarm)}
    (quiet : due.any (fun e => escapes fallback e.task) = false) : reached fallback due = due := by
  have hnone : due.findIdx (fun e => escapes fallback e.task) = due.length :=
    List.findIdx_eq_length.mpr fun e he => by simpa using List.any_eq_false.mp quiet e he
  rw [reached, hnone, List.take_of_length_le (Nat.le_succ _)]

theorem reached_append_cons {fallback : Fallback} {before behind : List (TimerEntry Alarm)}
    {e : TimerEntry Alarm} (quiet : ∀ x ∈ before, escapes fallback x.task = false)
    (loud : escapes fallback e.task = true) :
    reached fallback (before ++ e :: behind) = before ++ [e] := by
  induction before with
  | nil => rw [List.nil_append, reached_cons, loud, if_pos rfl, List.nil_append]
  | cons x before ih =>
    rw [List.cons_append, reached_cons, quiet x List.mem_cons_self, if_neg Bool.false_ne_true,
      ih fun y hy => quiet y (List.mem_cons_of_mem _ hy), List.cons_append]

/-- What the firing of an entry comes to. -/
def firing (b : AlarmBoard) (e : TimerEntry Alarm) : Firing :=
  fire b.fallback b.service.name e.task e.deadline

/-- A thread with nothing to fire fires nothing. -/
theorem fireAll_idle {b : AlarmBoard} (idle : b.service.due = []) (due : List (TimerEntry Alarm)) :
    due.foldl (fun b _ => b.fireNext) b = b := by
  induction due with
  | nil => rfl
  | cons e due ih =>
    have hnext : b.fireNext = b := by
      unfold fireNext
      rw [idle]
    rw [List.foldl_cons, hnext, ih]

/-- What is due fires in its order until the handler panics. -/
theorem fireAll_eq (b : AlarmBoard) (due : List (TimerEntry Alarm)) (h : b.service.due = due) :
    due.foldl (fun b _ => b.fireNext) b = { b with
      service := if due.any (fun e => escapes b.fallback e.task) then b.service.crash
        else { b.service with due := [] }
      events := b.events ++ (reached b.fallback due).flatMap fun e => (b.firing e).events
      timerNotes := b.timerNotes ++
        (reached b.fallback due).flatMap fun e => (b.firing e).notes } := by
  induction due generalizing b with
  | nil =>
    obtain ⟨⟨name, running, crashed, nextSeq, queue, due⟩, clock, fallback, events, notes,
      timerNotes⟩ := b
    subst h
    simp [reached]
  | cons e due ih =>
    have hnext : b.fireNext = { b with
        service := if escapes b.fallback e.task then b.service.crash else b.service.take 0
        events := b.events ++ (b.firing e).events
        timerNotes := b.timerNotes ++ (b.firing e).notes } := by
      unfold fireNext
      rw [h]
      rfl
    rw [List.foldl_cons, hnext, reached_cons, List.any_cons]
    cases hpanic : escapes b.fallback e.task with
    | true =>
      rw [fireAll_idle rfl]
      simp
    | false =>
      rw [ih _ (by simp [TimerService.take, h])]
      simp [firing, TimerService.take, TimerService.crash, List.append_assoc]

/-- The alarms that are due by the clock. -/
def due (b : AlarmBoard) : List (TimerEntry Alarm) :=
  b.service.queue.takeWhile fun e => e.deadline ≤ b.clock.now

theorem catchUp_eq {b : AlarmBoard} (idle : b.service.due = []) :
    b.catchUp = { b with
      service := if b.due.any (fun e => escapes b.fallback e.task) then b.service.crash
        else { b.service.look b.clock.now with due := [] }
      events := b.events ++ (reached b.fallback b.due).flatMap fun e => (b.firing e).events
      timerNotes := b.timerNotes ++
        (reached b.fallback b.due).flatMap fun e => (b.firing e).notes } := by
  have hdue : (b.service.look b.clock.now).due = b.due := by
    rw [TimerService.look, idle, List.nil_append, due]
  rw [catchUp, hdue, fireAll_eq _ b.due hdue]
  rfl

/-- All that is due fires, if the handler bears with each. -/
theorem catchUp_quiet {b : AlarmBoard} (idle : b.service.due = [])
    (quiet : ∀ e ∈ b.due, escapes b.fallback e.task = false) :
    b.catchUp = { b with
      service := { b.service.look b.clock.now with due := [] }
      events := b.events ++ b.due.flatMap fun e => (b.firing e).events
      timerNotes := b.timerNotes ++ b.due.flatMap fun e => (b.firing e).notes } := by
  have hnone : b.due.any (fun e => escapes b.fallback e.task) = false :=
    List.any_eq_false.mpr fun e he => by simp [quiet e he]
  rw [catchUp_eq idle, reached_quiet hnone, hnone]
  rfl

/-- The first alarm that is too much for the handler is the last one. -/
theorem catchUp_loud {b : AlarmBoard} (idle : b.service.due = [])
    {before behind : List (TimerEntry Alarm)} {e : TimerEntry Alarm}
    (hdue : b.due = before ++ e :: behind)
    (quiet : ∀ x ∈ before, escapes b.fallback x.task = false)
    (loud : escapes b.fallback e.task = true) :
    b.catchUp = { b with
      service := b.service.crash
      events := b.events ++ (before ++ [e]).flatMap fun x => (b.firing x).events
      timerNotes := b.timerNotes ++ (before ++ [e]).flatMap fun x => (b.firing x).notes } := by
  have hdies : b.due.any (fun e => escapes b.fallback e.task) = true :=
    List.any_eq_true.mpr ⟨e, by simp [hdue], loud⟩
  rw [catchUp_eq idle, hdies, hdue, reached_append_cons quiet loud]
  rfl

/-- Everything that scheduling an alarm can come to. -/
theorem schedule_cases (b : AlarmBoard) (a : Alarm) (deadline relative now : Nat) :
    (relative = noTimeout ∧ b.schedule a deadline relative now = (.ok false, b)) ∨
    (relative ≠ noTimeout ∧ deadline ≤ now ∧
      let f := fire b.fallback b.service.name a deadline
      b.schedule a deadline relative now = (f.escaped.elim (.ok true) .panicked,
        { b with events := b.events ++ f.events, notes := b.notes ++ f.notes })) ∨
    (relative ≠ noTimeout ∧ now < deadline ∧ b.service.running = true ∧
      b.schedule a deadline relative now = (.ok true, { b with
        service := { b.service with
          nextSeq := b.service.nextSeq + 1
          queue := TimerEntry.insert ⟨deadline, b.service.nextSeq, a⟩ b.service.queue } })) ∨
    (relative ≠ noTimeout ∧ now < deadline ∧ b.service.running = false ∧
      b.schedule a deadline relative now = (.error (.schedulerStopped b.service.name),
        { b with service := { b.service with nextSeq := b.service.nextSeq + 1 } })) := by
  rcases b.service.schedule_cases a deadline relative now with
    ⟨hr, hs⟩ | ⟨hr, hd, hs⟩ | ⟨hr, hd, hrun, hs⟩ | ⟨hr, hd, hrun, hs⟩
  · exact .inl ⟨hr, by simp only [schedule, hs]⟩
  · exact .inr (.inl ⟨hr, hd, by simp only [schedule, hs]⟩)
  · exact .inr (.inr (.inl ⟨hr, hd, hrun, by simp only [schedule, hs]⟩))
  · exact .inr (.inr (.inr ⟨hr, hd, hrun, by simp only [schedule, hs]⟩))

/-- What a command does to the clock and to the switch is what it says. -/
theorem perform_outline (b : AlarmBoard) (c : Command) :
    (b.perform c).clock = c.turn b.clock ∧
      (b.perform c).service.isRunning = c.switch b.service.isRunning ∧
      (b.perform c).service.name = b.service.name ∧ (b.perform c).fallback = b.fallback := by
  cases c with
  | schedule a deadline relative now =>
    rcases b.schedule_cases a deadline relative now with
      ⟨-, h⟩ | ⟨-, -, h⟩ | ⟨-, -, -, h⟩ | ⟨-, -, -, h⟩ <;>
      rw [perform, h] <;> exact ⟨rfl, rfl, rfl, rfl⟩
  | start =>
    rw [perform, start, TimerService.start]
    split
    · rename_i hrunning
      exact ⟨rfl, hrunning, rfl, rfl⟩
    · exact ⟨rfl, rfl, rfl, rfl⟩
  | advance millis =>
    rw [perform, advance]
    exact ⟨rfl, rfl, rfl, rfl⟩
  | shutdown => exact ⟨rfl, rfl, rfl, rfl⟩
  | setClock nanos => exact ⟨rfl, rfl, rfl, rfl⟩

theorem Tidy.perform {b : AlarmBoard} (h : b.service.Tidy) (c : Command) :
    (b.perform c).service.Tidy := by
  cases c with
  | start => exact h.start
  | shutdown => exact (TimerService.AtRest.shutdown _ 0).toTidy
  | setClock nanos => exact h
  | advance millis =>
    rw [AlarmBoard.perform, advance]
    exact h
  | schedule a deadline relative now =>
    rcases b.schedule_cases a deadline relative now with
      ⟨-, hs⟩ | ⟨-, -, hs⟩ | ⟨-, -, hrun, hs⟩ | ⟨-, -, -, hs⟩
    all_goals rw [AlarmBoard.perform, hs]
    · exact h
    · exact h
    · exact h.insert hrun _ _
    · exact h.draw _

/-- Between commands nothing that is due waits. -/
def Calm (b : AlarmBoard) : Prop := b.service.AtRest b.clock.now

theorem calm_opening (name : String) (clock : Clock) (fallback : Fallback) :
    (opening name clock fallback).Calm := ⟨⟨.nil, rfl, fun _ => rfl, nofun⟩, nofun⟩

theorem calm_catchUp {b : AlarmBoard} (h : b.service.Tidy) : b.catchUp.Calm := by
  rw [catchUp_eq h.idle]
  unfold Calm
  dsimp only
  split
  · exact .crash _ _
  · exact h.look _

theorem Calm.step {b : AlarmBoard} (h : b.Calm) (c : Command) : (b.step c).Calm :=
  calm_catchUp (Tidy.perform h.toTidy c)

/-- To catch up is to fire, and maybe to die of it. -/
theorem catchUp_outline {b : AlarmBoard} (h : b.service.Tidy) :
    b.catchUp.clock = b.clock ∧ b.catchUp.service.isRunning = b.service.isRunning ∧
      b.catchUp.service.name = b.service.name ∧ b.catchUp.fallback = b.fallback := by
  rw [catchUp_eq h.idle]
  refine ⟨rfl, ?_, ?_, rfl⟩
  · dsimp only
    split
    · rename_i hcrash
      -- only a thread that takes tasks can die of one
      have hon : b.service.running = true := by
        by_contra hoff
        rw [due, h.stopped (by simpa using hoff)] at hcrash
        cases hcrash
      simp [TimerService.isRunning, TimerService.crash, hon]
    · rfl
  · dsimp only
    split <;> rfl

theorem step_outline {b : AlarmBoard} (h : b.Calm) (c : Command) :
    (b.step c).clock = c.turn b.clock ∧
      (b.step c).service.isRunning = c.switch b.service.isRunning ∧
      (b.step c).service.name = b.service.name ∧ (b.step c).fallback = b.fallback := by
  obtain ⟨hclock, hrunning, hname, hfallback⟩ := b.perform_outline c
  obtain ⟨hclock', hrunning', hname', hfallback'⟩ := catchUp_outline (Tidy.perform h.toTidy c)
  exact ⟨hclock'.trans hclock, hrunning'.trans hrunning, hname'.trans hname,
    hfallback'.trans hfallback⟩

theorem after_outline {b : AlarmBoard} (h : b.Calm) (commands : List Command) :
    (b.after commands).clock = commands.foldl Command.turn b.clock ∧
      (b.after commands).service.isRunning =
        commands.foldl Command.switch b.service.isRunning ∧
      (b.after commands).service.name = b.service.name ∧
      (b.after commands).fallback = b.fallback := by
  induction commands generalizing b with
  | nil => exact ⟨rfl, rfl, rfl, rfl⟩
  | cons c commands ih =>
    obtain ⟨hclock, hrunning, hname, hfallback⟩ := step_outline h c
    simpa [hclock, hrunning, hname, hfallback] using ih (h.step c)

/-- The thread of the service dies of a panic that leaves a firing, and of nothing else. -/
theorem crashed_catchUp {b : AlarmBoard} (idle : b.service.due = []) :
    b.catchUp.service.crashed =
      (b.due.any (fun e => escapes b.fallback e.task) || b.service.crashed) := by
  rw [catchUp_eq idle]
  dsimp only
  split <;> simp_all [TimerService.crash, TimerService.look]

/-- Only a shutdown makes a service forget that its thread has died. -/
theorem crashed_perform (b : AlarmBoard) {c : Command} (hc : c ≠ .shutdown) :
    (b.perform c).service.crashed = b.service.crashed := by
  cases c with
  | schedule a deadline relative now =>
    rcases b.schedule_cases a deadline relative now with
      ⟨-, hs⟩ | ⟨-, -, hs⟩ | ⟨-, -, -, hs⟩ | ⟨-, -, -, hs⟩ <;> rw [perform, hs]
  | start =>
    rw [perform, start, TimerService.start]
    split <;> rfl
  | shutdown => exact absurd rfl hc
  | setClock nanos => rfl
  | advance millis => rw [perform, advance]

/-- With a handler that does not panic the thread of the service lives. -/
theorem crashed_step {b : AlarmBoard} (h : b.Calm) (quiet : b.fallback.Quiet)
    (alive : b.service.crashed = false) (c : Command) : (b.step c).service.crashed = false := by
  obtain ⟨-, -, -, hfallback⟩ := b.perform_outline c
  have hlives : (b.perform c).service.crashed = false := by
    by_cases hc : c = .shutdown
    · rw [hc]
      rfl
    · rw [crashed_perform b hc, alive]
  have hquiet := escapes_quiet (hfallback ▸ quiet : (b.perform c).fallback.Quiet)
  rw [step, crashed_catchUp (Tidy.perform h.toTidy c).idle, hlives]
  simp [hquiet]

theorem crashed_after {b : AlarmBoard} (h : b.Calm) (quiet : b.fallback.Quiet)
    (alive : b.service.crashed = false) (commands : List Command) :
    (b.after commands).service.crashed = false := by
  induction commands generalizing b with
  | nil => exact alive
  | cons c commands ih =>
    obtain ⟨-, -, -, hfallback⟩ := step_outline h c
    exact ih (h.step c) (hfallback ▸ quiet) (crashed_step h quiet alive c)

/-- The alarms in a queue that the commands will fire. -/
def owed (queue : List (TimerEntry Alarm)) (clock : Clock) (commands : List Command) :
    List String :=
  (queue.filter fun e => Reaches e.deadline clock commands).map fun e => e.task.label

/-- Firing what is due settles just this debt. -/
theorem catchUp_owed {b : AlarmBoard} (idle : b.service.due = [])
    (quiet : b.fallback.Quiet) (commands : List Command) :
    fired b.catchUp.events ++ owed b.catchUp.service.queue b.clock commands =
      fired b.events ++ owed b.service.queue b.clock commands := by
  have hlabels : ∀ due : List (TimerEntry Alarm),
      fired (due.flatMap fun e => (b.firing e).events) = due.map fun e => e.task.label := by
    intro due
    induction due with
    | nil => rfl
    | cons e due ih =>
      rw [List.flatMap_cons, fired_append, ih, firing, fired_fire, List.map_cons,
        List.singleton_append]
  have hdue : ∀ e ∈ b.due, decide (Reaches e.deadline b.clock commands) = true := fun e he =>
    decide_eq_true (.of_le (of_decide_eq_true (List.mem_takeWhile_imp
      (p := fun e : TimerEntry Alarm => decide (e.deadline ≤ b.clock.now)) he)) commands)
  have hsplit : owed b.service.queue b.clock commands = (b.due.map fun e => e.task.label) ++
      owed (b.service.look b.clock.now).queue b.clock commands := by
    rw [owed, ← List.takeWhile_append_dropWhile
      (p := fun e : TimerEntry Alarm => decide (e.deadline ≤ b.clock.now)) (l := b.service.queue),
      List.filter_append, ← due, List.filter_eq_self.mpr hdue, List.map_append]
    rfl
  rw [catchUp_quiet idle fun e _ => escapes_quiet quiet e.task]
  dsimp only
  rw [hsplit, fired_append, hlabels, List.append_assoc]

section

variable {queue : List (TimerEntry Alarm)} {clock : Clock}

/-- Before the deadlines, a command that is no shutdown only moves the clock. -/
theorem owed_cons (later : ∀ e ∈ queue, clock.now < e.deadline) (c : Command)
    (hc : c ≠ .shutdown) (commands : List Command) :
    owed queue clock (c :: commands) = owed queue (c.turn clock) commands := by
  have hsame : ∀ e ∈ queue, decide (Reaches e.deadline clock (c :: commands)) =
      decide (Reaches e.deadline (c.turn clock) commands) := by
    intro e he
    rw [decide_eq_decide, reaches_cons (later e he)]
    exact and_iff_right hc
  rw [owed, owed, List.filter_congr hsame]

theorem owed_shutdown (later : ∀ e ∈ queue, clock.now < e.deadline) (commands : List Command) :
    owed queue clock (.shutdown :: commands) = [] := by
  have hnone : ∀ e ∈ queue, ¬ decide (Reaches e.deadline clock (.shutdown :: commands)) = true := by
    intro e he
    rw [decide_eq_true_iff, reaches_cons (later e he)]
    exact fun hr => hr.1 rfl
  rw [owed, List.filter_eq_nil_iff.mpr hnone, List.map_nil]

theorem owed_insert (e : TimerEntry Alarm) (queue : List (TimerEntry Alarm)) (clock : Clock)
    (commands : List Command) :
    (owed (TimerEntry.insert e queue) clock commands).Perm
      (owed queue clock commands ++
        if Reaches e.deadline clock commands then [e.task.label] else []) := by
  refine (((TimerEntry.insert_perm e queue).filter _).map _).trans ?_
  rw [List.filter_cons]
  by_cases hr : Reaches e.deadline clock commands
  · simp only [hr, decide_true, if_true, List.map_cons]
    exact (List.perm_append_singleton _ _).symm
  · simp [hr, owed]

end

/-- What was fired and what is owed for the calls so far changes by a command only by what the
command itself fires. -/
theorem step_owed {b : AlarmBoard} (h : b.Calm) (quiet : b.fallback.Quiet)
    (alive : b.service.crashed = false) (c : Command) (commands : List Command) :
    (fired (b.step c).events ++ owed (b.step c).service.queue (c.turn b.clock) commands).Perm
      (fired b.events ++ owed b.service.queue b.clock (c :: commands) ++
        (c.fires? b.clock b.service.isRunning commands).toList) := by
  obtain ⟨hclock, -, -, hfallback⟩ := b.perform_outline c
  have hcatch := catchUp_owed (Tidy.perform h.toTidy c).idle (hfallback ▸ quiet) commands
  rw [hclock] at hcatch
  rw [step, hcatch]
  cases c with
  | start =>
    have hqueue : b.service.start.queue = b.service.queue := by
      unfold TimerService.start
      split <;> rfl
    rw [owed_cons h.later .start nofun]
    simp [perform, start, hqueue, Command.fires?, Command.turn]
  | shutdown =>
    rw [owed_shutdown h.later]
    simp [perform, shutdown, TimerService.shutdown, owed, Command.fires?]
  | setClock nanos =>
    rw [owed_cons h.later (.setClock nanos) nofun, Command.fires?, Option.toList_none,
      List.append_nil]
    exact .refl _
  | advance millis =>
    rw [owed_cons h.later (.advance millis) nofun, Command.fires?, Option.toList_none,
      List.append_nil, perform, advance]
  | schedule a deadline relative now =>
    rw [owed_cons h.later (.schedule a deadline relative now) nofun, Command.turn,
      AlarmBoard.perform, TimerService.isRunning, alive, Bool.or_false]
    rcases b.schedule_cases a deadline relative now with
      ⟨hr, hs⟩ | ⟨hr, hd, hs⟩ | ⟨hr, hd, hrun, hs⟩ | ⟨hr, hd, hrun, hs⟩
    all_goals rw [hs]
    · simp [Command.fires?, hr]
    · rw [Command.fires?, if_pos ⟨hr, .inl hd⟩, fired_append, fired_fire, Option.toList_some,
        List.append_assoc, List.append_assoc]
      exact List.perm_append_comm.append_left _
    · -- the new entry may be due by the clock, though not by the time of the call
      have hfires : ((Command.schedule a deadline relative now).fires? b.clock b.service.running
          commands).toList = if Reaches deadline b.clock commands then [a.label] else [] := by
        by_cases hreach : Reaches deadline b.clock commands <;>
          simp [Command.fires?, hr, hrun, Nat.not_le_of_lt hd, hreach]
      rw [hfires, List.append_assoc]
      exact (owed_insert _ _ _ _).append_left _
    · simp [Command.fires?, hrun, Nat.not_le_of_lt hd]

/-- What a board has fired after a run is what it had fired before, what it owed, and what the
run fires. -/
theorem fired_after {b : AlarmBoard} (h : b.Calm) (quiet : b.fallback.Quiet)
    (alive : b.service.crashed = false) (commands : List Command) :
    (fired (b.after commands).events).Perm
      (fired b.events ++ owed b.service.queue b.clock commands ++
        firings b.clock b.service.isRunning commands) := by
  induction commands generalizing b with
  | nil =>
    have hnone : ∀ e ∈ b.service.queue, ¬ decide (Reaches e.deadline b.clock []) = true := by
      intro e he
      rw [decide_eq_true_iff, reaches_nil]
      exact Nat.not_le_of_lt (h.later e he)
    simp [owed, List.filter_eq_nil_iff.mpr hnone, firings]
  | cons c commands ih =>
    obtain ⟨hclock, hrunning, -, hfallback⟩ := step_outline h c
    refine (ih (h.step c) (hfallback ▸ quiet) (crashed_step h quiet alive c)).trans ?_
    rw [hclock, hrunning, firings, ← List.append_assoc]
    exact (step_owed h quiet alive c commands).append_right _

/-- When a call answers what, and what it has done by then. -/
theorem schedule_answers (b : AlarmBoard) (quiet : b.fallback.Quiet) (a : Alarm)
    (deadline relative now : Nat) :
    let asked := b.schedule a deadline relative now
    (asked.1 = .ok false ↔ relative = noTimeout) ∧
    (asked.1 = .error (.schedulerStopped b.service.name) ↔
      relative ≠ noTimeout ∧ now < deadline ∧ b.service.running = false) ∧
    (asked.1 = .ok true ∨ asked.1 = .ok false ∨
      asked.1 = .error (.schedulerStopped b.service.name)) ∧
    (asked.1 ≠ .ok true →
      asked.2.events = b.events ∧ asked.2.service.queue = b.service.queue) ∧
    (relative ≠ noTimeout → deadline ≤ now → asked.1 = .ok true ∧
      asked.2.events = b.events ++ (fire b.fallback b.service.name a deadline).events) := by
  have hcaught : (fire b.fallback b.service.name a deadline).escaped = none := by
    rw [fire, quiet.bind_raised]
  rcases b.schedule_cases a deadline relative now with
    ⟨hr, hs⟩ | ⟨hr, hd, hs⟩ | ⟨hr, hd, hon, hs⟩ | ⟨hr, hd, hoff, hs⟩
  · subst hr
    simp [hs]
  · simp [hs, hr, hd, Nat.not_lt_of_le hd, hcaught]
  · simp [hs, hr, hd, Nat.not_le_of_lt hd, hon]
  · simp [hs, hr, hd, Nat.not_le_of_lt hd, hoff]

/-- The label of the alarm that a command schedules. -/
def Command.label? : Command → Option String
  | .schedule a _ _ _ => some a.label
  | .start | .shutdown | .setClock _ | .advance _ => none

theorem Command.label_of_fires {c : Command} {clock : Clock} {running : Bool}
    {later : List Command} {label : String} (h : c.fires? clock running later = some label) :
    c.label? = some label := by
  cases c with
  | schedule a deadline relative now =>
    rw [fires?, Option.ite_none_right_eq_some] at h
    exact h.2
  | _ => cases h

/-- Commands that schedule another alarm do not fire this one. -/
theorem count_firings_of_not {label : String} {commands : List Command}
    (h : ∀ c ∈ commands, c.label? ≠ some label) (clock : Clock) (running : Bool) :
    (firings clock running commands).count label = 0 := by
  induction commands generalizing clock running with
  | nil => rfl
  | cons c commands ih =>
    have hc : label ∉ (c.fires? clock running commands).toList := by
      rw [Option.mem_toList]
      exact fun hl => h c List.mem_cons_self (c.label_of_fires hl)
    rw [firings, List.count_append, List.count_eq_zero.mpr hc,
      ih fun c' hc' => h c' (List.mem_cons_of_mem _ hc')]

/-- An alarm that only one command schedules fires as often as that command fires it. -/
theorem count_firings {label : String} {past later : List Command} {c : Command}
    (hpast : ∀ c' ∈ past, c'.label? ≠ some label) (hlater : ∀ c' ∈ later, c'.label? ≠ some label)
    (clock : Clock) (running : Bool) :
    (firings clock running (past ++ c :: later)).count label =
      (c.fires? (past.foldl Command.turn clock) (past.foldl Command.switch running)
        later).toList.count label := by
  induction past generalizing clock running with
  | nil => rw [List.nil_append, firings, List.count_append, count_firings_of_not hlater]; rfl
  | cons c' past ih =>
    have hc' : label ∉ (c'.fires? clock running (past ++ c :: later)).toList := by
      rw [Option.mem_toList]
      exact fun hl => hpast c' List.mem_cons_self (c'.label_of_fires hl)
    rw [List.cons_append, firings, List.count_append, List.count_eq_zero.mpr hc', Nat.zero_add,
      ih fun c'' hc'' => hpast c'' (List.mem_cons_of_mem _ hc'')]
    rfl

/-- In every run, each call that schedules an alarm fires it at most once, and the alarms that
were fired are those of the calls that fire one. A call without a timeout answers `false`, and one
for a later deadline that finds the service stopped answers so; neither ever fires its alarm. A
call whose deadline has passed fires its alarm before it returns, even on a stopped service. Any
other call fires its alarm when the clock first shows the deadline, and not at all if the service
is shut down before, whether it is started again or not. -/
theorem alarms_fire_once (name : String) (clock : Clock) (fallback : Fallback)
    (quiet : fallback.Quiet) (past : List Command) :
    let r := (opening name clock fallback).after past
    (fired r.events).Perm (firings clock false past) ∧
    ∀ (a : Alarm) (deadline relative now : Nat),
      let asked := r.schedule a deadline relative now
      let running := past.foldl Command.switch false
      (asked.1 = .ok false ↔ relative = noTimeout) ∧
      (asked.1 = .error (.schedulerStopped name) ↔
        relative ≠ noTimeout ∧ now < deadline ∧ running = false) ∧
      (asked.1 = .ok true ∨ asked.1 = .ok false ∨ asked.1 = .error (.schedulerStopped name)) ∧
      (asked.1 ≠ .ok true →
        asked.2.events = r.events ∧ asked.2.service.queue = r.service.queue) ∧
      (relative ≠ noTimeout → deadline ≤ now → asked.1 = .ok true ∧
        asked.2.events = r.events ++
          .fired a.label :: a.panic.elim [] fun p => fallback.events .timeout p) ∧
      ∀ later, (∀ c ∈ past ++ later, c.label? ≠ some a.label) →
        (fired (asked.2.catchUp.after later).events).count a.label =
          if relative ≠ noTimeout ∧ (deadline ≤ now ∨ running = true ∧
            Reaches deadline (past.foldl Command.turn clock) later) then 1 else 0 := by
  intro r
  have hcalm := calm_opening name clock fallback
  have hrun : ∀ commands, (fired ((opening name clock fallback).after commands).events).Perm
      (firings clock false commands) := fun commands => fired_after hcalm quiet rfl commands
  refine ⟨hrun past, fun a deadline relative now => ?_⟩
  intro asked running
  obtain ⟨-, hrunning, hname, hfallback⟩ := after_outline hcalm past
  have halive : r.service.crashed = false := crashed_after hcalm quiet rfl past
  have hswitch : r.service.running = running := by
    rw [TimerService.isRunning, show (AlarmBoard.after _ past).service.crashed = false from halive,
      Bool.or_false] at hrunning
    exact hrunning
  obtain ⟨hfalse, hstopped, hall, hnothing, hexpired⟩ :=
    r.schedule_answers (hfallback ▸ quiet) a deadline relative now
  rw [show r.service.name = name from hname, hswitch] at hstopped
  rw [show r.service.name = name from hname] at hall
  rw [show r.fallback = fallback from hfallback] at hexpired
  refine ⟨hfalse, hstopped, hall, hnothing, hexpired, fun later hfresh => ?_⟩
  have hwhole : asked.2.catchUp.after later = (opening name clock fallback).after
      (past ++ .schedule a deadline relative now :: later) := by
    simp [asked, r, after, step, perform]
  rw [hwhole, (hrun _).count_eq, count_firings
    (fun c hc => hfresh c (List.mem_append_left _ hc))
    (fun c hc => hfresh c (List.mem_append_right _ hc)), Command.fires?]
  split <;> simp

/-- A timer started, an alarm that waits for half a second, one without a timeout, one in the past
and one that panics; then the service is stopped. -/
def busyDay : List Command :=
  [.schedule ⟨"early", none⟩ 10 1 5, .start, .schedule ⟨"half", none⟩ 500000000 1 0,
    .schedule ⟨"never", none⟩ 7 0 0, .schedule ⟨"past", some .other⟩ 3 1 3, .setClock 2,
    .advance 499, .shutdown]

/-- When the service is started again, an alarm that is scheduled then fires at the second command,
when the clock has gone back once, and the ones that the shutdown dropped do not fire. -/
theorem alarms_fire_once_busyDay :
    let r := (opening "timers" (.startingAt 1) (.shown "default")).after
    let later : List Command := [.setClock 0, .advance 600, .shutdown]
    (Fallback.shown "default").Quiet ∧
    (fired (r busyDay).events).Perm ["past"] ∧
    ((r busyDay).schedule ⟨"late", none⟩ 600000000 1 4).1 = .error (.schedulerStopped "timers") ∧
    ((r (busyDay ++ [.start])).schedule ⟨"late", none⟩ 600000000 1 4).1 = .ok true ∧
    (∀ c ∈ busyDay ++ [.start] ++ later, c.label? ≠ some "late") ∧
    (fired (((r (busyDay ++ [.start])).schedule ⟨"late", none⟩ 600000000 1 4).2.catchUp.after
      later).events).count "late" = 1 := by
  intro r later
  have quiet : (Fallback.shown "default").Quiet := Fallback.quiet_shown _
  have hfresh : ∀ c ∈ busyDay ++ [.start] ++ later, c.label? ≠ some "late" := by decide
  obtain ⟨hfired, hstop⟩ :=
    alarms_fire_once "timers" (.startingAt 1) (.shown "default") quiet busyDay
  obtain ⟨-, hstopped, -⟩ := hstop ⟨"late", none⟩ 600000000 1 4
  obtain ⟨-, hcall⟩ :=
    alarms_fire_once "timers" (.startingAt 1) (.shown "default") quiet (busyDay ++ [.start])
  obtain ⟨hfalse, hrefused, hall, -, -, hlate⟩ := hcall ⟨"late", none⟩ 600000000 1 4
  refine ⟨quiet, hfired.trans (.of_eq (by decide)), hstopped.mpr (by decide), ?_, hfresh, ?_⟩
  · rcases hall with h | h | h
    · exact h
    · exact absurd (hfalse.mp h) (by decide)
    · exact absurd (hrefused.mp h) (by decide)
  · exact (hlate later hfresh).trans (by decide)

end AlarmBoard

end Turnstile
