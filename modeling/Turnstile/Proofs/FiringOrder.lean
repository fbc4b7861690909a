import Mathlib.Data.List.Induction
import Mathlib.Logic.Function.Basic
import Turnstile.Proofs.AlarmRun

/-!
# The order in which alarms fire

When the clock is moved, the alarms that are due fire in the order of their deadlines, and those
with one deadline in the order in which they were scheduled. Which alarms wait, and since which
command, is said here by the commands alone. The service goes by numbers instead. It draws one for
each call with a later deadline, also for those it refuses because it is stopped, and never goes
back, so that the numbers rise with the commands.
-/

namespace Turnstile

namespace TimerEntry

variable {α : Type} {queue : List (TimerEntry α)}

/-- What is due stands in front. -/
theorem Ordered.takeWhile_due (h : Ordered queue) (now : Nat) :
    queue.takeWhile (fun e => e.deadline ≤ now) = queue.filter fun e => e.deadline ≤ now := by
  induction queue with
  | nil => rfl
  | cons x queue ih =>
    obtain ⟨hx, hq⟩ := List.pairwise_cons.mp h
    by_cases hdue : x.deadline ≤ now
    · simp [hdue, ih hq]
    · have hlater : ∀ e ∈ queue, ¬ e.deadline ≤ now := by
        intro e he
        have := hx e he
        rw [before_eq_false_iff] at this
        omega
      simp only [List.takeWhile_cons, List.filter_cons, hdue, decide_false, Bool.false_eq_true,
        if_false]
      exact (List.filter_eq_nil_iff.mpr (by simpa using hlater)).symm

theorem Ordered.dropWhile_due (h : Ordered queue) (now : Nat) :
    queue.dropWhile (fun e => e.deadline ≤ now) = queue.filter fun e => now < e.deadline := by
  induction queue with
  | nil => rfl
  | cons x queue ih =>
    obtain ⟨hx, hq⟩ := List.pairwise_cons.mp h
    by_cases hdue : x.deadline ≤ now
    · simp [hdue, ih hq]
    · have hlater : ∀ e ∈ x :: queue, now < e.deadline := by
        intro e he
        rcases List.mem_cons.mp he with rfl | he
        · omega
        · have := hx e he
          rw [before_eq_false_iff] at this
          omega
      rw [List.filter_eq_self.mpr (by simpa using hlater)]
      simp [hdue]

end TimerEntry

namespace AlarmBoard

/-- An alarm that waits, with the number of the command that scheduled it. -/
structure Appointment where
  deadline : Nat
  turn : Nat
  alarm : Alarm

/-- Sooner, or as soon and scheduled before. -/
def Appointment.Before (x y : Appointment) : Prop :=
  x.deadline < y.deadline ∨ x.deadline = y.deadline ∧ x.turn < y.turn

/-- In the course of the commands the service is not shut down, and at no time does the clock show
the deadline. -/
def Outlasts (deadline : Nat) (clock : Clock) (commands : List Command) : Prop :=
  (∀ c ∈ commands, c ≠ .shutdown) ∧ ¬ Reaches deadline clock commands

instance (deadline : Nat) (clock : Clock) (commands : List Command) :
    Decidable (Outlasts deadline clock commands) := inferInstanceAs (Decidable (_ ∧ _))

/-- What still waits of a command after all the commands behind it. -/
def Command.appointment? (clock : Clock) (running : Bool) (turn : Nat) (later : List Command) :
    Command → Option Appointment
  | .schedule a deadline relative now =>
    if relative ≠ noTimeout ∧ now < deadline ∧ running = true ∧ Outlasts deadline clock later then
      some ⟨deadline, turn, a⟩
    else none
  | .start | .shutdown | .setClock _ | .advance _ => none

/-- The alarms that wait after a run of commands, in the order in which they were scheduled. The
first of the commands has number `turn`. -/
def appointments (clock : Clock) (running : Bool) (turn : Nat) : List Command → List Appointment
  | [] => []
  | c :: commands =>
    (c.appointment? clock running turn commands).toList ++
      appointments (c.turn clock) (c.switch running) (turn + 1) commands

theorem outlasts_nil {deadline : Nat} {clock : Clock} :
    Outlasts deadline clock [] ↔ clock.now < deadline := by
  simp [Outlasts, reaches_nil]

theorem outlasts_snoc {deadline : Nat} {clock : Clock} {commands : List Command} {c : Command} :
    Outlasts deadline clock (commands ++ [c]) ↔ Outlasts deadline clock commands ∧
      c ≠ .shutdown ∧ (c.turn (commands.foldl Command.turn clock)).now < deadline := by
  have hend : (commands ++ [c]).foldl Command.turn clock =
      c.turn (commands.foldl Command.turn clock) := by simp
  rw [← hend]
  constructor
  · rintro ⟨hshut, hreach⟩
    have hnot : Command.shutdown ∉ commands ++ [c] := fun h => hshut _ h rfl
    refine ⟨⟨fun c' hc' => hshut c' (List.mem_append_left _ hc'), ?_⟩, hshut c (by simp), ?_⟩
    · rintro ⟨stretch, hprefix, hmem, hshows⟩
      exact hreach ⟨stretch, hprefix.trans (List.prefix_append _ _), hmem, hshows⟩
    · by_contra hshows
      exact hreach ⟨_, List.prefix_refl _, hnot, Nat.le_of_not_lt hshows⟩
  · rintro ⟨⟨hshut, hreach⟩, hc, hlater⟩
    refine ⟨?_, ?_⟩
    · intro c' hc'
      rcases List.mem_append.mp hc' with hc' | hc'
      · exact hshut c' hc'
      · rwa [List.mem_singleton.mp hc']
    · rintro ⟨stretch, hprefix, hmem, hshows⟩
      rcases List.prefix_concat_iff.mp hprefix with rfl | hprefix
      · omega
      · exact hreach ⟨stretch, hprefix, hmem, hshows⟩

/-- A command at a time does not end the waiting for a deadline. -/
def Command.Keeps (clock : Clock) (c : Command) (x : Appointment) : Prop :=
  c ≠ .shutdown ∧ (c.turn clock).now < x.deadline

instance (clock : Clock) (c : Command) (x : Appointment) : Decidable (c.Keeps clock x) :=
  inferInstanceAs (Decidable (_ ∧ _))

theorem Command.appointment?_snoc (clock : Clock) (running : Bool) (turn : Nat) (c' : Command)
    (commands : List Command) (c : Command) :
    c'.appointment? clock running turn (commands ++ [c]) =
      (c'.appointment? clock running turn commands).filter fun x =>
        c.Keeps (commands.foldl Command.turn (c'.turn clock)) x := by
  cases c' with
  | schedule a deadline relative now =>
    show _ = Option.filter (fun x => c.Keeps (commands.foldl Command.turn clock) x) _
    simp only [appointment?, outlasts_snoc]
    by_cases hwaits : relative ≠ noTimeout ∧ now < deadline ∧ running = true ∧
      Outlasts deadline clock commands
    · rw [if_pos hwaits, Option.filter_some]
      obtain ⟨hr, hd, hrun, hlasts⟩ := hwaits
      by_cases hkeeps : c.Keeps (commands.foldl Command.turn clock) ⟨deadline, turn, a⟩
      · rw [if_pos ⟨hr, hd, hrun, hlasts, hkeeps⟩, if_pos (decide_eq_true hkeeps)]
      · rw [if_neg fun h => hkeeps h.2.2.2.2, if_neg (by simpa using hkeeps)]
    · rw [if_neg hwaits, if_neg fun h => hwaits ⟨h.1, h.2.1, h.2.2.1, h.2.2.2.1⟩]
      rfl
  | _ => rfl

theorem Command.turn_appointment? {c : Command} {clock : Clock} {running : Bool} {turn : Nat}
    {later : List Command} {x : Appointment}
    (h : c.appointment? clock running turn later = some x) : x.turn = turn := by
  cases c with
  | schedule a deadline relative now =>
    rw [appointment?, Option.ite_none_right_eq_some] at h
    obtain ⟨-, h⟩ := h
    cases h
    rfl
  | _ => cases h

/-- One more command keeps some of the appointments and may add one of its own. -/
theorem appointments_snoc (clock : Clock) (running : Bool) (turn : Nat) (commands : List Command)
    (c : Command) :
    appointments clock running turn (commands ++ [c]) =
      (appointments clock running turn commands).filter
        (fun x => c.Keeps (commands.foldl Command.turn clock) x) ++
        (c.appointment? (commands.foldl Command.turn clock)
          (commands.foldl Command.switch running) (turn + commands.length) []).toList := by
  induction commands generalizing clock running turn with
  | nil => simp [appointments]
  | cons c' commands ih =>
    rw [List.cons_append, appointments, appointments, ih, c'.appointment?_snoc,
      Option.toList_filter, List.filter_append, List.append_assoc, List.length_cons, Nat.add_assoc,
      Nat.add_comm 1]
    rfl

theorem turn_appointments {clock : Clock} {running : Bool} {turn : Nat} {commands : List Command}
    {x : Appointment} (hx : x ∈ appointments clock running turn commands) : turn ≤ x.turn := by
  induction commands generalizing clock running turn with
  | nil => cases hx
  | cons c commands ih =>
    rcases List.mem_append.mp hx with hx | hx
    · rw [Command.turn_appointment? (Option.mem_toList.mp hx)]
    · exact Nat.le_of_succ_le (ih hx)

/-- The order of scheduling is that of the turns. -/
theorem pairwise_appointments (clock : Clock) (running : Bool) (turn : Nat)
    (commands : List Command) :
    (appointments clock running turn commands).Pairwise fun x y => x.turn < y.turn := by
  induction commands generalizing clock running turn with
  | nil => exact .nil
  | cons c commands ih =>
    cases hc : c.appointment? clock running turn commands with
    | none => simpa [appointments, hc] using ih _ _ _
    | some x =>
      simp only [appointments, hc, Option.toList_some, List.singleton_append, List.pairwise_cons]
      refine ⟨fun y hy => ?_, ih _ _ _⟩
      rw [Command.turn_appointment? hc]
      exact turn_appointments hy

/-- An entry of the queue, with the command that drew its number. -/
def booked (turnOf : Nat → Nat) (e : TimerEntry Alarm) : Appointment :=
  ⟨e.deadline, turnOf e.seq, e.task⟩

/-- A service that keeps `waiting` after `turns` commands. `turnOf` says which command drew a
number. -/
structure Books (s : TimerService Alarm) (turns : Nat) (waiting : List Appointment)
    (turnOf : Nat → Nat) : Prop where
  ordered : TimerEntry.Ordered s.queue
  drawn : ∀ e ∈ s.queue, e.seq < s.nextSeq
  apart : (s.queue.map TimerEntry.seq).Nodup
  rises : ∀ i j, i < j → j < s.nextSeq → turnOf i < turnOf j
  past : ∀ i < s.nextSeq, turnOf i < turns
  queued : (s.queue.map (booked turnOf)).Perm waiting

namespace Books

variable {s : TimerService Alarm} {turns : Nat} {waiting : List Appointment} {turnOf : Nat → Nat}

theorem later (h : Books s turns waiting turnOf) : Books s (turns + 1) waiting turnOf :=
  ⟨h.ordered, h.drawn, h.apart, h.rises, fun i hi => Nat.lt_succ_of_lt (h.past i hi), h.queued⟩

/-- A command draws a number, which is larger than all before. -/
theorem draw (h : Books s turns waiting turnOf) :
    Books { s with nextSeq := s.nextSeq + 1 } (turns + 1) waiting
      (Function.update turnOf s.nextSeq turns) where
  ordered := h.ordered
  drawn := fun e he => Nat.lt_succ_of_lt (h.drawn e he)
  apart := h.apart
  rises := by
    intro i j hij hj
    rcases Nat.lt_or_eq_of_le (Nat.le_of_lt_succ hj) with hj | rfl
    · rw [Function.update_of_ne (by omega), Function.update_of_ne (by omega)]
      exact h.rises i j hij hj
    · rw [Function.update_self, Function.update_of_ne (by omega)]
      exact h.past i hij
  past := by
    intro i hi
    rcases Nat.lt_or_eq_of_le (Nat.le_of_lt_succ hi) with hi | rfl
    · rw [Function.update_of_ne (by omega)]
      exact Nat.lt_succ_of_lt (h.past i hi)
    · rw [Function.update_self]
      exact Nat.lt_succ_self turns
  queued := by
    refine .trans (.of_eq (List.map_congr_left fun e he => ?_)) h.queued
    rw [booked, booked, Function.update_of_ne (Nat.ne_of_lt (h.drawn e he))]

/-- An alarm enters the queue under the number that its command draws. -/
theorem insert (h : Books s turns waiting turnOf) (deadline : Nat) (a : Alarm) :
    Books { s with
        nextSeq := s.nextSeq + 1
        queue := TimerEntry.insert ⟨deadline, s.nextSeq, a⟩ s.queue }
      (turns + 1) (waiting ++ [⟨deadline, turns, a⟩])
      (Function.update turnOf s.nextSeq turns) where
  ordered := h.ordered.insert _
  drawn := by
    intro e he
    rcases TimerEntry.mem_insert he with rfl | he
    · exact Nat.lt_succ_self s.nextSeq
    · exact Nat.lt_succ_of_lt (h.drawn e he)
  apart := by
    rw [((TimerEntry.insert_perm _ s.queue).map TimerEntry.seq).nodup_iff, List.map_cons,
      List.nodup_cons]
    refine ⟨fun hmem => ?_, h.apart⟩
    obtain ⟨e, he, hseq⟩ := List.mem_map.mp hmem
    exact Nat.ne_of_lt (h.drawn e he) hseq
  rises := h.draw.rises
  past := h.draw.past
  queued := by
    have hnew : booked (Function.update turnOf s.nextSeq turns) ⟨deadline, s.nextSeq, a⟩ =
        ⟨deadline, turns, a⟩ := by rw [booked, Function.update_self]
    refine ((TimerEntry.insert_perm _ s.queue).map _).trans ?_
    rw [List.map_cons, hnew]
    exact (h.draw.queued.cons _).trans (List.perm_append_singleton _ _).symm

/-- What is due leaves the queue. -/
theorem look (h : Books s turns waiting turnOf) (now : Nat) :
    Books { s.look now with due := [] } turns (waiting.filter fun x => now < x.deadline)
      turnOf where
  ordered := List.Pairwise.sublist (List.dropWhile_sublist _) h.ordered
  drawn := fun e he => h.drawn e ((List.dropWhile_sublist _).subset he)
  apart := h.apart.sublist ((List.dropWhile_sublist _).map _)
  rises := h.rises
  past := h.past
  queued := by
    have hleft := h.queued.filter fun x => decide (now < x.deadline)
    rw [List.filter_map] at hleft
    simp only [TimerService.look, h.ordered.dropWhile_due]
    exact hleft

/-- A thread that dies leaves nothing behind but the numbers. -/
theorem crash (h : Books s turns waiting turnOf) : Books s.crash turns [] turnOf :=
  ⟨.nil, by simp [TimerService.crash], .nil, h.rises, h.past, .nil⟩

theorem shutdown (h : Books s turns waiting turnOf) : Books s.shutdown turns [] turnOf :=
  ⟨.nil, by simp [TimerService.shutdown], .nil, h.rises, h.past, .nil⟩

/-- The queue stands in the order of the appointments. -/
theorem pairwise_booked (h : Books s turns waiting turnOf) :
    (s.queue.map (booked turnOf)).Pairwise Appointment.Before := by
  have hne : s.queue.Pairwise fun a b => a.seq ≠ b.seq := List.pairwise_map.mp h.apart
  refine List.pairwise_map.mpr ((h.ordered.and hne).imp_of_mem ?_)
  rintro a b - hb ⟨hab, hseq⟩
  rcases TimerEntry.before_eq_false_iff.mp hab with hlt | ⟨heq, hle⟩
  · exact .inl hlt
  · exact .inr ⟨heq, h.rises a.seq b.seq (by omega) (h.drawn b hb)⟩

end Books

/-- The appointments when a command is done, before the thread of the service has caught up. -/
def Command.agenda (running : Bool) (turn : Nat) (waiting : List Appointment) :
    Command → List Appointment
  | .schedule a deadline relative now =>
    waiting ++ if relative ≠ noTimeout ∧ now < deadline ∧ running = true then
      [⟨deadline, turn, a⟩] else []
  | .shutdown => []
  | .start | .setClock _ | .advance _ => waiting

theorem Books.perform {b : AlarmBoard} {turns : Nat} {waiting : List Appointment}
    {turnOf : Nat → Nat} (h : Books b.service turns waiting turnOf) (c : Command) :
    ∃ turnOf', Books (b.perform c).service (turns + 1)
      (c.agenda b.service.running turns waiting) turnOf' := by
  cases c with
  | start =>
    refine ⟨turnOf, ?_⟩
    rw [AlarmBoard.perform, AlarmBoard.start, TimerService.start]
    split
    · exact h.later
    · exact ⟨h.ordered, h.drawn, h.apart, h.rises, h.later.past, h.queued⟩
  | shutdown => exact ⟨turnOf, h.later.shutdown⟩
  | setClock nanos => exact ⟨turnOf, h.later⟩
  | advance millis =>
    rw [AlarmBoard.perform, AlarmBoard.advance]
    exact ⟨turnOf, h.later⟩
  | schedule a deadline relative now =>
    rw [AlarmBoard.perform, Command.agenda]
    rcases b.schedule_cases a deadline relative now with
      ⟨hr, hs⟩ | ⟨hr, hd, hs⟩ | ⟨hr, hd, hrun, hs⟩ | ⟨hr, hd, hrun, hs⟩
    all_goals rw [hs]
    · rw [if_neg fun hw => hw.1 hr, List.append_nil]
      exact ⟨turnOf, h.later⟩
    · rw [if_neg fun hw => Nat.not_lt_of_le hd hw.2.1, List.append_nil]
      exact ⟨turnOf, h.later⟩
    · rw [if_pos ⟨hr, hd, hrun⟩]
      exact ⟨_, h.insert deadline a⟩
    · rw [if_neg fun hw => by simp [hrun] at hw, List.append_nil]
      exact ⟨_, h.draw⟩

theorem Books.catchUp {b : AlarmBoard} {turns : Nat} {waiting : List Appointment}
    {turnOf : Nat → Nat} (h : Books b.service turns waiting turnOf) (idle : b.service.due = []) :
    Books b.catchUp.service turns
      (if b.due.any (fun e => escapes b.fallback e.task) then []
        else waiting.filter fun x => b.clock.now < x.deadline) turnOf := by
  rw [catchUp_eq idle]
  dsimp only
  split
  · exact h.crash
  · exact h.look b.clock.now

/-- While the thread of the service lives, it keeps what the commands say. -/
theorem agenda_filter (c : Command) (clock : Clock) (running : Bool) (turn : Nat)
    {waiting : List Appointment} (later : ∀ x ∈ waiting, clock.now < x.deadline) :
    ((c.agenda running turn waiting).filter fun x => (c.turn clock).now < x.deadline) =
      waiting.filter (fun x => c.Keeps clock x) ++
        (c.appointment? clock running turn []).toList := by
  have hstays : c ≠ .shutdown → (waiting.filter fun x => c.Keeps clock x) =
      waiting.filter fun x => (c.turn clock).now < x.deadline := fun hc =>
    List.filter_congr fun x _ => by simp [Command.Keeps, hc]
  have hstill : (waiting.filter fun x => clock.now < x.deadline) = waiting :=
    List.filter_eq_self.mpr fun x hx => decide_eq_true (later x hx)
  cases c with
  | schedule a deadline relative now =>
    rw [hstays (by simp), Command.agenda, Command.turn, List.filter_append, hstill]
    simp only [Command.appointment?, outlasts_nil]
    by_cases hwaits : relative ≠ noTimeout ∧ now < deadline ∧ running = true
    · by_cases hclock : clock.now < deadline
      · rw [if_pos hwaits, if_pos ⟨hwaits.1, hwaits.2.1, hwaits.2.2, hclock⟩]
        simp [hclock]
      · rw [if_pos hwaits, if_neg fun h => hclock h.2.2.2]
        simp [hclock]
    · rw [if_neg hwaits, if_neg fun h => hwaits ⟨h.1, h.2.1, h.2.2.1⟩]
      rfl
  | shutdown =>
    have hnone : waiting.filter (fun x => Command.shutdown.Keeps clock x) = [] :=
      List.filter_eq_nil_iff.mpr fun x _ hx => (of_decide_eq_true hx).1 rfl
    rw [hnone]
    rfl
  | start => rw [hstays (by simp), Command.appointment?, Option.toList_none, List.append_nil]; rfl
  | setClock nanos =>
    rw [hstays (by simp), Command.appointment?, Option.toList_none, List.append_nil]; rfl
  | advance millis =>
    rw [hstays (by simp), Command.appointment?, Option.toList_none, List.append_nil]; rfl

/-- What a board keeps for later after a run of commands: what the commands say, or nothing if the
thread of the service has died. -/
structure Kept (clock : Clock) (past : List Command) (b : AlarmBoard) : Prop where
  calm : b.Calm
  turned : b.clock = past.foldl Command.turn clock
  switched : b.service.isRunning = past.foldl Command.switch false
  books : ∃ turnOf, Books b.service past.length
    (if b.service.crashed then [] else appointments clock false 0 past) turnOf

theorem kept_opening (name : String) (clock : Clock) (fallback : Fallback) :
    Kept clock [] (opening name clock fallback) :=
  ⟨calm_opening name clock fallback, rfl, rfl, id, .nil, by simp [opening], .nil,
    fun _ _ hij _ => hij, fun i hi => absurd hi i.not_lt_zero, .nil⟩

theorem Kept.step {clock : Clock} {past : List Command} {b : AlarmBoard} (h : Kept clock past b)
    (c : Command) : Kept clock (past ++ [c]) (b.step c) := by
  obtain ⟨hclock, hswitch, -, -⟩ := step_outline h.calm c
  refine ⟨h.calm.step c, by simp [hclock, h.turned], by simp [hswitch, h.switched], ?_⟩
  obtain ⟨turnOf, hbooks⟩ := h.books
  obtain ⟨turnOf', hperform⟩ := hbooks.perform c
  have hidle := (Tidy.perform h.calm.toTidy c).idle
  have hcatch := hperform.catchUp hidle
  obtain ⟨hturn, -, -, -⟩ := b.perform_outline c
  refine ⟨turnOf', ?_⟩
  rw [AlarmBoard.step, crashed_catchUp hidle, List.length_append, List.length_singleton]
  cases hdies : (b.perform c).due.any fun e => escapes (b.perform c).fallback e.task with
  | true =>
    rw [hdies] at hcatch
    exact hcatch
  | false =>
    rw [hdies, if_neg Bool.false_ne_true, hturn] at hcatch
    rw [Bool.false_or, appointments_snoc, Nat.zero_add, ← h.turned, ← h.switched]
    cases hdead : b.service.crashed with
    | false =>
      have hlives : (b.perform c).service.crashed = false := by
        by_cases hc : c = .shutdown
        · rw [hc]
          rfl
        · rw [crashed_perform b hc, hdead]
      rw [hdead, if_neg Bool.false_ne_true] at hcatch hbooks
      have hlater : ∀ x ∈ appointments clock false 0 past, b.clock.now < x.deadline := by
        intro x hx
        obtain ⟨e, he, rfl⟩ := List.mem_map.mp (hbooks.queued.mem_iff.mpr hx)
        exact h.calm.later e he
      rw [agenda_filter c b.clock _ _ hlater] at hcatch
      rw [hlives, if_neg Bool.false_ne_true, TimerService.isRunning, hdead, Bool.or_false]
      exact hcatch
    | true =>
      -- a dead thread takes nothing
      have hnothing : c.agenda b.service.running past.length [] = [] := by
        cases c <;> simp [Command.agenda, h.calm.dead hdead]
      rw [hdead, if_pos rfl, hnothing] at hcatch
      by_cases hc : c = .shutdown
      · subst hc
        have hnone : (appointments clock false 0 past).filter
            (fun x => Command.shutdown.Keeps b.clock x) = [] :=
          List.filter_eq_nil_iff.mpr fun x _ hx => (of_decide_eq_true hx).1 rfl
        rw [hnone]
        split <;> exact hcatch
      · rw [crashed_perform b hc, hdead, if_pos rfl]
        exact hcatch

/-- A run of commands keeps what the commands say, as long as the thread of the service lives. -/
theorem kept_after (name : String) (clock : Clock) (fallback : Fallback) (past : List Command) :
    Kept clock past ((opening name clock fallback).after past) := by
  induction past using List.reverseRecOn with
  | nil => exact kept_opening name clock fallback
  | append_singleton past c ih =>
    have hafter : (opening name clock fallback).after (past ++ [c]) =
        ((opening name clock fallback).after past).step c := by simp [after]
    rw [hafter]
    exact ih.step c

/-- What the firing of an appointment shows. -/
def Appointment.events (fallback : Fallback) (x : Appointment) : List (Event Status) :=
  .fired x.alarm.label :: x.alarm.panic.elim [] fun p => fallback.events .timeout p

/-- What a service notes when it fires an appointment. -/
def Appointment.notes (fallback : Fallback) (service : String) (x : Appointment) : List Note :=
  .timerFired service x.deadline :: x.alarm.panic.elim [] fun p => fallback.notes .timeout p

theorem events_booked (b : AlarmBoard) (turnOf : Nat → Nat) (l : List (TimerEntry Alarm)) :
    (l.flatMap fun e => (b.firing e).events) =
      (l.map (booked turnOf)).flatMap (·.events b.fallback) := by
  rw [List.flatMap_map]
  rfl

theorem notes_booked (b : AlarmBoard) (turnOf : Nat → Nat) (l : List (TimerEntry Alarm)) :
    (l.flatMap fun e => (b.firing e).notes) =
      (l.map (booked turnOf)).flatMap (·.notes b.fallback b.service.name) := by
  rw [List.flatMap_map]
  rfl

/-- All that the thread of the service does when it catches up: what is due leaves the queue and
fires in its order, up to the first alarm of which the handler panics. -/
theorem Books.catchUp_fires {b : AlarmBoard} {turns : Nat} {waiting : List Appointment}
    {turnOf : Nat → Nat} (h : Books b.service turns waiting turnOf) (idle : b.service.due = []) :
    ∃ due rest : List Appointment,
      due.Perm (waiting.filter fun x => x.deadline ≤ b.clock.now) ∧
      rest.Perm (waiting.filter fun x => b.clock.now < x.deadline) ∧
      (due ++ rest).Pairwise Appointment.Before ∧
      b.service.queue.map (fun e => (e.deadline, e.task)) =
        (due ++ rest).map (fun x => (x.deadline, x.alarm)) ∧
      ((∀ x ∈ due, escapes b.fallback x.alarm = false) →
        b.catchUp.events = b.events ++ due.flatMap (·.events b.fallback) ∧
        b.catchUp.timerNotes = b.timerNotes ++ due.flatMap (·.notes b.fallback b.service.name) ∧
        b.catchUp.service.crashed = b.service.crashed ∧
        b.catchUp.service.queue.map (fun e => (e.deadline, e.task)) =
          rest.map (fun x => (x.deadline, x.alarm))) ∧
      ∀ before x behind, due = before ++ x :: behind →
        (∀ y ∈ before, escapes b.fallback y.alarm = false) → escapes b.fallback x.alarm = true →
        b.catchUp.events = b.events ++ (before ++ [x]).flatMap (·.events b.fallback) ∧
        b.catchUp.timerNotes =
          b.timerNotes ++ (before ++ [x]).flatMap (·.notes b.fallback b.service.name) ∧
        b.catchUp.service.crashed = true ∧ b.catchUp.service.waiting = [] := by
  let later := b.service.queue.dropWhile fun e => e.deadline ≤ b.clock.now
  have hsplit : b.due.map (booked turnOf) ++ later.map (booked turnOf) =
      b.service.queue.map (booked turnOf) := by
    rw [← List.map_append]
    exact congrArg _ List.takeWhile_append_dropWhile
  refine ⟨b.due.map (booked turnOf), later.map (booked turnOf), ?_, ?_, ?_, ?_, ?_, ?_⟩
  · have hdue := h.queued.filter fun x => decide (x.deadline ≤ b.clock.now)
    rw [List.filter_map] at hdue
    rw [due, h.ordered.takeWhile_due]
    exact hdue
  · have hrest := h.queued.filter fun x => decide (b.clock.now < x.deadline)
    rw [List.filter_map] at hrest
    simp only [later, h.ordered.dropWhile_due]
    exact hrest
  · rw [hsplit]
    exact h.pairwise_booked
  · rw [hsplit, List.map_map]
    rfl
  · intro hquiet
    rw [catchUp_quiet idle fun e he => hquiet _ (List.mem_map_of_mem he), b.events_booked turnOf,
      b.notes_booked turnOf]
    refine ⟨rfl, rfl, rfl, ?_⟩
    rw [List.map_map]
    rfl
  · intro before x behind hdue hquiet hloud
    obtain ⟨before', tail, hb, rfl, htail⟩ := List.map_eq_append_iff.mp hdue
    obtain ⟨e, behind', rfl, rfl, rfl⟩ := List.map_eq_cons_iff.mp htail
    rw [catchUp_loud idle hb (fun y hy => hquiet _ (List.mem_map_of_mem hy)) hloud,
      b.events_booked turnOf, b.notes_booked turnOf, List.map_append]
    exact ⟨rfl, rfl, rfl, rfl⟩

/-- When the clock is moved, the alarms that fire are those that wait for a deadline that the
clock shows now, each once, in the order of their deadlines and, for one deadline, of their
scheduling. Each that panics is reported to the fallback handler as a timeout before the next one
fires. The others wait on, and keep their order in the queue and among the appointments. Only if
the handler panics in turn does the thread of the service die of it: then no alarm behind the one
that was reported fires, and the service keeps none. -/
theorem fires_in_order (name : String) (clock : Clock) (fallback : Fallback)
    (past : List Command)
    (alive : ((opening name clock fallback).after past).service.crashed = false) {c : Command}
    (hc : (∃ nanos, c = .setClock nanos) ∨ ∃ millis, c = .advance millis) :
    let r := (opening name clock fallback).after past
    let waiting := appointments clock false 0 past
    let now := (c.turn (past.foldl Command.turn clock)).now
    waiting.Pairwise (fun x y => x.turn < y.turn) ∧
    ∃ due rest : List Appointment,
      due.Perm (waiting.filter fun x => x.deadline ≤ now) ∧
      rest.Perm (waiting.filter fun x => now < x.deadline) ∧
      (due ++ rest).Pairwise Appointment.Before ∧
      r.service.queue.map (fun e => (e.deadline, e.task)) =
        (due ++ rest).map (fun x => (x.deadline, x.alarm)) ∧
      ((∀ x ∈ due, escapes fallback x.alarm = false) →
        (r.step c).events = r.events ++ due.flatMap (·.events fallback) ∧
        (r.step c).timerNotes = r.timerNotes ++ due.flatMap (·.notes fallback name) ∧
        (r.step c).service.crashed = false ∧
        (r.step c).service.queue.map (fun e => (e.deadline, e.task)) =
          rest.map (fun x => (x.deadline, x.alarm)) ∧
        appointments clock false 0 (past ++ [c]) = waiting.filter fun x => now < x.deadline) ∧
      ∀ before x behind, due = before ++ x :: behind →
        (∀ y ∈ before, escapes fallback y.alarm = false) → escapes fallback x.alarm = true →
        (r.step c).events = r.events ++ (before ++ [x]).flatMap (·.events fallback) ∧
        (r.step c).timerNotes = r.timerNotes ++ (before ++ [x]).flatMap (·.notes fallback name) ∧
        (r.step c).service.crashed = true ∧ (r.step c).service.waiting = [] := by
  intro r waiting now
  have kept : Kept clock past r := kept_after name clock fallback past
  obtain ⟨-, -, hname, hfallback⟩ := after_outline (calm_opening name clock fallback) past
  change r.service.name = name at hname
  change r.fallback = fallback at hfallback
  obtain ⟨turnOf, hbooks⟩ := kept.books
  rw [show r.service.crashed = false from alive, if_neg Bool.false_ne_true] at hbooks
  let moved : AlarmBoard := { r with clock := c.turn (past.foldl Command.turn clock) }
  have hstep : r.step c = moved.catchUp := by
    rcases hc with ⟨nanos, rfl⟩ | ⟨millis, rfl⟩
    · rw [step, perform, setClock, kept.turned]
      rfl
    · rw [step, perform, advance, kept.turned]
      rfl
  have hkept : appointments clock false 0 (past ++ [c]) =
      waiting.filter fun x => now < x.deadline := by
    have hadds : (c.appointment? (past.foldl Command.turn clock)
        (past.foldl Command.switch false) (0 + past.length) []).toList = [] := by
      rcases hc with ⟨_, rfl⟩ | ⟨_, rfl⟩ <;> rfl
    have hshut : c ≠ .shutdown := by rcases hc with ⟨_, rfl⟩ | ⟨_, rfl⟩ <;> simp
    rw [appointments_snoc, hadds, List.append_nil]
    exact List.filter_congr fun x _ => by simp [Command.Keeps, hshut, now]
  obtain ⟨due, rest, hdue, hrest, hsorted, hqueue, hcalm, hloud⟩ :=
    Books.catchUp_fires (b := moved) hbooks kept.calm.idle
  rw [← hstep, show moved.fallback = fallback from hfallback,
    show moved.service.name = name from hname] at hcalm hloud
  refine ⟨pairwise_appointments clock false 0 past, due, rest, hdue, hrest, hsorted, hqueue,
    fun hquiet => ?_, hloud⟩
  obtain ⟨hevents, hnotes, hcrashed, hleft⟩ := hcalm hquiet
  exact ⟨hevents, hnotes, hcrashed.trans alive, hleft, hkept⟩

/-- A call that finds the service stopped and one that a restart drops, then equal deadlines with a
panic among them, of which the first are due before the last are scheduled. -/
def crowdedDay : List Command :=
  [.schedule ⟨"refused", none⟩ 50 1 0, .start, .schedule ⟨"dropped", none⟩ 40 1 0, .shutdown,
    .start, .schedule ⟨"noon", some .other⟩ 30 1 0, .schedule ⟨"dawn", none⟩ 10 1 0,
    .schedule ⟨"noon again", none⟩ 30 1 0, .schedule ⟨"morning", some (.text "late")⟩ 20 1 0,
    .setClock 10, .schedule ⟨"morning again", none⟩ 20 1 0, .schedule ⟨"night", none⟩ 90 1 0]

/-- A handler that panics over what it cannot read. -/
def picky : Fallback :=
  .notify "default" fun _ p => if p = .other then some (.text "unreadable") else none

/-- The handler of the first board keeps quiet, that of the second gives up at noon. -/
theorem fires_in_order_crowdedDay :
    let board := fun handler => (opening "timers" (.startingAt 1) handler).after crowdedDay
    let calm := board (.shown "default")
    let harsh := board picky
    calm.service.crashed = false ∧ harsh.service.crashed = false ∧
    (∃ nanos, Command.setClock 30 = .setClock nanos) ∧
    ∃ due rest : List Appointment,
      (due.map Appointment.turn).Perm [5, 7, 8, 10] ∧ (rest.map Appointment.turn).Perm [11] ∧
      (due ++ rest).Pairwise Appointment.Before ∧
      (calm.step (.setClock 30)).events = calm.events ++ due.flatMap (fun x =>
        .fired x.alarm.label :: x.alarm.panic.elim [] fun p =>
          [.fallback "default" .timeout p.message]) ∧
      fired (calm.step (.setClock 30)).events =
        ["dawn", "morning", "morning again", "noon", "noon again"] ∧
      fired (harsh.step (.setClock 30)).events = ["dawn", "morning", "morning again", "noon"] ∧
      (harsh.step (.setClock 30)).service.crashed = true := by
  intro board calm harsh
  have hcalm : calm.service.crashed = false := by decide +kernel
  have hc : ∃ nanos, Command.setClock 30 = .setClock nanos := ⟨30, rfl⟩
  obtain ⟨-, due, rest, hdue, hrest, hsorted, -, hquiet, -⟩ :=
    fires_in_order "timers" (.startingAt 1) (.shown "default") crowdedDay hcalm
      (.inl hc)
  obtain ⟨hevents, -⟩ := hquiet fun x _ => escapes_quiet (Fallback.quiet_shown _) x.alarm
  exact ⟨hcalm, by decide +kernel, hc, due, rest, (hdue.map _).trans (.of_eq (by decide)),
    (hrest.map _).trans (.of_eq (by decide)), hsorted, hevents, by decide +kernel,
    by decide +kernel, by decide +kernel⟩

/-- When the clock is moved, all the alarms that are due fire in their order, whatever panics. -/
def AllDueFire : Prop :=
  ∀ (name : String) (clock : Clock) (fallback : Fallback) (past : List Command) (nanos : Nat),
    let r := (opening name clock fallback).after past
    r.service.crashed = false →
    let now := (clock.set nanos).now
    ∃ due : List Appointment,
      due.Perm ((appointments clock false 0 past).filter fun x => x.deadline ≤ now) ∧
      due.Pairwise Appointment.Before ∧
      (r.step (.setClock nanos)).events = r.events ++ due.flatMap (·.events fallback)

/-- A handler that panics over everything. -/
def alarmed : Fallback := .loud "alarm" (.text "fallback panicked")

/-- A handler that panics itself takes the thread of the service with it, and the alarm that is due
next does not fire. -/
theorem loud_handler_stops_timers : ¬ AllDueFire := by
  intro hall
  let past : List Command :=
    [.start, .schedule ⟨"first", some .other⟩ 10 1 0, .schedule ⟨"second", none⟩ 20 1 0]
  obtain ⟨due, hdue, -, hevents⟩ :=
    hall "timers" (.startingAt 1) alarmed past 30 (by decide +kernel)
  have hfired : ∀ l : List Appointment,
      (fired (l.flatMap (·.events alarmed))).length = l.length := by
    intro l
    induction l with
    | nil => rfl
    | cons x l ih =>
      rw [List.flatMap_cons, fired_append, List.length_append, ih, List.length_cons,
        Nat.add_comm]
      exact congrArg _ (congrArg List.length (fired_fire _ "timers" x.alarm x.deadline))
  have hboth : due.length = 2 := by
    rw [hdue.length_eq]
    decide
  have hone : (fired (((opening "timers" (.startingAt 1) alarmed).after past).step
      (.setClock 30)).events).length = 1 := by
    decide +kernel
  have hnone : fired ((opening "timers" (.startingAt 1) alarmed).after
      past).events = [] := by
    decide +kernel
  rw [hevents, fired_append, hnone, List.nil_append, hfired, hboth] at hone
  cases hone

end AlarmBoard

end Turnstile
