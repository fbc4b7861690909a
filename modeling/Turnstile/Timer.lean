import Turnstile.Note
import Turnstile.Task

/-!
# Timer services

Tasks wait in a queue for their deadlines, the earliest first and equal
deadlines in the order of scheduling. A thread of the service looks at the
clock at times of its own choosing: the tasks whose deadline has passed leave
the queue and are fired one after the other. Moving the clock fires nothing.
Stopping the service forgets all that waits. A task whose deadline has passed
when it is scheduled does not enter the queue but expires at once, even on a
stopped service.
-/

namespace Turnstile

structure TimerEntry (α : Type) where
  deadline : Nat
  /-- The number of the scheduling. -/
  seq : Nat
  task : α

namespace TimerEntry

variable {α : Type}

def before (a b : TimerEntry α) : Bool :=
  a.deadline < b.deadline || (a.deadline = b.deadline && a.seq < b.seq)

/-- Puts an entry behind all that come before it. -/
def insert (e : TimerEntry α) : List (TimerEntry α) → List (TimerEntry α)
  | [] => [e]
  | x :: rest => if e.before x then e :: x :: rest else x :: insert e rest

theorem mem_insert {e x : TimerEntry α} {queue : List (TimerEntry α)}
    (he : e ∈ insert x queue) : e = x ∨ e ∈ queue := by
  induction queue with
  | nil => simpa [insert] using he
  | cons y queue ih =>
    unfold insert at he
    split at he
    · simpa using he
    · rcases List.mem_cons.mp he with he | he
      · exact .inr (by simp [he])
      · rcases ih he with he | he
        · exact .inl he
        · exact .inr (List.mem_cons_of_mem _ he)

end TimerEntry

structure TimerService (α : Type) where
  name : String
  /-- Whether there is a thread that takes tasks. -/
  running : Bool := false
  /-- Whether the thread has died of a panic; nobody has waited for its end yet. -/
  crashed : Bool := false
  nextSeq : Nat := 0
  /-- The waiting tasks in the order in which they expire. -/
  queue : List (TimerEntry α) := []
  /-- The tasks that the last looks at the clock found expired; they are fired next. -/
  due : List (TimerEntry α) := []

/-- What scheduling a task came to. -/
inductive Scheduling where
  /-- The task has no timeout. -/
  | unneeded
  /-- The deadline has passed. -/
  | expired
  | queued
  /-- The service is not running. -/
  | stopped
  deriving DecidableEq, Repr

namespace TimerService

variable {α : Type}

/-- Whether the service was started and not shut down since. -/
def isRunning (s : TimerService α) : Bool := s.running || s.crashed

/-- All the tasks that were scheduled for later and did not expire yet. -/
def waiting (s : TimerService α) : List (TimerEntry α) := s.due ++ s.queue

def start (s : TimerService α) : TimerService α :=
  if s.isRunning then s else { s with running := true }

def startNotes (s : TimerService α) : List Note :=
  if s.isRunning then [] else [.timerStarted s.name]

def shutdown (s : TimerService α) : TimerService α :=
  { s with running := false, crashed := false, queue := [], due := [] }

def shutdownNotes (s : TimerService α) : List Note :=
  if s.crashed then [.timerPanicked s.name, .timerStopped s.name]
  else if s.running then [.timerStopped s.name] else []

/-- Schedules a task that may run for `relative` milliseconds, until `deadline`. -/
def schedule (s : TimerService α) (task : α) (deadline relative now : Nat) :
    Scheduling × TimerService α :=
  if relative = noTimeout then (.unneeded, s)
  else if deadline ≤ now then (.expired, s)
  else
    let s' := { s with nextSeq := s.nextSeq + 1 }
    if s.running then
      (.queued, { s' with queue := TimerEntry.insert ⟨deadline, s.nextSeq, task⟩ s.queue })
    else (.stopped, s')

/-- The thread looks at the clock: what has expired by `now` leaves the queue. -/
def look (s : TimerService α) (now : Nat) : TimerService α :=
  { s with
    queue := s.queue.dropWhile fun e => e.deadline ≤ now
    due := s.due ++ s.queue.takeWhile fun e => e.deadline ≤ now }

/-- The thread takes the expired task at a position. -/
def take (s : TimerService α) (position : Nat) : TimerService α :=
  { s with due := s.due.eraseIdx position }

/-- The thread dies of a panic, and with it all that waits. -/
def crash (s : TimerService α) : TimerService α :=
  { s with running := false, crashed := true, queue := [], due := [] }

def inspect (s : TimerService α) : String :=
  Text.record "TimeoutService"
    [("name", Text.quoted s.name), ("running", Text.truth s.isRunning)]

/-- Everything that scheduling a task can come to. -/
theorem schedule_cases (s : TimerService α) (task : α) (deadline relative now : Nat) :
    (relative = noTimeout ∧ s.schedule task deadline relative now = (.unneeded, s)) ∨
    (relative ≠ noTimeout ∧ deadline ≤ now ∧
      s.schedule task deadline relative now = (.expired, s)) ∨
    (relative ≠ noTimeout ∧ now < deadline ∧ s.running = true ∧
      s.schedule task deadline relative now =
        (.queued, { s with
          nextSeq := s.nextSeq + 1
          queue := TimerEntry.insert ⟨deadline, s.nextSeq, task⟩ s.queue })) ∨
    (relative ≠ noTimeout ∧ now < deadline ∧ s.running = false ∧
      s.schedule task deadline relative now = (.stopped, { s with nextSeq := s.nextSeq + 1 })) := by
  by_cases hrelative : relative = noTimeout
  · simp [schedule, hrelative]
  · by_cases hdeadline : deadline ≤ now
    · simp [schedule, hrelative, hdeadline]
    · have hlater : now < deadline := by omega
      cases hrunning : s.running <;> simp [schedule, hrelative, hdeadline, hlater, hrunning]

@[simp] theorem waiting_look (s : TimerService α) (now : Nat) :
    (s.look now).waiting = s.waiting := by
  simp [waiting, look]

theorem waiting_take (s : TimerService α) (position : Nat) :
    (s.take position).waiting.Sublist s.waiting :=
  (List.eraseIdx_sublist _ _).append_right _

@[simp] theorem waiting_start (s : TimerService α) : s.start.waiting = s.waiting := by
  unfold start
  split <;> rfl

variable {s s' : TimerService α} {task : α} {deadline relative now : Nat}

/-- Scheduling a task adds no other. -/
theorem mem_schedule {scheduling : Scheduling}
    (h : s.schedule task deadline relative now = (scheduling, s')) {e : TimerEntry α}
    (he : e ∈ s'.waiting) : e ∈ s.waiting ∨ e.task = task := by
  rcases s.schedule_cases task deadline relative now with
    ⟨-, hs⟩ | ⟨-, -, hs⟩ | ⟨-, -, -, hs⟩ | ⟨-, -, -, hs⟩
  all_goals
    rw [hs] at h
    cases h
  · exact .inl he
  · exact .inl he
  · rcases List.mem_append.mp he with he | he
    · exact .inl (List.mem_append_left _ he)
    · rcases TimerEntry.mem_insert he with he | he
      · exact .inr (by rw [he])
      · exact .inl (List.mem_append_right _ he)
  · exact .inl he

/-- A stopped service keeps no task. -/
theorem schedule_stopped (h : s.schedule task deadline relative now = (.stopped, s')) :
    s' = { s with nextSeq := s.nextSeq + 1 } := by
  rcases s.schedule_cases task deadline relative now with
    ⟨-, hs⟩ | ⟨-, -, hs⟩ | ⟨-, -, -, hs⟩ | ⟨-, -, -, hs⟩
  all_goals
    rw [hs] at h
    cases h
  rfl

end TimerService

end Turnstile
