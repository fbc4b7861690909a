import Turnstile.Script.Machine
import Turnstile.Script.Notify

/-!
# Sessions on a promise

What surrounds the scripts of a promise: attempts that begin from outside, waiters that are polled,
and readers that block. A waiter makes a future of the notification and puts it on the list before
it looks for the value; if it looks in vain it awaits the notification, and then begins anew. A
reader looks for the value while it holds the lock, and otherwise sleeps on the condition. When the
value is shown, the readers are woken under the lock, and then the waiters are notified. Each of
these steps is a turn of its own, and the turns come in any order.
-/

namespace Turnstile

namespace Machine

variable {ω : Type}

/-- A panic that nothing caught is handed to whoever began the step. -/
def handUp (m : Machine ω) : Machine ω := if m.stack = [] then { m with raised := none } else m

end Machine

/-- What is done for those that wait, once the value is shown. -/
inductive Bell where
  | lock
  | readers
  | unlock
  | waiters
  deriving DecidableEq, Repr

/-- The readers are woken under the lock, and then the waiters. -/
def Bell.all : List Bell := [lock, readers, unlock, waiters]

/-- Where a waiter is in its loop. -/
inductive Stage where
  | top
  | created
  | enabled
  /-- It has looked in vain. -/
  | checked
  | returned
  deriving DecidableEq, Repr

structure Waiter (ω : Type) where
  stage : Stage := .top
  /-- It is being polled. -/
  polled : Bool := false
  /-- What its polls have answered, oldest first; nothing is told while it has to wait. -/
  answers : List (Option (Settled ω)) := []
  /-- How often its waker was called. -/
  wakes : Nat := 0

namespace Waiter

variable {ω : Type}

def answer (w : Waiter ω) (a : Option (Settled ω)) : Waiter ω :=
  { w with polled := false, answers := w.answers ++ [a] }

/-- A poll begins, unless the waiter is gone or is being polled. -/
def poll (w : Waiter ω) : Waiter ω := { w with polled := w.polled || w.stage ≠ .returned }

/-- One step of a waiter that is polled, with the value if it is shown. -/
def work (N : Notify) (value : Option (Settled ω)) (i : Nat) (n : N.State) (w : Waiter ω) :
    N.State × Waiter ω :=
  match w.stage with
  | .top => (N.listen n i, { w with stage := .created })
  | .created => (N.enable n i, { w with stage := .enabled })
  | .enabled =>
    match value with
    | some v => (N.drop n i, { w with stage := .returned }.answer (some v))
    | none => (n, { w with stage := .checked })
  | .checked =>
    match N.poll n i with
    | (true, n) => (N.drop n i, { w with stage := .top })
    | (false, n) => (n, w.answer none)
  | .returned => (n, w)

end Waiter

/-- Where a reader is. -/
inductive Post (ω : Type) where
  | outside
  /-- It holds the lock, and looks. -/
  | inside
  /-- It holds the lock, and has looked in vain. -/
  | checked
  /-- It sleeps on the condition, or was woken and wants the lock. -/
  | asleep
  /-- It has slept as long as it may, and wants the lock. -/
  | expired
  /-- It holds the lock, and looks for the last time. -/
  | late
  | returned (got : Option (Settled ω))

structure Reader (ω : Type) where
  /-- The longest time that it waits. -/
  wait : Option Duration
  start : Duration
  post : Post ω := .outside

namespace Reader

variable {ω : Type}

/-- When the reader gives up. -/
def limit? (r : Reader ω) : Option Duration := r.wait.map (r.start + ·)

def hasExpired (r : Reader ω) (now : Duration) : Bool :=
  r.limit?.elim false fun limit => limit ≤ now

/-- Takes the lock for what comes next, if it is free. -/
def enter (M : Monitor) (i : Nat) (m : M.State) (r : Reader ω) (post : Post ω) :
    M.State × Reader ω :=
  match M.lock? m (some i) with
  | none => (m, r)
  | some m => (m, { r with post := post })

/-- One step of a reader, with the value if it is shown. -/
def read (M : Monitor) (value : Option (Settled ω)) (now : Duration) (i : Nat) (m : M.State)
    (r : Reader ω) : M.State × Reader ω :=
  match r.post with
  | .outside => r.enter M i m .inside
  | .inside =>
    match value with
    | some v => (M.unlock m, { r with post := .returned (some v) })
    | none => (m, { r with post := .checked })
  | .checked => (M.sleep m i, { r with post := .asleep })
  | .asleep =>
    if M.asleep m i then
      if r.hasExpired now then (M.rouse m i, { r with post := .expired }) else (m, r)
    else r.enter M i m .inside
  | .expired => r.enter M i m .late
  | .late => (M.unlock m, { r with post := .returned value })
  | .returned _ => (m, r)

/-- What the reader is told when it returns. -/
def told? (r : Reader ω) : Option (Answer ω) :=
  match r.post, r.wait with
  | .returned none, some d => some (.failed (.waitTimedOut d))
  | .returned got, _ => some (.settled got)
  | _, _ => none

end Reader

structure Session (N : Notify) (M : Monitor) (ω : Type) where
  machine : Machine ω
  notify : N.State := N.idle
  monitor : M.State := M.idle
  /-- What whoever has shown the value still does for those that wait. -/
  bells : List Bell := []
  /-- The waiters and the readers, by their numbers. -/
  waiters : List (Waiter ω) := []
  readers : List (Reader ω) := []
  now : Duration := ⟨0⟩

namespace Session

/-- What can happen next in a session. -/
inductive Turn (ω : Type) where
  /-- A step begins from outside, whatever runs; nobody panics into the scripts of others. -/
  | begin (s : Step ω)
  /-- What runs takes one step. -/
  | tick
  | setFallback (f : Fallback)
  | pass (d : Duration)
  /-- A new waiter. -/
  | await
  /-- A poll of a waiter begins. -/
  | poll (i : Nat)
  /-- A waiter that is polled takes one step. -/
  | work (i : Nat)
  /-- A new reader. -/
  | block (wait : Option Duration)
  /-- A reader takes one step. -/
  | read (i : Nat)

variable {N : Notify} {M : Monitor} {ω : Type}

/-- The value that readers see. -/
abbrev settled? (s : Session N M ω) : Option (Settled ω) := s.machine.promise.settled?

abbrev isDone (s : Session N M ω) : Bool := s.machine.promise.isDone

/-- The session with its machine moved on. What its steps have waited is time for all. -/
def advance (s : Session N M ω) (m : Machine ω) : Session N M ω :=
  { s with
    machine := m
    now := s.now + ⟨m.waited.nanos - s.machine.waited.nanos⟩
    bells := if m.promise.isDone && !s.isDone then Bell.all else s.bells }

/-- Does the next for those that wait, and leaves the rest. -/
def ring (s : Session N M ω) (rest : List Bell) : Bell → Session N M ω
  | .lock =>
    match M.lock? s.monitor none with
    | none => s
    | some monitor => { s with monitor := monitor, bells := rest }
  | .readers => { s with monitor := M.notifyAll s.monitor, bells := rest }
  | .unlock => { s with monitor := M.unlock s.monitor, bells := rest }
  | .waiters =>
    let (calls, notify) := N.ring s.notify
    { s with
      notify := notify
      bells := rest
      waiters := s.waiters.mapIdx fun i w => { w with wakes := w.wakes + calls i } }

/-- A waiter takes a step, if it is polled. -/
def work (s : Session N M ω) (i : Nat) : Session N M ω :=
  match s.waiters[i]? with
  | none => s
  | some w =>
    if w.polled then
      let (notify, w) := w.work N s.settled? i s.notify
      { s with notify := notify, waiters := s.waiters.set i w }
    else s

/-- A reader takes a step. -/
def read (s : Session N M ω) (i : Nat) : Session N M ω :=
  match s.readers[i]? with
  | none => s
  | some r =>
    let (monitor, r) := r.read M s.settled? s.now i s.monitor
    { s with monitor := monitor, readers := s.readers.set i r }

variable [Outcome ω]

/-- Whatever runs takes a step; what is done for those that wait comes first. -/
def tick (s : Session N M ω) : Session N M ω :=
  match s.bells with
  | [] => s.advance s.machine.step.handUp
  | b :: rest => s.ring rest b

def turn (s : Session N M ω) : Turn ω → Session N M ω
  | .begin st =>
    if s.machine.raised = none ∧ (s.machine.stack = [] ∨ st.verb ≠ .panic) then
      s.advance (s.machine.perform st).handUp
    else s
  | .tick => s.tick
  | .setFallback f => { s with machine := { s.machine with fallback := f } }
  | .pass d => { s with now := s.now + d }
  | .await => { s with waiters := s.waiters ++ [{}] }
  | .poll i => { s with waiters := s.waiters.modify i Waiter.poll }
  | .work i => s.work i
  | .block wait => { s with readers := s.readers ++ [⟨wait, s.now, .outside⟩] }
  | .read i => s.read i

def after (s : Session N M ω) (turns : List (Turn ω)) : Session N M ω := turns.foldl turn s

end Session

end Turnstile
