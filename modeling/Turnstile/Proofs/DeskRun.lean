import Turnstile.Desk

/-!
# Runs of a desk

What callers and operators can do to a desk, and the answers they get in a run of any length.
-/

namespace Turnstile

/-- The clock after a step of an action. -/
def Errand.turn (clock : Clock) : Errand → Clock
  | .advance millis => clock.advance millis
  | .setClock nanos => clock.set nanos
  | .isCancelled | .cancel | .pull _ | .look | .fire _ | .tell _ => clock

/-- How a call is settled by the result of its action. -/
def CallResult.settled : CallResult → Settled Status
  | .ok value => .ofValue .success value
  | .error (.timeout d) => .ofError .timeout (.timeout d)
  | .error e => .ofError .error e

/-- As long as its flag is down, a task settles on whatever its action returns. -/
theorem Task.verdict_settled (r : CallResult) :
    Task.verdict id false r = some (CallResult.settled r) := by
  cases r with
  | ok value => rfl
  | error e => cases e <;> rfl

namespace Desk

/-- A desk that nobody has used yet. -/
def opening (rail : Rail Status) (clock : Clock) (service : String) (queued : Bool) : Desk :=
  { rail := rail, clock := clock, timers := { name := service }, queued := queued }

inductive Command where
  | run (a : Action Errand)
  | call (label : String) (a : Action Errand) (timeoutMillis : Nat)
  | runJob (position : Nat)
  | on (label : String) (kind : Kind) (shown : String)
  | start
  | shutdown
  | setClock (nanos : Nat)
  | advance (millis : Nat)
  | pull (l : Lever)
  /-- The thread of the timer service looks at the clock. -/
  | look
  /-- The thread of the timer service fires the expired deadline at a position. -/
  | fire (position : Nat)

inductive Reply where
  | ran (e : RunEnd)
  | called (r : Except GuardError Unit)
  | done

def perform (d : Desk) : Command → Reply × Desk
  | .run a => (.ran (d.run a).1, (d.run a).2)
  | .call label a timeoutMillis =>
    (.called (d.call label a timeoutMillis).1, (d.call label a timeoutMillis).2)
  | .runJob position => (.done, (d.runJob position).2)
  | .on label kind shown => (.done, d.on label kind shown)
  | .start => (.done, d.start)
  | .shutdown => (.done, d.shutdown)
  | .setClock nanos => (.done, d.setClock nanos)
  | .advance millis => (.done, d.advance millis)
  | .pull l => (.done, d.pull l)
  | .look => (.done, d.look)
  | .fire position => (.done, d.fire position)

/-- The desk after a run of commands. -/
def after (d : Desk) (commands : List Command) : Desk :=
  commands.foldl (fun d c => (d.perform c).2) d

/-- The answers to a run of commands. -/
def replies (d : Desk) : List Command → List Reply
  | [] => []
  | c :: commands => (d.perform c).1 :: (d.perform c).2.replies commands

@[simp] theorem after_nil (d : Desk) : d.after [] = d := rfl

@[simp] theorem after_cons (d : Desk) (c : Command) (commands : List Command) :
    d.after (c :: commands) = (d.perform c).2.after commands := rfl

/-- What the promise of call `i` shows. -/
def shown (d : Desk) (i : Nat) : Option (Settled Status) :=
  (d.calls[i]?).bind fun c => c.permit.settled?

/-- The labels of the actions that were executed, in their order. -/
def executed (events : List (Event Status)) : List (Option String) :=
  events.filterMap fun
    | .action label => some label
    | _ => none

/-- Only the rail, the calls and the reports have changed, and there are as many calls. -/
structure Still (d d' : Desk) : Prop where
  clock : d'.clock = d.clock
  timers : d'.timers = d.timers
  queued : d'.queued = d.queued
  jobs : d'.jobs = d.jobs
  futures : d'.futures = d.futures
  length : d'.calls.length = d.calls.length

theorem Still.refl (d : Desk) : Still d d := ⟨rfl, rfl, rfl, rfl, rfl, rfl⟩

theorem Still.trans {d d' d'' : Desk} (h : Still d d') (h' : Still d' d'') : Still d d'' :=
  ⟨h'.clock.trans h.clock, h'.timers.trans h.timers, h'.queued.trans h.queued,
    h'.jobs.trans h.jobs, h'.futures.trans h.futures, h'.length.trans h.length⟩

theorem settle_still (d : Desk) (i : Nat) (s : Settled Status) : Still d (d.settle i s).2 := by
  unfold settle
  split
  · exact .refl d
  · exact ⟨rfl, rfl, rfl, rfl, rfl, List.length_set⟩

theorem cancel_still (d : Desk) (i : Nat) : Still d (d.cancel i) := by
  unfold cancel
  split
  · exact .refl d
  · exact ⟨rfl, rfl, rfl, rfl, rfl, List.length_set⟩

theorem noteDown_still (d : Desk) (notes : List Note) : Still d (d.noteDown notes) :=
  ⟨rfl, rfl, rfl, rfl, rfl, rfl⟩

theorem expire_still (d : Desk) (i : Nat) : Still d (d.expire i) := by
  unfold expire
  split
  · exact .refl d
  · split
    · exact .refl d
    · exact ((d.settle_still i _).trans (noteDown_still _ _)).trans (cancel_still _ i)

theorem pull_still (d : Desk) (l : Lever) : Still d (d.pull l) := by
  unfold pull
  split
  · exact .refl d
  · exact ⟨rfl, rfl, rfl, rfl, rfl, rfl⟩

/-- Everything that firing at a position can come to. -/
theorem fire_cases (d : Desk) (position : Nat) :
    (d.timers.due[position]? = none ∧ d.fire position = d) ∨
    ∃ e notes timerNotes, d.timers.due[position]? = some e ∧
      d.fire position =
        { expire { d with timers := d.timers.take position, notes := [] } e.task with
          notes := notes, timerNotes := timerNotes } := by
  unfold fire
  split
  · rename_i h
    exact .inl ⟨h, rfl⟩
  · rename_i e he
    exact .inr ⟨e, _, _, he, rfl⟩

/-- Firing takes at most the deadline at the position from those that wait. -/
theorem fire_outline (d : Desk) (position : Nat) :
    (d.fire position).clock = d.clock ∧ (d.fire position).timers = d.timers.take position ∧
      (d.fire position).queued = d.queued ∧ (d.fire position).jobs = d.jobs ∧
      (d.fire position).futures = d.futures ∧
      (d.fire position).calls.length = d.calls.length := by
  rcases d.fire_cases position with ⟨hnone, h⟩ | ⟨e, notes, timerNotes, -, h⟩
  · rw [h]
    refine ⟨rfl, ?_, rfl, rfl, rfl, rfl⟩
    rw [TimerService.take, List.eraseIdx_of_length_le (List.getElem?_eq_none_iff.mp hnone)]
  · have hs := expire_still { d with timers := d.timers.take position, notes := [] } e.task
    rw [h]
    exact ⟨hs.clock, hs.timers, hs.queued, hs.jobs, hs.futures, hs.length⟩

theorem executed_append (events events' : List (Event Status)) :
    executed (events ++ events') = executed events ++ executed events' := List.filterMap_append

/-- Settling a call shows callbacks only. -/
theorem executed_settle (d : Desk) (i : Nat) (s : Settled Status) :
    executed (d.settle i s).2.events = executed d.events := by
  unfold settle
  split
  · rfl
  · simp [noteDown, emit, setCall, executed, List.filterMap_append, List.filterMap_map]

theorem executed_expire (d : Desk) (i : Nat) :
    executed (d.expire i).events = executed d.events := by
  have hcancel : ∀ d' : Desk, (d'.cancel i).events = d'.events := by
    intro d'
    unfold cancel
    split <;> rfl
  unfold expire
  split
  · rfl
  · split
    · rfl
    · simp only [hcancel, noteDown]
      exact d.executed_settle i _

theorem executed_fire (d : Desk) (position : Nat) :
    executed (d.fire position).events = executed d.events := by
  rcases d.fire_cases position with ⟨-, h⟩ | ⟨e, notes, timerNotes, -, h⟩
  · rw [h]
  · rw [h]
    exact executed_expire _ e.task

/-- The steps of an action execute no other action. -/
theorem executed_errand (owner : Option Nat) (d : Desk) (e : Errand) :
    executed (d.errand owner e).events = executed d.events := by
  have hemit : ∀ (d' : Desk) (verb : Verb) (answer : Answer Status),
      executed (d'.emit [.did verb answer]).events = executed d'.events := by
    intro d' verb answer
    simp [emit, executed]
  cases e with
  | isCancelled => exact hemit d _ _
  | cancel =>
    cases owner with
    | none => exact hemit d _ _
    | some i =>
      refine (hemit _ _ _).trans ?_
      simp only [Option.elim_some]
      unfold cancel
      split <;> rfl
  | tell verb => exact hemit d _ _
  | fire position => exact d.executed_fire position
  | pull l =>
    simp only [errand, pull]
    split <;> rfl
  | advance millis => rw [errand, advance]
  | setClock nanos => rw [errand, setClock]
  | look => rfl

theorem executed_execute (d : Desk) (owner : Option Nat) (a : Action Errand) :
    executed (d.execute owner a).events = executed d.events ++ [a.label] := by
  have hall : ∀ (steps : List Errand) (d' : Desk),
      executed (steps.foldl (errand owner) d').events = executed d'.events := by
    intro steps
    induction steps with
    | nil => exact fun _ => rfl
    | cons e steps ih => exact fun d' => (ih _).trans (executed_errand owner d' e)
  rw [execute, hall, emit, executed_append]
  rfl

/-- Asking the rail for permits concerns only the rail and the notes. -/
theorem acquire_outline {d d' : Desk} {n now : Nat} {answer : Option Rejection}
    (h : d.acquire n now = (answer, d')) :
    ∃ rail notes, d' = { d with rail := rail, notes := notes } :=
  ⟨_, _, (congrArg Prod.snd h).symm⟩

/-- The task that a call makes of an action. -/
def taskOf (a : Action Errand) (timeoutMillis now : Nat) : Task Errand :=
  { action := some a, timeoutMillis := timeoutMillis, start := now }

/-- The desk with one more call, which holds a permit. -/
def addCall (d : Desk) (task : Task Errand) (timers : TimerService Nat) : Desk :=
  { d with calls := d.calls ++ [⟨Permit.hold 1, task⟩], timers := timers }

/-- The desk after the future of call `i` was handed out. -/
def handOut (d : Desk) (label : String) (i : Nat) : Desk :=
  { d with futures := (label, i) :: d.futures }

/-- A call that cannot start holds nothing and hands its permit back. -/
theorem abandon_addCall (d : Desk) (task : Task Errand) (timers : TimerService Nat)
    (e : GuardError) :
    (d.addCall task timers).abandon d.calls.length e =
      (({ d with timers := timers, calls := d.calls ++ [⟨{}, task⟩] } : Desk).releaseUnused 1
        d.clock.now).noteDown [.callNotStarted d.rail.name e] := by
  simp [abandon, addCall, Permit.hold, Promise.withHook, Promise.disarm, setCall]

variable {d d' : Desk} {label : String} {a : Action Errand} {t : Nat} {timers : TimerService Nat}

theorem call_refused {reason : Rejection} (h : d.acquire 1 d.clock.now = (some reason, d')) :
    d.call label a t = (.error (.rejected reason), d') := by
  simp only [call, h]

theorem call_stopped (h : d.acquire 1 d.clock.now = (none, d'))
    (hs : d'.timers.schedule d'.calls.length (taskOf a t d.clock.now).deadline t d.clock.now =
      (.stopped, timers)) :
    d.call label a t = (.error (.schedulerStopped timers.name),
      (d'.addCall (taskOf a t d.clock.now) timers).abandon d'.calls.length
        (.schedulerStopped timers.name)) := by
  simp only [taskOf] at hs
  simp only [call, h, hs]
  rfl

theorem call_expired (h : d.acquire 1 d.clock.now = (none, d'))
    (hs : d'.timers.schedule d'.calls.length (taskOf a t d.clock.now).deadline t d.clock.now =
      (.expired, timers)) :
    d.call label a t = (.ok (),
      ((((d'.addCall (taskOf a t d.clock.now) timers).noteDown
        [.timerFired timers.name (taskOf a t d.clock.now).deadline]).expire
          d'.calls.length).spawn d'.calls.length).handOut label d'.calls.length) := by
  simp only [taskOf] at hs
  simp only [call, h, hs]
  rfl

theorem call_waiting {s : Scheduling} (h : d.acquire 1 d.clock.now = (none, d'))
    (hs : d'.timers.schedule d'.calls.length (taskOf a t d.clock.now).deadline t d.clock.now =
      (s, timers)) (hw : s = .unneeded ∨ s = .queued) :
    d.call label a t = (.ok (), ((d'.addCall (taskOf a t d.clock.now) timers).spawn
      d'.calls.length).handOut label d'.calls.length) := by
  simp only [taskOf] at hs
  rcases hw with rfl | rfl
  · simp only [call, h, hs]
    rfl
  · simp only [call, h, hs]
    rfl

/-- A call that cannot be started was admitted, and its deadline found the timer service
stopped. -/
theorem stopped_of_call {service : String}
    (hcall : (d.call label a t).1 = .error (.schedulerStopped service)) :
    ∃ d' timers, d.acquire 1 d.clock.now = (none, d') ∧
      d'.timers.schedule d'.calls.length (taskOf a t d.clock.now).deadline t d.clock.now =
        (.stopped, timers) := by
  rcases hask : d.acquire 1 d.clock.now with ⟨answer, d'⟩
  cases answer with
  | some reason =>
    rw [call_refused hask] at hcall
    cases hcall
  | none =>
    rcases hsched : d'.timers.schedule d'.calls.length (taskOf a t d.clock.now).deadline t
      d.clock.now with ⟨scheduling, timers⟩
    cases scheduling with
    | stopped => exact ⟨d', timers, rfl, hsched⟩
    | expired =>
      rw [call_expired hask hsched] at hcall
      cases hcall
    | unneeded =>
      rw [call_waiting hask hsched (.inl rfl)] at hcall
      cases hcall
    | queued =>
      rw [call_waiting hask hsched (.inr rfl)] at hcall
      cases hcall

end Desk

end Turnstile
