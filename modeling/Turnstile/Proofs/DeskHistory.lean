import Turnstile.Proofs.DeskMoves
import Turnstile.Proofs.DeskRun

/-!
# Histories of a desk

A history lists what happens to the calls of a desk, oldest first. It is read off the states
that a run goes through: the news of an operation are the incidents on the way, also in the
middle of an action.
-/

namespace Turnstile

/-- What happens at a desk, as far as it concerns the calls. -/
inductive Incident where
  /-- A call is admitted under a number. -/
  | admitted (i : Nat) (a : Action Errand) (timeoutMillis now : Nat)
  /-- The timer service is stopped and forgets what waits. -/
  | forgotten
  /-- An action begins, that of a call or of a plain run. -/
  | began (owner : Option Nat) (label : Option String)
  /-- The action of a call has taken its last step. -/
  | ended (i : Nat)
  /-- The timer service finds the deadline of a call expired, at what its clock shows. -/
  | expired (i time : Nat)
  /-- The deadline of a call is fired. -/
  | fired (i : Nat)

namespace Incident

/-- The call that is concerned. -/
@[simp] def call? : Incident → Option Nat
  | .admitted i _ _ _ | .ended i | .expired i _ | .fired i => some i
  | .forgotten => none
  | .began owner _ => owner

/-- The call that is admitted, with its action and its timeout. -/
def admission? : Incident → Option (Nat × Action Errand × Nat)
  | .admitted i a timeoutMillis _ => some (i, a, timeoutMillis)
  | _ => none

/-- The label of an action that begins. -/
def beginning? : Incident → Option (Option String)
  | .began _ label => some label
  | _ => none

end Incident

namespace Desk

def lookNews (d : Desk) : List Incident :=
  (d.timers.queue.takeWhile fun e => e.deadline ≤ d.clock.now).map fun e =>
    .expired e.task d.clock.now

def fireNews (d : Desk) (position : Nat) : List Incident :=
  (d.timers.due[position]?).toList.map fun e => .fired e.task

def errandNews (d : Desk) : Errand → List Incident
  | .look => d.lookNews
  | .fire position => d.fireNews position
  | .isCancelled | .cancel | .advance _ | .setClock _ | .pull _ | .tell _ => []

def stepsNews (owner : Option Nat) (d : Desk) : List Errand → List Incident
  | [] => []
  | e :: steps => d.errandNews e ++ (d.errand owner e).stepsNews owner steps

def executeNews (d : Desk) (owner : Option Nat) (a : Action Errand) : List Incident :=
  .began owner a.label :: (d.emit [.action a.label]).stepsNews owner a.steps

/-- The desk when the action of call `i` has been taken from its task. -/
def taken (d : Desk) (i : Nat) (c : Call) : Desk :=
  d.setCall i { c with task := { c.task with action := none } }

def runTaskNews (d : Desk) (i : Nat) : List Incident :=
  match d.calls[i]? with
  | none => []
  | some c =>
    if c.permit.isDone then []
    else
      match c.task.action with
      | none => []
      | some a => (d.taken i c).executeNews (some i) a ++ [.ended i]

def spawnNews (d : Desk) (i : Nat) : List Incident := if d.queued then [] else d.runTaskNews i

def runNews (d : Desk) (a : Action Errand) : List Incident :=
  match d.acquire 1 d.clock.now with
  | (some _, _) => []
  | (none, d') => d'.executeNews none a

/-- A call that is refused or that cannot start is no news. -/
def callNews (d : Desk) (a : Action Errand) (timeoutMillis : Nat) : List Incident :=
  let now := d.clock.now
  match d.acquire 1 now with
  | (some _, _) => []
  | (none, d') =>
    let i := d'.calls.length
    let task := taskOf a timeoutMillis now
    match d'.timers.schedule i task.deadline timeoutMillis now with
    | (.stopped, _) => []
    | (.expired, timers) =>
      let d' := (d'.addCall task timers).noteDown [.timerFired timers.name task.deadline]
      .admitted i a timeoutMillis now :: .expired i now :: .fired i :: (d'.expire i).spawnNews i
    | (_, timers) => .admitted i a timeoutMillis now :: (d'.addCall task timers).spawnNews i

def runJobNews (d : Desk) (position : Nat) : List Incident :=
  match d.jobs[position]? with
  | none => []
  | some i => { d with jobs := d.jobs.eraseIdx position }.runTaskNews i

def news (d : Desk) : Command → List Incident
  | .run a => d.runNews a
  | .call _ a timeoutMillis => d.callNews a timeoutMillis
  | .runJob position => d.runJobNews position
  | .shutdown => [.forgotten]
  | .look => d.lookNews
  | .fire position => d.fireNews position
  | .on .. | .start | .setClock _ | .advance _ | .pull _ => []

/-- Everything that happens in a run of commands. -/
def history (d : Desk) : List Command → List Incident
  | [] => []
  | c :: commands => d.news c ++ (d.perform c).2.history commands

variable {d d' : Desk} {i : Nat} {c : Call} {a : Action Errand} {t : Nat}
  {timers : TimerService Nat}

/-- Everything that running the task of a call can come to. -/
theorem runTask_cases (d : Desk) (i : Nat) :
    (d.runTask i = d ∧ d.runTaskNews i = []) ∨
    ∃ c a, d.calls[i]? = some c ∧ c.permit.isDone = false ∧ c.task.action = some a ∧
      d.runTaskNews i = (d.taken i c).executeNews (some i) a ++ [.ended i] ∧
      let d' := (d.taken i c).execute (some i) a
      d.runTask i =
        (Task.verdict id (d'.isCancelled (some i)) a.ending.result).elim d'
          fun s => (d'.settle i s).2 := by
  unfold runTask runTaskNews
  cases hc : d.calls[i]? with
  | none => exact .inl ⟨rfl, rfl⟩
  | some c =>
    cases hdone : c.permit.isDone with
    | true => exact .inl ⟨by simp [hdone], by simp [hdone]⟩
    | false =>
      cases ha : c.task.action with
      | none => exact .inl ⟨by simp [hdone, ha], by simp [hdone, ha]⟩
      | some a =>
        refine .inr ⟨c, a, rfl, hdone, ha, by simp [hdone, ha], ?_⟩
        simp only [hdone, ha, taken, Bool.false_eq_true, if_false]
        split <;> simp_all

/-- Everything that a waiting job can come to. -/
theorem runJob_cases (d : Desk) (position : Nat) :
    ((d.runJob position).2 = d ∧ d.runJobNews position = []) ∨
    ∃ i, d.jobs[position]? = some i ∧
      (d.runJob position).2 = { d with jobs := d.jobs.eraseIdx position }.runTask i ∧
      d.runJobNews position = { d with jobs := d.jobs.eraseIdx position }.runTaskNews i := by
  unfold runJob runJobNews
  cases d.jobs[position]? with
  | none => exact .inl ⟨rfl, rfl⟩
  | some i => exact .inr ⟨i, rfl, rfl, rfl⟩

/-- Only the rail and the notes of a desk have changed. -/
def Railed (d d' : Desk) : Prop := ∃ rail notes, d' = { d with rail := rail, notes := notes }

/-- Everything that a run can come to. -/
theorem run_cases (d : Desk) (a : Action Errand) :
    (Railed d (d.run a).2 ∧ d.runNews a = []) ∨
    ∃ d', Railed d d' ∧ Railed (d'.execute none a) (d.run a).2 ∧
      d.runNews a = d'.executeNews none a := by
  rcases hask : d.acquire 1 d.clock.now with ⟨answer, d'⟩
  have hd' : Railed d d' := acquire_outline hask
  unfold run runNews
  rw [hask]
  cases answer with
  | some reason => exact .inl ⟨hd', rfl⟩
  | none =>
    refine .inr ⟨d', hd', ?_, rfl⟩
    cases a.ending <;> exact ⟨_, _, rfl⟩

/-- Everything that a call can come to: what happens on the way, the answer and the desk in the
end. -/
inductive Course (d : Desk) (label : String) (a : Action Errand) (t : Nat) :
    List Incident → Except GuardError Unit × Desk → Prop where
  | refused (reason : Rejection) (rail : Rail Status) (notes : List Note) :
    Course d label a t []
      (.error (.rejected reason), { d with rail := rail, notes := notes })
  /-- The timer service does not run; the call has a number all the same. -/
  | stopped (e : GuardError) (rail : Rail Status) (notes : List Note) :
    Course d label a t []
      (.error e, ({ d with rail := rail, notes := notes }.addCall (taskOf a t d.clock.now)
        { d.timers with nextSeq := d.timers.nextSeq + 1 }).abandon d.calls.length e)
  /-- There is nothing to wait for. -/
  | unneeded (rail : Rail Status) (notes : List Note) {d' : Desk}
    (added : d' = { d with rail := rail, notes := notes }.addCall (taskOf a t d.clock.now) d.timers)
    (ht : t = noTimeout) :
    Course d label a t (.admitted d.calls.length a t d.clock.now :: d'.spawnNews d.calls.length)
      (.ok (), (d'.spawn d.calls.length).handOut label d.calls.length)
  | queued (rail : Rail Status) (notes : List Note) {d' : Desk}
    (added : d' = { d with rail := rail, notes := notes }.addCall (taskOf a t d.clock.now)
      { d.timers with
        nextSeq := d.timers.nextSeq + 1
        queue := TimerEntry.insert
          ⟨(taskOf a t d.clock.now).deadline, d.timers.nextSeq, d.calls.length⟩ d.timers.queue })
    (ht : t ≠ noTimeout) (later : d.clock.now < (taskOf a t d.clock.now).deadline)
    (running : d.timers.running = true) :
    Course d label a t (.admitted d.calls.length a t d.clock.now :: d'.spawnNews d.calls.length)
      (.ok (), (d'.spawn d.calls.length).handOut label d.calls.length)
  /-- The deadline has passed already. -/
  | expired (rail : Rail Status) (notes : List Note) {d' : Desk}
    (added : d' = { d with rail := rail, notes := notes }.addCall (taskOf a t d.clock.now) d.timers)
    (ht : t ≠ noTimeout) (late : (taskOf a t d.clock.now).deadline ≤ d.clock.now) :
    Course d label a t (.admitted d.calls.length a t d.clock.now ::
        .expired d.calls.length d.clock.now :: .fired d.calls.length ::
        (d'.expire d.calls.length).spawnNews d.calls.length)
      (.ok (), ((d'.expire d.calls.length).spawn d.calls.length).handOut label d.calls.length)

theorem call_course (d : Desk) (label : String) (a : Action Errand) (t : Nat) :
    Course d label a t (d.callNews a t) (d.call label a t) := by
  rcases hask : d.acquire 1 d.clock.now with ⟨answer, d'⟩
  obtain ⟨rail, notes, rfl⟩ := acquire_outline hask
  cases answer with
  | some reason =>
    have hnews : d.callNews a t = [] := by simp only [callNews, hask]
    rw [hnews, call_refused hask]
    exact .refused reason rail notes
  | none =>
    rcases d.timers.schedule_cases d.calls.length (taskOf a t d.clock.now).deadline t
      d.clock.now with ⟨ht, hs⟩ | ⟨ht, hlate, hs⟩ | ⟨ht, hlater, hrun, hs⟩ | ⟨-, -, -, hs⟩
    · rw [call_waiting hask hs (.inl rfl)]
      simp only [callNews, hask, hs]
      exact .unneeded rail notes rfl ht
    · rw [call_expired hask hs]
      simp only [callNews, hask, hs]
      exact .expired rail (notes ++ _) rfl ht hlate
    · rw [call_waiting hask hs (.inr rfl)]
      simp only [callNews, hask, hs]
      exact .queued rail notes rfl ht hlater hrun
    · rw [call_stopped hask hs]
      simp only [callNews, hask, hs]
      exact .stopped _ rail notes

theorem Still.frame (h : Still d d') : Frame d d' :=
  ⟨h.futures, h.jobs, h.queued, h.timers ▸ List.Sublist.refl _⟩

theorem fire_frame (d : Desk) (position : Nat) : Frame d (d.fire position) := by
  obtain ⟨-, htimers, hqueued, hjobs, hfutures, -⟩ := d.fire_outline position
  exact ⟨hfutures, hjobs, hqueued, htimers ▸ d.timers.waiting_take position⟩

theorem errand_frame (owner : Option Nat) (d : Desk) (e : Errand) : Frame d (d.errand owner e) := by
  cases e with
  | cancel =>
    cases owner with
    | none => exact ⟨rfl, rfl, rfl, .refl _⟩
    | some i =>
      have h := (d.cancel_still i).frame
      exact ⟨h.futures, h.jobs, h.queued, h.waiting⟩
  | pull l => exact (d.pull_still l).frame
  | look =>
    refine ⟨rfl, rfl, rfl, ?_⟩
    exact (d.timers.waiting_look d.clock.now).symm ▸ List.Sublist.refl _
  | fire position => exact d.fire_frame position
  | advance millis =>
    rw [errand, advance]
    exact ⟨rfl, rfl, rfl, .refl _⟩
  | isCancelled | setClock nanos | tell verb => exact ⟨rfl, rfl, rfl, .refl _⟩

theorem execute_frame (d : Desk) (owner : Option Nat) (a : Action Errand) :
    Frame d (d.execute owner a) := by
  have hsteps : ∀ (steps : List Errand) (d' : Desk), Frame d' (steps.foldl (errand owner) d') := by
    intro steps
    induction steps with
    | nil => exact Frame.refl
    | cons e steps ih => exact fun d' => (errand_frame owner d' e).trans (ih _)
  have h := hsteps a.steps (d.emit [.action a.label])
  exact ⟨h.futures, h.jobs, h.queued, h.waiting⟩

/-- Settling on a verdict, if there is one. -/
theorem conclude_still (d : Desk) (i : Nat) (verdict : Option (Settled Status)) :
    Still d (verdict.elim d fun s => (d.settle i s).2) := by
  cases verdict with
  | none => exact .refl d
  | some s => exact d.settle_still i s

theorem runTask_frame (d : Desk) (i : Nat) : Frame d (d.runTask i) := by
  rcases d.runTask_cases i with ⟨hrun, -⟩ | ⟨c, a, -, -, -, -, hrun⟩
  · rw [hrun]
    exact .refl d
  · have htaken : Frame d (d.taken i c) := ⟨rfl, rfl, rfl, .refl _⟩
    rw [hrun]
    exact (htaken.trans (execute_frame _ (some i) a)).trans (conclude_still _ i _).frame

theorem futures_spawn (d : Desk) (i : Nat) : (d.spawn i).futures = d.futures := by
  unfold spawn
  split
  · rfl
  · exact (d.runTask_frame i).futures

/-- The timer service admits nothing and begins nothing. -/
theorem idle_of_mem_lookNews {d : Desk} {x : Incident} (hx : x ∈ d.lookNews) :
    x.admission? = none ∧ x.beginning? = none := by
  obtain ⟨e, -, rfl⟩ := List.mem_map.mp hx
  exact ⟨rfl, rfl⟩

theorem idle_of_mem_fireNews {d : Desk} {position : Nat} {x : Incident}
    (hx : x ∈ d.fireNews position) : x.admission? = none ∧ x.beginning? = none := by
  obtain ⟨e, -, rfl⟩ := List.mem_map.mp hx
  exact ⟨rfl, rfl⟩

theorem idle_of_mem_stepsNews {owner : Option Nat} {d : Desk} {steps : List Errand}
    {x : Incident} (hx : x ∈ d.stepsNews owner steps) :
    x.admission? = none ∧ x.beginning? = none := by
  induction steps generalizing d with
  | nil => cases hx
  | cons e steps ih =>
    rcases List.mem_append.mp hx with hx | hx
    · cases e with
      | look => exact idle_of_mem_lookNews hx
      | fire position => exact idle_of_mem_fireNews hx
      | isCancelled | cancel | advance millis | setClock nanos | pull l | tell verb => cases hx
    · exact ih hx

/-- The labels of the actions that begin, in their order. -/
def begun (h : List Incident) : List (Option String) := h.filterMap Incident.beginning?

@[simp] theorem begun_append (h h' : List Incident) : begun (h ++ h') = begun h ++ begun h' :=
  List.filterMap_append

theorem begun_executeNews (d : Desk) (owner : Option Nat) (a : Action Errand) :
    begun (d.executeNews owner a) = [a.label] := by
  have hsteps : begun ((d.emit [.action a.label]).stepsNews owner a.steps) = [] := by
    exact List.filterMap_eq_nil_iff.mpr fun x hx => (idle_of_mem_stepsNews hx).2
  exact congrArg (a.label :: ·) hsteps

theorem executed_runTask (d : Desk) (i : Nat) :
    executed (d.runTask i).events = executed d.events ++ begun (d.runTaskNews i) := by
  rcases d.runTask_cases i with ⟨hrun, hnews⟩ | ⟨c, a, -, -, -, hnews, hrun⟩
  · rw [hrun, hnews]
    exact (List.append_nil _).symm
  · rw [hrun, hnews, begun_append, begun_executeNews]
    have hexecute := executed_execute (d.taken i c) (some i) a
    cases Task.verdict id _ a.ending.result with
    | none => exact hexecute
    | some s => exact (executed_settle _ i s).trans hexecute

theorem executed_spawn (d : Desk) (i : Nat) :
    executed (d.spawn i).events = executed d.events ++ begun (d.spawnNews i) := by
  unfold spawn spawnNews
  split
  · exact (List.append_nil _).symm
  · exact d.executed_runTask i

theorem executed_run (d : Desk) (a : Action Errand) :
    executed (d.run a).2.events = executed d.events ++ begun (d.runNews a) := by
  rcases d.run_cases a with ⟨⟨rail, notes, hrun⟩, hnews⟩ | ⟨d', ⟨rail, notes, rfl⟩, hrun, hnews⟩
  · rw [hrun, hnews]
    exact (List.append_nil _).symm
  · obtain ⟨rail', notes', hrun⟩ := hrun
    rw [hrun, hnews, begun_executeNews]
    exact executed_execute { d with rail := rail, notes := notes } none a

theorem executed_call (d : Desk) (label : String) (a : Action Errand) (t : Nat) :
    executed (d.call label a t).2.events = executed d.events ++ begun (d.callNews a t) := by
  have hcourse := d.call_course label a t
  revert hcourse
  generalize d.callNews a t = news, d.call label a t = called
  intro hcourse
  cases hcourse with
  | refused reason rail notes => exact (List.append_nil _).symm
  | stopped e rail notes =>
    simp only [abandon_addCall { d with rail := rail, notes := notes }]
    exact (List.append_nil _).symm
  | unneeded rail notes added ht =>
    rw [added]
    exact executed_spawn _ _
  | queued rail notes added ht later running =>
    rw [added]
    exact executed_spawn _ _
  | @expired rail notes d' added ht late =>
    have hexpire := executed_expire d' d.calls.length
    have hspawn := executed_spawn (d'.expire d.calls.length) d.calls.length
    rw [hexpire, show d'.events = d.events by rw [added]; rfl] at hspawn
    exact hspawn

/-- The actions that are executed are those that begin. -/
theorem executed_perform (d : Desk) (c : Command) :
    executed (d.perform c).2.events = executed d.events ++ begun (d.news c) := by
  have hidle : ∀ d' : Desk, executed d'.events = executed d.events →
      executed d'.events = executed d.events ++ begun [] :=
    fun d' h => h.trans (List.append_nil _).symm
  have hbegun : ∀ news : List Incident, (∀ x ∈ news, x.beginning? = none) → begun news = [] :=
    fun news h => List.filterMap_eq_nil_iff.mpr h
  cases c with
  | run a => exact d.executed_run a
  | call label a t => exact d.executed_call label a t
  | runJob position =>
    rcases d.runJob_cases position with ⟨hrun, hnews⟩ | ⟨i, -, hrun, hnews⟩
    · rw [perform, news, hrun, hnews]
      exact hidle d rfl
    · rw [perform, news, hrun, hnews]
      exact executed_runTask _ i
  | on label kind shown =>
    refine hidle _ ?_
    simp only [perform, on]
    repeat' split
    all_goals simp [executed, emit, setCall]
  | start => exact hidle _ rfl
  | shutdown => exact hidle _ rfl
  | setClock nanos => exact hidle _ rfl
  | advance millis => exact hidle (d.advance millis) (by rw [advance])
  | look =>
    rw [news, hbegun d.lookNews fun x hx => (idle_of_mem_lookNews hx).2, List.append_nil]
    rfl
  | fire position =>
    rw [news, hbegun (d.fireNews position) fun x hx => (idle_of_mem_fireNews hx).2,
      List.append_nil]
    exact d.executed_fire position
  | pull l =>
    refine hidle _ ?_
    simp only [perform, pull]
    split <;> rfl

theorem executed_after (d : Desk) (commands : List Command) :
    executed (d.after commands).events = executed d.events ++ begun (d.history commands) := by
  induction commands generalizing d with
  | nil => exact (List.append_nil _).symm
  | cons c commands ih => rw [after_cons, ih, executed_perform, history, begun_append,
      List.append_assoc]

/-- The calls that are admitted, with their actions and timeouts. -/
def admissions (h : List Incident) : List (Nat × Action Errand × Nat) :=
  h.filterMap Incident.admission?

@[simp] theorem admissions_append (h h' : List Incident) :
    admissions (h ++ h') = admissions h ++ admissions h' := List.filterMap_append

/-- The actions and timeouts of the calls that were answered with a future. -/
def acceptances : List Command → List Reply → List (Action Errand × Nat)
  | .call _ a t :: commands, .called (.ok _) :: replies => (a, t) :: acceptances commands replies
  | _ :: commands, _ :: replies => acceptances commands replies
  | _, _ => []

theorem acceptances_cons (c : Command) (x : Reply) (commands : List Command)
    (replies : List Reply) :
    acceptances (c :: commands) (x :: replies) =
      acceptances [c] [x] ++ acceptances commands replies := by
  cases c with
  | call label a t =>
    cases x with
    | called r => cases r <;> rfl
    | ran e => rfl
    | done => rfl
  | _ => rfl

@[simp] theorem admissions_executeNews (d : Desk) (owner : Option Nat) (a : Action Errand) :
    admissions (d.executeNews owner a) = [] := by
  refine List.filterMap_eq_nil_iff.mpr fun x hx => ?_
  rcases List.mem_cons.mp hx with rfl | hx
  · rfl
  · exact (idle_of_mem_stepsNews hx).1

@[simp] theorem admissions_lookNews (d : Desk) : admissions d.lookNews = [] :=
  List.filterMap_eq_nil_iff.mpr fun _ hx => (idle_of_mem_lookNews hx).1

@[simp] theorem admissions_fireNews (d : Desk) (position : Nat) :
    admissions (d.fireNews position) = [] :=
  List.filterMap_eq_nil_iff.mpr fun _ hx => (idle_of_mem_fireNews hx).1

@[simp] theorem admissions_runTaskNews (d : Desk) (i : Nat) :
    admissions (d.runTaskNews i) = [] := by
  rcases d.runTask_cases i with ⟨-, hnews⟩ | ⟨c, a, -, -, -, hnews, -⟩
  · rw [hnews]
    rfl
  · rw [hnews, admissions_append, admissions_executeNews]
    rfl

@[simp] theorem admissions_spawnNews (d : Desk) (i : Nat) : admissions (d.spawnNews i) = [] := by
  unfold spawnNews
  split
  · rfl
  · exact d.admissions_runTaskNews i

theorem admissions_call (d : Desk) (label : String) (a : Action Errand) (t : Nat) :
    (((d.call label a t).1 = .ok () ∧
        admissions (d.callNews a t) = [(d.calls.length, a, t)] ∧
        (d.call label a t).2.futures = (label, d.calls.length) :: d.futures) ∨
      (∃ e, (d.call label a t).1 = .error e) ∧ d.callNews a t = [] ∧
        (d.call label a t).2.futures = d.futures) := by
  have hcourse := d.call_course label a t
  revert hcourse
  generalize d.callNews a t = news, d.call label a t = called
  intro hcourse
  have hspawn : ∀ d' : Desk, d'.futures = d.futures →
      ((d'.spawn d.calls.length).handOut label d.calls.length).futures =
        (label, d.calls.length) :: d.futures := by
    intro d' hd'
    rw [handOut, futures_spawn, hd']
  cases hcourse with
  | refused reason rail notes => exact .inr ⟨⟨_, rfl⟩, rfl, rfl⟩
  | stopped e rail notes =>
    refine .inr ⟨⟨_, rfl⟩, rfl, ?_⟩
    simp only [abandon_addCall { d with rail := rail, notes := notes }]
    rfl
  | @unneeded rail notes d' added ht =>
    refine .inl ⟨rfl, ?_, hspawn d' (by rw [added]; rfl)⟩
    exact congrArg (_ :: ·) (admissions_spawnNews _ _)
  | @queued rail notes d' added ht later running =>
    refine .inl ⟨rfl, ?_, hspawn d' (by rw [added]; rfl)⟩
    exact congrArg (_ :: ·) (admissions_spawnNews _ _)
  | @expired rail notes d' added ht late =>
    have hd' : (d'.expire d.calls.length).futures = d.futures := by
      rw [(expire_still _ _).futures, added]
      rfl
    refine .inl ⟨rfl, ?_, hspawn _ hd'⟩
    exact congrArg (_ :: ·) (admissions_spawnNews _ _)

/-- A call that is answered with a future is admitted, and its future is handed out. -/
theorem admissions_perform (d : Desk) (c : Command) :
    (admissions (d.news c)).map Prod.snd = acceptances [c] [(d.perform c).1] ∧
      (d.perform c).2.futures.map Prod.snd =
        ((admissions (d.news c)).map Prod.fst).reverse ++ d.futures.map Prod.snd := by
  have hidle : ∀ d' : Desk, d'.futures = d.futures →
      d'.futures.map Prod.snd = (([] : List (Nat × Action Errand × Nat)).map
        Prod.fst).reverse ++ d.futures.map Prod.snd := fun d' h => by simp [h]
  cases c with
  | run a =>
    rcases d.run_cases a with ⟨⟨rail, notes, hrun⟩, hnews⟩ | ⟨d', ⟨_, _, rfl⟩, hrun, hnews⟩
    · rw [news, perform, hrun, hnews]
      exact ⟨rfl, hidle _ rfl⟩
    · obtain ⟨rail', notes', hrun⟩ := hrun
      rw [news, perform, hrun, hnews, admissions_executeNews]
      exact ⟨rfl, hidle _ (execute_frame _ none a).futures⟩
  | call label a t =>
    rcases d.admissions_call label a t with ⟨hok, hadmitted, hfutures⟩ | ⟨⟨e, he⟩, hnews, hfutures⟩
    · rw [news, perform, hok, hadmitted, hfutures]
      exact ⟨rfl, rfl⟩
    · rw [news, perform, he, hnews, hfutures]
      exact ⟨rfl, rfl⟩
  | runJob position =>
    rcases d.runJob_cases position with ⟨hrun, hnews⟩ | ⟨i, -, hrun, hnews⟩
    · rw [news, perform, hrun, hnews]
      exact ⟨rfl, rfl⟩
    · rw [news, perform, hrun, hnews, admissions_runTaskNews]
      exact ⟨rfl, hidle _ (runTask_frame _ i).futures⟩
  | on label kind shown =>
    refine ⟨rfl, hidle _ ?_⟩
    simp only [perform, on]
    repeat' split
    all_goals rfl
  | start => exact ⟨rfl, rfl⟩
  | shutdown => exact ⟨rfl, rfl⟩
  | setClock nanos => exact ⟨rfl, hidle _ rfl⟩
  | advance millis => exact ⟨rfl, hidle (d.advance millis) (by rw [advance])⟩
  | look =>
    rw [news, perform, admissions_lookNews]
    exact ⟨rfl, hidle _ rfl⟩
  | fire position =>
    rw [news, perform, admissions_fireNews]
    exact ⟨rfl, hidle _ (d.fire_frame position).futures⟩
  | pull l => exact ⟨rfl, hidle _ (d.pull_still l).futures⟩

/-- The calls that are admitted in a run are those that were answered with a future, and their
futures are handed out in that order. -/
theorem admissions_history (d : Desk) (commands : List Command) :
    (admissions (d.history commands)).map Prod.snd =
        acceptances commands (d.replies commands) ∧
      (d.after commands).futures.map Prod.snd =
        ((admissions (d.history commands)).map Prod.fst).reverse ++ d.futures.map Prod.snd := by
  induction commands generalizing d with
  | nil => exact ⟨rfl, rfl⟩
  | cons c commands ih =>
    obtain ⟨hfirst, hfutures⟩ := d.admissions_perform c
    obtain ⟨hrest, hafter⟩ := ih (d.perform c).2
    constructor
    · rw [history, admissions_append, List.map_append, hfirst, hrest, replies,
        ← acceptances_cons]
    · rw [after_cons, hafter, hfutures, history, admissions_append, List.map_append,
        List.reverse_append, List.append_assoc]

end Desk

end Turnstile
