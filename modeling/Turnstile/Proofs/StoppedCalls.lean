import Turnstile.Proofs.DeskAccount
import Turnstile.Proofs.DeskHistory
import Turnstile.Proofs.RailRun
import Turnstile.Proofs.TrialSlots

/-!
# Calls that cannot be started

A call is admitted before its deadline is armed. If the timer service does not run, the permit
goes back without an outcome, and the action stays in its task for good: nobody was given a
future, no job and no deadline knows of the task. What the admission has done to the breaker is
not undone.
-/

namespace Turnstile

namespace Rail

variable {ω : Type} [Outcome ω]

/-- A rail that a configuration has built, in whatever state it is now. -/
def IsStandard (r : Rail ω) : Prop := ∃ name m l b, r = standard name m l b

namespace IsStandard

variable {r : Rail ω}

theorem acquire (h : r.IsStandard) (n now : Nat) : (r.acquire n now).value.2.IsStandard := by
  obtain ⟨name, m, l, b, rfl⟩ := h
  rcases acquire_standard name m l b n now with ⟨reason, ha⟩ | ⟨l', -, -, ha⟩
  · exact ⟨name, _, l, b, by rw [ha]⟩
  · exact ⟨name, m, l', _, by rw [ha]⟩

theorem release (h : r.IsStandard) (n : Nat) (o : ω) (now : Nat) :
    (r.release n o now).value.IsStandard := by
  obtain ⟨name, m, l, b, rfl⟩ := h
  exact ⟨name, _, _, _, release_standard name m l b n o now⟩

theorem releaseUnused (h : r.IsStandard) (n now : Nat) :
    (r.releaseUnused n now).value.IsStandard := by
  obtain ⟨name, m, l, b, rfl⟩ := h
  exact ⟨name, _, _, _, releaseUnused_standard name m l b n now⟩

theorem serve (h : r.IsStandard) (q : Request ω) : (r.serve q).IsStandard := by
  cases q with
  | acquire n now => exact h.acquire n now
  | rollback n now => exact h.releaseUnused n now
  | release n o now => exact h.release n o now

theorem count (h : r.IsStandard) (c : Counter ω) (n now : Nat) :
    (r.count c n now).value.IsStandard := by
  obtain ⟨name, m, l, b, rfl⟩ := h
  exact ⟨name, _, l, b, rfl⟩

theorem setBreaker (h : r.IsStandard) (b' : Breaker) : (r.setBreaker b').IsStandard := by
  obtain ⟨name, m, l, b, rfl⟩ := h
  exact ⟨name, m, l, b', rfl⟩

theorem handle (h : r.IsStandard) (index : Nat) (op : Handling ω) :
    (r.handle index op).IsStandard := by
  obtain ⟨name, m, l, b, rfl⟩ := h
  match index with
  | 0 => exact ⟨name, m, l, b, rfl⟩
  | 1 => exact ⟨name, m, l, _, rfl⟩
  | index + 2 => exact ⟨name, m, l, b, by simp [Rail.handle, standard]⟩

end IsStandard

end Rail

/-- Settling a permit gives it back or does nothing to the rail. -/
theorem Permit.rail_settle (p : Permit Status) (r : Rail Status) (s : Settled Status)
    (now : Nat) :
    (p.settle r s now).value.rail = r ∨
      ∃ n, (p.settle r s now).value.rail = (r.release n s.outcome now).value := by
  unfold Permit.settle
  cases p.begin? s with
  | none => exact .inl rfl
  | some begun =>
    obtain ⟨hook, completing⟩ := begun
    cases hook with
    | none => exact .inl rfl
    | some n => exact .inr ⟨n, rfl⟩

namespace Desk

/-- What the calls still hold of their actions, by number. -/
def actions (d : Desk) : List (Option (Action Errand)) := d.calls.map fun c => c.task.action

@[simp] theorem length_actions (d : Desk) : d.actions.length = d.calls.length := List.length_map _

/-- An operation that takes no action but those of the calls in `touched`, and that keeps no
other call as a job. -/
structure Spares (touched : List Nat) (d d' : Desk) : Prop where
  rail : d.rail.IsStandard → d'.rail.IsStandard
  length : d.calls.length ≤ d'.calls.length
  actions : ∀ i < d.calls.length, i ∉ touched → d'.actions[i]? = d.actions[i]?
  jobs : ∀ i ∈ d'.jobs, i ∈ d.jobs ∨ i ∈ touched ∧ i < d'.calls.length

namespace Spares

variable {touched : List Nat} {d d' d'' : Desk}

/-- Only rail and reports have changed, and maybe what does not concern actions. -/
theorem of_same (rail : d.rail.IsStandard → d'.rail.IsStandard) (actions : d'.actions = d.actions)
    (jobs : d'.jobs = d.jobs) : Spares touched d d' where
  rail := rail
  length := by rw [← length_actions, ← length_actions, actions]
  actions := fun i _ _ => by rw [actions]
  jobs := fun i hi => .inl (jobs ▸ hi)

theorem refl (d : Desk) : Spares touched d d := of_same id rfl rfl

theorem trans (h : Spares touched d d') (h' : Spares touched d' d'') : Spares touched d d'' where
  rail := h'.rail ∘ h.rail
  length := h.length.trans h'.length
  actions := fun i hlt hi =>
    (h'.actions i (Nat.lt_of_lt_of_le hlt h.length) hi).trans (h.actions i hlt hi)
  jobs := by
    intro i hi
    rcases h'.jobs i hi with hi | hi
    · rcases h.jobs i hi with hi | ⟨ht, hlt⟩
      · exact .inl hi
      · exact .inr ⟨ht, Nat.lt_of_lt_of_le hlt h'.length⟩
    · exact .inr hi

/-- What each of some operations spares, all of them spare. -/
theorem foldl {α : Type} {f : Desk → α → Desk} (step : ∀ d x, Spares touched d (f d x))
    (xs : List α) (d : Desk) : Spares touched d (xs.foldl f d) := by
  induction xs generalizing d with
  | nil => exact .refl d
  | cons x xs ih => exact (step d x).trans (ih _)

end Spares

variable {touched : List Nat}

theorem actions_setCall {d : Desk} {i : Nat} {c c' : Call} (found : d.calls[i]? = some c)
    (same : c'.task.action = c.task.action) : (d.setCall i c').actions = d.actions := by
  refine List.ext_getElem? fun j => ?_
  simp only [actions, setCall, List.getElem?_map, List.getElem?_set]
  by_cases hij : i = j
  · subst hij
    obtain ⟨hi, hc⟩ := List.getElem?_eq_some_iff.mp found
    simp [hi, hc, same]
  · simp [hij]

theorem settle_spares (d : Desk) (i : Nat) (s : Settled Status) :
    Spares touched d (d.settle i s).2 := by
  unfold settle
  split
  · exact .refl d
  · rename_i c hc
    refine .of_same (fun h => ?_) (actions_setCall hc rfl) rfl
    show ((c.permit.settle d.rail s d.clock.now).value.rail).IsStandard
    rcases c.permit.rail_settle d.rail s d.clock.now with hr | ⟨n, hr⟩
    · rwa [hr]
    · rw [hr]
      exact h.release n s.outcome d.clock.now

theorem cancel_spares (d : Desk) (i : Nat) : Spares touched d (d.cancel i) := by
  unfold cancel
  split
  · exact .refl d
  · rename_i c hc
    exact .of_same id (actions_setCall hc rfl) rfl

theorem report_spares (d : Desk) (events : List (Event Status)) (notes : List Note) :
    Spares touched d { d with events := events, notes := notes } := .of_same id rfl rfl

theorem handOut_spares (d : Desk) (label : String) (i : Nat) :
    Spares touched d (d.handOut label i) := .of_same id rfl rfl

theorem noteDown_spares (d : Desk) (notes : List Note) : Spares touched d (d.noteDown notes) :=
  d.report_spares d.events (d.notes ++ notes)

theorem expire_spares (d : Desk) (i : Nat) : Spares touched d (d.expire i) := by
  unfold expire
  split
  · exact .refl d
  · split
    · exact .refl d
    · exact ((d.settle_spares i _).trans (noteDown_spares _ _)).trans (cancel_spares _ i)

theorem turn_spares (d : Desk) (clock : Clock) : Spares touched d { d with clock := clock } :=
  .of_same id rfl rfl

theorem look_spares (d : Desk) : Spares touched d d.look := .of_same id rfl rfl

theorem fire_spares (d : Desk) (position : Nat) : Spares touched d (d.fire position) := by
  rcases d.fire_cases position with ⟨-, h⟩ | ⟨e, notes, timerNotes, -, h⟩
  · rw [h]
    exact .refl d
  · have htaken : Spares touched d { d with timers := d.timers.take position, notes := [] } :=
      .of_same id rfl rfl
    rw [h]
    exact (htaken.trans (expire_spares _ e.task)).trans (.of_same id rfl rfl)

theorem pull_spares (d : Desk) (l : Lever) : Spares touched d (d.pull l) := by
  unfold pull
  split
  · exact .refl d
  · exact .of_same (fun h => h.setBreaker _) rfl rfl

theorem errand_spares (owner : Option Nat) (d : Desk) (e : Errand) :
    Spares touched d (d.errand owner e) := by
  cases e with
  | isCancelled => exact report_spares d _ _
  | cancel =>
    cases owner with
    | none => exact report_spares d _ _
    | some i => exact (d.cancel_spares i).trans (report_spares _ _ _)
  | advance millis => exact d.turn_spares (d.clock.advance millis)
  | setClock nanos => exact d.turn_spares (d.clock.set nanos)
  | pull l => exact d.pull_spares l
  | look => exact d.look_spares
  | fire position => exact d.fire_spares position
  | tell verb => exact report_spares d _ _

theorem execute_spares (d : Desk) (owner : Option Nat) (a : Action Errand) :
    Spares touched d (d.execute owner a) :=
  (report_spares d _ d.notes).trans (.foldl (errand_spares owner) a.steps _)

/-- Running a task takes the action of its call. -/
theorem runTask_spares (d : Desk) {i : Nat} (hi : i ∈ touched) :
    Spares touched d (d.runTask i) := by
  rcases d.runTask_cases i with ⟨hrun, -⟩ | ⟨c, a, hc, -, -, -, hrun⟩
  · rw [hrun]
    exact .refl d
  · have htaken : Spares touched d (d.taken i c) := by
      refine ⟨id, Nat.le_of_eq (List.length_set).symm, ?_, fun j hj => .inl hj⟩
      intro j _ hj
      have hne : i ≠ j := fun h => hj (h ▸ hi)
      simp [actions, taken, setCall, List.getElem?_set_ne hne]
    rw [hrun]
    refine (htaken.trans (execute_spares _ (some i) a)).trans ?_
    cases Task.verdict id _ a.ending.result with
    | none => exact .refl _
    | some s => exact settle_spares _ i s

theorem spawn_spares (d : Desk) {i : Nat} (hi : i ∈ touched) (hlt : i < d.calls.length) :
    Spares touched d (d.spawn i) := by
  unfold spawn
  split
  · refine ⟨id, Nat.le_refl _, fun _ _ _ => rfl, fun j hj => ?_⟩
    rcases List.mem_append.mp hj with hj | hj
    · exact .inl hj
    · rw [List.mem_singleton.mp hj]
      exact .inr ⟨hi, hlt⟩
  · exact d.runTask_spares hi

theorem acquire_spares (d : Desk) (n now : Nat) : Spares touched d (d.acquire n now).2 :=
  .of_same (fun h => h.acquire n now) rfl rfl

theorem release_spares (d : Desk) (n : Nat) (o : Status) (now : Nat) :
    Spares touched d (d.release n o now) :=
  .of_same (fun h => h.release n o now) rfl rfl

theorem run_spares (d : Desk) (a : Action Errand) : Spares touched d (d.run a).2 := by
  have hask : Spares touched d (d.acquire 1 d.clock.now).2 := d.acquire_spares 1 d.clock.now
  unfold run
  generalize d.acquire 1 d.clock.now = asked at hask ⊢
  obtain ⟨answer, d'⟩ := asked
  cases answer with
  | some reason => exact hask
  | none =>
    have hrun := hask.trans (d'.execute_spares none a)
    cases a.ending with
    | returns r => exact hrun.trans (release_spares _ _ _ _)
    | panics p => exact hrun.trans (release_spares _ _ _ _)

theorem addCall_spares (d : Desk) (task : Task Errand) (timers : TimerService Nat) :
    Spares touched d (d.addCall task timers) := by
  refine ⟨id, by simp [addCall], ?_, fun j hj => .inl hj⟩
  intro j hlt _
  rw [← length_actions] at hlt
  simp only [actions, addCall, List.map_append] at hlt ⊢
  exact List.getElem?_append_left hlt

theorem abandon_spares (d : Desk) (i : Nat) (e : GuardError) :
    Spares touched d (d.abandon i e) := by
  unfold abandon
  split
  · exact .refl d
  · rename_i c hc
    simp only
    split
    · exact .of_same (fun h => h.releaseUnused 1 _) (actions_setCall hc rfl) rfl
    · exact .of_same id (actions_setCall hc rfl) rfl

/-- A call concerns itself only. -/
theorem call_spares (d : Desk) (label : String) (a : Action Errand) (t : Nat)
    (hnew : d.calls.length ∈ touched) : Spares touched d (d.call label a t).2 := by
  rcases hask : d.acquire 1 d.clock.now with ⟨answer, d'⟩
  have hadmit : Spares touched d d' := by
    have h : Spares touched d (d.acquire 1 d.clock.now).2 := d.acquire_spares 1 d.clock.now
    rwa [hask] at h
  cases answer with
  | some reason =>
    rw [call_refused hask]
    exact hadmit
  | none =>
    have hlength : d'.calls.length = d.calls.length := by
      obtain ⟨rail, notes, rfl⟩ := acquire_outline hask
      rfl
    rcases hsched : d'.timers.schedule d'.calls.length (taskOf a t d.clock.now).deadline t
      d.clock.now with ⟨scheduling, timers⟩
    have hadd := hadmit.trans (d'.addCall_spares (taskOf a t d.clock.now) timers)
    have hadded : d'.calls.length < (d'.addCall (taskOf a t d.clock.now) timers).calls.length := by
      simp [addCall]
    rw [← hlength] at hnew
    cases scheduling with
    | stopped =>
      rw [call_stopped hask hsched]
      exact hadd.trans (abandon_spares _ _ _)
    | expired =>
      rw [call_expired hask hsched]
      have hnote := hadd.trans (noteDown_spares _
        [.timerFired timers.name (taskOf a t d.clock.now).deadline])
      have hlate := hnote.trans (expire_spares _ d'.calls.length)
      refine (hlate.trans (spawn_spares _ hnew ?_)).trans (handOut_spares _ label _)
      rw [(expire_still _ _).length]
      exact hadded
    | unneeded =>
      rw [call_waiting hask hsched (.inl rfl)]
      exact (hadd.trans (spawn_spares _ hnew hadded)).trans (handOut_spares _ label _)
    | queued =>
      rw [call_waiting hask hsched (.inr rfl)]
      exact (hadd.trans (spawn_spares _ hnew hadded)).trans (handOut_spares _ label _)

theorem runJob_spares (d : Desk) (position : Nat) (htouched : ∀ i ∈ d.jobs, i ∈ touched) :
    Spares touched d (d.runJob position).2 := by
  rcases d.runJob_cases position with ⟨hrun, -⟩ | ⟨i, hi, hrun, -⟩
  · rw [hrun]
    exact .refl d
  · have htaken : Spares touched d { d with jobs := d.jobs.eraseIdx position } :=
      ⟨id, Nat.le_refl _, fun _ _ _ => rfl, fun j hj => .inl (List.mem_of_mem_eraseIdx hj)⟩
    rw [hrun]
    exact htaken.trans (runTask_spares _ (htouched i (List.mem_of_getElem? hi)))

theorem on_spares (d : Desk) (label : String) (kind : Kind) (shown : String) :
    Spares touched d (d.on label kind shown) := by
  unfold on
  split
  · exact .refl d
  · split
    · exact .refl d
    · rename_i i _ _ c hc
      have hkeep : Spares touched d
          (d.setCall i { c with permit := (c.permit.register ⟨kind, shown⟩).2 }) :=
        .of_same id (actions_setCall hc rfl) rfl
      simp only
      split
      · split
        · exact hkeep.trans (report_spares _ _ _)
        · exact hkeep
      · exact hkeep

/-- A command takes no action but those of the waiting jobs and of the call it makes. -/
theorem perform_spares (d : Desk) (c : Command) :
    Spares (d.calls.length :: d.jobs) d (d.perform c).2 := by
  cases c with
  | run a => exact d.run_spares a
  | call label a t => exact d.call_spares label a t List.mem_cons_self
  | runJob position => exact d.runJob_spares position fun i hi => List.mem_cons_of_mem _ hi
  | on label kind shown => exact d.on_spares label kind shown
  | start => exact .of_same id rfl rfl
  | shutdown => exact .of_same id rfl rfl
  | setClock nanos => exact d.turn_spares (d.clock.set nanos)
  | advance millis => exact d.turn_spares (d.clock.advance millis)
  | pull l => exact d.pull_spares l
  | look => exact d.look_spares
  | fire position => exact d.fire_spares position

/-- What happens to a desk whose rail is shared. -/
inductive Dealing where
  | command (c : Command)
  /-- Others ask the rail for permits or give some back. -/
  | serve (q : Request Status)
  | count (c : Counter Status) (events now : Nat)
  | handle (index : Nat) (op : Handling Status)

def deal (d : Desk) : Dealing → Desk
  | .command c => (d.perform c).2
  | .serve q => { d with rail := d.rail.serve q }
  | .count c n now => { d with rail := (d.rail.count c n now).value }
  | .handle index op => { d with rail := d.rail.handle index op }

/-- The desk after a run of dealings. -/
def through (d : Desk) (dealings : List Dealing) : Desk := dealings.foldl deal d

/-- What every dealing keeps, a run of them keeps. -/
theorem through_keeps {P : Desk → Prop} (step : ∀ d x, P d → P (d.deal x)) {d : Desk} (h : P d)
    (dealings : List Dealing) : P (d.through dealings) := by
  induction dealings generalizing d with
  | nil => exact h
  | cons x dealings ih => exact ih (step d x h)

theorem deal_spares (d : Desk) (x : Dealing) :
    Spares (d.calls.length :: d.jobs) d (d.deal x) := by
  cases x with
  | command c => exact d.perform_spares c
  | serve q => exact .of_same (fun h => h.serve q) rfl rfl
  | count c n now => exact .of_same (fun h => h.count c n now) rfl rfl
  | handle index op => exact .of_same (fun h => h.handle index op) rfl rfl

/-- The rail is a standard one, and every job belongs to a call. -/
structure Tidy (d : Desk) : Prop where
  rail : d.rail.IsStandard
  jobs : ∀ i ∈ d.jobs, i < d.calls.length

theorem Tidy.deal {d : Desk} (h : d.Tidy) (x : Dealing) : (d.deal x).Tidy := by
  have hspares := d.deal_spares x
  refine ⟨hspares.rail h.rail, fun i hi => ?_⟩
  rcases hspares.jobs i hi with hi | ⟨-, hlt⟩
  · exact Nat.lt_of_lt_of_le (h.jobs i hi) hspares.length
  · exact hlt

theorem Tidy.through {d : Desk} (h : d.Tidy) (dealings : List Dealing) :
    (d.through dealings).Tidy :=
  through_keeps (fun _ x h => h.deal x) h dealings

/-- Call `i` still holds its action, and no job will take it. -/
structure Unstarted (i : Nat) (a : Action Errand) (d : Desk) : Prop where
  action : d.actions[i]? = some (some a)
  idle : i ∉ d.jobs

theorem Unstarted.deal {d : Desk} {i : Nat} {a : Action Errand} (h : d.Unstarted i a)
    (x : Dealing) : (d.deal x).Unstarted i a := by
  have hspares := d.deal_spares x
  have hlt : i < d.calls.length := by
    rw [← length_actions]
    exact (List.getElem?_eq_some_iff.mp h.action).1
  have hother : i ∉ d.calls.length :: d.jobs := by
    rw [List.mem_cons]
    rintro (hi | hi)
    · omega
    · exact h.idle hi
  refine ⟨by rw [hspares.actions i hlt hother, h.action], fun hi => ?_⟩
  rcases hspares.jobs i hi with hi | ⟨hi, -⟩
  · exact h.idle hi
  · exact hother hi

theorem Unstarted.through {d : Desk} {i : Nat} {a : Action Errand} (h : d.Unstarted i a)
    (dealings : List Dealing) : (d.through dealings).Unstarted i a :=
  through_keeps (fun _ x h => h.deal x) h dealings

theorem tidy_opening (name : String) {config : RailConfig} (valid : config.fault? = none)
    (start : Nat) :
    ∃ built : Rail.Report Status (Rail Status), Rail.ofConfig name config start = .ok built ∧
      ∀ (clock : Clock) (service : String) (queued : Bool),
        (opening built.value clock service queued).Tidy := by
  obtain ⟨m, built, hbuilt, -, hvalue⟩ := Rail.ofConfig_standard (ω := Status) name valid start
  refine ⟨built, hbuilt, fun clock service queued => ⟨?_, fun i hi => by cases hi⟩⟩
  exact ⟨name, m, _, _, hvalue⟩

/-- A call that cannot be started is not heard of again: its action is not executed, now or
later, nobody has its future, and no job and no deadline belongs to it. Limiter and metrics are as
if it had not been made. So is the breaker, unless its circuit was open: then the call counts as a
trial call, and the circuit goes on as if it had not been made only if there had been one in the
same millisecond. -/
theorem stopped_call_spares_all_but_trial (name : String) (config : RailConfig)
    (valid : config.fault? = none) (start : Nat) :
    ∃ built : Rail.Report Status (Rail Status), Rail.ofConfig name config start = .ok built ∧
      ∀ (clock : Clock) (service : String) (queued : Bool) (past : List Dealing),
        let d := (opening built.value clock service queued).through past
        ∀ (label : String) (a : Action Errand) (t : Nat) (stopped : String),
          (d.call label a t).1 = .error (.schedulerStopped stopped) →
          let d' := (d.call label a t).2
          d'.events = d.events ∧ d'.futures = d.futures ∧ d'.jobs = d.jobs ∧
          d'.timers.queue = d.timers.queue ∧ d'.timers.due = d.timers.due ∧
          (∀ later, (d'.through later).actions[d.calls.length]? = some (some a)) ∧
          ∃ name' m l b b', d.rail = Rail.standard name' m l b ∧
            d'.rail = Rail.standard name' m l b' ∧ b.state ≠ .forcedOpen ∧
            (b' = b ∨ b.state = .opened ∧ b' = { b with lastTested := millisOf d.clock.now }) ∧
            (b.AnswersAlike Status b' ↔
              (b.state = .opened → b.lastTested = millisOf d.clock.now)) ∧
            (b.state = .opened → ∀ later < UInt64.size,
              ((b'.ask later).answer = none ↔
                millisOf d.clock.now + b.backOff ≤ millisOf later)) := by
  obtain ⟨built, hbuilt, hopening⟩ := tidy_opening name valid start
  refine ⟨built, hbuilt, fun clock service queued past => ?_⟩
  intro d label a t stopped hcall d'
  have htidy : d.Tidy := (hopening clock service queued).through past
  obtain ⟨name', m, l, b, hrail⟩ := htidy.rail
  obtain ⟨granted, notes, hafter⟩ := call_stopped_outline hrail hcall
  change d' = _ at hafter
  have hunstarted : d'.Unstarted d.calls.length a := by
    rw [hafter]
    refine ⟨?_, fun hi => Nat.lt_irrefl _ (htidy.jobs _ hi)⟩
    simp [actions, taskOf]
  refine ⟨by rw [hafter], by rw [hafter], by rw [hafter], by rw [hafter], by rw [hafter],
    fun later => (hunstarted.through later).action, name', m, l, b, (b.allow d.clock.now).2, hrail,
    by rw [hafter], ?_, ?_, ?_, ?_⟩
  · intro hforced
    simp [Breaker.allow, hforced] at granted
  · rcases b.allow_cases d.clock.now with hsame | ⟨-, hopen, -, htrial⟩
    · exact .inl hsame
    · exact .inr ⟨hopen, htrial⟩
  · exact Breaker.answersAlike_allow_iff Status d.clock.now_lt granted
  · intro hopen later hlater
    exact Breaker.ask_after_trial hopen granted hlater

/-- A call that cannot be started leaves no trace: its action is never executed, and the rail is as
if it had not been made, down to the answers of its breaker. -/
def StoppedCallsLeaveNoTrace : Prop :=
  ∀ (name : String) (config : RailConfig) (start : Nat) (built : Rail.Report Status (Rail Status)),
    Rail.ofConfig name config start = .ok built →
    ∀ (clock : Clock) (service : String) (queued : Bool) (past : List Dealing),
      let d := (opening built.value clock service queued).through past
      ∀ (label : String) (a : Action Errand) (t : Nat) (stopped : String),
        (d.call label a t).1 = .error (.schedulerStopped stopped) →
        let d' := (d.call label a t).2
        d'.events = d.events ∧
        (∀ later, (d'.through later).actions[d.calls.length]? = some (some a)) ∧
        ∃ name' m l b b', d.rail = Rail.standard name' m l b ∧
          d'.rail = Rail.standard name' m l b' ∧ b.AnswersAlike Status b'

/-- The circuit opens on the first failure. -/
def fragile : RailConfig := ⟨2, { failureThreshold := 0, trailingPeriodMillis := 1000 }, ⟨10, 100⟩⟩

/-- A run fails, and the back-off time passes. -/
def outage : List Dealing :=
  [.command (.run { ending := .returns (.error (.execution "down")) }), .command (.advance 1000)]

/-- A call with a deadline, for which there is no timer service. -/
def lost : Action Errand := { ending := .returns (.ok "never") }

theorem call_outage :
    ∃ built : Rail.Report Status (Rail Status), Rail.ofConfig "rail" fragile 0 = .ok built ∧
      let d := (opening built.value (.startingAt 1) "timers" false).through outage
      (d.call "lost" lost 50).1 = .error (.schedulerStopped "timers") ∧
        d.clock.now = 1000000001 ∧
        ∀ name m l b, d.rail = Rail.standard name m l b →
          b.state = .opened ∧ b.lastTested = 0 ∧ b.backOff = 1000 := by
  have hvalues : (Rail.ofConfig (ω := Status) "rail" fragile 0).toOption.map (fun r =>
      let d := (opening r.value (.startingAt 1) "timers" false).through outage
      (decide ((d.call "lost" lost 50).1 = .error (.schedulerStopped "timers")), d.clock.now,
        d.rail.breaker?.map fun p => (p.1.state, p.1.lastTested, p.1.backOff))) =
      some (true, 1000000001, some (.opened, 0, 1000)) := by
    decide +kernel
  cases hr : Rail.ofConfig (ω := Status) "rail" fragile 0 with
  | error fault =>
    rw [hr] at hvalues
    cases hvalues
  | ok built =>
    rw [hr] at hvalues
    simp only [Except.toOption, Option.map_some, Option.some.injEq, Prod.mk.injEq] at hvalues
    obtain ⟨hstopped, hnow, hbreaker⟩ := hvalues
    refine ⟨built, rfl, of_decide_eq_true hstopped, hnow, fun name m l b hrail => ?_⟩
    rw [hrail] at hbreaker
    simpa using hbreaker

theorem stopped_call_spares_all_but_trial_outage :
    fragile.fault? = none ∧
    ∃ built : Rail.Report Status (Rail Status), Rail.ofConfig "rail" fragile 0 = .ok built ∧
      let d := (opening built.value (.startingAt 1) "timers" false).through outage
      (d.call "lost" lost 50).1 = .error (.schedulerStopped "timers") ∧
      ∃ name m l b b', d.rail = Rail.standard name m l b ∧
        (d.call "lost" lost 50).2.rail = Rail.standard name m l b' ∧
        ¬ b.AnswersAlike Status b' ∧ (b'.ask 1999999999).answer ≠ none ∧
        (b'.ask 2000000000).answer = none := by
  have valid : fragile.fault? = none := rfl
  obtain ⟨built, hbuilt, hall⟩ := stopped_call_spares_all_but_trial "rail" fragile valid 0
  obtain ⟨built', hbuilt', hcall, hnow, hbreaker⟩ := call_outage
  rw [hbuilt, Except.ok.injEq] at hbuilt'
  subst hbuilt'
  obtain ⟨-, -, -, -, -, -, name, m, l, b, b', hrail, hrail', -, -, halike, hslot⟩ :=
    hall (.startingAt 1) "timers" false outage "lost" lost 50 "timers" hcall
  obtain ⟨hopen, htested, hwait⟩ := hbreaker name m l b hrail
  rw [hnow] at halike hslot
  rw [hwait] at hslot
  refine ⟨valid, built, hbuilt, hcall, name, m, l, b, b', hrail, hrail', ?_, ?_, ?_⟩
  · rw [halike, htested]
    intro h
    exact absurd (h hopen) (by decide)
  · rw [Ne, hslot hopen 1999999999 (by decide)]
    decide
  · rw [hslot hopen 2000000000 (by decide)]
    decide

/-- The call that cannot be started takes the trial call of the open circuit with it. -/
theorem stopped_call_loses_trial : ¬ StoppedCallsLeaveNoTrace := by
  intro hnone
  obtain ⟨built, hbuilt, hcall, hnow, hbreaker⟩ := call_outage
  obtain ⟨-, -, name, m, l, b, b', hrail, hrail', alike⟩ :=
    hnone "rail" fragile 0 built hbuilt (.startingAt 1) "timers" false outage "lost" lost 50
      "timers" hcall
  obtain ⟨hopen, htested, hwait⟩ := hbreaker name m l b hrail
  obtain ⟨granted, notes, hafter⟩ := call_stopped_outline hrail hcall
  rw [hnow] at granted hafter
  have hb' : b' = (b.allow 1000000001).2 := by
    rw [hafter] at hrail'
    simpa [Rail.standard] using hrail'.symm
  rw [hb', Breaker.answersAlike_allow_iff Status (by decide) granted, htested] at alike
  exact absurd (alike hopen) (by decide)

end Desk

end Turnstile
