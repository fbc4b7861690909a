import Turnstile.Proofs.Race
import Turnstile.Proofs.TimerQueue

/-!
# The race at a desk

Every operation of a desk continues the tales of its calls: the elementary steps are told first,
then the operations that are made of them, then whole runs of commands. What a future shows is
read off the history of the run.
-/

namespace Turnstile

variable {i : Nat} {a : Action Errand} {t now : Nat} {x : Incident} {h : List Incident}
  {due due' queue queue' : List (TimerEntry Nat)} {c c' : Call}

namespace Desk

/-- What a history tells of a desk, while the deadlines in `due` were found expired and those in
`queue` wait behind them. -/
structure Told (h : List Incident) (due queue : List (TimerEntry Nat)) (d : Desk) : Prop where
  calls : ∀ i c, d.calls[i]? = some c → Stands h due queue i c
  known : ∀ x ∈ h, ∀ i, x.call? = some i → i < d.calls.length
  waiting : ∀ e ∈ due ++ queue, e.task < d.calls.length
  apart : ((due ++ queue).map TimerEntry.task).Nodup
  jobs : ∀ i ∈ d.jobs, ∃ a t now, .admitted i a t now ∈ h

variable {d d' : Desk}

/-- Only the calls and the jobs matter. -/
theorem Told.congr (told : Told h due queue d) (calls : d'.calls = d.calls)
    (jobs : d'.jobs ⊆ d.jobs) : Told h due queue d' where
  calls := calls ▸ told.calls
  known := calls ▸ told.known
  waiting := calls ▸ told.waiting
  apart := told.apart
  jobs := fun i hi => told.jobs i (jobs hi)

theorem Told.touch (told : Told h due queue d) (found : d.calls[i]? = some c)
    (task : c'.task = c.task) (phase : c'.permit.phase = c.permit.phase) :
    Told h due queue (d.setCall i c') where
  calls := by
    intro j y hy
    rw [setCall, List.getElem?_set] at hy
    by_cases hij : i = j
    · subst hij
      obtain ⟨hlt, -⟩ := List.getElem?_eq_some_iff.mp found
      simp only [hlt, if_true, Option.some.injEq] at hy
      exact hy ▸ (told.calls i c found).touch task phase
    · rw [if_neg hij] at hy
      exact told.calls j y hy
  known := by
    simp only [setCall, List.length_set]
    exact told.known
  waiting := by
    simp only [setCall, List.length_set]
    exact told.waiting
  apart := told.apart
  jobs := told.jobs

/-- The action of a call that was admitted may wait as a job. -/
theorem Told.job (told : Told h due queue d) (admitted : .admitted i a t now ∈ h) :
    Told h due queue { d with jobs := d.jobs ++ [i] } where
  calls := told.calls
  known := told.known
  waiting := told.waiting
  apart := told.apart
  jobs := by
    intro j hj
    rcases List.mem_append.mp hj with hj | hj
    · exact told.jobs j hj
    · exact ⟨a, t, now, List.mem_singleton.mp hj ▸ admitted⟩

/-- The tale of a call that was admitted. -/
theorem Told.tale (told : Told h due queue d) (admitted : .admitted i a t now ∈ h) :
    ∃ c before since, d.calls[i]? = some c ∧ Tale h due queue i c a t now before since := by
  have hlt := told.known _ admitted i rfl
  rcases told.calls i _ (List.getElem?_eq_getElem hlt) with
    ⟨a', t', now', before, since, tale⟩ | ⟨-, hnone, -⟩
  · refine ⟨_, before, since, List.getElem?_eq_getElem hlt, ?_⟩
    -- no call is admitted twice
    rw [tale.split] at admitted
    rcases List.mem_append.mp admitted with hin | hin
    · exact absurd rfl (tale.fresh _ hin)
    · rcases List.mem_cons.mp hin with heq | hin
      · cases heq
        exact tale
      · obtain ⟨past, rest, hsince⟩ := List.append_of_mem hin
        exact absurd rfl (tale.fair past _ rest hsince)
  · exact absurd rfl (hnone _ admitted)

/-- One more incident, after which no other deadline waits. -/
theorem Told.snoc (told : Told h due queue d) (hx : ∀ i, x.call? = some i → i < d.calls.length)
    (calls : ∀ i c, d'.calls[i]? = some c → Stands (h ++ [x]) due' queue' i c)
    (length : d'.calls.length = d.calls.length) (jobs : d'.jobs ⊆ d.jobs)
    (fewer : (due' ++ queue').Sublist (due ++ queue)) : Told (h ++ [x]) due' queue' d' where
  calls := calls
  known := by
    intro y hy j hj
    rw [length]
    rcases List.mem_append.mp hy with hy | hy
    · exact told.known y hy j hj
    · exact hx j (List.mem_singleton.mp hy ▸ hj)
  waiting := by
    intro e he
    rw [length]
    exact told.waiting e (fewer.subset he)
  apart := told.apart.sublist (fewer.map _)
  jobs := by
    intro j hj
    obtain ⟨a, t, now, hin⟩ := told.jobs j (jobs hj)
    exact ⟨a, t, now, List.mem_append_left _ hin⟩

/-- An incident that concerns one call. -/
theorem Told.single (told : Told h due queue d) (hx : x.call? = some i)
    (found : d.calls[i]? = some c) (calls : d'.calls = d.calls.set i c') (jobs : d'.jobs ⊆ d.jobs)
    (fewer : (due' ++ queue').Sublist (due ++ queue))
    (sameDue : ∀ e : TimerEntry Nat, e.task ≠ i → (e ∈ due' ↔ e ∈ due))
    (sameQueue : ∀ e : TimerEntry Nat, e.task ≠ i → (e ∈ queue' ↔ e ∈ queue))
    (own : Stands (h ++ [x]) due' queue' i c') : Told (h ++ [x]) due' queue' d' := by
  obtain ⟨hlt, -⟩ := List.getElem?_eq_some_iff.mp found
  have hknown : ∀ j, x.call? = some j → j < d.calls.length := by
    intro j hj
    obtain rfl := Option.some.inj (hx.symm.trans hj)
    exact hlt
  refine told.snoc hknown ?_ (by rw [calls, List.length_set]) jobs fewer
  intro j y hy
  rw [calls, List.getElem?_set] at hy
  by_cases hij : i = j
  · subst hij
    simp only [hlt, if_true, Option.some.injEq] at hy
    exact hy ▸ own
  · rw [if_neg hij] at hy
    refine (told.calls j y hy).other ?_ ?_ (fun e he => sameDue e (he ▸ Ne.symm hij))
      fun e he => sameQueue e (he ▸ Ne.symm hij)
    · rw [hx]
      simpa using hij
    · rintro rfl
      cases hx

/-- An incident that concerns one call and no deadline. -/
theorem Told.plain (told : Told h due queue d) (hx : x.call? = some i)
    (found : d.calls[i]? = some c) (calls : d'.calls = d.calls.set i c') (jobs : d'.jobs ⊆ d.jobs)
    (own : Stands (h ++ [x]) due queue i c') : Told (h ++ [x]) due queue d' :=
  told.single hx found calls jobs (.refl _) (fun _ _ => .rfl) (fun _ _ => .rfl) own

/-- The beginning of a plain run concerns no call. -/
theorem Told.began (told : Told h due queue d) (label : Option String) :
    Told (h ++ [.began none label]) due queue d :=
  told.snoc nofun (fun i c hc => (told.calls i c hc).other nofun nofun (fun _ _ => .rfl)
    fun _ _ => .rfl) rfl (List.Subset.refl _) (.refl _)

/-- A stopped timer service waits for nothing. -/
theorem Told.forgotten (told : Told h due queue d) : Told (h ++ [.forgotten]) [] [] d :=
  told.snoc nofun (fun i c hc => (told.calls i c hc).forgotten) rfl (List.Subset.refl _)
    (List.nil_sublist _)

/-- Settling a call whose promise is open or done. -/
theorem settle_calls (found : d.calls[i]? = some c)
    (pending : c.permit.settled? = none → c.permit.phase = .pending) (s : Settled Status) :
    ∃ c', (d.settle i s).2.calls = d.calls.set i c' ∧ c'.task = c.task ∧
      c'.permit.settled? = c.permit.settled?.or (some s) := by
  refine ⟨{ c with permit := (c.permit.settle d.rail s d.clock.now).value.permit }, ?_, rfl, ?_⟩
  · simp only [settle, found]
    rfl
  · obtain ⟨⟨phase, hook, callbacks⟩, task⟩ := c
    cases phase with
    | pending =>
      cases hook <;> rfl
    | completing s' => cases pending rfl
    | done s' => rfl

theorem expire_calls (found : d.calls[i]? = some c)
    (pending : c.permit.settled? = none → c.permit.phase = .pending) :
    ∃ c', (d.expire i).calls = d.calls.set i c' ∧ c'.task.action = c.task.action ∧
      c'.task.timeoutMillis = c.task.timeoutMillis ∧
      c'.permit.settled? = c.permit.settled?.or
        (some (.ofError .timeout (.timeout (.ofMillis c.task.timeoutMillis)))) := by
  obtain ⟨hlt, hget⟩ := List.getElem?_eq_some_iff.mp found
  unfold expire
  rw [found]
  cases hdone : c.permit.settled? with
  | some s =>
    refine ⟨c, ?_, rfl, rfl, by rw [hdone]; rfl⟩
    have hself : d.calls.set i c = d.calls := by simp [← hget]
    simp [Promise.isDone, hdone, hself]
  | none =>
    obtain ⟨c', hcalls, htask, hshown⟩ := settle_calls found pending (c.task.expiry id)
    refine ⟨{ c' with task := c'.task.cancel }, ?_, ?_, ?_, ?_⟩
    · simp [Promise.isDone, hdone, cancel, noteDown, hcalls, hlt, setCall]
    · rw [← htask]
      rfl
    · rw [← htask]
      rfl
    · rw [hshown, hdone]
      rfl

/-- A look at the clock finds a deadline expired. -/
theorem Told.expires {e : TimerEntry Nat} (told : Told h due (e :: queue) d) {time : Nat}
    (expired : e.deadline ≤ time) :
    Told (h ++ [.expired e.task time]) (due ++ [e]) queue d := by
  have hlt := told.waiting e (by simp)
  have hfound := List.getElem?_eq_getElem hlt
  have hself : d.calls = d.calls.set e.task d.calls[e.task] := by simp
  rcases told.calls e.task _ hfound with ⟨a, t, now, before, since, tale⟩ | ⟨-, -, hqueue⟩
  · refine told.single rfl hfound hself (List.Subset.refl _) (by simp) ?_ ?_
      (.inl ⟨a, t, now, before, _, tale.expires rfl expired⟩)
    · intro y hy
      have hne : y ≠ e := fun h => hy (h ▸ rfl)
      simp [hne]
    · intro y hy
      have hne : y ≠ e := fun h => hy (h ▸ rfl)
      simp [hne]
  · exact absurd rfl (hqueue e (by simp))

/-- A deadline that was found expired is fired. -/
theorem Told.fires {e : TimerEntry Nat} {ahead behind : List (TimerEntry Nat)}
    (told : Told h (ahead ++ e :: behind) queue d) :
    Told (h ++ [.fired e.task]) (ahead ++ behind) queue (d.expire e.task) := by
  have hlt := told.waiting e (by simp)
  have hfound := List.getElem?_eq_getElem hlt
  have hapart : ∀ y ∈ ahead ++ behind ++ queue, y.task ≠ e.task := by
    have hperm : ((ahead ++ e :: behind) ++ queue).Perm (e :: (ahead ++ behind ++ queue)) :=
      List.perm_middle.append_right queue
    have hnodup := (hperm.map TimerEntry.task).nodup_iff.mp told.apart
    exact fun y hy hi => (List.nodup_cons.mp hnodup).1 (hi ▸ List.mem_map_of_mem hy)
  rcases told.calls e.task _ hfound with ⟨a, t, now, before, since, tale⟩ | ⟨-, -, hqueue⟩
  · obtain ⟨c', hcalls, haction, htimeout, hshown⟩ :=
      expire_calls hfound fun hopen => (tale.pending hopen).1
    rw [tale.timeout] at hshown
    refine told.single rfl hfound hcalls ?_ ?_ ?_ (fun _ _ => .rfl)
      (.inl ⟨a, t, now, before, _, tale.fires rfl hapart hshown haction htimeout⟩)
    · rw [(d.expire_still e.task).jobs]
      exact List.Subset.refl _
    · exact ((List.sublist_cons_self e behind).append_left ahead).append_right queue
    · intro y hy
      have hne : y ≠ e := fun h => hy (h ▸ rfl)
      simp [hne]
  · exact absurd rfl (hqueue e (by simp))

/-- The action of a call begins. -/
theorem Told.begins (told : Told h due queue d) (admitted : .admitted i a t now ∈ h)
    (found : d.calls[i]? = some c) (pending : c.permit.isDone = false) {a' : Action Errand}
    (action : c.task.action = some a') :
    a' = a ∧ Told (h ++ [.began (some i) a'.label]) due queue (d.taken i c) := by
  obtain ⟨c', before, since, hfound, tale⟩ := told.tale admitted
  obtain rfl : c = c' := Option.some.inj (found.symm.trans hfound)
  have hopen : c.permit.settled? = none := by simpa [Promise.isDone] using pending
  obtain ⟨ha, htale⟩ := tale.begins hopen action
  exact ⟨ha, told.plain rfl found rfl (List.Subset.refl _) (.inl ⟨a, t, now, before, _, htale⟩)⟩

/-- The action of a call ends. Whatever it returns, it settles the promise if the deadline has
not come; if it has, then nothing changes. -/
theorem Told.ends (told : Told h due queue d) (admitted : .admitted i a t now ∈ h)
    {label : Option String} (began : .began (some i) label ∈ h) :
    Told (h ++ [.ended i]) due queue
      ((Task.verdict id (d.isCancelled (some i)) a.ending.result).elim d
        fun s => (d.settle i s).2) := by
  obtain ⟨c, before, since, found, tale⟩ := told.tale admitted
  obtain ⟨hlt, hget⟩ := List.getElem?_eq_some_iff.mp found
  have hbegun : since.any (Incident.begins i) = true := by
    rw [tale.split] at began
    rcases List.mem_append.mp began with hin | hin
    · exact absurd rfl (tale.fresh _ hin)
    · rcases List.mem_cons.mp hin with heq | hin
      · cases heq
      · exact List.any_eq_true.mpr ⟨_, hin, by simp [Incident.begins]⟩
  have hflag : d.isCancelled (some i) = c.task.cancelled := by simp [isCancelled, found]
  rw [hflag]
  cases hverdict : Task.verdict id c.task.cancelled a.ending.result with
  | none =>
    -- the flag is up, so the deadline has come
    obtain ⟨s, hs⟩ : ∃ s, c.permit.settled? = some s := by
      cases hopen : c.permit.settled? with
      | some s => exact ⟨s, rfl⟩
      | none =>
        rw [(tale.pending hopen).2, Task.verdict_settled] at hverdict
        cases hverdict
    have hself : d.calls = d.calls.set i c := by simp [← hget]
    exact told.plain rfl found hself (List.Subset.refl _)
      (.inl ⟨a, t, now, before, _, tale.ends hbegun (by simp [hs]) rfl⟩)
  | some s =>
    obtain ⟨c', hcalls, htask, hshown⟩ :=
      settle_calls found (fun hopen => (tale.pending hopen).1) s
    have hresult : c'.permit.settled? =
        c.permit.settled?.or (some (CallResult.settled a.ending.result)) := by
      rw [hshown]
      cases hopen : c.permit.settled? with
      | some s' => rfl
      | none =>
        rw [(tale.pending hopen).2, Task.verdict_settled] at hverdict
        rw [hverdict]
    refine told.plain rfl found hcalls ?_
      (.inl ⟨a, t, now, before, _, tale.ends hbegun hresult htask⟩)
    exact (d.settle_still i s).jobs ▸ List.Subset.refl _

/-- A call is admitted, and with it its deadline, if it has one. -/
theorem Told.addCall (told : Told h due queue d) (own : Option (TimerEntry Nat))
    (calm : .cancel ∉ a.steps)
    (calls : d'.calls = d.calls ++ [⟨Permit.hold 1, taskOf a t now⟩]) (jobs : d'.jobs ⊆ d.jobs)
    (perm : queue'.Perm (own.toList ++ queue))
    (hown : ∀ e ∈ own, t ≠ noTimeout ∧ e.task = d.calls.length ∧
      e.deadline = (taskOf a t now).deadline)
    (waits : t ≠ noTimeout → own.isSome) :
    Told (h ++ [.admitted d.calls.length a t now]) due queue' d' where
  calls := by
    intro i c hc
    rw [calls] at hc
    by_cases hlt : i < d.calls.length
    · rw [List.getElem?_append_left hlt] at hc
      refine (told.calls i c hc).other ?_ nofun (fun _ _ => .rfl) fun e he => ?_
      · simpa using Nat.ne_of_gt hlt
      · rw [perm.mem_iff, List.mem_append, Option.mem_toList]
        refine ⟨fun hin => hin.resolve_left fun hin => ?_, .inr⟩
        have := (hown e hin).2.1
        omega
    · obtain rfl : i = d.calls.length := by
        have := (List.getElem?_eq_some_iff.mp hc).1
        rw [List.length_append, List.length_singleton] at this
        omega
      rw [List.getElem?_concat_length] at hc
      obtain rfl := Option.some.inj hc
      refine .inl ⟨a, t, now, h, [], .admitted ?_ calm ?_ ?_ ?_⟩
      · exact fun x hx hcall => Nat.lt_irrefl _ (told.known x hx _ hcall)
      · exact fun e he => Nat.ne_of_lt (told.waiting e (List.mem_append_left _ he))
      · intro e he hi
        rcases List.mem_append.mp (perm.mem_iff.mp he) with he | he
        · obtain ⟨ht, -, hdeadline⟩ := hown e (Option.mem_toList.mp he)
          exact ⟨ht, hdeadline⟩
        · exact absurd (told.waiting e (List.mem_append_right _ he)) (by omega)
      · intro ht
        obtain ⟨e, he⟩ := Option.isSome_iff_exists.mp (waits ht)
        exact ⟨e, perm.mem_iff.mpr (List.mem_append_left _ (Option.mem_toList.mpr he)),
          (hown e he).2.1⟩
  known := by
    intro x hx j hj
    rw [calls, List.length_append, List.length_singleton]
    rcases List.mem_append.mp hx with hx | hx
    · exact Nat.lt_succ_of_lt (told.known x hx j hj)
    · rw [List.mem_singleton.mp hx] at hj
      cases hj
      exact Nat.lt_succ_self _
  waiting := by
    intro e he
    rw [calls, List.length_append, List.length_singleton]
    rcases List.mem_append.mp he with he | he
    · exact Nat.lt_succ_of_lt (told.waiting e (List.mem_append_left _ he))
    · rcases List.mem_append.mp (perm.mem_iff.mp he) with he | he
      · rw [(hown e (Option.mem_toList.mp he)).2.1]
        exact Nat.lt_succ_self _
      · exact Nat.lt_succ_of_lt (told.waiting e (List.mem_append_right _ he))
  apart := by
    have hall : (due ++ queue').Perm (own.toList ++ (due ++ queue)) :=
      (perm.append_left due).trans (List.perm_append_comm_assoc _ _ _)
    rw [(hall.map _).nodup_iff]
    cases own with
    | none => exact told.apart
    | some e =>
      refine List.nodup_cons.mpr ⟨fun hin => ?_, told.apart⟩
      obtain ⟨y, hy, hey⟩ := List.mem_map.mp hin
      have := told.waiting y hy
      have := (hown e rfl).2.1
      omega
  jobs := by
    intro j hj
    obtain ⟨a, t, now, hin⟩ := told.jobs j (jobs hj)
    exact ⟨a, t, now, List.mem_append_left _ hin⟩

/-- A call that cannot start is not told of. -/
theorem Told.giveUp (told : Told h due queue d) {task : Task Errand}
    (calls : d'.calls = d.calls ++ [⟨{}, task⟩]) (jobs : d'.jobs ⊆ d.jobs) :
    Told h due queue d' where
  calls := by
    intro i c hc
    rw [calls] at hc
    by_cases hlt : i < d.calls.length
    · rw [List.getElem?_append_left hlt] at hc
      exact told.calls i c hc
    · rw [List.getElem?_append_right (by omega)] at hc
      obtain rfl := List.mem_singleton.mp (List.mem_of_getElem? hc)
      refine .inr ⟨rfl, fun x hx hcall => hlt (told.known x hx i hcall), fun e he hi => hlt ?_⟩
      exact hi ▸ told.waiting e he
  known := fun x hx i hi => calls ▸ List.length_append ▸ Nat.lt_add_right _ (told.known x hx i hi)
  waiting := fun e he =>
    calls ▸ List.length_append ▸ Nat.lt_add_right _ (told.waiting e he)
  apart := told.apart
  jobs := fun i hi => told.jobs i (jobs hi)

/-- A history that tells of a desk, whose deadlines wait in their order. -/
structure Recorded (h : List Incident) (d : Desk) : Prop where
  told : Told h d.timers.due d.timers.queue d
  ordered : TimerEntry.Ordered d.timers.queue

theorem Recorded.congr (recorded : Recorded h d) (calls : d'.calls = d.calls)
    (jobs : d'.jobs ⊆ d.jobs) (timers : d'.timers = d.timers) : Recorded h d' :=
  ⟨timers ▸ recorded.told.congr calls jobs, timers ▸ recorded.ordered⟩

/-- Nothing is no news. -/
theorem Recorded.quiet (recorded : Recorded h d) : Recorded (h ++ []) d :=
  (List.append_nil h).symm ▸ recorded

theorem Recorded.emit (recorded : Recorded h d) (events : List (Event Status)) :
    Recorded h (d.emit events) := recorded.congr rfl (List.Subset.refl _) rfl

theorem Told.expiresAll {expired : List (TimerEntry Nat)} (told : Told h due (expired ++ queue) d)
    {time : Nat} (hexpired : ∀ e ∈ expired, e.deadline ≤ time) :
    Told (h ++ expired.map fun e => .expired e.task time) (due ++ expired) queue d := by
  induction expired generalizing h due with
  | nil => simpa using told
  | cons e expired ih =>
    have hrest := ih (told.expires (hexpired e List.mem_cons_self))
      fun y hy => hexpired y (List.mem_cons_of_mem _ hy)
    rw [List.append_assoc, List.append_assoc] at hrest
    exact hrest

theorem Recorded.turn (recorded : Recorded h d) (clock : Clock) :
    Recorded (h ++ []) { d with clock := clock } :=
  Recorded.quiet (recorded.congr rfl (List.Subset.refl _) rfl)

/-- The timer service looks at the clock. -/
theorem Recorded.look (recorded : Recorded h d) : Recorded (h ++ d.lookNews) d.look := by
  let p : TimerEntry Nat → Bool := fun e => e.deadline ≤ d.clock.now
  have hsplit : d.timers.queue.takeWhile p ++ d.timers.queue.dropWhile p = d.timers.queue :=
    List.takeWhile_append_dropWhile
  have htold : Told h d.timers.due (d.timers.queue.takeWhile p ++ d.timers.queue.dropWhile p)
      d := by
    rw [hsplit]
    exact recorded.told
  have hall := htold.expiresAll fun e he =>
    of_decide_eq_true (List.mem_takeWhile_imp (p := p) he)
  exact ⟨hall.congr rfl (List.Subset.refl _), TimerService.ordered_look recorded.ordered _⟩

/-- The timer service fires. -/
theorem Recorded.fire (recorded : Recorded h d) (position : Nat) :
    Recorded (h ++ d.fireNews position) (d.fire position) := by
  rcases d.fire_cases position with ⟨hnone, hfire⟩ | ⟨e, notes, timerNotes, hsome, hfire⟩
  · rw [hfire, fireNews, hnone]
    exact recorded.quiet
  · have hsplit : d.timers.due = d.timers.due.take position ++
        e :: d.timers.due.drop (position + 1) := by
      obtain ⟨hlt, rfl⟩ := List.getElem?_eq_some_iff.mp hsome
      simp
    have htold := recorded.told
    rw [hsplit] at htold
    let taken : Desk := { d with timers := d.timers.take position, notes := [] }
    have htaken : Told h _ d.timers.queue taken := htold.congr rfl (List.Subset.refl _)
    have hfired := htaken.fires
    have hstill := expire_still taken e.task
    rw [hfire, fireNews, hsome]
    refine ⟨?_, ?_⟩
    · show Told _ (expire _ e.task).timers.due (expire _ e.task).timers.queue _
      rw [hstill.timers]
      show Told _ (d.timers.due.eraseIdx position) d.timers.queue _
      rw [List.eraseIdx_eq_take_drop_succ]
      exact hfired.congr rfl (List.Subset.refl _)
    · show TimerEntry.Ordered (expire _ e.task).timers.queue
      rw [hstill.timers]
      exact recorded.ordered

/-- A step of an action that leaves the flag of its call down. -/
theorem Recorded.errand (recorded : Recorded h d) (owner : Option Nat) {e : Errand}
    (calm : owner = none ∨ e ≠ .cancel) :
    Recorded (h ++ d.errandNews e) (d.errand owner e) := by
  cases e with
  | isCancelled => exact (recorded.emit _).quiet
  | cancel =>
    rw [calm.resolve_right (absurd rfl)]
    exact (recorded.emit _).quiet
  | advance millis => exact recorded.turn (d.clock.advance millis)
  | setClock nanos => exact recorded.turn (d.clock.set nanos)
  | pull l =>
    have h := d.pull_still l
    have hcalls : (d.pull l).calls = d.calls := by
      unfold pull
      split <;> rfl
    exact (recorded.congr hcalls (h.jobs ▸ List.Subset.refl _) h.timers).quiet
  | look => exact recorded.look
  | fire position => exact recorded.fire position
  | tell verb => exact (recorded.emit _).quiet

theorem Recorded.steps (recorded : Recorded h d) (owner : Option Nat) (steps : List Errand)
    (calm : owner = none ∨ .cancel ∉ steps) :
    Recorded (h ++ d.stepsNews owner steps) (steps.foldl (Desk.errand owner) d) := by
  induction steps generalizing h d with
  | nil => exact recorded.quiet
  | cons e steps ih =>
    have hfirst := recorded.errand owner (e := e)
      (calm.imp_right fun hcalm heq => hcalm (heq ▸ List.mem_cons_self))
    have hrest := ih hfirst (calm.imp_right fun hcalm hin => hcalm (List.mem_cons_of_mem _ hin))
    rw [List.append_assoc] at hrest
    exact hrest

/-- The task of an admitted call is run. -/
theorem Recorded.runTask (recorded : Recorded h d) (admitted : .admitted i a t now ∈ h) :
    Recorded (h ++ d.runTaskNews i) (d.runTask i) := by
  rcases d.runTask_cases i with ⟨hrun, hnews⟩ | ⟨c, a', found, hopen, haction, hnews, hrun⟩
  · rw [hrun, hnews]
    exact recorded.quiet
  · obtain ⟨rfl, htaken⟩ := recorded.told.begins admitted found hopen haction
    obtain ⟨_, _, _, _, tale⟩ := recorded.told.tale admitted
    have hbegan : Recorded (h ++ [.began (some i) a'.label]) (d.taken i c) :=
      ⟨htaken, recorded.ordered⟩
    have hsteps := (hbegan.emit [.action a'.label]).steps (some i) a'.steps (.inr tale.calm)
    rw [List.append_assoc] at hsteps
    have hends := hsteps.told.ends (List.mem_append_left _ admitted)
      (List.mem_append_right h (List.mem_append_left _ (List.mem_singleton_self _)))
    have hsettled := ((d.taken i c).execute (some i) a').conclude_still i (Task.verdict id
      (((d.taken i c).execute (some i) a').isCancelled (some i)) a'.ending.result)
    rw [hnews, hrun, ← List.append_assoc]
    constructor
    · rw [hsettled.timers]
      exact hends
    · rw [hsettled.timers]
      exact hsteps.ordered

theorem Recorded.spawn (recorded : Recorded h d) (admitted : .admitted i a t now ∈ h) :
    Recorded (h ++ d.spawnNews i) (d.spawn i) := by
  unfold Desk.spawn spawnNews
  split
  · rw [List.append_nil]
    exact ⟨recorded.told.job admitted, recorded.ordered⟩
  · exact recorded.runTask admitted

theorem Recorded.run (recorded : Recorded h d) (a : Action Errand) :
    Recorded (h ++ d.runNews a) (d.run a).2 := by
  have hrailed : ∀ {h' : List Incident} {d' d'' : Desk}, Recorded h' d' → Railed d' d'' →
      Recorded h' d'' := by
    rintro h' d' _ recorded' ⟨rail, notes, rfl⟩
    exact recorded'.congr rfl (List.Subset.refl _) rfl
  rcases d.run_cases a with ⟨hrun, hnews⟩ | ⟨d', hd', hrun, hnews⟩
  · rw [hnews]
    exact (hrailed recorded hrun).quiet
  · have recorded' := hrailed recorded hd'
    have hbegan : Recorded (h ++ [.began none a.label]) d' :=
      ⟨recorded'.told.began a.label, recorded'.ordered⟩
    have hsteps := (hbegan.emit [.action a.label]).steps none a.steps (.inl rfl)
    rw [List.append_assoc] at hsteps
    rw [hnews]
    exact hrailed hsteps hrun

theorem Recorded.call (recorded : Recorded h d) (label : String) (calm : .cancel ∉ a.steps)
    (t : Nat) : Recorded (h ++ d.callNews a t) (d.call label a t).2 := by
  have hcourse := d.call_course label a t
  revert hcourse
  generalize d.callNews a t = news, d.call label a t = called
  intro hcourse
  have hspawn : ∀ {d' : Desk} {h' : List Incident}, Recorded h' d' →
      .admitted d.calls.length a t d.clock.now ∈ h' →
      Recorded (h' ++ d'.spawnNews d.calls.length)
        ((d'.spawn d.calls.length).handOut label d.calls.length) :=
    fun recorded' hin => (recorded'.spawn hin).congr rfl (List.Subset.refl _) rfl
  have hin : Incident.admitted d.calls.length a t d.clock.now ∈
      h ++ [.admitted d.calls.length a t d.clock.now] := List.mem_append_right _ (by simp)
  cases hcourse with
  | refused reason rail notes =>
    have hsame : Recorded h { d with rail := rail, notes := notes } :=
      recorded.congr rfl (List.Subset.refl _) rfl
    exact hsame.quiet
  | stopped e rail notes =>
    rw [List.append_nil]
    simp only [abandon_addCall { d with rail := rail, notes := notes }]
    exact ⟨recorded.told.giveUp rfl (List.Subset.refl _), recorded.ordered⟩
  | @unneeded rail notes d' added ht =>
    have hmore := recorded.told.addCall none calm (congrArg Desk.calls added)
      (added ▸ List.Subset.refl _) (.refl _) nofun (fun hne => absurd ht hne)
    have recorded' : Recorded (h ++ [.admitted d.calls.length a t d.clock.now]) d' := by
      rw [added] at hmore ⊢
      exact ⟨hmore, recorded.ordered⟩
    rw [List.append_cons]
    exact hspawn recorded' hin
  | @queued rail notes d' added ht later running =>
    have hmore := recorded.told.addCall
      (some ⟨(taskOf a t d.clock.now).deadline, d.timers.nextSeq, d.calls.length⟩) calm
      (congrArg Desk.calls added) (added ▸ List.Subset.refl _) (TimerEntry.insert_perm _ _)
      (by rintro _ ⟨⟩; exact ⟨ht, rfl, rfl⟩) (fun _ => rfl)
    have recorded' : Recorded (h ++ [.admitted d.calls.length a t d.clock.now]) d' := by
      rw [added] at hmore ⊢
      exact ⟨hmore, recorded.ordered.insert _⟩
    rw [List.append_cons]
    exact hspawn recorded' hin
  | @expired rail notes d' added ht late =>
    -- the deadline is fired at once, without having been in the queue
    let own : TimerEntry Nat := ⟨(taskOf a t d.clock.now).deadline, 0, d.calls.length⟩
    have hmore := recorded.told.addCall (some own) calm (congrArg Desk.calls added)
      (added ▸ List.Subset.refl _) (.refl _) (by rintro _ ⟨⟩; exact ⟨ht, rfl, rfl⟩) (fun _ => rfl)
    have hfired := Told.fires (hmore.expires late)
    rw [List.append_nil] at hfired
    have hstill := d'.expire_still d.calls.length
    have htimers : d'.timers = d.timers := by rw [added]; rfl
    have recorded' : Recorded ((h ++ [.admitted d.calls.length a t d.clock.now]) ++
        [.expired d.calls.length d.clock.now] ++ [.fired d.calls.length])
        (d'.expire d.calls.length) := by
      refine ⟨?_, ?_⟩
      · rw [hstill.timers, htimers]
        exact hfired
      · rw [hstill.timers, htimers]
        exact recorded.ordered
    rw [List.append_cons, List.append_cons (h ++ _), List.append_cons (h ++ _ ++ _)]
    exact hspawn recorded' (List.mem_append_left _ (List.mem_append_left _ hin))

theorem Recorded.runJob (recorded : Recorded h d) (position : Nat) :
    Recorded (h ++ d.runJobNews position) (d.runJob position).2 := by
  rcases d.runJob_cases position with ⟨hrun, hnews⟩ | ⟨i, hi, hrun, hnews⟩
  · rw [hrun, hnews]
    exact recorded.quiet
  · obtain ⟨a, t, now, admitted⟩ := recorded.told.jobs i (List.mem_of_getElem? hi)
    have htaken : Recorded h { d with jobs := d.jobs.eraseIdx position } :=
      recorded.congr rfl (fun _ => List.mem_of_mem_eraseIdx) rfl
    rw [hrun, hnews]
    exact htaken.runTask admitted

theorem Recorded.on (recorded : Recorded h d) (label : String) (kind : Kind) (shown : String) :
    Recorded h (d.on label kind shown) := by
  unfold Desk.on
  split
  · exact recorded
  · split
    · exact recorded
    · rename_i i _ _ c hc
      have hphase : ((c.permit.register ⟨kind, shown⟩).2).phase = c.permit.phase := by
        unfold Promise.register
        split <;> simp_all
      have hkeep : Recorded h
          (d.setCall i { c with permit := (c.permit.register ⟨kind, shown⟩).2 }) :=
        ⟨recorded.told.touch hc rfl hphase, recorded.ordered⟩
      simp only
      split
      · split
        · exact hkeep.emit _
        · exact hkeep
      · exact hkeep

/-- Commands whose actions leave the flags of their calls down. -/
def Calm (commands : List Command) : Prop :=
  ∀ label a t, .call label a t ∈ commands → .cancel ∉ a.steps

/-- Every command continues the history. -/
theorem Recorded.perform (recorded : Recorded h d) {c : Command} (calm : Calm [c]) :
    Recorded (h ++ d.news c) (d.perform c).2 := by
  cases c with
  | run a => exact recorded.run a
  | call label a t => exact recorded.call label (calm label a t (List.mem_singleton_self _)) t
  | runJob position => exact recorded.runJob position
  | on label kind shown => exact (recorded.on label kind shown).quiet
  | start =>
    have hstart : Recorded h d.start := by
      rw [start, TimerService.start]
      split
      · exact recorded.congr rfl (List.Subset.refl _) rfl
      · exact ⟨recorded.told.congr rfl (List.Subset.refl _), recorded.ordered⟩
    exact hstart.quiet
  | shutdown => exact ⟨recorded.told.forgotten.congr rfl (List.Subset.refl _), .nil⟩
  | setClock nanos => exact recorded.turn (d.clock.set nanos)
  | advance millis => exact recorded.turn (d.clock.advance millis)
  | look => exact recorded.look
  | fire position => exact recorded.fire position
  | pull l => exact recorded.errand none (e := .pull l) (.inl rfl)

theorem Recorded.after (recorded : Recorded h d) {commands : List Command} (calm : Calm commands) :
    Recorded (h ++ d.history commands) (d.after commands) := by
  induction commands generalizing h d with
  | nil => exact recorded.quiet
  | cons c commands ih =>
    have hfirst := recorded.perform (c := c) fun label a t hin =>
      calm label a t (by simpa using .inl (List.mem_singleton.mp hin))
    rw [history, ← List.append_assoc]
    exact ih hfirst fun label a t hin => calm label a t (List.mem_cons_of_mem _ hin)

/-- A desk that opens has no history. -/
theorem recorded_opening (rail : Rail Status) (clock : Clock) (service : String) (queued : Bool) :
    Recorded [] (opening rail clock service queued) where
  told :=
    { calls := fun _ _ hc => by cases hc
      known := fun _ hx => by cases hx
      waiting := fun _ he => by cases he
      apart := List.nodup_nil
      jobs := fun _ hi => by cases hi }
  ordered := .nil

/-- No action begins twice for a call. -/
theorem Told.begins_once (told : Told h due queue d) (i : Nat) :
    h.countP (Incident.begins i) ≤ 1 := by
  have hzero : ∀ h' : List Incident, (∀ x ∈ h', x.call? ≠ some i) →
      h'.countP (Incident.begins i) = 0 := by
    intro h' hnone
    rw [List.countP_eq_zero]
    intro x hx
    rw [Incident.begins_of_other (hnone x hx)]
    exact Bool.false_ne_true
  by_cases hlt : i < d.calls.length
  · rcases told.calls i _ (List.getElem?_eq_getElem hlt) with
      ⟨a, t, now, before, since, tale⟩ | ⟨-, hnone, -⟩
    · rw [tale.split, List.countP_append, hzero before tale.fresh, List.countP_cons]
      simpa [Incident.begins] using tale.fair.begins_once
    · rw [hzero h hnone]
      exact Nat.zero_le 1
  · rw [hzero h fun x hx hcall => hlt (told.known x hx i hcall)]
    exact Nat.zero_le 1

/-- What concerns a call concerns one that was admitted. -/
theorem Told.admitted (told : Told h due queue d) (hx : x ∈ h) (hcall : x.call? = some i) :
    i ∈ (admissions h).map Prod.fst := by
  rcases told.calls i _ (List.getElem?_eq_getElem (told.known x hx i hcall)) with
    ⟨a, t, now, before, since, tale⟩ | ⟨-, hnone, -⟩
  · rw [tale.split]
    simp [admissions, Incident.admission?]
  · exact absurd hcall (hnone x hx)

/-- Firing again and again empties what was found expired. -/
theorem fireAll_outline (d : Desk) (l : List (TimerEntry Nat))
    (h : d.timers.due.length = l.length) :
    l.foldl (fun d _ => d.fire 0) d = d.after (List.replicate l.length (.fire 0)) ∧
      (l.foldl (fun d _ => d.fire 0) d).timers = { d.timers with due := [] } := by
  induction l generalizing d with
  | nil =>
    have hnil : d.timers.due = [] := List.eq_nil_of_length_eq_zero h
    have hsame : ({ d.timers with due := [] } : TimerService Nat) = d.timers := by rw [← hnil]
    exact ⟨rfl, hsame.symm⟩
  | cons e l ih =>
    obtain ⟨-, htimers, -⟩ := d.fire_outline 0
    have hlength : (d.fire 0).timers.due.length = l.length := by
      rw [htimers, TimerService.take, List.length_eraseIdx, h]
      simp
    obtain ⟨hafter, hdue⟩ := ih (d.fire 0) hlength
    rw [List.foldl_cons, hafter, ← hafter, hdue, htimers]
    exact ⟨hafter, rfl⟩

/-- The commands by which the timer service catches up. -/
def catchingUp (d : Desk) : List Command :=
  .look :: List.replicate d.look.timers.due.length (.fire 0)

theorem catchUp_outline (d : Desk) : d.catchUp = d.after d.catchingUp ∧
    d.catchUp.timers = { d.look.timers with due := [] } :=
  fireAll_outline d.look d.look.timers.due rfl

/-- A service that catches up forgets nothing. -/
theorem not_forgotten_catchingUp (d : Desk) : .forgotten ∉ d.history d.catchingUp := by
  have hfires : ∀ (n : Nat) (d' : Desk),
      .forgotten ∉ d'.history (List.replicate n (.fire 0)) := by
    intro n
    induction n with
    | zero => exact fun _ => List.not_mem_nil
    | succ n ih =>
      intro d' hmem
      rcases List.mem_append.mp hmem with hmem | hmem
      · obtain ⟨e, -, he⟩ := List.mem_map.mp hmem
        cases he
      · exact ih _ hmem
  intro hmem
  rcases List.mem_append.mp hmem with hmem | hmem
  · obtain ⟨e, -, he⟩ := List.mem_map.mp hmem
    cases he
  · exact hfires _ _ hmem

/-- When the service has caught up, a deadline that the clock has reached has settled its call. -/
theorem Recorded.caughtUp (recorded : Recorded h d) (admitted : .admitted i a t now ∈ h)
    (ht : t ≠ noTimeout) {before since : List Incident} {c : Call}
    (tale : Tale h d.timers.due d.timers.queue i c a t now before since)
    (armed : since.any (Incident.disarms i) = false)
    (reached : min (now + t * 1000000) (UInt64.size - 1) ≤ d.clock.now) :
    ∃ s, d.catchUp.shown i = some s := by
  obtain ⟨hcommands, htimers⟩ := d.catchUp_outline
  have hcalm : Calm d.catchingUp := by
    intro label a t hin
    rcases List.mem_cons.mp hin with hin | hin
    · cases hin
    · cases List.eq_of_mem_replicate hin
  have hafter : Recorded (h ++ d.history d.catchingUp) d.catchUp :=
    hcommands ▸ recorded.after hcalm
  obtain ⟨c', before', since', found', tale'⟩ :=
    hafter.told.tale (List.mem_append_left _ admitted)
  have hsince := tale.goesOn tale'
  have hdisarmed : since'.any (Incident.disarms i) = true := by
    by_contra hnot
    obtain ⟨e, he, hi⟩ := tale'.waits ht (by simpa using hnot)
    rw [htimers, List.nil_append] at he
    -- what still waits is later than the clock
    have hlater := TimerService.lt_of_mem_look recorded.ordered he
    obtain ⟨-, hdeadline, -⟩ :=
      tale'.armed e (List.mem_append_right _ (htimers.symm ▸ he)) hi
    omega
  obtain ⟨x, hx, hdis⟩ := List.any_eq_true.mp hdisarmed
  have hfired : x = .fired i := by
    cases x with
    | fired j => simpa [Incident.disarms] using hdis
    | forgotten =>
      rw [hsince] at hx
      rcases List.mem_append.mp hx with hx | hx
      · exact absurd (List.any_eq_false.mp armed _ hx) (by simp [Incident.disarms])
      · exact absurd hx d.not_forgotten_catchingUp
    | admitted _ _ _ _ | began _ _ | ended _ | expired _ _ => cases hdis
  have hverdict : (since'.findSome? (Incident.verdict i a t)).isSome = true := by
    rw [List.findSome?_isSome_iff]
    exact ⟨x, hx, by rw [hfired]; simp [Incident.verdict]⟩
  rw [shown, found', Option.bind_some, tale'.shown]
  exact Option.isSome_iff_exists.mp hverdict

/-- The action of a call and its deadline race for one result, in every run in which the actions
of calls leave their flags down, whenever the timer service looks at the clock and fires.

The calls that are admitted are those that were answered with a future. Nothing else begins than
their actions, each at most once, and the plain runs that the rail admits. Whatever happens to a
call since its admission is allowed at its time, and its future shows what was first to settle
it, now and later. A deadline that was neither fired nor forgotten still waits, and if the clock
shows it, the timer service has settled the call when it has caught up. -/
theorem first_settles (rail : Rail Status) (clock : Clock) (service : String) (queued : Bool)
    (commands : List Command) (calm : Calm commands) :
    let start := opening rail clock service queued
    let d := start.after commands
    let h := start.history commands
    executed d.events = begun h ∧
    (admissions h).map Prod.snd = acceptances commands (start.replies commands) ∧
    (admissions h).map Prod.fst = (d.futures.map Prod.snd).reverse ∧
    (∀ x ∈ h, ∀ i, x.call? = some i → i ∈ d.futures.map Prod.snd) ∧
    (∀ i, h.countP (Incident.begins i) ≤ 1) ∧
    ∀ i ∈ d.futures.map Prod.snd, ∃ before a t now since,
      h = before ++ .admitted i a t now :: since ∧ Fair i a t now since ∧
      d.shown i = since.findSome? (Incident.verdict i a t) ∧
      (∀ s, d.shown i = some s → ∀ more, Calm more → (d.after more).shown i = some s) ∧
      (t ≠ noTimeout → since.any (Incident.disarms i) = false →
        (∃ e ∈ d.timers.waiting, e.task = i ∧
          e.deadline = min (now + t * 1000000) (UInt64.size - 1)) ∧
        (min (now + t * 1000000) (UInt64.size - 1) ≤ d.clock.now →
          ∃ s, d.catchUp.shown i = some s)) := by
  intro start d h
  have hopening := recorded_opening rail clock service queued
  have recorded : Recorded h d := hopening.after calm
  obtain ⟨haccepted, hfutures⟩ := admissions_history start commands
  have hhanded : (admissions h).map Prod.fst = (d.futures.map Prod.snd).reverse := by
    rw [hfutures]
    simp [start, h, opening]
  have hmem : ∀ i, i ∈ (admissions h).map Prod.fst ↔ i ∈ d.futures.map Prod.snd := fun i => by
    rw [hhanded, List.mem_reverse]
  refine ⟨executed_after start commands, haccepted, hhanded, ?_, recorded.told.begins_once, ?_⟩
  · exact fun x hx i hcall => (hmem i).mp (recorded.told.admitted hx hcall)
  · intro i hi
    obtain ⟨⟨j, a, t⟩, hin, rfl⟩ := List.mem_map.mp ((hmem i).mpr hi)
    obtain ⟨x, hx, hadmission⟩ := List.mem_filterMap.mp hin
    cases x with
    | admitted _ _ _ now =>
      cases hadmission
      obtain ⟨c, before, since, found, tale⟩ := recorded.told.tale hx
      have hshown : d.shown j = since.findSome? (Incident.verdict j a t) := by
        rw [shown, found]
        exact tale.shown
      refine ⟨before, a, t, now, since, tale.split, tale.fair, hshown, ?_, ?_⟩
      · -- the first verdict stays the first when the history goes on
        intro s hs more hmore
        have hlater := recorded.after hmore
        obtain ⟨c', before', since', found', tale'⟩ :=
          hlater.told.tale (List.mem_append_left (d.history more) hx)
        rw [shown, found', Option.bind_some, tale'.shown, tale.goesOn tale', List.findSome?_append,
          ← hshown, hs, Option.some_or]
      · intro ht hany
        obtain ⟨e, he, hi⟩ := tale.waits ht hany
        exact ⟨⟨e, he, hi, (tale.armed e he hi).2.1⟩, recorded.caughtUp hx ht tale hany⟩
    | _ => cases hadmission

/-- Jobs that wait: one that is too slow for its deadline, one that is quick enough, one that is
executed after its deadline but before the deadline is fired, and one whose deadline is forgotten
when it is due. In the end a call finds the timer service stopped. -/
def raceDay : List Command :=
  [.start, .call "slow" { label := some "slow", ending := .returns (.ok "late") } 50,
    .call "quick" { label := some "quick", steps := [.advance 10], ending := .returns (.ok "done") }
      100,
    .runJob 1, .advance 60, .look, .fire 0, .runJob 0,
    .call "late" { label := some "late", ending := .returns (.ok "just") } 10, .advance 20,
    .look, .runJob 0, .fire 0,
    .call "spared" { label := some "spared", ending := .returns (.ok "free") } 10, .advance 20,
    .shutdown, .look, .runJob 0,
    .call "lost" { label := some "lost", ending := .returns (.ok "never") } 10]

theorem first_settles_raceDay :
    Calm raceDay ∧ Calm [.start, .advance 60, .look, .fire 0] ∧
    ∃ built : Rail.Report Status (Rail Status),
      Rail.ofConfig "rail" ⟨2, { trailingPeriodMillis := 1000 }, ⟨10, 100⟩⟩ 0 = .ok built ∧
      let start := opening built.value (.startingAt 0) "timers" true
      let d := start.after raceDay
      let later := d.after [.start, .advance 60, .look, .fire 0]
      (acceptances raceDay (start.replies raceDay)).map Prod.snd = [50, 100, 10, 10] ∧
        begun (start.history raceDay) = [some "quick", some "late", some "spared"] ∧
        ∃ slow quick, d.shown 0 = some slow ∧ slow.kind = .timeout ∧
          d.shown 1 = some quick ∧ quick.kind = .success ∧
          (d.shown 2).map Settled.kind = some .success ∧
          (d.shown 3).map Settled.kind = some .success ∧
          later.shown 0 = some slow ∧ later.shown 1 = some quick := by
  have hcalm : Calm raceDay := by
    intro label a t hin
    simp only [raceDay, List.mem_cons, Command.call.injEq, reduceCtorEq, List.not_mem_nil,
      false_or, or_false] at hin
    rcases hin with ⟨-, rfl, -⟩ | ⟨-, rfl, -⟩ | ⟨-, rfl, -⟩ | ⟨-, rfl, -⟩ | ⟨-, rfl, -⟩ <;> decide
  have hmore : Calm [.start, .advance 60, .look, .fire 0] := by
    intro label a t hin
    simp at hin
  have hanswers : (Rail.ofConfig (ω := Status) "rail"
      ⟨2, { trailingPeriodMillis := 1000 }, ⟨10, 100⟩⟩ 0).toOption.map (fun r =>
        let start := opening r.value (.startingAt 0) "timers" true
        ((acceptances raceDay (start.replies raceDay)).map Prod.snd,
          executed (start.after raceDay).events)) =
      some ([50, 100, 10, 10], [some "quick", some "late", some "spared"]) := by
    decide +kernel
  have hresults : (Rail.ofConfig (ω := Status) "rail"
      ⟨2, { trailingPeriodMillis := 1000 }, ⟨10, 100⟩⟩ 0).toOption.map (fun r =>
        let d := (opening r.value (.startingAt 0) "timers" true).after raceDay
        (d.futures.map Prod.snd, (d.shown 0).map Settled.kind, (d.shown 1).map Settled.kind,
          (d.shown 2).map Settled.kind, (d.shown 3).map Settled.kind)) =
      some ([3, 2, 1, 0], some .timeout, some .success, some .success, some .success) := by
    decide +kernel
  obtain ⟨built, hbuilt⟩ : ∃ built, Rail.ofConfig (ω := Status) "rail"
      ⟨2, { trailingPeriodMillis := 1000 }, ⟨10, 100⟩⟩ 0 = .ok built := by
    cases hr : Rail.ofConfig (ω := Status) "rail"
        ⟨2, { trailingPeriodMillis := 1000 }, ⟨10, 100⟩⟩ 0 with
    | error e =>
      rw [hr] at hresults
      cases hresults
    | ok built => exact ⟨built, rfl⟩
  rw [hbuilt] at hanswers hresults
  simp only [Except.toOption, Option.map_some, Option.some.injEq, Prod.mk.injEq]
    at hanswers hresults
  obtain ⟨haccepted, hexecuted⟩ := hanswers
  obtain ⟨hfutures, hzero, hone, hlate, hspared⟩ := hresults
  obtain ⟨slow, hslow, htimeout⟩ := Option.map_eq_some_iff.mp hzero
  obtain ⟨quick, hquick, hdone⟩ := Option.map_eq_some_iff.mp hone
  obtain ⟨hbegun, -, -, -, -, hrace⟩ :=
    first_settles built.value (.startingAt 0) "timers" true raceDay hcalm
  obtain ⟨-, -, -, -, -, -, -, -, hstays0, -⟩ := hrace 0 (by rw [hfutures]; decide)
  obtain ⟨-, -, -, -, -, -, -, -, hstays1, -⟩ := hrace 1 (by rw [hfutures]; decide)
  exact ⟨hcalm, hmore, built, hbuilt, haccepted, hbegun.symm.trans hexecuted, slow, quick, hslow,
    htimeout, hquick, hdone, hlate, hspared, hstays0 slow hslow _ hmore,
    hstays1 quick hquick _ hmore⟩

end Desk

end Turnstile
