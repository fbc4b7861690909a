import Mathlib.Data.List.Basic
import Mathlib.Data.List.Induction
import Turnstile.Proofs.DeskHistory

/-!
# Races for a promise

The action of a call and its deadline race for the promise. A race is fair when whatever happens
to the call is allowed at its time; what happens first settles the call. The tale of a call says
how the call stands after a history.
-/

namespace Turnstile

namespace Incident

variable {i : Nat} {a : Action Errand} {t : Nat} {x : Incident}

/-- What an incident settles the promise of call `i` on, if nothing has settled it before: the
result of its action, or its timeout. -/
def verdict (i : Nat) (a : Action Errand) (timeoutMillis : Nat) :
    Incident → Option (Settled Status)
  | .ended j => if j = i then some (CallResult.settled a.ending.result) else none
  | .fired j =>
    if j = i then some (.ofError .timeout (.timeout (.ofMillis timeoutMillis))) else none
  | _ => none

/-- Whether the action of call `i` begins. -/
def begins (i : Nat) : Incident → Bool
  | .began owner _ => owner = some i
  | _ => false

/-- Whether the deadline of call `i` is found expired. -/
def finds (i : Nat) : Incident → Bool
  | .expired j _ => j = i
  | _ => false

/-- Whether the deadline of call `i` is no longer fired afterwards. -/
def disarms (i : Nat) : Incident → Bool
  | .fired j => j = i
  | .forgotten => true
  | _ => false

theorem verdict_of_other (h : x.call? ≠ some i) : x.verdict i a t = none := by
  cases x <;> simp_all [verdict]

theorem begins_of_other (h : x.call? ≠ some i) : x.begins i = false := by
  cases x <;> simp_all [begins]

theorem disarms_of_other (h : x.call? ≠ some i) (hx : x ≠ .forgotten) :
    x.disarms i = false := by
  cases x <;> simp_all [disarms]

end Incident

/-- What may happen to call `i` after what has `past` since its admission. Its action begins once,
and not when the promise is settled; it ends when it has begun. The deadline is found expired in
its time. It is fired after that, once, and not when it was fired or forgotten before. -/
def Allows (i : Nat) (a : Action Errand) (t now : Nat) (past : List Incident) : Incident → Prop
  | .admitted j _ _ _ => j ≠ i
  | .forgotten => True
  | .began owner label => owner = some i → label = a.label ∧
      past.any (Incident.begins i) = false ∧ past.findSome? (Incident.verdict i a t) = none
  | .ended j => j = i → past.any (Incident.begins i) = true
  | .expired j time => j = i → t ≠ noTimeout ∧
      min (now + t * 1000000) (UInt64.size - 1) ≤ time ∧ past.any (Incident.disarms i) = false
  | .fired j => j = i →
      past.any (Incident.finds i) = true ∧ past.any (Incident.disarms i) = false

/-- A fair race for the promise of a call: whatever happens to it is allowed at its time. -/
def Fair (i : Nat) (a : Action Errand) (t now : Nat) (since : List Incident) : Prop :=
  ∀ past x rest, since = past ++ x :: rest → Allows i a t now past x

variable {i : Nat} {a : Action Errand} {t now : Nat} {since : List Incident} {x : Incident}

theorem Allows.of_other (h : x.call? ≠ some i) : Allows i a t now since x := by
  cases x <;> simp_all [Allows]

theorem Fair.snoc (h : Fair i a t now since) (hx : Allows i a t now since x) :
    Fair i a t now (since ++ [x]) := by
  intro past y rest hsplit
  rcases List.eq_nil_or_concat rest with rfl | ⟨rest', z, rfl⟩
  · obtain ⟨rfl, hxy⟩ := List.append_inj' hsplit rfl
    rw [List.singleton_inj.mp hxy] at hx
    exact hx
  · rw [List.concat_eq_append, ← List.cons_append, ← List.append_assoc] at hsplit
    exact h past y rest' (List.append_inj' hsplit rfl).1

theorem Fair.prefix (h : Fair i a t now (since ++ [x])) : Fair i a t now since := by
  intro past y rest hsplit
  refine h past y (rest ++ [x]) ?_
  rw [hsplit, List.append_assoc, List.cons_append]

/-- In a fair race the action begins at most once. -/
theorem Fair.begins_once (h : Fair i a t now since) :
    since.countP (Incident.begins i) ≤ 1 := by
  induction since using List.reverseRecOn with
  | nil => exact Nat.zero_le 1
  | append_singleton since x ih =>
    rw [List.countP_append, List.countP_singleton]
    cases hx : x.begins i with
    | false => simpa using ih h.prefix
    | true =>
      -- nothing of it has begun before
      have hbefore : since.countP (Incident.begins i) = 0 := by
        have hallowed := h since x [] rfl
        cases x with
        | began owner label =>
          have hnone := (hallowed (by simpa [Incident.begins] using hx)).2.1
          rw [List.countP_eq_zero]
          intro y hy
          simpa using List.any_eq_false.mp hnone y hy
        | _ => cases hx
      simp [hbefore]

/-- What a history tells of call `i`, which stands as `c` says, while the deadlines in `due` were
found expired and those in `queue` wait behind them. -/
structure Tale (h : List Incident) (due queue : List (TimerEntry Nat)) (i : Nat) (c : Call)
    (a : Action Errand) (t now : Nat) (before since : List Incident) : Prop where
  split : h = before ++ .admitted i a t now :: since
  fresh : ∀ x ∈ before, x.call? ≠ some i
  fair : Fair i a t now since
  calm : .cancel ∉ a.steps
  shown : c.permit.settled? = since.findSome? (Incident.verdict i a t)
  pending : c.permit.settled? = none → c.permit.phase = .pending ∧ c.task.cancelled = false
  action : c.task.action = if since.any (Incident.begins i) then none else some a
  timeout : c.task.timeoutMillis = t
  armed : ∀ e ∈ due ++ queue, e.task = i → t ≠ noTimeout ∧
    e.deadline = min (now + t * 1000000) (UInt64.size - 1) ∧
    since.any (Incident.disarms i) = false
  found : ∀ e ∈ due, e.task = i → since.any (Incident.finds i) = true
  waits : t ≠ noTimeout → since.any (Incident.disarms i) = false → ∃ e ∈ due ++ queue, e.task = i

/-- A call was admitted, or it was given up before. -/
def Stands (h : List Incident) (due queue : List (TimerEntry Nat)) (i : Nat) (c : Call) : Prop :=
  (∃ a t now before since, Tale h due queue i c a t now before since) ∨
    c.permit.settled? = none ∧ (∀ x ∈ h, x.call? ≠ some i) ∧ ∀ e ∈ due ++ queue, e.task ≠ i

variable {h : List Incident} {due due' queue queue' : List (TimerEntry Nat)} {c c' : Call}
  {before : List Incident}

/-- A call that was just admitted. -/
theorem Tale.admitted (fresh : ∀ x ∈ h, x.call? ≠ some i) (calm : .cancel ∉ a.steps)
    (early : ∀ e ∈ due, e.task ≠ i)
    (armed : ∀ e ∈ queue, e.task = i →
      t ≠ noTimeout ∧ e.deadline = (Desk.taskOf a t now).deadline)
    (waits : t ≠ noTimeout → ∃ e ∈ queue, e.task = i) :
    Tale (h ++ [.admitted i a t now]) due queue i ⟨Permit.hold 1, Desk.taskOf a t now⟩ a t now h
      [] where
  split := rfl
  fresh := fresh
  fair := by
    intro past x rest hsplit
    cases past <;> cases hsplit
  calm := calm
  shown := rfl
  pending := fun _ => ⟨rfl, rfl⟩
  action := rfl
  timeout := rfl
  armed := by
    intro e he hi
    rcases List.mem_append.mp he with he | he
    · exact absurd hi (early e he)
    · obtain ⟨ht, hdeadline⟩ := armed e he hi
      exact ⟨ht, hdeadline.trans (if_neg ht), rfl⟩
  found := fun e he hi => absurd hi (early e he)
  waits := by
    intro ht _
    obtain ⟨e, he, hi⟩ := waits ht
    exact ⟨e, List.mem_append_right _ he, hi⟩

/-- When the history goes on, so does the tale of a call. -/
theorem Tale.goesOn (tale : Tale h due queue i c a t now before since) {later : List Incident}
    {before' since' : List Incident}
    (tale' : Tale (h ++ later) due' queue' i c' a t now before' since') :
    since' = since ++ later := by
  have hsplit := tale'.split.symm.trans (congrArg (· ++ later) tale.split)
  rw [List.append_assoc, List.cons_append] at hsplit
  -- the call is admitted only once
  refine ((List.append_cons_inj_of_notMem ?_ ?_).mp hsplit).2.2
  · exact fun hold => tale'.fresh _ hold rfl
  · intro hnew
    obtain ⟨past, rest, hpast⟩ := List.append_of_mem hnew
    exact tale'.fair past _ rest hpast rfl

/-- One more incident. -/
theorem Tale.snoc (tale : Tale h due queue i c a t now before since)
    (allowed : Allows i a t now since x)
    (shown : c'.permit.settled? = c.permit.settled?.or (x.verdict i a t))
    (pending : c'.permit.settled? = none →
      c'.permit.phase = .pending ∧ c'.task.cancelled = false)
    (action : c'.task.action = if x.begins i then none else c.task.action)
    (timeout : c'.task.timeoutMillis = c.task.timeoutMillis)
    (armed : ∀ e ∈ due' ++ queue', e.task = i → e ∈ due ++ queue ∧ x.disarms i = false)
    (found : ∀ e ∈ due', e.task = i → e ∈ due ∨ x.finds i = true)
    (waits : x.disarms i = false → ∀ e ∈ due ++ queue, e.task = i → e ∈ due' ++ queue') :
    Tale (h ++ [x]) due' queue' i c' a t now before (since ++ [x]) where
  split := by rw [tale.split, List.append_assoc, List.cons_append]
  fresh := tale.fresh
  fair := tale.fair.snoc allowed
  calm := tale.calm
  shown := by rw [shown, tale.shown, List.findSome?_append, List.findSome?_singleton]
  pending := pending
  action := by
    rw [action, tale.action, List.any_append]
    cases since.any (Incident.begins i) <;> simp
  timeout := timeout.trans tale.timeout
  armed := by
    intro e he hi
    obtain ⟨hold, hx⟩ := armed e he hi
    obtain ⟨ht, hdeadline, hsince⟩ := tale.armed e hold hi
    exact ⟨ht, hdeadline, by simp [List.any_append, hsince, hx]⟩
  found := by
    intro e he hi
    rw [List.any_append, Bool.or_eq_true]
    rcases found e he hi with hold | hx
    · exact .inl (tale.found e hold hi)
    · exact .inr (by simp [hx])
  waits := by
    intro ht hany
    obtain ⟨hsince, hx⟩ := Bool.or_eq_false_iff.mp (List.any_append.symm.trans hany)
    obtain ⟨e, he, hi⟩ := tale.waits ht hsince
    exact ⟨e, waits (by simpa using hx) e he hi, hi⟩

/-- What does not concern a call does not change how it stands. -/
theorem Stands.other (stands : Stands h due queue i c) (hx : x.call? ≠ some i)
    (hf : x ≠ .forgotten) (sameDue : ∀ e : TimerEntry Nat, e.task = i → (e ∈ due' ↔ e ∈ due))
    (sameQueue : ∀ e : TimerEntry Nat, e.task = i → (e ∈ queue' ↔ e ∈ queue)) :
    Stands (h ++ [x]) due' queue' i c := by
  have same : ∀ e : TimerEntry Nat, e.task = i → (e ∈ due' ++ queue' ↔ e ∈ due ++ queue) :=
    fun e he => by rw [List.mem_append, List.mem_append, sameDue e he, sameQueue e he]
  rcases stands with ⟨a, t, now, before, since, tale⟩ | ⟨hopen, hnone, hqueue⟩
  · refine .inl ⟨a, t, now, before, since ++ [x], tale.snoc (.of_other hx) ?_ tale.pending ?_ rfl
      ?_ ?_ ?_⟩
    · rw [Incident.verdict_of_other hx, Option.or_none]
    · rw [Incident.begins_of_other hx]
      rfl
    · exact fun e he hi => ⟨(same e hi).mp he, Incident.disarms_of_other hx hf⟩
    · exact fun e he hi => .inl ((sameDue e hi).mp he)
    · exact fun _ e he hi => (same e hi).mpr he
  · refine .inr ⟨hopen, ?_, fun e he hi => hqueue e ((same e hi).mp he) hi⟩
    intro y hy
    rcases List.mem_append.mp hy with hy | hy
    · exact hnone y hy
    · rwa [List.mem_singleton.mp hy]

/-- Callbacks that wait do not change how a call stands. -/
theorem Stands.touch (stands : Stands h due queue i c) (task : c'.task = c.task)
    (phase : c'.permit.phase = c.permit.phase) : Stands h due queue i c' := by
  have hshown : c'.permit.settled? = c.permit.settled? := by
    rw [Promise.settled?, phase, Promise.settled?]
  rcases stands with ⟨a, t, now, before, since, tale⟩ | ⟨hopen, hnone, hqueue⟩
  · exact .inl ⟨a, t, now, before, since, { tale with
      shown := hshown.trans tale.shown
      pending := by rw [hshown, phase, task]; exact tale.pending
      action := by rw [task]; exact tale.action
      timeout := by rw [task]; exact tale.timeout }⟩
  · exact .inr ⟨hshown.trans hopen, hnone, hqueue⟩

/-- When the timer service is stopped, no deadline waits any longer. -/
theorem Stands.forgotten (stands : Stands h due queue i c) :
    Stands (h ++ [.forgotten]) [] [] i c := by
  rcases stands with ⟨a, t, now, before, since, tale⟩ | ⟨hopen, hnone, -⟩
  · refine .inl ⟨a, t, now, before, since ++ [.forgotten],
      tale.snoc (x := .forgotten) trivial Option.or_none.symm tale.pending rfl rfl ?_ ?_ ?_⟩
    · exact fun e he => nomatch he
    · exact fun e he => nomatch he
    · exact fun hx => nomatch hx
  · refine .inr ⟨hopen, ?_, nofun⟩
    intro y hy
    rcases List.mem_append.mp hy with hy | hy
    · exact hnone y hy
    · rw [List.mem_singleton.mp hy]
      nofun

/-- The action of a call begins while its promise is open. -/
theorem Tale.begins (tale : Tale h due queue i c a t now before since)
    (pending : c.permit.settled? = none) {a' : Action Errand} (found : c.task.action = some a') :
    a' = a ∧ Tale (h ++ [.began (some i) a'.label]) due queue i
      { c with task := { c.task with action := none } } a t now before
      (since ++ [.began (some i) a'.label]) := by
  have haction := tale.action
  rw [found] at haction
  cases hbegun : since.any (Incident.begins i) with
  | true =>
    rw [hbegun] at haction
    cases haction
  | false =>
    rw [hbegun] at haction
    obtain rfl : a' = a := Option.some.inj haction
    refine ⟨rfl, tale.snoc (x := .began (some i) a'.label) ?_ Option.or_none.symm ?_ ?_ rfl ?_ ?_
      ?_⟩
    · exact fun _ => ⟨rfl, hbegun, tale.shown ▸ pending⟩
    · exact tale.pending
    · simp [Incident.begins]
    · exact fun e he hi => ⟨he, rfl⟩
    · exact fun e he hi => .inl he
    · exact fun _ e he hi => he

/-- The action of a call ends and settles its promise, unless that is settled. -/
theorem Tale.ends (tale : Tale h due queue i c a t now before since)
    (begun : since.any (Incident.begins i) = true)
    (shown : c'.permit.settled? = c.permit.settled?.or (some (CallResult.settled a.ending.result)))
    (same : c'.task = c.task) :
    Tale (h ++ [.ended i]) due queue i c' a t now before (since ++ [.ended i]) := by
  refine tale.snoc (x := .ended i) (fun _ => begun) ?_ ?_ ?_ ?_ ?_ ?_ ?_
  · simpa [Incident.verdict] using shown
  · intro hnone
    rw [shown] at hnone
    cases hc : c.permit.settled? <;> simp [hc] at hnone
  · simp [same, Incident.begins]
  · rw [same]
  · exact fun e he hi => ⟨he, rfl⟩
  · exact fun e he hi => .inl he
  · exact fun _ e he hi => he

/-- A look at the clock finds the deadline of a call expired. -/
theorem Tale.expires {e : TimerEntry Nat} (tale : Tale h due (e :: queue) i c a t now before since)
    (own : e.task = i) {time : Nat} (expired : e.deadline ≤ time) :
    Tale (h ++ [.expired i time]) (due ++ [e]) queue i c a t now before
      (since ++ [.expired i time]) := by
  have hmem : ∀ y, y ∈ due ++ [e] ++ queue ↔ y ∈ due ++ e :: queue := fun y => by simp
  obtain ⟨ht, hdeadline, hsince⟩ := tale.armed e (by simp) own
  refine tale.snoc (x := .expired i time) (fun _ => ⟨ht, hdeadline ▸ expired, hsince⟩)
    Option.or_none.symm tale.pending rfl rfl ?_ ?_ ?_
  · exact fun y hy hi => ⟨(hmem y).mp hy, rfl⟩
  · exact fun _ _ _ => .inr (by simp [Incident.finds])
  · exact fun _ y hy hi => (hmem y).mpr hy

/-- The deadline of a call is fired and settles its promise, unless that is settled. -/
theorem Tale.fires {e : TimerEntry Nat} {ahead behind : List (TimerEntry Nat)}
    (tale : Tale h (ahead ++ e :: behind) queue i c a t now before since)
    (own : e.task = i) (apart : ∀ y ∈ ahead ++ behind ++ queue, y.task ≠ i)
    (shown : c'.permit.settled? =
      c.permit.settled?.or (some (.ofError .timeout (.timeout (.ofMillis t)))))
    (action : c'.task.action = c.task.action)
    (timeout : c'.task.timeoutMillis = c.task.timeoutMillis) :
    Tale (h ++ [.fired i]) (ahead ++ behind) queue i c' a t now before (since ++ [.fired i]) := by
  have hfound := tale.found e (by simp) own
  obtain ⟨-, -, hsince⟩ := tale.armed e (by simp) own
  refine tale.snoc (x := .fired i) (fun _ => ⟨hfound, hsince⟩) ?_ ?_ ?_ timeout ?_ ?_ ?_
  · simpa [Incident.verdict] using shown
  · intro hnone
    rw [shown] at hnone
    cases hc : c.permit.settled? <;> simp [hc] at hnone
  · simpa [Incident.begins] using action
  · exact fun y hy hi => absurd hi (apart y hy)
  · exact fun y hy hi => absurd hi (apart y (List.mem_append_left _ hy))
  · simp [Incident.disarms]

end Turnstile
