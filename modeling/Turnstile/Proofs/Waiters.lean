import Turnstile.Proofs.Polling
import Turnstile.Proofs.Readers

/-!
# No waiter is lost

Waiters are polled and readers block while attempts to settle begin and scripts run, and each of
them takes its steps in its own time, also between the moment when the value is shown and the one
when they are told. Nobody misses the value for all that: the readers wake up, the waiters that were
polled in vain are woken once, and whoever looks again has the value.
-/

namespace Turnstile

variable {ω : Type}

namespace Session

variable {N : Notify} {M : Monitor} {standing : N.State → Nat → Notify.Standing}
  {holder : M.State → Option (Option Nat)} {s : Session N M ω} {v : Settled ω}

/-- What every turn keeps. -/
structure Kept (standing : N.State → Nat → Notify.Standing)
    (holder : M.State → Option (Option Nat)) (s : Session N M ω) : Prop where
  composed : s.machine.Composed
  inTurn : s.InTurn
  tended : s.Tended standing
  seated : s.Seated holder

/-- At first nobody waits. -/
theorem Kept.start (listens : N.Lawful standing) (locks : M.Lawful holder) {m : Machine ω}
    (rest : m.AtRest) :
    Kept standing holder ({ machine := m } : Session N M ω) where
  composed := rest.composed
  inTurn := ⟨List.nil_suffix, fun _ => rfl⟩
  tended := ⟨by simp, fun i _ => listens.idle i⟩
  seated := ⟨by simp, fun i _ => ⟨locks.idle_awake i, by simp [locks.idle]⟩, by simp [locks.idle]⟩

variable [Outcome ω]

theorem Kept.turn (h : s.Kept standing holder) (listens : N.Lawful standing)
    (locks : M.Lawful holder) {t : Turn ω} (quiet : t.Quiet) : (s.turn t).Kept standing holder :=
  ⟨(s.turn_carries quiet).composed h.composed, h.inTurn.turn quiet,
    h.tended.turn listens h.inTurn quiet, h.seated.turn locks h.inTurn quiet⟩

theorem Kept.after (h : s.Kept standing holder) (listens : N.Lawful standing)
    (locks : M.Lawful holder) {turns : List (Turn ω)} (quiet : ∀ t ∈ turns, t.Quiet) :
    (s.after turns).Kept standing holder := by
  induction turns generalizing s with
  | nil => exact h
  | cons t turns ih =>
    obtain ⟨ht, hturns⟩ := List.forall_mem_cons.mp quiet
    exact ih (h.turn listens locks ht) hturns

/-- A turn that needs nobody from outside. -/
def Turn.IsInner (t : Turn ω) : Prop := t = .tick ∨ ∃ i, t = .read i

omit [Outcome ω] in
theorem Turn.IsInner.quiet {t : Turn ω} (h : t.IsInner) : t.Quiet := by
  rcases h with rfl | ⟨i, rfl⟩ <;> trivial

/-- What is left for the machine and for those that wait. -/
def burden (s : Session N M ω) : Nat := 5 * s.machine.weight + s.bells.length

omit [Outcome ω] in
theorem ring_burden (locks : M.Lawful holder) {b : Bell} {rest : List Bell}
    (hs : s.bells = b :: rest) (free : b = .lock → holder s.monitor = none) :
    (s.ring rest b).burden < s.burden := by
  have hbells : (s.ring rest b).bells = rest := by
    cases b with
    | lock =>
      obtain ⟨m', hm', -⟩ := locks.lock_free s.monitor none (free rfl)
      rw [ring, hm']
    | _ => rfl
  rw [burden, burden, hbells, machine_ring, hs, List.length_cons]
  omega

/-- What runs can be moved on, if need be after a reader that holds the lock. -/
theorem Kept.goes_on (h : s.Kept standing holder) (locks : M.Lawful holder)
    (busy : s.machine.stack ≠ [] ∨ s.bells ≠ []) :
    ∃ turns : List (Turn ω), (∀ t ∈ turns, t.IsInner) ∧ (s.after turns).burden < s.burden := by
  cases hs : s.bells with
  | nil =>
    -- a step of the machine takes off weight, also when it shows the value
    have hlt : s.machine.step.handUp.weight < s.machine.weight := by
      rw [Machine.weight_handUp]
      exact Machine.weight_step_lt _ (by simpa [hs] using busy)
    have hbells : (s.advance s.machine.step.handUp).bells.length ≤ 4 := by
      simp only [advance]
      split <;> simp [Bell.all, hs]
    refine ⟨[.tick], by simp [Turn.IsInner], ?_⟩
    show s.tick.burden < s.burden
    rw [tick_nil hs, burden, burden]
    show 5 * s.machine.step.handUp.weight + _ < _
    omega
  | cons b rest =>
    obtain ⟨v, hv⟩ := Machine.isDone_iff.mp (h.inTurn.isDone (by simp [hs]))
    have hshown : s.settled? = some v := settled?_eq_some.mpr hv
    by_cases hfree : b = .lock → holder s.monitor = none
    · refine ⟨[.tick], by simp [Turn.IsInner], ?_⟩
      show s.tick.burden < s.burden
      rw [tick_cons hs]
      exact ring_burden locks hs hfree
    · obtain ⟨rfl, hheld⟩ : b = .lock ∧ holder s.monitor ≠ none := by simpa using hfree
      obtain ⟨thread, hholder⟩ := Option.ne_none_iff_exists'.mp hheld
      cases thread with
      | none => simp [h.seated.settler, hs] at hholder
      | some j =>
        obtain ⟨hmachine, hbells, -⟩ := s.read_frame j
        refine ⟨[.read j, .tick], by simp [Turn.IsInner], ?_⟩
        show (s.read j).tick.burden < s.burden
        have hsame : s.burden = (s.read j).burden := by rw [burden, burden, hmachine, hbells]
        rw [tick_cons (hbells.trans hs), hsame]
        exact ring_burden locks (hbells.trans hs) fun _ => h.seated.frees locks hshown hholder

/-- Left to itself everything comes to rest. -/
theorem Kept.comes_to_rest (h : s.Kept standing holder) (listens : N.Lawful standing)
    (locks : M.Lawful holder) : ∃ turns : List (Turn ω), (∀ t ∈ turns, t.IsInner) ∧
      (s.after turns).machine.stack = [] ∧ (s.after turns).bells = [] := by
  induction hn : s.burden using Nat.strongRecOn generalizing s with
  | ind n ih =>
    by_cases hrest : s.machine.stack = [] ∧ s.bells = []
    · exact ⟨[], by simp, hrest⟩
    · obtain ⟨turns, hinner, hlt⟩ := h.goes_on locks (by
        by_cases hstack : s.machine.stack = []
        · exact .inr fun hbells => hrest ⟨hstack, hbells⟩
        · exact .inl hstack)
      have hkept := h.after listens locks fun t ht => (hinner t ht).quiet
      obtain ⟨more, hmore, hend⟩ := ih _ (hn ▸ hlt) hkept rfl
      refine ⟨turns ++ more, fun t ht => ?_, by rwa [after_append]⟩
      exact (List.mem_append.mp ht).elim (hinner t) (hmore t)

/-- A value that is stored is shown in the end, and all are told. -/
theorem Kept.announces (h : s.Kept standing holder) (listens : N.Lawful standing)
    (locks : M.Lawful holder) (stored : s.machine.value? = some v) :
    ∃ turns : List (Turn ω), (∀ t ∈ turns, t.IsInner) ∧
      (s.after turns).settled? = some v ∧ (s.after turns).announced = true := by
  obtain ⟨turns, hinner, hstack, hbells⟩ := h.comes_to_rest listens locks
  have hquiet : ∀ t ∈ turns, t.Quiet := fun t ht => (hinner t ht).quiet
  have hstored := (s.after_carries hquiet).stays v stored
  have htried : (s.after turns).machine.promise.phase ≠ .pending := by
    intro hp
    rw [Machine.value?, hp] at hstored
    cases hstored
  have hdone := ((h.after listens locks hquiet).composed.atRest hstack).isDone htried
  obtain ⟨v', hv'⟩ := Machine.isDone_iff.mp hdone
  rw [Machine.value?, hv', Phase.value?, Option.some.injEq] at hstored
  subst hstored
  exact ⟨turns, hinner, settled?_eq_some.mpr hv', announced_iff.mpr ⟨hdone, hbells⟩⟩

/-- What a waiter can rely on. It is told a value only if that is shown. Its waker is called once if
it was polled in vain and all have been told, and otherwise never. A poll ends after seven steps of
the waiter; it answers with the value if this was shown before, unless the waiter waits already and
is yet to be told. -/
structure ServesWaiter (s : Session N M ω) (i : Nat) (w : Waiter ω) : Prop where
  told : ∀ v, some v ∈ w.answers → s.settled? = some v
  wakes : w.wakes = if s.announced && w.vain then 1 else 0
  polls : (∀ v, some v ∉ w.answers) → ∀ more : List (Turn ω), (∀ t ∈ more, t.Quiet) →
    7 ≤ more.countP (Turn.isWork i) →
    ∃ w' a rest, (s.after (.poll i :: more)).waiters[i]? = some w' ∧
      w'.answers = w.answers ++ a :: rest ∧
      (∀ v, a = some v → (s.after (.poll i :: more)).settled? = some v) ∧
      ∀ v, s.settled? = some v → (w.stage = .checked → s.announced = true) → a = some v

/-- What a reader can rely on. It is told a value that is shown, or that its time is over. If it
still waits when the value is shown, it is told nothing else. When all have been told it does not
sleep, and it returns after two steps of its own, or one more of another reader. -/
structure ServesReader (s : Session N M ω) (i : Nat) (r : Reader ω) : Prop where
  told : ∀ a, r.told? = some a → (∃ v, s.settled? = some v ∧ a = .settled (some v)) ∨
    ∃ d, r.wait = some d ∧ r.start + d ≤ s.now ∧ a = .failed (.waitTimedOut d)
  keeps : ∀ v, s.settled? = some v → r.told? = none →
    ∀ more : List (Turn ω), (∀ t ∈ more, t.Quiet) →
    ∃ r', (s.after more).readers[i]? = some r' ∧ ∀ a, r'.told? = some a → a = .settled (some v)
  returns : ∀ v, s.settled? = some v → s.announced = true → r.told? = none →
    M.asleep s.monitor i = false ∧
    ∃ first : List (Turn ω), first.length ≤ 1 ∧ (∀ t ∈ first, ∃ j, t = .read j) ∧
      ∃ r', (s.after (first ++ [.read i, .read i])).readers[i]? = some r' ∧
        r'.told? = some (.settled (some v))

theorem Kept.servesWaiter (h : s.Kept standing holder) (listens : N.Lawful standing) {i : Nat}
    {w : Waiter ω} (hw : s.waiters[i]? = some w) : s.ServesWaiter i w where
  told := (h.tended.attended i w hw).told
  wakes := (h.tended.attended i w hw).woken
  polls fresh more quiet enough := by
    have present : w.stage ≠ .returned := fun hgone => by
      obtain ⟨v, hv⟩ := (h.tended.attended i w hw).gone hgone
      exact fresh v hv
    obtain ⟨w', a, rest, hw', hanswers, hvalue⟩ :=
      poll_ends listens h.inTurn h.tended hw present quiet enough
    have hquiet : ∀ t ∈ Turn.poll i :: more, t.Quiet := List.forall_mem_cons.mpr ⟨trivial, quiet⟩
    have hafter := (h.tended.after listens h.inTurn hquiet).2
    refine ⟨w', a, rest, hw', hanswers, fun v hv => ?_, hvalue⟩
    exact (hafter.attended i w' hw').told v (by simp [hanswers, hv])

theorem Kept.servesReader (h : s.Kept standing holder) (listens : N.Lawful standing)
    (locks : M.Lawful holder) {i : Nat} {r : Reader ω} (hr : s.readers[i]? = some r) :
    s.ServesReader i r where
  told _ ha := (h.seated.placed i r hr).told ha
  keeps v shown waits more quiet := by
    have hpost : r.post ≠ .returned none := Reader.told?_eq_none.mp waits none
    obtain ⟨r', hr', hpost'⟩ := after_waits quiet shown hr hpost
    refine ⟨r', hr', fun a ha => ?_⟩
    have hplaced := (h.after listens locks quiet).seated.placed i r' hr'
    cases hp : r'.post with
    | returned got =>
      cases got with
      | none => exact absurd hp hpost'
      | some u =>
        have hu := (after_shown quiet shown).symm.trans (hplaced.got u hp)
        rw [Reader.told?_of_value hp] at ha
        exact (Option.some.inj ha).symm.trans (by rw [hu])
    | _ => simp [Reader.told?, hp] at ha
  returns v shown announced waits := by
    obtain ⟨hdone, hbells⟩ := announced_iff.mp announced
    have hheard : s.heard = true := by simp [heard, hdone, hbells]
    have hleft : holder s.monitor ≠ some none := by simp [h.seated.settler, hbells]
    obtain ⟨first, hlength, hreads, r', hr', hpost⟩ :=
      h.seated.returns locks hheard hleft shown hr (Reader.told?_eq_none.mp waits)
    exact ⟨((h.seated.placed i r hr).roused hheard).1, first, hlength, hreads, r', hr',
      Reader.told?_of_value hpost⟩

/-- Whatever hook, callbacks and task do, whenever attempts begin, and in whatever order waiters and
readers take their steps: the first attempt is stored, what is stored is shown in the end and all
are told, and what is shown stays. No waiter is lost and no reader. -/
theorem no_waiter_lost (N : Notify) (standing : N.State → Nat → Notify.Standing)
    (listens : N.Lawful standing) (M : Monitor) (holder : M.State → Option (Option Nat))
    (locks : M.Lawful holder) (hook : Option (Script ω)) (work : Option (Work ω))
    (fallback : Fallback) (quiet : fallback.Quiet) (turns : List (Turn ω))
    (calm : ∀ t ∈ turns, t.Quiet) :
    let start : Session N M ω :=
      { machine := { promise := { hook := hook }, work := work, fallback := fallback } }
    let s := start.after turns
    (∀ st v, s.machine.raised = none → s.machine.value? = none → s.machine.attempt? st = some v →
      (s.turn (.begin st)).machine.value? = some v) ∧
    (∀ v, s.machine.value? = some v → ∃ more : List (Turn ω), (∀ t ∈ more, t.IsInner) ∧
      (s.after more).settled? = some v ∧ (s.after more).announced = true) ∧
    (∀ v, s.settled? = some v → ∀ more : List (Turn ω), (∀ t ∈ more, t.Quiet) →
      (s.after more).settled? = some v) ∧
    (∀ i w, s.waiters[i]? = some w → s.ServesWaiter i w) ∧
    ∀ i r, s.readers[i]? = some r → s.ServesReader i r := by
  intro start s
  have hrest : start.machine.AtRest := ⟨⟨quiet, rfl, trivial, by simp [start]⟩, rfl⟩
  have hkept : s.Kept standing holder :=
    (Kept.start listens locks hrest).after listens locks calm
  exact ⟨fun st v sound first tries => begin_stores sound first tries,
    fun v stored => hkept.announces listens locks stored,
    fun v shown more hmore => after_shown hmore shown,
    fun i w hw => hkept.servesWaiter listens hw,
    fun i r hr => hkept.servesReader listens locks hr⟩

/-- A hook that tries to settle in its turn and panics. -/
def rashHook : Script Status := [.complete .error "again", .panic (.text "oops")]

/-- A poll with four steps of the waiter. -/
def polled (i : Nat) : List (Turn Status) := .poll i :: List.replicate 4 (.work i)

/-- Two waiters are polled in vain, the first one before the promise is settled and the last one
while the hook runs; the one between is never polled. A reader sleeps. When the value is shown,
another reader has just looked in vain and holds the lock, so the first tick after that has to wait
for it, and the last waiter is polled once more before all are told. -/
def rush : List (Turn Status) :=
  [.await, .await] ++ polled 0 ++ [.block none, .block (some (.ofMillis 1))] ++
    List.replicate 3 (.read 0) ++ List.replicate 2 (.read 1) ++
    [.begin (.on .success "seen" [.fail .error .cancelled]), .begin (.complete .success "first"),
      .tick, .await] ++ polled 2 ++ [.begin (.complete .timeout "second")] ++
    List.replicate 6 .tick ++ [.poll 2, .work 2, .read 1] ++ List.replicate 4 .tick

def rushed : Session .plain .plain Status :=
  Session.after { machine := { promise := { hook := some rashHook } } } rush

/-- The first attempt gives all of them the value, and the two that were polled are woken. -/
theorem no_waiter_lost_rush :
    Notify.plain.Lawful (fun s => s) ∧ Monitor.plain.Lawful Prod.fst ∧
      Fallback.note.Quiet ∧ (∀ t ∈ rush, t.Quiet) ∧
      rushed.waiters.map (·.answers.length) = [1, 0, 2] ∧
      rushed.waiters.map Waiter.wakes = [1, 0, 1] ∧
      ∃ v : Settled Status, v.outcome = .success ∧ rushed.settled? = some v ∧
        (∀ i w, rushed.waiters[i]? = some w →
          ∃ w', (rushed.after (.poll i :: List.replicate 7 (.work i))).waiters[i]? = some w' ∧
            some v ∈ w'.answers) ∧
        ∀ (i : Nat) r, rushed.readers[i]? = some r →
          ∃ (more : List (Turn Status)) (r' : Reader Status),
            (rushed.after more).readers[i]? = some r' ∧ r'.told? = some (.settled (some v)) := by
  have calm : ∀ t ∈ rush, t.Quiet := by simp [rush, polled, Turn.Quiet]
  have houtcome : rushed.settled?.map Settled.outcome = some .success := by decide +kernel
  obtain ⟨v, hv, hsuccess⟩ := Option.map_eq_some_iff.mp houtcome
  have hannounced : rushed.announced = true := by decide +kernel
  have hvain : rushed.waiters.map Waiter.vain = [true, false, true] := by decide +kernel
  have hunserved : (rushed.waiters.all fun w => w.answers.all Option.isNone) = true := by
    decide +kernel
  have huntold : (rushed.readers.all fun r => r.told?.isNone) = true := by decide +kernel
  obtain ⟨-, -, -, hwaiters, hreaders⟩ := no_waiter_lost .plain _ Notify.plain_lawful .plain _
    Monitor.plain_lawful (some rashHook) none .note Fallback.quiet_note rush calm
  rw [← rushed.eq_def] at hwaiters hreaders
  refine ⟨Notify.plain_lawful, Monitor.plain_lawful, Fallback.quiet_note, calm,
    by decide +kernel, ?_, v, hsuccess, hv, fun i w hw => ?_, fun i r hr => ?_⟩
  · have hwoken : ∀ w ∈ rushed.waiters, w.wakes = if w.vain then 1 else 0 := by
      intro w hw
      obtain ⟨i, hi⟩ := List.mem_iff_getElem?.mp hw
      simpa [hannounced] using (hwaiters i w hi).wakes
    rw [List.map_congr_left hwoken]
    have hcalls := congrArg (List.map fun b : Bool => if b then 1 else 0) hvain
    rwa [List.map_map] at hcalls
  · have fresh : ∀ u, some u ∉ w.answers := by
      intro u hu
      have hall := List.all_eq_true.mp hunserved w (List.mem_of_getElem? hw)
      simpa using List.all_eq_true.mp hall _ hu
    obtain ⟨w', a, rest, hw', hanswers, -, hvalue⟩ := (hwaiters i w hw).polls fresh
      (List.replicate 7 (.work i)) (by simp [Turn.Quiet]) (by simp [Turn.isWork])
    refine ⟨w', hw', ?_⟩
    rw [hanswers, hvalue v hv fun _ => hannounced]
    simp
  · have waits : r.told? = none := by
      simpa using List.all_eq_true.mp huntold r (List.mem_of_getElem? hr)
    obtain ⟨-, first, -, -, r', hr', htold⟩ := (hreaders i r hr).returns v hv hannounced waits
    exact ⟨_, r', hr', htold⟩

end Session

end Turnstile
