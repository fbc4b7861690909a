import Mathlib.Logic.Relation
import Turnstile.Desk

/-!
# Moves of a desk

Whatever happens at a desk while an action is executed or the clock is moved is
made of a few elementary moves. The operations are taken apart into moves here, so
that a property has to be checked for each kind of move only.
-/

namespace Turnstile

/-- Where an admitted call stands. -/
inductive Standing where
  /-- Its promise is open and holds permits. -/
  | armed (permits : Nat)
  /-- Its promise is open and holds nothing: nobody was given it. -/
  | abandoned
  | completing
  | settled (o : Status)
  deriving DecidableEq, Repr

def Permit.standing (p : Permit Status) : Standing :=
  match p.phase, p.hook with
  | .pending, some n => .armed n
  | .pending, none => .abandoned
  | .completing _, _ => .completing
  | .done s, _ => .settled s.outcome

/-- Everything that settling a permit can come to. -/
theorem Permit.settle_cases (p : Permit Status) (r : Rail Status) (s : Settled Status)
    (now : Nat) (h : p.standing ≠ .abandoned) :
    ((p.settle r s now).value.rail = r ∧ (p.settle r s now).value.permit = p) ∨
    ∃ n, p.standing = .armed n ∧
      (p.settle r s now).value.rail = (r.release n s.outcome now).value ∧
      (p.settle r s now).value.permit = { phase := .done s } := by
  obtain ⟨phase, hook, callbacks⟩ := p
  cases phase with
  | completing s' => exact .inl ⟨rfl, rfl⟩
  | done s' => exact .inl ⟨rfl, rfl⟩
  | pending =>
    cases hook with
    | none => exact absurd rfl h
    | some n => exact .inr ⟨n, rfl, rfl, rfl⟩

/-- Callbacks that wait do not matter. -/
theorem Permit.standing_register (p : Permit Status) (c : Callback String) :
    Permit.standing (p.register c).2 = p.standing := by
  obtain ⟨phase, hook, callbacks⟩ := p
  cases phase <;> rfl

namespace Desk

/-- How all calls stand, in the order of their numbers. -/
def standings (d : Desk) : List Standing := d.calls.map fun c => c.permit.standing

/-- Call `i` was not given up. -/
def Live (d : Desk) (i : Nat) : Prop := ∃ s, d.standings[i]? = some s ∧ s ≠ .abandoned

/-- More calls do not matter to those before them. -/
theorem Live.append {d d' : Desk} {i : Nat} (hi : d.Live i) {more : List Standing}
    (h : d'.standings = d.standings ++ more) : d'.Live i := by
  obtain ⟨s, hs, hne⟩ := hi
  obtain ⟨hlt, -⟩ := List.getElem?_eq_some_iff.mp hs
  exact ⟨s, by rw [h, List.getElem?_append_left hlt, hs], hne⟩

/-- No deadline waits for a call that was given up. -/
def Attended (d : Desk) : Prop := ∀ e ∈ d.timers.waiting, d.Live e.task

/-- The elementary moves. -/
inductive Move : Desk → Desk → Prop where
  | report (d : Desk) (events : List (Event Status)) (notes timerNotes : List Note) :
      Move d { d with events := events, notes := notes, timerNotes := timerNotes }
  | turn (d : Desk) (clock : Clock) : Move d { d with clock := clock }
  /-- Deadlines expire or are fired, and no new ones come. -/
  | tick (d : Desk) {timers : TimerService Nat}
      (fewer : timers.waiting.Sublist d.timers.waiting) : Move d { d with timers := timers }
  /-- Only the task of a call changes, or the callbacks that wait for its promise. -/
  | touch (d : Desk) {i : Nat} {c c' : Call} (found : d.calls[i]? = some c)
      (same : c'.permit.standing = c.permit.standing) : Move d (d.setCall i c')
  | settle (d : Desk) {i : Nat} (s : Settled Status) (live : d.Live i) : Move d (d.settle i s).2
  | pull (d : Desk) (l : Lever) : Move d (d.pull l)

abbrev Moves : Desk → Desk → Prop := Relation.ReflTransGen Move

theorem standings_setCall {d : Desk} {i : Nat} {c c' : Call} (found : d.calls[i]? = some c)
    (same : c'.permit.standing = c.permit.standing) : (d.setCall i c').standings = d.standings := by
  refine List.ext_getElem? fun j => ?_
  simp only [standings, setCall, List.getElem?_map, List.getElem?_set]
  by_cases hij : i = j
  · subst hij
    obtain ⟨hi, hc⟩ := List.getElem?_eq_some_iff.mp found
    simp [hi, hc, same]
  · simp [hij]

/-- The parts of a desk that moves leave alone. -/
structure Frame (d d' : Desk) : Prop where
  futures : d'.futures = d.futures
  jobs : d'.jobs = d.jobs
  queued : d'.queued = d.queued
  waiting : d'.timers.waiting.Sublist d.timers.waiting

/-- Settling a call that was not given up does nothing, or gives the permits of an armed call
back and settles it. -/
theorem settle_cases (d : Desk) {i : Nat} (s : Settled Status) (live : d.Live i) :
    ((d.settle i s).2.rail = d.rail ∧ (d.settle i s).2.standings = d.standings) ∨
    ∃ n, d.standings[i]? = some (.armed n) ∧
      (d.settle i s).2.rail = (d.rail.release n s.outcome d.clock.now).value ∧
      (d.settle i s).2.standings = d.standings.set i (.settled s.outcome) := by
  obtain ⟨st, hst, hne⟩ := live
  simp only [standings, List.getElem?_map, Option.map_eq_some_iff] at hst
  obtain ⟨c, hc, rfl⟩ := hst
  rcases c.permit.settle_cases d.rail s d.clock.now hne with ⟨hr, hp⟩ | ⟨n, hn, hr, hp⟩
  · left
    constructor
    · simp [settle, hc, emit, noteDown, setCall, hr]
    · have hsame : (d.setCall i c).standings = d.standings := standings_setCall hc rfl
      simpa [settle, hc, emit, noteDown, setCall, hr, hp, standings] using hsame
  · right
    refine ⟨n, by simp [standings, hc, hn], ?_, ?_⟩
    · simp [settle, hc, emit, noteDown, setCall, hr]
    · simp [settle, hc, emit, noteDown, setCall, hp, standings, List.map_set, Permit.standing]

theorem Frame.refl (d : Desk) : Frame d d := ⟨rfl, rfl, rfl, List.Sublist.refl _⟩

theorem Frame.trans {d d' d'' : Desk} (h : Frame d d') (h' : Frame d' d'') : Frame d d'' :=
  ⟨h'.futures.trans h.futures, h'.jobs.trans h.jobs, h'.queued.trans h.queued,
    h'.waiting.trans h.waiting⟩

theorem Move.frame {d d' : Desk} (h : Move d d') : Frame d d' := by
  cases h with
  | report events notes timerNotes => exact ⟨rfl, rfl, rfl, List.Sublist.refl _⟩
  | turn clock => exact ⟨rfl, rfl, rfl, List.Sublist.refl _⟩
  | tick fewer => exact ⟨rfl, rfl, rfl, fewer⟩
  | touch found same => exact ⟨rfl, rfl, rfl, List.Sublist.refl _⟩
  | @settle i s live =>
    unfold Desk.settle
    split <;> exact ⟨rfl, rfl, rfl, List.Sublist.refl _⟩
  | pull l =>
    unfold Desk.pull
    split <;> exact ⟨rfl, rfl, rfl, List.Sublist.refl _⟩

/-- What a move does to the rail and to the standings of the calls. -/
theorem Move.effect {d d' : Desk} (h : Move d d') :
    (d'.rail = d.rail ∧ d'.standings = d.standings) ∨
    (∃ l, d'.rail = (d.pull l).rail ∧ d'.standings = d.standings) ∨
    ∃ i n o, d.standings[i]? = some (.armed n) ∧
      d'.rail = (d.rail.release n o d.clock.now).value ∧
      d'.standings = d.standings.set i (.settled o) := by
  cases h with
  | report events notes timerNotes => exact .inl ⟨rfl, rfl⟩
  | turn clock => exact .inl ⟨rfl, rfl⟩
  | tick fewer => exact .inl ⟨rfl, rfl⟩
  | touch found same => exact .inl ⟨rfl, standings_setCall found same⟩
  | @settle i s live =>
    rcases d.settle_cases s live with hsame | ⟨n, hn, hr, hst⟩
    · exact .inl hsame
    · exact .inr (.inr ⟨i, n, s.outcome, hn, hr, hst⟩)
  | pull l =>
    refine .inr (.inl ⟨l, rfl, ?_⟩)
    unfold Desk.pull
    split <;> rfl

theorem Moves.frame {d d' : Desk} (h : Moves d d') : Frame d d' := by
  induction h with
  | refl => exact .refl d
  | tail _ hm ih => exact ih.trans hm.frame

theorem Move.live {d d' : Desk} (h : Move d d') {j : Nat} (hj : d.Live j) : d'.Live j := by
  rcases h.effect with ⟨-, hst⟩ | ⟨l, -, hst⟩ | ⟨i, n, o, hi, -, hst⟩
  · rwa [Live, hst]
  · rwa [Live, hst]
  · rw [Live, hst, List.getElem?_set]
    by_cases hij : i = j
    · subst hij
      obtain ⟨hlt, -⟩ := List.getElem?_eq_some_iff.mp hi
      exact ⟨.settled o, by simp [hlt], by simp⟩
    · simpa [hij, Live] using hj

theorem Moves.live {d d' : Desk} (h : Moves d d') {j : Nat} (hj : d.Live j) : d'.Live j := by
  induction h with
  | refl => exact hj
  | tail _ hm ih => exact hm.live ih

theorem Moves.attended {d d' : Desk} (h : Moves d d') (hd : d.Attended) : d'.Attended :=
  fun e he => h.live (hd e (h.frame.waiting.subset he))

theorem emit_moves (d : Desk) (events : List (Event Status)) : Moves d (d.emit events) :=
  .single (.report d (d.events ++ events) d.notes d.timerNotes)

theorem noteDown_moves (d : Desk) (notes : List Note) : Moves d (d.noteDown notes) :=
  .single (.report d d.events (d.notes ++ notes) d.timerNotes)

theorem cancel_moves (d : Desk) (i : Nat) : Moves d (d.cancel i) := by
  unfold cancel
  split
  · exact .refl
  · rename_i c hc
    exact .single (.touch d hc rfl)

theorem expire_moves (d : Desk) {i : Nat} (hi : d.Live i) : Moves d (d.expire i) := by
  unfold expire
  split
  · exact .refl
  · split
    · exact .refl
    · rename_i c hc hdone
      have hsettle : Moves d (d.settle i (c.task.expiry id)).2 := .single (.settle d _ hi)
      exact (hsettle.trans (noteDown_moves _ _)).trans (cancel_moves _ i)

theorem setClock_moves (d : Desk) (nanos : Nat) : Moves d (d.setClock nanos) := .single (.turn d _)

theorem advance_moves (d : Desk) (millis : Nat) : Moves d (d.advance millis) := .single (.turn d _)

theorem look_moves (d : Desk) : Moves d d.look := .single (.tick d (by simp))

theorem fire_moves (d : Desk) (hd : d.Attended) (position : Nat) : Moves d (d.fire position) := by
  unfold fire
  split
  · exact .refl
  · rename_i e he
    -- the deadline no longer waits when it fires
    have htake : Moves d { d with timers := d.timers.take position, notes := [] } :=
      .tail (.single (.tick d (d.timers.waiting_take position))) (.report _ _ [] _)
    have hlive : d.Live e.task := hd e (List.mem_append_left _ (List.mem_of_getElem? he))
    exact (htake.trans (expire_moves _ (Moves.live htake hlive))).tail (.report _ _ _ _)

theorem errand_moves (owner : Option Nat) (d : Desk) (hd : d.Attended) (e : Errand) :
    Moves d (d.errand owner e) := by
  cases e with
  | isCancelled => exact d.emit_moves _
  | cancel =>
    cases owner with
    | none => exact d.emit_moves _
    | some i => exact (d.cancel_moves i).trans (emit_moves _ _)
  | advance millis => exact d.advance_moves millis
  | setClock nanos => exact d.setClock_moves nanos
  | pull l => exact .single (.pull d l)
  | look => exact d.look_moves
  | fire position => exact d.fire_moves hd position
  | tell verb => exact d.emit_moves _

theorem errands_moves (owner : Option Nat) (d : Desk) (hd : d.Attended) (steps : List Errand) :
    Moves d (steps.foldl (errand owner) d) := by
  induction steps generalizing d with
  | nil => exact .refl
  | cons e steps ih =>
    have hm := errand_moves owner d hd e
    exact hm.trans (ih _ (hm.attended hd))

theorem execute_moves (d : Desk) (hd : d.Attended) (owner : Option Nat) (a : Action Errand) :
    Moves d (d.execute owner a) := by
  have hshow := d.emit_moves [.action a.label]
  exact hshow.trans (errands_moves owner _ (hshow.attended hd) a.steps)

theorem on_moves (d : Desk) (label : String) (kind : Kind) (shown : String) :
    Moves d (d.on label kind shown) := by
  unfold on
  split
  · exact .refl
  · split
    · exact .refl
    · rename_i i _ _ c hc
      have hkeep : Moves d (d.setCall i { c with permit := (c.permit.register ⟨kind, shown⟩).2 }) :=
        .single (.touch d hc (Permit.standing_register _ _))
      simp only
      split
      · split
        · exact hkeep.trans (emit_moves _ _)
        · exact hkeep
      · exact hkeep

theorem runTask_moves (d : Desk) (hd : d.Attended) {i : Nat} (hi : d.Live i) :
    Moves d (d.runTask i) := by
  unfold runTask
  split
  · exact .refl
  · rename_i c hc
    split
    · exact .refl
    · split
      · exact .refl
      · rename_i a ha
        have htake : Moves d (d.setCall i { c with task := { c.task with action := none } }) :=
          .single (.touch d hc rfl)
        have hrun := htake.trans (execute_moves _ (htake.attended hd) (some i) a)
        simp only
        split
        · exact hrun
        · rename_i s hs
          -- the deadline may have come first; then this settles nothing
          exact hrun.tail (.settle _ s (Moves.live hrun hi))

end Desk

end Turnstile
