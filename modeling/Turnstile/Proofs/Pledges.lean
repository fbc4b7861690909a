import Mathlib.Logic.Function.Basic
import Turnstile.Proofs.BreakerRun
import Turnstile.Rail.Lobby

/-!
# Promises and plain permits

A promise for permits is nothing but permits that give themselves back. A run in which promises
are made and settled can be rewritten into one that does without: a promise becomes a request, the
attempt that settles it becomes a release at the time of the clock, and every later attempt is left
out. Step by step the two runs have the same rail and are answered the same.
-/

namespace Turnstile

variable {ω : Type}

/-- What is done to a breaker of a rail other than through the rail. -/
inductive Handling (ω : Type) where
  | ask (now : Nat)
  | tell (outcome : ω) (now : Nat)
  | pull (l : Lever)
  deriving DecidableEq

/-- The operation of a breaker that goes by a gauge. -/
def Handling.move (gauge : Gauge) : Handling ω → Breaker.Move ω
  | .ask now => .ask now
  | .tell o now => .tell gauge o now
  | .pull l => .pull l

namespace Mechanism

/-- The breaker that a mechanism is, with the gauge it goes by. -/
def circuit? (live : Gauge) : Mechanism ω → Option (Breaker × Gauge)
  | .breaker b gauge => some (b, gauge.getD live)
  | _ => none

variable [Outcome ω]

/-- Handles a breaker; `live` is the gauge of the rail. -/
def handle (live : Gauge) (h : Handling ω) : Mechanism ω → Mechanism ω
  | .breaker b gauge => .breaker (b.step (h.move (gauge.getD live))) gauge
  | m => m

end Mechanism

namespace Rail

variable [Outcome ω]

/-- Handles the breaker at a place among the mechanisms, if one stands there. -/
def handle (r : Rail ω) (index : Nat) (h : Handling ω) : Rail ω :=
  { r with mechanisms := r.mechanisms.modify index (Mechanism.handle r.metrics.health h) }

end Rail

namespace Lobby

/-- An operation that no promise takes part in. -/
inductive Act (ω : Type) where
  | acquire (permits now : Nat)
  | release (permits : Nat) (outcome : ω) (now : Nat)
  | releaseUnused (permits now : Nat)
  | count (c : Counter ω) (events now : Nat)
  | handle (index : Nat) (h : Handling ω)
  | setClock (nanos : Nat)
  | advance (millis : Nat)
  deriving DecidableEq

/-- An operation that promises may take part in. -/
inductive Deal (ω : Type) where
  | act (a : Act ω)
  | promise (label : String) (permits now : Nat)
  /-- An attempt to settle the promise under a label with a value or an error. -/
  | settle (label : String) (s : Settled ω)

variable [Outcome ω]

/-- Performs an operation; shows the answer if it asks the rail for admission. -/
def perform (l : Lobby ω) : Act ω → List (Option Rejection) × Lobby ω
  | .acquire n now => ([(l.acquire n now).value.1], (l.acquire n now).value.2)
  | .release n o now => ([], (l.release n o now).value)
  | .releaseUnused n now => ([], (l.releaseUnused n now).value)
  | .count c n now => ([], { l with rail := (l.rail.count c n now).value })
  | .handle index h => ([], { l with rail := l.rail.handle index h })
  | .setClock nanos => ([], l.setClock nanos)
  | .advance millis => ([], l.advance millis)

def deal (l : Lobby ω) : Deal ω → List (Option Rejection) × Lobby ω
  | .act a => l.perform a
  | .promise label n now =>
    ([(l.acquirePermit label n now).value.1], (l.acquirePermit label n now).value.2)
  | .settle label s => ([], (l.settle label s).value.2)

/-- The answers to all requests for admission in a run, and the lobby after it. -/
def run {α : Type} (step : Lobby ω → α → List (Option Rejection) × Lobby ω) (l : Lobby ω) :
    List α → List (Option Rejection) × Lobby ω
  | [] => ([], l)
  | a :: as => ((step l a).1 ++ ((step l a).2.run step as).1, ((step l a).2.run step as).2)

/-- The permits of every promise that is not settled yet, by label. -/
abbrev Pledges := String → Option Nat

/-- What takes the place of an operation when promises are done without, and the pledges after
it. The lobby has no promises of its own. -/
def plainly (l : Lobby ω) (pledges : Pledges) : Deal ω → List (Act ω) × Pledges
  | .act a => ([a], pledges)
  | .promise label n now =>
    ([.acquire n now],
      if (l.acquire n now).value.1 = none then Function.update pledges label (some n)
      else pledges)
  | .settle label s =>
    match pledges label with
    | some n => ([.release n s.outcome l.now], Function.update pledges label none)
    | none => ([], pledges)

/-- The run without promises that takes the place of a run. -/
def plain (l : Lobby ω) (pledges : Pledges) : List (Deal ω) → List (Act ω)
  | [] => []
  | d :: deals =>
    (l.plainly pledges d).1 ++
      (l.run perform (l.plainly pledges d).1).2.plain (l.plainly pledges d).2 deals

theorem run_append {α : Type} (step : Lobby ω → α → List (Option Rejection) × Lobby ω)
    (l : Lobby ω) (as bs : List α) :
    l.run step (as ++ bs) =
      ((l.run step as).1 ++ ((l.run step as).2.run step bs).1,
        ((l.run step as).2.run step bs).2) := by
  induction as generalizing l with
  | nil => rfl
  | cons a as ih => simp only [List.cons_append, run, ih, List.append_assoc]

/-- A run is rewritten step by step: what comes later changes nothing. -/
theorem plain_prefix (l : Lobby ω) (pledges : Pledges) (deals more : List (Deal ω)) :
    l.plain pledges deals <+: l.plain pledges (deals ++ more) := by
  induction deals generalizing l pledges with
  | nil => exact List.nil_prefix
  | cons d deals ih =>
    rw [List.cons_append, plain, plain, List.prefix_append_right_inj]
    exact ih _ _

variable {l k : Lobby ω} {label : String} {n now : Nat}

theorem value_acquire (l : Lobby ω) (n now : Nat) :
    (l.acquire n now).value =
      ((l.rail.acquire n now).value.1, { l with rail := (l.rail.acquire n now).value.2 }) := rfl

theorem acquirePermit_granted (label : String) (h : (l.acquire n now).value.1 = none) :
    (l.acquirePermit label n now).value = (none, { (l.acquire n now).value.2 with
      permits := Labelled.assign label (Permit.hold n) l.permits }) := by
  rw [value_acquire] at h
  simp [acquirePermit, value_acquire, h]

theorem acquirePermit_refused (label : String) {reason : Rejection}
    (h : (l.acquire n now).value.1 = some reason) :
    (l.acquirePermit label n now).value = (some reason, (l.acquire n now).value.2) := by
  rw [value_acquire] at h
  simp [acquirePermit, value_acquire, h]

/-- The first attempt gives the permits back at the time of the clock. -/
theorem settle_held (s : Settled ω)
    (h : Labelled.get? l.permits label = some (Permit.hold n)) :
    (l.settle label s).value.2 = { l with
      rail := (l.rail.release n s.outcome l.now).value
      permits := Labelled.assign label { phase := .done s } l.permits } := by
  simp only [settle, h]
  rfl

/-- A later attempt leaves the rail alone. -/
theorem settle_spent (s : Settled ω) {p : Permit ω}
    (h : Labelled.get? l.permits label = some p) (spent : p.phase ≠ .pending) :
    (l.settle label s).value.2 = { l with permits := Labelled.assign label p l.permits } := by
  have hlost : p.begin? s = none := by
    unfold Promise.begin?
    split
    · contradiction
    · rfl
  simp [settle, h, Permit.settle, hlost]

/-- What stands under a label that has a pledge, or none. -/
def Backs (p? : Option (Permit ω)) : Option Nat → Prop
  | some n => p? = some (Permit.hold n)
  | none => ∀ p ∈ p?, p.phase ≠ .pending

/-- Two lobbies alike but for the promises, the first with a promise for every pledge. -/
structure Mirrors (l k : Lobby ω) (pledges : Pledges) : Prop where
  rail : l.rail = k.rail
  clock : l.clock = k.clock
  own : l.own = k.own
  backed : ∀ label, Backs (Labelled.get? l.permits label) (pledges label)

variable {pledges : Pledges}

theorem Mirrors.sameTime (h : l.Mirrors k pledges) : l.now = k.now := by
  rw [Lobby.now, Lobby.now, h.clock, h.own]

theorem Mirrors.withRail (h : l.Mirrors k pledges) (r : Rail ω) :
    ({ l with rail := r } : Lobby ω).Mirrors { k with rail := r } pledges :=
  ⟨rfl, h.clock, h.own, h.backed⟩

theorem Mirrors.withClock (h : l.Mirrors k pledges) (c : Clock) :
    ({ l with clock := c } : Lobby ω).Mirrors { k with clock := c } pledges :=
  ⟨h.rail, rfl, h.own, h.backed⟩

/-- A promise under a label concerns the pledge under that label only. -/
theorem Mirrors.assign (h : l.Mirrors k pledges) (label : String) {p : Permit ω}
    {pledge : Option Nat} (hp : Backs (some p) pledge) :
    ({ l with permits := Labelled.assign label p l.permits } : Lobby ω).Mirrors k
      (Function.update pledges label pledge) := by
  refine ⟨h.rail, h.clock, h.own, ?_⟩
  intro other
  by_cases hl : other = label
  · subst hl
    rw [Labelled.get?_assign_self, Function.update_self]
    exact hp
  · rw [Labelled.get?_assign_of_ne hl, Function.update_of_ne hl]
    exact h.backed other

/-- An operation without promises does the same in both lobbies. -/
theorem Mirrors.perform (h : l.Mirrors k pledges) (a : Act ω) :
    (l.perform a).1 = (k.perform a).1 ∧ (l.perform a).2.Mirrors (k.perform a).2 pledges := by
  cases a with
  | acquire n now =>
    simp only [Lobby.perform, value_acquire, h.rail]
    exact ⟨trivial, h.withRail _⟩
  | release n o now =>
    simp only [Lobby.perform, Lobby.release, Traced.value_bind, Traced.value_pure, h.rail]
    exact ⟨trivial, h.withRail _⟩
  | releaseUnused n now =>
    simp only [Lobby.perform, Lobby.releaseUnused, Traced.value_bind, Traced.value_pure, h.rail]
    exact ⟨trivial, h.withRail _⟩
  | count c n now =>
    simp only [Lobby.perform, h.rail]
    exact ⟨trivial, h.withRail _⟩
  | handle index op =>
    simp only [Lobby.perform, h.rail]
    exact ⟨trivial, h.withRail _⟩
  | setClock nanos =>
    simp only [Lobby.perform, setClock, h.clock]
    exact ⟨trivial, h.withClock _⟩
  | advance millis =>
    simp only [Lobby.perform, advance, h.clock]
    exact ⟨trivial, h.withClock _⟩

/-- An operation and what takes its place do the same to the rail and are answered the same. -/
theorem Mirrors.deal (h : l.Mirrors k pledges) (d : Deal ω) :
    (l.deal d).1 = (k.run Lobby.perform (k.plainly pledges d).1).1 ∧
      (l.deal d).2.Mirrors (k.run Lobby.perform (k.plainly pledges d).1).2
        (k.plainly pledges d).2 := by
  cases d with
  | act a =>
    obtain ⟨hanswer, hnext⟩ := h.perform a
    simp only [Lobby.deal, plainly, Lobby.run, List.append_nil]
    exact ⟨hanswer, hnext⟩
  | promise label n now =>
    obtain ⟨hanswer, hnext⟩ := h.perform (.acquire n now)
    simp only [Lobby.perform, List.cons.injEq, and_true] at hanswer hnext
    simp only [Lobby.deal, plainly, Lobby.run, Lobby.perform, List.append_nil]
    cases hk : (k.acquire n now).value.1 with
    | none =>
      rw [hk] at hanswer
      rw [acquirePermit_granted label hanswer, if_pos rfl]
      exact ⟨rfl, hnext.assign label rfl⟩
    | some reason =>
      rw [hk] at hanswer
      rw [acquirePermit_refused label hanswer, if_neg (by simp)]
      exact ⟨rfl, hnext⟩
  | settle label s =>
    have hback := h.backed label
    cases hp : pledges label with
    | some n =>
      rw [hp] at hback
      obtain ⟨hanswer, hnext⟩ := h.perform (.release n s.outcome k.now)
      simp only [Lobby.deal, settle_held s hback, plainly, hp, Lobby.run, List.append_nil]
      refine ⟨hanswer, ?_⟩
      rw [h.sameTime]
      exact hnext.assign label (p := { phase := .done s }) (by simp [Backs])
    | none =>
      rw [hp] at hback
      simp only [Lobby.deal, plainly, hp, Lobby.run]
      refine ⟨trivial, ?_⟩
      cases hg : Labelled.get? l.permits label with
      | none => simpa [settle, hg] using h
      | some p =>
        rw [hg] at hback
        rw [settle_spent s hg (hback p rfl)]
        have hnext := h.assign label hback
        rwa [← hp, Function.update_eq_self] at hnext

theorem Mirrors.run (h : l.Mirrors k pledges) (deals : List (Deal ω)) :
    (l.run Lobby.deal deals).1 = (k.run Lobby.perform (k.plain pledges deals)).1 ∧
      ∃ pledges', (l.run Lobby.deal deals).2.Mirrors
        (k.run Lobby.perform (k.plain pledges deals)).2 pledges' := by
  induction deals generalizing l k pledges with
  | nil => exact ⟨rfl, pledges, h⟩
  | cons d deals ih =>
    obtain ⟨hanswers, hnext⟩ := h.deal d
    obtain ⟨hrest, hend⟩ := ih hnext
    rw [plain, run_append, Lobby.run]
    exact ⟨by rw [hanswers, hrest], hend⟩

/-- On every rail, a run with promises leaves the same rail and the same clock behind as the run
without, and is answered the same. This holds after every step, as what has been rewritten stays
when the run goes on. -/
theorem plain_refines (rail : Rail ω) (clock : Clock) (own : Option Nat)
    (deals more : List (Deal ω)) :
    let l : Lobby ω := ⟨rail, clock, own, []⟩
    let acts := l.plain (fun _ => none) deals
    acts <+: l.plain (fun _ => none) (deals ++ more) ∧
      (l.run deal deals).1 = (l.run perform acts).1 ∧
      (l.run deal deals).2.rail = (l.run perform acts).2.rail ∧
      (l.run deal deals).2.clock = (l.run perform acts).2.clock := by
  intro l acts
  have hopen : l.Mirrors l (fun _ => none) := ⟨rfl, rfl, rfl, by simp [Backs, l, Labelled.get?]⟩
  obtain ⟨hanswers, pledges, hend⟩ := hopen.run deals
  exact ⟨l.plain_prefix _ deals more, hanswers, hend.rail, hend.clock⟩

/-- One of two promises is refused and made again; the other is settled twice, at the time of the
clock and not of its making. -/
example :
    let rail : Rail Status := ⟨"door", ⟨.create _ 1 100 0 (by decide) (by decide), .replicate _ 0⟩,
      [.limiter (.ofCapacity 3)]⟩
    ({ rail := rail, clock := .startingAt 5 } : Lobby Status).plain (fun _ => none)
      [.promise "a" 2 7, .promise "b" 2 8, .settle "b" (.ofValue .success "early"),
        .act (.setClock 40), .settle "a" (.ofError .timeout .cancelled),
        .promise "b" 3 50, .settle "a" (.ofValue .success "late"),
        .settle "b" (.ofValue .success "done")] =
      [.acquire 2 7, .acquire 2 8, .setClock 40, .release 2 .timeout 40, .acquire 3 50,
        .release 3 .success 40] := by
  decide +kernel

end Lobby

end Turnstile
