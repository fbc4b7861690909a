/-!
# Rings of counting slots

Time is cut into periods of one resolution, numbered from the start. Period `p`
is counted in slot `p % size`, so a slot serves one period after another: the
first event of a later period clears it, and an event of an earlier period
than the one it serves comes too late and is not counted. Counters are 64-bit
words and wrap.
-/

namespace Turnstile

/-- All counts together. -/
def addUp (counts : List Nat) : Nat := counts.foldr (· + ·) 0

/-- `width` counters of one period, or of none yet. -/
structure Slot (width : Nat) where
  period : Option Nat
  counts : Vector UInt64 width
  deriving DecidableEq

/-- What an event finds in the slot of its period. -/
inductive Arrival where
  /-- The slot serves this very period. -/
  | current
  /-- The slot is unused or serves an earlier period. -/
  | fresh (previous : Option Nat)
  /-- The slot already serves a later period. -/
  | late
  deriving DecidableEq, Repr

namespace Slot

variable {width : Nat}

def unused : Slot width := ⟨none, .replicate width 0⟩

def arrival (s : Slot width) (p : Nat) : Arrival :=
  match s.period with
  | none => .fresh none
  | some q => if q = p then .current else if p < q then .late else .fresh (some q)

/-- Adds `n` to counter `c`. -/
def bump (counts : Vector UInt64 width) (c : Fin width) (n : UInt64) : Vector UInt64 width :=
  counts.set c (counts[c] + n)

/-- The slot after `n` events of counter `c` in period `p`. -/
def receive (s : Slot width) (p : Nat) (c : Fin width) (n : UInt64) : Slot width :=
  match s.arrival p with
  | .current => { s with counts := bump s.counts c n }
  | .fresh _ => ⟨some p, bump (.replicate width 0) c n⟩
  | .late => s

/-- The counts of period `p`, which are zero unless the slot serves it. -/
def read (s : Slot width) (p : Nat) : Vector UInt64 width :=
  if s.period = some p then s.counts else .replicate width 0

end Slot

structure SlotRing (width : Nat) where
  size : Nat
  slots : Vector (Slot width) size
  start : Nat
  /-- The length of a period in nanoseconds. -/
  resolution : Nat
  size_pos : 0 < size
  resolution_pos : 0 < resolution

namespace SlotRing

variable {width : Nat}

def create (width size resolution start : Nat) (hs : 0 < size) (hr : 0 < resolution) :
    SlotRing width :=
  ⟨size, .replicate size .unused, start, resolution, hs, hr⟩

/-- The period of a time; all times up to the start belong to period zero. -/
def period (r : SlotRing width) (time : Nat) : Nat := (time - r.start) / r.resolution

/-- The time at which a period begins. -/
def periodStart (r : SlotRing width) (p : Nat) : Nat := r.start + p * r.resolution

/-- The slot that serves period `p` in its turn. -/
def place (r : SlotRing width) (p : Nat) : Fin r.size :=
  ⟨p % r.size, Nat.mod_lt _ r.size_pos⟩

/-- How many periods a trailing window covers: at least one, at most the whole ring. -/
def periodsIn (r : SlotRing width) (trailing : Nat) : Nat :=
  min (max ((trailing + r.resolution - 1) / r.resolution) 1) r.size

/-- The first period of the window that ends at `now`. -/
def firstPeriod (r : SlotRing width) (trailing now : Nat) : Nat :=
  r.period now + 1 - r.periodsIn trailing

/-- The periods of the window that ends at `now`, oldest first. -/
def window (r : SlotRing width) (trailing now : Nat) : List Nat :=
  let first := r.firstPeriod trailing now
  List.range' first (r.period now + 1 - first)

def arrival (r : SlotRing width) (now : Nat) : Arrival :=
  r.slots[r.place (r.period now)].arrival (r.period now)

/-- Counts `n` events of counter `c` at time `now`. -/
def add (r : SlotRing width) (c : Fin width) (n : UInt64) (now : Nat) : SlotRing width :=
  let p := r.period now
  let i := r.place p
  { r with slots := r.slots.set i (r.slots[i].receive p c n) }

def read (r : SlotRing width) (p : Nat) : Vector UInt64 width :=
  r.slots[r.place p].read p

/-- All events of counter `c` in the window that ends at `now`, however many. -/
def exactSum (r : SlotRing width) (c : Fin width) (trailing now : Nat) : Nat :=
  addUp ((r.window trailing now).map fun p => (r.read p)[c].toNat)

/-- The events of counter `c` in the window that ends at `now`, added up in a word that wraps. -/
def sum (r : SlotRing width) (c : Fin width) (trailing now : Nat) : Nat :=
  r.exactSum c trailing now % UInt64.size

/-- No word wraps when the window that ends at `now` is added up. -/
def SumsFit (r : SlotRing width) (trailing now : Nat) : Prop :=
  ∀ c, r.exactSum c trailing now < UInt64.size

instance (r : SlotRing width) (trailing now : Nat) : Decidable (r.SumsFit trailing now) :=
  inferInstanceAs (Decidable (∀ c, r.exactSum c trailing now < UInt64.size))

end SlotRing

end Turnstile
