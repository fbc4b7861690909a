import Turnstile.Text.Record

/-!
# Clocks set by hand

Two 64-bit readings that move together: monotonic nanoseconds, which can be set
to any value, and wall milliseconds since the clock was made. Both wrap.
-/

namespace Turnstile

structure Clock where
  nanos : UInt64
  wallMillis : UInt64
  deriving DecidableEq, Repr

namespace Clock

def startingAt (nanos : Nat) : Clock := ⟨UInt64.ofNat nanos, 0⟩

/-- The monotonic reading. -/
def now (c : Clock) : Nat := c.nanos.toNat

/-- The wall reading, which counts only what `advance` added. -/
def wall (c : Clock) : Nat := c.wallMillis.toNat

def set (c : Clock) (nanos : Nat) : Clock := { c with nanos := UInt64.ofNat nanos }

def advance (c : Clock) (millis : Nat) : Clock :=
  ⟨c.nanos + UInt64.ofNat (millis * 1000000), c.wallMillis + UInt64.ofNat millis⟩

def inspect (c : Clock) : String :=
  Text.record "ManualClock" [("nanos", toString c.now), ("epoch_millis", toString c.wall)]

theorem now_lt (c : Clock) : c.now < UInt64.size := c.nanos.toNat_lt

theorem now_set (c : Clock) {n : Nat} (h : n < UInt64.size) : (c.set n).now = n := by
  show (UInt64.ofNat n).toNat = n
  rw [UInt64.toNat_ofNat', Nat.mod_eq_of_lt h]

@[simp] theorem wall_set (c : Clock) (n : Nat) : (c.set n).wall = c.wall := rfl

theorem now_advance (c : Clock) (millis : Nat) :
    (c.advance millis).now = (c.now + millis * 1000000) % UInt64.size := by
  simp [now, advance]

end Clock

end Turnstile
