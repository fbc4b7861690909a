/-!
# Means of waiting

Two means of waiting are not part of this library, and what is built on them only uses the
operations below: a notification that futures poll, and a lock with a condition on which threads
sleep.
-/

namespace Turnstile

/-- A notification. A waiter has at most one future of it at a time, under its own number. -/
structure Notify where
  State : Type
  idle : State
  /-- A future is made. -/
  listen : State → Nat → State
  /-- The future is put on the list of those to be notified. -/
  enable : State → Nat → State
  /-- Whether the future has been notified. If not, the waker of its waiter is kept. -/
  poll : State → Nat → Bool × State
  /-- The future is given up. -/
  drop : State → Nat → State
  /-- All on the list are notified; how often the waker of each waiter is called. -/
  ring : State → (Nat → Nat) × State

/-- A lock and its condition. The threads that use it are the readers, by their numbers, and the
one that settles. -/
structure Monitor where
  State : Type
  idle : State
  /-- Takes the lock, if it is free. -/
  lock? : State → Option Nat → Option State
  unlock : State → State
  /-- The reader that has the lock frees it and sleeps on the condition. -/
  sleep : State → Nat → State
  asleep : State → Nat → Bool
  /-- The sleep of a reader has lasted long enough. -/
  rouse : State → Nat → State
  /-- Wakes all that sleep on the condition. -/
  notifyAll : State → State

namespace Notify

/-- Where the future of a waiter stands. -/
inductive Standing where
  | absent
  | created
  /-- On the list. -/
  | enabled
  /-- On the list, and polled. -/
  | waiting
  | notified
  deriving DecidableEq, Repr

/-- Whoever has a future is notified. -/
def Standing.ring : Standing → Standing
  | absent => absent
  | created | enabled | waiting | notified => notified

/-- The notification that keeps where each future stands, and nothing else. -/
def plain : Notify where
  State := Nat → Standing
  idle _ := .absent
  listen s i j := if j = i then .created else s j
  enable s i j := if j = i ∧ s j = .created then .enabled else s j
  poll s i := (s i = .notified, fun j => if j = i ∧ s j ≠ .notified then .waiting else s j)
  drop s i j := if j = i then .absent else s j
  ring s := (fun i => if s i = .waiting then 1 else 0, fun i => (s i).ring)

end Notify

/-- The lock that keeps who holds it, and the readers that sleep. -/
def Monitor.plain : Monitor where
  State := Option (Option Nat) × List Nat
  idle := (none, [])
  lock? s thread := if s.1 = none then some (some thread, s.2) else none
  unlock s := (none, s.2)
  sleep s i := (none, i :: s.2)
  asleep s i := i ∈ s.2
  rouse s i := (s.1, s.2.filter (· ≠ i))
  notifyAll s := (s.1, [])

end Turnstile
