import Turnstile.Note

/-!
# Permit limiters

A pool of interchangeable permits. More can be given back than were taken; the
pool then stays full.
-/

namespace Turnstile

structure Limiter where
  capacity : Nat
  available : Nat
  available_le : available ≤ capacity
  deriving DecidableEq, Repr

namespace Limiter

def ofCapacity (capacity : Nat) : Limiter := ⟨capacity, capacity, Nat.le_refl _⟩

def inFlight (l : Limiter) : Nat := l.capacity - l.available

/-- Takes `n` permits. A pool without capacity refuses even none. -/
def acquire? (l : Limiter) (n : Nat) : Option Limiter :=
  if l.capacity = 0 ∨ l.available < n then none
  else some ⟨l.capacity, l.available - n, Nat.le_trans (Nat.sub_le _ _) l.available_le⟩

/-- What asking for `n` permits reports. -/
def acquireNotes (l : Limiter) (n : Nat) : List Note :=
  if l.capacity = 0 then [.noCapacity n]
  else if l.available < n then [.exhausted n l.available]
  else []

/-- Gives `n` permits back. -/
def release (l : Limiter) (n : Nat) : Limiter :=
  ⟨l.capacity, min (l.available + n) l.capacity, Nat.min_le_right _ _⟩

/-- What giving back `n` permits reports; the sum it looks at stops at `2 ^ 64 - 1`. -/
def releaseNotes (l : Limiter) (n : Nat) : List Note :=
  if l.capacity < min (l.available + n) (UInt64.size - 1) then
    [.overReleased n l.available l.capacity]
  else []

def inspect (l : Limiter) : String :=
  Text.record "PermitLimiter"
    [("capacity", toString l.capacity), ("available", toString l.available)]

@[simp] theorem capacity_ofCapacity (n : Nat) : (ofCapacity n).capacity = n := rfl
@[simp] theorem inFlight_ofCapacity (n : Nat) : (ofCapacity n).inFlight = 0 := by
  simp [inFlight, ofCapacity]

theorem inFlight_add_available (l : Limiter) : l.inFlight + l.available = l.capacity :=
  Nat.sub_add_cancel l.available_le

theorem acquire?_eq_some {l l' : Limiter} {n : Nat} (h : l.acquire? n = some l') :
    l'.capacity = l.capacity ∧ l'.available + n = l.available := by
  unfold acquire? at h
  split at h
  · cases h
  · rename_i hn
    cases h
    exact ⟨rfl, by simp only [not_or, Nat.not_lt] at hn ⊢; omega⟩

theorem inFlight_acquire? {l l' : Limiter} {n : Nat} (h : l.acquire? n = some l') :
    l'.inFlight = l.inFlight + n := by
  obtain ⟨hc, ha⟩ := acquire?_eq_some h
  have := l.available_le
  simp only [inFlight, hc]
  omega

@[simp] theorem capacity_release (l : Limiter) (n : Nat) : (l.release n).capacity = l.capacity :=
  rfl

theorem inFlight_release (l : Limiter) (n : Nat) : (l.release n).inFlight = l.inFlight - n := by
  have := l.available_le
  simp only [inFlight, release]
  omega

/-- Giving back what was just taken restores the pool. -/
theorem release_acquire? {l l' : Limiter} {n : Nat} (h : l.acquire? n = some l') :
    l'.release n = l := by
  obtain ⟨hc, ha⟩ := acquire?_eq_some h
  have := l.available_le
  cases l
  simp only [release, mk.injEq] at *
  omega

end Limiter

end Turnstile
