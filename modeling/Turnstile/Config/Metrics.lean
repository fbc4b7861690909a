import Turnstile.Config.Fault

/-!
# Metrics configuration
-/

namespace Turnstile

structure MetricsConfig where
  slotsToTrack : Nat := 3600
  resolutionMillis : Nat := 1000
  deriving DecidableEq, Repr

namespace MetricsConfig

/-- The resolution is cut to whole milliseconds, of which the low 64 bits are kept. -/
def ofResolution (slots : Nat) (resolution : Duration) : MetricsConfig :=
  ⟨slots, resolution.millis % UInt64.size⟩

/-- How far back the metrics remember, at most `2 ^ 64 - 1` milliseconds. -/
def span (c : MetricsConfig) : Duration :=
  .ofMillis (min (c.resolutionMillis * c.slotsToTrack) (UInt64.size - 1))

/-- A word holds the nanoseconds of a period. -/
def FitsWord (c : MetricsConfig) : Prop := c.resolutionMillis * 1000000 < UInt64.size

instance (c : MetricsConfig) : Decidable c.FitsWord :=
  inferInstanceAs (Decidable (c.resolutionMillis * 1000000 < UInt64.size))

/-- The first fault, if there is one. -/
def fault? (c : MetricsConfig) : Option ConfigFault :=
  if c.slotsToTrack = 0 then some .noSlots
  else if c.resolutionMillis < minResolutionMillis then
    some (.resolutionTooLow c.resolutionMillis)
  else none

/-- The settings by name, in the order in which they are written. -/
def settings (c : MetricsConfig) : List (String × Nat) :=
  [("slots_to_track", c.slotsToTrack), ("resolution_millis", c.resolutionMillis)]

/-- Gives the named setting another value; an unknown name changes nothing. -/
def set (c : MetricsConfig) (name : String) (value : Nat) : MetricsConfig :=
  match name with
  | "slots_to_track" => { c with slotsToTrack := value }
  | "resolution_millis" => { c with resolutionMillis := value }
  | _ => c

def inspect (c : MetricsConfig) : String :=
  Text.record "MetricsConfig" (c.settings.map fun s => (s.1, toString s.2))

theorem fault?_eq_none_iff {c : MetricsConfig} :
    c.fault? = none ↔ 0 < c.slotsToTrack ∧ minResolutionMillis ≤ c.resolutionMillis := by
  unfold fault?
  split
  · simp; omega
  · split <;> simp <;> omega

theorem slots_pos {c : MetricsConfig} (h : c.fault? = none) : 0 < c.slotsToTrack :=
  (fault?_eq_none_iff.mp h).1

theorem resolution_pos {c : MetricsConfig} (h : c.fault? = none) :
    0 < c.resolutionMillis * 1000000 := by
  have := (fault?_eq_none_iff.mp h).2
  simp only [minResolutionMillis] at this
  omega

end MetricsConfig

end Turnstile
