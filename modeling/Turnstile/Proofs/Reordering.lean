import Turnstile.Proofs.Window

/-!
# The order of recording

Metrics do not remember in which order their calls came. Two calls for one slot belong to the
same period, and then their counts add up, or one of them belongs to a later period: the slot
then forgets the earlier one if that came first, and drops it if it came last. So any two calls
can change places, and the same calls leave the same metrics behind in whatever order they come.
Only which of them are dropped depends on the order.
-/

namespace Turnstile

variable {ω : Type}

namespace Slot

variable {width : Nat}

theorem bump_comm (counts : Vector UInt64 width) (i j : Fin width) (n k : UInt64) :
    bump (bump counts i n) j k = bump (bump counts j k) i n := by
  apply Vector.ext
  intro a ha
  show (bump (bump counts i n) j k).get ⟨a, ha⟩ = (bump (bump counts j k) i n).get ⟨a, ha⟩
  simp only [get_bump]
  ac_rfl

theorem receive_current {s : Slot width} {p : Nat} (h : s.period = some p) (i : Fin width)
    (n : UInt64) : s.receive p i n = ⟨some p, bump s.counts i n⟩ := by
  simp [receive, arrival, h]

theorem receive_fresh {s : Slot width} {p : Nat} (h : ∀ q, s.period = some q → q < p)
    (i : Fin width) (n : UInt64) : s.receive p i n = ⟨some p, bump (.replicate width 0) i n⟩ := by
  cases hs : s.period with
  | none => simp [receive, arrival, hs]
  | some q =>
    have hlt := h q hs
    have hne : q ≠ p := by omega
    have hnot : ¬ p < q := by omega
    simp [receive, arrival, hs, hne, hnot]

theorem receive_late {s : Slot width} {p q : Nat} (h : s.period = some q) (hlt : p < q)
    (i : Fin width) (n : UInt64) : s.receive p i n = s := by
  have hne : q ≠ p := by omega
  simp [receive, arrival, h, hne, hlt]

/-- A slot serves the latest period that it was called for. -/
theorem period_receive (s : Slot width) (p : Nat) (i : Fin width) (n : UInt64) :
    (s.receive p i n).period = some (max p (s.period.getD 0)) := by
  rcases receive_cases s p i n with ⟨hp, h⟩ | ⟨hp, h⟩ | ⟨q, hq, hlt, h⟩
  · simp [h, hp]
  · cases hs : s.period with
    | none => simp [h]
    | some q =>
      have hlt := hp q hs
      simp only [h, Option.getD_some, Option.some.injEq]
      omega
  · simp only [h, hq, Option.getD_some, Option.some.injEq]
    omega

theorem arrival_eq_late {s : Slot width} {p : Nat} :
    s.arrival p = .late ↔ ∃ q, s.period = some q ∧ p < q := by
  cases hs : s.period with
  | none => simp [arrival, hs]
  | some q => by_cases h : q = p <;> by_cases hlt : p < q <;> simp [arrival, hs, h, hlt]

/-- Calls of one period add up in either order. -/
theorem receive_same (s : Slot width) (p : Nat) (i j : Fin width) (n k : UInt64) :
    (s.receive p i n).receive p j k = (s.receive p j k).receive p i n := by
  rcases receive_cases s p i n with ⟨hp, -⟩ | ⟨hp, -⟩ | ⟨q, hq, hlt, -⟩
  · simp [receive_current, hp, bump_comm _ i j]
  · simp [receive_fresh hp, receive_current, bump_comm _ i j]
  · simp [receive_late hq hlt]

/-- Beside a call of a later period, one of an earlier period leaves no trace. -/
theorem receive_earlier (s : Slot width) {p q : Nat} (h : p < q) (i j : Fin width)
    (n k : UInt64) :
    (s.receive p i n).receive q j k = s.receive q j k ∧
      (s.receive q j k).receive p i n = s.receive q j k := by
  constructor
  · by_cases hlate : ∃ r, s.period = some r ∧ p < r
    · obtain ⟨r, hr, hlt⟩ := hlate
      rw [receive_late hr hlt]
    · -- the later period clears the slot, with what the earlier call has left there
      have hbefore : ∀ r, s.period = some r → r ≤ p := by
        intro r hr
        by_contra hnot
        exact hlate ⟨r, hr, by omega⟩
      have hafter : (s.receive p i n).period = some p := by
        rw [period_receive]
        cases hs : s.period with
        | none => simp
        | some r =>
          have := hbefore r hs
          simp only [Option.getD_some, Option.some.injEq]
          omega
      rw [receive_fresh (by simpa [hafter] using h), receive_fresh]
      intro r hr
      have := hbefore r hr
      omega
  · exact receive_late (s.period_receive q j k) (by omega) i n

/-- Any two calls for a slot can change places. -/
theorem receive_comm (s : Slot width) (p q : Nat) (i j : Fin width) (n k : UInt64) :
    (s.receive p i n).receive q j k = (s.receive q j k).receive p i n := by
  rcases Nat.lt_trichotomy p q with h | rfl | h
  · obtain ⟨hwiped, hdropped⟩ := s.receive_earlier h i j n k
    rw [hwiped, hdropped]
  · exact s.receive_same p i j n k
  · obtain ⟨hwiped, hdropped⟩ := s.receive_earlier h j i k n
    rw [hwiped, hdropped]

end Slot

namespace SlotRing

variable {width : Nat}

/-- A ring is known by its slots, each looked up by a period that it serves. -/
theorem slots_ext {size : Nat} {v w : Vector (Slot width) size}
    (h : ∀ p (hp : p % size < size), v[p % size] = w[p % size]) : v = w := by
  apply Vector.ext
  intro a ha
  have hmod : a % size = a := Nat.mod_eq_of_lt ha
  have hslot := h a (by omega)
  simpa only [hmod] using hslot

/-- Any two calls for a ring can change places: calls for different slots do not meet. -/
theorem add_comm (r : SlotRing width) (i j : Fin width) (n k : UInt64) (now now' : Nat) :
    (r.add i n now).add j k now' = (r.add j k now').add i n now := by
  have hserving : ∀ p, ((r.add i n now).add j k now').serving p =
      ((r.add j k now').add i n now).serving p := by
    intro p
    have hperiod : ∀ (c : Fin width) (m : UInt64) (t : Nat),
        (r.add c m t).period = r.period ∧ (r.add c m t).size = r.size :=
      fun _ _ _ => ⟨rfl, rfl⟩
    simp only [serving_add, hperiod]
    by_cases h : r.period now % r.size = p % r.size <;>
      by_cases h' : r.period now' % r.size = p % r.size <;>
        simp only [h, h', if_true, if_false]
    exact (r.serving p).receive_comm _ _ i j n k
  have hslots : ((r.add i n now).add j k now').slots =
      ((r.add j k now').add i n now).slots := by
    exact slots_ext fun p _ => hserving p
  show ({ r with slots := ((r.add i n now).add j k now').slots } : SlotRing width) = _
  rw [hslots]
  rfl

theorem serving_congr (r : SlotRing width) {p q : Nat} (h : p % r.size = q % r.size) :
    r.serving p = r.serving q := by
  have hplace : r.place p = r.place q := Fin.ext h
  rw [serving, hplace, serving]

theorem arrival_of_unused {r : SlotRing width} {now : Nat}
    (h : (r.serving (r.period now)).period = none) : r.arrival now ≠ .late := by
  intro hlate
  obtain ⟨q, hq, -⟩ := Slot.arrival_eq_late.mp hlate
  cases h.symm.trans hq

/-- A slot serves the latest period of the calls that share it. -/
theorem period_serving_add (r : SlotRing width) (i : Fin width) (n : UInt64) {now p : Nat}
    (shared : r.period now % r.size = p % r.size) :
    ((r.add i n now).serving p).period =
      some (max (r.period now) ((r.serving p).period.getD 0)) := by
  rw [serving_add, if_pos shared, Slot.period_receive]

end SlotRing

namespace Metrics

variable [Outcome ω]

/-- Any two calls can change places. -/
theorem record_comm (m : Metrics ω) (e e' : Recording ω) :
    (m.record e).record e' = (m.record e').record e := by
  have hring := m.ring.add_comm e.counter.index e'.counter.index (UInt64.ofNat e.count)
    (UInt64.ofNat e'.count) e.time e'.time
  have htotals := Slot.bump_comm m.totals e.counter.index e'.counter.index
    (UInt64.ofNat e.count) (UInt64.ofNat e'.count)
  simp only [record, add, hring, htotals]

/-- The calls of a history that come too late for their slot, in their order. -/
def late (m : Metrics ω) : History ω → History ω
  | [] => []
  | e :: h => (if m.ring.arrival e.time = .late then [e] else []) ++ (m.record e).late h

/-- Of two calls that share an unused slot, the one of the earlier period is dropped only if it
comes last. -/
theorem late_pair {m : Metrics ω} {e e' : Recording ω}
    (hlt : m.ring.period e.time < m.ring.period e'.time)
    (shared : m.ring.period e.time % m.ring.size = m.ring.period e'.time % m.ring.size)
    (unused : (m.ring.serving (m.ring.period e.time)).period = none) :
    m.late [e, e'] = [] ∧ m.late [e', e] = [e] := by
  have unused' : (m.ring.serving (m.ring.period e'.time)).period = none := by
    rw [m.ring.serving_congr shared.symm]
    exact unused
  have hfirst : m.ring.arrival e.time ≠ .late := SlotRing.arrival_of_unused unused
  have hfirst' : m.ring.arrival e'.time ≠ .late := SlotRing.arrival_of_unused unused'
  have hsecond : (m.record e).ring.arrival e'.time ≠ .late := by
    intro hlate
    obtain ⟨q, hq, hbefore⟩ := Slot.arrival_eq_late.mp hlate
    have hserved := m.ring.period_serving_add e.counter.index (UInt64.ofNat e.count) shared
    rw [unused', Option.getD_none, Nat.max_zero] at hserved
    have hq' : q = m.ring.period e.time := Option.some.inj (hq.symm.trans hserved)
    have hbefore' : m.ring.period e'.time < q := hbefore
    omega
  have hsecond' : (m.record e').ring.arrival e.time = .late := by
    have hserved := m.ring.period_serving_add e'.counter.index (UInt64.ofNat e'.count) shared.symm
    rw [unused, Option.getD_none, Nat.max_zero] at hserved
    exact Slot.arrival_eq_late.mpr ⟨m.ring.period e'.time, hserved, hlt⟩
  simp [late, hfirst, hfirst', hsecond, hsecond']

/-- Metrics with a single slot, which every period takes from the one before it. -/
def narrow (ω : Type) [Outcome ω] : Metrics ω :=
  ⟨.create _ 1 100 0 (by decide) (by decide), .replicate _ 0⟩

/-- The same calls in any order leave the same metrics behind: the same period and the same
counts in every slot, and the same totals. Yet it may depend on the order which of the calls
come too late. -/
theorem replay_perm :
    (∀ (m : Metrics ω) (h h' : History ω), h.Perm h' → m.replay h = m.replay h') ∧
    ∃ (m : Metrics ω) (h h' : History ω), h.Perm h' ∧ ¬ (m.late h).Perm (m.late h') := by
  constructor
  · intro m h h' same
    exact same.foldl_eq' (fun e _ e' _ m => m.record_comm e e') m
  · let early : Recording ω := ⟨.rejection .circuitOpen, 2, 50⟩
    let recent : Recording ω := ⟨.rejection .forcedOpen, 3, 150⟩
    have hlt : (narrow ω).ring.period early.time < (narrow ω).ring.period recent.time := by
      show (50 - 0) / 100 < (150 - 0) / 100
      decide
    have shared : (narrow ω).ring.period early.time % (narrow ω).ring.size =
        (narrow ω).ring.period recent.time % (narrow ω).ring.size := by
      show (50 - 0) / 100 % 1 = (150 - 0) / 100 % 1
      decide
    have unused : (narrow ω).ring.serving ((narrow ω).ring.period early.time) = .unused :=
      Vector.getElem_replicate _
    obtain ⟨hnone, hone⟩ := late_pair hlt shared (by rw [unused]; rfl)
    refine ⟨narrow ω, [early, recent], [recent, early], .swap _ _ [], ?_⟩
    rw [hnone, hone]
    simp

/-- Around a ring of four slots, with calls that clear a slot and calls that come too late. -/
theorem replay_perm_jumbled :
    ∃ m : Metrics Status, ofConfig ⟨4, 100⟩ 100000000 = .ok m ∧
      jumbled.Perm jumbled.reverse ∧
      (m.replay jumbled).replay jumbled = (m.replay jumbled).replay jumbled.reverse ∧
      (m.late jumbled).length = 1 ∧ (m.late jumbled.reverse).length = 2 := by
  have same : jumbled.Perm jumbled.reverse := (List.reverse_perm _).symm
  refine ⟨_, rfl, same, ?_, ?_, ?_⟩
  · exact replay_perm.1 _ jumbled jumbled.reverse same
  · decide +kernel
  · decide +kernel

end Metrics

end Turnstile
