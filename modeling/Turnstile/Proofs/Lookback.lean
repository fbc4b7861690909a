import Turnstile.Proofs.Custody
import Turnstile.Proofs.HealthLooks
import Turnstile.Proofs.TrailingWindow

/-!
# How far a breaker looks back

A rail is built so that its breaker looks back no further than the metrics remember. A
configuration that is swapped later is not held against the metrics, and a window that is longer
than they remember is cut to what they do. What the breaker sees is said here for every run of a
rail: the readings, what they cover, and which of them opens a circuit.
-/

namespace Turnstile

variable {ω : Type} [Outcome ω]

namespace SlotRing

variable {width : Nat} (r : SlotRing width)

/-- The periods of a window make up its length exactly if the ring is long enough. -/
theorem covers_iff (trailing : Nat) :
    trailing ≤ r.resolution * r.periodsIn trailing ↔ trailing ≤ r.resolution * r.size := by
  have hpos := r.resolution_pos
  rw [← ceilDiv_le_iff_le_mul hpos, ← ceilDiv_le_iff_le_mul hpos, periodsIn_eq]
  omega

end SlotRing

namespace Rail

/-- A faultless configuration builds a standard rail. -/
theorem standard_of_ofConfig {name : String} {config : RailConfig} {start : Nat}
    {built : Report ω (Rail ω)} (made : ofConfig name config start = .ok built) :
    config.fault? = none ∧ ∃ m : Metrics ω, Metrics.ofConfig config.metrics start = .ok m ∧
      built.value = standard name m (.ofCapacity config.maxConcurrency)
        ⟨name, config.breaker, .closed, config.breaker.backOffTimeMillis, 0, none, .empty⟩ := by
  unfold ofConfig at made
  split at made
  · cases made
  · rename_i hfault
    refine ⟨hfault, ?_⟩
    cases hm : Metrics.ofConfig (ω := ω) config.metrics start with
    | error fault =>
      rw [hm] at made
      cases made
    | ok m =>
      have hbreaker := (RailConfig.fault?_eq_none_iff.mp hfault).1
      simp only [hm, Breaker.ofConfig, hbreaker] at made
      cases made
      exact ⟨m, rfl, rfl⟩

theorem make_eq_ok_iff {name : String} {config : RailConfig} {start : Nat}
    {built : Report ω (Rail ω)} : make name config start = .ok built ↔
      ofConfig name config start = .ok built ∧ config.metrics.FitsWord := by
  unfold make
  cases ofConfig (ω := ω) name config start with
  | error fault => simp
  | ok built' => by_cases fits : config.metrics.FitsWord <;> simp [fits]

end Rail

namespace Lobby

/-- The configuration that a deal swaps in: that of the breaker, which stands second on a rail
built from a configuration. A faulty one is not taken over. -/
def Deal.takenOver? : Deal ω → Option BreakerConfig
  | .act (.handle i (.pull (.configure c))) => if i = 1 ∧ c.fault? = none then some c else none
  | _ => none

/-- The configuration in force after a run that begins with `c`. -/
def inForce (c : BreakerConfig) (deals : List (Deal ω)) : BreakerConfig :=
  (deals.filterMap Deal.takenOver?).getLast?.getD c

/-- What a deal makes of the metrics and the breaker of a standard rail. -/
structure Follows (m m' : Metrics ω) (b b' : Breaker) (taken : Option BreakerConfig) : Prop where
  size : m'.ring.size = m.ring.size
  resolution : m'.ring.resolution = m.ring.resolution
  config : b'.config = taken.getD b.config
  /-- The health in store is kept, or it is a reading of the metrics as they are now. -/
  health : b'.health = b.health ∨
    ∃ now, b'.health = m'.health b'.config.trailingPeriod now
  opens : b.state = .closed → b'.state = .opened → b'.config.tripsOn b'.health = true

variable {m m' : Metrics ω} {b : Breaker}

theorem Follows.same (size : m'.ring.size = m.ring.size)
    (resolution : m'.ring.resolution = m.ring.resolution) (b : Breaker) :
    Follows m m' b b none :=
  ⟨size, resolution, rfl, .inl rfl, fun hc ho => by rw [hc] at ho; cases ho⟩

/-- Something is counted that the breaker does not hear of. -/
theorem Follows.count (m : Metrics ω) (b : Breaker) (c : Counter ω) (n now : Nat) :
    Follows m (m.add c n now) b b none := .same (by rfl) (by rfl) b

/-- The breaker asks, or learns of an outcome that the metrics have counted already, or is
handled. -/
theorem Follows.step (size : m'.ring.size = m.ring.size)
    (resolution : m'.ring.resolution = m.ring.resolution) (b : Breaker) {move : Breaker.Move ω}
    (live : ∀ gauge o now, move = .tell gauge o now → gauge = m'.health)
    {taken : Option BreakerConfig} (config : move.inForce b.config = taken.getD b.config) :
    Follows m m' b (b.step move) taken := by
  refine ⟨size, resolution, (b.config_step move).trans config, ?_, ?_⟩
  · rcases b.step_looks move with ⟨-, -, hsame⟩ | ⟨gauge, o, now, rfl, -, -, -, -, -, hread⟩
    · exact .inl hsame
    · right
      refine ⟨now, ?_⟩
      rw [hread, live gauge o now rfl, b.config_step]
      rfl
  · intro hc ho
    obtain ⟨gauge, o, now, rfl, hfail, htrips⟩ := (Breaker.step_opens_iff hc move).mp ho
    simpa [Breaker.step, Breaker.tell, Breaker.inform_closed hc hfail] using htrips

/-- An attempt to settle a promise gives permits back, or leaves the rail alone. -/
theorem rail_settle (l : Lobby ω) (label : String) (s : Settled ω) :
    (l.deal (.settle label s)).2.rail = l.rail ∨
      ∃ n, (l.deal (.settle label s)).2.rail = l.rail.serve (.release n s.outcome l.now) := by
  cases hp : Labelled.get? l.permits label with
  | none =>
    left
    simp [deal, settle, hp]
  | some p =>
    cases hb : p.begin? s with
    | none =>
      left
      simp [deal, settle, hp, Permit.settle, hb]
    | some begun =>
      obtain ⟨hook, completing⟩ := begun
      cases hook with
      | none =>
        left
        simp [deal, settle, hp, Permit.settle, hb]
      | some n =>
        right
        refine ⟨n, ?_⟩
        simp [deal, settle, hp, Permit.settle, hb, Rail.serve, Traced.map_value]

/-- A request of a standard rail. -/
theorem serve_follows (name : String) (m : Metrics ω) (lim : Limiter) (b : Breaker)
    (q : Request ω) : ∃ m' lim' b',
      (Rail.standard name m lim b).serve q = Rail.standard name m' lim' b' ∧
        Follows m m' b b' none := by
  cases q with
  | acquire n now =>
    rcases Rail.acquire_standard name m lim b n now with ⟨reason, h⟩ | ⟨lim', -, -, h⟩
    · exact ⟨m.add (.rejection reason) n now, lim, b, by rw [Rail.serve, h], .count m b _ n now⟩
    · have hask : Follows m m b (b.step (.ask now : Breaker.Move ω)) none :=
        .step (by rfl) (by rfl) b (by simp) (by rfl)
      exact ⟨m, lim', (b.allow now).2, by rw [Rail.serve, h], hask⟩
  | rollback n now =>
    exact ⟨m, lim.release n, b, Rail.releaseUnused_standard name m lim b n now, .same rfl rfl b⟩
  | release n o now =>
    have htell : Follows m (m.add (.outcome o) n now) b
        (b.step (.tell (m.add (.outcome o) n now).health o now)) none := by
      refine .step (by rfl) (by rfl) b ?_ (by rfl)
      rintro gauge o' now' ⟨⟩
      rfl
    exact ⟨_, lim.release n, _, Rail.release_standard name m lim b n o now, htell⟩

/-- The second mechanism is handled, or none at all. -/
theorem handle_follows (name : String) (m : Metrics ω) (lim : Limiter) (b : Breaker) (i : Nat)
    (h : Handling ω) : ∃ b',
      (Rail.standard name m lim b).handle i h = Rail.standard name m lim b' ∧
        Follows m m b b' (Deal.act (.handle i h)).takenOver? := by
  by_cases hi : i = 1
  · subst hi
    refine ⟨b.step (h.move m.health), rfl, .step rfl rfl b ?_ ?_⟩
    · intro gauge o now hmove
      cases h <;> cases hmove
      rfl
    · cases h with
      | pull lever =>
        cases lever with
        | configure c =>
          simp only [Handling.move, Breaker.Move.inForce, Deal.takenOver?, true_and]
          split <;> rfl
        | _ => rfl
      | _ => rfl
  · have hnone : (Deal.act (.handle i h)).takenOver? = none := by
      unfold Deal.takenOver?
      split
      · exact if_neg fun h => hi (by simp_all)
      · rfl
    refine ⟨b, ?_, by rw [hnone]; exact .same rfl rfl b⟩
    cases i with
    | zero => rfl
    | succ i =>
      have hbehind : 2 ≤ i + 1 := by omega
      simp only [Rail.handle, Rail.standard]
      rw [List.modify_eq_self hbehind]

theorem rail_withClock (l : Lobby ω) (c : Clock) :
    ({ l with clock := c } : Lobby ω).rail = l.rail := rfl

theorem deal_follows {l : Lobby ω} {name : String} {lim : Limiter}
    (standing : l.rail = Rail.standard name m lim b) (d : Deal ω) : ∃ m' lim' b',
      (l.deal d).2.rail = Rail.standard name m' lim' b' ∧ Follows m m' b b' d.takenOver? := by
  have hserve := fun q => serve_follows name m lim b q
  rw [← standing] at hserve
  cases d with
  | act a =>
    cases a with
    | acquire n now => exact hserve (.acquire n now)
    | release n o now => exact hserve (.release n o now)
    | releaseUnused n now => exact hserve (.rollback n now)
    | count c n now =>
      exact ⟨m.add c n now, lim, b, by rw [deal, perform, standing]; rfl, .count m b c n now⟩
    | handle i h =>
      obtain ⟨b', hb', hfollows⟩ := handle_follows name m lim b i h
      exact ⟨m, lim, b', by rw [deal, perform, standing, hb'], hfollows⟩
    | setClock nanos => exact ⟨m, lim, b, standing, .same rfl rfl b⟩
    | advance millis =>
      -- said of any clock, since the time itself must not be computed here
      have hrail := l.rail_withClock (l.clock.advance millis)
      exact ⟨m, lim, b, hrail.trans standing, .same rfl rfl b⟩
  | promise label n now =>
    have hrail : (l.deal (.promise label n now)).2.rail = l.rail.serve (.acquire n now) := by
      cases hg : (l.acquire n now).value.1 with
      | some reason => rw [deal, acquirePermit_refused label hg]; rfl
      | none => rw [deal, acquirePermit_granted label hg]; rfl
    rw [hrail]
    exact hserve _
  | settle label s =>
    rcases l.rail_settle label s with hsame | ⟨n, hreleased⟩
    · exact ⟨m, lim, b, hsame.trans standing, .same rfl rfl b⟩
    · rw [hreleased]
      exact hserve _

omit [Outcome ω] in
theorem inForce_snoc (c : BreakerConfig) (deals : List (Deal ω)) (d : Deal ω) :
    inForce c (deals ++ [d]) = d.takenOver?.getD (inForce c deals) := by
  rw [inForce, List.filterMap_append]
  cases hd : d.takenOver? with
  | none => simp [hd, inForce]
  | some c' => simp [hd]

omit [Outcome ω] in
/-- In force is what was there at the beginning or what was swapped in. -/
theorem inForce_cases (c : BreakerConfig) (deals : List (Deal ω)) :
    inForce c deals = c ∨ inForce c deals ∈ deals.filterMap Deal.takenOver? := by
  rw [inForce]
  cases hlast : (deals.filterMap Deal.takenOver?).getLast? with
  | none => exact .inl rfl
  | some c' => exact .inr (List.mem_of_getLast? hlast)

/-- What a run that begins with `c` in force leaves in a rail: metrics `m` and a breaker `b`. -/
structure Leaves (opened : Lobby ω) (c : BreakerConfig) (deals : List (Deal ω)) (m : Metrics ω)
    (b : Breaker) : Prop where
  rail : ∃ name lim, (opened.run deal deals).2.rail = Rail.standard name m lim b
  size : m.ring.size = opened.rail.metrics.ring.size
  resolution : m.ring.resolution = opened.rail.metrics.ring.resolution
  config : b.config = inForce c deals
  /-- The health in store is a reading of an earlier moment, over the trailing period that was in
  force then. -/
  health : b.health = .empty ∨ ∃ before now, before <+: deals ∧
    b.health = (opened.run deal before).2.rail.metrics.health
      (inForce c before).trailingPeriod now

variable {opened : Lobby ω} {c : BreakerConfig} {deals : List (Deal ω)}

theorem Leaves.snoc (h : Leaves opened c deals m b) (d : Deal ω) :
    ∃ m' b', Leaves opened c (deals ++ [d]) m' b' ∧ Follows m m' b b' d.takenOver? := by
  obtain ⟨name, lim, hrail⟩ := h.rail
  obtain ⟨m', lim', b', hrail', hd⟩ := deal_follows hrail d
  have hconfig : b'.config = inForce c (deals ++ [d]) := by
    rw [inForce_snoc, ← h.config, hd.config]
  have hrun : (opened.run deal (deals ++ [d])).2.rail = Rail.standard name m' lim' b' := by
    rw [run_snoc, hrail']
  refine ⟨m', b', ⟨⟨name, lim', hrun⟩, hd.size.trans h.size, hd.resolution.trans h.resolution,
    hconfig, ?_⟩, hd⟩
  rcases hd.health with hsame | ⟨now, hread⟩
  · rw [hsame]
    rcases h.health with hempty | ⟨before, now, hbefore, hread⟩
    · exact .inl hempty
    · exact .inr ⟨before, now, hbefore.trans (List.prefix_append _ _), hread⟩
  · refine .inr ⟨deals ++ [d], now, List.prefix_refl _, ?_⟩
    rw [hread, hrun, hconfig]
    rfl

theorem run_leaves {name : String} {lim : Limiter}
    (standing : opened.rail = Rail.standard name m lim b) (unread : b.health = .empty)
    (deals : List (Deal ω)) : ∃ m' b', Leaves opened b.config deals m' b' := by
  induction deals using List.reverseRecOn with
  | nil =>
    refine ⟨m, b, ⟨name, lim, standing⟩, ?_, ?_, rfl, .inl unread⟩
    · rw [standing]
      rfl
    · rw [standing]
      rfl
  | append_singleton deals d ih =>
    obtain ⟨m', b', h⟩ := ih
    obtain ⟨m'', b'', h', -⟩ := h.snoc d
    exact ⟨m'', b'', h'⟩

end Lobby

namespace Rail

/-- The breaker looks back no further than the metrics remember. -/
def LooksWithin (r : Rail ω) : Prop :=
  ∀ b gauge, r.breaker? = some (b, gauge) → b.config.trailingPeriod ≤ r.metrics.span

/-- The periods that a reading counts make up the whole trailing period of the breaker. -/
def SeesAll (r : Rail ω) : Prop :=
  ∀ b gauge, r.breaker? = some (b, gauge) → b.config.trailingPeriod.nanos ≤
    r.metrics.ring.resolution *
      r.metrics.ring.periodsIn (Metrics.trailingNanos b.config.trailingPeriod)

variable {r : Rail ω} {m : Metrics ω} {b : Breaker}

theorem looksWithin_iff {name : String} {lim : Limiter} (h : r = standard name m lim b) :
    r.LooksWithin ↔ b.config.trailingPeriod ≤ m.span := by
  subst h
  simp [LooksWithin]

/-- As long as the trailing period fits a word, a reading covers it exactly if it lies within the
span. -/
theorem seesAll_iff {name : String} {lim : Limiter} (h : r = standard name m lim b)
    (whole : m.ring.resolution * m.ring.size < UInt64.size)
    (fits : b.config.trailingPeriod.nanos < UInt64.size) : r.SeesAll ↔ r.LooksWithin := by
  rw [looksWithin_iff h, Duration.le_def, Metrics.span, Nat.mod_eq_of_lt whole,
    ← m.ring.covers_iff]
  subst h
  simp [SeesAll, Metrics.trailingNanos_of_lt fits]

end Rail

/-- Metrics whose span fits a word remember at least as long as their configuration says. -/
theorem Metrics.configSpan_le {config : MetricsConfig} {start : Nat} {m : Metrics ω}
    (made : ofConfig config start = .ok m)
    (fits : config.resolutionMillis * 1000000 * config.slotsToTrack < UInt64.size) :
    config.span ≤ m.span := by
  rw [Duration.le_def, span_ofConfig made, Nat.mod_eq_of_lt fits]
  exact config.span_le

/-- A trailing period beyond the span shows what the span shows. -/
theorem Metrics.health_beyond (m : Metrics ω) {trailing : Duration}
    (whole : m.ring.resolution * m.ring.size < UInt64.size)
    (fits : trailing.nanos < UInt64.size) (beyond : m.span ≤ trailing) (now : Nat) :
    m.health trailing now = m.health m.span now := by
  have hspan : m.span.nanos = m.ring.resolution * m.ring.size := Nat.mod_eq_of_lt whole
  refine (health_congr ?_).1
  rw [trailingNanos_of_lt fits, trailingNanos_of_lt (Nat.lt_of_le_of_lt beyond fits), hspan]
  exact m.ring.periodsIn_span (hspan ▸ beyond)

namespace Lobby

variable {opened : Lobby ω} {c : BreakerConfig} {deals : List (Deal ω)} {m : Metrics ω}
  {b : Breaker}

theorem Leaves.span (h : Leaves opened c deals m b) : m.span = opened.rail.metrics.span := by
  rw [Metrics.span, Metrics.span, h.size, h.resolution]

/-- A breaker looks back within the span as long as all that was swapped in does. -/
theorem within_iff {name : String} {lim : Limiter}
    (standing : opened.rail = Rail.standard name m lim b) (unread : b.health = .empty)
    (within : b.config.trailingPeriod ≤ m.span) (deals : List (Deal ω)) :
    (∀ past, past <+: deals → (opened.run deal past).2.rail.LooksWithin) ↔
      ∀ c' ∈ deals.filterMap Deal.takenOver?, c'.trailingPeriod ≤ m.span := by
  have hspan : opened.rail.metrics.span = m.span := by rw [standing]; rfl
  have hpast : ∀ past, (opened.run deal past).2.rail.LooksWithin ↔
      (inForce b.config past).trailingPeriod ≤ m.span := by
    intro past
    obtain ⟨m', b', h⟩ := run_leaves standing unread past
    obtain ⟨name', lim', hrail⟩ := h.rail
    rw [Rail.looksWithin_iff hrail, h.config, h.span, hspan]
  constructor
  · intro hall c' hc'
    obtain ⟨d, hd, htaken⟩ := List.mem_filterMap.mp hc'
    obtain ⟨before, behind, rfl⟩ := List.append_of_mem hd
    -- right after it was taken over, it is the one in force
    have hpresent : before ++ [d] <+: before ++ d :: behind := ⟨behind, by simp⟩
    have h := (hpast _).mp (hall _ hpresent)
    rwa [inForce_snoc, htaken] at h
  · intro hall past hpresent
    rw [hpast]
    rcases inForce_cases b.config past with h | h
    · rwa [h]
    · exact hall _ ((hpresent.sublist.filterMap _).subset h)

/-- Whatever is done to a rail that a configuration built, its breaker looks back no further than
the metrics remember, and what it reads covers the whole trailing period. -/
def NeverLooksPast (ω : Type) [Outcome ω] : Prop :=
  ∀ (name : String) (config : RailConfig) (start : Nat) (built : Rail.Report ω (Rail ω)),
    Rail.make name config start = .ok built →
    ∀ (clock : Clock) (own : Option Nat) (deals : List (Deal ω)),
      let r := ((Lobby.mk built.value clock own []).run deal deals).2.rail
      r.LooksWithin ∧ r.SeesAll

/-- Metrics that remember a tenth of a second, and a breaker that looks back on all of it and bears
one failure. -/
def shortMemory : RailConfig where
  breaker := { failureThreshold := 1, trailingPeriodMillis := 100, healthRefreshMillis := 0 }
  metrics := ⟨1, 100⟩

/-- A configuration of the breaker that looks back twice as far. -/
def farBack : BreakerConfig := { shortMemory.breaker with trailingPeriodMillis := 200 }

/-- A longer trailing period is taken over though the metrics do not remember that long. -/
theorem swap_looks_past : ¬ NeverLooksPast Status := by
  intro hnever
  obtain ⟨hwithin, -⟩ := hnever "rail" shortMemory 0 _ (Rail.make_eq_ok_iff.mpr ⟨rfl, by decide⟩)
    (.startingAt 0) none [.act (.handle 1 (.pull (.configure farBack)))]
  exact absurd (hwithin _ _ rfl) (by decide)

/-- On a rail that a configuration built, with metrics whose span fits a word, the configuration
last taken over is in force, and the breaker looks back within the span of the metrics as long as
every configuration taken over does. The health in store is a reading of the metrics over the
trailing period in force at the time, and a circuit opens on what is then in store. Of a trailing
period whose nanoseconds fit a word, a reading covers the whole exactly if it lies within the span;
beyond, the reading is that of the span. -/
theorem looks_within_unless_swapped {name : String} {config : RailConfig} {start : Nat}
    {built : Rail.Report ω (Rail ω)} (made : Rail.make name config start = .ok built)
    (whole : config.metrics.resolutionMillis * 1000000 * config.metrics.slotsToTrack <
      UInt64.size) (clock : Clock) (own : Option Nat) (deals : List (Deal ω)) :
    let opened : Lobby ω := ⟨built.value, clock, own, []⟩
    let rail := fun past => (opened.run deal past).2.rail
    let span := built.value.metrics.span
    let c := inForce config.breaker deals
    built.value.metrics.span? = some span ∧
    ((∀ past, past <+: deals → (rail past).LooksWithin) ↔
      ∀ c' ∈ deals.filterMap Deal.takenOver?, c'.trailingPeriod ≤ span) ∧
    (rail deals).metrics.span = span ∧
    (∃ b, (rail deals).breaker? = some (b, (rail deals).metrics.health) ∧ b.config = c ∧
      (∀ h, (rail deals).handle 1 h =
        (rail deals).setBreaker (b.step (h.move (rail deals).metrics.health))) ∧
      (b.health = .empty ∨ ∃ before now, before <+: deals ∧
        b.health = (rail before).metrics.health
          (inForce config.breaker before).trailingPeriod now) ∧
      ∀ d, ∃ b', (rail (deals ++ [d])).breaker? =
          some (b', (rail (deals ++ [d])).metrics.health) ∧
        (b.state = .closed → b'.state = .opened → b'.config.tripsOn b'.health = true)) ∧
    (c.trailingPeriod.nanos < UInt64.size →
      ((rail deals).SeesAll ↔ c.trailingPeriod ≤ span) ∧
      (span ≤ c.trailingPeriod → ∀ now, (rail deals).metrics.health c.trailingPeriod now =
        (rail deals).metrics.health span now)) := by
  intro opened rail span c
  obtain ⟨valid, m, hm, hbuilt⟩ := Rail.standard_of_ofConfig (Rail.make_eq_ok_iff.mp made).1
  obtain ⟨hsize, -, hres⟩ := Metrics.ring_ofConfig hm
  have hring : m.ring.resolution * m.ring.size < UInt64.size := by rw [hsize, hres]; exact whole
  have hspan : span = m.span := by rw [show span = built.value.metrics.span from rfl, hbuilt]; rfl
  have hwithin : config.breaker.trailingPeriod ≤ m.span :=
    Nat.le_trans (RailConfig.fault?_eq_none_iff.mp valid).2.2 (Metrics.configSpan_le hm whole)
  have standing : opened.rail = Rail.standard name m _ _ := hbuilt
  obtain ⟨m', b, h⟩ := run_leaves standing rfl deals
  obtain ⟨name', lim, hrail⟩ := h.rail
  have hdeals : rail deals = Rail.standard name' m' lim b := hrail
  have hbreaker : (rail deals).breaker? = some (b, (rail deals).metrics.health) := by
    rw [hdeals]
    rfl
  have hmetrics : (rail deals).metrics = m' := by
    rw [hdeals]
    rfl
  have hkept : (rail deals).metrics.span = span := by rw [hmetrics, h.span]
  have hring' : m'.ring.resolution * m'.ring.size < UInt64.size := by
    rw [h.resolution, h.size, standing]
    exact hring
  refine ⟨?_, ?_, hkept, ⟨b, hbreaker, h.config, ?_, h.health, ?_⟩, ?_⟩
  · rw [hspan, hbuilt]
    exact if_pos hring
  · rw [hspan]
    exact within_iff standing rfl hwithin deals
  · intro handling
    rw [hdeals]
    rfl
  · intro d
    obtain ⟨m'', b', h', hfollows⟩ := h.snoc d
    obtain ⟨name'', lim', hrail'⟩ := h'.rail
    refine ⟨b', ?_, hfollows.opens⟩
    rw [show rail (deals ++ [d]) = _ from hrail']
    rfl
  · intro fits
    have hconfig : b.config = c := h.config
    constructor
    · rw [Rail.seesAll_iff hdeals hring' (hconfig ▸ fits), Rail.looksWithin_iff hdeals, hconfig,
        ← hmetrics, hkept]
    · intro beyond now
      rw [← hkept] at beyond ⊢
      exact (rail deals).metrics.health_beyond (hmetrics ▸ hring') fits beyond now

/-- Two failures 150 milliseconds apart, after the breaker was told to look back on 200. -/
def farDay : List (Deal Status) :=
  [.act (.handle 1 (.pull (.configure farBack))), .act (.acquire 1 0),
    .act (.release 1 .error 0), .act (.acquire 1 150000000),
    .act (.release 1 .error 150000000)]

/-- Both failures lie in the trailing period, but a reading shows one of them, which does not open
the circuit. -/
theorem looks_within_unless_swapped_far :
    ∃ built : Rail.Report Status (Rail Status),
      Rail.make "rail" shortMemory 0 = .ok built ∧
      100 * 1000000 * 1 < UInt64.size ∧
      let opened : Lobby Status := ⟨built.value, .startingAt 0, none, []⟩
      let rail := fun past => (opened.run deal past).2.rail
      (∃ past, past <+: farDay ∧ ¬ (rail past).LooksWithin) ∧ ¬ (rail farDay).SeesAll ∧
      (rail farDay).metrics.total (.outcome .error) = 2 ∧
      ((rail farDay).metrics.health farBack.trailingPeriod 150000000).failures = 1 := by
  have hread : (Rail.make (ω := Status) "rail" shortMemory 0).toOption.map (fun built =>
      let r := ((Lobby.mk built.value (.startingAt 0) none []).run deal farDay).2.rail
      (built.value.metrics.span, r.metrics.total (.outcome .error),
        (r.metrics.health built.value.metrics.span 150000000).failures)) =
      some (.ofMillis 100, 2, 1) := by decide +kernel
  obtain ⟨built, made⟩ : ∃ built : Rail.Report Status (Rail Status),
      Rail.make "rail" shortMemory 0 = .ok built := ⟨_, Rail.make_eq_ok_iff.mpr ⟨rfl, by decide⟩⟩
  have whole : 100 * 1000000 * 1 < UInt64.size := by decide
  rw [made] at hread
  obtain ⟨hspan, hrest⟩ := Prod.mk.inj (Option.some.inj hread)
  obtain ⟨htotal, hfailures⟩ := Prod.mk.inj hrest
  obtain ⟨-, hwithin, -, -, hreads⟩ :=
    looks_within_unless_swapped made whole (.startingAt 0) none farDay
  obtain ⟨hsees, hbeyond⟩ := hreads (by decide)
  have hfar : ¬ farBack.trailingPeriod ≤ built.value.metrics.span := by
    rw [hspan]
    decide
  refine ⟨built, made, whole, ?_, ?_, htotal, ?_⟩
  · by_contra hnone
    refine hfar (hwithin.mp (fun past hpast => ?_) farBack (by decide))
    by_contra hlooks
    exact hnone ⟨past, hpast, hlooks⟩
  · exact fun h => hfar (hsees.mp h)
  · rw [← hfailures]
    exact congrArg Health.failures (hbeyond (by rw [hspan]; decide) 150000000)

end Lobby

end Turnstile
