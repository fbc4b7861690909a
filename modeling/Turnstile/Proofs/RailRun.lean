import Turnstile.Proofs.Reading
import Turnstile.Proofs.StandardRail

/-!
# Runs of a rail

The ledger of a run lists the permits that were refused and the permits that
came back with an outcome, read off the answers alone. The metrics of a standard
rail replay the ledger, so that its breaker decides on what really happened.
-/

namespace Turnstile

variable {ω : Type}

def Request.time : Request ω → Nat
  | .acquire _ now => now
  | .rollback _ now => now
  | .release _ _ now => now

namespace Rail

variable [Outcome ω]

/-- The rail after one request. -/
def serve (r : Rail ω) : Request ω → Rail ω
  | .acquire n now => (r.acquire n now).value.2
  | .rollback n now => (r.releaseUnused n now).value
  | .release n o now => (r.release n o now).value

/-- The rail after a run of requests. -/
def after (r : Rail ω) (past : List (Request ω)) : Rail ω := past.foldl serve r

/-- What a request adds to the ledger. -/
def entry (r : Rail ω) : Request ω → History ω
  | .acquire n now => (r.acquire n now).value.1.toList.map fun reason => ⟨.rejection reason, n, now⟩
  | .rollback _ _ => []
  | .release n o now => [⟨.outcome o, n, now⟩]

/-- The permits refused and the permits released in a run, oldest first. -/
def ledger (r : Rail ω) : List (Request ω) → History ω
  | [] => []
  | q :: past => r.entry q ++ (r.serve q).ledger past

/-- The state of the circuit, if there is one. -/
def circuit? (r : Rail ω) : Option CircuitState := r.breaker?.map fun p => p.1.state

@[simp] theorem circuit?_standard (name : String) (m : Metrics ω) (l : Limiter) (b : Breaker) :
    (standard name m l b).circuit? = some b.state := rfl

@[simp] theorem after_nil (r : Rail ω) : r.after [] = r := rfl

@[simp] theorem after_cons (r : Rail ω) (q : Request ω) (past : List (Request ω)) :
    r.after (q :: past) = (r.serve q).after past := rfl

theorem after_append (r : Rail ω) (past : List (Request ω)) (q : Request ω) :
    r.after (past ++ [q]) = (r.after past).serve q := by
  simp [after]

theorem ledger_append (r : Rail ω) (past : List (Request ω)) (q : Request ω) :
    r.ledger (past ++ [q]) = r.ledger past ++ (r.after past).entry q := by
  induction past generalizing r with
  | nil => simp [ledger]
  | cons p past ih => simp [ledger, ih]

theorem time_entry {r : Rail ω} {q : Request ω} {e : Recording ω} (he : e ∈ r.entry q) :
    e.time = q.time := by
  cases q with
  | acquire n now =>
    obtain ⟨reason, -, hr⟩ := List.mem_map.mp he
    rw [← hr]
    rfl
  | rollback n now => cases he
  | release n o now =>
    rw [List.mem_singleton.mp he]
    rfl

/-- Whatever stands in the ledger was written there at the time of a request. -/
theorem time_ledger {r : Rail ω} {past : List (Request ω)} {e : Recording ω}
    (he : e ∈ r.ledger past) : ∃ q ∈ past, e.time = q.time := by
  induction past generalizing r with
  | nil => cases he
  | cons q past ih =>
    rcases List.mem_append.mp he with he | he
    · exact ⟨q, List.mem_cons_self, time_entry he⟩
    · obtain ⟨q', hq', ht⟩ := ih he
      exact ⟨q', List.mem_cons_of_mem _ hq', ht⟩

/-- A standard rail whose metrics have replayed `h` and whose breaker has looked at them only
at times of requests in `past`. -/
def Tracks (m : Metrics ω) (config : BreakerConfig) (past : List (Request ω)) (h : History ω)
    (r : Rail ω) : Prop :=
  ∃ name l b, r = standard name (m.replay h) l b ∧ b.config = config ∧
    ∀ t, b.lastRefresh = some t → ∃ q ∈ past, t = millisOf q.time

variable {m : Metrics ω} {config : BreakerConfig} {past : List (Request ω)} {h : History ω}
  {r : Rail ω}

/-- One request: the metrics replay what it adds to the ledger. -/
theorem Tracks.serve (hr : r.Tracks m config past h) (q : Request ω) :
    (r.serve q).Tracks m config (past ++ [q]) (h ++ r.entry q) := by
  obtain ⟨name, l, b, rfl, hconfig, hlast⟩ := hr
  have hold : ∀ t, b.lastRefresh = some t → ∃ p ∈ past ++ [q], t = millisOf p.time := by
    intro t ht
    obtain ⟨p, hp, htp⟩ := hlast t ht
    exact ⟨p, List.mem_append_left _ hp, htp⟩
  cases q with
  | acquire n now =>
    rcases acquire_standard name (m.replay h) l b n now with ⟨reason, ha⟩ | ⟨l', -, -, ha⟩
    · refine ⟨name, l, b, ?_, hconfig, hold⟩
      simp [Rail.serve, entry, ha, Metrics.record]
    · refine ⟨name, l', (b.allow now).2, ?_, ?_, ?_⟩
      · simp [Rail.serve, entry, ha]
      · rw [Breaker.config_allow, hconfig]
      · rw [Breaker.lastRefresh_allow]
        exact hold
  | rollback n now =>
    refine ⟨name, l.release n, b, ?_, hconfig, hold⟩
    simp [Rail.serve, entry, releaseUnused_standard]
  | release n o now =>
    refine ⟨name, l.release n, b.inform ((m.replay h).add (.outcome o) n now).health o now,
      ?_, ?_, ?_⟩
    · simp [Rail.serve, entry, release_standard, Metrics.record]
    · rw [Breaker.config_inform, hconfig]
    · intro t ht
      rcases Breaker.lastRefresh_inform b ((m.replay h).add (.outcome o) n now).health o now
        with hsame | hnow
      · rw [hsame] at ht
        exact hold t ht
      · rw [hnow] at ht
        cases ht
        exact ⟨.release n o now, by simp, rfl⟩

/-- A run of requests: the metrics replay the ledger. -/
theorem Tracks.after (hr : r.Tracks m config past h) (qs : List (Request ω)) :
    (r.after qs).Tracks m config (past ++ qs) (h ++ r.ledger qs) := by
  induction qs generalizing r past h with
  | nil => simpa [ledger] using hr
  | cons q qs ih => simpa [ledger] using ih (hr.serve q)

end Rail

namespace RailConfig

/-- The number of periods that the breaker looks back on. -/
def lookback (c : RailConfig) : Nat :=
  c.breaker.trailingPeriod.nanos ⌈/⌉ (c.metrics.resolutionMillis * 1000000)

/-- A faultless configuration lets the breaker look back no further than there are slots. -/
theorem reach_eq_lookback {c : RailConfig} (valid : c.fault? = none) :
    c.metrics.reach c.breaker.trailingPeriod = c.lookback := by
  obtain ⟨hbreaker, hmetrics, hspan⟩ := fault?_eq_none_iff.mp valid
  have htrailing := (BreakerConfig.fault?_eq_none_iff.mp hbreaker).2
  have hres := MetricsConfig.resolution_pos hmetrics
  have hle : c.lookback ≤ c.metrics.slotsToTrack := by
    rw [lookback, ceilDiv_le_iff_le_mul hres]
    simp only [BreakerConfig.trailingPeriod, MetricsConfig.span,
      Duration.ofMillis_le_ofMillis] at hspan
    simp only [BreakerConfig.trailingPeriod, Duration.ofMillis]
    have hcut : c.breaker.trailingPeriodMillis ≤
        c.metrics.resolutionMillis * c.metrics.slotsToTrack := by omega
    calc c.breaker.trailingPeriodMillis * 1000000
        ≤ c.metrics.resolutionMillis * c.metrics.slotsToTrack * 1000000 :=
          Nat.mul_le_mul_right _ hcut
      _ = c.metrics.resolutionMillis * 1000000 * c.metrics.slotsToTrack :=
          Nat.mul_right_comm _ _ _
  have hpos : 1 ≤ c.lookback := by
    by_contra hnot
    have hzero : c.lookback ≤ 0 := by omega
    rw [lookback, ceilDiv_le_iff_le_mul hres] at hzero
    simp only [BreakerConfig.trailingPeriod, Duration.ofMillis] at hzero
    omega
  simp only [MetricsConfig.reach]
  rw [← lookback]
  omega

/-- The permits of one sort that a ledger shows in the periods that the breaker looks back on
at `now`. -/
def permits (c : RailConfig) (start now : Nat) (h : History ω) (sort : Counter ω → Bool) : Nat :=
  h.recordedIn (c.metrics.periodAt start) (c.metrics.lastPeriods start c.lookback now) sort

/-- More permits have failed than the breaker puts up with: too many, or too large a share of
enough of them. -/
def Unhealthy [Outcome ω] (c : RailConfig) (start now : Nat) (h : History ω) : Prop :=
  let failed := c.permits start now h Counter.isFailure
  let all := c.permits start now h fun _ => true
  c.breaker.failureThreshold < failed ∨
    c.breaker.failurePercentageThreshold < 100 * failed / all ∧
      c.breaker.sampleSizeThreshold < all

instance [Outcome ω] (c : RailConfig) (start now : Nat) (h : History ω) :
    Decidable (c.Unhealthy start now h) :=
  inferInstanceAs (Decidable (_ ∨ _ ∧ _))

variable [Outcome ω] [DecidableEq ω]

/-- The thresholds in terms of what was counted. -/
theorem tripsOn_health {c : RailConfig} (valid : c.fault? = none)
    (fits : c.breaker.trailingPeriod.nanos < UInt64.size) {m : Metrics ω} {start now : Nat}
    (hm : m.Fresh c.metrics start) {h : History ω} (hlast : ∀ e ∈ h, e.time ≤ now)
    (hsmall : h.tally (fun _ => true) < UInt64.size) :
    c.breaker.tripsOn ((m.replay h).health c.breaker.trailingPeriod now) = true ↔
      c.Unhealthy start now h := by
  have hperiod : ∀ e ∈ h, c.metrics.periodAt start e.time ≤ c.metrics.periodAt start now := by
    intro e he
    have := hlast e he
    exact Nat.div_le_div_right (by omega)
  have hwindow : c.metrics.windowAt start c.breaker.trailingPeriod now =
      c.metrics.lastPeriods start c.lookback now := by
    rw [MetricsConfig.windowAt, reach_eq_lookback valid]
  have hle := h.recordedIn_le (c.metrics.periodAt start)
    (c.metrics.lastPeriods start c.lookback now) Counter.isFailure
  rw [hm.health_eq hperiod fits hsmall, hwindow]
  simp only [BreakerConfig.tripsOn, Bool.or_eq_true, Bool.and_eq_true, decide_eq_true_eq]
  rw [Health.failurePercentage_eq hle]
  rfl

end RailConfig

namespace Rail

variable [Outcome ω] {m : Metrics ω} {config : BreakerConfig} {past : List (Request ω)}
  {h : History ω} {r : Rail ω}

/-- A closed circuit that looks at its target every time decides on all that was counted, the
release it has just been told of included. -/
theorem Tracks.release_decides (hr : r.Tracks m config past h)
    (unbuffered : config.healthRefreshMillis = 0) (hclosed : r.circuit? = some .closed)
    {n : Nat} {o : ω} {now : Nat} (hlast : ∀ q ∈ past, q.time ≤ now)
    (ho : Outcome.isSuccess o = false) :
    (r.serve (.release n o now)).circuit? = some .opened ↔
      config.tripsOn ((m.replay (h ++ r.entry (.release n o now))).health config.trailingPeriod
        now) = true := by
  obtain ⟨name, l, b, rfl, hconfig, hrefresh⟩ := hr
  simp only [circuit?_standard, Option.some.injEq] at hclosed
  have hdue : b.refreshDue now = true := by
    unfold Breaker.refreshDue
    cases ht : b.lastRefresh with
    | none => rfl
    | some t =>
      obtain ⟨q, hq, htq⟩ := hrefresh t ht
      have hle : millisOf q.time ≤ millisOf now := Nat.div_le_div_right (hlast q hq)
      simp [hconfig, unbuffered, htq, hle]
  simp only [Rail.serve, release_standard, circuit?_standard, Option.some.injEq]
  rw [Breaker.inform_opens_iff hclosed]
  simp [ho, Breaker.snapshot, hdue, hconfig, entry, Metrics.record]

/-- Asking leaves a closed circuit closed. -/
theorem Tracks.acquire_closed (hr : r.Tracks m config past h)
    (hclosed : r.circuit? = some .closed) (n now : Nat) :
    (r.serve (.acquire n now)).circuit? = some .closed := by
  obtain ⟨name, l, b, rfl, -, -⟩ := hr
  rcases acquire_standard name (m.replay h) l b n now with ⟨reason, ha⟩ | ⟨l', -, -, ha⟩
  · simpa [Rail.serve, ha] using hclosed
  · simpa [Rail.serve, ha] using hclosed

/-- A breaker without a refresh interval decides on the true record: it opens on a release
exactly when the permits released and refused in the periods it looks back on cross a threshold,
and no question opens it. -/
theorem release_opens_iff [DecidableEq ω] (name : String) (config : RailConfig)
    (valid : config.fault? = none) (unbuffered : config.breaker.healthRefreshMillis = 0)
    (fits : config.breaker.trailingPeriod.nanos < UInt64.size) (start : Nat) :
    ∃ built : Report ω (Rail ω), ofConfig name config start = .ok built ∧
      ∀ past : List (Request ω), (built.value.after past).circuit? = some .closed →
        (∀ (n : Nat) (o : ω) (now : Nat), (∀ q ∈ past, q.time ≤ now) →
          Outcome.isSuccess o = false →
          (built.value.ledger (past ++ [.release n o now])).tally (fun _ => true) < UInt64.size →
          ((built.value.after (past ++ [.release n o now])).circuit? = some .opened ↔
            config.Unhealthy start now (built.value.ledger (past ++ [.release n o now])))) ∧
        ∀ n now, (built.value.after (past ++ [.acquire n now])).circuit? = some .closed := by
  obtain ⟨m, built, hbuilt, hfresh, hvalue⟩ := ofConfig_standard (ω := ω) name valid start
  refine ⟨built, hbuilt, fun past hclosed => ?_⟩
  have hstart : built.value.Tracks m config.breaker [] [] := by
    rw [hvalue]
    exact ⟨name, _, _, rfl, rfl, by simp⟩
  have hr : (built.value.after past).Tracks m config.breaker past (built.value.ledger past) := by
    simpa using hstart.after past
  constructor
  · intro n o now hlast ho hsmall
    have hbefore : ∀ e ∈ built.value.ledger (past ++ [.release n o now]), e.time ≤ now := by
      intro e he
      obtain ⟨q, hq, ht⟩ := time_ledger he
      rcases List.mem_append.mp hq with hq | hq
      · exact ht ▸ hlast q hq
      · rw [ht, List.mem_singleton.mp hq]
        exact Nat.le_refl _
    rw [← RailConfig.tripsOn_health valid fits hfresh hbefore hsmall, ledger_append,
      ← hr.release_decides unbuffered hclosed hlast ho, after_append]
  · intro n now
    rw [after_append]
    exact hr.acquire_closed hclosed n now

/-- Five permits, no refresh interval, and the circuit opens on the third failure in a second. -/
def tight : RailConfig :=
  ⟨5, { failureThreshold := 2, trailingPeriodMillis := 1000, healthRefreshMillis := 0 }, ⟨10, 100⟩⟩

/-- One failure too old to matter, one of late, and a refusal. -/
def tightRun : List (Request Status) :=
  [.acquire 3 0, .release 1 .error 50000000, .release 1 .timeout 900000000,
    .acquire 5 1000000000]

theorem release_opens_iff_tight :
    tight.fault? = none ∧ tight.breaker.healthRefreshMillis = 0 ∧
    tight.breaker.trailingPeriod.nanos < UInt64.size ∧
    ∃ built : Report Status (Rail Status), ofConfig "rail" tight 0 = .ok built ∧
      (built.value.after tightRun).circuit? = some .closed ∧
      (built.value.after (tightRun ++ [.release 1 .error 1040000000])).circuit? ≠
        some .opened ∧
      (built.value.after (tightRun ++ [.release 2 .error 1040000000])).circuit? =
        some .opened := by
  have fits : tight.breaker.trailingPeriod.nanos < UInt64.size := by decide
  obtain ⟨built, hbuilt, hrun⟩ := release_opens_iff (ω := Status) "rail" tight rfl rfl fits 0
  have hvalues : (ofConfig (ω := Status) "rail" tight 0).toOption.map (fun r =>
      ((r.value.after tightRun).circuit?,
        r.value.ledger (tightRun ++ [.release 1 .error 1040000000]),
        r.value.ledger (tightRun ++ [.release 2 .error 1040000000]))) =
      some (some .closed,
        [⟨.outcome .error, 1, 50000000⟩, ⟨.outcome .timeout, 1, 900000000⟩,
          ⟨.rejection .maxConcurrencyLevelExceeded, 5, 1000000000⟩,
          ⟨.outcome .error, 1, 1040000000⟩],
        [⟨.outcome .error, 1, 50000000⟩, ⟨.outcome .timeout, 1, 900000000⟩,
          ⟨.rejection .maxConcurrencyLevelExceeded, 5, 1000000000⟩,
          ⟨.outcome .error, 2, 1040000000⟩]) := by
    decide +kernel
  rw [hbuilt] at hvalues
  simp only [Except.toOption, Option.map_some, Option.some.injEq, Prod.mk.injEq] at hvalues
  obtain ⟨hclosed, hone, htwo⟩ := hvalues
  obtain ⟨hopens, -⟩ := hrun tightRun hclosed
  refine ⟨rfl, rfl, fits, built, hbuilt, hclosed, ?_, ?_⟩
  · rw [Ne, hopens 1 .error 1040000000 (by decide) rfl (by rw [hone]; decide), hone]
    decide +kernel
  · rw [hopens 2 .error 1040000000 (by decide) rfl (by rw [htwo]; decide), htwo]
    decide +kernel

end Rail

end Turnstile
