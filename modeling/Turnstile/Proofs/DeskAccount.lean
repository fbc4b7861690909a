import Mathlib.Data.List.Basic
import Turnstile.Proofs.DeskMoves
import Turnstile.Proofs.DeskRun
import Turnstile.Proofs.StandardRail

/-!
# The accounts of a desk

Every permit that is out belongs to a run that is under way or to a call that is
armed, and every total counts the answers and the settled calls that ended so. The
moves of a desk keep this balance, and so does every command.
-/

namespace Turnstile

/-- The total that an answer is counted in, if it is counted. -/
def Desk.Reply.counter? : Desk.Reply → Option (Counter Status)
  | .ran (.refused reason) => some (.rejection reason)
  | .ran (.returned (.ok _)) => some (.outcome .success)
  | .ran (.returned (.error (.timeout _))) => some (.outcome .timeout)
  | .ran (.returned (.error _)) => some (.outcome .error)
  | .ran (.panicked _) => some (.outcome .error)
  | .called (.error (.rejected reason)) => some (.rejection reason)
  | _ => none

/-- Whether an answer hands out a future. -/
def Desk.Reply.accepts : Desk.Reply → Bool
  | .called (.ok _) => true
  | _ => false

/-- A run is counted as what its result says. -/
theorem Desk.Reply.counter?_returned (r : CallResult) :
    (Desk.Reply.ran (.returned r)).counter? = some (.outcome (CallResult.status r)) := by
  cases r with
  | ok value => rfl
  | error e => cases e <;> rfl

theorem Desk.Reply.not_accepts {x : Desk.Reply} {c : Counter Status} (h : x.counter? = some c) :
    x.accepts = false := by
  cases x with
  | ran e => rfl
  | done => rfl
  | called r =>
    cases r with
    | ok u => cases h
    | error e => rfl

/-- The total that a call is counted in, once it is settled. -/
def Standing.counter? : Standing → Option (Counter Status)
  | .settled o => some (.outcome o)
  | _ => none

/-- The number of answers that are counted in a total. -/
def Desk.answered (past : List Desk.Reply) (c : Counter Status) : Nat :=
  past.countP fun x => x.counter? = some c

/-- The number of calls that are counted in a total. -/
def Desk.settledAs (calls : List Standing) (c : Counter Status) : Nat :=
  calls.countP fun s => s.counter? = some c

open Desk (Reply answered settledAs)

/-- The balance of a standard rail with what it was asked for: `held` permits are out for runs
under way, `past` are the answers so far, and `calls` says how the calls stand. -/
structure Balanced (capacity held : Nat) (past : List Reply) (calls : List Standing)
    (r : Rail Status) : Prop where
  proper : ∀ s ∈ calls, s = .armed 1 ∨ s = .abandoned ∨ ∃ o, s = .settled o
  books : ∃ name m l b, r = Rail.standard name m l b ∧ l.capacity = capacity ∧
    l.inFlight = held + calls.count (.armed 1) ∧
    ∀ c, m.total c = (answered past c + settledAs calls c) % UInt64.size

namespace Balanced

variable {capacity held : Nat} {past : List Reply} {calls : List Standing} {r : Rail Status}

theorem answered_append (x : Reply) (c : Counter Status) :
    answered (past ++ [x]) c = answered past c + if x.counter? = some c then 1 else 0 := by
  simp [answered, List.countP_append, List.countP_singleton]

theorem settledAs_append (s : Standing) (c : Counter Status) :
    settledAs (calls ++ [s]) c = settledAs calls c + if s.counter? = some c then 1 else 0 := by
  simp [settledAs, List.countP_append, List.countP_singleton]

/-- An armed call that is settled is counted once more than before. -/
theorem settledAs_set {i n : Nat} (hi : calls[i]? = some (.armed n)) (o : Status)
    (c : Counter Status) :
    settledAs (calls.set i (.settled o)) c =
      settledAs calls c + if Counter.outcome o = c then 1 else 0 := by
  obtain ⟨hlt, hget⟩ := List.getElem?_eq_some_iff.mp hi
  simp [settledAs, List.countP_set hlt, hget, Standing.counter?]

/-- An answer that is not counted does not matter. -/
theorem silent (h : Balanced capacity held past calls r) {x : Reply} (hx : x.counter? = none) :
    Balanced capacity held (past ++ [x]) calls r := by
  obtain ⟨name, m, l, b, hr, hcap, hflight, htotal⟩ := h.books
  refine ⟨h.proper, name, m, l, b, hr, hcap, hflight, fun c => ?_⟩
  rw [htotal, answered_append]
  simp [hx]

/-- Asking for one permit: either the refusal is counted, or the permit is out. -/
theorem acquire (h : Balanced capacity held past calls r) (now : Nat) :
    (∃ reason, (r.acquire 1 now).value.1 = some reason ∧
      ∀ x : Reply, x.counter? = some (.rejection reason) →
        Balanced capacity held (past ++ [x]) calls (r.acquire 1 now).value.2) ∨
    ((r.acquire 1 now).value.1 = none ∧
      Balanced capacity (held + 1) past calls (r.acquire 1 now).value.2) := by
  obtain ⟨name, m, l, b, rfl, hcap, hflight, htotal⟩ := h.books
  rcases Rail.acquire_standard name m l b 1 now with ⟨reason, ha⟩ | ⟨l', hl, -, ha⟩
  · left
    refine ⟨reason, by rw [ha], fun x hx => ?_⟩
    refine ⟨h.proper, name, m.add (.rejection reason) 1 now, l, b, by rw [ha], hcap, hflight, ?_⟩
    intro c
    rw [Metrics.total_add, htotal, answered_append, hx]
    simp only [Option.some.injEq]
    rw [Nat.mod_add_mod, Nat.add_right_comm]
  · right
    refine ⟨by rw [ha], h.proper, name, m, l', _, by rw [ha], ?_, ?_, htotal⟩
    · rw [(Limiter.acquire?_eq_some hl).1, hcap]
    · rw [Limiter.inFlight_acquire? hl, hflight]
      omega

/-- A run that ends gives its permit back and is counted. -/
theorem release (h : Balanced capacity (held + 1) past calls r) {x : Reply} {o : Status}
    (hx : x.counter? = some (.outcome o)) (now : Nat) :
    Balanced capacity held (past ++ [x]) calls (r.release 1 o now).value := by
  obtain ⟨name, m, l, b, rfl, hcap, hflight, htotal⟩ := h.books
  rw [Rail.release_standard]
  refine ⟨h.proper, name, _, _, _, rfl, ?_, ?_, ?_⟩
  · rw [Limiter.capacity_release, hcap]
  · rw [Limiter.inFlight_release, hflight]
    omega
  · intro c
    rw [Metrics.total_add, htotal, answered_append, hx]
    simp only [Option.some.injEq]
    rw [Nat.mod_add_mod, Nat.add_right_comm]

/-- An armed call that is settled gives its permit back and is counted. -/
theorem settle (h : Balanced capacity held past calls r) {i n : Nat}
    (hi : calls[i]? = some (.armed n)) (o : Status) (now : Nat) :
    Balanced capacity held past (calls.set i (.settled o)) (r.release n o now).value := by
  obtain ⟨name, m, l, b, rfl, hcap, hflight, htotal⟩ := h.books
  obtain ⟨hlt, hget⟩ := List.getElem?_eq_some_iff.mp hi
  have hone : n = 1 := by
    rcases h.proper _ (List.mem_of_getElem? hi) with hs | hs | ⟨o', hs⟩
    · simpa using hs
    · cases hs
    · cases hs
  subst hone
  rw [Rail.release_standard]
  refine ⟨?_, name, _, _, _, rfl, ?_, ?_, ?_⟩
  · intro s hs
    rcases List.mem_or_eq_of_mem_set hs with hs | hs
    · exact h.proper s hs
    · exact .inr (.inr ⟨o, hs⟩)
  · rw [Limiter.capacity_release, hcap]
  · have hpos : 0 < calls.count (.armed 1) := List.count_pos_iff.mpr (List.mem_of_getElem? hi)
    rw [Limiter.inFlight_release, hflight, List.count_set hlt, hget]
    simp
    omega
  · intro c
    rw [Metrics.total_add, htotal, settledAs_set hi, Nat.mod_add_mod, Nat.add_assoc]

/-- A permit that is out passes to a new call. -/
theorem arm (h : Balanced capacity (held + 1) past calls r) :
    Balanced capacity held past (calls ++ [.armed 1]) r := by
  obtain ⟨name, m, l, b, hr, hcap, hflight, htotal⟩ := h.books
  refine ⟨?_, name, m, l, b, hr, hcap, ?_, ?_⟩
  · intro s hs
    rcases List.mem_append.mp hs with hs | hs
    · exact h.proper s hs
    · exact .inl (List.mem_singleton.mp hs)
  · rw [hflight, List.count_append, List.count_singleton]
    simp
    omega
  · intro c
    rw [htotal, settledAs_append]
    simp [Standing.counter?]

/-- A permit that was not used goes back, and its call is given up. -/
theorem disarm (h : Balanced capacity (held + 1) past calls r) (now : Nat) :
    Balanced capacity held past (calls ++ [.abandoned]) (r.releaseUnused 1 now).value := by
  obtain ⟨name, m, l, b, rfl, hcap, hflight, htotal⟩ := h.books
  rw [Rail.releaseUnused_standard]
  refine ⟨?_, name, m, _, b, rfl, ?_, ?_, ?_⟩
  · intro s hs
    rcases List.mem_append.mp hs with hs | hs
    · exact h.proper s hs
    · exact .inr (.inl (List.mem_singleton.mp hs))
  · rw [Limiter.capacity_release, hcap]
  · rw [Limiter.inFlight_release, hflight, List.count_append, List.count_singleton]
    simp
  · intro c
    rw [htotal, settledAs_append]
    simp [Standing.counter?]

/-- Working the breaker by hand moves no permit and counts nothing. -/
theorem setBreaker (h : Balanced capacity held past calls r) (b' : Breaker) :
    Balanced capacity held past calls (r.setBreaker b') := by
  obtain ⟨name, m, l, b, rfl, hcap, hflight, htotal⟩ := h.books
  exact ⟨h.proper, name, m, l, b', rfl, hcap, hflight, htotal⟩

end Balanced

namespace Desk

variable {capacity held : Nat} {past : List Reply} {d d' : Desk}

theorem Move.balanced (h : Move d d') (hb : Balanced capacity held past d.standings d.rail) :
    Balanced capacity held past d'.standings d'.rail := by
  rcases h.effect with ⟨hr, hs⟩ | ⟨l, hr, hs⟩ | ⟨i, n, o, hi, hr, hs⟩
  · rw [hr, hs]
    exact hb
  · rw [hr, hs]
    unfold Desk.pull
    split
    · exact hb
    · exact hb.setBreaker _
  · rw [hr, hs]
    exact hb.settle hi o _

theorem Moves.balanced (h : Moves d d') (hb : Balanced capacity held past d.standings d.rail) :
    Balanced capacity held past d'.standings d'.rail := by
  induction h with
  | refl => exact hb
  | tail _ hm ih => exact hm.balanced ih

/-- The numbers of the calls that were not given up. -/
def accepted (calls : List Standing) : List Nat :=
  (List.range calls.length).filter fun i => decide (calls[i]? ≠ some .abandoned)

theorem accepted_append (calls : List Standing) (s : Standing) :
    accepted (calls ++ [s]) =
      accepted calls ++ if s = .abandoned then [] else [calls.length] := by
  have hold : ∀ i ∈ List.range calls.length, decide ((calls ++ [s])[i]? ≠ some .abandoned) =
      decide (calls[i]? ≠ some .abandoned) := by
    intro i hi
    rw [List.getElem?_append_left (List.mem_range.mp hi)]
  rw [accepted, List.length_append, List.length_singleton, List.range_succ, List.filter_append,
    List.filter_congr hold, accepted]
  by_cases hs : s = .abandoned <;> simp [hs]

theorem accepted_set {calls : List Standing} {i n : Nat} (hi : calls[i]? = some (.armed n))
    (o : Status) : accepted (calls.set i (.settled o)) = accepted calls := by
  obtain ⟨hlt, hget⟩ := List.getElem?_eq_some_iff.mp hi
  rw [accepted, accepted, List.length_set]
  refine List.filter_congr fun j _ => ?_
  rw [List.getElem?_set]
  by_cases hij : i = j
  · subst hij
    simp [hlt, hget]
  · simp [hij]

theorem Moves.accepted {d d' : Desk} (h : Moves d d') :
    accepted d'.standings = accepted d.standings := by
  induction h with
  | refl => rfl
  | tail _ hm ih =>
    rcases hm.effect with ⟨-, hs⟩ | ⟨l, -, hs⟩ | ⟨i, n, o, hi, -, hs⟩
    · rw [hs, ih]
    · rw [hs, ih]
    · rw [hs, accepted_set hi, ih]

theorem standings_addCall (d : Desk) (task : Task Errand) (timers : TimerService Nat) :
    (d.addCall task timers).standings = d.standings ++ [.armed 1] := by
  simp [standings, addCall, Permit.hold, Promise.withHook, Permit.standing]

theorem live_addCall (d : Desk) (task : Task Errand) (timers : TimerService Nat) :
    (d.addCall task timers).Live d.calls.length :=
  ⟨.armed 1, by rw [standings_addCall]; simp [standings], by simp⟩

/-- A desk in balance. No job and no deadline belongs to a call that was given up, and the
futures that were handed out, with those in `waiting`, are those of the other calls. -/
structure Sound (capacity held : Nat) (past : List Reply) (waiting : List Nat) (d : Desk) :
    Prop where
  balanced : Balanced capacity held past d.standings d.rail
  attended : d.Attended
  jobs : ∀ i ∈ d.jobs, d.Live i
  futures : (d.futures.map Prod.snd).reverse ++ waiting = accepted d.standings
  handed : d.futures.length = past.countP Reply.accepts

variable {waiting : List Nat}

theorem Moves.sound (h : Moves d d') (hd : Sound capacity held past waiting d) :
    Sound capacity held past waiting d' where
  balanced := h.balanced hd.balanced
  attended := h.attended hd.attended
  jobs := by
    intro i hi
    rw [h.frame.jobs] at hi
    exact h.live (hd.jobs i hi)
  futures := by rw [h.frame.futures, hd.futures, h.accepted]
  handed := by rw [h.frame.futures, hd.handed]

namespace Sound

theorem handed_append (h : Sound capacity held past waiting d) {x : Reply}
    (hx : x.accepts = false) : d.futures.length = (past ++ [x]).countP Reply.accepts := by
  rw [h.handed, List.countP_append, List.countP_singleton]
  simp [hx]

theorem silent (h : Sound capacity held past waiting d) {x : Reply} (hx : x.counter? = none)
    (ha : x.accepts = false) : Sound capacity held (past ++ [x]) waiting d :=
  ⟨h.balanced.silent hx, h.attended, h.jobs, h.futures, h.handed_append ha⟩

theorem acquire (h : Sound capacity held past waiting d) (now : Nat) :
    (∃ reason, (d.acquire 1 now).1 = some reason ∧
      ∀ x : Reply, x.counter? = some (.rejection reason) →
        Sound capacity held (past ++ [x]) waiting (d.acquire 1 now).2) ∨
    ((d.acquire 1 now).1 = none ∧
      Sound capacity (held + 1) past waiting (d.acquire 1 now).2) := by
  rcases h.balanced.acquire now with ⟨reason, hr, hb⟩ | ⟨hr, hb⟩
  · refine .inl ⟨reason, hr, fun x hx => ?_⟩
    exact ⟨hb x hx, h.attended, h.jobs, h.futures, h.handed_append (Reply.not_accepts hx)⟩
  · exact .inr ⟨hr, hb, h.attended, h.jobs, h.futures, h.handed⟩

theorem release (h : Sound capacity (held + 1) past waiting d) {x : Reply} {o : Status}
    (hx : x.counter? = some (.outcome o)) (now : Nat) :
    Sound capacity held (past ++ [x]) waiting (d.release 1 o now) :=
  ⟨h.balanced.release hx now, h.attended, h.jobs, h.futures,
    h.handed_append (Reply.not_accepts hx)⟩

/-- A run, whatever its action does on the way. -/
theorem run (h : Sound capacity held past waiting d) (a : Action Errand) :
    Sound capacity held (past ++ [.ran (d.run a).1]) waiting (d.run a).2 := by
  have hacquire := h.acquire d.clock.now
  unfold Desk.run
  generalize d.acquire 1 d.clock.now = asked at hacquire ⊢
  obtain ⟨answer, d'⟩ := asked
  rcases hacquire with ⟨reason, hr, hs⟩ | ⟨hr, hs⟩
  · cases hr
    exact hs _ rfl
  · cases hr
    have hrun := (execute_moves d' hs.attended none a).sound hs
    cases he : a.ending with
    | returns r => simpa [he] using hrun.release (Reply.counter?_returned r) _
    | panics p => simpa [he] using hrun.release rfl _

/-- A call takes over the permit that is out, under the next number. -/
theorem arm (h : Sound capacity (held + 1) past [] d) (task : Task Errand)
    {timers : TimerService Nat}
    (htimers : ∀ e ∈ timers.waiting, e ∈ d.timers.waiting ∨ e.task = d.calls.length) :
    Sound capacity held past [d.calls.length] (d.addCall task timers) := by
  have hst := standings_addCall d task timers
  have hold : ∀ i, d.Live i → (d.addCall task timers).Live i := fun i hi => hi.append hst
  constructor
  · rw [hst]
    exact h.balanced.arm
  · intro e he
    rcases htimers e he with he | he
    · exact hold _ (h.attended e he)
    · rw [he]
      exact live_addCall d task timers
  · exact fun i hi => hold i (h.jobs i hi)
  · have hf := h.futures
    rw [List.append_nil] at hf
    have hlength : d.standings.length = d.calls.length := by simp [standings]
    rw [hst, accepted_append, ← hf, hlength]
    simp [addCall]
  · exact h.handed

/-- A call that cannot start hands its permit back, and its number is given up. -/
theorem giveUp (h : Sound capacity (held + 1) past waiting d) (task : Task Errand)
    {timers : TimerService Nat} (htimers : timers.waiting = d.timers.waiting) (e : GuardError) :
    Sound capacity held past waiting ((d.addCall task timers).abandon d.calls.length e) := by
  have habandon := abandon_addCall d task timers e
  have hst : ((d.addCall task timers).abandon d.calls.length e).standings =
      d.standings ++ [.abandoned] := by
    rw [habandon]
    simp [standings, noteDown, releaseUnused, takeRail, Permit.standing]
  have hold : ∀ i, d.Live i → ((d.addCall task timers).abandon d.calls.length e).Live i :=
    fun i hi => hi.append hst
  constructor
  · rw [hst, habandon]
    exact h.balanced.disarm _
  · intro a ha
    rw [habandon] at ha
    simp only [noteDown, releaseUnused, takeRail, htimers] at ha
    exact hold _ (h.attended a ha)
  · intro i hi
    rw [habandon] at hi
    exact hold i (h.jobs i hi)
  · rw [hst, accepted_append, ← h.futures, habandon]
    simp [noteDown, releaseUnused, takeRail]
  · rw [habandon]
    exact h.handed

/-- Executing a waiting action, or keeping it for later. -/
theorem spawn (h : Sound capacity held past waiting d) {i : Nat} (hi : d.Live i) :
    Sound capacity held past waiting (d.spawn i) := by
  unfold Desk.spawn
  split
  · refine ⟨h.balanced, h.attended, ?_, h.futures, h.handed⟩
    intro j hj
    rcases List.mem_append.mp hj with hj | hj
    · exact h.jobs j hj
    · rw [List.mem_singleton.mp hj]
      exact hi
  · exact (d.runTask_moves h.attended hi).sound h

/-- A future is handed out under a label. -/
theorem handOut {i : Nat} (h : Sound capacity held past [i] d) (label : String) :
    Sound capacity held (past ++ [.called (.ok ())]) [] (d.handOut label i) := by
  refine ⟨h.balanced.silent rfl, h.attended, h.jobs, ?_, ?_⟩
  · rw [Desk.handOut, List.append_nil, List.map_cons, List.reverse_cons]
    exact h.futures
  · rw [Desk.handOut, List.length_cons, h.handed, List.countP_append, List.countP_singleton]
    rfl

/-- A call, wherever its deadline lies and whatever its action does. -/
theorem call (h : Sound capacity held past [] d) (label : String) (a : Action Errand) (t : Nat) :
    Sound capacity held (past ++ [.called (d.call label a t).1]) [] (d.call label a t).2 := by
  have hacquire := h.acquire d.clock.now
  rcases hask : d.acquire 1 d.clock.now with ⟨answer, d'⟩
  rw [hask] at hacquire
  rcases hacquire with ⟨reason, hr, hs⟩ | ⟨hr, hs⟩
  · cases hr
    rw [call_refused hask]
    exact hs _ rfl
  · cases hr
    rcases hsched : d'.timers.schedule d'.calls.length (taskOf a t d.clock.now).deadline t
      d.clock.now with ⟨scheduling, timers⟩
    have harm := hs.arm (taskOf a t d.clock.now)
      fun e (he : e ∈ timers.waiting) => TimerService.mem_schedule hsched he
    have hlive := live_addCall d' (taskOf a t d.clock.now) timers
    cases scheduling with
    | stopped =>
      rw [call_stopped hask hsched]
      refine (hs.giveUp _ ?_ _).silent rfl rfl
      rw [TimerService.schedule_stopped hsched]
      rfl
    | expired =>
      -- the call times out before its action gets a turn
      rw [call_expired hask hsched]
      have hnote := noteDown_moves (d'.addCall (taskOf a t d.clock.now) timers)
        [.timerFired timers.name (taskOf a t d.clock.now).deadline]
      have hm := hnote.trans (expire_moves _ (hnote.live hlive))
      exact ((Moves.sound hm harm).spawn (Moves.live hm hlive)).handOut label
    | unneeded =>
      rw [call_waiting hask hsched (.inl rfl)]
      exact (harm.spawn hlive).handOut label
    | queued =>
      rw [call_waiting hask hsched (.inr rfl)]
      exact (harm.spawn hlive).handOut label

/-- A waiting action that is executed, at whatever position. -/
theorem runJob (h : Sound capacity held past waiting d) (position : Nat) :
    Sound capacity held past waiting (d.runJob position).2 := by
  unfold Desk.runJob
  split
  · exact h
  · rename_i i hi
    have hlive := h.jobs i (List.mem_of_getElem? hi)
    have htaken : Sound capacity held past waiting { d with jobs := d.jobs.eraseIdx position } :=
      ⟨h.balanced, h.attended, fun j hj => h.jobs j (List.mem_of_mem_eraseIdx hj), h.futures,
        h.handed⟩
    exact (runTask_moves _ htaken.attended hlive).sound htaken

theorem start (h : Sound capacity held past waiting d) :
    Sound capacity held past waiting d.start := by
  refine ⟨h.balanced, ?_, h.jobs, h.futures, h.handed⟩
  intro e he
  have hwaits : d.start.timers.waiting = d.timers.waiting := d.timers.waiting_start
  exact h.attended e (hwaits ▸ he)

/-- Whatever waited for its deadline is forgotten. -/
theorem shutdown (h : Sound capacity held past waiting d) :
    Sound capacity held past waiting d.shutdown := by
  refine ⟨h.balanced, ?_, h.jobs, h.futures, h.handed⟩
  intro e he
  cases he

/-- Every command keeps the balance. -/
theorem perform (h : Sound capacity held past [] d) (c : Command) :
    Sound capacity held (past ++ [(d.perform c).1]) [] (d.perform c).2 := by
  cases c with
  | run a => exact h.run a
  | call label a t => exact h.call label a t
  | runJob position => exact (h.runJob position).silent rfl rfl
  | on label kind shown => exact ((on_moves d label kind shown).sound h).silent rfl rfl
  | start => exact h.start.silent rfl rfl
  | shutdown => exact h.shutdown.silent rfl rfl
  | setClock nanos => exact ((setClock_moves d nanos).sound h).silent rfl rfl
  | advance millis => exact ((advance_moves d millis).sound h).silent rfl rfl
  | look => exact ((look_moves d).sound h).silent rfl rfl
  | fire position => exact ((fire_moves d h.attended position).sound h).silent rfl rfl
  | pull l =>
    have hm : Moves d (d.pull l) := .single (.pull d l)
    exact (hm.sound h).silent rfl rfl

/-- Every run of commands keeps the balance. -/
theorem after (h : Sound capacity held past [] d) (commands : List Command) :
    Sound capacity held (past ++ d.replies commands) [] (d.after commands) := by
  induction commands generalizing d past with
  | nil => simpa [replies] using h
  | cons c commands ih => simpa [replies] using ih (h.perform c)

end Sound

/-- Counting the numbers of a list by what stands there is counting the list. -/
theorem countP_range_getElem? {α : Type} (l : List α) (p : Option α → Bool) :
    (List.range l.length).countP (fun i => p l[i]?) = l.countP fun a => p (some a) := by
  induction l with
  | nil => rfl
  | cons a l ih =>
    rw [List.length_cons, List.range_succ_eq_map, List.countP_cons, List.countP_map,
      List.countP_cons, ← ih]
    rfl

/-- Counting the futures that were handed out is counting the calls that were not given up. -/
theorem Sound.countP_futures (h : Sound capacity held past [] d)
    (p : Option (Settled Status) → Bool) :
    d.futures.countP (fun f => p (d.shown f.2)) =
      d.calls.countP fun c => p c.permit.settled? && decide (c.permit.standing ≠ .abandoned) := by
  have hf := h.futures
  rw [List.append_nil] at hf
  have hlength : d.standings.length = d.calls.length := by simp [standings]
  calc d.futures.countP (fun f => p (d.shown f.2))
      = (d.futures.map Prod.snd).reverse.countP fun i => p (d.shown i) := by
        rw [List.countP_reverse, List.countP_map]
        rfl
    _ = (List.range d.calls.length).countP fun i => p (d.shown i) &&
          decide (d.standings[i]? ≠ some .abandoned) := by
        rw [hf, accepted, List.countP_filter, hlength]
    _ = (List.range d.calls.length).countP fun i =>
          p (d.calls[i]?.bind fun c => c.permit.settled?) &&
            decide (d.calls[i]?.map (fun c => c.permit.standing) ≠ some .abandoned) := by
        simp only [shown, standings, List.getElem?_map]
    _ = d.calls.countP fun c => p c.permit.settled? &&
          decide (c.permit.standing ≠ .abandoned) := by
        rw [countP_range_getElem? d.calls fun o => p (o.bind fun c => c.permit.settled?) &&
          decide (o.map (fun c => c.permit.standing) ≠ some .abandoned)]
        simp

/-- The armed calls are those whose future was handed out and shows nothing yet. -/
theorem Sound.count_armed (h : Sound capacity held past [] d) :
    d.standings.count (.armed 1) = d.futures.countP fun f => (d.shown f.2).isNone := by
  rw [h.countP_futures fun o => o.isNone, standings, List.count_eq_countP, List.countP_map]
  refine List.countP_congr fun c hc => ?_
  have hproper := h.balanced.proper c.permit.standing (List.mem_map_of_mem hc)
  obtain ⟨⟨phase, hook, callbacks⟩, task⟩ := c
  cases phase <;> cases hook <;>
    simp_all [Permit.standing, Promise.settled?]

/-- The settled calls are those whose future shows a result. -/
theorem Sound.settledAs_outcome (h : Sound capacity held past [] d) (o : Status) :
    settledAs d.standings (.outcome o) =
      d.futures.countP fun f => (d.shown f.2).any fun s => decide (s.outcome = o) := by
  rw [h.countP_futures fun x => x.any fun s => decide (s.outcome = o), settledAs, standings,
    List.countP_map]
  refine List.countP_congr fun c _ => ?_
  obtain ⟨⟨phase, hook, callbacks⟩, task⟩ := c
  cases phase <;> cases hook <;>
    simp [Permit.standing, Promise.settled?, Standing.counter?]

theorem settledAs_rejection (calls : List Standing) (reason : Rejection) :
    settledAs calls (.rejection reason) = 0 := by
  rw [settledAs, List.countP_eq_zero]
  intro s _
  cases s <;> simp [Standing.counter?]

/-- All that a call leaves behind that cannot be started. The rail has taken a permit in between,
and at most a trial call of the breaker stays. -/
theorem call_stopped_outline {name : String} {m : Metrics Status} {l : Limiter} {b : Breaker}
    (hrail : d.rail = Rail.standard name m l b) {label : String} {a : Action Errand} {t : Nat}
    {service : String} (hcall : (d.call label a t).1 = .error (.schedulerStopped service)) :
    (b.allow d.clock.now).1 = none ∧ ∃ notes,
      (d.call label a t).2 = { d with
        rail := Rail.standard name m l (b.allow d.clock.now).2
        timers := { d.timers with nextSeq := d.timers.nextSeq + 1 }
        calls := d.calls ++ [⟨{}, taskOf a t d.clock.now⟩]
        notes := notes } := by
  obtain ⟨d', timers, hask, hsched⟩ := stopped_of_call hcall
  obtain ⟨rail, notes, hd'⟩ := acquire_outline hask
  have htimers := TimerService.schedule_stopped hsched
  have hnone : (d.rail.acquire 1 d.clock.now).value.1 = none := congrArg Prod.fst hask
  have hgranted : rail = (d.rail.acquire 1 d.clock.now).value.2 := by
    have hboth : d'.rail = (d.acquire 1 d.clock.now).2.rail := by rw [hask]
    rwa [hd'] at hboth
  rw [hrail] at hnone hgranted
  rcases Rail.acquire_standard name m l b 1 d.clock.now with ⟨reason, ha⟩ | ⟨l', hl, hb, ha⟩
  · rw [ha] at hnone
    cases hnone
  · rw [ha] at hgranted
    subst hgranted hd'
    refine ⟨hb, (d.call label a t).2.notes, ?_⟩
    rw [call_stopped hask hsched, abandon_addCall]
    simp only [noteDown, releaseUnused, takeRail, Rail.releaseUnused_standard,
      Limiter.release_acquire? hl, htimers]

/-- A call that finds the timer service stopped leaves limiter, metrics and futures as they
were. -/
theorem Sound.call_stopped_keeps (h : Sound capacity held past [] d) {label : String}
    {a : Action Errand} {t : Nat} {service : String}
    (hcall : (d.call label a t).1 = .error (.schedulerStopped service)) :
    (d.call label a t).2.rail.limiter? = d.rail.limiter? ∧
      (d.call label a t).2.rail.metrics = d.rail.metrics ∧
      (d.call label a t).2.futures = d.futures := by
  obtain ⟨name, m, l, b, hrail, -, -, -⟩ := h.balanced.books
  obtain ⟨-, notes, hafter⟩ := call_stopped_outline hrail hcall
  rw [hafter, hrail]
  exact ⟨rfl, rfl, rfl⟩

/-- A desk that opens with a rail just built from a configuration is in balance. -/
theorem sound_opening (name : String) {config : RailConfig} (valid : config.fault? = none)
    (start : Nat) :
    ∃ built : Rail.Report Status (Rail Status), Rail.ofConfig name config start = .ok built ∧
      ∀ (clock : Clock) (service : String) (queued : Bool),
        Sound config.maxConcurrency 0 [] [] (opening built.value clock service queued) := by
  obtain ⟨m, built, hbuilt, hfresh, hvalue⟩ :=
    Rail.ofConfig_standard (ω := Status) name valid start
  refine ⟨built, hbuilt, fun clock service queued => ?_⟩
  constructor
  · refine ⟨by simp [opening, standings], name, m, .ofCapacity config.maxConcurrency, _, hvalue,
      rfl, ?_, ?_⟩
    · simp [opening, standings]
    · intro c
      rw [hfresh.total]
      simp [answered, settledAs, opening, standings]
  · intro e he
    cases he
  · intro i hi
    cases hi
  · rfl
  · rfl

/-- Every guarded call is accounted for once, in every run: the permits in flight are those of
the futures that show nothing yet, each total counts the runs that ended so and the futures that
show it, or the refusals for that reason, and a call that could not be started changes none of
them. -/
theorem accounts (name : String) (config : RailConfig) (valid : config.fault? = none)
    (start : Nat) :
    ∃ built : Rail.Report Status (Rail Status), Rail.ofConfig name config start = .ok built ∧
      ∀ (clock : Clock) (service : String) (queued : Bool) (commands : List Command),
        let d := (opening built.value clock service queued).after commands
        let past := (opening built.value clock service queued).replies commands
        ∃ l, d.rail.limiter? = some l ∧ l.capacity = config.maxConcurrency ∧
          l.inFlight = d.futures.countP (fun f => (d.shown f.2).isNone) ∧
          (∀ o, d.rail.metrics.total (.outcome o) =
            (answered past (.outcome o) +
              d.futures.countP fun f => (d.shown f.2).any fun s => decide (s.outcome = o)) %
                UInt64.size) ∧
          (∀ reason, d.rail.metrics.total (.rejection reason) =
            answered past (.rejection reason) % UInt64.size) ∧
          d.futures.length = past.countP Reply.accepts ∧ (d.futures.map Prod.snd).Nodup ∧
          ∀ label a t stopped, (d.call label a t).1 = .error (.schedulerStopped stopped) →
            (d.call label a t).2.rail.limiter? = some l ∧
              (d.call label a t).2.rail.metrics = d.rail.metrics ∧
              (d.call label a t).2.futures = d.futures := by
  obtain ⟨built, hbuilt, hopening⟩ := sound_opening name valid start
  refine ⟨built, hbuilt, fun clock service queued commands => ?_⟩
  intro d past
  have h : Sound config.maxConcurrency 0 past [] d := by
    simpa using (hopening clock service queued).after commands
  obtain ⟨name', m, l, b, hrail, hcap, hflight, htotal⟩ := h.balanced.books
  have hlimiter : d.rail.limiter? = some l := by rw [hrail, Rail.limiter?_standard]
  refine ⟨l, hlimiter, hcap, ?_, ?_, ?_, h.handed, ?_, ?_⟩
  · rw [hflight, h.count_armed, Nat.zero_add]
  · intro o
    rw [hrail, Rail.metrics_standard, htotal, h.settledAs_outcome]
  · intro reason
    rw [hrail, Rail.metrics_standard, htotal, settledAs_rejection, Nat.add_zero]
  · have hf := h.futures
    rw [List.append_nil] at hf
    rw [← List.nodup_reverse, hf]
    exact List.nodup_range.filter _
  · intro label a t stopped hcall
    rw [← hlimiter]
    exact h.call_stopped_keeps hcall

/-- Two permits for jobs that wait: a call that is executed and one that times out, then one that
is executed after its deadline, before the deadline fires. In between a refused run, and runs that
return a value, an error and a timeout, and that panic. In the end a call without a timer service,
and one that stays open. -/
def workday : List Command :=
  [.start, .call "slow" { ending := .returns (.ok "late") } 50,
    .call "quick" { ending := .returns (.ok "done") } 100,
    .run { ending := .returns (.ok "refused") }, .runJob 1, .advance 60, .look, .fire 0,
    .call "late" { ending := .returns (.ok "just") } 10, .advance 20, .runJob 1, .look, .fire 0,
    .run { ending := .returns (.ok "well") },
    .run { ending := .returns (.error (.execution "down")) },
    .run { ending := .returns (.error (.timeout (.ofMillis 5))) },
    .run { ending := .panics .other, steps := [.advance 1, .pull .forceClosed] }, .shutdown,
    .call "lost" { ending := .returns (.ok "never") } 10,
    .call "open" { ending := .returns (.ok "later") } 0]

theorem accounts_workday :
    RailConfig.fault? ⟨2, { trailingPeriodMillis := 1000 }, ⟨10, 100⟩⟩ = none ∧
    ∃ built : Rail.Report Status (Rail Status),
      Rail.ofConfig "rail" ⟨2, { trailingPeriodMillis := 1000 }, ⟨10, 100⟩⟩ 0 = .ok built ∧
      let d := (opening built.value (.startingAt 0) "timers" true).after workday
      ∃ l, d.rail.limiter? = some l ∧ l.inFlight = 1 ∧
        d.rail.metrics.total (.outcome .success) = 3 ∧
        d.rail.metrics.total (.outcome .error) = 2 ∧
        d.rail.metrics.total (.outcome .timeout) = 2 ∧
        d.rail.metrics.total (.rejection .maxConcurrencyLevelExceeded) = 1 := by
  obtain ⟨built, hbuilt, haccounts⟩ :=
    accounts "rail" ⟨2, { trailingPeriodMillis := 1000 }, ⟨10, 100⟩⟩ rfl 0
  have hcounts : (Rail.ofConfig (ω := Status) "rail"
      ⟨2, { trailingPeriodMillis := 1000 }, ⟨10, 100⟩⟩ 0).toOption.map (fun r =>
        let d := (opening r.value (.startingAt 0) "timers" true).after workday
        let past := (opening r.value (.startingAt 0) "timers" true).replies workday
        (d.futures.countP (fun f => (d.shown f.2).isNone),
          answered past (.rejection .maxConcurrencyLevelExceeded),
          (Outcome.variants (ω := Status)).map fun o => (answered past (.outcome o),
            d.futures.countP fun f => (d.shown f.2).any fun s => decide (s.outcome = o)))) =
      some (1, 1, [(1, 2), (2, 0), (1, 1)]) := by
    decide +kernel
  rw [hbuilt] at hcounts
  simp only [Except.toOption, Option.map_some, Option.some.injEq, Prod.mk.injEq, Outcome.variants,
    List.map_cons, List.map_nil, List.cons.injEq, and_true] at hcounts
  obtain ⟨l, hl, -, hflight, htotal, hrefused, -⟩ :=
    haccounts (.startingAt 0) "timers" true workday
  obtain ⟨hopen, hrefusals, hsuccess, herror, htimeout⟩ := hcounts
  refine ⟨rfl, built, hbuilt, l, hl, by rw [hflight, hopen], ?_, ?_, ?_, ?_⟩
  · rw [htotal, hsuccess.1, hsuccess.2]
    rfl
  · rw [htotal, herror.1, herror.2]
    rfl
  · rw [htotal, htimeout.1, htimeout.2]
    rfl
  · rw [hrefused, hrefusals]
    rfl

end Desk

end Turnstile
