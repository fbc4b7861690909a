import Turnstile.Proofs.Episodes
import Turnstile.Proofs.Moves

/-!
# Single assignment

The first attempt to settle a promise wins, and every other one fails on the spot and changes
nothing, also one made by the hook while the value is not shown yet. The value that readers
see is that of the first attempt, from the moment it is shown and for good. The proof follows
every small step of the machine, with the story up to it beside it.
-/

namespace Turnstile

/-- The value that an attempt is for. A completion is a success; a failure is a timeout if its
outcome is one, and an error otherwise. -/
inductive Step.Asks {ω : Type} [Outcome ω] : Step ω → Settled ω → Prop where
  | complete (outcome : ω) (value : String) :
      Asks (.complete outcome value) ⟨outcome, .success, .ok value⟩
  | timeout {outcome : ω} (h : Outcome.isTimeout outcome = true) (e : GuardError) :
      Asks (.fail outcome e) ⟨outcome, .timeout, .error e⟩
  | error {outcome : ω} (h : Outcome.isTimeout outcome = false) (e : GuardError) :
      Asks (.fail outcome e) ⟨outcome, .error, .error e⟩

theorem Step.asks_iff {ω : Type} [Outcome ω] {s : Step ω} {v : Settled ω} :
    s.Asks v ↔ s.attempt? = some v := by
  constructor
  · rintro (_ | h | h) <;> simp_all [Step.attempt?, Settled.ofValue, Settled.ofError]
  · intro h
    cases s with
    | complete o x =>
      cases h
      exact .complete o x
    | fail o e =>
      cases h
      rw [Settled.ofError]
      cases ht : Outcome.isTimeout o with
      | true => exact .timeout ht e
      | false => exact .error ht e
    | _ => cases h

namespace Story

variable {ω : Type}

/-- What a story says about the phase of the promise. -/
def Tells (t : Story ω) : Phase ω → Prop
  | .pending => t.attempts = [] ∧ t.published = false
  | .completing v => t.attempts.head? = some v ∧ t.published = false
  | .done v => t.attempts.head? = some v ∧ t.published = true

theorem Tells.idle {t d : Story ω} {phase : Phase ω} (h : Tells t phase)
    (hd : d.attempts = []) (hpub : d.published = false) : Tells (t ++ d) phase := by
  cases phase <;> exact ⟨by simp [hd, h.1], by simp [hpub, h.2]⟩

/-- Later attempts do not change what the story says. -/
theorem Tells.append {t d : Story ω} {phase : Phase ω} (h : Tells t phase)
    (hphase : phase ≠ .pending) (hpub : d.published = false) : Tells (t ++ d) phase := by
  cases phase with
  | pending => exact absurd rfl hphase
  | completing v =>
    obtain ⟨hhead, hpub'⟩ := h
    exact ⟨by simp [hhead], by simp [hpub, hpub']⟩
  | done v =>
    obtain ⟨hhead, hpub'⟩ := h
    exact ⟨by simp [hhead], by simp [hpub']⟩

/-- Readers see the first attempt, once it has been shown. -/
theorem Tells.reads {η κ : Type} {t : Story ω} {p : Promise ω η κ} (h : Tells t p.phase) :
    p.isDone = t.published ∧
      p.settled? = if t.published then t.attempts.head? else none := by
  unfold Promise.isDone Promise.settled?
  cases hp : p.phase <;> rw [hp] at h <;> simp [h.1, h.2]

theorem Tells.isPending {η κ : Type} {t : Story ω} {p : Promise ω η κ}
    (h : Tells t p.phase) : p.isPending = t.attempts.isEmpty := by
  unfold Promise.isPending
  cases hp : p.phase <;> rw [hp] at h <;> cases ha : t.attempts <;> simp_all [Tells]

end Story

namespace Machine

open Story

variable {ω : Type}

/-- The machine is where its story says, and rests until the first attempt. -/
structure Follows (t : Story ω) (m : Machine ω) : Prop extends Calm m where
  tells : Tells t m.promise.phase
  rests : m.promise.phase = .pending → m.stack = []

namespace Follows

variable {t : Story ω} {m : Machine ω}

theorem begun (h : Follows t m) {f : Frame ω} {below : List (Frame ω)}
    (hs : m.stack = f :: below) : m.promise.phase ≠ .pending := by
  intro hp
  have hempty := h.rests hp
  simp [hs] at hempty

/-- As long as no attempt wins and nothing is shown, only the story grows. -/
theorem keep (h : Follows t m) (hphase : m.promise.phase ≠ .pending) {d : Story ω}
    (hd : d.published = false) {m' : Machine ω} (hp : m'.promise.phase = m.promise.phase)
    (calm : m'.Calm) : Follows (t ++ d) m' where
  toCalm := calm
  tells := hp ▸ h.tells.append hphase hd
  rests := fun hpending => absurd (hp ▸ hpending) hphase

theorem settle (h : Follows t m) (v : Settled ω) : Follows (t ++ m.tries v) (m.settle v) := by
  by_cases hp : m.promise.phase = .pending
  · have htold := h.tells
    rw [hp] at htold
    obtain ⟨hphase, hwork, hfallback⟩ := settle_first hp v
    refine ⟨⟨hwork.trans h.alone, hfallback ▸ h.quiet⟩, ?_, fun hpending => ?_⟩
    · rw [hphase]
      exact ⟨by simp [htold.1], by simp [htold.2]⟩
    · rw [hphase] at hpending
      cases hpending
  · have hlate : m.promise.isPending = false := Promise.isPending_eq_false_iff.mpr hp
    obtain ⟨hsettle, htries⟩ := settle_lost hlate v
    rw [hsettle, htries]
    exact h.keep hp rfl rfl h.toCalm

theorem register (h : Follows t m) (c : Callback (Reaction ω)) :
    Follows (t ++ [.register c]) (m.register c) := by
  have hstory : Tells (t ++ [.register c]) m.promise.phase := h.tells.idle rfl rfl
  cases hdone : m.promise.isDone with
  | false =>
    rw [register_early hdone]
    exact ⟨⟨h.alone, h.quiet⟩, hstory, h.rests⟩
  | true =>
    cases hp : m.promise.phase with
    | done v =>
      simp only [Machine.register, Promise.register, hp]
      exact ⟨⟨h.alone, h.quiet⟩, hstory, fun hpending => by simp [push, hp] at hpending⟩
    | _ => simp [Promise.isDone, Promise.settled?, hp] at hdone

variable [Outcome ω]

theorem perform (h : Follows t m) (s : Step ω) :
    Follows (t ++ m.begins s) (m.perform s) := by
  rcases s.sorts with ⟨v, ha⟩ | hidle | ⟨p, rfl⟩ | ⟨kind, label, body, rfl⟩
  · obtain ⟨hperform, hbegins, -⟩ := perform_attempt ha m
    rw [hperform, hbegins]
    exact h.settle v
  · obtain ⟨hs, -, hp, calm⟩ := perform_idle h.toCalm hidle
    rw [begins_idle m hidle, List.append_nil]
    exact ⟨calm, hp ▸ h.tells, fun hpending => hs.trans (h.rests (hp ▸ hpending))⟩
  · have hbegins : m.begins (.panic p) = [] := rfl
    rw [hbegins, List.append_nil]
    exact ⟨⟨h.alone, h.quiet⟩, h.tells, h.rests⟩
  · exact h.register _

/-- The story keeps up with the machine. -/
theorem step (h : Follows t m) : Follows (t ++ m.deeds) m.step := by
  have hbegun : m.stack ≠ [] → m.promise.phase ≠ .pending := fun hs hp => hs (h.rests hp)
  have move := step_move h.alone
  generalize m.deeds = d, m.step = m' at move ⊢
  cases move with
  | rest => rwa [List.append_nil]
  | pass busy keeps hseen hd =>
    refine h.keep (hbegun busy) ?_ (by rw [keeps.promise]) ?_
    · rcases hd with hd | ⟨verb, a, hd⟩ <;> rw [hd] <;> rfl
    · exact ⟨keeps.work.trans h.alone, keeps.fallback ▸ h.quiet⟩
  | begin s script below hs =>
    have hinner : Follows t { m with
        stack := .report s.verb (m.answer s) :: .body script :: below } :=
      ⟨⟨h.alone, h.quiet⟩, h.tells, fun hp => absurd hp (hbegun (by simp [hs]))⟩
    exact hinner.perform s
  | call busy keeps hseen =>
    exact h.keep (hbegun busy) rfl (by rw [keeps.promise])
      ⟨keeps.work.trans h.alone, keeps.fallback ▸ h.quiet⟩
  | @publish v _ hp hp' hwork hfallback hseen =>
    have htold := h.tells
    rw [hp] at htold
    refine ⟨⟨hwork.trans h.alone, hfallback ▸ h.quiet⟩, ?_, fun hpending => ?_⟩
    · rw [hp']
      exact ⟨by simp [htold.1], by simp⟩
    · rw [hp'] at hpending
      cases hpending

theorem runFor (h : Follows t m) (n : Nat) : Follows (t ++ m.storyFor n) (m.runFor n) := by
  induction n generalizing t m with
  | zero => simpa [storyFor, Machine.runFor] using h
  | succ n ih =>
    have hrest := ih h.step
    rwa [List.append_assoc] at hrest

theorem enact (h : Follows t m) (s : Step ω) : Follows (t ++ m.episode s) (m.enact s).2 := by
  have hrun := (h.perform s).runFor (m.perform s).weight
  have hover : (m.perform s).run.stack = [] := halted_run _
  have hstory : Tells (t ++ m.episode s) (m.perform s).run.promise.phase := by
    have htold := hrun.tells.idle (d := [.reply s.verb (m.enact s).1]) rfl rfl
    simpa only [episode, run, List.append_assoc] using htold
  simp only [Machine.enact]
  split
  · exact ⟨hrun.toCalm, hstory, fun _ => hover⟩
  · exact ⟨⟨hrun.alone, hrun.quiet⟩, hstory, fun _ => hover⟩

/-- The story of a program keeps up with the machine. -/
theorem after (h : Follows t m) (program : Script ω) :
    Follows (t ++ m.tale program) (m.after program) := by
  induction program generalizing t m with
  | nil => simpa [tale] using h
  | cons s program ih =>
    have hrest := ih (h.enact s)
    rwa [List.append_assoc] at hrest

end Follows

theorem Follows.of_pending {m : Machine ω} (calm : m.Calm) (hs : m.stack = [])
    (hp : m.promise.phase = .pending) : Follows [] m :=
  ⟨calm, by rw [hp]; exact ⟨rfl, rfl⟩, fun _ => hs⟩

variable [Outcome ω]

/-- After any program, exactly the first attempt to begin succeeds, and its value is seen from
the moment it is shown, and for good. Any other attempt, in a script that runs as well, fails
at once and changes nothing but the script that it is in. -/
theorem assigned_once (hook : Option (Script ω)) (fallback : Fallback)
    (quiet : fallback.Quiet) (before : Script ω) (s : Step ω) (n : Nat) :
    let start : Machine ω := { promise := { hook := hook }, fallback := fallback }
    let m := start.after before
    let past := start.tale before
    let now := (m.perform s).runFor n
    let sofar := past ++ m.begins s ++ (m.perform s).storyFor n
    (∀ v, s.Asks v → past.attempts = [] →
      (m.enact s).1 = .truth true ∧ sofar.attempts.head? = some v ∧
      ∀ late, (start.after (before ++ s :: late)).promise.settled? = some v) ∧
    (∀ v, s.Asks v → past.attempts ≠ [] →
      m.enact s = (.truth false, m) ∧
      m.episode s = [.attempt v, .reply s.verb (.truth false)]) ∧
    (∀ s' v rest below, now.raised = none → now.stack = .body (s' :: rest) :: below →
      s'.Asks v →
      sofar.attempts ≠ [] ∧
      now.runFor 2 = { now with
        stack := .body rest :: below
        events := now.events ++ [.did s'.verb (.truth false)] } ∧
      now.storyFor 2 = [.attempt v, .reply s'.verb (.truth false)]) ∧
    now.promise.isDone = sofar.published ∧
    now.promise.settled? = if sofar.published then sofar.attempts.head? else none := by
  intro start m past now sofar
  have hstart : start.Resting := ⟨⟨rfl, quiet⟩, rfl, rfl⟩
  have hrest : m.Resting := after_resting hstart rfl before
  have hpast : Follows past m := (Follows.of_pending ⟨rfl, quiet⟩ rfl rfl).after before
  have hnow : Follows sofar now := (hpast.perform s).runFor n
  have hpending : m.promise.isPending = past.attempts.isEmpty := hpast.tells.isPending
  -- between two steps the machine rests; inside one only the story says what was tried
  refine ⟨?_, ?_, ?_, hnow.tells.reads⟩
  · intro v ha hfirst
    rw [Step.asks_iff] at ha
    have hphase : m.promise.phase = .pending :=
      Promise.isPending_iff.mp (by simp [hpending, hfirst])
    obtain ⟨-, -, -, -, -, hanswer, hdone, hrest'⟩ := enact_first_attempt hrest hphase ha
    refine ⟨hanswer, ?_, fun late => ?_⟩
    · simp [sofar, (perform_attempt ha m).2.1, hfirst]
    · obtain ⟨-, -, hsame⟩ := tale_late hrest' (by rw [hdone]) late
      have hafter : start.after (before ++ s :: late) = (m.enact s).2.after late := by simp [m]
      rw [hafter, hsame, hdone]
      rfl
  · intro v ha hlater
    exact enact_late_attempt hrest.still (by simp [hpending, hlater]) (Step.asks_iff.mp ha)
  · intro s' v rest below hr hs ha
    have hlate : now.promise.isPending = false :=
      Promise.isPending_eq_false_iff.mpr (hnow.begun hs)
    obtain ⟨hrun, hstory⟩ := attempt_lost hs hr (Step.asks_iff.mp ha) hlate
    refine ⟨?_, hrun, hstory⟩
    rw [hnow.tells.isPending] at hlate
    simpa using hlate

/-- A hook that tries to settle before the value is shown. -/
def hastyStart : Machine Status :=
  { promise := { hook := some [.complete .success "late"] }, fallback := .shown "alarm" }

/-- The attempt of a hook fails while the promise is not done, and the timeout stays. -/
theorem assigned_once_in_hook :
    let before : Script Status := [.on .timeout "a" [.complete .success "later"]]
    let s : Step Status := .fail .timeout .cancelled
    let now := (hastyStart.after before).perform s
    hastyStart.fallback.Quiet ∧
      s.Asks ⟨.timeout, .timeout, .error .cancelled⟩ ∧
      ((hastyStart.after before).enact s).1 = .truth true ∧
      now.promise.isDone = false ∧
      now.runFor 2 = { now with
        stack := [.body [], .guard .timeout, .publish]
        events := now.events ++ [.did .complete (.truth false)] } ∧
      ∀ late, (hastyStart.after (before ++ s :: late)).promise.settled? =
        some ⟨.timeout, .timeout, .error .cancelled⟩ := by
  intro before s now
  have hs : s.Asks ⟨.timeout, .timeout, .error .cancelled⟩ := .timeout rfl _
  obtain ⟨hfirst, -, hinner, hdone, -⟩ :=
    assigned_once (some [.complete Status.success "late"]) (.shown "alarm")
      (Fallback.quiet_shown _) before s 0
  obtain ⟨hanswer, -, hgood⟩ := hfirst _ hs rfl
  obtain ⟨-, hrun, -⟩ := hinner (.complete Status.success "late") _ [] [.guard .timeout, .publish]
    rfl rfl (.complete Status.success "late")
  exact ⟨Fallback.quiet_shown _, hs, hanswer, hdone, hrun, hgood⟩

end Machine

end Turnstile
