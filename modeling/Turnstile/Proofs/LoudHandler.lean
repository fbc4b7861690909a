import Turnstile.Proofs.Assignment
import Turnstile.Proofs.Callbacks

/-!
# Handlers that panic

The fallback handler is called outside of every guard, in the middle of the attempt that wins. Main
statement: what such an attempt leaves behind, for every handler. A hook that panics keeps the value
from being shown for good if the handler panics too, and a callback that panics then takes the
callbacks with it that wait behind it. Nothing else is lost, and nothing is called twice.
-/

namespace Turnstile

variable {ω : Type}

mutual

/-- The panic by which a step ends the script it is in, on a promise that is done. A callback that
is run inside its registration does so if the handler panics over it. -/
def Step.escape? (f : Fallback) (kind : Kind) : Step ω → Option Panic
  | .panic p => some p
  | .on kind' _ body =>
    if kind' = kind then (Step.escapes? f kind body).bind (f.raised kind) else none
  | .complete .. | .fail .. | .ask _ | .run | .expire | .cancel => none

def Step.escapes? (f : Fallback) (kind : Kind) : List (Step ω) → Option Panic
  | [] => none
  | s :: rest => (s.escape? f kind).or (Step.escapes? f kind rest)

end

/-- The panic by which a script ends that runs on a promise that is done. -/
def Script.escape? (f : Fallback) (kind : Kind) (script : Script ω) : Option Panic :=
  Step.escapes? f kind script

/-- The panic of the handler over the panic of a callback. -/
def Callback.escape? (f : Fallback) (kind : Kind) (c : Callback (Reaction ω)) : Option Panic :=
  if c.kind = kind then (c.body.body.escape? f kind).bind (f.raised kind) else none

namespace Script

variable (f : Fallback) (kind : Kind)

@[simp] theorem escape?_nil : escape? f kind ([] : Script ω) = none := by
  rw [escape?, Step.escapes?]

@[simp] theorem escape?_cons (s : Step ω) (rest : Script ω) :
    escape? f kind (s :: rest) = (s.escape? f kind).or (escape? f kind rest) := by
  rw [escape?, Step.escapes?, escape?]

end Script

@[simp] theorem Step.escape?_panic (f : Fallback) (kind : Kind) (p : Panic) :
    (Step.panic p : Step ω).escape? f kind = some p := by rw [escape?]

@[simp] theorem Step.escape?_on (f : Fallback) (kind kind' : Kind) (label : String)
    (body : Script ω) : (Step.on kind' label body).escape? f kind =
      Callback.escape? f kind ⟨kind', ⟨label, body⟩⟩ := by
  rw [escape?, Callback.escape?, Script.escape?]

theorem Step.escape?_eq_none {s : Step ω} (h : s.verb ≠ .panic) (h' : s.verb ≠ .on) (f : Fallback)
    (kind : Kind) : s.escape? f kind = none := by
  cases s <;> first | exact absurd rfl h | exact absurd rfl h' | rw [escape?]

theorem Callback.escape?_of_eq {c : Callback (Reaction ω)} {kind : Kind} (h : c.kind = kind)
    (f : Fallback) : c.escape? f kind = (c.body.body.escape? f kind).bind (f.raised kind) :=
  if_pos h

theorem Callback.escape?_of_ne {c : Callback (Reaction ω)} {kind : Kind} (h : c.kind ≠ kind)
    (f : Fallback) : c.escape? f kind = none := if_neg h

theorem Callback.escape?_quiet {f : Fallback} (quiet : f.Quiet) (kind : Kind)
    (c : Callback (Reaction ω)) : c.escape? f kind = none := by
  unfold escape?
  split
  · exact quiet.bind_raised kind _
  · rfl

namespace Story

theorem owed_perm (v : Settled ω) {cs cs' : List (Callback (Reaction ω))} (h : cs.Perm cs') :
    (owed v cs).Perm (owed v cs') := (h.filter _).map _

variable (f : Fallback) (kind : Kind)

/-- The callbacks that have their turn: up to the first that makes the handler panic. -/
def reached : List (Callback (Reaction ω)) → List (Callback (Reaction ω))
  | [] => []
  | c :: cs => c :: if (c.escape? f kind).isSome then [] else reached cs

/-- The callbacks behind it. -/
def missed : List (Callback (Reaction ω)) → List (Callback (Reaction ω))
  | [] => []
  | c :: cs => if (c.escape? f kind).isSome then cs else missed cs

theorem reached_append_missed (cs : List (Callback (Reaction ω))) :
    reached f kind cs ++ missed f kind cs = cs := by
  induction cs with
  | nil => rfl
  | cons c cs ih =>
    rw [reached, missed]
    split <;> simp [ih]

/-- A handler that does not panic lets every callback have its turn. -/
theorem missed_quiet {f : Fallback} (quiet : f.Quiet) (cs : List (Callback (Reaction ω))) :
    missed f kind cs = [] := by
  induction cs with
  | nil => rfl
  | cons c cs ih => simpa [missed, Callback.escape?_quiet quiet] using ih

/-- Nobody is left out, exactly if nothing is owed to the callbacks that are missed. -/
theorem served_iff {f : Fallback} {v : Settled ω} {waiting later : List (Callback (Reaction ω))}
    {t : Story ω} (h : t.called.Perm (owed v (reached f v.kind waiting ++ later))) :
    t.called.Perm (owed v (waiting ++ later)) ↔ owed v (missed f v.kind waiting) = [] := by
  have hwaiting : owed v waiting =
      owed v (reached f v.kind waiting) ++ owed v (missed f v.kind waiting) := by
    rw [← owed_append, reached_append_missed]
  rw [owed_append] at h
  rw [owed_append, hwaiting]
  constructor
  · intro hall
    have hlength := (h.symm.trans hall).length_eq
    simp only [List.length_append] at hlength
    exact List.length_eq_zero_iff.mp (by omega)
  · intro hnone
    rwa [hnone, List.append_nil]

end Story

namespace Promise

/-- The panic of the handler over the panic of the hook. -/
def stuck? (f : Fallback) (kind : Kind) (p : Promise ω (Script ω) (Reaction ω)) : Option Panic :=
  (p.hook.bind Script.outburst?).bind (f.raised kind)

/-- The callbacks that wait when the value is shown, those of the hook included. -/
def waiting (p : Promise ω (Script ω) (Reaction ω)) : List (Callback (Reaction ω)) :=
  p.callbacks ++ p.hook.elim [] Script.enlists

end Promise

/-- A frame that stops a panic. -/
def Frame.stops : Frame ω → Bool
  | .guard _ | .conclude _ => true
  | .body _ | .report .. | .publish | .fire .. | .expired _ => false

namespace Machine

open Story

variable [Outcome ω]

/-- A panic drops the frames that do not stop it. -/
theorem drop_leads {fs base : List (Frame ω)} (hfs : ∀ f ∈ fs, f.stops = false) {m : Machine ω}
    {p : Panic} (hs : m.stack = fs ++ base) (hr : m.raised = some p) :
    m.Leads [] { m with stack := base } := by
  induction fs generalizing m with
  | nil =>
    rw [List.nil_append] at hs
    rw [← hs]
    exact .refl m
  | cons f fs ih =>
    have hstep : m.step = { m with stack := fs ++ base } := by
      rw [step_panic hs hr]
      have hf := hfs f List.mem_cons_self
      cases f <;> first | rfl | cases hf
    have hdeeds : m.deeds = [] := by simp [deeds, hr]
    have hrest := ih (fun f' hf' => hfs f' (List.mem_cons_of_mem _ hf')) (m := m.step)
      (by rw [hstep]) (by rw [hstep]; exact hr)
    rw [hstep] at hrest
    have hlead := Leads.next (m := m) (by rw [hstep]; exact hrest)
    rwa [hdeeds] at hlead

/-- A promise on its own that is done. -/
structure Displays (f : Fallback) (v : Settled ω) (m : Machine ω) : Prop where
  alone : m.work = none
  handler : m.fallback = f
  done : m.promise.phase = .done v

omit [Outcome ω] in
theorem Displays.keep {f : Fallback} {v : Settled ω} {m m' : Machine ω} (h : Displays f v m)
    (keeps : m.Keeps m') : Displays f v m' :=
  ⟨keeps.work.trans h.alone, keeps.fallback.trans h.handler, keeps.promise ▸ h.done⟩

/-- The script calls what is owed to the callbacks that it registers, and it ends by the panic that
escapes, if there is one. -/
def Serves (f : Fallback) (v : Settled ω) (script : Script ω) : Prop :=
  ∀ (m : Machine ω) (base : List (Frame ω)), Displays f v m → m.raised = none →
    m.stack = .body script :: base →
    ∃ t m', m.Leads t m' ∧ t.called.Perm (owed v t.registered) ∧ m'.stack = base ∧
      m'.raised = script.escape? f v.kind ∧ m.Keeps m'

variable {f : Fallback} {v : Settled ω} {rest : Script ω}

theorem Serves.nil : Serves f v ([] : Script ω) := fun _ _ _ hr hs =>
  ⟨[], _, nil_leads hs hr, .refl _, rfl, by simp [hr], rfl, rfl, rfl⟩

theorem Serves.panic (p : Panic) : Serves f v (.panic p :: rest) := fun _ _ _ hr hs =>
  ⟨[], _, panic_leads hs hr, .refl _, rfl, by simp, rfl, rfl, rfl⟩

theorem Serves.attempt {s : Step ω} {v' : Settled ω} (ha : s.attempt? = some v')
    (h : Serves f v rest) : Serves f v (s :: rest) := by
  intro m base shown hr hs
  have hlate : m.promise.isPending = false := by simp [Promise.isPending, shown.done]
  obtain ⟨hrun, hstory⟩ := attempt_lost hs hr ha hlate
  have keeps₁ : m.Keeps (m.runFor 2) := by rw [hrun]; exact ⟨rfl, rfl, rfl⟩
  obtain ⟨t, m', hlead, hcalled, hs', hr', keeps⟩ :=
    h (m.runFor 2) base (shown.keep keeps₁) (by rw [hrun]; exact hr) (by rw [hrun])
  obtain ⟨hpanic, hon⟩ := Step.verb_ne_of_attempt ha
  refine ⟨_, m', Leads.trans ⟨2, rfl, hstory⟩ hlead, by simpa using hcalled, hs', ?_,
    keeps₁.trans keeps⟩
  rw [Script.escape?_cons, Step.escape?_eq_none hpanic hon, Option.none_or, hr']

theorem Serves.idle {s : Step ω} (hidle : s.IsIdle) (h : Serves f v rest) :
    Serves f v (s :: rest) := by
  intro m base shown hr hs
  obtain ⟨m₁, hlead₁, hs₁, hr₁, keeps₁⟩ := idle_leads_keeps shown.alone hs hr hidle
  obtain ⟨t, m', hlead, hcalled, hs', hr', keeps⟩ := h m₁ base (shown.keep keeps₁) hr₁ hs₁
  obtain ⟨hpanic, hon⟩ := hidle.verb_ne
  refine ⟨_, m', hlead₁.trans hlead, by simpa using hcalled, hs', ?_, keeps₁.trans keeps⟩
  rw [Script.escape?_cons, Step.escape?_eq_none hpanic hon, Option.none_or, hr']

/-- A callback is run if it is meant for the ending that came. Its panic is caught, and what gets
out is at most the panic of the handler. -/
theorem fire_serves {c : Callback (Reaction ω)} (h : Serves f v c.body.body) {m : Machine ω}
    {base : List (Frame ω)} (shown : Displays f v m) (hr : m.raised = none)
    (hs : m.stack = .fire c v :: base) :
    ∃ t m', m.Leads t m' ∧ t.called.Perm (owed v (c :: t.registered)) ∧ m'.stack = base ∧
      m'.raised = c.escape? f v.kind ∧ m.Keeps m' := by
  have hstep := step_frame hs hr
  by_cases hkind : c.kind = v.kind
  · have hdeeds : m.deeds = [.call c v.result] := by simp [deeds, hs, hr, hkind]
    simp only [work1, fire, hkind, if_true] at hstep
    have keeps : m.Keeps m.step := by rw [hstep]; exact ⟨rfl, rfl, rfl⟩
    obtain ⟨t, m₁, hlead₁, hcalled, hs₁, hr₁, keeps₁⟩ :=
      h m.step (.guard v.kind :: base) (shown.keep keeps) (by rw [hstep]; exact hr)
        (by rw [hstep]; rfl)
    obtain ⟨m₂, hlead₂, hs₂, hr₂, keeps₂⟩ := guard_leads_keeps hs₁
    have hlead := (hlead₁.trans hlead₂).next
    rw [hdeeds, List.append_nil] at hlead
    refine ⟨_, m₂, hlead, ?_, hs₂, ?_, (keeps.trans keeps₁).trans keeps₂⟩
    · rw [owed_cons_of_eq hkind]
      exact hcalled.cons _
    · rw [hr₂, hr₁, (keeps.trans keeps₁).fallback, shown.handler, Callback.escape?_of_eq hkind]
  · have hdeeds : m.deeds = [] := by simp [deeds, hs, hr, hkind]
    simp only [work1, fire, hkind, if_false] at hstep
    have hlead := (Leads.refl m.step).next
    rw [hdeeds] at hlead
    refine ⟨[], m.step, hlead, ?_, ?_⟩
    · rw [owed_cons_of_ne hkind]
      exact .refl _
    · rw [hstep, Callback.escape?_of_ne hkind]
      exact ⟨rfl, hr, rfl, rfl, rfl⟩

theorem Serves.on {kind : Kind} {label : String} {body : Script ω} (hbody : Serves f v body)
    (h : Serves f v rest) : Serves f v (.on kind label body :: rest) := by
  intro m base shown hr hs
  let c : Callback (Reaction ω) := ⟨kind, ⟨label, body⟩⟩
  obtain ⟨hstep, hdeeds⟩ := step_body hs hr (by simp [Step.verb])
  have hregister : m.step = { m with
      stack := .fire c v :: .report .on .nothing :: .body rest :: base } := by
    rw [hstep]
    simp [perform, register, Promise.register, shown.done, push, answer, Step.verb, c]
  have keeps : m.Keeps m.step := by rw [hregister]; exact ⟨rfl, rfl, rfl⟩
  obtain ⟨t₁, m₁, hlead₁, hcalled₁, hs₁, hr₁, keeps₁⟩ :=
    fire_serves (m := m.step) (c := c) hbody (shown.keep keeps) (by rw [hregister]; exact hr)
      (by rw [hregister])
  have keeps₁ := keeps.trans keeps₁
  cases hescape : c.escape? f v.kind with
  | some p =>
    rw [hescape] at hr₁
    have hframes : m₁.stack = [.report .on .nothing, .body rest] ++ base := hs₁
    have hlead₂ := drop_leads (by simp [Frame.stops]) hframes hr₁
    have hall := (hlead₁.trans hlead₂).next
    rw [hdeeds] at hall
    refine ⟨_, _, hall, by simpa [begins] using hcalled₁, rfl, ?_, keeps₁.promise, keeps₁.work,
      keeps₁.fallback⟩
    rw [Script.escape?_cons, Step.escape?_on, hescape, Option.some_or, hr₁]
  | none =>
    rw [hescape] at hr₁
    obtain ⟨hstep₂, hdeeds₂⟩ := step_report hs₁ hr₁
    have keeps₂ : m.Keeps m₁.step := by
      rw [hstep₂]
      exact ⟨keeps₁.promise, keeps₁.work, keeps₁.fallback⟩
    obtain ⟨t, m', hlead, hcalled, hs', hr', keeps'⟩ := h m₁.step base (shown.keep keeps₂)
      (by rw [hstep₂]; exact hr₁) (by rw [hstep₂])
    have hall := (hlead₁.trans hlead.next).next
    rw [hdeeds, hdeeds₂] at hall
    refine ⟨_, m', hall, ?_, hs', ?_, keeps₂.trans keeps'⟩
    · have hperm := hcalled₁.append hcalled
      rw [← owed_append] at hperm
      simpa [begins] using hperm
    · rw [Script.escape?_cons, Step.escape?_on, hescape, Option.none_or, hr']

/-- Every script does, on a promise that is done. -/
theorem serves (f : Fallback) (v : Settled ω) (script : Script ω) : Serves f v script := by
  -- a callback is run inside its registration, so the induction is on the weight of the script
  induction hn : Step.weights script using Nat.strongRecOn generalizing script with
  | ind n ih =>
    subst hn
    cases script with
    | nil => exact .nil
    | cons s rest =>
      have hrest : Serves f v rest := by
        refine ih _ ?_ rest rfl
        have := six_le_weight s
        rw [weights_cons]
        omega
      rcases s.sorts with ⟨v', ha⟩ | hidle | ⟨p, rfl⟩ | ⟨kind, label, body, rfl⟩
      · exact hrest.attempt ha
      · exact hrest.idle hidle
      · exact .panic p
      · refine .on (ih _ ?_ body rfl) hrest
        rw [weights_cons, weight_on]
        omega

/-- The callbacks that have waited have their turn up to the first whose panic escapes. -/
theorem fireAll_serves {cs : List (Callback (Reaction ω))} {m : Machine ω} (shown : Displays f v m)
    (hr : m.raised = none) (hs : m.stack = cs.map fun c => .fire c v) :
    ∃ t m', m.Leads t m' ∧
      t.called.Perm (owed v (reached f v.kind cs ++ t.registered)) ∧ m'.stack = [] ∧
      m'.raised = cs.findSome? (·.escape? f v.kind) ∧ m.Keeps m' := by
  induction cs generalizing m with
  | nil => exact ⟨[], m, .refl m, .refl _, hs, by simp [hr], rfl, rfl, rfl⟩
  | cons c cs ih =>
    obtain ⟨t₁, m₁, hlead₁, hcalled₁, hs₁, hr₁, keeps₁⟩ :=
      fire_serves (serves f v c.body.body) shown hr hs
    cases hescape : c.escape? f v.kind with
    | some p =>
      rw [hescape] at hr₁
      have hframes : m₁.stack = (cs.map fun c => .fire c v) ++ [] := by rw [hs₁, List.append_nil]
      have hlead₂ := drop_leads
        (fun f hf => by obtain ⟨c', -, rfl⟩ := List.mem_map.mp hf; rfl) hframes hr₁
      refine ⟨_, _, hlead₁.trans hlead₂, by simpa [reached, hescape] using hcalled₁, rfl, ?_,
        keeps₁.promise, keeps₁.work, keeps₁.fallback⟩
      simp [hescape, hr₁]
    | none =>
      rw [hescape] at hr₁
      obtain ⟨t, m', hlead, hcalled, hs', hr', keeps⟩ := ih (shown.keep keeps₁) hr₁ hs₁
      refine ⟨_, m', hlead₁.trans hlead, ?_, hs', ?_, keeps₁.trans keeps⟩
      · have hreached : reached f v.kind (c :: cs) = c :: reached f v.kind cs := by
          simp [reached, hescape]
        have hperm := hcalled₁.append hcalled
        rw [← owed_append, ← called_append] at hperm
        rw [hreached, registered_append]
        exact hperm.trans (owed_perm v ((List.perm_append_comm_assoc _ _ _).cons c))
      · rw [hr', List.findSome?_cons, hescape]

/-- The hook gathers its callbacks, and its panic is handed to the handler. -/
theorem settle_hooked {m : Machine ω} (still : m.Still) (hp : m.promise.phase = .pending)
    (v : Settled ω) {hook : Script ω} (hhook : m.promise.hook = some hook) :
    ∃ t m', (m.settle v).Leads t m' ∧ t.called = [] ∧ t.registered = hook.enlists ∧
      m'.stack = [.publish] ∧
      m'.raised = m.promise.stuck? m.fallback v.kind ∧
      m'.promise = ⟨.completing v, none, m.promise.waiting⟩ ∧ m'.work = none ∧
      m'.fallback = m.fallback := by
  have hsettle : m.settle v = { m with
      promise := { m.promise with phase := .completing v, hook := none }
      stack := [.body hook, .guard v.kind, .publish]
      events := m.events ++ [.hook v.outcome] } := by
    simp [settle, Promise.begin?, hp, hhook, push, emit, still.ended]
  obtain ⟨t, m₁, hlead₁, ht, hreg, hs₁, hr₁, hp₁, hwork₁, hfallback₁⟩ :=
    gather_leads (m := m.settle v) (by rw [hsettle]; exact still.alone) (by rw [hsettle])
      (by rw [hsettle]; exact still.sound) (by rw [hsettle])
  rw [hsettle] at hp₁ hfallback₁
  obtain ⟨m₂, hlead₂, hs₂, hr₂, keeps₂⟩ := guard_leads_keeps hs₁
  have hp₂ := keeps₂.promise.trans hp₁
  refine ⟨_, m₂, hlead₁.trans hlead₂, by simpa using ht.called, by simpa using hreg, hs₂, ?_, ?_,
    keeps₂.work.trans hwork₁, keeps₂.fallback.trans hfallback₁⟩
  · rw [hr₂, hr₁, hfallback₁, Promise.stuck?, hhook]
    rfl
  · simpa [Promise.waiting, hhook] using hp₂

/-- A hook that makes the handler panic: the value stays hidden, and nobody is called. -/
theorem settle_sticks {m : Machine ω} (still : m.Still) (hp : m.promise.phase = .pending)
    (v : Settled ω) {p : Panic} (h : m.promise.stuck? m.fallback v.kind = some p) :
    ∃ t m', (m.settle v).Leads t m' ∧ t.called = [] ∧ m'.stack = [] ∧
      m'.raised = some p ∧ m'.promise = ⟨.completing v, none, m.promise.waiting⟩ ∧
      m'.work = none ∧ m'.fallback = m.fallback := by
  cases hhook : m.promise.hook with
  | none => simp [Promise.stuck?, hhook] at h
  | some hook =>
    obtain ⟨t, m₁, hlead₁, hcalled, -, hs₁, hr₁, hp₁, hwork₁, hfallback₁⟩ :=
      settle_hooked still hp v hhook
    rw [h] at hr₁
    have hframes : m₁.stack = [.publish] ++ [] := hs₁
    have hlead₂ := drop_leads (by simp [Frame.stops]) hframes hr₁
    exact ⟨_, _, hlead₁.trans hlead₂, by simpa using hcalled, rfl, hr₁, hp₁, hwork₁, hfallback₁⟩

/-- Showing the value and firing what has waited. -/
theorem drain_serves {m : Machine ω} (alone : m.work = none)
    (hp : m.promise.phase = .completing v) (hr : m.raised = none) (hs : m.stack = [.publish]) :
    ∃ (t : Story ω) (m' : Machine ω), m.Leads (.publish v :: t) m' ∧
      t.called.Perm (owed v
        (reached m.fallback v.kind m.promise.callbacks ++ t.registered)) ∧
      m'.stack = [] ∧
      m'.raised = m.promise.callbacks.findSome? (·.escape? m.fallback v.kind) ∧
      m'.promise = { m.promise with phase := .done v, callbacks := [] } ∧ m'.work = none ∧
      m'.fallback = m.fallback := by
  obtain ⟨t, m', hlead, hcalled, hs', hr', keeps⟩ := fireAll_serves (v := v)
    (m := { m with
      promise := { m.promise with phase := .done v, callbacks := [] }
      stack := m.promise.callbacks.map (fun c => .fire c v) ++ [] })
    ⟨alone, rfl, rfl⟩ hr (List.append_nil _)
  exact ⟨t, m', (publish_leads hp hr hs).trans hlead, hcalled, hs', hr', keeps.promise,
    keeps.work.trans alone, keeps.fallback⟩

/-- Otherwise the value is shown, and the callbacks have their turn. -/
theorem settle_serves {m : Machine ω} (still : m.Still) (hp : m.promise.phase = .pending)
    (v : Settled ω) (h : m.promise.stuck? m.fallback v.kind = none) :
    ∃ t later m', (m.settle v).Leads t m' ∧
      m.promise.callbacks ++ t.registered = m.promise.waiting ++ later ∧
      t.called.Perm (owed v (reached m.fallback v.kind m.promise.waiting ++ later)) ∧
      m'.stack = [] ∧
      m'.raised = m.promise.waiting.findSome? (·.escape? m.fallback v.kind) ∧
      m'.promise = { phase := .done v } ∧ m'.work = none ∧ m'.fallback = m.fallback := by
  cases hhook : m.promise.hook with
  | none =>
    have hwaiting : m.promise.waiting = m.promise.callbacks := by simp [Promise.waiting, hhook]
    have hsettle : m.settle v = { m with
        promise := { m.promise with phase := .completing v, hook := none }
        stack := [.publish] } := by
      simp [settle, Promise.begin?, hp, hhook, push, still.ended]
    obtain ⟨t, m', hlead, hcalled, hs', hr', hp', hwork', hfallback'⟩ :=
      drain_serves (m := m.settle v) (by rw [hsettle]; exact still.alone) (by rw [hsettle])
        (by rw [hsettle]; exact still.sound) (by rw [hsettle])
    rw [hsettle] at hcalled hr' hp' hfallback'
    rw [hwaiting]
    exact ⟨_, t.registered, m', hlead, rfl, hcalled, hs', hr', hp', hwork', hfallback'⟩
  | some hook =>
    have hwaiting : m.promise.waiting = m.promise.callbacks ++ hook.enlists := by
      simp [Promise.waiting, hhook]
    obtain ⟨t₁, m₁, hlead₁, hcalled₁, hreg₁, hs₁, hr₁, hp₁, hwork₁, hfallback₁⟩ :=
      settle_hooked still hp v hhook
    rw [h] at hr₁
    obtain ⟨t, m', hlead, hcalled, hs', hr', hp', hwork', hfallback'⟩ :=
      drain_serves (v := v) hwork₁ (by rw [hp₁]) hr₁ hs₁
    rw [hp₁, hfallback₁] at hcalled hr'
    rw [hp₁] at hp'
    refine ⟨_, t.registered, m', hlead₁.trans hlead, ?_, ?_, hs', hr', hp', hwork',
      hfallback'.trans hfallback₁⟩
    · simp [hreg₁, hwaiting]
    · simpa [hcalled₁] using hcalled

theorem enact_of_leads_raised {m m' : Machine ω} {s : Step ω} {t : Story ω}
    (h : (m.perform s).Leads t m') (hs : m'.stack = []) :
    m.enact s = (m'.raised.elim (m.answer s) .panicked, { m' with raised := none }) ∧
      m.episode s = m.begins s ++ t ++ [.reply s.verb (m.enact s).1] := by
  obtain ⟨hrun, hstory⟩ := h.run hs
  refine ⟨?_, by rw [episode, hstory]⟩
  cases hr : m'.raised with
  | none =>
    have hsame : { m' with raised := none } = m' := by rw [← hr]
    simp [enact, hrun, hr, hsame]
  | some p => simp [enact, hrun, hr]

/-- The first attempt, if the hook makes the handler panic. -/
theorem enact_sticks {m : Machine ω} (still : m.Still) (hp : m.promise.phase = .pending)
    {s : Step ω} {v : Settled ω} (ha : s.attempt? = some v) {p : Panic}
    (h : m.promise.stuck? m.fallback v.kind = some p) :
    (m.enact s).1 = .panicked p ∧ (m.episode s).called = [] ∧
      (m.enact s).2.Still ∧
      (m.enact s).2.promise = ⟨.completing v, none, m.promise.waiting⟩ := by
  obtain ⟨hperform, hbegins, -, -⟩ := perform_attempt ha m
  obtain ⟨t, m', hlead, hcalled, hs, hr, hp', hwork, -⟩ := settle_sticks still hp v h
  rw [← hperform] at hlead
  obtain ⟨henact, hepisode⟩ := enact_of_leads_raised hlead hs
  refine ⟨by rw [henact, hr]; rfl, ?_, ?_⟩
  · simp [hepisode, hbegins, hcalled]
  · rw [henact]
    exact ⟨⟨hwork, hs, rfl⟩, hp'⟩

/-- The first attempt otherwise. -/
theorem enact_serves {m : Machine ω} (still : m.Still) (hp : m.promise.phase = .pending)
    {s : Step ω} {v : Settled ω} (ha : s.attempt? = some v)
    (h : m.promise.stuck? m.fallback v.kind = none) :
    (m.enact s).1 =
        (m.promise.waiting.findSome? (·.escape? m.fallback v.kind)).elim (.truth true) .panicked ∧
      (∃ later,
        m.promise.callbacks ++ (m.episode s).registered = m.promise.waiting ++ later ∧
        (m.episode s).called.Perm
          (owed v (reached m.fallback v.kind m.promise.waiting ++ later))) ∧
      (m.enact s).2.Still ∧ (m.enact s).2.promise = { phase := .done v } := by
  obtain ⟨hperform, hbegins, hanswer, -⟩ := perform_attempt ha m
  obtain ⟨t, later, m', hlead, hreg, hcalled, hs, hr, hp', hwork, -⟩ := settle_serves still hp v h
  rw [← hperform] at hlead
  obtain ⟨henact, hepisode⟩ := enact_of_leads_raised hlead hs
  have hpending : m.promise.isPending = true := by simp [Promise.isPending, hp]
  refine ⟨?_, ⟨later, ?_, ?_⟩, ?_⟩
  · rw [henact, hr, hanswer, hpending]
  · rw [hepisode, hbegins, ← hreg]
    simp
  · rw [hepisode, hbegins]
    simpa using hcalled
  · rw [henact]
    exact ⟨⟨hwork, hs, rfl⟩, hp'⟩

/-- On a promise that is done a step calls what is owed to the callbacks that it registers. -/
theorem episode_serves {m : Machine ω} (still : m.Still) (hp : m.promise.phase = .done v)
    (s : Step ω) :
    (m.episode s).called.Perm (owed v (m.episode s).registered) ∧ (m.enact s).2.Still ∧
      m.Keeps (m.enact s).2 := by
  rcases s.sorts with ⟨v', ha⟩ | hidle | ⟨p, rfl⟩ | ⟨kind, label, body, rfl⟩
  · obtain ⟨henact, hepisode⟩ :=
      enact_late_attempt still (by simp [Promise.isPending, hp]) ha
    rw [henact, hepisode]
    exact ⟨.refl _, still, rfl, rfl, rfl⟩
  · obtain ⟨keeps, still', hepisode⟩ := enact_idle still hidle
    rw [hepisode]
    exact ⟨.refl _, still', keeps⟩
  · obtain ⟨henact, hepisode⟩ := enact_panic still p
    rw [henact, hepisode]
    exact ⟨.refl _, still, rfl, rfl, rfl⟩
  · have hregister : m.perform (.on kind label body) =
        { m with stack := [.fire ⟨kind, ⟨label, body⟩⟩ v] } := by
      simp [perform, register, Promise.register, hp, push, still.ended]
    have displays : Displays m.fallback v (m.perform (.on kind label body)) := by
      rw [hregister]
      exact ⟨still.alone, rfl, hp⟩
    obtain ⟨t, m', hlead, hcalled, hs, -, keeps⟩ :=
      fire_serves (c := ⟨kind, ⟨label, body⟩⟩) (serves _ v body) displays
        (by rw [hregister]; exact still.sound) (by rw [hregister])
    rw [hregister] at keeps
    obtain ⟨henact, hepisode⟩ := enact_of_leads_raised hlead hs
    rw [hepisode, henact]
    exact ⟨by simpa [begins] using hcalled, ⟨keeps.work.trans still.alone, hs, rfl⟩,
      keeps.promise, keeps.work, keeps.fallback⟩

theorem tale_serves {m : Machine ω} (still : m.Still) (hp : m.promise.phase = .done v)
    (program : Script ω) :
    (m.tale program).called.Perm (owed v (m.tale program).registered) ∧
      (m.after program).promise = m.promise := by
  induction program generalizing m with
  | nil => exact ⟨.refl _, rfl⟩
  | cons s program ih =>
    obtain ⟨hcalled, still', keeps⟩ := episode_serves still hp s
    obtain ⟨hcalled', hp'⟩ := ih still' (by rw [keeps.promise]; exact hp)
    refine ⟨?_, by rw [after_cons, hp', keeps.promise]⟩
    rw [tale, called_append, registered_append, owed_append]
    exact hcalled.append hcalled'

/-- The first attempt and what is done afterwards, if the hook makes the handler panic. -/
theorem tale_stuck {m : Machine ω} (still : m.Still) (hp : m.promise.phase = .pending)
    {s : Step ω} {v : Settled ω} (ha : s.attempt? = some v) {p : Panic}
    (h : m.promise.stuck? m.fallback v.kind = some p) (late : Script ω) :
    (m.enact s).1 = .panicked p ∧
      (m.after (s :: late)).promise.phase = .completing v ∧ (m.tale (s :: late)).called = [] := by
  obtain ⟨hanswer, hcalled, still', hp'⟩ := enact_sticks still hp ha h
  have hdone : (m.enact s).2.promise.isDone = false := by
    simp [hp', Promise.isDone, Promise.settled?]
  have hlost : (m.enact s).2.promise.isPending = false := by simp [hp', Promise.isPending]
  obtain ⟨hlate, -, -, -, hp''⟩ : Gathering ((m.enact s).2.tale late) ∧ _ :=
    tale_unshown still' hdone (.inl hlost)
  refine ⟨hanswer, by rw [after_cons, hp'', hp'], ?_⟩
  rw [tale, called_append, hcalled, hlate.called]
  rfl

/-- The first attempt and what is done afterwards, otherwise. -/
theorem tale_served {m : Machine ω} (still : m.Still) (hp : m.promise.phase = .pending)
    {s : Step ω} {v : Settled ω} (ha : s.attempt? = some v)
    (h : m.promise.stuck? m.fallback v.kind = none) (late : Script ω) :
    (m.enact s).1 =
        (m.promise.waiting.findSome? (·.escape? m.fallback v.kind)).elim (.truth true) .panicked ∧
      (m.after (s :: late)).promise.settled? = some v ∧
      ∃ later,
        m.promise.callbacks ++ (m.tale (s :: late)).registered = m.promise.waiting ++ later ∧
        (m.tale (s :: late)).called.Perm
          (owed v (reached m.fallback v.kind m.promise.waiting ++ later)) := by
  obtain ⟨hanswer, ⟨later, hreg, hcalled⟩, still', hp'⟩ := enact_serves still hp ha h
  obtain ⟨hlate, hp''⟩ := tale_serves still' (by rw [hp']) late
  refine ⟨hanswer, by rw [after_cons, hp'', hp']; rfl,
    later ++ ((m.enact s).2.tale late).registered, ?_, ?_⟩
  · rw [tale, registered_append, ← List.append_assoc, hreg, List.append_assoc]
  · rw [tale, called_append, ← List.append_assoc, owed_append]
    exact hcalled.append hlate

/-- What the winning attempt leaves behind, whatever the handler does, and whatever is done to the
promise afterwards. If the hook makes the handler panic, the value is never shown and nobody is
called. Otherwise the value is shown for good, and every callback is called once that the ending is
owed to, apart from those that wait behind the first one that makes the handler panic. So readers
see the value and every callback is called once, exactly if no panic of the handler comes in
between. -/
theorem settled_for_any_handler (hook : Option (Script ω)) (fallback : Fallback)
    (before : Script ω) (early : ∀ s ∈ before, s.attempt? = none) (s : Step ω) (v : Settled ω)
    (asks : s.Asks v) (late : Script ω) :
    let start : Machine ω := { promise := { hook := hook }, fallback := fallback }
    let waiting := (start.after before).promise.waiting
    let answer := ((start.after before).enact s).1
    let final := start.after (before ++ s :: late)
    let story := start.tale (before ++ s :: late)
    final.seen = story.shown ∧
    (∀ p, start.promise.stuck? fallback v.kind = some p →
      answer = .panicked p ∧ final.promise.phase = .completing v ∧
      final.promise.settled? = none ∧ story.called = []) ∧
    (start.promise.stuck? fallback v.kind = none →
      answer = (waiting.findSome? (·.escape? fallback v.kind)).elim (.truth true) .panicked ∧
      final.promise.settled? = some v ∧
      ∃ later, story.registered = waiting ++ later ∧
        story.called.Perm (owed v (reached fallback v.kind waiting ++ later))) ∧
    (final.promise.settled? = some v ∧ story.called.Perm (owed v story.registered) ↔
      start.promise.stuck? fallback v.kind = none ∧
        owed v (missed fallback v.kind waiting) = []) := by
  intro start waiting answer final story
  have ha : s.attempt? = some v := Step.asks_iff.mp asks
  obtain ⟨hgather, -, still, hfallback, hp⟩ :=
    tale_unshown (m := start) ⟨rfl, rfl, rfl⟩ rfl (.inr early)
  have hpending : (start.after before).promise.phase = .pending := by rw [hp]
  have hstuck : (start.after before).promise.stuck? (start.after before).fallback v.kind =
      start.promise.stuck? fallback v.kind := by
    rw [hp, hfallback]
    rfl
  have hfinal : final = (start.after before).after (s :: late) := after_append _ _ _
  have hstory : story = start.tale before ++ (start.after before).tale (s :: late) :=
    tale_append _ _ _
  have hregistered : story.registered = (start.after before).promise.callbacks ++
      ((start.after before).tale (s :: late)).registered := by
    rw [hstory, registered_append, hp]
    rfl
  have hcalled : story.called = ((start.after before).tale (s :: late)).called := by
    rw [hstory, called_append, hgather.called, List.nil_append]
  refine ⟨after_seen rfl _, ?_⟩
  cases h : start.promise.stuck? fallback v.kind with
  | some p =>
    obtain ⟨hanswer, hphase, hnone⟩ := tale_stuck still hpending ha (hstuck.trans h) late
    have hsettled : final.promise.settled? = none := by
      rw [Promise.settled?, hfinal, hphase]
    refine ⟨fun p' hp' => ?_, by simp, by simp [hsettled]⟩
    obtain rfl := Option.some.inj hp'
    exact ⟨hanswer, hfinal ▸ hphase, hsettled, hcalled.trans hnone⟩
  | none =>
    obtain ⟨hanswer, hsettled, later, hreg, hperm⟩ :=
      tale_served still hpending ha (hstuck.trans h) late
    rw [hfallback] at hanswer hperm
    rw [← hfinal] at hsettled
    rw [← hregistered] at hreg
    rw [← hcalled] at hperm
    refine ⟨by simp, fun _ => ⟨hanswer, hsettled, later, hreg, hperm⟩, ?_⟩
    rw [hreg, served_iff hperm]
    simp only [hsettled, true_and]
    exact Iff.rfl

/-- A hook that panics, with a handler that panics too. -/
def stuckStart : Machine Status :=
  { promise := { hook := some [.panic (.text "boom")] }, fallback := .loud "alarm" (.text "no") }

/-- A promise without a hook, with the same handler. -/
def bareStart : Machine Status := { promise := {}, fallback := .loud "alarm" (.text "no") }

/-- Two callbacks wait, and the first one panics. -/
def jumpyProgram : Script Status :=
  [.on .success "a" [.panic (.text "boom")], .on .success "b" [], .complete .success "v"]

/-- The first promise is never done, and on the second one the callback `b` is lost. -/
theorem loud_handler_wrecks :
    let v : Settled Status := ⟨.success, .success, .ok "v"⟩
    (Step.complete Status.success "v").Asks v ∧
    (stuckStart.after [.complete .success "v"]).stack.isEmpty = true ∧
    (stuckStart.after [.complete .success "v"]).promise.isDone = false ∧
    (bareStart.after jumpyProgram).stack.isEmpty = true ∧
    (bareStart.after jumpyProgram).promise.isDone = true ∧
    (owed v (bareStart.tale jumpyProgram).registered).map (·.1.body.label) = ["a", "b"] ∧
    (bareStart.after jumpyProgram).seen = [("a", .ok "v")] := by
  intro v
  exact ⟨.complete _ _, rfl, rfl, rfl, rfl, rfl, rfl⟩

/-- A handler that panics over what is serious. -/
def fussy : Fallback :=
  .notify "alarm" fun _ p => if p = .text "boom" then some (.text "help") else none

/-- A hook that registers a callback. -/
def punctualStart : Machine Status :=
  { promise := { hook := some [.on .success "b" []] }, fallback := fussy }

/-- The handler bears with the first callback. The second one registers another before it panics. -/
def giddyProgram : Script Status :=
  [.on .success "z" [.panic (.text "oops")],
    .on .success "a" [.on .success "c" [], .panic (.text "boom"), .complete .error "never"]]

/-- The callback that the second one registers is called before the handler panics, the one that the
hook has registered is not. -/
theorem settled_for_any_handler_giddy :
    let s : Step Status := .complete .success "v"
    let v : Settled Status := ⟨.success, .success, .ok "v"⟩
    (∀ s' ∈ giddyProgram, s'.attempt? = none) ∧ s.Asks v ∧
    (punctualStart.after (giddyProgram ++ [.complete .success "v"])).seen =
      [("z", .ok "v"), ("a", .ok "v"), ("c", .ok "v")] ∧
    ∀ late,
      ((punctualStart.after giddyProgram).enact s).1 = .panicked (.text "help") ∧
      (punctualStart.after (giddyProgram ++ s :: late)).promise.settled? = some v ∧
      ¬ (punctualStart.tale (giddyProgram ++ s :: late)).called.Perm
        (owed v (punctualStart.tale (giddyProgram ++ s :: late)).registered) := by
  intro s v
  have early : ∀ s' ∈ giddyProgram, s'.attempt? = none := by simp [giddyProgram, Step.attempt?]
  have asks : s.Asks v := .complete _ _
  have hescape : (punctualStart.after giddyProgram).promise.waiting.findSome?
      (·.escape? fussy .success) = some (.text "help") := by decide +kernel
  have hmissed : (owed v (missed fussy .success
      (punctualStart.after giddyProgram).promise.waiting)).length = 1 := by decide +kernel
  refine ⟨early, asks, rfl, fun late => ?_⟩
  have h := settled_for_any_handler (some [.on Kind.success "b" []]) fussy giddyProgram early s v
    asks late
  rw [← punctualStart] at h
  obtain ⟨-, -, hshown, hall⟩ := h
  obtain ⟨hanswer, hsettled, -⟩ := hshown rfl
  refine ⟨hanswer.trans ?_, hsettled, fun hcalled => ?_⟩
  · rw [hescape]
    rfl
  · have hnone := congrArg List.length (hall.mp ⟨hsettled, hcalled⟩).2
    exact absurd (hmissed.symm.trans hnone) (by decide)

end Machine

end Turnstile
