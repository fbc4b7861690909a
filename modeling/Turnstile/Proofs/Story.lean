import Turnstile.Script.Halting

/-!
# Stories of promises

A story tells, in the order of time, what happens to a promise on its own while scripts
run: which attempts and registrations begin, when the hook and the callbacks are run, when
the value is shown and when each step returns. It is read off the states of the machine,
one step of the machine after the other.
-/

namespace Turnstile

/-- What can happen to a promise. -/
inductive Deed (ω : Type) where
  /-- An attempt to settle begins. -/
  | attempt (v : Settled ω)
  | hook (outcome : ω)
  /-- The value is shown: the promise is done. -/
  | publish (v : Settled ω)
  /-- A registration begins. -/
  | register (c : Callback (Reaction ω))
  /-- A callback is run. -/
  | call (c : Callback (Reaction ω)) (got : CallResult)
  /-- A step returns. -/
  | reply (verb : Verb) (answer : Answer ω)

namespace Deed

variable {ω : Type}

@[simp] def attempt? : Deed ω → Option (Settled ω)
  | .attempt v => some v
  | _ => none

@[simp] def register? : Deed ω → Option (Callback (Reaction ω))
  | .register c => some c
  | _ => none

@[simp] def call? : Deed ω → Option (Callback (Reaction ω) × CallResult)
  | .call c got => some (c, got)
  | _ => none

@[simp] def isPublish : Deed ω → Bool
  | .publish _ => true
  | _ => false

end Deed

abbrev Story (ω : Type) := List (Deed ω)

namespace Story

variable {ω : Type}

/-- The attempts to settle, in the order in which they begin. -/
def attempts (t : Story ω) : List (Settled ω) := t.filterMap Deed.attempt?

/-- The callbacks registered, in the order in which their registrations begin. -/
def registered (t : Story ω) : List (Callback (Reaction ω)) := t.filterMap Deed.register?

/-- The callbacks run, each with what it was given, in the order in which they begin. -/
def called (t : Story ω) : List (Callback (Reaction ω) × CallResult) :=
  t.filterMap Deed.call?

/-- Whether the value has been shown. -/
def published (t : Story ω) : Bool := t.any Deed.isPublish

@[simp] theorem attempts_nil : attempts ([] : Story ω) = [] := rfl

@[simp] theorem registered_nil : registered ([] : Story ω) = [] := rfl

@[simp] theorem called_nil : called ([] : Story ω) = [] := rfl

@[simp] theorem published_nil : published ([] : Story ω) = false := rfl

@[simp] theorem attempts_cons (d : Deed ω) (t : Story ω) :
    attempts (d :: t) = d.attempt?.toList ++ attempts t := by cases d <;> rfl

@[simp] theorem registered_cons (d : Deed ω) (t : Story ω) :
    registered (d :: t) = d.register?.toList ++ registered t := by cases d <;> rfl

@[simp] theorem called_cons (d : Deed ω) (t : Story ω) :
    called (d :: t) = d.call?.toList ++ called t := by cases d <;> rfl

@[simp] theorem published_cons (d : Deed ω) (t : Story ω) :
    published (d :: t) = (d.isPublish || published t) := rfl

@[simp] theorem attempts_append (t t' : Story ω) :
    attempts (t ++ t') = attempts t ++ attempts t' := List.filterMap_append

@[simp] theorem registered_append (t t' : Story ω) :
    registered (t ++ t') = registered t ++ registered t' := List.filterMap_append

@[simp] theorem called_append (t t' : Story ω) : called (t ++ t') = called t ++ called t' :=
  List.filterMap_append

@[simp] theorem published_append (t t' : Story ω) :
    published (t ++ t') = (published t || published t') := List.any_append

end Story

/-- The value that a step tries to settle with. -/
def Step.attempt? {ω : Type} [Outcome ω] : Step ω → Option (Settled ω)
  | .complete outcome value => some (.ofValue outcome value)
  | .fail outcome e => some (.ofError outcome e)
  | .on .. | .panic _ | .ask _ | .run | .expire | .cancel => none

namespace Machine

variable {ω : Type}

/-- What happens when an attempt begins: the winner runs the hook. -/
def tries (m : Machine ω) (v : Settled ω) : Story ω :=
  match m.promise.begin? v with
  | some (some _, _) => [.attempt v, .hook v.outcome]
  | _ => [.attempt v]

@[simp] theorem attempts_tries (m : Machine ω) (v : Settled ω) :
    (m.tries v).attempts = [v] := by
  unfold tries
  split <;> rfl

@[simp] theorem registered_tries (m : Machine ω) (v : Settled ω) :
    (m.tries v).registered = [] := by
  unfold tries
  split <;> rfl

@[simp] theorem called_tries (m : Machine ω) (v : Settled ω) : (m.tries v).called = [] := by
  unfold tries
  split <;> rfl

@[simp] theorem published_tries (m : Machine ω) (v : Settled ω) :
    (m.tries v).published = false := by
  unfold tries
  split <;> rfl

variable [Outcome ω]

/-- What happens when a step begins. -/
def begins (m : Machine ω) : Step ω → Story ω
  | .complete outcome value => m.tries (.ofValue outcome value)
  | .fail outcome e => m.tries (.ofError outcome e)
  | .on kind label body => [.register ⟨kind, ⟨label, body⟩⟩]
  | .panic _ | .ask _ | .run | .expire | .cancel => []

/-- What happens in the next step of the machine. -/
def deeds (m : Machine ω) : Story ω :=
  match m.raised, m.stack with
  | none, .body (s :: _) :: _ => m.begins s
  | none, .report verb a :: _ => [.reply verb a]
  | none, .publish :: _ =>
    match m.promise.phase with
    | .completing v => [.publish v]
    | _ => []
  | none, .fire c v :: _ => if c.kind = v.kind then [.call c v.result] else []
  | _, _ => []

/-- What happens in the next `n` steps of the machine. -/
def storyFor : Nat → Machine ω → Story ω
  | 0, _ => []
  | n + 1, m => m.deeds ++ storyFor n m.step

/-- What happens when a step is performed from outside, its return included. -/
def episode (m : Machine ω) (s : Step ω) : Story ω :=
  m.begins s ++ (m.perform s).storyFor (m.perform s).weight ++ [.reply s.verb (m.enact s).1]

/-- The machine after the steps of a program. -/
def after (m : Machine ω) (program : Script ω) : Machine ω :=
  program.foldl (fun m s => (m.enact s).2) m

/-- The story of a program. -/
def tale (m : Machine ω) : Script ω → Story ω
  | [] => []
  | s :: program => m.episode s ++ (m.enact s).2.tale program

@[simp] theorem after_nil (m : Machine ω) : m.after [] = m := rfl

@[simp] theorem after_cons (m : Machine ω) (s : Step ω) (program : Script ω) :
    m.after (s :: program) = (m.enact s).2.after program := rfl

@[simp] theorem after_append (m : Machine ω) (program program' : Script ω) :
    m.after (program ++ program') = (m.after program).after program' :=
  List.foldl_append

@[simp] theorem tale_append (m : Machine ω) (program program' : Script ω) :
    m.tale (program ++ program') = m.tale program ++ (m.after program).tale program' := by
  induction program generalizing m with
  | nil => rfl
  | cons s program ih => simp [tale, ih]

theorem runFor_add (a b : Nat) (m : Machine ω) : m.runFor (a + b) = (m.runFor a).runFor b := by
  induction a generalizing m with
  | zero => simp [runFor]
  | succ a ih => rw [Nat.succ_add, runFor, runFor, ih]

theorem storyFor_add (a b : Nat) (m : Machine ω) :
    m.storyFor (a + b) = m.storyFor a ++ (m.runFor a).storyFor b := by
  induction a generalizing m with
  | zero => simp [runFor, storyFor]
  | succ a ih => rw [Nat.succ_add, storyFor, storyFor, runFor, ih, List.append_assoc]

theorem step_halted {m : Machine ω} (h : m.stack = []) : m.step = m := by simp [step, h]

theorem runFor_halted {m : Machine ω} (h : m.stack = []) (n : Nat) : m.runFor n = m := by
  induction n with
  | zero => rfl
  | succ n ih => rw [runFor, step_halted h, ih]

/-- Nothing happens after the end. -/
theorem storyFor_halted {m : Machine ω} (h : m.stack = []) (n : Nat) : m.storyFor n = [] := by
  induction n with
  | zero => rfl
  | succ n ih =>
    have hdeeds : m.deeds = [] := by simp [deeds, h]
    rw [storyFor, step_halted h, hdeeds, ih, List.nil_append]

/-- In some steps the machine gets from one state to another, and that is the story. -/
def Leads (m : Machine ω) (t : Story ω) (m' : Machine ω) : Prop :=
  ∃ n, m.runFor n = m' ∧ m.storyFor n = t

theorem Leads.refl (m : Machine ω) : m.Leads [] m := ⟨0, rfl, rfl⟩

theorem Leads.trans {m m' m'' : Machine ω} {t t' : Story ω} (h : m.Leads t m')
    (h' : m'.Leads t' m'') : m.Leads (t ++ t') m'' := by
  obtain ⟨a, rfl, rfl⟩ := h
  obtain ⟨b, rfl, rfl⟩ := h'
  exact ⟨a + b, runFor_add a b m, storyFor_add a b m⟩

theorem Leads.next {m m' : Machine ω} {t : Story ω} (h : m.step.Leads t m') :
    m.Leads (m.deeds ++ t) m' := by
  have hone : m.Leads m.deeds m.step := ⟨1, rfl, by simp [storyFor]⟩
  exact hone.trans h

/-- A run is over when the stack is empty. -/
theorem Leads.run {m m' : Machine ω} {t : Story ω} (h : m.Leads t m') (hend : m'.stack = []) :
    m.run = m' ∧ m.storyFor m.weight = t := by
  obtain ⟨n, rfl, rfl⟩ := h
  have hrun : (m.runFor m.weight).stack = [] := m.halted_run
  rcases Nat.le_total n m.weight with hle | hle
  · obtain ⟨k, hk⟩ := Nat.exists_eq_add_of_le hle
    rw [Machine.run, hk, runFor_add, runFor_halted hend, storyFor_add, storyFor_halted hend,
      List.append_nil]
    exact ⟨rfl, rfl⟩
  · obtain ⟨k, hk⟩ := Nat.exists_eq_add_of_le hle
    rw [hk, runFor_add, runFor_halted hrun, storyFor_add, storyFor_halted hrun,
      List.append_nil]
    exact ⟨rfl, rfl⟩

end Machine

end Turnstile
