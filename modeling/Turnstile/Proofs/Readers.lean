import Turnstile.Proofs.SessionRun
import Turnstile.Proofs.WaitingMeans

/-!
# Readers that block

A reader looks for the value while it holds the lock, and the readers are woken under the lock. So
whoever has looked in vain sleeps before that, and nobody sleeps afterwards. A reader has the value
after two steps of its own, or after one more of whoever holds the lock.
-/

namespace Turnstile

open Function (update)

variable {ω : Type}

/-- Who is at this post holds the lock. -/
def Post.holds : Post ω → Bool
  | .inside | .checked | .late => true
  | .outside | .asleep | .expired | .returned _ => false

/-- A reader is told something when it has returned. -/
theorem Reader.told?_eq_none {r : Reader ω} :
    r.told? = none ↔ ∀ got, r.post ≠ .returned got := by
  unfold told?
  split <;> simp_all

theorem Reader.told?_of_value {r : Reader ω} {v : Settled ω} (h : r.post = .returned (some v)) :
    r.told? = some (.settled (some v)) := by
  simp [told?, h]

/-- Where a reader can be. -/
structure Placed (heard : Bool) (value : Option (Settled ω)) (now : Duration) (held : Prop)
    (asleep : Bool) (r : Reader ω) : Prop where
  holds : held ↔ r.post.holds = true
  sleeps : asleep = true → r.post = .asleep
  roused : heard = true → asleep = false ∧ r.post ≠ .checked
  got : ∀ v, r.post = .returned (some v) → value = some v
  gone : r.post = .expired ∨ r.post = .late ∨ r.post = .returned none → r.hasExpired now = true

/-- With a value no reader is told to have waited in vain. -/
theorem Reader.read_waits {M : Monitor} {v : Settled ω} {now : Duration} {i : Nat} {m : M.State}
    (r : Reader ω) (waits : r.post ≠ .returned none) :
    (r.read M (some v) now i m).2.post ≠ .returned none := by
  have henter : ∀ post : Post ω, post ≠ .returned none →
      (r.enter M i m post).2.post ≠ .returned none := by
    intro post hpost
    unfold enter
    split
    · exact waits
    · exact hpost
  unfold read
  cases hp : r.post with
  | outside => exact henter _ (by simp)
  | asleep =>
    dsimp only
    split
    · split
      · simp
      · simp [hp]
    · exact henter _ (by simp)
  | expired => exact henter _ (by simp)
  | returned got => exact waits
  | _ => simp

namespace Placed

variable {M : Monitor} {holder : M.State → Option (Option Nat)} {heard : Bool}
  {value : Option (Settled ω)} {now : Duration} {m : M.State} {i : Nat} {r : Reader ω}
  {held : Prop} {asleep : Bool}

theorem hasExpired_mono {now' : Duration} (later : now ≤ now') (h : r.hasExpired now = true) :
    r.hasExpired now' = true := by
  unfold Reader.hasExpired at h ⊢
  cases hl : r.limit? with
  | none => simp [hl] at h
  | some limit =>
    have hlimit : limit ≤ now := by simpa [hl] using h
    have hlate : limit ≤ now' := Nat.le_trans hlimit later
    simpa [hl] using hlate

/-- The value is shown, or time passes. -/
theorem mono (h : Placed heard value now held asleep r) {value' : Option (Settled ω)}
    (shows : ∀ v, value = some v → value' = some v) {now' : Duration} (later : now ≤ now') :
    Placed heard value' now' held asleep r :=
  { h with
    got := fun v hv => shows v (h.got v hv)
    gone := fun hpost => hasExpired_mono later (h.gone hpost) }

/-- Whoever settles uses the lock, which no reader holds then. -/
theorem settle (h : Placed heard value now held asleep r) {heard' asleep' : Bool} {held' : Prop}
    (off : ¬ held) (off' : ¬ held') (wakes : asleep' = true → asleep = true)
    (woken : heard' = true → asleep' = false) :
    Placed heard' value now held' asleep' r where
  holds := iff_of_false off' fun hpost => off (h.holds.mpr hpost)
  sleeps hasleep := h.sleeps (wakes hasleep)
  roused hheard := ⟨woken hheard, fun hpost => off (h.holds.mpr (by rw [hpost]; rfl))⟩
  got := h.got
  gone := h.gone

/-- The value, or the time that was waited in vain. -/
theorem told (h : Placed heard value now held asleep r) {a : Answer ω} (ha : r.told? = some a) :
    (∃ v, value = some v ∧ a = .settled (some v)) ∨
      ∃ d, r.wait = some d ∧ r.start + d ≤ now ∧ a = .failed (.waitTimedOut d) := by
  cases hp : r.post with
  | returned got =>
    cases got with
    | some v =>
      rw [Reader.told?_of_value hp, Option.some.injEq] at ha
      exact .inl ⟨v, h.got v hp, ha.symm⟩
    | none =>
      have hexpired := h.gone (.inr (.inr hp))
      cases hw : r.wait with
      | none => simp [Reader.hasExpired, Reader.limit?, hw] at hexpired
      | some d =>
        refine .inr ⟨d, rfl, ?_, ?_⟩
        · simpa [Reader.hasExpired, Reader.limit?, hw] using hexpired
        · simpa [Reader.told?, hp, hw, eq_comm] using ha
  | _ => simp [Reader.told?, hp] at ha

/-- What one reader does to the lock and the condition, as the others see it. -/
structure Alone (M : Monitor) (holder : M.State → Option (Option Nat)) (i : Nat)
    (m m' : M.State) : Prop where
  asleep : ∀ j, j ≠ i → M.asleep m' j = M.asleep m j
  holds : ∀ thread, thread ≠ some i → (holder m' = some thread ↔ holder m = some thread)

theorem Alone.refl : Alone M holder i m m := ⟨fun _ _ => rfl, fun _ _ => Iff.rfl⟩

theorem Alone.frees {m' : M.State} (held : holder m = some (some i)) (free : holder m' = none)
    (asleep : ∀ j, j ≠ i → M.asleep m' j = M.asleep m j) : Alone M holder i m m' :=
  ⟨asleep, fun thread hthread => by simpa [held, free] using Ne.symm hthread⟩

theorem enter (laws : M.Lawful holder)
    (h : Placed heard value now (holder m = some (some i)) (M.asleep m i) r)
    (awake : M.asleep m i = false) {post : Post ω} (holds : post.holds = true)
    (unseen : post ≠ .checked) (late : post = .late → r.hasExpired now = true) :
    Placed heard value now (holder (r.enter M i m post).1 = some (some i))
        (M.asleep (r.enter M i m post).1 i) (r.enter M i m post).2 ∧
      Alone M holder i m (r.enter M i m post).1 := by
  unfold Reader.enter
  by_cases hfree : holder m = none
  · obtain ⟨m', hm', hholder, hasleep⟩ := laws.lock_free m (some i) hfree
    rw [hm']
    refine ⟨⟨by simp [hholder, holds], by simp [hasleep, awake], fun _ => ?_, ?_, ?_⟩, ?_⟩
    · exact ⟨by rw [hasleep, awake], unseen⟩
    · rintro v rfl
      cases holds
    · rintro (rfl | hpost | rfl)
      · cases holds
      · exact late hpost
      · cases holds
    · exact ⟨fun j _ => by rw [hasleep], fun thread hthread => by
        simpa [hholder, hfree] using Ne.symm hthread⟩
  · rw [laws.lock_held m (some i) hfree]
    exact ⟨h, .refl⟩

theorem read (laws : M.Lawful holder) (shown : heard = true → value ≠ none)
    (h : Placed heard value now (holder m = some (some i)) (M.asleep m i) r) :
    Placed heard value now (holder (r.read M value now i m).1 = some (some i))
        (M.asleep (r.read M value now i m).1 i) (r.read M value now i m).2 ∧
      Alone M holder i m (r.read M value now i m).1 := by
  have hawake : r.post ≠ .asleep → M.asleep m i = false := fun hpost => by
    simpa using mt h.sleeps hpost
  have hheld : r.post.holds = true → holder m = some (some i) := h.holds.mpr
  unfold Reader.read
  cases hp : r.post with
  | outside => exact h.enter laws (hawake (by simp [hp])) rfl (by simp) (by simp)
  | inside =>
    have hasleep := hawake (by simp [hp])
    cases hv : value with
    | some v =>
      obtain ⟨hfree, hothers⟩ := laws.unlock m
      exact ⟨⟨by simp [hfree, Post.holds], by simp [hothers, hasleep],
          fun _ => by simp [hothers, hasleep], by simp, by simp⟩,
        .frees (hheld (by rw [hp]; rfl)) hfree fun j _ => by rw [hothers]⟩
    | none =>
      have early : heard = false := Bool.eq_false_iff.mpr fun hh => shown hh hv
      exact ⟨⟨by simp [hheld, hp, Post.holds], by simp [hasleep], by simp [early], by simp,
        by simp⟩, .refl⟩
  | checked =>
    obtain ⟨hfree, hsleep⟩ := laws.sleep m i
    have early : heard = false := Bool.eq_false_iff.mpr fun hh => (h.roused hh).2 hp
    exact ⟨⟨by simp [hfree, Post.holds], by simp, by simp [early], by simp, by simp⟩,
      .frees (hheld (by rw [hp]; rfl)) hfree fun j hj => by simp [hsleep, hj]⟩
  | asleep =>
    dsimp only
    split
    · split
      · rename_i hexpired
        obtain ⟨hholder, hrouse⟩ := laws.rouse m i
        have hoff : holder m ≠ some (some i) := fun hm => by
          simpa [hp, Post.holds] using h.holds.mp hm
        exact ⟨⟨by simp [hholder, hoff, Post.holds], by simp [hrouse], fun _ => by simp [hrouse],
            by simp, fun _ => hexpired⟩,
          ⟨fun j hj => by simp [hrouse, hj], fun thread _ => by rw [hholder]⟩⟩
      · exact ⟨h, .refl⟩
    · rename_i hasleep
      exact h.enter laws (by simpa using hasleep) rfl (by simp) (by simp)
  | expired =>
    exact h.enter laws (hawake (by simp [hp])) rfl (by simp) fun _ => h.gone (.inl hp)
  | late =>
    have hasleep := hawake (by simp [hp])
    obtain ⟨hfree, hothers⟩ := laws.unlock m
    exact ⟨⟨by simp [hfree, Post.holds], by simp [hothers, hasleep],
        fun _ => by simp [hothers, hasleep], by simp, fun _ => h.gone (.inr (.inl hp))⟩,
      .frees (hheld (by rw [hp]; rfl)) hfree fun j _ => by rw [hothers]⟩
  | returned got => exact ⟨h, .refl⟩

end Placed

namespace Session

variable {N : Notify} {M : Monitor} {holder : M.State → Option (Option Nat)}
  {s s' : Session N M ω}

/-- The readers are where they can be, nobody else holds the lock or sleeps, and whoever settles
holds the lock while the readers are woken. -/
structure Seated (holder : M.State → Option (Option Nat)) (s : Session N M ω) : Prop where
  placed : ∀ i r, s.readers[i]? = some r → Placed s.heard s.settled? s.now
    (holder s.monitor = some (some i)) (M.asleep s.monitor i) r
  absent : ∀ i, s.readers.length ≤ i →
    M.asleep s.monitor i = false ∧ holder s.monitor ≠ some (some i)
  settler : holder s.monitor = some none ↔
    s.bells = [.readers, .unlock, .waiters] ∨ s.bells = [.unlock, .waiters]

theorem value_of_heard (h : s.heard = true) : s.settled? ≠ none := by
  intro hnone
  simp [heard, isDone, Promise.isDone, hnone] at h

theorem read_eq {i : Nat} {r : Reader ω} (hr : s.readers[i]? = some r) : s.read i = { s with
    monitor := (r.read M s.settled? s.now i s.monitor).1
    readers := s.readers.set i (r.read M s.settled? s.now i s.monitor).2 } := by
  simp only [read, hr]

namespace Seated

/-- What concerns the readers is left alone. -/
theorem keep (h : s.Seated holder) (readers : s'.readers = s.readers)
    (monitor : s'.monitor = s.monitor) (bells : s'.bells = s.bells) (heard : s'.heard = s.heard)
    (shows : ∀ v, s.settled? = some v → s'.settled? = some v) (later : s.now ≤ s'.now) :
    s'.Seated holder where
  placed i r hr := by
    rw [readers] at hr
    rw [heard, monitor]
    exact (h.placed i r hr).mono shows later
  absent i hi := by
    rw [monitor]
    exact h.absent i (readers ▸ hi)
  settler := by rw [monitor, bells, h.settler]

theorem advance (h : s.Seated holder) (ordered : s.InTurn) {m : Machine ω}
    (carries : s.machine.Carries m) : (s.advance m).Seated holder where
  placed i r hr := by
    rw [(advance_told carries).2]
    refine (h.placed i r hr).mono (fun v hv => ?_) (Nat.le_add_right _ _)
    exact settled?_eq_some.mpr (carries.shows v (settled?_eq_some.mp hv))
  absent := h.absent
  settler := by
    rw [show (s.advance m).monitor = s.monitor from rfl, h.settler]
    cases hs : s.isDone with
    | true => simp [Session.advance, hs]
    | false =>
      have hbells := ordered.early hs
      cases hm : m.promise.isDone <;> simp [Session.advance, hs, hm, hbells, Bell.all]

theorem ring (h : s.Seated holder) (laws : M.Lawful holder) (ordered : s.InTurn) {b : Bell}
    {rest : List Bell} (hs : s.bells = b :: rest) : (s.ring rest b).Seated holder := by
  have hsettler := h.settler
  rcases ordered.cases hs with ⟨rfl, rfl⟩ | ⟨rfl, rfl⟩ | ⟨rfl, rfl⟩ | ⟨rfl, rfl⟩
  · by_cases hfree : holder s.monitor = none
    · obtain ⟨m', hm', hholder, hasleep⟩ := laws.lock_free s.monitor none hfree
      rw [Session.ring, hm']
      constructor
      · intro i r hr
        exact (h.placed i r hr).settle (by simp [hfree]) (by simp [hholder]) (by simp [hasleep])
          (by simp [heard])
      · intro i hi
        exact ⟨by rw [hasleep]; exact (h.absent i hi).1, by simp [hholder]⟩
      · simp [hholder]
    · rw [Session.ring, laws.lock_held s.monitor none hfree]
      exact h
  · obtain ⟨hholder, hawake⟩ := laws.notifyAll s.monitor
    have hheld : holder s.monitor = some none := hsettler.mpr (.inl hs)
    constructor
    · intro i r hr
      exact (h.placed i r hr).settle (by simp [hheld]) (by simp [Session.ring, hholder, hheld])
        (by simp [Session.ring, hawake]) (by simp [Session.ring, hawake])
    · intro i hi
      exact ⟨hawake i, by simp [Session.ring, hholder, hheld]⟩
    · simp [Session.ring, hholder, hheld]
  · obtain ⟨hfree, hasleep⟩ := laws.unlock s.monitor
    have hheld : holder s.monitor = some none := hsettler.mpr (.inr hs)
    constructor
    · intro i r hr
      have hplaced := h.placed i r hr
      refine hplaced.settle (by simp [hheld]) (by simp [Session.ring, hfree])
        (by simp [Session.ring, hasleep]) fun hheard => ?_
      have hwoken : s.heard = true := by simpa [heard, hs, Session.ring] using hheard
      simpa [Session.ring, hasleep] using (hplaced.roused hwoken).1
    · intro i hi
      exact ⟨by simpa [Session.ring, hasleep] using (h.absent i hi).1,
        by simp [Session.ring, hfree]⟩
    · simp [Session.ring, hfree]
  · constructor
    · intro i r hr
      have hheard : (s.ring [] .waiters).heard = s.heard := by
        simp [heard, hs, Session.ring]
      rw [hheard]
      exact h.placed i r hr
    · exact h.absent
    · simpa [Session.ring, hs] using hsettler

theorem read (h : s.Seated holder) (laws : M.Lawful holder) (i : Nat) :
    (s.read i).Seated holder := by
  cases hr : s.readers[i]? with
  | none => simpa only [Session.read, hr] using h
  | some r =>
    obtain ⟨hself, hothers⟩ := (h.placed i r hr).read laws value_of_heard
    obtain ⟨hi, -⟩ := List.getElem?_eq_some_iff.mp hr
    rw [read_eq hr]
    constructor
    · intro j r' hr'
      rcases List.getElem?_replaced hr' with ⟨rfl, rfl⟩ | ⟨hj, hother⟩
      · exact hself
      · have hplaced := h.placed j r' hother
        have hholds := hothers.holds (some j) (by simpa using hj)
        rw [← hothers.asleep j hj, ← propext hholds] at hplaced
        exact hplaced
    · intro j hj
      have hlength : s.readers.length ≤ j := by simpa using hj
      obtain ⟨hasleep, hheld⟩ := h.absent j hlength
      have hne : j ≠ i := by omega
      exact ⟨(hothers.asleep j hne).trans hasleep,
        mt (hothers.holds (some j) (by simpa using hne)).mp hheld⟩
    · exact (hothers.holds none (by simp)).trans h.settler

variable [Outcome ω]

theorem turn (h : s.Seated holder) (laws : M.Lawful holder) (ordered : s.InTurn) {t : Turn ω}
    (quiet : t.Quiet) : (s.turn t).Seated holder := by
  cases t with
  | begin st =>
    rcases s.begin_cases st with hturn | ⟨m, hm, hturn⟩ <;> rw [hturn]
    · exact h
    · exact h.advance ordered hm
  | tick =>
    rcases s.tick_cases with ⟨-, m, hm, hturn⟩ | ⟨b, rest, hs, hturn⟩ <;> rw [hturn]
    · exact h.advance ordered hm
    · exact h.ring laws ordered hs
  | pass d => exact h.keep rfl rfl rfl rfl (fun _ => id) (Nat.le_add_right _ _)
  | work i =>
    obtain ⟨hmachine, hbells, hmonitor, hreaders, hnow⟩ := s.work_frame i
    refine h.keep hreaders hmonitor hbells (told_congr hmachine hbells).2 (fun v hv => ?_)
      (Nat.le_of_eq (congrArg Duration.nanos hnow.symm))
    rwa [settled?, Session.turn, hmachine]
  | block wait =>
    constructor
    · intro i r hr
      rcases List.getElem?_snoc hr with hr | ⟨rfl, rfl⟩
      · exact h.placed i r hr
      · obtain ⟨hasleep, hheld⟩ := h.absent s.readers.length (Nat.le_refl _)
        exact ⟨iff_of_false hheld (by simp [Post.holds]), fun hslept => by simp_all [Session.turn],
          fun _ => ⟨hasleep, by simp⟩, by simp, by simp⟩
    · intro i hi
      have hlength : s.readers.length + 1 ≤ i := by simpa [Session.turn] using hi
      exact h.absent i (by omega)
    · exact h.settler
  | read i => exact h.read laws i
  | setFallback | await | poll => exact h.keep rfl rfl rfl rfl (fun _ => id) (Nat.le_refl _)

end Seated

section Returns

variable {v : Settled ω} {i : Nat} {r : Reader ω}

theorem readers_read (hr : s.readers[i]? = some r) :
    (s.read i).readers[i]? = some (r.read M s.settled? s.now i s.monitor).2 := by
  rw [read_eq hr]
  exact List.getElem?_set_self (List.getElem?_eq_some_iff.mp hr).1

theorem Seated.reader_of_held (h : s.Seated holder) (held : holder s.monitor = some (some i)) :
    ∃ r, s.readers[i]? = some r ∧ r.post.holds = true := by
  have hi : i < s.readers.length := by
    by_cases hi : i < s.readers.length
    · exact hi
    · exact absurd held (h.absent i (by omega)).2
  have hr := List.getElem?_eq_getElem hi
  exact ⟨_, hr, (h.placed i _ hr).holds.mp held⟩

/-- A reader that holds the lock when the value is shown gives it back in its next step. -/
theorem Seated.frees (h : s.Seated holder) (laws : M.Lawful holder) (shown : s.settled? = some v)
    (held : holder s.monitor = some (some i)) : holder (s.read i).monitor = none := by
  obtain ⟨r, hr, hpost⟩ := h.reader_of_held held
  rw [read_eq hr]
  cases hp : r.post <;> simp only [hp, Post.holds, Bool.false_eq_true] at hpost
  · simp only [Reader.read, hp, shown]
    exact (laws.unlock _).1
  · simp only [Reader.read, hp]
    exact (laws.sleep _ _).1
  · simp only [Reader.read, hp]
    exact (laws.unlock _).1

/-- It returns the value then, once the readers have been woken. -/
theorem Seated.returns_of_held (h : s.Seated holder) (woken : s.heard = true)
    (shown : s.settled? = some v) (hr : s.readers[i]? = some r)
    (held : holder s.monitor = some (some i)) :
    ∃ r', (s.read i).readers[i]? = some r' ∧ r'.post = .returned (some v) := by
  have hplaced := h.placed i r hr
  have hpost := hplaced.holds.mp held
  refine ⟨_, readers_read hr, ?_⟩
  cases hp : r.post <;> simp only [hp, Post.holds, Bool.false_eq_true] at hpost
  · simp only [Reader.read, hp, shown]
  · exact absurd hp (hplaced.roused woken).2
  · simp only [Reader.read, hp, shown]

/-- If the lock is free it takes the lock. -/
theorem Seated.enters (h : s.Seated holder) (laws : M.Lawful holder) (woken : s.heard = true)
    (hr : s.readers[i]? = some r) (waits : ∀ got, r.post ≠ .returned got)
    (free : holder s.monitor = none) : holder (s.read i).monitor = some (some i) := by
  have hplaced := h.placed i r hr
  obtain ⟨m', hm', hholder, -⟩ := laws.lock_free s.monitor (some i) free
  have hpost : r.post.holds = false := by
    simpa [free] using hplaced.holds
  have hawake : M.asleep s.monitor i = false := (hplaced.roused woken).1
  rw [read_eq hr]
  cases hp : r.post <;> simp only [hp, Post.holds, Bool.true_eq_false] at hpost
  · simpa only [Reader.read, hp, Reader.enter, hm'] using hholder
  · simpa only [Reader.read, hp, hawake, Bool.false_eq_true, if_false, Reader.enter, hm'] using
      hholder
  · simpa only [Reader.read, hp, Reader.enter, hm'] using hholder
  · exact absurd hp (waits _)

theorem readers_read_ne {j : Nat} (hj : j ≠ i) (hr : s.readers[i]? = some r) :
    (s.read j).readers[i]? = some r := by
  unfold Session.read
  split
  · exact hr
  · simpa [List.getElem?_set_ne hj] using hr

theorem shown_read (s : Session N M ω) (i : Nat) : (s.read i).settled? = s.settled? ∧
    (s.read i).heard = s.heard :=
  ⟨by rw [settled?, (s.read_frame i).1], (told_congr (s.read_frame i).1 (s.read_frame i).2.1).2⟩

theorem post_returned {got : Option (Settled ω)} (hr : s.readers[i]? = some r)
    (hpost : r.post = .returned got) :
    ∃ r', (s.read i).readers[i]? = some r' ∧ r'.post = .returned got :=
  ⟨_, readers_read hr, by simp only [Reader.read, hpost]⟩

/-- From a free lock it is two steps. -/
theorem Seated.returns_of_free (h : s.Seated holder) (laws : M.Lawful holder)
    (woken : s.heard = true) (shown : s.settled? = some v) (hr : s.readers[i]? = some r)
    (waits : ∀ got, r.post ≠ .returned got) (free : holder s.monitor = none) :
    ∃ r', ((s.read i).read i).readers[i]? = some r' ∧ r'.post = .returned (some v) := by
  obtain ⟨hshown, hheard⟩ := s.shown_read i
  exact (h.read laws i).returns_of_held (hheard.trans woken) (hshown.trans shown)
    (readers_read hr) (h.enters laws woken hr waits free)

variable [Outcome ω]

/-- Once the readers have been woken and whoever settles has left the lock, a reader returns with
the value after two steps, or after one more of another reader that holds the lock. -/
theorem Seated.returns (h : s.Seated holder) (laws : M.Lawful holder) (woken : s.heard = true)
    (left : holder s.monitor ≠ some none) (shown : s.settled? = some v)
    (hr : s.readers[i]? = some r) (waits : ∀ got, r.post ≠ .returned got) :
    ∃ first : List (Turn ω), first.length ≤ 1 ∧ (∀ t ∈ first, ∃ j, t = .read j) ∧
      ∃ r', (s.after (first ++ [.read i, .read i])).readers[i]? = some r' ∧
        r'.post = .returned (some v) := by
  cases hholder : holder s.monitor with
  | none =>
    exact ⟨[], by simp, by simp, h.returns_of_free laws woken shown hr waits hholder⟩
  | some thread =>
    cases thread with
    | none => exact absurd hholder left
    | some j =>
      by_cases hj : j = i
      · subst hj
        obtain ⟨r', hr', hpost⟩ := h.returns_of_held woken shown hr hholder
        exact ⟨[], by simp, by simp, post_returned hr' hpost⟩
      · obtain ⟨hshown, hheard⟩ := s.shown_read j
        exact ⟨[.read j], by simp, by simp,
          (h.read laws j).returns_of_free laws (hheard.trans woken) (hshown.trans shown)
            (readers_read_ne hj hr) waits (h.frees laws shown hholder)⟩

/-- A turn leaves a reader alone, or it is a step of this reader. -/
theorem turn_reader (t : Turn ω) (hr : s.readers[i]? = some r) :
    (s.turn t).readers[i]? = some r ∨
      (s.turn t).readers[i]? = some (r.read M s.settled? s.now i s.monitor).2 := by
  cases t with
  | begin st =>
    rcases s.begin_cases st with hturn | ⟨m, -, hturn⟩ <;> exact .inl (by rwa [hturn])
  | tick =>
    rcases s.tick_cases with ⟨-, m, -, hturn⟩ | ⟨b, rest, -, hturn⟩ <;> rw [hturn]
    · exact .inl hr
    · cases b with
      | lock =>
        rw [ring]
        split <;> exact .inl hr
      | _ => exact .inl hr
  | work j => exact .inl ((s.work_frame j).2.2.2.1 ▸ hr)
  | block wait =>
    exact .inl (List.getElem?_append_left (List.getElem?_eq_some_iff.mp hr).1 ▸ hr)
  | read j =>
    by_cases hj : j = i
    · subst hj
      exact .inr (readers_read hr)
    · exact .inl (readers_read_ne hj hr)
  | _ => exact .inl hr

/-- Nobody is told to have waited in vain when the value is shown. -/
theorem after_waits {turns : List (Turn ω)} (quiet : ∀ t ∈ turns, t.Quiet)
    (shown : s.settled? = some v) (hr : s.readers[i]? = some r) (waits : r.post ≠ .returned none) :
    ∃ r', (s.after turns).readers[i]? = some r' ∧ r'.post ≠ .returned none := by
  induction turns generalizing s r with
  | nil => exact ⟨r, hr, waits⟩
  | cons t turns ih =>
    obtain ⟨ht, hturns⟩ := List.forall_mem_cons.mp quiet
    rcases turn_reader t hr with hr' | hr'
    · exact ih hturns (turn_shown ht shown) hr' waits
    · refine ih hturns (turn_shown ht shown) hr' ?_
      rw [shown]
      exact r.read_waits waits

end Returns

end Session

end Turnstile
