import CommonCommunicator.Lib.ReadersWriter
import CommonCommunicator.Lock.LockMoves
import Mathlib.Data.Fin.VecNotation

/-!
# Sections under the shared mutex

The threads behind `lock` and `lock_shared` are the holders of a lock for one writer or many
readers, whatever the waits and the notifications do. What stands between a `lock` and its `unlock`
is therefore one step for all other threads.
-/

namespace CommonCommunicator

open Lib

namespace SharedMutexCv

variable {Thread : Type} {s s' : SharedMutexCv Thread} {t u : Thread}

/-- The thread is behind `lock` or `lock_shared`. -/
def Holds (s : SharedMutexCv Thread) (t : Thread) : Prop :=
  s.point t = .shared ∨ s.point t = .exclusive

instance (s : SharedMutexCv Thread) (t : Thread) : Decidable (s.Holds t) :=
  inferInstanceAs (Decidable (_ ∨ _))

/-- The lock that the mutex is. -/
structure Abstracts (s : SharedMutexCv Thread) (l : ReadersWriter Thread) : Prop where
  readers : ∀ t, t ∈ l.readers ↔ s.point t = .shared
  writer : ∀ t, l.writer = some t ↔ s.point t = .exclusive

theorem abstracts_create : (create Thread).Abstracts (.free Thread) := by
  constructor
  · intro t
    exact iff_of_false (Set.notMem_empty t) (by simp [create])
  · intro t
    exact iff_of_false (by simp [ReadersWriter.free]) (by simp [create])

namespace Abstracts

variable {l : ReadersWriter Thread}

theorem holds_iff (h : s.Abstracts l) : l.Holds t ↔ s.Holds t :=
  or_congr (h.readers t) (h.writer t)

theorem noReader (h : s.Abstracts l) (hempty : ∀ t, s.point t ≠ .shared) : l.readers = ∅ := by
  rw [Set.eq_empty_iff_forall_notMem]
  exact fun t ht => hempty t ((h.readers t).mp ht)

theorem noWriter (h : s.Abstracts l) (hfree : ∀ t, s.point t ≠ .exclusive) : l.writer = none := by
  cases hwriter : l.writer with
  | none => rfl
  | some t => exact absurd ((h.writer t).mp hwriter) (hfree t)

variable [DecidableEq Thread]

/-- A thread goes from one place that holds nothing to another. -/
theorem stays (h : s.Abstracts l) {point : LockPoint} (hold : ¬s.Holds t)
    (hpoint : point ≠ .shared ∧ point ≠ .exclusive) {mState : UInt32}
    {waits : WaitSets Thread Gate} :
    Abstracts { mState := mState, point := Function.update s.point t point, waits := waits } l := by
  rw [Holds, not_or] at hold
  constructor <;> intro u <;> simp only [Function.update_apply]
  · split
    · next heq => exact iff_of_false (mt (h.readers u).mp (heq ▸ hold.1)) hpoint.1
    · exact h.readers u
  · split
    · next heq => exact iff_of_false (mt (h.writer u).mp (heq ▸ hold.2)) hpoint.2
    · exact h.writer u

theorem acquire (h : s.Abstracts l) (hold : ¬s.Holds t) (hfree : ∀ u, s.point u ≠ .exclusive)
    {mState : UInt32} {waits : WaitSets Thread Gate} :
    Abstracts { mState := mState, point := Function.update s.point t .exclusive, waits := waits }
      { l with writer := some t } := by
  rw [Holds, not_or] at hold
  constructor <;> intro u <;> simp only [Function.update_apply]
  · split
    · next heq => exact iff_of_false (mt (h.readers u).mp (heq ▸ hold.1)) (by decide)
    · exact h.readers u
  · split
    · next heq => simp [heq]
    · next hne => exact iff_of_false (by simpa using Ne.symm hne) (hfree u)

theorem release (h : s.Abstracts l) (hold : s.point t = .exclusive) {mState : UInt32}
    {waits : WaitSets Thread Gate} :
    Abstracts { mState := mState, point := Function.update s.point t .outside, waits := waits }
      { l with writer := none } := by
  have hwriter := (h.writer t).mpr hold
  constructor <;> intro u <;> simp only [Function.update_apply]
  · split
    · next heq =>
        exact iff_of_false (mt (h.readers u).mp (by rw [heq, hold]; decide)) (by decide)
    · exact h.readers u
  · split
    · exact iff_of_false (Option.some_ne_none u).symm (by decide)
    · next hne =>
        refine iff_of_false (Option.some_ne_none u).symm fun hu => hne ?_
        exact Option.some.inj (((h.writer u).mpr hu).symm.trans hwriter)

theorem acquireShared (h : s.Abstracts l) (hold : ¬s.Holds t) {mState : UInt32}
    {waits : WaitSets Thread Gate} :
    Abstracts { mState := mState, point := Function.update s.point t .shared, waits := waits }
      { l with readers := insert t l.readers } := by
  rw [Holds, not_or] at hold
  constructor <;> intro u <;> simp only [Function.update_apply]
  · split
    · next heq => simp [heq]
    · next hne => rw [Set.mem_insert_iff, or_iff_right hne, h.readers]
  · split
    · next heq => exact iff_of_false (mt (h.writer u).mp (heq ▸ hold.2)) (by decide)
    · exact h.writer u

theorem releaseShared (h : s.Abstracts l) (hold : s.point t = .shared) {mState : UInt32}
    {waits : WaitSets Thread Gate} :
    Abstracts { mState := mState, point := Function.update s.point t .outside, waits := waits }
      { l with readers := l.readers \ {t} } := by
  constructor <;> intro u <;> simp only [Function.update_apply]
  · split
    · next heq => exact iff_of_false (by simp [heq]) (by decide)
    · next hne =>
        rw [Set.mem_sdiff, Set.mem_singleton_iff, and_iff_left hne, h.readers]
  · split
    · next heq =>
        exact iff_of_false (mt (h.writer u).mp (by rw [heq, hold]; decide)) (by decide)
    · exact h.writer u

variable [Fintype Thread]

/-- A move of the mutex is a move of the lock, or changes nothing there. -/
theorem moved (h : s.Abstracts l) (hsound : s.Sound) (hmoved : Moved s s') :
    s'.Abstracts l ∨ ∃ t l', ReadersWriter.Move l t l' ∧ s'.Abstracts l' := by
  cases hmoved with
  | stays => exact .inl h
  | wakes t => exact .inl ⟨h.readers, h.writer⟩
  | waits t point gate kind origin closed =>
      left
      apply h.stays
      · rcases origin with hp | ⟨hp, -⟩
        · rw [Holds, hp]
          rintro (heq | heq) <;> rw [heq] at kind <;> cases kind
        · simp [Holds, hp]
      · constructor <;> rintro rfl <;> cases kind
  | queues t origin free unmarked busy =>
      left
      apply h.stays
      · rcases origin with hp | hp <;> simp [Holds, hp]
      · decide
  | enters t origin free unmarked empty =>
      right
      have hfree : ∀ u, s.point u ≠ .exclusive := by
        intro u hu
        exact unmarked (hsound.writeEntered_iff.mpr ⟨u, .inr hu⟩)
      refine ⟨t, _, .acquire (h.noReader (hsound.readers_eq_zero_iff.mp empty))
        (h.noWriter hfree), ?_⟩
      apply h.acquire _ hfree
      rcases origin with hp | hp <;> simp [Holds, hp]
  | proceeds t origin free empty =>
      right
      have hfree : ∀ u, s.point u ≠ .exclusive := by
        intro u hu
        have heq : u = t := Census.unique hsound.counted.writer (.inr hu) (.inl origin)
        rw [heq, origin] at hu
        cases hu
      refine ⟨t, _, .acquire (h.noReader (hsound.readers_eq_zero_iff.mp empty))
        (h.noWriter hfree), ?_⟩
      exact h.acquire (by simp [Holds, origin]) hfree
  | counts t origin free room =>
      right
      have hnew : ¬s.Holds t := by rcases origin with hp | hp <;> simp [Holds, hp]
      have hfree : ∀ u, s.point u ≠ .exclusive := by
        intro u hu
        have hmarked := hsound.counted.marked_iff.mpr ⟨u, .inr hu⟩
        rw [UInt32.lt_iff_toNat_lt, toNat_maxReaders] at room
        omega
      refine ⟨t, _, .acquireShared (h.noWriter hfree) ?_, h.acquireShared hnew⟩
      exact fun ht => hnew (.inl ((h.readers t).mp ht))
  | unlocks t origin =>
      exact .inr ⟨t, _, .release ((h.writer t).mpr origin), h.release origin⟩
  | leaves t woken origin wakeup =>
      obtain ⟨waits, rfl, -⟩ := wakeNext_effect wakeup
      exact .inr ⟨t, _, .releaseShared ((h.readers t).mpr origin), h.releaseShared origin⟩

end Abstracts

namespace Sound

variable [DecidableEq Thread] [Fintype Thread]

/-- No assertion of `unlock` and `unlock_shared` fails. -/
theorem next_ne_error (h : s.Sound) (a : Action Thread) (f : Fault) :
    s.next a ≠ some (.error f) := by
  intro hnext
  cases a with
  | unlock t =>
      obtain ⟨hpoint, hfault⟩ := Option.ite_none_right_eq_some.mp hnext
      rw [unlock, assertThat_pos (h.writeEntered_iff.mpr ⟨t, .inr hpoint⟩)] at hfault
      cases hfault
  | unlockShared t woken =>
      obtain ⟨hpoint, hfault⟩ := Option.ite_none_right_eq_some.mp hnext
      have hreaders : s.readers ≠ 0 := fun hzero => h.readers_eq_zero_iff.mp hzero t hpoint
      rw [unlockShared, if_pos (UInt32.pos_iff_ne_zero.mpr hreaders)] at hfault
      obtain ⟨left, -, hleft⟩ := Option.map_eq_some_iff.mp hfault
      cases hleft
  | resume t =>
      obtain ⟨-, hfault⟩ := Option.ite_none_right_eq_some.mp hnext
      obtain ⟨resumed, -, hresumed⟩ := Option.map_eq_some_iff.mp hfault
      cases hresumed
  | spuriousWake t =>
      rw [next] at hnext
      split at hnext <;> cases hnext
  | lock t | tryLock t ownsLock | lockShared t | tryLockShared t ownsLock =>
      obtain ⟨-, hfault⟩ := Option.ite_none_right_eq_some.mp hnext
      cases hfault

omit [DecidableEq Thread] in
/-- What the destructor asserts. -/
theorem mState_eq_zero (h : s.Sound) (hout : ∀ t, s.point t = .outside) : s.mState = 0 := by
  have hshared : census s.point (· = .shared) = 0 :=
    Census.eq_zero_iff.mpr fun t => by rw [hout t]; decide
  have hmarked : census s.point LockPoint.Marked = 0 :=
    Census.eq_zero_iff.mpr fun t => by rw [hout t]; decide
  apply UInt32.toNat_inj.mp
  rw [h.counted.counter, hshared, hmarked]
  rfl

end Sound

section Sections

variable [DecidableEq Thread] [Fintype Thread]

/-- Every run of the mutex is a run of the lock for one writer or many readers. -/
theorem exists_lock_of_run (hrun : Reachable Step (create Thread) s) :
    ∃ l, Reachable ReadersWriter.Move (.free Thread) l ∧ s.Sound ∧ s.Abstracts l := by
  apply hrun.simulation ⟨sound_create, abstracts_create⟩
  rintro s a s' l ⟨hsound, habstracts⟩ - hstep
  obtain hstays | ⟨t, l', hmove, hmoved⟩ :=
    habstracts.moved hsound (moved_of_step hsound.gated hstep)
  · exact .inl ⟨hsound.step hstep, hstays⟩
  · exact .inr ⟨t, l', hmove, hsound.step hstep, hmoved⟩

/-- In every run the mutex is a lock for one writer or many readers, no assertion of it fails, and
its word is zero when all threads are outside. -/
theorem run_refines_lock (hrun : Reachable Step (create Thread) s) :
    (∃ l, Reachable ReadersWriter.Move (.free Thread) l ∧ s.Abstracts l) ∧
      (∀ t u, s.point t = .exclusive → s.Holds u → u = t) ∧
      (∀ a f, s.next a ≠ some (.error f)) ∧ ((∀ t, s.point t = .outside) → s.mState = 0) := by
  obtain ⟨l, hlock, hsound, habstracts⟩ := exists_lock_of_run hrun
  refine ⟨⟨l, hlock, habstracts⟩, ?_, hsound.next_ne_error, hsound.mState_eq_zero⟩
  intro t u ht hu
  apply (ReadersWriter.exclusive_of_run hlock).unique
  · exact (habstracts.writer t).mpr ht
  · exact habstracts.holds_iff.mpr hu

/-- One thread has the lock and another one waits. -/
theorem run_refines_lock_two_threads :
    ∃ s : SharedMutexCv (Fin 2), s.point 0 = .exclusive ∧ s.waits 1 = some .gate1 ∧
      ∀ u, s.Holds u → u = 0 := by
  let locked : SharedMutexCv (Fin 2) := ⟨0x80000000, ![.exclusive, .outside], ![none, none]⟩
  have hfirst : Step (create (Fin 2)) (.lock 0) locked := by decide
  have hsecond : Step locked (.lockShared 1)
      ⟨0x80000000, ![.exclusive, .enteringShared], ![none, some .gate1]⟩ := by decide
  have hrun : Reachable Step (create (Fin 2)) _ :=
    (GuardedRun.start.next trivial hfirst).next trivial hsecond
  exact ⟨_, rfl, rfl, fun u => (run_refines_lock hrun).2.1 0 u rfl⟩

/-- One step while a writer is queued: a reader leaves, the writer goes on, or nobody moves. -/
theorem queued_step (hsound : s.Sound) (hqueued : s.point t = .queued) {a : Action Thread}
    (hstep : Step s a s') :
    s'.point t = .queued ∧ (∀ u, s'.Holds u → s.Holds u) ∨
      s'.point t = .exclusive ∧ ∀ u, u ≠ t → ¬s'.Holds u := by
  have hentered : s.writeEntered := hsound.writeEntered_iff.mpr ⟨t, .inl hqueued⟩
  have hunique : ∀ u, (s.point u).Marked → u = t :=
    fun u hu => Census.unique hsound.counted.writer hu (.inl hqueued)
  have hleaves : ∀ u, s.point u = .shared → ∀ mState waits,
      let left : SharedMutexCv Thread :=
        { mState := mState, point := Function.update s.point u .outside, waits := waits }
      left.point t = .queued ∧ ∀ v, left.Holds v → s.Holds v := by
    intro u hu mState waits left
    have hne : t ≠ u := by
      rintro rfl
      cases hqueued.symm.trans hu
    refine ⟨(Function.update_of_ne hne ..).trans hqueued, ?_⟩
    intro v hv
    simp only [left, Holds, Function.update_apply] at hv
    split at hv
    · simp at hv
    · exact hv
  cases moved_of_step hsound.gated hstep with
  | stays => exact .inl ⟨hqueued, fun _ hu => hu⟩
  | wakes u => exact .inl ⟨hqueued, fun _ hu => hu⟩
  | waits u point gate kind origin closed =>
      left
      have hpoint : point ≠ .shared ∧ point ≠ .exclusive := by
        constructor <;> rintro rfl <;> cases kind
      refine ⟨?_, ?_⟩
      · change Function.update s.point u point t = .queued
        rw [Function.update_apply]
        split
        · next heq =>
            rcases origin with hp | ⟨hp, -⟩
            · rw [← hp, ← heq, hqueued]
            · rw [← heq, hqueued] at hp
              cases hp
        · exact hqueued
      · intro v hv
        simp only [waitAt, Holds, Function.update_apply] at hv
        split at hv
        · exact absurd hv (not_or.mpr hpoint)
        · exact hv
  | queues u origin free unmarked busy => exact absurd hentered unmarked
  | enters u origin free unmarked empty => exact absurd hentered unmarked
  | proceeds u origin free empty =>
      right
      obtain rfl := hunique u (.inl origin)
      refine ⟨Function.update_self .., ?_⟩
      intro v hne hv
      simp only [moveTo, Holds, Function.update_of_ne hne] at hv
      rcases hv with hv | hv
      · exact hsound.readers_eq_zero_iff.mp empty v hv
      · exact hne (hunique v (.inr hv))
  | counts u origin free room =>
      rw [writeEntered, and_writeEnteredBit_ne_zero] at hentered
      rw [UInt32.lt_iff_toNat_lt, toNat_maxReaders] at room
      omega
  | unlocks u origin =>
      rw [hunique u (.inr origin), hqueued] at origin
      cases origin
  | leaves u woken origin wakeup =>
      obtain ⟨waits, rfl, -⟩ := wakeNext_effect wakeup
      exact .inl (hleaves u origin _ _)

/-- From when a writer is queued until it is the one holder, no other thread gets the lock. -/
theorem queued_writer_next (hrun : Reachable Step (create Thread) s)
    (hqueued : s.point t = .queued)
    (hwait : GuardedRun Step (fun s _ => s.point t = .queued) s s') :
    s'.point t = .queued ∧ (∀ u, s'.Holds u → s.Holds u) ∨
      s'.point t = .exclusive ∧ ∀ u, u ≠ t → ¬s'.Holds u := by
  have hinv : s'.Sound ∧ (s'.point t = .queued ∧ (∀ u, s'.Holds u → s.Holds u) ∨
      s'.point t = .exclusive ∧ ∀ u, u ≠ t → ¬s'.Holds u) := by
    apply hwait.invariant ⟨Sound.reachable hrun, .inl ⟨hqueued, fun _ hu => hu⟩⟩
    rintro s₁ a s₂ ⟨hsound, hsofar⟩ hstill hstep
    refine ⟨hsound.step hstep, ?_⟩
    obtain ⟨-, hless⟩ | ⟨hexclusive, -⟩ := hsofar
    · exact (queued_step hsound hstill hstep).imp_left fun ⟨hpoint, hkept⟩ =>
        ⟨hpoint, fun u hu => hless u (hkept u hu)⟩
    · cases hstill.symm.trans hexclusive
  exact hinv.2

/-- A writer queues behind a reader, is notified when the reader leaves, and goes on. -/
theorem queued_writer_next_after_reader :
    ∃ s s' : SharedMutexCv (Fin 2), s.point 1 = .queued ∧ s.point 0 = .shared ∧
      s'.point 1 = .exclusive ∧ ∀ u, u ≠ 1 → ¬s'.Holds u := by
  have hshared : Step (create (Fin 2)) (.lockShared 0)
      ⟨1, ![.shared, .outside], ![none, none]⟩ := by decide
  have hqueued : Step ⟨1, ![.shared, .outside], ![none, none]⟩ (.lock 1)
      ⟨0x80000001, ![.shared, .queued], ![none, some .gate2]⟩ := by decide
  have hleft : Step ⟨0x80000001, ![.shared, .queued], ![none, some .gate2]⟩
      (.unlockShared 0 (some 1)) ⟨0x80000000, ![.outside, .queued], ![none, none]⟩ := by decide
  have hpassed : Step ⟨0x80000000, ![.outside, .queued], ![none, none]⟩ (.resume 1)
      ⟨0x80000000, ![.outside, .exclusive], ![none, none]⟩ := by decide
  have hrun : Reachable Step (create (Fin 2)) _ :=
    (GuardedRun.start.next trivial hshared).next trivial hqueued
  have hwait : GuardedRun Step (fun s _ => s.point 1 = .queued)
      (⟨0x80000001, ![.shared, .queued], ![none, some .gate2]⟩ : SharedMutexCv (Fin 2))
      ⟨0x80000000, ![.outside, .exclusive], ![none, none]⟩ :=
    .next (.next .start rfl hleft) rfl hpassed
  obtain ⟨hstill, -⟩ | hnext := queued_writer_next hrun rfl hwait
  · cases hstill
  · exact ⟨⟨0x80000001, ![.shared, .queued], ![none, some .gate2]⟩, _, rfl, rfl, hnext⟩

end Sections

end SharedMutexCv

/-- Data that is read and written only behind a shared mutex, as the parts of `CRawMessage` and
`CAliasAddr` are, with what each thread found there when it got the lock, or wrote since. -/
structure LockedData (Thread σ : Type) where
  mutex : SharedMutexCv Thread
  data : σ
  known : Thread → σ
  updates : List (σ → σ)

namespace LockedData

variable {Thread σ : Type} {d : LockedData Thread σ} {data : σ} {t : Thread}

/-- Data that nobody has locked yet. -/
def create (Thread : Type) {σ : Type} (data : σ) : LockedData Thread σ :=
  { mutex := .create Thread, data := data, known := fun _ => data, updates := [] }

variable [DecidableEq Thread] [Fintype Thread]

/-- A step at the mutex, or a write of the thread behind `lock`. -/
inductive Step (d : LockedData Thread σ) :
    SharedMutexCv.Action Thread ⊕ Thread → LockedData Thread σ → Prop
  | mutex {a : SharedMutexCv.Action Thread} {mutex : SharedMutexCv Thread}
      (step : d.mutex.Step a mutex) :
      Step d (.inl a)
        { d with
          mutex := mutex
          known := fun t => if d.mutex.Holds t then d.known t else d.data }
  | write {t : Thread} (held : d.mutex.point t = .exclusive) (update : σ → σ) :
      Step d (.inr t)
        { d with
          data := update (d.known t)
          known := Function.update d.known t (update (d.known t))
          updates := d.updates ++ [update] }

/-- The data behind the lock that the mutex is. Only what holders know counts. -/
structure Abstracts (d : LockedData Thread σ) (g : GuardedData Thread σ) : Prop where
  sound : d.mutex.Sound
  lock : d.mutex.Abstracts g.lock
  data : d.data = g.data
  known : ∀ t, d.mutex.Holds t → d.known t = g.known t
  updates : d.updates = g.updates

omit [Fintype Thread] in
/-- What a thread knows that gets the lock with this move, or has it before and after. -/
theorem known_of_move {l l' : ReadersWriter Thread} {mutex mutex' : SharedMutexCv Thread}
    {known known' : Thread → σ} (hlock : mutex.Abstracts l) (hlock' : mutex'.Abstracts l')
    (hmove : ReadersWriter.Move l t l') (hknown : ∀ u, mutex.Holds u → known u = known' u)
    {u : Thread} (hu : mutex'.Holds u) :
    (if mutex.Holds u then known u else data) = Function.update known' t data u := by
  rw [← hlock'.holds_iff] at hu
  by_cases hut : u = t
  · have hnew : ¬mutex.Holds u := by
      rw [← hlock.holds_iff, hut]
      rw [hut] at hu
      cases hmove with
      | acquire noReader noWriter => simp [ReadersWriter.Holds, noReader, noWriter]
      | release held =>
          have hreader : t ∈ l.readers := hu.resolve_right (by simp)
          cases ((hlock.writer t).mp held).symm.trans ((hlock.readers t).mp hreader)
      | acquireShared noWriter new => simp [ReadersWriter.Holds, noWriter, new]
      | releaseShared held =>
          have hwriter : l.writer = some t := hu.resolve_left (by simp)
          cases ((hlock.readers t).mp held).symm.trans ((hlock.writer t).mp hwriter)
    rw [if_neg hnew, hut, Function.update_self]
  · rw [hmove.holds_iff hut, hlock.holds_iff] at hu
    rw [if_pos hu, Function.update_of_ne hut, hknown u hu]

/-- A step of a thread is a step behind the lock, or changes nothing there. -/
theorem Abstracts.step {g : GuardedData Thread σ} (h : d.Abstracts g)
    {a : SharedMutexCv.Action Thread ⊕ Thread} {d' : LockedData Thread σ} (hstep : Step d a d') :
    d'.Abstracts g ∨ ∃ t g', GuardedData.Step g t g' ∧ d'.Abstracts g' := by
  cases hstep with
  | @mutex a mutex step =>
      have hsound := h.sound.step step
      obtain hstays | ⟨t, l, hmove, hmoved⟩ :=
        h.lock.moved h.sound (SharedMutexCv.moved_of_step h.sound.gated step)
      · left
        refine ⟨hsound, hstays, h.data, ?_, h.updates⟩
        intro u hu
        have hold : d.mutex.Holds u := h.lock.holds_iff.mp (hstays.holds_iff.mpr hu)
        exact (if_pos hold).trans (h.known u hold)
      · right
        refine ⟨t, _, .lock hmove, hsound, hmoved, h.data, ?_, h.updates⟩
        intro u hu
        rw [← h.data]
        exact known_of_move h.lock hmoved hmove h.known hu
  | @write t held update =>
      right
      have hknown : d.known t = g.known t := h.known t (.inr held)
      refine ⟨t, _, .write ((h.lock.writer t).mpr held) update, h.sound, h.lock, ?_, ?_, ?_⟩
      · exact congrArg update hknown
      · intro u hu
        simp only [Function.update_apply]
        split
        · exact congrArg update hknown
        · exact h.known u hu
      · exact congrArg (· ++ [update]) h.updates

/-- In every run, a thread behind the mutex knows what the data is, and no update is lost: each
section is one step for all other threads. -/
theorem sections_atomic (hrun : Reachable Step (create Thread data) d) :
    (∀ t, d.mutex.Holds t → d.known t = d.data) ∧
      d.data = d.updates.foldl (fun x update => update x) data := by
  have hbase : (create Thread data).Abstracts (.unlocked Thread data) :=
    ⟨SharedMutexCv.sound_create, SharedMutexCv.abstracts_create, rfl, fun _ _ => rfl, rfl⟩
  obtain ⟨g, hguarded, habstracts⟩ :=
    hrun.simulation hbase fun _ _ _ _ h _ hstep => h.step hstep
  have hcurrent := GuardedData.current_of_run hguarded
  refine ⟨?_, ?_⟩
  · intro t ht
    rw [habstracts.known t ht, habstracts.data]
    exact hcurrent.known t (habstracts.lock.holds_iff.mpr ht)
  · rw [habstracts.data, habstracts.updates]
    exact hcurrent.updated

/-- Two threads count, one after the other: the second knows what the first wrote. -/
theorem sections_atomic_two_counts :
    ∃ d : LockedData (Fin 2) Nat, d.mutex.point 1 = .exclusive ∧ d.known 1 = d.data ∧
      d.data = [(· + 1), (· + 1)].foldl (fun x update => update x) 5 := by
  have hfirst : (SharedMutexCv.create (Fin 2)).Step (.lock 0)
      ⟨0x80000000, ![.exclusive, .outside], ![none, none]⟩ := by decide
  have hsecond : SharedMutexCv.Step ⟨0x80000000, ![.exclusive, .outside], ![none, none]⟩ (.lock 1)
      ⟨0x80000000, ![.exclusive, .entering], ![none, some .gate1]⟩ := by decide
  have hleft : SharedMutexCv.Step ⟨0x80000000, ![.exclusive, .entering], ![none, some .gate1]⟩
      (.unlock 0) ⟨0, ![.outside, .entering], ![none, none]⟩ := by decide
  have hpassed : SharedMutexCv.Step ⟨0, ![.outside, .entering], ![none, none]⟩ (.resume 1)
      ⟨0x80000000, ![.outside, .exclusive], ![none, none]⟩ := by decide
  have hcounted : Reachable Step (create (Fin 2) 5) _ :=
    ((GuardedRun.start.next trivial (.mutex hfirst)).next trivial (.mutex hsecond)).next trivial
      (.write (t := 0) rfl (· + 1))
  have hrun : Reachable Step (create (Fin 2) 5) _ :=
    ((hcounted.next trivial (.mutex hleft)).next trivial (.mutex hpassed)).next trivial
      (.write (t := 1) rfl (· + 1))
  have hatomic := sections_atomic hrun
  exact ⟨_, rfl, hatomic.1 1 (.inr rfl), hatomic.2⟩

end LockedData

end CommonCommunicator
