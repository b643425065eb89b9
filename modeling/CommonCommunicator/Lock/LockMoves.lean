import CommonCommunicator.Lock.SharedMutex
import Mathlib.Data.Nat.Bitwise

/-!
# The moves of the shared mutex

What a step can change, and the invariant that comes from it: the word holds the number of the
threads that share the lock, and its highest bit is set while a thread is marked as the writer.
-/

namespace CommonCommunicator

open Lib

namespace SharedMutexCv

theorem toNat_writeEnteredBit : writeEnteredBit.toNat = 2 ^ 31 := rfl

theorem toNat_maxReaders : maxReaders.toNat = 2 ^ 31 - 1 := rfl

theorem toNat_and_maxReaders (x : UInt32) : (x &&& maxReaders).toNat = x.toNat % 2 ^ 31 := by
  rw [UInt32.toNat_and, toNat_maxReaders, Nat.and_two_pow_sub_one_eq_mod]

theorem and_writeEnteredBit_ne_zero (x : UInt32) :
    x &&& writeEnteredBit ≠ 0 ↔ 2 ^ 31 ≤ x.toNat := by
  have hlt := x.toNat_lt
  have hbit : (x &&& writeEnteredBit).toNat = (x.toNat.testBit 31).toNat * 2 ^ 31 := by
    rw [UInt32.toNat_and, toNat_writeEnteredBit, Nat.and_two_pow]
  rw [ne_eq, ← UInt32.toNat_inj, hbit, Nat.testBit_eq_decide_div_mod_eq]
  by_cases hle : 2 ^ 31 ≤ x.toNat
  · have hdiv : x.toNat / 2 ^ 31 % 2 = 1 := by omega
    rw [hdiv]
    exact iff_of_true (by decide) hle
  · have hdiv : x.toNat / 2 ^ 31 % 2 = 0 := by omega
    rw [hdiv]
    exact iff_of_false (by decide) hle

theorem toNat_or_writeEnteredBit {x : UInt32} (h : x.toNat < 2 ^ 31) :
    (x ||| writeEnteredBit).toNat = x.toNat + 2 ^ 31 := by
  have hor := Nat.two_pow_add_eq_or_of_lt h 1
  rw [Nat.mul_one] at hor
  rw [UInt32.toNat_or, toNat_writeEnteredBit, Nat.lor_comm, ← hor, Nat.add_comm]

variable {Thread : Type} {s s' : SharedMutexCv Thread}

/-- The condition of the wait at this point. -/
def Open (s : SharedMutexCv Thread) : LockPoint → Prop
  | .entering => ¬s.writeEntered
  | .queued => s.readers = 0
  | .enteringShared => s.mState < maxReaders
  | _ => False

theorem readers_mark (s : SharedMutexCv Thread) :
    readers { s with mState := s.mState ||| writeEnteredBit } = s.readers := by
  apply UInt32.toNat_inj.mp
  rw [readers, readers, UInt32.toNat_and, UInt32.toNat_or, UInt32.toNat_and,
    Nat.and_or_distrib_right, show writeEnteredBit.toNat &&& maxReaders.toNat = 0 from by decide,
    Nat.or_zero]

variable [DecidableEq Thread] [Fintype Thread]

/-- What a step does. A thread waits only where its condition does not hold. -/
inductive Moved (s : SharedMutexCv Thread) : SharedMutexCv Thread → Prop
  | stays : Moved s s
  | wakes (t : Thread) : Moved s { s with waits := PartialMap.erase s.waits t }
  | waits (t : Thread) (point : LockPoint) (gate : Gate) (kind : point.gate = some gate)
      (origin : s.point t = point ∨ s.point t = .outside ∧ point ≠ .queued)
      (closed : ¬s.Open point) : Moved s (s.waitAt t point gate)
  | queues (t : Thread) (origin : s.point t = .outside ∨ s.point t = .entering)
      (free : s.waits t = none) (unmarked : ¬s.writeEntered) (busy : s.readers ≠ 0) :
      Moved s ({ s with mState := s.mState ||| writeEnteredBit }.waitAt t .queued .gate2)
  | enters (t : Thread) (origin : s.point t = .outside ∨ s.point t = .entering)
      (free : s.waits t = none) (unmarked : ¬s.writeEntered) (empty : s.readers = 0) :
      Moved s ({ s with mState := s.mState ||| writeEnteredBit }.moveTo t .exclusive)
  | proceeds (t : Thread) (origin : s.point t = .queued) (free : s.waits t = none)
      (empty : s.readers = 0) : Moved s (s.moveTo t .exclusive)
  | counts (t : Thread) (origin : s.point t = .outside ∨ s.point t = .enteringShared)
      (free : s.waits t = none) (room : s.mState < maxReaders) :
      Moved s ({ s with mState := s.mState + 1 }.moveTo t .shared)
  | unlocks (t : Thread) (origin : s.point t = .exclusive) :
      Moved s { s.moveTo t .outside with mState := 0, waits := s.waits.notifyAll .gate1 }
  | leaves (t : Thread) (woken : Option Thread) (origin : s.point t = .shared)
      {s' : SharedMutexCv Thread}
      (wakeup : wakeNext ({ s with mState := s.mState - 1 }.moveTo t .outside) s.mState woken =
        some s') : Moved s s'

/-- Every thread in a wait set is at a wait of this gate. -/
def Gated (s : SharedMutexCv Thread) : Prop :=
  ∀ t gate, s.waits t = some gate → (s.point t).gate = some gate

omit [DecidableEq Thread] [Fintype Thread] in
theorem Gated.free (h : s.Gated) {t : Thread} (hgate : (s.point t).gate = none) :
    s.waits t = none := by
  cases hwaits : s.waits t with
  | none => rfl
  | some gate => cases hgate.symm.trans (h t gate hwaits)

theorem moved_passGate1 {t : Thread} (origin : s.point t = .outside ∨ s.point t = .entering)
    (free : s.waits t = none) : Moved s (s.passGate1 t) := by
  rw [passGate1]
  split
  · next hentered =>
      refine .waits t .entering .gate1 rfl ?_ (not_not.mpr hentered)
      exact origin.symm.imp id fun hout => ⟨hout, by decide⟩
  · next hentered =>
      rw [passGate2, readers_mark]
      split
      · next hempty => exact .enters t origin free hentered hempty
      · next hbusy => exact .queues t origin free hentered hbusy

theorem moved_passShared {t : Thread} (origin : s.point t = .outside ∨ s.point t = .enteringShared)
    (free : s.waits t = none) : Moved s (s.passShared t) := by
  rw [passShared]
  split
  · next hroom => exact .counts t origin free hroom
  · next hroom =>
      refine .waits t .enteringShared .gate1 rfl ?_ hroom
      exact origin.symm.imp id fun hout => ⟨hout, by decide⟩

/-- What a step can do, as the threads see it. -/
theorem moved_of_step (h : s.Gated) {a : Action Thread} (hstep : Step s a s') : Moved s s' := by
  rw [Step] at hstep
  cases a with
  | lock t =>
      obtain ⟨hout, heq⟩ := Option.ite_none_right_eq_some.mp hstep
      obtain rfl := Except.ok.inj (Option.some.inj heq)
      exact moved_passGate1 (.inl hout) (h.free (by rw [hout]; rfl))
  | tryLock t ownsLock =>
      obtain ⟨hout, heq⟩ := Option.ite_none_right_eq_some.mp hstep
      obtain rfl := Except.ok.inj (Option.some.inj heq)
      rw [tryLock]
      split
      · next hfree =>
          have henters := Moved.enters t (.inl hout) (h.free (by rw [hout]; rfl))
            (s := s) (by simp [writeEntered, hfree.2]) (by simp [readers, hfree.2])
          rwa [hfree.2, UInt32.zero_or] at henters
      · exact .stays
  | unlock t =>
      obtain ⟨hexclusive, heq⟩ := Option.ite_none_right_eq_some.mp hstep
      obtain ⟨⟨⟩, -, hend⟩ := bind_eq_ok.mp (Option.some.inj heq)
      obtain rfl := Except.ok.inj hend
      exact .unlocks t hexclusive
  | lockShared t =>
      obtain ⟨hout, heq⟩ := Option.ite_none_right_eq_some.mp hstep
      obtain rfl := Except.ok.inj (Option.some.inj heq)
      exact moved_passShared (.inl hout) (h.free (by rw [hout]; rfl))
  | tryLockShared t ownsLock =>
      obtain ⟨hout, heq⟩ := Option.ite_none_right_eq_some.mp hstep
      obtain rfl := Except.ok.inj (Option.some.inj heq)
      rw [tryLockShared]
      split
      · next hroom => exact .counts t (.inl hout) (h.free (by rw [hout]; rfl)) hroom.2
      · exact .stays
  | unlockShared t woken =>
      obtain ⟨hshared, heq⟩ := Option.ite_none_right_eq_some.mp hstep
      rw [unlockShared] at heq
      split at heq
      · obtain ⟨left, hwoken, hleft⟩ := Option.map_eq_some_iff.mp heq
        obtain rfl := Except.ok.inj hleft
        exact .leaves t woken hshared hwoken
      · cases heq
  | resume t =>
      obtain ⟨hfree, heq⟩ := Option.ite_none_right_eq_some.mp hstep
      obtain ⟨resumed, hresumed, hmoved⟩ := Option.map_eq_some_iff.mp heq
      obtain rfl := Except.ok.inj hmoved
      rw [resume] at hresumed
      split at hresumed
      · next hpoint =>
          obtain rfl := Option.some.inj hresumed
          exact moved_passGate1 (.inr hpoint) hfree
      · next hpoint =>
          obtain rfl := Option.some.inj hresumed
          rw [passGate2]
          split
          · next hempty => exact .proceeds t hpoint hfree hempty
          · next hbusy => exact .waits t .queued .gate2 rfl (.inl hpoint) hbusy
      · next hpoint =>
          obtain rfl := Option.some.inj hresumed
          exact moved_passShared (.inr hpoint) hfree
      · cases hresumed
  | spuriousWake t =>
      rw [next] at hstep
      split at hstep
      · cases hstep
      · obtain rfl := Except.ok.inj (Option.some.inj hstep)
        exact .wakes t

/-- The notifications of `unlock_shared`: one at the second gate for the last reader with a writer
queued, one at the first gate for a reader too many, and otherwise none. -/
theorem wakeNext_effect {prev : UInt32} {woken : Option Thread}
    (h : s.wakeNext prev woken = some s') :
    ∃ waits, s' = { s with waits := waits } ∧
      (∀ t gate, waits t = some gate → s.waits t = some gate) ∧
      (s.writeEntered ∧ s.readers = 0 ∧ s.waits.notifyOne .gate2 woken = some waits ∨
        ¬s.writeEntered ∧ prev = maxReaders ∧ s.waits.notifyOne .gate1 woken = some waits ∨
        waits = s.waits ∧ (s.writeEntered → s.readers ≠ 0) ∧
          (¬s.writeEntered → prev ≠ maxReaders)) := by
  rw [wakeNext] at h
  split at h
  · next hentered =>
      split at h
      · next hempty =>
          obtain ⟨waits, hnotify, rfl⟩ := Option.map_eq_some_iff.mp h
          exact ⟨waits, rfl, fun t gate ht => (WaitSets.of_notifyOne hnotify ht).1,
            .inl ⟨hentered, hempty, hnotify⟩⟩
      · next hbusy =>
          obtain rfl := Option.some.inj h
          exact ⟨s.waits, rfl, fun _ _ ht => ht,
            .inr (.inr ⟨rfl, fun _ => hbusy, fun hfree => absurd hentered hfree⟩)⟩
  · next hfree =>
      split at h
      · next hfull =>
          obtain ⟨waits, hnotify, rfl⟩ := Option.map_eq_some_iff.mp h
          exact ⟨waits, rfl, fun t gate ht => (WaitSets.of_notifyOne hnotify ht).1,
            .inr (.inl ⟨hfree, hfull, hnotify⟩)⟩
      · next hroom =>
          obtain rfl := Option.some.inj h
          exact ⟨s.waits, rfl, fun _ _ ht => ht,
            .inr (.inr ⟨rfl, fun hentered => absurd hentered hfree, fun _ => hroom⟩)⟩

/-- The word and the threads say the same. -/
structure Counted (mState : UInt32) (point : Thread → LockPoint) : Prop where
  counter : mState.toNat =
    census point (· = .shared) + 2 ^ 31 * census point LockPoint.Marked
  writer : census point LockPoint.Marked ≤ 1
  alone : ∀ t, point t = .exclusive → census point (· = .shared) = 0
  fits : census point (· = .shared) < 2 ^ 31

namespace Counted

variable {mState : UInt32} {point : Thread → LockPoint} {t : Thread} {a : LockPoint}

omit [DecidableEq Thread] in
theorem marked_iff (h : Counted mState point) :
    2 ^ 31 ≤ mState.toNat ↔ ∃ t, (point t).Marked := by
  rw [← Census.pos_iff, h.counter]
  have hfits := h.fits
  have hwriter := h.writer
  omega

omit [DecidableEq Thread] in
theorem toNat_mod (h : Counted mState point) :
    mState.toNat % 2 ^ 31 = census point (· = .shared) := by
  have hfits := h.fits
  rw [h.counter]
  omega

/-- A thread moves that is counted as before. -/
theorem same (h : Counted mState point) (hshared : point t = .shared ↔ a = .shared)
    (hmarked : (point t).Marked ↔ a.Marked)
    (hempty : a = .exclusive → census point (· = .shared) = 0) :
    Counted mState (Function.update point t a) := by
  have hcensus : census (Function.update point t a) (· = .shared) =
      census point (· = .shared) := by
    by_cases hs : point t = .shared
    · exact Census.update_of_pos hs (hshared.mp hs)
    · exact Census.update_of_neg hs (mt hshared.mpr hs)
  have hwriters : census (Function.update point t a) LockPoint.Marked =
      census point LockPoint.Marked := by
    by_cases hm : (point t).Marked
    · exact Census.update_of_pos hm (hmarked.mp hm)
    · exact Census.update_of_neg hm (mt hmarked.mpr hm)
  constructor
  · rw [hcensus, hwriters]
    exact h.counter
  · rw [hwriters]
    exact h.writer
  · intro u hu
    rw [hcensus]
    rw [Function.update_apply] at hu
    split at hu
    · exact hempty hu
    · exact h.alone u hu
  · rw [hcensus]
    exact h.fits

/-- A thread marks itself where no other is marked. -/
theorem mark (h : Counted mState point) (hshared : point t ≠ .shared)
    (hfree : ¬2 ^ 31 ≤ mState.toNat) (ha : a.Marked)
    (hempty : a = .exclusive → census point (· = .shared) = 0) :
    Counted (mState ||| writeEnteredBit) (Function.update point t a) := by
  have hnone : census point LockPoint.Marked = 0 := by
    rw [h.marked_iff, not_exists] at hfree
    exact Census.eq_zero_iff.mpr hfree
  have hashared : a ≠ .shared := by
    rintro rfl
    exact absurd ha (by decide)
  have hcensus : census (Function.update point t a) (· = .shared) =
      census point (· = .shared) := Census.update_of_neg hshared hashared
  have hwriters : census (Function.update point t a) LockPoint.Marked = 1 := by
    rw [Census.update_enters (Census.eq_zero_iff.mp hnone t) ha, hnone]
  constructor
  · rw [toNat_or_writeEnteredBit (by omega), h.counter, hcensus, hwriters, hnone]
    omega
  · exact hwriters.le
  · intro u hu
    rw [hcensus]
    rw [Function.update_apply] at hu
    split at hu
    · exact hempty hu
    · exact h.alone u hu
  · rw [hcensus]
    exact h.fits

/-- A reader enters. -/
theorem count (h : Counted mState point) (hpoint : point t = .outside ∨ point t = .enteringShared)
    (hroom : mState < maxReaders) :
    Counted (mState + 1) (Function.update point t .shared) := by
  rw [UInt32.lt_iff_toNat_lt, toNat_maxReaders] at hroom
  have hshared : point t ≠ .shared := by rcases hpoint with hp | hp <;> simp [hp]
  have hunmarked : ¬(point t).Marked := by rcases hpoint with hp | hp <;> rw [hp] <;> decide
  have hcensus : census (Function.update point t .shared) (· = .shared) =
      census point (· = .shared) + 1 := Census.update_enters hshared rfl
  have hwriters : census (Function.update point t .shared) LockPoint.Marked =
      census point LockPoint.Marked := Census.update_of_neg hunmarked (by decide)
  have hcounter := h.counter
  constructor
  · rw [UInt32.toNat_add, hcensus, hwriters, UInt32.toNat_one, Nat.mod_eq_of_lt (by omega)]
    omega
  · rw [hwriters]
    exact h.writer
  · intro u hu
    have hmarked : ∃ t, (point t).Marked := by
      refine ⟨u, ?_⟩
      rw [Function.update_apply] at hu
      split at hu
      · cases hu
      · exact .inr hu
    rw [← h.marked_iff] at hmarked
    omega
  · rw [hcensus]
    omega

/-- A reader leaves. -/
theorem leave (h : Counted mState point) (hpoint : point t = .shared) :
    Counted (mState - 1) (Function.update point t .outside) := by
  have hcensus : census (Function.update point t .outside) (· = .shared) + 1 =
      census point (· = .shared) := Census.update_leaves hpoint (by decide)
  have hwriters : census (Function.update point t .outside) LockPoint.Marked =
      census point LockPoint.Marked :=
    Census.update_of_neg (by rw [hpoint]; decide) (by decide)
  have hcounter := h.counter
  have hfits := h.fits
  constructor
  · rw [UInt32.toNat_sub_of_le _ _ (by rw [UInt32.le_iff_toNat_le, UInt32.toNat_one]; omega),
      hwriters, UInt32.toNat_one]
    omega
  · rw [hwriters]
    exact h.writer
  · intro u hu
    rw [Function.update_apply] at hu
    split at hu
    · cases hu
    · have hnone := h.alone u hu
      omega
  · omega

/-- The writer leaves. -/
theorem unlock (h : Counted mState point) (hpoint : point t = .exclusive) :
    Counted 0 (Function.update point t .outside) := by
  have hcensus : census (Function.update point t .outside) (· = .shared) =
      census point (· = .shared) :=
    Census.update_of_neg (by rw [hpoint]; decide) (by decide)
  have hwriters : census (Function.update point t .outside) LockPoint.Marked + 1 =
      census point LockPoint.Marked := Census.update_leaves (.inr hpoint) (by decide)
  have hwriter := h.writer
  have halone := h.alone t hpoint
  have hnone : census (Function.update point t .outside) LockPoint.Marked = 0 := by omega
  constructor
  · rw [hcensus, halone, hnone]
    rfl
  · omega
  · intro u hu
    rw [hcensus, halone]
  · omega

end Counted

/-- The invariant of the mutex. -/
structure Sound (s : SharedMutexCv Thread) : Prop where
  gated : s.Gated
  counted : Counted s.mState s.point

omit [DecidableEq Thread] in
theorem sound_create : (create Thread).Sound where
  gated := by
    intro t gate ht
    cases ht
  counted := by
    have hshared : census (fun _ : Thread => LockPoint.outside) (· = .shared) = 0 :=
      Census.eq_zero_iff.mpr fun _ => by decide
    have hmarked : census (fun _ : Thread => LockPoint.outside) LockPoint.Marked = 0 :=
      Census.eq_zero_iff.mpr fun _ => by decide
    constructor
    · simp [create, hshared, hmarked]
    · simp [create, hmarked]
    · intro t ht
      cases ht
    · simp [create, hshared]

namespace Sound

omit [DecidableEq Thread] in
theorem writeEntered_iff (h : s.Sound) : s.writeEntered ↔ ∃ t, (s.point t).Marked := by
  rw [writeEntered, and_writeEnteredBit_ne_zero, h.counted.marked_iff]

omit [DecidableEq Thread] in
theorem toNat_readers (h : s.Sound) : s.readers.toNat = census s.point (· = .shared) := by
  rw [readers, toNat_and_maxReaders, h.counted.toNat_mod]

omit [DecidableEq Thread] in
theorem readers_eq_zero_iff (h : s.Sound) : s.readers = 0 ↔ ∀ t, s.point t ≠ .shared := by
  rw [← UInt32.toNat_inj, h.toNat_readers, UInt32.toNat_zero, Census.eq_zero_iff]

omit [Fintype Thread] in
/-- Threads stay in the wait sets of their gates when one thread, which is in none, moves. -/
theorem gated_move (h : s.Gated) {t : Thread} (hfree : s.waits t = none) (mState : UInt32)
    (point : LockPoint) : Gated ({ s with mState := mState }.moveTo t point) := by
  intro u gate hu
  have hne : u ≠ t := by
    rintro rfl
    cases hfree.symm.trans hu
  change ((Function.update s.point t point) u).gate = some gate
  rw [Function.update_of_ne hne]
  exact h u gate hu

omit [Fintype Thread] in
theorem gated_wait (h : s.Gated) (t : Thread) {mState : UInt32} {point : LockPoint} {gate : Gate}
    (hgate : point.gate = some gate) :
    Gated ({ s with mState := mState }.waitAt t point gate) := by
  intro u gate' hu
  change PartialMap.insert s.waits t gate u = some gate' at hu
  change ((Function.update s.point t point) u).gate = some gate'
  rw [PartialMap.insert_apply] at hu
  rw [Function.update_apply]
  split at hu
  · next heq => rwa [if_pos heq, hgate]
  · next hne =>
      rw [if_neg hne]
      exact h u gate' hu

omit [DecidableEq Thread] [Fintype Thread] in
/-- Fewer threads wait. -/
theorem gated_wake (h : s.Gated) {waits : WaitSets Thread Gate}
    (hless : ∀ t gate, waits t = some gate → s.waits t = some gate) :
    Gated { s with waits := waits } :=
  fun t gate ht => h t gate (hless t gate ht)

/-- What one move preserves. -/
theorem moved (h : s.Sound) (hmoved : Moved s s') : s'.Sound := by
  obtain ⟨hgated, hcounted⟩ := h
  cases hmoved with
  | stays => exact ⟨hgated, hcounted⟩
  | wakes t =>
      exact ⟨gated_wake hgated fun u gate hu => (PartialMap.of_erase_eq_some hu).2, hcounted⟩
  | waits t point gate kind origin closed =>
      refine ⟨gated_wait hgated t kind, ?_⟩
      have hkind : point ≠ .shared ∧ point ≠ .exclusive := by
        constructor <;> rintro rfl <;> cases kind
      apply hcounted.same
      · rcases origin with hp | ⟨hp, -⟩ <;> simp [hp, hkind]
      · rcases origin with hp | ⟨hp, hqueued⟩
        · rw [hp]
        · rw [hp]
          exact iff_of_false (by decide) (fun hm => hm.elim hqueued hkind.2)
      · exact fun hexclusive => absurd hexclusive hkind.2
  | queues t origin free unmarked busy =>
      refine ⟨gated_wait hgated t rfl, ?_⟩
      apply hcounted.mark
      · rcases origin with hp | hp <;> simp [hp]
      · rwa [← and_writeEnteredBit_ne_zero]
      · exact .inl rfl
      · intro hexclusive
        cases hexclusive
  | enters t origin free unmarked empty =>
      refine ⟨gated_move hgated free _ _, ?_⟩
      apply hcounted.mark
      · rcases origin with hp | hp <;> simp [hp]
      · rwa [← and_writeEnteredBit_ne_zero]
      · exact .inr rfl
      · intro _
        rw [← toNat_readers ⟨hgated, hcounted⟩, empty]
        rfl
  | proceeds t origin free empty =>
      refine ⟨gated_move hgated free _ _, ?_⟩
      apply hcounted.same
      · rw [origin]
        decide
      · rw [origin]
        decide
      · intro _
        rw [← toNat_readers ⟨hgated, hcounted⟩, empty]
        rfl
  | counts t origin free room =>
      exact ⟨gated_move hgated free _ _, hcounted.count origin room⟩
  | unlocks t origin =>
      have hfree := hgated.free (t := t) (by rw [origin]; rfl)
      refine ⟨gated_wake (gated_move hgated hfree 0 .outside) ?_,
        hcounted.unlock origin⟩
      exact fun u gate hu => (WaitSets.notifyAll_eq_some.mp hu).1
  | leaves t woken origin wakeup =>
      have hfree := hgated.free (t := t) (by rw [origin]; rfl)
      obtain ⟨waits, rfl, hless, -⟩ := wakeNext_effect wakeup
      exact ⟨gated_wake (gated_move hgated hfree (s.mState - 1) .outside) hless,
        hcounted.leave origin⟩

/-- What one step preserves. -/
theorem step (h : s.Sound) {a : Action Thread} (hstep : Step s a s') : s'.Sound :=
  h.moved (moved_of_step h.gated hstep)

theorem reachable (hrun : Reachable Step (create Thread) s) : s.Sound :=
  hrun.invariant sound_create fun _ _ _ h _ hstep => h.step hstep

end Sound

end SharedMutexCv

end CommonCommunicator
