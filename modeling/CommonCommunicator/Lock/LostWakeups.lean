import CommonCommunicator.Lock.LockMoves
import Mathlib.Algebra.Order.BigOperators.Group.Finset
import Mathlib.Data.Fin.VecNotation

/-!
# Notifications of the shared mutex

`unlock_shared` notifies one thread at the first gate, and only when the number of readers was at
its maximum. This reaches every thread that could go on as long as at most one thread can wait
there, and is then enough to empty the mutex from every state.
-/

namespace CommonCommunicator

open Lib

namespace SharedMutexCv

variable {Thread : Type} {s s' : SharedMutexCv Thread} {t u : Thread}

theorem gate_eq_gate1 {point : LockPoint} :
    point.gate = some .gate1 ↔ point = .entering ∨ point = .enteringShared := by
  cases point <;> decide

theorem gate_eq_gate2 {point : LockPoint} : point.gate = some .gate2 ↔ point = .queued := by
  cases point <;> decide

/-- The first gate is closed while the flag is set. -/
theorem not_writeEntered_of_open {point : LockPoint} (hgate : point.gate = some .gate1)
    (hopen : s.Open point) : ¬s.writeEntered := by
  rcases gate_eq_gate1.mp hgate with rfl | rfl
  · exact hopen
  · have hlt := UInt32.lt_iff_toNat_lt.mp (show s.mState < maxReaders from hopen)
    rw [toNat_maxReaders] at hlt
    rw [writeEntered, and_writeEnteredBit_ne_zero]
    omega

/-- A thread whose condition holds is not waiting. -/
def AllNotified (s : SharedMutexCv Thread) : Prop :=
  s.waits.NoneMissing fun t => s.Open (s.point t)

theorem allNotified_create : (create Thread).AllNotified := by
  intro t gate ht
  cases ht

/-- A closed gate stays closed when the flag is set. -/
theorem open_of_mark {point : LockPoint}
    (h : Open { s with mState := s.mState ||| writeEnteredBit } point) : s.Open point := by
  have hle : 2 ^ 31 ≤ (s.mState ||| writeEnteredBit).toNat := by
    rw [UInt32.toNat_or]
    exact Nat.right_le_or
  cases point with
  | entering => exact absurd ((and_writeEnteredBit_ne_zero _).mpr hle) h
  | queued => exact (readers_mark s).symm.trans h
  | enteringShared =>
      have hlt := UInt32.lt_iff_toNat_lt.mp (show s.mState ||| writeEnteredBit < maxReaders from h)
      rw [toNat_maxReaders] at hlt
      omega
  | outside | exclusive | shared => exact h

/-- A closed gate stays closed when a reader enters. -/
theorem open_of_count {point : LockPoint} (hroom : s.mState < maxReaders)
    (h : Open { s with mState := s.mState + 1 } point) : s.Open point := by
  rw [UInt32.lt_iff_toNat_lt, toNat_maxReaders] at hroom
  have hcount : (s.mState + 1).toNat = s.mState.toNat + 1 := by
    rw [UInt32.toNat_add, UInt32.toNat_one]
    omega
  cases point with
  | entering =>
      rw [Open, writeEntered, and_writeEnteredBit_ne_zero]
      omega
  | queued =>
      have hempty := congrArg UInt32.toNat (show (s.mState + 1) &&& maxReaders = 0 from h)
      rw [toNat_and_maxReaders, hcount, UInt32.toNat_zero] at hempty
      omega
  | enteringShared =>
      rw [Open, UInt32.lt_iff_toNat_lt, toNat_maxReaders]
      omega
  | outside | exclusive | shared => exact h

variable [DecidableEq Thread] [Fintype Thread]

omit [Fintype Thread] in
/-- A thread that is in no wait set moves, and no gate opens. -/
theorem AllNotified.move (h : s.AllNotified) (hfree : s.waits t = none) {mState : UInt32}
    {point : LockPoint} (hopen : ∀ point, Open { s with mState := mState } point → s.Open point) :
    AllNotified ({ s with mState := mState }.moveTo t point) := by
  apply h.mono
  intro u gate hu
  have hne : u ≠ t := by
    rintro rfl
    cases hfree.symm.trans hu
  refine ⟨hu, ?_⟩
  simp only [moveTo, Function.update_of_ne hne]
  exact hopen _

omit [Fintype Thread] in
/-- A thread begins to wait at a closed gate, and no gate opens. -/
theorem AllNotified.wait (h : s.AllNotified) {mState : UInt32} {point : LockPoint} {gate : Gate}
    (hopen : ∀ point, Open { s with mState := mState } point → s.Open point)
    (hclosed : ¬Open { s with mState := mState } point) :
    AllNotified ({ s with mState := mState }.waitAt t point gate) := by
  apply h.insert
  · simp only [waitAt, Function.update_self]
    exact hclosed
  · intro u gate' hne _
    simp only [waitAt, Function.update_of_ne hne]
    exact hopen _

/-- Two threads at the first gate leave room for fewer readers than the maximum. -/
theorem gate1_unique (hsound : s.Sound) (hthreads : Fintype.card Thread ≤ 2 ^ 31)
    (hfull : s.mState = maxReaders) (ht : s.waits t = some .gate1)
    (hu : s.waits u = some .gate1) : t = u := by
  have hunshared : ∀ v, s.waits v = some .gate1 → s.point v ≠ .shared := by
    intro v hv hshared
    have hgate := hsound.gated v .gate1 hv
    rw [hshared] at hgate
    cases hgate
  have hreaders : census s.point (· = .shared) = 2 ^ 31 - 1 := by
    rw [← hsound.counted.toNat_mod, hfull, toNat_maxReaders]
    rfl
  by_contra hne
  have hcard : census s.point (· = .shared) + ({t, u} : Finset Thread).card ≤
      Fintype.card Thread := by
    apply Census.add_card_le
    intro v hv
    rcases Finset.mem_insert.mp hv with rfl | hv
    · exact hunshared v ht
    · rw [Finset.mem_singleton.mp hv]
      exact hunshared u hu
  rw [Finset.card_pair hne] at hcard
  omega

/-- The notifications of `unlock_shared` are enough. -/
theorem AllNotified.leave (h : s.AllNotified) (hsound : s.Sound)
    (hthreads : Fintype.card Thread ≤ 2 ^ 31) (hpoint : s.point t = .shared)
    {woken : Option Thread}
    (wakeup : wakeNext ({ s with mState := s.mState - 1 }.moveTo t .outside) s.mState woken =
      some s') : s'.AllNotified := by
  have hsound' : s'.Sound := hsound.moved (.leaves t woken hpoint wakeup)
  obtain ⟨waits, rfl, hless, hcases⟩ := wakeNext_effect wakeup
  set left : SharedMutexCv Thread := { s with mState := s.mState - 1 }.moveTo t .outside with hleft
  have hentered : left.writeEntered ↔ s.writeEntered := by
    refine hsound'.writeEntered_iff.trans (Iff.trans ?_ hsound.writeEntered_iff.symm)
    apply exists_congr
    intro u
    by_cases hut : u = t
    · simp [hleft, moveTo, hut, hpoint, LockPoint.Marked]
    · simp [hleft, moveTo, hut]
  intro u gate hu hopen
  have hold : s.waits u = some gate := hless u gate hu
  have hgate := hsound.gated u gate hold
  have hsame : left.point u = s.point u := by
    apply Function.update_of_ne
    rintro rfl
    rw [hpoint] at hgate
    cases hgate
  change left.Open (left.point u) at hopen
  rw [hsame] at hopen
  have hqueued : gate = .gate2 → left.writeEntered := by
    rintro rfl
    exact hentered.mpr (hsound.writeEntered_iff.mpr ⟨u, .inl (gate_eq_gate2.mp hgate)⟩)
  have hunflagged : gate = .gate1 → ¬left.writeEntered := by
    rintro rfl
    exact not_writeEntered_of_open hgate hopen
  -- which notification was made decides which threads are left in the wait sets
  obtain ⟨hflag, -, hnotify⟩ | ⟨hflag, hfull, hnotify⟩ | ⟨rfl, hbusy, hroom⟩ := hcases
  · cases gate with
    | gate1 => exact hunflagged rfl hflag
    | gate2 =>
        refine WaitSets.notifyOne_empties hnotify (fun v w hv hw => ?_) u hu
        have hv' := gate_eq_gate2.mp (hsound.gated v .gate2 hv)
        have hw' := gate_eq_gate2.mp (hsound.gated w .gate2 hw)
        exact Census.unique hsound.counted.writer (.inl hv') (.inl hw')
  · cases gate with
    | gate1 =>
        refine WaitSets.notifyOne_empties hnotify (fun v w hv hw => ?_) u hu
        exact gate1_unique hsound hthreads hfull hv hw
    | gate2 => exact hflag (hqueued rfl)
  · cases gate with
    | gate1 =>
        have hunflagged' := mt hentered.mpr (hunflagged rfl)
        apply h u .gate1 hold
        rcases gate_eq_gate1.mp hgate with hp | hp
        · rw [hp]
          exact hunflagged'
        · have hne := hroom (hunflagged rfl)
          rw [writeEntered, and_writeEnteredBit_ne_zero] at hunflagged'
          rw [ne_eq, ← UInt32.toNat_inj, toNat_maxReaders] at hne
          rw [hp, Open, UInt32.lt_iff_toNat_lt, toNat_maxReaders]
          omega
    | gate2 =>
        rw [gate_eq_gate2.mp hgate] at hopen
        exact hbusy (hqueued rfl) hopen

/-- What one move preserves, with few enough threads. -/
theorem AllNotified.moved (h : s.AllNotified) (hsound : s.Sound)
    (hthreads : Fintype.card Thread ≤ 2 ^ 31) (hmoved : Moved s s') : s'.AllNotified := by
  cases hmoved with
  | stays => exact h
  | wakes t => exact h.mono fun u gate hu => ⟨(PartialMap.of_erase_eq_some hu).2, id⟩
  | waits t point gate kind origin closed => exact h.wait (fun _ => id) closed
  | queues t origin free unmarked busy =>
      apply h.wait (fun _ => open_of_mark)
      rwa [Open, readers_mark]
  | enters t origin free unmarked empty => exact h.move free fun _ => open_of_mark
  | proceeds t origin free empty => exact h.move free fun _ => id
  | counts t origin free room => exact h.move free fun _ => open_of_count room
  | unlocks t origin =>
      intro u gate hu _
      obtain ⟨hold, hgate⟩ := WaitSets.notifyAll_eq_some.mp hu
      -- the one thread that waits at the second gate is marked, as the one that unlocks is
      cases gate with
      | gate1 => exact hgate rfl
      | gate2 =>
          have hpoint := gate_eq_gate2.mp (hsound.gated u .gate2 hold)
          have heq : u = t := Census.unique hsound.counted.writer (.inl hpoint) (.inr origin)
          rw [heq, origin] at hpoint
          cases hpoint
  | leaves t woken origin wakeup => exact h.leave hsound hthreads origin wakeup

theorem allNotified_of_run (hrun : Reachable Step (create Thread) s)
    (hthreads : Fintype.card Thread ≤ 2 ^ 31) : s.AllNotified := by
  have hinv : s.Sound ∧ s.AllNotified := by
    apply hrun.invariant ⟨sound_create, allNotified_create⟩
    rintro s a s' ⟨hsound, hnotified⟩ - hstep
    exact ⟨hsound.step hstep,
      hnotified.moved hsound hthreads (moved_of_step hsound.gated hstep)⟩
  exact hinv.2

/-- The threads of `S` share the lock, those of `W` want to, and of these `Q` wait. -/
def crowd (S W Q : Finset Thread) : SharedMutexCv Thread where
  mState := UInt32.ofNat S.card
  point t := if t ∈ S then .shared else if t ∈ W then .enteringShared else .outside
  waits t := if t ∈ Q then some .gate1 else none

section Crowd

variable {S W Q : Finset Thread}

omit [Fintype Thread] in
theorem toNat_crowd (h : S.card < 2 ^ 31) : (crowd S W Q).mState.toNat = S.card :=
  UInt32.toNat_ofNat_of_lt' (h.trans (by decide))

omit [Fintype Thread] in
theorem crowd_lt_iff (h : S.card < 2 ^ 31) :
    (crowd S W Q).mState < maxReaders ↔ S.card < 2 ^ 31 - 1 := by
  rw [UInt32.lt_iff_toNat_lt, toNat_crowd h, toNat_maxReaders]

omit [Fintype Thread] in
theorem crowd_not_writeEntered (h : S.card < 2 ^ 31) : ¬(crowd S W Q).writeEntered := by
  rw [writeEntered, and_writeEnteredBit_ne_zero, toNat_crowd h]
  omega

omit [Fintype Thread] in
/-- One reader more. -/
theorem crowd_insert (ht : t ∉ S) :
    { crowd S W Q with mState := (crowd S W Q).mState + 1 }.moveTo t .shared =
      crowd (insert t S) (W.erase t) Q := by
  have hstate : (crowd S W Q).mState + 1 = UInt32.ofNat (insert t S).card := by
    rw [Finset.card_insert_of_notMem ht, UInt32.ofNat_add]
    rfl
  have hpoint : Function.update (crowd S W Q).point t .shared =
      (crowd (insert t S) (W.erase t) Q).point := by
    funext u
    by_cases hut : u = t
    · simp [crowd, hut]
    · simp [crowd, hut]
  rw [moveTo, hstate, hpoint]
  rfl

omit [Fintype Thread] in
/-- One reader less. -/
theorem crowd_erase (ht : t ∈ S) (hW : t ∉ W) (h : S.card < 2 ^ 31) :
    { crowd S W Q with mState := (crowd S W Q).mState - 1 }.moveTo t .outside =
      crowd (S.erase t) W Q := by
  have hpos : 0 < S.card := Finset.card_pos.mpr ⟨t, ht⟩
  have hstate : (crowd S W Q).mState - 1 = UInt32.ofNat (S.erase t).card := by
    apply UInt32.toNat_inj.mp
    rw [UInt32.toNat_sub_of_le _ _ (by rw [UInt32.le_iff_toNat_le, toNat_crowd h]; exact hpos),
      toNat_crowd h, Finset.card_erase_of_mem ht, UInt32.toNat_ofNat_of_lt' (by
        have : UInt32.size = 2 ^ 32 := rfl
        omega)]
    rfl
  have hpoint : Function.update (crowd S W Q).point t .outside = (crowd (S.erase t) W Q).point := by
    funext u
    by_cases hut : u = t
    · simp [crowd, hut, hW]
    · simp [crowd, hut]
  rw [moveTo, hstate, hpoint]
  rfl

theorem crowd_enters (ht : t ∉ S) (hW : t ∉ W) (h : S.card < 2 ^ 31 - 1) :
    Step (crowd S W Q) (.lockShared t) (crowd (insert t S) W Q) := by
  have hout : (crowd S W Q).point t = .outside := by simp [crowd, ht, hW]
  have hlt : S.card < 2 ^ 31 := by omega
  rw [Step, next, if_pos hout, passShared, if_pos ((crowd_lt_iff hlt).mpr h), crowd_insert ht,
    Finset.erase_eq_of_notMem hW]

theorem crowd_waits (ht : t ∉ S) (hW : t ∉ W) (h : S.card = 2 ^ 31 - 1) :
    Step (crowd S W Q) (.lockShared t) (crowd S (insert t W) (insert t Q)) := by
  have hout : (crowd S W Q).point t = .outside := by simp [crowd, ht, hW]
  have hlt : S.card < 2 ^ 31 := by omega
  have hpoint : Function.update (crowd S W Q).point t .enteringShared =
      (crowd S (insert t W) (insert t Q)).point := by
    funext u
    by_cases hut : u = t
    · simp [crowd, hut, ht]
    · simp [crowd, hut]
  have hwaits : PartialMap.insert (crowd S W Q).waits t .gate1 =
      (crowd S (insert t W) (insert t Q)).waits := by
    funext u
    rw [PartialMap.insert_apply]
    by_cases hut : u = t
    · simp [crowd, hut]
    · simp [crowd, hut]
  rw [Step, next, if_pos hout, passShared, if_neg (by rw [crowd_lt_iff hlt]; omega), waitAt, hpoint,
    hwaits]
  rfl

theorem crowd_resumes (ht : t ∉ S) (hW : t ∈ W) (hQ : t ∉ Q) (h : S.card < 2 ^ 31 - 1) :
    Step (crowd S W Q) (.resume t) (crowd (insert t S) (W.erase t) Q) := by
  have hpoint : (crowd S W Q).point t = .enteringShared := by simp [crowd, ht, hW]
  have hfree : (crowd S W Q).waits t = none := by simp [crowd, hQ]
  have hlt : S.card < 2 ^ 31 := by omega
  rw [Step, next, if_pos hfree, resume]
  simp only [hpoint]
  rw [passShared, if_pos ((crowd_lt_iff hlt).mpr h), crowd_insert ht]
  rfl

/-- What `unlock_shared` does before it notifies. -/
theorem crowd_unlockShared (ht : t ∈ S) (hW : t ∉ W) (h : S.card < 2 ^ 31)
    (woken : Option Thread) :
    next (crowd S W Q) (.unlockShared t woken) =
      ((crowd (S.erase t) W Q).wakeNext (crowd S W Q).mState woken).map .ok := by
  have hpoint : (crowd S W Q).point t = .shared := by simp [crowd, ht]
  have hpos : 0 < (crowd S W Q).readers := by
    rw [UInt32.lt_iff_toNat_lt, readers, toNat_and_maxReaders, toNat_crowd h, UInt32.toNat_zero,
      Nat.mod_eq_of_lt h]
    exact Finset.card_pos.mpr ⟨t, ht⟩
  rw [next, if_pos hpoint, unlockShared, if_pos hpos, crowd_erase ht hW h]

theorem crowd_leaves (ht : t ∈ S) (hW : t ∉ W) (h : S.card < 2 ^ 31 - 1) :
    Step (crowd S W Q) (.unlockShared t none) (crowd (S.erase t) W Q) := by
  have hlt : S.card < 2 ^ 31 := by omega
  have hlt' : (S.erase t).card < 2 ^ 31 := (Finset.card_erase_le).trans_lt hlt
  have hroom : (crowd S W Q).mState ≠ maxReaders := by
    rw [ne_eq, ← UInt32.toNat_inj, toNat_crowd hlt, toNat_maxReaders]
    omega
  rw [Step, crowd_unlockShared ht hW hlt, wakeNext, if_neg (crowd_not_writeEntered hlt'),
    if_neg hroom]
  rfl

theorem crowd_notifies (ht : t ∈ S) (hW : t ∉ W) (h : S.card = 2 ^ 31 - 1) (hu : u ∈ Q) :
    Step (crowd S W Q) (.unlockShared t (some u)) (crowd (S.erase t) W (Q.erase u)) := by
  have hlt : S.card < 2 ^ 31 := by omega
  have hlt' : (S.erase t).card < 2 ^ 31 := (Finset.card_erase_le).trans_lt hlt
  have hfull : (crowd S W Q).mState = maxReaders := by
    rw [← UInt32.toNat_inj, toNat_crowd hlt, toNat_maxReaders, h]
  have hwaits : PartialMap.erase (crowd (S.erase t) W Q).waits u =
      (crowd (S.erase t) W (Q.erase u)).waits := by
    funext v
    rw [PartialMap.erase_apply]
    by_cases hvu : v = u
    · simp [crowd, hvu]
    · simp [crowd, hvu]
  rw [Step, crowd_unlockShared ht hW hlt, wakeNext, if_neg (crowd_not_writeEntered hlt'),
    if_pos hfull, WaitSets.notifyOne, if_pos (by simp [crowd, hu]), hwaits]
  rfl

/-- Readers enter one after the other. -/
theorem crowd_gathers (h : S.card ≤ 2 ^ 31 - 1) : Reachable Step (create Thread) (crowd S ∅ ∅) := by
  induction S using Finset.induction with
  | empty =>
      have hnobody : (crowd ∅ ∅ ∅ : SharedMutexCv Thread) = create Thread := by
        simp [crowd, create, PartialMap.empty, funext_iff]
      rw [hnobody]
      exact .start
  | insert t S ht ih =>
      rw [Finset.card_insert_of_notMem ht] at h
      exact (ih (by omega)).next trivial
        (crowd_enters ht (Finset.notMem_empty t) (by omega))

/-- Readers leave one after the other, and notify nobody. -/
theorem crowd_disperses (h : S.card < 2 ^ 31 - 1) (hW : ∀ t ∈ S, t ∉ W)
    (hrun : Reachable Step (create Thread) (crowd S W Q)) :
    Reachable Step (create Thread) (crowd ∅ W Q) := by
  induction S using Finset.induction with
  | empty => exact hrun
  | insert t S ht ih =>
      have hleft := crowd_leaves (Q := Q) (Finset.mem_insert_self t S)
        (hW t (Finset.mem_insert_self t S)) h
      rw [Finset.erase_insert ht] at hleft
      rw [Finset.card_insert_of_notMem ht] at h
      apply ih (by omega) (fun u hu => hW u (Finset.mem_insert_of_mem hu))
      exact hrun.next trivial hleft

/-- Two threads wait for one of the most readers to leave. The first to leave notifies one thread,
and the others none. -/
theorem exists_forgotten (hthreads : 2 ^ 31 < Fintype.card Thread) :
    ∃ s t, Reachable Step (create Thread) s ∧ s.waits t = some .gate1 ∧ s.mState = 0 ∧
      s.point t = .enteringShared ∧ ∀ u, u ≠ t → s.point u = .outside := by
  obtain ⟨S, -, hcard⟩ := Finset.exists_subset_card_eq
    (s := (Finset.univ : Finset Thread)) (n := 2 ^ 31 - 1) (by rw [Finset.card_univ]; omega)
  obtain ⟨t, ht, u, hu, hne⟩ := Finset.one_lt_card.mp
    (show 1 < Sᶜ.card by rw [Finset.card_compl, hcard]; omega)
  rw [Finset.mem_compl] at ht hu
  obtain ⟨v, hv⟩ := Finset.card_pos.mp (show 0 < S.card by omega)
  have hcard₁ : (S.erase v).card = 2 ^ 31 - 2 := by
    rw [Finset.card_erase_of_mem hv]
    omega
  obtain ⟨w, hw⟩ := Finset.card_pos.mp (show 0 < (S.erase v).card by omega)
  have hcard₂ : ((S.erase v).erase w).card = 2 ^ 31 - 3 := by
    rw [Finset.card_erase_of_mem hw]
    omega
  have hgone : ∀ x ∈ (S.erase v).erase w, x ∈ S :=
    fun x hx => Finset.mem_of_mem_erase (Finset.mem_of_mem_erase hx)
  have hstays : ∀ x ∈ S, x ∉ ({u, t} : Finset Thread) := by
    intro x hx hmem
    rw [Finset.mem_insert, Finset.mem_singleton] at hmem
    rcases hmem with rfl | rfl
    · exact hu hx
    · exact ht hx
  have hwaiting : Reachable Step (create Thread) (crowd S {u, t} {u, t}) :=
    ((crowd_gathers hcard.le).next trivial (crowd_waits ht (by simp) hcard)).next trivial
      (crowd_waits hu (by simpa using hne.symm) hcard)
  have hnotified := hwaiting.next trivial (crowd_notifies hv (hstays v hv) hcard (u := t) (by simp))
  have hleft := hnotified.next trivial
    (crowd_leaves hw (hstays w (Finset.mem_of_mem_erase hw)) (by omega))
  have hpassed := hleft.next trivial
    (crowd_resumes (fun hmem => ht (hgone t hmem)) (by simp) (by simp) (by omega))
  have htnew : t ∉ (S.erase v).erase w := fun hmem => ht (hgone t hmem)
  have hend := crowd_disperses (by rw [Finset.card_insert_of_notMem htnew]; omega) (by
    intro x hx hmem
    rcases Finset.mem_insert.mp hx with rfl | hx
    · simp at hmem
    · exact hstays x (hgone x hx) (Finset.mem_of_mem_erase hmem)) hpassed
  refine ⟨_, u, hend, ?_, rfl, ?_, ?_⟩
  · simp [crowd, hne.symm]
  · simp [crowd, hne.symm]
  · intro x hx
    simp [crowd, hx]

end Crowd

/-- The notifications are enough in every run exactly if there are at most as many threads as there
can be readers and one more. With more threads, one can be left waiting for a free mutex. -/
theorem allNotified_iff :
    ((∀ s, Reachable Step (create Thread) s → s.AllNotified) ↔ Fintype.card Thread ≤ 2 ^ 31) ∧
      (2 ^ 31 < Fintype.card Thread →
        ∃ s t, Reachable Step (create Thread) s ∧ s.waits t = some .gate1 ∧ s.mState = 0 ∧
          ∀ u, u ≠ t → s.point u = .outside) := by
  refine ⟨⟨?_, fun hthreads s hrun => allNotified_of_run hrun hthreads⟩, ?_⟩
  · intro hall
    by_contra hmany
    obtain ⟨s, t, hrun, hwaits, hzero, hpoint, -⟩ := exists_forgotten (not_le.mp hmany)
    apply hall s hrun t .gate1 hwaits
    rw [hpoint, Open, hzero]
    decide
  · intro hmany
    obtain ⟨s, t, hrun, hwaits, hzero, -, hothers⟩ := exists_forgotten hmany
    exact ⟨s, t, hrun, hwaits, hzero, hothers⟩

/-- How many steps are left for a thread until it is outside. -/
def stepsLeft : LockPoint → Nat
  | .outside => 0
  | .exclusive => 1
  | .shared => 1
  | .queued => 2
  | .enteringShared => 2
  | .entering => 3

/-- A notified thread goes on or a thread gives the lock back; nobody asks for the lock or wakes up
for no reason. -/
def Action.Ends : Action Thread → Prop
  | .unlock _ => True
  | .unlockShared _ _ => True
  | .resume _ => True
  | _ => False

/-- The steps left for all threads. -/
def workLeft (s : SharedMutexCv Thread) : Nat := ∑ t, stepsLeft (s.point t)

theorem workLeft_lt {point : LockPoint} (hless : stepsLeft point < stepsLeft (s.point t))
    (hpoint : s'.point = Function.update s.point t point) : s'.workLeft < s.workLeft := by
  apply Finset.sum_lt_sum
  · intro u _
    rw [hpoint, Function.update_apply]
    split
    · next heq =>
        rw [heq]
        exact hless.le
    · exact le_rfl
  · refine ⟨t, Finset.mem_univ t, ?_⟩
    rw [hpoint, Function.update_self]
    exact hless

/-- The scheduler has a thread to notify, or there is none to notify. -/
theorem exists_wakeNext (s : SharedMutexCv Thread) (prev : UInt32) :
    ∃ woken waits, s.wakeNext prev woken = some { s with waits := waits } := by
  by_cases hentered : s.writeEntered
  · by_cases hempty : s.readers = 0
    · obtain ⟨woken, waits, hnotify⟩ := WaitSets.exists_notifyOne s.waits .gate2
      exact ⟨woken, waits, by rw [wakeNext, if_pos hentered, if_pos hempty, hnotify]; rfl⟩
    · exact ⟨none, s.waits, by rw [wakeNext, if_pos hentered, if_neg hempty]⟩
  · by_cases hfull : prev = maxReaders
    · obtain ⟨woken, waits, hnotify⟩ := WaitSets.exists_notifyOne s.waits .gate1
      exact ⟨woken, waits, by rw [wakeNext, if_neg hentered, if_pos hfull, hnotify]; rfl⟩
    · exact ⟨none, s.waits, by rw [wakeNext, if_neg hentered, if_neg hfull]⟩

/-- While a thread is not outside, one can go on or give the lock back. -/
theorem exists_ending_step (hsound : s.Sound) (hnotified : s.AllNotified)
    (hbusy : s.point t ≠ .outside) :
    ∃ a s', a.Ends ∧ Step s a s' ∧ s'.workLeft < s.workLeft := by
  have hawake : ∀ u, s.Open (s.point u) → s.waits u = none := by
    intro u hopen
    cases hwaits : s.waits u with
    | none => rfl
    | some gate => exact absurd hopen (hnotified u gate hwaits)
  by_cases hwriter : ∃ u, s.point u = .exclusive
  · obtain ⟨u, hu⟩ := hwriter
    have hentered : s.writeEntered := hsound.writeEntered_iff.mpr ⟨u, .inr hu⟩
    have hstep : Step s (.unlock u)
        { s.moveTo u .outside with mState := 0, waits := s.waits.notifyAll .gate1 } := by
      rw [Step, next, if_pos hu, unlock, assertThat_pos hentered]
      rfl
    exact ⟨.unlock u, _, trivial, hstep, workLeft_lt (by rw [hu]; decide) rfl⟩
  by_cases hreader : ∃ u, s.point u = .shared
  · obtain ⟨u, hu⟩ := hreader
    have hreaders : s.readers ≠ 0 := fun hzero => hsound.readers_eq_zero_iff.mp hzero u hu
    obtain ⟨woken, waits, hwoken⟩ :=
      exists_wakeNext ({ s with mState := s.mState - 1 }.moveTo u .outside) s.mState
    have hstep : Step s (.unlockShared u woken)
        { s.moveTo u .outside with mState := s.mState - 1, waits := waits } := by
      rw [Step, next, if_pos hu, unlockShared, if_pos (UInt32.pos_iff_ne_zero.mpr hreaders),
        hwoken]
      rfl
    exact ⟨.unlockShared u woken, _, trivial, hstep, workLeft_lt (by rw [hu]; decide) rfl⟩
  -- nobody holds the lock, so that every condition holds that the flag does not close
  have hempty : s.readers = 0 := hsound.readers_eq_zero_iff.mpr (not_exists.mp hreader)
  by_cases hqueued : ∃ u, s.point u = .queued
  · obtain ⟨u, hu⟩ := hqueued
    have hfree : s.waits u = none := hawake u (by rw [hu]; exact hempty)
    have hstep : Step s (.resume u) (s.moveTo u .exclusive) := by
      rw [Step, next, if_pos hfree, resume]
      simp only [hu]
      rw [passGate2, if_pos hempty]
      rfl
    exact ⟨.resume u, _, trivial, hstep, workLeft_lt (by rw [hu]; decide) rfl⟩
  have hunmarked : ¬s.writeEntered := by
    rw [hsound.writeEntered_iff]
    rintro ⟨u, hu | hu⟩
    · exact hqueued ⟨u, hu⟩
    · exact hwriter ⟨u, hu⟩
  have hroom : s.mState < maxReaders := by
    have hreaders := hsound.toNat_readers
    rw [hempty, ← hsound.counted.toNat_mod, UInt32.toNat_zero] at hreaders
    rw [writeEntered, and_writeEnteredBit_ne_zero] at hunmarked
    rw [UInt32.lt_iff_toNat_lt, toNat_maxReaders]
    omega
  cases hpoint : s.point t with
  | entering =>
      have hfree : s.waits t = none := hawake t (by rw [hpoint]; exact hunmarked)
      have hstep : Step s (.resume t)
          ({ s with mState := s.mState ||| writeEnteredBit }.moveTo t .exclusive) := by
        rw [Step, next, if_pos hfree, resume]
        simp only [hpoint]
        rw [passGate1, if_neg hunmarked, passGate2, readers_mark, if_pos hempty]
        rfl
      exact ⟨.resume t, _, trivial, hstep, workLeft_lt (by rw [hpoint]; decide) rfl⟩
  | enteringShared =>
      have hfree : s.waits t = none := hawake t (by rw [hpoint]; exact hroom)
      have hstep : Step s (.resume t)
          ({ s with mState := s.mState + 1 }.moveTo t .shared) := by
        rw [Step, next, if_pos hfree, resume]
        simp only [hpoint]
        rw [passShared, if_pos hroom]
        rfl
      exact ⟨.resume t, _, trivial, hstep, workLeft_lt (by rw [hpoint]; decide) rfl⟩
  | outside => exact absurd hpoint hbusy
  | queued => exact absurd ⟨t, hpoint⟩ hqueued
  | exclusive => exact absurd ⟨t, hpoint⟩ hwriter
  | shared => exact absurd ⟨t, hpoint⟩ hreader

/-- With few enough threads, every thread of every run can still get the lock and give it back: the
notifications that are made lead to a mutex that is free. -/
theorem can_empty (hrun : Reachable Step (create Thread) s)
    (hthreads : Fintype.card Thread ≤ 2 ^ 31) :
    ∃ s', GuardedRun Step (fun _ a => a.Ends) s s' ∧ ∀ t, s'.point t = .outside := by
  induction hwork : s.workLeft using Nat.strong_induction_on generalizing s with
  | _ n ih =>
      by_cases hbusy : ∃ t, s.point t ≠ .outside
      · obtain ⟨t, ht⟩ := hbusy
        obtain ⟨a, s₁, hends, hstep, hless⟩ :=
          exists_ending_step (Sound.reachable hrun) (allNotified_of_run hrun hthreads) ht
        obtain ⟨s', hrest, hout⟩ := ih s₁.workLeft (hwork ▸ hless) (hrun.next trivial hstep) rfl
        exact ⟨s', hrest.head hends hstep, hout⟩
      · refine ⟨s, .start, ?_⟩
        intro t
        by_contra ht
        exact hbusy ⟨t, ht⟩

/-- A reader holds the lock, and a writer and another reader wait. -/
theorem can_empty_three_threads :
    ∃ s s' : SharedMutexCv (Fin 3), s.waits 1 = some .gate2 ∧ s.waits 2 = some .gate1 ∧
      GuardedRun Step (fun _ a => a.Ends) s s' ∧ ∀ t, s'.point t = .outside := by
  have hshared : Step (create (Fin 3)) (.lockShared 0)
      ⟨1, ![.shared, .outside, .outside], ![none, none, none]⟩ := by decide
  have hqueued : Step ⟨1, ![.shared, .outside, .outside], ![none, none, none]⟩ (.lock 1)
      ⟨0x80000001, ![.shared, .queued, .outside], ![none, some .gate2, none]⟩ := by decide
  have hwaiting : Step ⟨0x80000001, ![.shared, .queued, .outside], ![none, some .gate2, none]⟩
      (.lockShared 2) ⟨0x80000001, ![.shared, .queued, .enteringShared],
        ![none, some .gate2, some .gate1]⟩ := by decide
  have hrun : Reachable Step (create (Fin 3)) _ :=
    ((GuardedRun.start.next trivial hshared).next trivial hqueued).next trivial hwaiting
  obtain ⟨s', hrest, hout⟩ := can_empty hrun (by decide)
  exact ⟨_, s', rfl, rfl, hrest, hout⟩

end SharedMutexCv

end CommonCommunicator
