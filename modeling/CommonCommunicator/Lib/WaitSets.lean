import CommonCommunicator.Lib.PartialMap
import Mathlib.Data.Fintype.Basic

/-!
# Condition variables

The wait sets of the condition variables of one mutex say where a thread waits, if it waits at
all. A thread that has been notified is in no wait set: it competes for the mutex again and checks
its condition there. A notification is missing where a thread waits for something that holds.
-/

namespace CommonCommunicator.Lib

/-- The condition variable that a thread waits on. -/
abbrev WaitSets (Thread Gate : Type*) := PartialMap Thread Gate

namespace WaitSets

variable {Thread Gate : Type*} [DecidableEq Gate] {waits waits' : WaitSets Thread Gate}

/-- `notify_all`. -/
def notifyAll (waits : WaitSets Thread Gate) (gate : Gate) : WaitSets Thread Gate :=
  fun t => if waits t = some gate then none else waits t

/-- `notify_one`, of the thread that the scheduler chooses, or of none if no thread waits. -/
def notifyOne [Fintype Thread] [DecidableEq Thread] (waits : WaitSets Thread Gate) (gate : Gate) :
    Option Thread → Option (WaitSets Thread Gate)
  | some t => if waits t = some gate then some (waits.erase t) else none
  | none => if ∀ t, waits t ≠ some gate then some waits else none

/-- No thread waits for a condition that holds. -/
def NoneMissing (waits : WaitSets Thread Gate) (ready : Thread → Prop) : Prop :=
  ∀ t gate, waits t = some gate → ¬ready t

theorem notifyAll_eq_some {gate gate' : Gate} {t : Thread} :
    waits.notifyAll gate t = some gate' ↔ waits t = some gate' ∧ gate' ≠ gate := by
  rw [notifyAll]
  split
  · next h => simp [h, eq_comm]
  · next h =>
      refine ⟨fun h' => ⟨h', ?_⟩, And.left⟩
      rintro rfl
      exact h h'

variable [DecidableEq Thread]

theorem of_notifyOne [Fintype Thread] {gate gate' : Gate} {woken : Option Thread} {t : Thread}
    (h : waits.notifyOne gate woken = some waits') (ht : waits' t = some gate') :
    waits t = some gate' ∧ woken ≠ some t := by
  cases woken with
  | some u =>
      obtain ⟨-, hleft⟩ := Option.ite_none_right_eq_some.mp h
      obtain rfl := Option.some.inj hleft
      obtain ⟨hne, hold⟩ := PartialMap.of_erase_eq_some ht
      exact ⟨hold, fun heq => hne (Option.some.inj heq).symm⟩
  | none =>
      obtain ⟨-, hsame⟩ := Option.ite_none_right_eq_some.mp h
      obtain rfl := Option.some.inj hsame
      exact ⟨ht, (Option.some_ne_none t).symm⟩

/-- There is always a thread to choose, or none that waits. -/
theorem exists_notifyOne [Fintype Thread] (waits : WaitSets Thread Gate) (gate : Gate) :
    ∃ woken waits', waits.notifyOne gate woken = some waits' := by
  by_cases h : ∃ t, waits t = some gate
  · obtain ⟨t, ht⟩ := h
    exact ⟨some t, waits.erase t, if_pos ht⟩
  · exact ⟨none, waits, if_pos (not_exists.mp h)⟩

/-- Where at most one thread waits, `notify_one` leaves none. -/
theorem notifyOne_empties [Fintype Thread] {gate : Gate} {woken : Option Thread}
    (h : waits.notifyOne gate woken = some waits')
    (hone : ∀ t u, waits t = some gate → waits u = some gate → t = u) (t : Thread) :
    waits' t ≠ some gate := by
  intro ht
  obtain ⟨hold, hwoken⟩ := of_notifyOne h ht
  cases woken with
  | some u =>
      obtain ⟨hu, -⟩ := Option.ite_none_right_eq_some.mp h
      exact hwoken (congrArg some (hone u t hu hold))
  | none => exact (Option.ite_none_right_eq_some.mp h).1 t hold

namespace NoneMissing

variable {ready ready' : Thread → Prop}

omit [DecidableEq Gate] [DecidableEq Thread] in
/-- Fewer threads wait, and no condition has come true for them. -/
theorem mono (h : waits.NoneMissing ready)
    (hless : ∀ t gate, waits' t = some gate → waits t = some gate ∧ (ready' t → ready t)) :
    waits'.NoneMissing ready' := by
  intro t gate ht hready
  obtain ⟨hold, hcame⟩ := hless t gate ht
  exact h t gate hold (hcame hready)

omit [DecidableEq Gate] in
/-- A thread begins to wait for a condition that does not hold. -/
theorem insert (h : waits.NoneMissing ready) {t : Thread} {gate : Gate} (ht : ¬ready' t)
    (hsame : ∀ u gate, u ≠ t → waits u = some gate → ready' u → ready u) :
    NoneMissing (PartialMap.insert waits t gate) ready' := by
  intro u gate' hu
  rw [PartialMap.insert_apply] at hu
  split at hu
  · next heq => rwa [heq]
  · next hne => exact fun hready => h u gate' hu (hsame u gate' hne hu hready)

end NoneMissing

end WaitSets

end CommonCommunicator.Lib
