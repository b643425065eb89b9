import Mathlib.Logic.Function.Basic

/-!
# Finite-map operations on partial functions

A map from keys to optional values, with insertion and removal of one key.
Lookup is application, so two maps are equal when they answer every key alike.
-/

namespace CommonCommunicator.Lib

/-- A partial map: `none` marks an absent key. -/
abbrev PartialMap (κ υ : Type*) := κ → Option υ

namespace PartialMap

variable {κ υ : Type*}

/-- The map without keys. -/
def empty : PartialMap κ υ := fun _ => none

@[simp] theorem empty_apply (k : κ) : (empty : PartialMap κ υ) k = none := rfl

variable [DecidableEq κ]

/-- Store `v` under `k`, replacing what was there. -/
def insert (m : PartialMap κ υ) (k : κ) (v : υ) : PartialMap κ υ := Function.update m k (some v)

/-- Remove `k`. -/
def erase (m : PartialMap κ υ) (k : κ) : PartialMap κ υ := Function.update m k none

@[simp] theorem insert_self (m : PartialMap κ υ) (k : κ) (v : υ) : m.insert k v k = some v :=
  Function.update_self ..

@[simp] theorem insert_of_ne {m : PartialMap κ υ} {k k' : κ} (v : υ) (h : k' ≠ k) :
    m.insert k v k' = m k' := Function.update_of_ne h ..

@[simp] theorem erase_self (m : PartialMap κ υ) (k : κ) : m.erase k k = none :=
  Function.update_self ..

@[simp] theorem erase_of_ne {m : PartialMap κ υ} {k k' : κ} (h : k' ≠ k) :
    m.erase k k' = m k' := Function.update_of_ne h ..

theorem insert_apply (m : PartialMap κ υ) (k k' : κ) (v : υ) :
    m.insert k v k' = if k' = k then some v else m k' := by
  by_cases h : k' = k
  · subst h; simp
  · simp [h]

theorem erase_apply (m : PartialMap κ υ) (k k' : κ) :
    m.erase k k' = if k' = k then none else m k' := by
  by_cases h : k' = k
  · subst h; simp
  · simp [h]

/-- Inserting an absent key and removing it again changes nothing. -/
theorem erase_insert {m : PartialMap κ υ} {k : κ} {v : υ} (h : m k = none) :
    (m.insert k v).erase k = m := by
  funext k'
  by_cases hk : k' = k
  · subst hk; simp [h]
  · simp [hk]

/-- What is left after a removal was there before it. -/
theorem of_erase_eq_some {m : PartialMap κ υ} {k k' : κ} {v : υ}
    (h : m.erase k k' = some v) : k' ≠ k ∧ m k' = some v := by
  by_cases hk : k' = k
  · subst hk; simp at h
  · exact ⟨hk, by simpa [hk] using h⟩

end PartialMap

end CommonCommunicator.Lib
