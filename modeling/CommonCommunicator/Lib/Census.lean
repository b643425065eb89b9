import Mathlib.Data.Fintype.Card
import Mathlib.Logic.Function.Basic

/-!
# Counting threads

How many threads of a finite set stand where a predicate holds, and how this number changes when
one thread moves.
-/

namespace CommonCommunicator.Lib

variable {Thread α : Type*} [Fintype Thread]

/-- The number of threads that stand at a place with this property. -/
def census (place : Thread → α) (P : α → Prop) [DecidablePred P] : Nat :=
  (Finset.univ.filter fun t => P (place t)).card

namespace Census

variable {place : Thread → α} {P : α → Prop} [DecidablePred P] {t u : Thread}

theorem eq_zero_iff : census place P = 0 ↔ ∀ t, ¬P (place t) := by
  rw [census, Finset.card_eq_zero, Finset.filter_eq_empty_iff]
  exact ⟨fun h t => h (Finset.mem_univ t), fun h t _ => h t⟩

theorem pos_iff : 0 < census place P ↔ ∃ t, P (place t) := by
  rw [Nat.pos_iff_ne_zero, ne_eq, eq_zero_iff, not_forall]
  exact exists_congr fun _ => not_not

theorem unique (h : census place P ≤ 1) (ht : P (place t)) (hu : P (place u)) : t = u :=
  Finset.card_le_one.mp h t (Finset.mem_filter.mpr ⟨Finset.mem_univ t, ht⟩) u
    (Finset.mem_filter.mpr ⟨Finset.mem_univ u, hu⟩)

variable [DecidableEq Thread]

/-- A thread that moves is counted at its new place and no longer at its old one. -/
theorem update_add (place : Thread → α) (P : α → Prop) [DecidablePred P] (t : Thread) (a : α) :
    census (Function.update place t a) P + (if P (place t) then 1 else 0) =
      census place P + (if P a then 1 else 0) := by
  have hsplit : ∀ f : Thread → α, census f P =
      ((Finset.univ.erase t).filter fun u => P (f u)).card + (if P (f t) then 1 else 0) := by
    intro f
    rw [census, ← Finset.insert_erase (Finset.mem_univ t), Finset.filter_insert,
      Finset.erase_insert_eq_erase]
    split
    · rw [Finset.card_insert_of_notMem]
      · rw [Finset.erase_idem]
      · simp
    · simp
  have hrest : ((Finset.univ.erase t).filter fun u => P (Function.update place t a u)).card =
      ((Finset.univ.erase t).filter fun u => P (place u)).card := by
    congr 1
    apply Finset.filter_congr
    intro u hu
    rw [Function.update_of_ne (Finset.ne_of_mem_erase hu)]
  rw [hsplit place, hsplit (Function.update place t a), hrest, Function.update_self]
  omega

theorem update_of_pos {a : α} (ht : P (place t)) (ha : P a) :
    census (Function.update place t a) P = census place P := by
  have h := update_add place P t a
  rw [if_pos ht, if_pos ha] at h
  omega

theorem update_of_neg {a : α} (ht : ¬P (place t)) (ha : ¬P a) :
    census (Function.update place t a) P = census place P := by
  have h := update_add place P t a
  rwa [if_neg ht, if_neg ha] at h

theorem update_enters {a : α} (ht : ¬P (place t)) (ha : P a) :
    census (Function.update place t a) P = census place P + 1 := by
  have h := update_add place P t a
  rwa [if_neg ht, if_pos ha] at h

theorem update_leaves {a : α} (ht : P (place t)) (ha : ¬P a) :
    census (Function.update place t a) P + 1 = census place P := by
  have h := update_add place P t a
  rwa [if_pos ht, if_neg ha] at h

/-- Threads without the property are not counted. -/
theorem add_card_le (s : Finset Thread) (h : ∀ t ∈ s, ¬P (place t)) :
    census place P + s.card ≤ Fintype.card Thread := by
  rw [census, ← Finset.card_union_of_disjoint]
  · exact Finset.card_le_univ _
  · rw [Finset.disjoint_left]
    intro t ht hs
    exact h t hs (Finset.mem_filter.mp ht).2

end Census

end CommonCommunicator.Lib
