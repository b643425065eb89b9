import Mathlib.Data.List.Perm.Subperm
import Mathlib.Data.List.Perm.Basic

/-!
# A network that loses, copies and reorders

The items on the way are a list out of which any position can be taken, lost or
copied. Whatever happens, what is on the way, was taken and was lost is what was
sent and copied.
-/

namespace CommonCommunicator.Lib

variable {α : Type*}

/-- A network with all that was sent, taken, lost and copied so far. -/
structure LossyNetwork (α : Type*) where
  sent : List α
  wire : List α
  taken : List α
  lost : List α
  copied : List α

namespace LossyNetwork

/-- Nothing was sent yet. -/
def empty : LossyNetwork α := { sent := [], wire := [], taken := [], lost := [], copied := [] }

/-- An item sets out. -/
def send (n : LossyNetwork α) (a : α) : LossyNetwork α :=
  { n with sent := n.sent ++ [a], wire := n.wire ++ [a] }

/-- The item at a position is delivered. -/
def take (n : LossyNetwork α) (i : Nat) : Option (α × LossyNetwork α) :=
  n.wire[i]?.map fun a => (a, { n with wire := n.wire.eraseIdx i, taken := n.taken ++ [a] })

/-- The item at a position is lost. -/
def lose (n : LossyNetwork α) (i : Nat) : Option (LossyNetwork α) :=
  n.wire[i]?.map fun a => { n with wire := n.wire.eraseIdx i, lost := n.lost ++ [a] }

/-- The item at a position is there once more. -/
def copy (n : LossyNetwork α) (i : Nat) : Option (LossyNetwork α) :=
  n.wire[i]?.map fun a => { n with wire := n.wire ++ [a], copied := n.copied ++ [a] }

/-- Every item is accounted for, and only what was sent is copied. -/
structure Conserved (n : LossyNetwork α) : Prop where
  perm : (n.wire ++ (n.taken ++ n.lost)).Perm (n.sent ++ n.copied)
  copied : ∀ a ∈ n.copied, a ∈ n.sent

variable {n n' : LossyNetwork α} {a : α} {i : Nat}

namespace Conserved

theorem empty : (empty : LossyNetwork α).Conserved := ⟨.nil, fun _ h => by cases h⟩

/-- What is on the way or was taken was sent. -/
theorem mem_sent (h : n.Conserved) (hmem : a ∈ n.wire ∨ a ∈ n.taken) : a ∈ n.sent := by
  have hall : a ∈ n.wire ++ (n.taken ++ n.lost) := by
    obtain hwire | htaken := hmem
    · exact List.mem_append_left _ hwire
    · exact List.mem_append_right _ (List.mem_append_left _ htaken)
  obtain hsent | hcopied := List.mem_append.mp (h.perm.mem_iff.mp hall)
  · exact hsent
  · exact h.copied a hcopied

theorem send (h : n.Conserved) (a : α) : (n.send a).Conserved where
  perm := by
    have hleft : (n.wire ++ [a] ++ (n.taken ++ n.lost)).Perm
        (a :: (n.wire ++ (n.taken ++ n.lost))) := by
      rw [List.append_assoc]
      exact List.perm_middle
    have hright : (n.sent ++ [a] ++ n.copied).Perm (a :: (n.sent ++ n.copied)) := by
      rw [List.append_assoc]
      exact List.perm_middle
    exact hleft.trans ((h.perm.cons a).trans hright.symm)
  copied b hmem := List.mem_append_left _ (h.copied b hmem)

theorem take (h : n.Conserved) (htake : n.take i = some (a, n')) : n'.Conserved := by
  obtain ⟨b, hget, heq⟩ := Option.map_eq_some_iff.mp htake
  obtain ⟨rfl, rfl⟩ := Prod.mk.inj heq
  obtain ⟨hi, rfl⟩ := List.getElem?_eq_some_iff.mp hget
  refine ⟨?_, h.copied⟩
  have hmoved : (n.wire.eraseIdx i ++ (n.taken ++ [n.wire[i]] ++ n.lost)).Perm
      (n.wire[i] :: n.wire.eraseIdx i ++ (n.taken ++ n.lost)) := by
    rw [List.append_assoc n.taken, List.singleton_append]
    exact (List.perm_middle.append_left _).trans List.perm_middle
  exact hmoved.trans (((List.getElem_cons_eraseIdx_perm hi).append_right _).trans h.perm)

theorem lose (h : n.Conserved) (hlose : n.lose i = some n') : n'.Conserved := by
  obtain ⟨b, hget, rfl⟩ := Option.map_eq_some_iff.mp hlose
  obtain ⟨hi, rfl⟩ := List.getElem?_eq_some_iff.mp hget
  refine ⟨?_, h.copied⟩
  have hmoved : (n.wire.eraseIdx i ++ (n.taken ++ (n.lost ++ [n.wire[i]]))).Perm
      (n.wire[i] :: n.wire.eraseIdx i ++ (n.taken ++ n.lost)) := by
    rw [← List.append_assoc, ← List.append_assoc]
    exact (List.perm_append_singleton _ _).trans (by rw [List.append_assoc, List.cons_append])
  exact hmoved.trans (((List.getElem_cons_eraseIdx_perm hi).append_right _).trans h.perm)

theorem copy (h : n.Conserved) (hcopy : n.copy i = some n') : n'.Conserved := by
  obtain ⟨b, hget, rfl⟩ := Option.map_eq_some_iff.mp hcopy
  have hwire : b ∈ n.wire := List.mem_of_getElem? hget
  constructor
  · have hleft : (n.wire ++ [b] ++ (n.taken ++ n.lost)).Perm
        (b :: (n.wire ++ (n.taken ++ n.lost))) := by
      rw [List.append_assoc]
      exact List.perm_middle
    have hright : (n.sent ++ (n.copied ++ [b])).Perm (b :: (n.sent ++ n.copied)) := by
      rw [← List.append_assoc]
      exact List.perm_append_singleton _ _
    exact hleft.trans ((h.perm.cons b).trans hright.symm)
  · intro c hmem
    obtain hold | hnew := List.mem_append.mp hmem
    · exact h.copied c hold
    · rw [List.mem_singleton.mp hnew]
      exact h.mem_sent (.inl hwire)

variable (p : α → Bool)

end Conserved

end LossyNetwork

end CommonCommunicator.Lib
