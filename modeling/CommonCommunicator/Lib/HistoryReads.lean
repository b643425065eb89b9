import Mathlib.Data.List.Basic

/-!
# Reads of a history

A variable takes one value after the other, and a reader reads its present value
now and then. What has been read is in the order of the values: the reads are at
places of the history that never go back, some values are read repeatedly and
some not at all.
-/

namespace CommonCommunicator.Lib

variable {α : Type*} {history reads : List α} {a b : α}

/-- The reads are values of the history in its order. -/
def ReadsOf (history reads : List α) : Prop :=
  ∃ places : List Nat, places.Pairwise (· ≤ ·) ∧
    places.map (fun place => history[place]?) = reads.map some

namespace ReadsOf

private theorem lt_length {places : List Nat}
    (hplaces : places.map (fun place => history[place]?) = reads.map some) :
    ∀ place ∈ places, place < history.length := by
  intro place hplace
  have hsome : history[place]? ∈ reads.map some := by
    rw [← hplaces]
    exact List.mem_map_of_mem hplace
  obtain ⟨read, -, hread⟩ := List.mem_map.mp hsome
  exact (List.getElem?_eq_some_iff.mp hread.symm).1

theorem nil (history : List α) : ReadsOf history [] := ⟨[], .nil, rfl⟩

/-- Only what was a value is read. -/
theorem mem (h : ReadsOf history reads) (hread : a ∈ reads) : a ∈ history := by
  obtain ⟨places, -, hplaces⟩ := h
  have hsome : some a ∈ places.map fun place => history[place]? := by
    rw [hplaces]
    exact List.mem_map_of_mem hread
  obtain ⟨place, -, hplace⟩ := List.mem_map.mp hsome
  exact List.mem_of_getElem? hplace

/-- Reads stay where they are when the variable takes further values. -/
theorem grow (h : ReadsOf history reads) (later : List α) :
    ReadsOf (history ++ later) reads := by
  obtain ⟨places, hsorted, hplaces⟩ := h
  refine ⟨places, hsorted, ?_⟩
  rw [← hplaces]
  refine List.map_congr_left fun place hplace => ?_
  exact List.getElem?_append_left (lt_length hplaces place hplace)

/-- Some of the reads are reads. -/
theorem sublist (h : ReadsOf history reads) {reads' : List α} (hsub : reads'.Sublist reads) :
    ReadsOf history reads' := by
  obtain ⟨places, hsorted, hplaces⟩ := h
  have hsome : (reads'.map some).Sublist (places.map fun place => history[place]?) := by
    rw [hplaces]
    exact hsub.map some
  obtain ⟨places', hplaces', heq⟩ := List.sublist_map_iff.mp hsome
  exact ⟨places', hsorted.sublist hplaces', heq.symm⟩

/-- The present value is read. -/
theorem last (h : ReadsOf history reads) (hlast : history.getLast? = some a) :
    ReadsOf history (reads ++ [a]) := by
  obtain ⟨places, hsorted, hplaces⟩ := h
  refine ⟨places ++ [history.length - 1], ?_, ?_⟩
  · refine List.pairwise_append.mpr ⟨hsorted, List.pairwise_singleton .., ?_⟩
    intro place hplace final hfinal
    obtain rfl := List.mem_singleton.mp hfinal
    exact Nat.le_pred_of_lt (lt_length hplaces place hplace)
  · rw [List.map_append, List.map_append, hplaces, List.map_singleton, List.map_singleton,
      ← List.getLast?_eq_getElem?, hlast]

/-- A read counts once more at its own place. -/
theorem again {before after : List α} (h : ReadsOf history (before ++ a :: after)) :
    ReadsOf history (before ++ a :: a :: after) := by
  obtain ⟨places, hsorted, hplaces⟩ := h
  rw [List.map_append, List.map_cons] at hplaces
  obtain ⟨earlier, rest, rfl, hearlier, hrest⟩ := List.map_eq_append_iff.mp hplaces
  obtain ⟨place, later, rfl, hplace, hlater⟩ := List.map_eq_cons_iff.mp hrest
  refine ⟨earlier ++ place :: place :: later, ?_, by simp [hearlier, hplace, hlater]⟩
  obtain ⟨hbefore, hplaced, hcross⟩ := List.pairwise_append.mp hsorted
  refine List.pairwise_append.mpr ⟨hbefore, ?_, ?_⟩
  · refine List.pairwise_cons.mpr ⟨?_, hplaced⟩
    intro next hnext
    obtain rfl | hnext := List.mem_cons.mp hnext
    · exact Nat.le_refl _
    · exact (List.pairwise_cons.mp hplaced).1 next hnext
  · intro first hfirst next hnext
    obtain rfl | hnext := List.mem_cons.mp hnext
    · exact hcross first hfirst _ List.mem_cons_self
    · exact hcross first hfirst next hnext

/-- The reads of the first value come first. -/
theorem of_cons (h : ReadsOf (a :: history) reads) :
    ∃ n later, reads = List.replicate n a ++ later ∧ ReadsOf history later := by
  obtain ⟨places, hsorted, hplaces⟩ := h
  induction places generalizing reads with
  | nil =>
      obtain rfl : reads = [] := by simpa using hplaces.symm
      exact ⟨0, [], rfl, .nil history⟩
  | cons place places ih =>
      obtain ⟨hle, hrest⟩ := List.pairwise_cons.mp hsorted
      cases place with
      | zero =>
          cases reads with
          | nil => simp at hplaces
          | cons read reads =>
              obtain ⟨rfl, htail⟩ : a = read ∧
                  places.map (fun place => (a :: history)[place]?) = reads.map some := by
                simpa using hplaces
              obtain ⟨n, later, rfl, hlater⟩ := ih hrest htail
              exact ⟨n + 1, later, rfl, hlater⟩
      | succ place =>
          -- no place can be the first one any more
          refine ⟨0, reads, rfl, (place :: places.map Nat.pred), ?_, ?_⟩
          · rw [List.pairwise_cons, List.forall_mem_map, List.pairwise_map]
            refine ⟨fun next hnext => Nat.le_pred_of_lt (hle next hnext), ?_⟩
            exact hrest.imp fun hle => Nat.pred_le_pred hle
          · rw [← hplaces, List.map_cons, List.map_cons, List.getElem?_cons_succ, List.map_map]
            congr 1
            refine List.map_congr_left fun next hnext => ?_
            obtain ⟨next, rfl⟩ : ∃ n, next = n + 1 :=
              Nat.exists_eq_succ_of_ne_zero (by have := hle next hnext; omega)
            simp

/-- Two values are read one after the other. -/
theorem of_pair (h : ReadsOf [a, b] reads) :
    ∃ n k, reads = List.replicate n a ++ List.replicate k b := by
  obtain ⟨n, later, rfl, hlater⟩ := h.of_cons
  obtain ⟨k, rest, rfl, hrest⟩ := hlater.of_cons
  obtain rfl : rest = [] := List.eq_nil_iff_forall_not_mem.mpr fun a ha => by cases hrest.mem ha
  exact ⟨n, k, by rw [List.append_nil]⟩

end ReadsOf

end CommonCommunicator.Lib
