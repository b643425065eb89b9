import Mathlib.Data.List.Induction
import Mathlib.Data.List.Nodup

/-!
# The first element of each key

A store that takes an element only if it has none of that key yet holds the
first element of each key, in the order in which the keys first appeared.
-/

namespace CommonCommunicator.Lib

variable {α κ : Type*} [DecidableEq κ]

/-- The elements whose key has neither been seen nor stands further in front. -/
def firstsAfter (key : α → κ) : (seen : List κ) → List α → List α
  | _, [] => []
  | seen, a :: as =>
      if key a ∈ seen then firstsAfter key seen as
      else a :: firstsAfter key (key a :: seen) as

/-- The first element of each key. -/
def firsts (key : α → κ) (as : List α) : List α := firstsAfter key [] as

variable {key : α → κ}

theorem firstsAfter_snoc (seen : List κ) (as : List α) (a : α) :
    firstsAfter key seen (as ++ [a]) =
      firstsAfter key seen as ++ if key a ∈ seen ∨ key a ∈ as.map key then [] else [a] := by
  induction as generalizing seen with
  | nil => simp [firstsAfter]
  | cons b as ih =>
      rw [List.cons_append, firstsAfter, firstsAfter]
      by_cases hb : key b ∈ seen
      · have hsame : (key a ∈ seen ∨ key a ∈ as.map key) ↔
            key a ∈ seen ∨ key a ∈ (b :: as).map key := by
          rw [List.map_cons, List.mem_cons]
          constructor
          · rintro (h | h)
            · exact .inl h
            · exact .inr (.inr h)
          · rintro (h | h | h)
            · exact .inl h
            · exact .inl (h ▸ hb)
            · exact .inr h
        rw [if_pos hb, if_pos hb, ih]
        simp only [hsame]
      · have hsame : (key a ∈ key b :: seen ∨ key a ∈ as.map key) ↔
            key a ∈ seen ∨ key a ∈ (b :: as).map key := by
          rw [List.map_cons, List.mem_cons, List.mem_cons]
          tauto
        rw [if_neg hb, if_neg hb, ih, List.cons_append]
        simp only [hsame]

/-- A further element is one of the firsts exactly if its key is new. -/
theorem firsts_snoc (as : List α) (a : α) :
    firsts key (as ++ [a]) = firsts key as ++ if key a ∈ as.map key then [] else [a] := by
  rw [firsts, firstsAfter_snoc, firsts]
  simp

theorem firsts_sublist (as : List α) : (firsts key as).Sublist as := by
  induction as using List.reverseRecOn with
  | nil => exact List.Sublist.slnil
  | append_singleton as a ih =>
      rw [firsts_snoc]
      apply ih.append
      split
      · exact List.nil_sublist _
      · exact List.Sublist.refl _

/-- Every key has its first element. -/
theorem mem_map_firsts {k : κ} (as : List α) :
    k ∈ (firsts key as).map key ↔ k ∈ as.map key := by
  induction as using List.reverseRecOn with
  | nil => exact Iff.rfl
  | append_singleton as a ih =>
      rw [firsts_snoc, List.map_append, List.map_append, List.mem_append, List.mem_append, ih]
      by_cases ha : key a ∈ as.map key
      · rw [if_pos ha]
        constructor
        · exact fun h => .inl (h.resolve_right (by simp))
        · rintro (h | h)
          · exact .inl h
          · rw [List.map_singleton, List.mem_singleton] at h
            exact .inl (h ▸ ha)
      · rw [if_neg ha]

/-- No key has two. -/
theorem nodup_map_firsts (as : List α) : ((firsts key as).map key).Nodup := by
  induction as using List.reverseRecOn with
  | nil => exact List.nodup_nil
  | append_singleton as a ih =>
      rw [firsts_snoc]
      by_cases ha : key a ∈ as.map key
      · rw [if_pos ha, List.append_nil]
        exact ih
      · rw [if_neg ha, List.map_append, List.map_singleton]
        apply List.nodup_append.mpr
        refine ⟨ih, List.nodup_singleton _, ?_⟩
        rintro k hk _ hsingle rfl
        rw [List.mem_singleton] at hsingle
        exact ha (hsingle ▸ (mem_map_firsts as).mp hk)

/-- A search by key finds the first element of all. -/
theorem find?_firsts (k : κ) (as : List α) :
    (firsts key as).find? (fun a => key a = k) = as.find? fun a => key a = k := by
  induction as using List.reverseRecOn with
  | nil => rfl
  | append_singleton as a ih =>
      rw [firsts_snoc, List.find?_append, List.find?_append, ih]
      by_cases ha : key a ∈ as.map key
      · rw [if_pos ha]
        by_cases hk : key a = k
        · obtain ⟨b, hb, hkey⟩ := List.mem_map.mp ha
          have hfound : (as.find? fun a => key a = k).isSome := by
            rw [List.find?_isSome]
            exact ⟨b, hb, by simp [hkey, hk]⟩
          obtain ⟨c, hc⟩ := Option.isSome_iff_exists.mp hfound
          rw [hc]
          rfl
        · simp [hk]
      · rw [if_neg ha]

/-- Only the keys of the elements matter. -/
theorem firsts_congr {key' : α → κ} {as : List α} (h : ∀ a ∈ as, key a = key' a) :
    firsts key as = firsts key' as := by
  induction as using List.reverseRecOn with
  | nil => rfl
  | append_singleton as a ih =>
      have has : ∀ b ∈ as, key b = key' b := fun b hb => h b (List.mem_append_left _ hb)
      rw [firsts_snoc, firsts_snoc, ih has, List.map_congr_left has,
        h a (List.mem_append_right _ (List.mem_singleton_self a))]

/-- Where no key appears twice, every element is the first of its key. -/
theorem firsts_of_nodup {as : List α} (h : (as.map key).Nodup) : firsts key as = as := by
  induction as using List.reverseRecOn with
  | nil => rfl
  | append_singleton as a ih =>
      rw [List.map_append, List.map_singleton, List.nodup_append] at h
      have hnew : key a ∉ as.map key := fun hmem => h.2.2 _ hmem _ (List.mem_singleton_self _) rfl
      rw [firsts_snoc, if_neg hnew, ih h.1]

end CommonCommunicator.Lib
