import Mathlib.Data.List.Pairwise
import Mathlib.Order.Defs.Unbundled
import Mathlib.Order.Lattice
import Mathlib.Order.RelClasses

/-!
# Maps over a comparator that may fail

A map whose keys are told apart by a comparator is kept as a list in the order
of the comparator. A search walks up to the first key that is not below the
searched one; every comparison on the way may fail, and so fails the search. On
keys that have a rank the comparator compares ranks, and the map is a partial
map from ranks.
-/

namespace CommonCommunicator.Lib

variable {κ υ ρ ε : Type}

/-- The comparator puts `a` below `b`. -/
def Below (less : κ → κ → Except ε Bool) (a b : κ) : Prop := less a b = .ok true

/-- The comparator puts neither key below the other. -/
def Equivalent (less : κ → κ → Except ε Bool) (a b : κ) : Prop :=
  less a b = .ok false ∧ less b a = .ok false

/-- The comparator does not fail on these keys, and is a strict weak order there. -/
structure StrictWeakOrderOn (less : κ → κ → Except ε Bool) (domain : κ → Prop) : Prop where
  returns : ∀ a b, domain a → domain b → ∃ r, less a b = .ok r
  weakOrder : IsStrictWeakOrder {a // domain a} fun a b => Below less a b

/-- The comparator compares the ranks of these keys. -/
def RankedOn [LinearOrder ρ] (less : κ → κ → Except ε Bool) (domain : κ → Prop)
    (rank : κ → ρ) : Prop :=
  ∀ a b, domain a → domain b → less a b = .ok (decide (rank a < rank b))

namespace RankedOn

variable [LinearOrder ρ] {less : κ → κ → Except ε Bool} {domain : κ → Prop} {rank : κ → ρ}
  {a b : κ}

theorem below_iff (h : RankedOn less domain rank) (ha : domain a) (hb : domain b) :
    Below less a b ↔ rank a < rank b := by
  rw [Below, h a b ha hb]
  simp

theorem equivalent_iff (h : RankedOn less domain rank) (ha : domain a) (hb : domain b) :
    Equivalent less a b ↔ rank a = rank b := by
  rw [Equivalent, h a b ha hb, h b a hb ha]
  simp only [Except.ok.injEq, decide_eq_false_iff_not, not_lt]
  exact ⟨fun hle => le_antisymm hle.2 hle.1, fun heq => ⟨heq.ge, heq.le⟩⟩

/-- Comparing ranks is a strict weak order. -/
theorem strictWeakOrderOn (h : RankedOn less domain rank) : StrictWeakOrderOn less domain := by
  have hpull : (fun a b : {a // domain a} => Below less a.1 b.1) =
      fun a b : {a // domain a} => rank a.1 < rank b.1 := by
    funext a b
    exact propext (h.below_iff a.2 b.2)
  constructor
  · exact fun a b ha hb => ⟨_, h a b ha hb⟩
  · rw [hpull]
    exact
      { irrefl := fun a => lt_irrefl (rank a.1)
        trans := fun a b c => lt_trans
        incomp_trans := by
          intro a b c hab hbc
          have heq : rank a.1 = rank b.1 := le_antisymm (not_lt.mp hab.2) (not_lt.mp hab.1)
          rw [heq]
          exact hbc }

end RankedOn

namespace ComparedMap

variable (less : κ → κ → Except ε Bool)

/-- The entry whose key is equivalent to `k`. -/
def find (k : κ) : List (κ × υ) → Except ε (Option (κ × υ))
  | [] => .ok none
  | entry :: rest => do
      if ← less entry.1 k then find k rest
      else if ← less k entry.1 then return none
      else return some entry

/-- The map with a new entry; an equivalent key keeps its old one. -/
def insert (k : κ) (v : υ) : List (κ × υ) → Except ε (List (κ × υ))
  | [] => .ok [(k, v)]
  | entry :: rest => do
      if ← less entry.1 k then
        let rest ← insert k v rest
        return entry :: rest
      else if ← less k entry.1 then return (k, v) :: entry :: rest
      else return entry :: rest

/-- All keys have a rank, and the ranks increase. -/
structure Sorted [LinearOrder ρ] (domain : κ → Prop) (rank : κ → ρ) (entries : List (κ × υ)) :
    Prop where
  ranked : ∀ entry ∈ entries, domain entry.1
  increasing : entries.Pairwise fun entry entry' => rank entry.1 < rank entry'.1

section

variable {less} [LinearOrder ρ] {domain : κ → Prop} {rank : κ → ρ} {entries : List (κ × υ)}
  {k : κ} {v : υ}

theorem sorted_nil : Sorted domain rank ([] : List (κ × υ)) :=
  ⟨fun _ hmem => absurd hmem List.not_mem_nil, List.Pairwise.nil⟩

theorem sorted_cons {entry : κ × υ} :
    Sorted domain rank (entry :: entries) ↔
      domain entry.1 ∧ (∀ entry' ∈ entries, rank entry.1 < rank entry'.1) ∧
        Sorted domain rank entries := by
  constructor
  · rintro ⟨hranked, hincreasing⟩
    rw [List.pairwise_cons] at hincreasing
    refine ⟨hranked entry (List.mem_cons_self ..), hincreasing.1, ?_, hincreasing.2⟩
    exact fun entry' hmem => hranked entry' (List.mem_cons_of_mem _ hmem)
  · rintro ⟨hentry, hbelow, hranked, hincreasing⟩
    refine ⟨?_, List.pairwise_cons.mpr ⟨hbelow, hincreasing⟩⟩
    intro entry' hmem
    obtain rfl | hmem := List.mem_cons.mp hmem
    · exact hentry
    · exact hranked entry' hmem

/-- A search in a sorted map finds the entry of the same rank. -/
theorem find_spec (hless : RankedOn less domain rank) (hsorted : Sorted domain rank entries)
    (hk : domain k) :
    ∃ found, find less k entries = .ok found ∧
      ∀ entry, found = some entry ↔ entry ∈ entries ∧ rank entry.1 = rank k := by
  induction entries with
  | nil => exact ⟨none, rfl, by simp⟩
  | cons first rest ih =>
      obtain ⟨hfirst, hbelow, hrest⟩ := sorted_cons.mp hsorted
      obtain ⟨found, hfound, hspec⟩ := ih hrest
      rw [find, hless _ _ hfirst hk, hless _ _ hk hfirst]
      obtain hlt | heq | hgt := lt_trichotomy (rank first.1) (rank k)
      · refine ⟨found, ?_, ?_⟩
        · rw [decide_eq_true hlt]
          exact hfound
        · intro entry
          rw [hspec, List.mem_cons]
          constructor
          · exact fun hmem => ⟨Or.inr hmem.1, hmem.2⟩
          · rintro ⟨rfl | hmem, heq⟩
            · exact absurd heq hlt.ne
            · exact ⟨hmem, heq⟩
      · refine ⟨some first, ?_, ?_⟩
        · rw [decide_eq_false heq.not_lt, decide_eq_false heq.not_gt]
          rfl
        · intro entry
          rw [Option.some.injEq, List.mem_cons]
          constructor
          · rintro rfl
            exact ⟨Or.inl rfl, heq⟩
          · rintro ⟨hentry | hmem, hrank⟩
            · exact hentry.symm
            · have hlt := hbelow entry hmem
              rw [heq, hrank] at hlt
              exact absurd hlt (lt_irrefl _)
      · refine ⟨none, ?_, ?_⟩
        · rw [decide_eq_false hgt.not_gt, decide_eq_true hgt]
          rfl
        · intro entry
          rw [List.mem_cons]
          constructor
          · intro hnone
            cases hnone
          · rintro ⟨rfl | hmem, hrank⟩
            · exact absurd hrank hgt.ne'
            · exact absurd hrank (hgt.trans (hbelow entry hmem)).ne'

/-- The entry of a rank. -/
def lookup (rank : κ → ρ) (entries : List (κ × υ)) (r : ρ) : Option (κ × υ) :=
  entries.find? fun entry => rank entry.1 = r

/-- In a sorted map no two entries have the same rank. -/
theorem lookup_eq_some_iff (hsorted : Sorted domain rank entries) {r : ρ} {entry : κ × υ} :
    lookup rank entries r = some entry ↔ entry ∈ entries ∧ rank entry.1 = r := by
  induction entries with
  | nil => simp [lookup]
  | cons first rest ih =>
      obtain ⟨-, hbelow, hrest⟩ := sorted_cons.mp hsorted
      by_cases hfirst : rank first.1 = r
      · rw [lookup, List.find?_cons_of_pos (by simpa using hfirst), Option.some.injEq,
          List.mem_cons]
        constructor
        · rintro rfl
          exact ⟨Or.inl rfl, hfirst⟩
        · rintro ⟨rfl | hmem, hrank⟩
          · rfl
          · exact absurd (hfirst.trans hrank.symm) (hbelow entry hmem).ne
      · rw [lookup, List.find?_cons_of_neg (by simpa using hfirst), ← lookup, ih hrest,
          List.mem_cons]
        constructor
        · exact fun hmem => ⟨Or.inr hmem.1, hmem.2⟩
        · rintro ⟨rfl | hmem, hrank⟩
          · exact absurd hrank hfirst
          · exact ⟨hmem, hrank⟩

/-- A search is a look at the rank. -/
theorem find_eq_lookup (hless : RankedOn less domain rank) (hsorted : Sorted domain rank entries)
    (hk : domain k) : find less k entries = .ok (lookup rank entries (rank k)) := by
  obtain ⟨found, hfound, hspec⟩ := find_spec hless hsorted hk
  have hlookup : found = lookup rank entries (rank k) := by
    ext entry
    rw [hspec, lookup_eq_some_iff hsorted]
  rw [hfound, hlookup]

/-- A new rank is stored at its place. -/
theorem insert_spec (hless : RankedOn less domain rank) (hsorted : Sorted domain rank entries)
    (hk : domain k) (hnew : ∀ entry ∈ entries, rank entry.1 ≠ rank k) (v : υ) :
    ∃ entries', insert less k v entries = .ok entries' ∧ Sorted domain rank entries' ∧
      ∀ entry, entry ∈ entries' ↔ entry = (k, v) ∨ entry ∈ entries := by
  induction entries with
  | nil =>
      refine ⟨[(k, v)], rfl, sorted_cons.mpr ⟨hk, ?_, sorted_nil⟩, by simp⟩
      exact fun entry hmem => absurd hmem List.not_mem_nil
  | cons first rest ih =>
      obtain ⟨hfirst, hbelow, hrest⟩ := sorted_cons.mp hsorted
      obtain ⟨entries', hinsert, hsorted', hmem⟩ :=
        ih hrest fun entry hmem => hnew entry (List.mem_cons_of_mem _ hmem)
      rw [insert, hless _ _ hfirst hk, hless _ _ hk hfirst]
      obtain hlt | heq | hgt := lt_trichotomy (rank first.1) (rank k)
      · refine ⟨first :: entries', ?_, ?_, ?_⟩
        · rw [decide_eq_true hlt, hinsert]
          rfl
        · refine sorted_cons.mpr ⟨hfirst, ?_, hsorted'⟩
          intro entry hentry
          obtain rfl | hentry := (hmem entry).mp hentry
          · exact hlt
          · exact hbelow entry hentry
        · intro entry
          rw [List.mem_cons, hmem, List.mem_cons]
          exact or_left_comm
      · exact absurd heq (hnew first (List.mem_cons_self ..))
      · refine ⟨(k, v) :: first :: rest, ?_, ?_, ?_⟩
        · rw [decide_eq_false hgt.not_gt, decide_eq_true hgt]
          rfl
        · refine sorted_cons.mpr ⟨hk, ?_, hsorted⟩
          intro entry hentry
          obtain rfl | hentry := List.mem_cons.mp hentry
          · exact hgt
          · exact hgt.trans (hbelow entry hentry)
        · exact fun entry => List.mem_cons

end

end ComparedMap

end CommonCommunicator.Lib
