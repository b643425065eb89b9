import CommonCommunicator.Lib.PartialMap
import Mathlib.Data.List.Basic
import Mathlib.Data.List.Induction

/-!
# Sets in the order of arrival

A set whose elements come and go is described by its history. An element is
present if it was added and not dropped since, and it has been present since the
position at which it was last absent. The members in the order of arrival are
kept by appending and filtering. A relation, which is a set of pairs, may be
stored as a map from keys to lists.
-/

namespace CommonCommunicator.Lib

/-- A change of a set. -/
inductive Change (α : Type*)
  | add (a : α)
  | drop (a : α)

namespace Change

variable {α : Type*} {changes : List (Change α)} {c : Change α} {a b : α} {n : Nat}

/-- The element was added and has not been dropped since. -/
def Present (changes : List (Change α)) (a : α) : Prop :=
  ∃ before after, changes = before ++ .add a :: after ∧ .drop a ∉ after

/-- The element was added at position `n`, was absent before and has not been dropped since. -/
def PresentSince (changes : List (Change α)) (a : α) (n : Nat) : Prop :=
  ∃ before after, changes = before ++ .add a :: after ∧ before.length = n ∧
    ¬Present before a ∧ .drop a ∉ after

/-- Both are present, and the first has been longer. -/
def Precedes (changes : List (Change α)) (a b : α) : Prop :=
  ∃ m n, PresentSince changes a m ∧ PresentSince changes b n ∧ m < n

theorem not_present_nil : ¬Present [] a := by
  rintro ⟨before, after, hsplit, -⟩
  simp at hsplit

theorem not_presentSince_nil : ¬PresentSince [] a n := by
  rintro ⟨before, after, hsplit, -⟩
  simp at hsplit

/-- A history that ends in `c` splits at its last change or before it. -/
theorem snoc_eq_split {before after : List (Change α)} :
    changes ++ [c] = before ++ .add a :: after ↔
      before = changes ∧ c = .add a ∧ after = [] ∨
        ∃ rest, after = rest ++ [c] ∧ changes = before ++ .add a :: rest := by
  constructor
  · intro hsplit
    obtain rfl | ⟨rest, last, rfl⟩ := after.eq_nil_or_concat
    · obtain ⟨hchanges, hlast⟩ := List.append_inj' hsplit rfl
      exact Or.inl ⟨hchanges.symm, by simpa using hlast, rfl⟩
    · rw [List.concat_eq_append, ← List.cons_append, ← List.append_assoc] at hsplit
      obtain ⟨hchanges, hlast⟩ := List.append_inj' hsplit rfl
      obtain rfl : c = last := by simpa using hlast
      exact Or.inr ⟨rest, List.concat_eq_append, hchanges⟩
  · rintro (⟨rfl, rfl, rfl⟩ | ⟨rest, rfl, rfl⟩)
    · rfl
    · simp

/-- Only the last change of an element matters. -/
theorem present_snoc :
    Present (changes ++ [c]) a ↔ c = .add a ∨ Present changes a ∧ c ≠ .drop a := by
  constructor
  · rintro ⟨before, after, hsplit, hkept⟩
    obtain ⟨-, hadd, -⟩ | ⟨rest, rfl, hchanges⟩ := snoc_eq_split.mp hsplit
    · exact Or.inl hadd
    · simp only [List.mem_append, List.mem_singleton, not_or] at hkept
      exact Or.inr ⟨⟨before, rest, hchanges, hkept.1⟩, Ne.symm hkept.2⟩
  · rintro (rfl | ⟨⟨before, after, rfl, hkept⟩, hdrop⟩)
    · exact ⟨changes, [], rfl, by simp⟩
    · exact ⟨before, after ++ [c], by simp, by simp [hkept, Ne.symm hdrop]⟩

theorem presentSince_snoc :
    PresentSince (changes ++ [c]) a n ↔
      c = .add a ∧ ¬Present changes a ∧ changes.length = n ∨
        PresentSince changes a n ∧ c ≠ .drop a := by
  constructor
  · rintro ⟨before, after, hsplit, hlength, habsent, hkept⟩
    obtain ⟨rfl, hadd, -⟩ | ⟨rest, rfl, hchanges⟩ := snoc_eq_split.mp hsplit
    · exact Or.inl ⟨hadd, habsent, hlength⟩
    · simp only [List.mem_append, List.mem_singleton, not_or] at hkept
      exact Or.inr ⟨⟨before, rest, hchanges, hlength, habsent, hkept.1⟩, Ne.symm hkept.2⟩
  · rintro (⟨rfl, habsent, hlength⟩ | ⟨⟨before, after, rfl, hlength, habsent, hkept⟩,
      hdrop⟩)
    · exact ⟨changes, [], rfl, hlength, habsent, by simp⟩
    · exact ⟨before, after ++ [c], by simp, hlength, habsent, by simp [hkept, Ne.symm hdrop]⟩

theorem PresentSince.present (h : PresentSince changes a n) : Present changes a := by
  obtain ⟨before, after, hsplit, -, -, hkept⟩ := h
  exact ⟨before, after, hsplit, hkept⟩

theorem PresentSince.lt_length (h : PresentSince changes a n) : n < changes.length := by
  obtain ⟨before, after, rfl, rfl, -, -⟩ := h
  simp

/-- An element became present once since it was last absent. -/
theorem PresentSince.unique {m : Nat} (hm : PresentSince changes a m)
    (hn : PresentSince changes a n) : m = n := by
  induction changes using List.reverseRecOn with
  | nil => exact absurd hm not_presentSince_nil
  | append_singleton changes c ih =>
      rw [presentSince_snoc] at hm hn
      obtain ⟨-, habsent, rfl⟩ | ⟨hm, -⟩ := hm
      · obtain ⟨-, -, rfl⟩ | ⟨hn, -⟩ := hn
        · rfl
        · exact absurd hn.present habsent
      · obtain ⟨-, habsent, -⟩ | ⟨hn, -⟩ := hn
        · exact absurd hm.present habsent
        · exact ih hm hn

theorem Precedes.ne (h : Precedes changes a b) : a ≠ b := by
  obtain ⟨m, n, hm, hn, hlt⟩ := h
  rintro rfl
  exact absurd (hm.unique hn) (Nat.ne_of_lt hlt)

/-- A change that drops neither of two elements leaves their order. -/
theorem Precedes.snoc (h : Precedes changes a b) (ha : c ≠ .drop a) (hb : c ≠ .drop b) :
    Precedes (changes ++ [c]) a b := by
  obtain ⟨m, n, hm, hn, hlt⟩ := h
  exact ⟨m, n, presentSince_snoc.mpr (Or.inr ⟨hm, ha⟩),
    presentSince_snoc.mpr (Or.inr ⟨hn, hb⟩), hlt⟩

section Members

variable [DecidableEq α]

/-- What a change does to the members in the order of arrival. -/
def apply (members : List α) : Change α → List α
  | .add a => if a ∈ members then members else members ++ [a]
  | .drop a => members.filter (· ≠ a)

theorem nodup_apply {members : List α} (h : members.Nodup) : (apply members c).Nodup := by
  cases c with
  | add a =>
      rw [apply]
      split
      · exact h
      · next habsent =>
          refine List.nodup_append.mpr ⟨h, by simp, ?_⟩
          rintro b hb _ hsingle rfl
          exact habsent (List.mem_singleton.mp hsingle ▸ hb)
  | drop a => exact h.filter _

/-- The members after a history, in the order of arrival. -/
def members (changes : List (Change α)) : List α := changes.foldl apply []

theorem members_snoc : members (changes ++ [c]) = apply (members changes) c := by
  rw [members, List.foldl_append]
  rfl

theorem mem_apply {members : List α} :
    a ∈ apply members c ↔ c = .add a ∨ a ∈ members ∧ c ≠ .drop a := by
  cases c with
  | add b =>
      rw [apply]
      split
      · next hmem =>
          constructor
          · intro h
            exact Or.inr ⟨h, by simp⟩
          · rintro (heq | ⟨h, -⟩)
            · cases heq
              exact hmem
            · exact h
      · rw [List.mem_append, List.mem_singleton]
        constructor
        · rintro (h | rfl)
          · exact Or.inr ⟨h, by simp⟩
          · exact Or.inl rfl
        · rintro (heq | ⟨h, -⟩)
          · cases heq
            exact Or.inr rfl
          · exact Or.inl h
  | drop b => simp [apply, @eq_comm _ b a]

theorem mem_members : a ∈ members changes ↔ Present changes a := by
  induction changes using List.reverseRecOn with
  | nil => simp [members, not_present_nil]
  | append_singleton changes c ih => rw [members_snoc, mem_apply, present_snoc, ih]

omit [DecidableEq α] in
/-- A present element has been so since some position. -/
theorem Present.since (h : Present changes a) : ∃ n, PresentSince changes a n := by
  induction changes using List.reverseRecOn with
  | nil => exact absurd h not_present_nil
  | append_singleton changes c ih =>
      by_cases hold : Present changes a
      · obtain ⟨n, hn⟩ := ih hold
        have hdrop : c ≠ .drop a := by
          rintro rfl
          simp [present_snoc] at h
        exact ⟨n, presentSince_snoc.mpr (Or.inr ⟨hn, hdrop⟩)⟩
      · obtain hadd | ⟨hold', -⟩ := present_snoc.mp h
        · exact ⟨_, presentSince_snoc.mpr (Or.inl ⟨hadd, hold, rfl⟩)⟩
        · exact absurd hold' hold

/-- The members stand in the order in which they became present. -/
theorem members_pairwise (changes : List (Change α)) :
    (members changes).Pairwise (Precedes changes) := by
  induction changes using List.reverseRecOn with
  | nil => exact List.Pairwise.nil
  | append_singleton changes c ih =>
      rw [members_snoc]
      cases c with
      | drop a =>
          rw [apply]
          refine (ih.filter _).imp_of_mem ?_
          intro b b' hb hb' hprecedes
          have hne : b ≠ a := by simpa using (List.mem_filter.mp hb).2
          have hne' : b' ≠ a := by simpa using (List.mem_filter.mp hb').2
          exact hprecedes.snoc (by simpa using hne.symm) (by simpa using hne'.symm)
      | add a =>
          have hold : (members changes).Pairwise (Precedes (changes ++ [.add a])) :=
            ih.imp fun hprecedes => hprecedes.snoc (by simp) (by simp)
          rw [apply]
          split
          · exact hold
          · next habsent =>
              refine List.pairwise_append.mpr ⟨hold, List.pairwise_singleton _ _, ?_⟩
              intro b hb b' hb'
              obtain rfl := List.mem_singleton.mp hb'
              obtain ⟨n, hn⟩ := (mem_members.mp hb).since
              rw [mem_members] at habsent
              exact ⟨n, changes.length, presentSince_snoc.mpr (Or.inr ⟨hn, by simp⟩),
                presentSince_snoc.mpr (Or.inl ⟨rfl, habsent, rfl⟩), hn.lt_length⟩

end Members

end Change

section Relation

variable {κ υ ρ : Type*} [DecidableEq κ]

/-- What a key is related to. -/
def image (pairs : List (κ × υ)) (k : κ) : List υ :=
  (pairs.filter fun pair => pair.1 = k).map Prod.snd

theorem mem_image {pairs : List (κ × υ)} {k : κ} {v : υ} :
    v ∈ image pairs k ↔ (k, v) ∈ pairs := by
  constructor
  · intro hmem
    obtain ⟨⟨k', v'⟩, hin, rfl⟩ := List.mem_map.mp hmem
    obtain ⟨hin, hkey⟩ := List.mem_filter.mp hin
    obtain rfl : k' = k := by simpa using hkey
    simpa using hin
  · intro hin
    exact List.mem_map.mpr ⟨(k, v), List.mem_filter.mpr ⟨hin, by simp⟩, rfl⟩

/-- An order of the pairs orders every image. -/
theorem image_pairwise {pairs : List (κ × υ)} {before : κ × υ → κ × υ → Prop}
    (h : pairs.Pairwise before) (k : κ) :
    (image pairs k).Pairwise fun v v' => before (k, v) (k, v') := by
  rw [image, List.pairwise_map]
  refine (h.filter _).imp_of_mem ?_
  rintro ⟨k₁, v₁⟩ ⟨k₂, v₂⟩ hmem₁ hmem₂ hbefore
  obtain rfl : k₁ = k := by simpa using (List.mem_filter.mp hmem₁).2
  obtain rfl : k₂ = k₁ := by simpa using (List.mem_filter.mp hmem₂).2
  exact hbefore

/-- Without a pair, one value less is in the image of its key. -/
theorem image_filter [DecidableEq υ] (pairs : List (κ × υ)) (k k' : κ) (v : υ) :
    image (pairs.filter (· ≠ (k, v))) k' =
      if k' = k then (image pairs k').filter (· ≠ v) else image pairs k' := by
  rw [image, image, List.filter_filter]
  split
  · next hk =>
      subst hk
      rw [List.filter_map, List.filter_filter]
      congr 1
      apply List.filter_congr
      rintro ⟨k₁, v₁⟩ -
      by_cases hkey : k₁ = k'
      · simp [hkey]
      · simp [hkey]
  · next hk =>
      congr 1
      apply List.filter_congr
      rintro ⟨k₁, v₁⟩ -
      by_cases hkey : k₁ = k'
      · subst hkey
        simp [hk]
      · simp [hkey]

/-- A map of lists, whose entries have names, stores a relation: under each key there is what the
key is related to, and no key has an empty list. -/
structure StoresRelation (store : PartialMap κ (List ρ)) (name : ρ → υ)
    (pairs : List (κ × υ)) : Prop where
  lists : ∀ k, ((store k).getD []).map name = image pairs k
  filled : ∀ k, store k ≠ some []

namespace StoresRelation

variable {store : PartialMap κ (List ρ)} {name : ρ → υ} {pairs : List (κ × υ)}

theorem empty : StoresRelation (.empty : PartialMap κ (List ρ)) name ([] : List (κ × υ)) := by
  constructor
  · intro k
    rfl
  · simp

theorem of_eq_some (h : StoresRelation store name pairs) {k : κ} {entries : List ρ}
    (hentries : store k = some entries) : entries.map name = image pairs k := by
  simpa [hentries] using h.lists k

/-- Only the names of the stored entries matter. -/
theorem rename {name' : ρ → υ} (h : StoresRelation store name pairs)
    (hname : ∀ k, ∀ entry ∈ (store k).getD [], name' entry = name entry) :
    StoresRelation store name' pairs := by
  constructor
  · intro k
    rw [← h.lists k]
    exact List.map_congr_left (hname k)
  · exact h.filled

variable [DecidableEq υ]

/-- The list of the key has an entry of the name if the pair is there. -/
theorem any_iff (h : StoresRelation store name pairs) (k : κ) (v : υ) :
    (((store k).getD []).any fun entry => name entry = v) = true ↔ (k, v) ∈ pairs := by
  rw [← mem_image, ← h.lists k]
  simp

/-- An entry behind the list of its key adds a pair. -/
theorem add (h : StoresRelation store name pairs) {k : κ} {entry : ρ}
    (habsent : (k, name entry) ∉ pairs) :
    StoresRelation (store.insert k ((store k).getD [] ++ [entry])) name
      (Change.apply pairs (.add (k, name entry))) := by
  rw [Change.apply, if_neg habsent]
  constructor
  · intro k'
    by_cases hk : k' = k
    · subst hk
      rw [PartialMap.insert_self, Option.getD_some, List.map_append, h.lists]
      simp [image]
    · rw [PartialMap.insert_of_ne _ hk, h.lists]
      simp [image, Ne.symm hk]
  · intro k'
    by_cases hk : k' = k
    · subst hk
      simp
    · rw [PartialMap.insert_of_ne _ hk]
      exact h.filled k'

/-- The first entry of a name is the only one: without it no entry has the name. -/
theorem erase_name (h : StoresRelation store name pairs) (hnodup : pairs.Nodup) {k : κ}
    {entries : List ρ} (hentries : store k = some entries) (v : υ) :
    (entries.eraseP fun entry => name entry = v).map name =
      (image pairs k).filter (· ≠ v) := by
  have hdistinct : (image pairs k).Nodup := (image_pairwise hnodup k).imp fun hne => by
    simpa using hne
  calc
    (entries.eraseP fun entry => name entry = v).map name
        = (entries.map name).eraseP (· = v) := by rw [List.eraseP_map]; rfl
    _ = (image pairs k).erase v := by
        rw [h.of_eq_some hentries, List.erase_eq_eraseP']
        rfl
    _ = (image pairs k).filter (· ≠ v) := by
        rw [hdistinct.erase_eq_filter]
        apply List.filter_congr
        intro v' _
        by_cases hv : v' = v
        · simp [hv]
        · simp [hv]

/-- Without its first entry of a name the list of a key is one pair short; an empty list goes. -/
theorem drop (h : StoresRelation store name pairs) (hnodup : pairs.Nodup) {k : κ}
    {entries : List ρ} (hentries : store k = some entries) (v : υ) :
    StoresRelation
      (if entries.eraseP (fun entry => name entry = v) = [] then store.erase k
        else store.insert k (entries.eraseP fun entry => name entry = v))
      name (Change.apply pairs (.drop (k, v))) := by
  have hself := h.erase_name hnodup hentries v
  rw [Change.apply]
  constructor
  · intro k'
    rw [image_filter]
    by_cases hk : k' = k
    · subst hk
      rw [if_pos rfl, ← hself]
      split
      · next hnil => simp [hnil]
      · simp
    · rw [if_neg hk, ← h.lists k']
      split
      · rw [PartialMap.erase_of_ne hk]
      · rw [PartialMap.insert_of_ne _ hk]
  · intro k'
    by_cases hk : k' = k
    · subst hk
      split
      · simp
      · next hne => simpa using hne
    · split
      · rw [PartialMap.erase_of_ne hk]
        exact h.filled k'
      · rw [PartialMap.insert_of_ne _ hk]
        exact h.filled k'

end StoresRelation

end Relation

end CommonCommunicator.Lib
