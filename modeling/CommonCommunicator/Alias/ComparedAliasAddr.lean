import CommonCommunicator.Alias.AliasAddr
import CommonCommunicator.Lib.ComparedMap

/-!
# CAliasAddr over a comparator

The address map of the table searches with the comparator of the address type,
which aborts on addresses it cannot compare. As long as all addresses can be
compared, the table is a table of ranks. A first address is stored without any
comparison; if it cannot be compared, no second one follows it.
-/

namespace CommonCommunicator

open Lib

/-- `CAliasAddr`, with the entries of its address map in the order of the comparator. -/
structure ComparedAliasAddr (Address : Type) where
  mmAddr : PartialMap Bytes (CSource Address)
  mmAlias : List (Address × AliasRef)

namespace ComparedAliasAddr

variable {Address : Type}

/-- The table after `clear`. -/
def empty (Address : Type) : ComparedAliasAddr Address := { mmAddr := .empty, mmAlias := [] }

/-- `get` of a path. -/
def get (table : ComparedAliasAddr Address) (path : Bytes) : Option Address :=
  (table.mmAddr path).map CSource.address

/-- `get` of an address; `is_there` asks the same. -/
def getAlias (less : Address → Address → Outcome Bool) (table : ComparedAliasAddr Address)
    (address : Address) : Outcome (Option AliasRef) := do
  let entry ← ComparedMap.find less address table.mmAlias
  return entry.map Prod.snd

/-- `insert`: whether it succeeded, `is_new` and the table. -/
def insert (less : Address → Address → Outcome Bool) (table : ComparedAliasAddr Address)
    (heap : AliasHeap) (pvdAlias : Option AliasRef) (address : Address) (connectFlag : Bool) :
    Outcome (Bool × Bool × ComparedAliasAddr Address) :=
  match pvdAlias with
  | none => .ok (false, false, table)
  | some ref =>
      match table.mmAddr (heap.path ref) with
      | none => do
          let found ← getAlias less table address
          assertThat (found = none)
          let entries ← ComparedMap.insert less address ref table.mmAlias
          return (true, true,
            { mmAddr := table.mmAddr.insert (heap.path ref)
                { address := address, connectFlag := connectFlag }
              mmAlias := entries })
      | some src =>
          if src.connectFlag = false then
            .ok (true, connectFlag,
              { table with
                mmAddr := table.mmAddr.insert (heap.path ref)
                  { src with connectFlag := connectFlag } })
          else .ok (true, false, table)

/-- `reset_connect_flag`: the flag that the path had, and the table without it. -/
def resetConnectFlag (table : ComparedAliasAddr Address) (path : Bytes) :
    Bool × ComparedAliasAddr Address :=
  match table.mmAddr path with
  | none => (false, table)
  | some src =>
      (src.connectFlag, { table with
        mmAddr := table.mmAddr.insert path { src with connectFlag := false } })

variable {ρ : Type} [LinearOrder ρ]

/-- The addresses are in order, or there is only one. -/
def Ordered (comparable : Address → Prop) (rank : Address → ρ)
    (table : ComparedAliasAddr Address) : Prop :=
  ComparedMap.Sorted comparable rank table.mmAlias ∨ ∃ entry, table.mmAlias = [entry]

/-- The address can be compared with all that are stored, and is none of them. -/
def Fresh (comparable : Address → Prop) (rank : Address → ρ) (table : ComparedAliasAddr Address)
    (address : Address) : Prop :=
  ∀ entry ∈ table.mmAlias,
    comparable entry.1 ∧ comparable address ∧ rank entry.1 ≠ rank address

variable {less : Address → Address → Outcome Bool} {comparable : Address → Prop}
  {rank : Address → ρ} {table table' : ComparedAliasAddr Address} {heap : AliasHeap}
  {ref : AliasRef} {address : Address} {connectFlag : Bool}

theorem ordered_empty : (empty Address).Ordered comparable rank := Or.inl ComparedMap.sorted_nil

/-- A stored address that can be compared makes the order a proper one. -/
theorem Ordered.sorted (h : table.Ordered comparable rank) {entry : Address × AliasRef}
    (hmem : entry ∈ table.mmAlias) (hentry : comparable entry.1) :
    ComparedMap.Sorted comparable rank table.mmAlias := by
  obtain hsorted | ⟨single, hsingle⟩ := h
  · exact hsorted
  · rw [hsingle] at hmem ⊢
    obtain rfl := List.mem_singleton.mp hmem
    refine ComparedMap.sorted_cons.mpr ⟨hentry, ?_, ComparedMap.sorted_nil⟩
    exact fun entry' hmem' => absurd hmem' List.not_mem_nil

theorem getAlias_eq_ok {found : Option AliasRef} :
    getAlias less table address = .ok found ↔
      ∃ entry, ComparedMap.find less address table.mmAlias = .ok entry ∧
        entry.map Prod.snd = found := by
  simp [getAlias, bind_eq_ok]

/-- A search that returns has compared the address with a stored one, if there is any. -/
theorem comparable_of_getAlias
    (hcompared : ∀ a b r, less a b = .ok r → comparable a ∧ comparable b)
    (hordered : table.Ordered comparable rank) {found : Option AliasRef}
    (h : getAlias less table address = .ok found) (hne : table.mmAlias ≠ []) :
    comparable address ∧ ComparedMap.Sorted comparable rank table.mmAlias := by
  obtain ⟨entry, hfind, -⟩ := getAlias_eq_ok.mp h
  cases hentries : table.mmAlias with
  | nil => exact absurd hentries hne
  | cons first rest =>
      rw [hentries, ComparedMap.find] at hfind
      obtain ⟨below, hbelow, -⟩ := bind_eq_ok.mp hfind
      obtain ⟨hfirst, haddress⟩ := hcompared _ _ _ hbelow
      refine ⟨haddress, ?_⟩
      rw [← hentries]
      exact hordered.sorted (hentries ▸ List.mem_cons_self ..) hfirst

/-- The search returns nothing exactly for a fresh address. -/
theorem getAlias_eq_none_iff (hranked : RankedOn less comparable rank)
    (hcompared : ∀ a b r, less a b = .ok r → comparable a ∧ comparable b)
    (hordered : table.Ordered comparable rank) :
    getAlias less table address = .ok none ↔ table.Fresh comparable rank address := by
  by_cases hnil : table.mmAlias = []
  · apply iff_of_true
    · rw [getAlias, hnil]
      rfl
    · intro entry hmem
      rw [hnil] at hmem
      cases hmem
  · constructor
    · intro h entry hmem
      obtain ⟨haddress, hsorted⟩ := comparable_of_getAlias hcompared hordered h hnil
      obtain ⟨found, hfind, hspec⟩ := ComparedMap.find_spec hranked hsorted haddress
      obtain ⟨found', hfind', hnone⟩ := getAlias_eq_ok.mp h
      obtain rfl : found = found' := Except.ok.inj (hfind.symm.trans hfind')
      refine ⟨hsorted.ranked entry hmem, haddress, ?_⟩
      intro hrank
      rw [(hspec entry).mpr ⟨hmem, hrank⟩] at hnone
      cases hnone
    · intro hfresh
      obtain ⟨first, hfirst⟩ := List.exists_mem_of_ne_nil _ hnil
      obtain ⟨hcomparable, haddress, -⟩ := hfresh first hfirst
      have hsorted := hordered.sorted hfirst hcomparable
      obtain ⟨found, hfind, hspec⟩ := ComparedMap.find_spec hranked hsorted haddress
      rw [getAlias, hfind]
      cases found with
      | none => rfl
      | some entry =>
          obtain ⟨hmem, hrank⟩ := (hspec entry).mp rfl
          exact absurd hrank (hfresh entry hmem).2.2

/-- A fresh address gets its place among the stored ones. -/
theorem insert_entries_of_fresh (hranked : RankedOn less comparable rank)
    (hordered : table.Ordered comparable rank) (hfresh : table.Fresh comparable rank address)
    (ref : AliasRef) :
    ∃ entries, ComparedMap.insert less address ref table.mmAlias = .ok entries ∧
      (ComparedMap.Sorted comparable rank entries ∨ ∃ entry, entries = [entry]) ∧
      ∀ entry, entry ∈ entries ↔ entry = (address, ref) ∨ entry ∈ table.mmAlias := by
  by_cases hnil : table.mmAlias = []
  · rw [hnil]
    exact ⟨[(address, ref)], rfl, Or.inr ⟨_, rfl⟩, by simp⟩
  · obtain ⟨first, hfirst⟩ := List.exists_mem_of_ne_nil _ hnil
    obtain ⟨hcomparable, haddress, -⟩ := hfresh first hfirst
    obtain ⟨entries, hinsert, hsorted, hmem⟩ := ComparedMap.insert_spec hranked
      (hordered.sorted hfirst hcomparable) haddress (fun entry hentry => (hfresh entry hentry).2.2)
      ref
    exact ⟨entries, hinsert, Or.inl hsorted, hmem⟩

/-- `insert` of an alias returns exactly if its path is stored, or its address is fresh. -/
theorem insert_returns_iff (hranked : RankedOn less comparable rank)
    (hcompared : ∀ a b r, less a b = .ok r → comparable a ∧ comparable b)
    (hordered : table.Ordered comparable rank) :
    (∃ res, insert less table heap (some ref) address connectFlag = .ok res) ↔
      table.mmAddr (heap.path ref) ≠ none ∨ table.Fresh comparable rank address := by
  rw [← getAlias_eq_none_iff hranked hcompared hordered]
  simp only [insert]
  cases hsrc : table.mmAddr (heap.path ref) with
  | some src =>
      apply iff_of_true
      · dsimp only
        split
        · exact ⟨_, rfl⟩
        · exact ⟨_, rfl⟩
      · exact Or.inl (Option.some_ne_none src)
  | none =>
      constructor
      · rintro ⟨res, hres⟩
        obtain ⟨found, hfound, hres⟩ := bind_eq_ok.mp hres
        obtain ⟨_, hnone, _⟩ := bind_eq_ok.mp hres
        rw [assertThat_eq_ok.mp hnone] at hfound
        exact Or.inr hfound
      · rintro (hthere | hnone)
        · exact absurd rfl hthere
        · have hfresh := (getAlias_eq_none_iff hranked hcompared hordered).mp hnone
          obtain ⟨entries, hentries, -⟩ := insert_entries_of_fresh hranked hordered hfresh ref
          rw [hnone, ok_bind, assertThat_pos rfl, ok_bind, hentries]
          exact ⟨_, rfl⟩

/-- `insert` stores a fresh address at its place, or keeps all addresses. -/
theorem insert_cases (hranked : RankedOn less comparable rank)
    (hcompared : ∀ a b r, less a b = .ok r → comparable a ∧ comparable b)
    (hordered : table.Ordered comparable rank) {res isNew : Bool}
    (h : insert less table heap (some ref) address connectFlag = .ok (res, isNew, table')) :
    res = true ∧ table'.Ordered comparable rank ∧
      ((∀ entry, entry ∈ table'.mmAlias ↔ entry = (address, ref) ∨ entry ∈ table.mmAlias) ∨
        table'.mmAlias = table.mmAlias) := by
  simp only [insert] at h
  cases hsrc : table.mmAddr (heap.path ref) with
  | some src =>
      rw [hsrc] at h
      dsimp only at h
      split at h
      · cases h
        exact ⟨rfl, hordered, Or.inr rfl⟩
      · cases h
        exact ⟨rfl, hordered, Or.inr rfl⟩
  | none =>
      rw [hsrc] at h
      obtain ⟨found, hfound, h⟩ := bind_eq_ok.mp h
      obtain ⟨_, hnone, h⟩ := bind_eq_ok.mp h
      rw [assertThat_eq_ok.mp hnone] at hfound
      have hfresh := (getAlias_eq_none_iff hranked hcompared hordered).mp hfound
      obtain ⟨entries, hentries, hplace, hmem⟩ :=
        insert_entries_of_fresh hranked hordered hfresh ref
      rw [hentries] at h
      cases h
      exact ⟨rfl, hplace, Or.inl hmem⟩

theorem resetConnectFlag_mmAlias (table : ComparedAliasAddr Address) (path : Bytes) :
    (table.resetConnectFlag path).2.mmAlias = table.mmAlias := by
  rw [resetConnectFlag]
  split <;> rfl

/-- The table with addresses that are their ranks. -/
def ranks (rank : Address → ρ) (table : ComparedAliasAddr Address) : CAliasAddr ρ where
  mmAddr path := (table.mmAddr path).map fun src =>
    { address := rank src.address, connectFlag := src.connectFlag }
  mmAlias r := (ComparedMap.lookup rank table.mmAlias r).map Prod.snd

/-- Among comparable addresses a search finds what the table of ranks has. -/
theorem getAlias_refines (hranked : RankedOn less comparable rank)
    (hsorted : ComparedMap.Sorted comparable rank table.mmAlias) (haddress : comparable address) :
    getAlias less table address = .ok ((table.ranks rank).getAlias (rank address)) := by
  rw [getAlias, ComparedMap.find_eq_lookup hranked hsorted haddress]
  rfl

theorem ranks_mmAddr_insert (path : Bytes) (src : CSource Address)
    (entries : List (Address × AliasRef)) :
    (ranks rank { mmAddr := table.mmAddr.insert path src, mmAlias := entries }).mmAddr =
      PartialMap.insert (table.ranks rank).mmAddr path
        { address := rank src.address, connectFlag := src.connectFlag } := by
  funext path'
  simp only [ranks, PartialMap.insert_apply]
  split <;> rfl

/-- A new entry is a new rank. -/
theorem ranks_mmAlias_insert (hsorted : ComparedMap.Sorted comparable rank table.mmAlias)
    {mmAddr : PartialMap Bytes (CSource Address)} {entries : List (Address × AliasRef)}
    (hsorted' : ComparedMap.Sorted comparable rank entries)
    (hmem : ∀ entry, entry ∈ entries ↔ entry = (address, ref) ∨ entry ∈ table.mmAlias) :
    (ranks rank { mmAddr := mmAddr, mmAlias := entries }).mmAlias =
      PartialMap.insert (table.ranks rank).mmAlias (rank address) ref := by
  funext r
  rw [PartialMap.insert_apply]
  split
  · next hr =>
      have hself := (ComparedMap.lookup_eq_some_iff hsorted').mpr
        ⟨(hmem _).mpr (Or.inl rfl), hr.symm⟩
      simp [ranks, hself]
  · next hr =>
      have hsame : ComparedMap.lookup rank entries r = ComparedMap.lookup rank table.mmAlias r := by
        ext entry
        rw [ComparedMap.lookup_eq_some_iff hsorted', ComparedMap.lookup_eq_some_iff hsorted, hmem]
        constructor
        · rintro ⟨rfl | hold, hrank⟩
          · exact absurd hrank.symm hr
          · exact ⟨hold, hrank⟩
        · exact fun hold => ⟨Or.inr hold.1, hold.2⟩
      simp only [ranks, hsame]

/-- Among comparable addresses `insert` is the one of the table of ranks. -/
theorem insert_refines (hranked : RankedOn less comparable rank)
    (hsorted : ComparedMap.Sorted comparable rank table.mmAlias) (haddress : comparable address) :
    (insert less table heap (some ref) address connectFlag).map
        (fun res => (res.1, res.2.1, res.2.2.ranks rank)) =
      (table.ranks rank).insert heap (some ref) (some (rank address)) connectFlag := by
  simp only [insert, CAliasAddr.insert]
  cases hsrc : table.mmAddr (heap.path ref) with
  | some src =>
      have hthere : (table.ranks rank).mmAddr (heap.path ref) =
          some { address := rank src.address, connectFlag := src.connectFlag } := by
        simp [ranks, hsrc]
      rw [hthere]
      dsimp only
      by_cases hflag : src.connectFlag = false
      · rw [if_pos hflag, if_pos hflag, Except.map]
        congr 3
        exact congrArg (CAliasAddr.mk · _) (ranks_mmAddr_insert ..)
      · rw [if_neg hflag, if_neg hflag, Except.map]
  | none =>
      have hfree : (table.ranks rank).mmAddr (heap.path ref) = none := by simp [ranks, hsrc]
      rw [hfree]
      dsimp only
      rw [getAlias_refines hranked hsorted haddress, ok_bind, CAliasAddr.getAlias]
      by_cases hnone : (table.ranks rank).mmAlias (rank address) = none
      · have hnew : ∀ entry ∈ table.mmAlias, rank entry.1 ≠ rank address := by
          intro entry hmem hrank
          have hlookup := (ComparedMap.lookup_eq_some_iff hsorted).mpr ⟨hmem, hrank⟩
          simp [ranks, hlookup] at hnone
        obtain ⟨entries, hentries, hsorted', hmem⟩ :=
          ComparedMap.insert_spec hranked hsorted haddress hnew ref
        rw [assertThat_pos hnone, ok_bind, ok_bind, hentries, ok_bind, pure_eq_ok, pure_eq_ok,
          Except.map]
        congr 3
        exact congrArg₂ CAliasAddr.mk (ranks_mmAddr_insert ..)
          (ranks_mmAlias_insert hsorted hsorted' hmem)
      · rw [assertThat, if_neg hnone]
        rfl

/-- An alias with a new path is stored with its address, which is a fresh one. -/
theorem insert_new {res isNew : Bool} (hranked : RankedOn less comparable rank)
    (hcompared : ∀ a b r, less a b = .ok r → comparable a ∧ comparable b)
    (hordered : table.Ordered comparable rank) (hnew : table.mmAddr (heap.path ref) = none)
    (h : insert less table heap (some ref) address connectFlag = .ok (res, isNew, table')) :
    table'.mmAddr = table.mmAddr.insert (heap.path ref) ⟨address, connectFlag⟩ ∧
      table'.Ordered comparable rank ∧
      ∀ entry, entry ∈ table'.mmAlias ↔ entry = (address, ref) ∨ entry ∈ table.mmAlias := by
  simp only [insert, hnew] at h
  obtain ⟨found, hfound, h⟩ := bind_eq_ok.mp h
  obtain ⟨⟨⟩, hnone, h⟩ := bind_eq_ok.mp h
  rw [assertThat_eq_ok.mp hnone] at hfound
  have hfresh := (getAlias_eq_none_iff hranked hcompared hordered).mp hfound
  obtain ⟨entries, hentries, hplace, hmem⟩ := insert_entries_of_fresh hranked hordered hfresh ref
  rw [hentries] at h
  cases h
  exact ⟨rfl, hplace, hmem⟩

/-- An address is found under one that the comparator does not tell apart. -/
theorem Ordered.getAlias_of_mem {entry : Address × AliasRef}
    (h : table.Ordered comparable rank) (hranked : RankedOn less comparable rank)
    (hmem : entry ∈ table.mmAlias) (hentry : comparable entry.1) (haddress : comparable address)
    (hrank : rank entry.1 = rank address) : table.getAlias less address = .ok (some entry.2) := by
  have hsorted := h.sorted hmem hentry
  have hlookup : ComparedMap.lookup rank table.mmAlias (rank address) = some entry :=
    (ComparedMap.lookup_eq_some_iff hsorted).mpr ⟨hmem, hrank⟩
  rw [getAlias_refines hranked hsorted haddress, CAliasAddr.getAlias, ranks]
  dsimp only
  rw [hlookup, Option.map_some]

section Stored

variable {stored : Address} {res isNew : Bool} {path : Bytes}

/-- A path that is stored keeps its address: `insert` sets its flag at most. -/
theorem get_of_insert (hget : table.get path = some stored)
    (h : table.insert less heap (some ref) address connectFlag = .ok (res, isNew, table')) :
    table'.get path = some stored := by
  simp only [insert] at h
  cases hsrc : table.mmAddr (heap.path ref) with
  | some src =>
      rw [hsrc] at h
      dsimp only at h
      split at h
      · cases h
        simp only [get, PartialMap.insert_apply]
        split
        · next hpath =>
            rw [get, hpath, hsrc] at hget
            exact hget
        · exact hget
      · cases h
        exact hget
  | none =>
      rw [hsrc] at h
      obtain ⟨found, -, h⟩ := bind_eq_ok.mp h
      obtain ⟨⟨⟩, -, h⟩ := bind_eq_ok.mp h
      obtain ⟨entries, -, h⟩ := bind_eq_ok.mp h
      cases h
      simp only [get, PartialMap.insert_apply]
      split
      · next hpath =>
          rw [get, hpath, hsrc] at hget
          cases hget
      · exact hget

/-- `insert` of an alias whose path is stored sets the flag at most. -/
theorem insert_stored (less : Address → Address → Outcome Bool) (address : Address)
    (connectFlag : Bool) (hget : table.get (heap.path ref) = some stored) :
    ∃ isNew table', table.insert less heap (some ref) address connectFlag =
        .ok (true, isNew, table') ∧
      table'.mmAlias = table.mmAlias ∧ ∀ path, table'.get path = table.get path := by
  obtain ⟨src, hsrc, -⟩ := Option.map_eq_some_iff.mp hget
  simp only [insert, hsrc]
  split
  · refine ⟨_, _, rfl, rfl, fun path => ?_⟩
    simp only [get, PartialMap.insert_apply]
    split
    · next hpath =>
        rw [hpath, hsrc]
        rfl
    · rfl
  · exact ⟨_, _, rfl, rfl, fun _ => rfl⟩

theorem get_resetConnectFlag (path' : Bytes) (hget : table.get path = some stored) :
    (table.resetConnectFlag path').2.get path = some stored := by
  rw [resetConnectFlag]
  cases hsrc : table.mmAddr path' with
  | none => exact hget
  | some src =>
      simp only [get, PartialMap.insert_apply]
      split
      · next hpath =>
          rw [get, hpath, hsrc] at hget
          exact hget
      · exact hget

/-- The stored addresses, and one more only if the path of its alias is the address's then. -/
theorem mem_insert (hranked : RankedOn less comparable rank)
    (hcompared : ∀ a b r, less a b = .ok r → comparable a ∧ comparable b)
    (hordered : table.Ordered comparable rank)
    (h : table.insert less heap (some ref) address connectFlag = .ok (res, isNew, table')) :
    (∀ entry ∈ table.mmAlias, entry ∈ table'.mmAlias) ∧
      ∀ entry ∈ table'.mmAlias, entry ∈ table.mmAlias ∨
        entry = (address, ref) ∧ table'.get (heap.path ref) = some address := by
  cases hsrc : table.mmAddr (heap.path ref) with
  | none =>
      obtain ⟨hmmAddr, -, hmem⟩ := insert_new hranked hcompared hordered hsrc h
      refine ⟨fun entry hold => (hmem entry).mpr (.inr hold), ?_⟩
      intro entry hentry
      obtain rfl | hold := (hmem entry).mp hentry
      · refine .inr ⟨rfl, ?_⟩
        rw [get, hmmAddr, PartialMap.insert_apply, if_pos rfl, Option.map_some]
      · exact .inl hold
  | some src =>
      simp only [insert, hsrc] at h
      split at h
      · cases h
        exact ⟨fun _ hold => hold, fun _ hold => .inl hold⟩
      · cases h
        exact ⟨fun _ hold => hold, fun _ hold => .inl hold⟩

/-- What a search finds is stored under an address that the comparator does not tell apart. -/
theorem mem_of_getAlias (hranked : RankedOn less comparable rank)
    (hcompared : ∀ a b r, less a b = .ok r → comparable a ∧ comparable b)
    (hordered : table.Ordered comparable rank) (h : table.getAlias less address = .ok (some ref)) :
    ∃ stored, (stored, ref) ∈ table.mmAlias ∧ comparable address ∧ rank stored = rank address := by
  have hne : table.mmAlias ≠ [] := by
    intro hnil
    rw [getAlias, hnil] at h
    cases h
  obtain ⟨haddress, hsorted⟩ := comparable_of_getAlias hcompared hordered h hne
  obtain ⟨found, hfind, hspec⟩ := ComparedMap.find_spec hranked hsorted haddress
  obtain ⟨found', hfind', hfound⟩ := getAlias_eq_ok.mp h
  obtain rfl := Except.ok.inj (hfind.symm.trans hfind')
  obtain ⟨⟨stored, ref'⟩, rfl, rfl⟩ := Option.map_eq_some_iff.mp hfound
  obtain ⟨hmem, hrank⟩ := (hspec _).mp rfl
  exact ⟨stored, hmem, haddress, hrank⟩

end Stored

end ComparedAliasAddr

end CommonCommunicator
