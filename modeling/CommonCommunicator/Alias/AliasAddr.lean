import CommonCommunicator.Alias.Alias
import CommonCommunicator.Lib.InverseMaps

/-!
# CAliasAddr

A table of aliases and addresses that is searched from both sides: from the
full path that an alias had when it was stored, and from the address. An entry
also has a connection flag; a set flag protects the entry from being stored
again. The address type comes with the equality that the comparator of the map
induces.
-/

namespace CommonCommunicator

open Lib

/-- What the table keeps of a `CSource`. -/
structure CSource (Address : Type) where
  address : Address
  connectFlag : Bool
  deriving DecidableEq, Repr

/-- `CAliasAddr`. -/
structure CAliasAddr (Address : Type) where
  mmAddr : PartialMap Bytes (CSource Address)
  mmAlias : PartialMap Address AliasRef

namespace CAliasAddr

variable {Address : Type} [DecidableEq Address]

omit [DecidableEq Address] in
/-- The table after `clear`. -/
def empty (Address : Type) : CAliasAddr Address := { mmAddr := .empty, mmAlias := .empty }

omit [DecidableEq Address] in
/-- `get` of a path. -/
def get (table : CAliasAddr Address) (path : Bytes) : Option Address :=
  (table.mmAddr path).map CSource.address

omit [DecidableEq Address] in
/-- `is_there` of a path. -/
def isThere (table : CAliasAddr Address) (path : Bytes) : Prop := table.mmAddr path ≠ none

omit [DecidableEq Address] in
theorem isThere_iff {table : CAliasAddr Address} {path : Bytes} :
    table.isThere path ↔ table.get path ≠ none := by
  simp [isThere, get]

omit [DecidableEq Address] in
/-- `get` of an address. -/
def getAlias (table : CAliasAddr Address) (address : Address) : Option AliasRef :=
  table.mmAlias address

/-- `insert`: whether it succeeded, `is_new` and the table. A null alias is refused, a null address
is dereferenced when the path is free. `is_new` is false on entry in every call. -/
def insert (table : CAliasAddr Address) (heap : AliasHeap) (pvdAlias : Option AliasRef)
    (address : Option Address) (connectFlag : Bool) :
    Outcome (Bool × Bool × CAliasAddr Address) :=
  match pvdAlias with
  | none => .ok (false, false, table)
  | some ref =>
      match table.mmAddr (heap.path ref) with
      | none =>
          match address with
          | none => .error .undefined
          | some address => do
              assertThat (table.mmAlias address = none)
              return (true, true,
                { mmAddr := table.mmAddr.insert (heap.path ref)
                    { address := address, connectFlag := connectFlag }
                  mmAlias := table.mmAlias.insert address ref })
      | some src =>
          if src.connectFlag = false then
            .ok (true, connectFlag,
              { table with
                mmAddr := table.mmAddr.insert (heap.path ref)
                  { src with connectFlag := connectFlag } })
          else .ok (true, false, table)

/-- `remove` of a path, with `remove_impl`. -/
def remove (table : CAliasAddr Address) (path : Bytes) : Outcome (CAliasAddr Address) :=
  match table.mmAddr path with
  | none => .ok table
  | some src => do
      assertThat (path ≠ [])
      return { mmAddr := table.mmAddr.erase path, mmAlias := table.mmAlias.erase src.address }

/-- `reset_connect_flag`: the flag that the path had, and the table without it. -/
def resetConnectFlag (table : CAliasAddr Address) (path : Bytes) : Bool × CAliasAddr Address :=
  match table.mmAddr path with
  | none => (false, table)
  | some src =>
      (src.connectFlag, { table with
        mmAddr := table.mmAddr.insert path { src with connectFlag := false } })

omit [DecidableEq Address] in
/-- The path has an entry whose connection flag is set. -/
def connected (table : CAliasAddr Address) (path : Bytes) : Bool :=
  ((table.mmAddr path).map CSource.connectFlag).getD false

/-- The path of the alias that is stored for an address. -/
def pathOf (table : CAliasAddr Address) (heap : AliasHeap) : PartialMap Address Bytes :=
  fun address => (table.mmAlias address).map heap.path

/-- Every entry is filed under the present path of its alias. -/
def Filed (table : CAliasAddr Address) (heap : AliasHeap) : Prop :=
  InverseMaps (table.get ·) (table.pathOf heap)

/-- What `insert` does: it stores a new pair, sets the flag of its entry, or does nothing. -/
theorem insert_effect {table table' : CAliasAddr Address} {heap : AliasHeap} {ref : AliasRef}
    {address : Option Address} {connectFlag res isNew : Bool}
    (h : table.insert heap (some ref) address connectFlag = .ok (res, isNew, table')) :
    res = true ∧
      ((∃ addr, address = some addr ∧ table.mmAddr (heap.path ref) = none ∧
          table.mmAlias addr = none ∧ isNew = true ∧
          table' = {
            mmAddr := table.mmAddr.insert (heap.path ref)
              { address := addr, connectFlag := connectFlag }
            mmAlias := table.mmAlias.insert addr ref }) ∨
        ∃ src, table.mmAddr (heap.path ref) = some src ∧
          (src.connectFlag = false ∧ isNew = connectFlag ∧
              table' = { table with
                mmAddr := table.mmAddr.insert (heap.path ref)
                  { src with connectFlag := connectFlag } } ∨
            src.connectFlag = true ∧ isNew = false ∧ table' = table)) := by
  simp only [insert] at h
  cases hsrc : table.mmAddr (heap.path ref) with
  | none =>
      cases address with
      | none => simp [hsrc] at h
      | some addr =>
          obtain ⟨halias, rfl, rfl, rfl⟩ :
              table.mmAlias addr = none ∧ true = res ∧ true = isNew ∧ _ = table' := by
            simpa [hsrc, bind_eq_ok] using h
          exact ⟨rfl, Or.inl ⟨addr, rfl, rfl, halias, rfl, rfl⟩⟩
  | some src =>
      cases hflag : src.connectFlag with
      | false =>
          obtain ⟨rfl, rfl, rfl⟩ : true = res ∧ connectFlag = isNew ∧ _ = table' := by
            simpa [hsrc, hflag] using h
          exact ⟨rfl, Or.inr ⟨src, rfl, Or.inl ⟨hflag, rfl, rfl⟩⟩⟩
      | true =>
          obtain ⟨rfl, rfl, rfl⟩ : true = res ∧ false = isNew ∧ table = table' := by
            simpa [hsrc, hflag] using h
          exact ⟨rfl, Or.inr ⟨src, rfl, Or.inr ⟨hflag, rfl, rfl⟩⟩⟩

/-- `insert` either stores a new pair or keeps all addresses and aliases. -/
theorem insert_cases {table table' : CAliasAddr Address} {heap : AliasHeap} {ref : AliasRef}
    {address : Option Address} {connectFlag res isNew : Bool}
    (h : table.insert heap (some ref) address connectFlag = .ok (res, isNew, table')) :
    res = true ∧
      ((∃ addr, address = some addr ∧ table.get (heap.path ref) = none ∧
          table.mmAlias addr = none ∧
          table'.get = PartialMap.insert table.get (heap.path ref) addr ∧
          table'.mmAlias = table.mmAlias.insert addr ref) ∨
        table.get (heap.path ref) ≠ none ∧ table'.get = table.get ∧
          table'.mmAlias = table.mmAlias) := by
  obtain ⟨rfl, ⟨addr, rfl, hsrc, halias, -, rfl⟩ | ⟨src, hsrc, hset⟩⟩ := insert_effect h
  · refine ⟨rfl, Or.inl ⟨addr, rfl, by simp [get, hsrc], halias, ?_, rfl⟩⟩
    funext path
    simp only [get, PartialMap.insert_apply]
    split <;> rfl
  · have hthere : table.get (heap.path ref) ≠ none := by simp [get, hsrc]
    obtain ⟨-, -, rfl⟩ | ⟨-, -, rfl⟩ := hset
    · refine ⟨rfl, Or.inr ⟨hthere, ?_, rfl⟩⟩
      funext path
      simp only [get, PartialMap.insert_apply]
      split
      · next hpath =>
          subst hpath
          simp [hsrc]
      · rfl
    · exact ⟨rfl, Or.inr ⟨hthere, rfl, rfl⟩⟩

/-- `insert` sets the flag of its path or leaves it, and reports a peer as new if a flag was to be
set and was not set before. -/
theorem insert_connected {table table' : CAliasAddr Address} {heap : AliasHeap} {ref : AliasRef}
    {address : Option Address} {connectFlag res isNew : Bool}
    (h : table.insert heap (some ref) address connectFlag = .ok (res, isNew, table')) :
    table'.connected = Function.update table.connected (heap.path ref)
        (table.connected (heap.path ref) || connectFlag) ∧
      (connectFlag = true → isNew = !table.connected (heap.path ref)) := by
  obtain ⟨-, ⟨addr, -, hsrc, -, rfl, rfl⟩ | ⟨src, hsrc, hset⟩⟩ := insert_effect h
  · constructor
    · funext path
      by_cases hpath : path = heap.path ref
      · simp [connected, hpath, hsrc]
      · simp [connected, hpath]
    · simp [connected, hsrc]
  · obtain ⟨hflag, rfl, rfl⟩ | ⟨hflag, rfl, rfl⟩ := hset
    · constructor
      · funext path
        by_cases hpath : path = heap.path ref
        · simp [connected, hpath, hsrc, hflag]
        · simp [connected, hpath]
      · simp [connected, hsrc, hflag]
    · constructor
      · funext path
        by_cases hpath : path = heap.path ref
        · simp [connected, hpath, hsrc, hflag]
        · simp [hpath]
      · simp [connected, hsrc, hflag]

omit [DecidableEq Address] in
/-- `reset_connect_flag` keeps everything but the flag of its path. -/
theorem resetConnectFlag_effect (table : CAliasAddr Address) (path : Bytes) :
    (table.resetConnectFlag path).1 = table.connected path ∧
      (table.resetConnectFlag path).2.connected = Function.update table.connected path false ∧
      (table.resetConnectFlag path).2.get = table.get ∧
      (table.resetConnectFlag path).2.mmAlias = table.mmAlias := by
  rw [resetConnectFlag]
  cases hsrc : table.mmAddr path with
  | none =>
      refine ⟨by simp [connected, hsrc], ?_, rfl, rfl⟩
      funext path'
      by_cases hpath : path' = path
      · simp [connected, hpath, hsrc]
      · simp [hpath]
  | some src =>
      refine ⟨by simp [connected, hsrc], ?_, ?_, rfl⟩
      · funext path'
        by_cases hpath : path' = path
        · simp [connected, hpath]
        · simp [connected, hpath]
      · funext path'
        by_cases hpath : path' = path
        · simp [get, hpath, hsrc]
        · simp [get, hpath]

/-- `remove` removes the entry of the path, if there is one, from both sides. -/
theorem remove_cases {table table' : CAliasAddr Address} {path : Bytes}
    (h : table.remove path = .ok table') :
    (table.get path = none ∧ table' = table) ∨
      ∃ addr, table.get path = some addr ∧ path ≠ [] ∧
        table'.get = PartialMap.erase table.get path ∧
        table'.mmAlias = table.mmAlias.erase addr := by
  rw [remove] at h
  cases hsrc : table.mmAddr path with
  | none =>
      obtain rfl : table = table' := by simpa [hsrc] using h
      exact Or.inl ⟨by simp [get, hsrc], rfl⟩
  | some src =>
      obtain ⟨hne, rfl⟩ : path ≠ [] ∧ _ = table' := by simpa [hsrc, bind_eq_ok] using h
      refine Or.inr ⟨src.address, by simp [get, hsrc], hne, ?_, rfl⟩
      funext path'
      simp only [get, PartialMap.erase_apply]
      split <;> rfl

/-- A stored path can be removed unless it is empty. -/
theorem remove_ok {table : CAliasAddr Address} {path : Bytes}
    (h : path = [] → table.get path = none) : ∃ table', table.remove path = .ok table' := by
  rw [remove]
  cases hsrc : table.mmAddr path with
  | none => exact ⟨table, rfl⟩
  | some src =>
      have hne : path ≠ [] := by
        intro hnil
        have hnone := h hnil
        simp [get, hsrc] at hnone
      simp [hne]

/-- An alias can be stored if its path is occupied, or if the address is there and new. -/
theorem insert_ok {table : CAliasAddr Address} {heap : AliasHeap} {ref : AliasRef}
    {address : Option Address} (connectFlag : Bool)
    (h : table.get (heap.path ref) ≠ none ∨
      ∃ addr, address = some addr ∧ table.mmAlias addr = none) :
    ∃ isNew table',
      table.insert heap (some ref) address connectFlag = .ok (true, isNew, table') := by
  simp only [insert]
  cases hsrc : table.mmAddr (heap.path ref) with
  | none =>
      obtain hthere | ⟨addr, rfl, hnew⟩ := h
      · simp [get, hsrc] at hthere
      · simp only [hnew, assertThat_pos, ok_bind, pure_eq_ok]
        exact ⟨true, _, rfl⟩
  | some src =>
      dsimp only
      split
      · exact ⟨connectFlag, _, rfl⟩
      · exact ⟨false, table, rfl⟩

/-- The table holds no reference that has not been made. -/
def Within (table : CAliasAddr Address) (bound : AliasRef) : Prop :=
  ∀ address ref, table.mmAlias address = some ref → ref < bound

theorem insert_within {table table' : CAliasAddr Address} {heap : AliasHeap} {ref bound : AliasRef}
    {address : Option Address} {connectFlag res isNew : Bool} (hwithin : table.Within bound)
    (href : ref < bound)
    (h : table.insert heap (some ref) address connectFlag = .ok (res, isNew, table')) :
    table'.Within bound := by
  obtain ⟨-, ⟨addr, -, -, -, -, halias⟩ | ⟨-, -, halias⟩⟩ := insert_cases h
  · intro addr' ref' hstored
    rw [halias, PartialMap.insert_apply] at hstored
    split at hstored
    · cases hstored
      exact href
    · exact hwithin addr' ref' hstored
  · intro addr' ref' hstored
    exact hwithin addr' ref' (by rw [← halias, hstored])

theorem remove_within {table table' : CAliasAddr Address} {path : Bytes} {bound : AliasRef}
    (hwithin : table.Within bound) (h : table.remove path = .ok table') :
    table'.Within bound := by
  obtain ⟨-, rfl⟩ | ⟨addr, -, -, -, halias⟩ := remove_cases h
  · exact hwithin
  · intro addr' ref' hstored
    rw [halias] at hstored
    exact hwithin addr' ref' (PartialMap.of_erase_eq_some hstored).2

omit [DecidableEq Address] in
theorem filed_empty (heap : AliasHeap) : (empty Address).Filed heap := InverseMaps.empty

omit [DecidableEq Address] in
/-- Flags do not matter for where entries are filed. -/
theorem Filed.congr {table table' : CAliasAddr Address} {heap : AliasHeap}
    (hfiled : table.Filed heap) (hget : table'.get = table.get)
    (halias : table'.mmAlias = table.mmAlias) : table'.Filed heap := by
  have hpathOf : table'.pathOf heap = table.pathOf heap := by
    funext addr
    simp only [pathOf, halias]
  rw [Filed, hpathOf, hget]
  exact hfiled

/-- Storing an alias under its present path keeps the table filed. -/
theorem Filed.insert {table table' : CAliasAddr Address} {heap : AliasHeap} {ref : AliasRef}
    {address : Option Address} {connectFlag res isNew : Bool} (hfiled : table.Filed heap)
    (h : table.insert heap (some ref) address connectFlag = .ok (res, isNew, table')) :
    table'.Filed heap := by
  obtain ⟨-, ⟨addr, -, hpath, halias, hget', halias'⟩ | ⟨-, hget', halias'⟩⟩ := insert_cases h
  · have hpathOf : table'.pathOf heap = (table.pathOf heap).insert addr (heap.path ref) := by
      funext addr'
      simp only [pathOf, halias', PartialMap.insert_apply]
      split <;> rfl
    rw [Filed, hpathOf, hget']
    exact InverseMaps.insert hfiled hpath (by simp [pathOf, halias])
  · exact hfiled.congr hget' halias'

theorem Filed.remove {table table' : CAliasAddr Address} {heap : AliasHeap} {path : Bytes}
    (hfiled : table.Filed heap) (h : table.remove path = .ok table') : table'.Filed heap := by
  obtain ⟨-, rfl⟩ | ⟨addr, hget, -, hget', halias'⟩ := remove_cases h
  · exact hfiled
  · have hpathOf : table'.pathOf heap = (table.pathOf heap).erase addr := by
      funext addr'
      simp only [pathOf, halias', PartialMap.erase_apply]
      split <;> rfl
    rw [Filed, hpathOf, hget']
    exact InverseMaps.erase hfiled hget

omit [DecidableEq Address] in
/-- A table stays filed while its aliases keep their names. -/
theorem Filed.of_objects {table : CAliasAddr Address} {heap heap' : AliasHeap} {bound : AliasRef}
    (hfiled : table.Filed heap) (hwithin : table.Within bound)
    (hobjects : ∀ ref, ref < bound → heap'.objects ref = heap.objects ref) :
    table.Filed heap' := by
  have hpathOf : table.pathOf heap' = table.pathOf heap := by
    funext addr
    cases hstored : table.mmAlias addr with
    | none => simp [pathOf, hstored]
    | some ref => simp [pathOf, hstored, AliasHeap.path, hobjects ref (hwithin addr ref hstored)]
  rw [Filed, hpathOf]
  exact hfiled

omit [DecidableEq Address] in
/-- No address is stored under two paths, and each one that is stored has an alias. -/
structure OneToOne (table : CAliasAddr Address) : Prop where
  stored : ∀ path address, table.get path = some address → table.mmAlias address ≠ none
  unique : ∀ path path' address, table.get path = some address →
    table.get path' = some address → path = path'

namespace OneToOne

variable {table table' : CAliasAddr Address}

omit [DecidableEq Address] in
theorem empty : (CAliasAddr.empty Address).OneToOne := by
  constructor
  · intro path address hstored
    cases hstored
  · intro path path' address hstored
    cases hstored

/-- The assertion of `insert` keeps the addresses apart. -/
theorem insert {heap : AliasHeap} {ref : AliasRef} {address : Option Address}
    {connectFlag res isNew : Bool} (h : table.OneToOne)
    (hinsert : table.insert heap (some ref) address connectFlag = .ok (res, isNew, table')) :
    table'.OneToOne := by
  obtain ⟨-, ⟨addr, -, hfree, hnew, hget, halias⟩ | ⟨-, hget, halias⟩⟩ := insert_cases hinsert
  · have hother : ∀ path, table.get path ≠ some addr :=
      fun path hstored => h.stored path addr hstored hnew
    constructor
    · intro path address' hstored
      rw [halias, PartialMap.insert_apply]
      split
      · exact Option.some_ne_none _
      · next hne =>
          rw [hget, PartialMap.insert_apply] at hstored
          split at hstored
          · exact absurd (Option.some.inj hstored).symm hne
          · exact h.stored path address' hstored
    · intro path path' address' hstored hstored'
      rw [hget, PartialMap.insert_apply] at hstored hstored'
      split at hstored
      · next hpath =>
          obtain rfl := Option.some.inj hstored
          split at hstored'
          · next hpath' => rw [hpath, hpath']
          · exact absurd hstored' (hother path')
      · split at hstored'
        · obtain rfl := Option.some.inj hstored'
          exact absurd hstored (hother path)
        · exact h.unique path path' address' hstored hstored'
  · constructor
    · rw [hget, halias]
      exact h.stored
    · rw [hget]
      exact h.unique

theorem remove {path : Bytes} (h : table.OneToOne) (hremove : table.remove path = .ok table') :
    table'.OneToOne := by
  obtain ⟨-, rfl⟩ | ⟨addr, hself, -, hget, halias⟩ := remove_cases hremove
  · exact h
  · constructor
    · intro path' address' hstored
      rw [hget] at hstored
      obtain ⟨hne, hold⟩ := PartialMap.of_erase_eq_some hstored
      have haddr : address' ≠ addr := by
        rintro rfl
        exact hne (h.unique path' path address' hold hself)
      rw [halias, PartialMap.erase_of_ne haddr]
      exact h.stored path' address' hold
    · intro path₁ path₂ address' hstored hstored'
      rw [hget] at hstored hstored'
      exact h.unique path₁ path₂ address' (PartialMap.of_erase_eq_some hstored).2
        (PartialMap.of_erase_eq_some hstored').2

end OneToOne

end CAliasAddr

end CommonCommunicator
