import CommonCommunicator.Alias.AliasAddr
import CommonCommunicator.Lib.GuardedRun

/-!
# The two halves of an alias table

Every operation of `CAliasAddr` has to move both maps together. `remove` of an
address looks the other key up as the name of the alias, which is its path only
if the alias has no application path. The other operations keep the two maps
inverse to each other.
-/

namespace CommonCommunicator

open Lib

namespace CAliasAddr

variable {Address : Type} [DecidableEq Address]

/-- `insert` of an address by value, of which it makes a copy. -/
def insertCopy (table : CAliasAddr Address) (heap : AliasHeap) (pvdAlias : Option AliasRef)
    (address : Address) (connectFlag : Bool) : Outcome (Bool × Bool × CAliasAddr Address) :=
  table.insert heap pvdAlias (some address) connectFlag

/-- `remove` of an address, with `remove_impl`, which is given the name of the alias as path. -/
def removeAddress (table : CAliasAddr Address) (heap : AliasHeap) (addr : Address) :
    Outcome (CAliasAddr Address) :=
  match table.getAlias addr with
  | none => .ok table
  | some pvdAlias => do
      let pvdFullPath := (heap.objects pvdAlias).name
      assertThat (pvdFullPath ≠ [])
      return { mmAddr := table.mmAddr.erase pvdFullPath, mmAlias := table.mmAlias.erase addr }

omit [DecidableEq Address] in
/-- `clear`. -/
def clear (_ : CAliasAddr Address) : CAliasAddr Address := empty Address

/-- The calls that change a table. -/
inductive Call (Address : Type)
  | insertCopy (pvdAlias : Option AliasRef) (address : Address) (connectFlag : Bool)
  | insert (pvdAlias : Option AliasRef) (address : Option Address) (connectFlag : Bool)
  | remove (path : Bytes)
  | removeAddress (addr : Address)
  | resetConnectFlag (path : Bytes)
  | clear

/-- The table behind a call. There is none where the call aborts. -/
def perform (heap : AliasHeap) (table : CAliasAddr Address) :
    Call Address → Outcome (CAliasAddr Address)
  | .insertCopy pvdAlias address connectFlag => do
      let (_, _, table) ← table.insertCopy heap pvdAlias address connectFlag
      return table
  | .insert pvdAlias address connectFlag => do
      let (_, _, table) ← table.insert heap pvdAlias address connectFlag
      return table
  | .remove path => table.remove path
  | .removeAddress addr => table.removeAddress heap addr
  | .resetConnectFlag path => .ok (table.resetConnectFlag path).2
  | .clear => .ok table.clear

/-- The calls as steps. The alias objects keep their names. -/
def next (heap : AliasHeap) (table : CAliasAddr Address) (call : Call Address) :
    Option (CAliasAddr Address) := (perform heap table call).toOption

/-- A call that removes takes both halves of the pair that it names out of the table, and nothing
else. -/
def RemovesPair (heap : AliasHeap) (table : CAliasAddr Address) (call : Call Address) : Prop :=
  match call with
  | .remove path => ∀ table', next heap table call = some table' →
      (table.get path = none → table' = table) ∧
        ∀ addr, table.get path = some addr → table'.get = PartialMap.erase table.get path ∧
          table'.mmAlias = table.mmAlias.erase addr
  | .removeAddress addr => ∀ table', next heap table call = some table' →
      (table.getAlias addr = none → table' = table) ∧
        ∀ ref, table.getAlias addr = some ref →
          table'.get = PartialMap.erase table.get (heap.path ref) ∧
            table'.mmAlias = table.mmAlias.erase addr
  | _ => True

/-- The alias of an address that is removed has no application path. -/
def NamesWholePath (heap : AliasHeap) (table : CAliasAddr Address) : Call Address → Prop
  | .removeAddress addr =>
      ∀ ref, table.getAlias addr = some ref → (heap.objects ref).pathParent = []
  | _ => True

/-- The name of an alias is its path if it has no application path, and only then. -/
theorem path_eq_name_iff {pvd : IAliasPVD} : pvd.path = pvd.name ↔ pvd.pathParent = [] := by
  rw [IAliasPVD.path, IAliasPVD.makeFullPath]
  constructor
  · intro hpath
    by_contra hne
    rw [if_pos hne] at hpath
    have hlength := congrArg List.length hpath
    simp only [List.length_append, List.length_cons] at hlength
    omega
  · intro hnil
    rw [if_neg (not_not.mpr hnil)]

/-- A call returns the table behind it or there is no next one. -/
theorem next_eq_some {heap : AliasHeap} {table table' : CAliasAddr Address} {call : Call Address} :
    next heap table call = some table' ↔ perform heap table call = .ok table' := by
  rw [next]
  cases perform heap table call with
  | error f => simp [Except.toOption]
  | ok mid => simp [Except.toOption]

variable {heap : AliasHeap} {table table' : CAliasAddr Address}

/-- What `remove` of an address erases. -/
theorem removeAddress_cases {addr : Address} (h : table.removeAddress heap addr = .ok table') :
    (table.getAlias addr = none ∧ table' = table) ∨
      ∃ ref, table.getAlias addr = some ref ∧
        table'.get = PartialMap.erase table.get (heap.objects ref).name ∧
        table'.mmAlias = table.mmAlias.erase addr := by
  rw [removeAddress] at h
  cases halias : table.getAlias addr with
  | none =>
      obtain rfl : table = table' := by simpa [halias] using h
      exact Or.inl ⟨rfl, rfl⟩
  | some ref =>
      obtain ⟨-, rfl⟩ : (heap.objects ref).name ≠ [] ∧ _ = table' := by
        simpa [halias, bind_eq_ok] using h
      refine Or.inr ⟨ref, rfl, ?_, rfl⟩
      funext path
      simp only [get, PartialMap.erase_apply]
      split <;> rfl

/-- A pair of a path and the address stored for it may be taken out. -/
theorem Filed.erase (hfiled : table.Filed heap) {path : Bytes} {addr : Address}
    (hstored : table.get path = some addr) (hget : table'.get = PartialMap.erase table.get path)
    (halias : table'.mmAlias = table.mmAlias.erase addr) : table'.Filed heap := by
  have hpathOf : table'.pathOf heap = (table.pathOf heap).erase addr := by
    funext addr'
    simp only [pathOf, halias, PartialMap.erase_apply]
    split <;> rfl
  rw [Filed, hpathOf, hget]
  exact InverseMaps.erase hfiled hstored

omit [DecidableEq Address] in
/-- The stored path of an address is the path of its alias. -/
theorem Filed.get_path (hfiled : table.Filed heap) {addr : Address} {ref : AliasRef}
    (halias : table.getAlias addr = some ref) : table.get (heap.path ref) = some addr := by
  apply (hfiled (heap.path ref) addr).mpr
  simp only [getAlias] at halias
  simp [pathOf, halias]

/-- A call of `insert` with a null alias changes nothing. -/
theorem Filed.insert_result (hfiled : table.Filed heap) {pvdAlias : Option AliasRef}
    {address : Option Address} {connectFlag : Bool}
    (h : (do
      let (_, _, table) ← table.insert heap pvdAlias address connectFlag
      return table) = Except.ok table') : table'.Filed heap := by
  obtain ⟨⟨res, isNew, mid⟩, hinsert, hmid⟩ := bind_eq_ok.mp h
  cases hmid
  cases pvdAlias with
  | none =>
      cases hinsert
      exact hfiled
  | some ref => exact Filed.insert hfiled hinsert

/-- Every call but the removal of an address keeps the maps inverse to each other; that one does if
the alias has no application path. -/
theorem Filed.next (hfiled : table.Filed heap) {call : Call Address}
    (hwhole : NamesWholePath heap table call) (h : next heap table call = some table') :
    table'.Filed heap := by
  rw [next_eq_some] at h
  cases call with
  | insertCopy pvdAlias address connectFlag => exact hfiled.insert_result h
  | insert pvdAlias address connectFlag => exact hfiled.insert_result h
  | remove path => exact Filed.remove hfiled h
  | removeAddress addr =>
      obtain ⟨-, rfl⟩ | ⟨ref, halias, hget, halias'⟩ := removeAddress_cases h
      · exact hfiled
      · have hname : (heap.objects ref).name = heap.path ref :=
          (path_eq_name_iff.mpr (hwhole ref halias)).symm
        rw [hname] at hget
        exact hfiled.erase (hfiled.get_path halias) hget halias'
  | resetConnectFlag path =>
      cases h
      obtain ⟨-, -, hget, halias⟩ := resetConnectFlag_effect table path
      exact hfiled.congr hget halias
  | clear =>
      cases h
      exact filed_empty heap

/-- The removal of an address whose alias has an application path leaves its path behind. -/
theorem not_filed_of_parent (hfiled : table.Filed heap) {call : Call Address}
    (hparent : ¬NamesWholePath heap table call) (h : next heap table call = some table') :
    ¬table'.Filed heap := by
  rw [next_eq_some] at h
  cases call with
  | removeAddress addr =>
      obtain ⟨ref, hne⟩ := not_forall.mp hparent
      obtain ⟨halias, hparent⟩ := Classical.not_imp.mp hne
      obtain ⟨hnone, -⟩ | ⟨ref', halias', hget, hgetAlias⟩ := removeAddress_cases h
      · rw [hnone] at halias
        cases halias
      · obtain rfl := Option.some.inj (halias.symm.trans halias')
        have hpath : heap.path ref ≠ (heap.objects ref).name :=
          fun heq => hparent (path_eq_name_iff.mp heq)
        intro hfiled'
        have hleft : table'.get (heap.path ref) = some addr := by
          rw [hget, PartialMap.erase_of_ne hpath]
          exact hfiled.get_path halias
        have hgone : table'.pathOf heap addr = none := by
          simp [pathOf, hgetAlias]
        rw [(hfiled' (heap.path ref) addr).mp hleft] at hgone
        cases hgone
  | insertCopy pvdAlias address connectFlag => exact absurd trivial hparent
  | insert pvdAlias address connectFlag => exact absurd trivial hparent
  | remove path => exact absurd trivial hparent
  | resetConnectFlag path => exact absurd trivial hparent
  | clear => exact absurd trivial hparent

/-- A removal takes out its pair if it names the whole path. -/
theorem removesPair_of_whole {call : Call Address} (hwhole : NamesWholePath heap table call) :
    RemovesPair heap table call := by
  cases call with
  | remove path =>
      intro table' h
      obtain ⟨hnone, rfl⟩ | ⟨addr, hstored, -, hget, halias⟩ := remove_cases (next_eq_some.mp h)
      · refine ⟨fun _ => rfl, ?_⟩
        intro addr hstored
        rw [hnone] at hstored
        cases hstored
      · constructor
        · intro hnone
          rw [hnone] at hstored
          cases hstored
        · intro addr' hstored'
          obtain rfl := Option.some.inj (hstored.symm.trans hstored')
          exact ⟨hget, halias⟩
  | removeAddress addr =>
      intro table' h
      obtain ⟨hnone, rfl⟩ | ⟨ref, halias, hget, halias'⟩ :=
        removeAddress_cases (next_eq_some.mp h)
      · refine ⟨fun _ => rfl, ?_⟩
        intro ref halias
        rw [hnone] at halias
        cases halias
      · constructor
        · intro hnone
          rw [hnone] at halias
          cases halias
        · intro ref' halias''
          obtain rfl := Option.some.inj (halias.symm.trans halias'')
          have hname : (heap.objects ref).name = heap.path ref :=
            (path_eq_name_iff.mpr (hwhole ref halias)).symm
          exact ⟨hname ▸ hget, halias'⟩
  | insertCopy pvdAlias address connectFlag => trivial
  | insert pvdAlias address connectFlag => trivial
  | resetConnectFlag path => trivial
  | clear => trivial

/-- The two maps are inverse to each other after every call of a run, and every removal takes out
exactly its pair, if and only if each alias whose address is removed has no application path. -/
theorem inverse_along_iff (heap : AliasHeap) {calls : List (Call Address)}
    {table : CAliasAddr Address} (h : execute (next heap) (empty Address) calls = some table) :
    (Along (next heap) (fun table => table.Filed heap) (empty Address) calls ∧
        Meets (next heap) (RemovesPair heap) (empty Address) calls) ↔
      Meets (next heap) (NamesWholePath heap) (empty Address) calls := by
  have hiff : Along (next heap) (fun table => table.Filed heap) (empty Address) calls ↔
      Meets (next heap) (NamesWholePath heap) (empty Address) calls := by
    apply along_iff_meets (fun table => table.Filed heap) _ _ _ (filed_empty heap) h
    · exact fun table hfiled => hfiled
    · exact fun table call table' hfiled hwhole hstep => hfiled.next hwhole hstep
    · exact fun table call table' hfiled hparent hstep => not_filed_of_parent hfiled hparent hstep
  constructor
  · rintro ⟨halong, -⟩
    exact hiff.mp halong
  · intro hwhole
    exact ⟨hiff.mpr hwhole, hwhole.mono fun _ _ => removesPair_of_whole⟩

/-- One alias object with this application path and the name `p`. -/
def peerHeap (pathParent : Bytes) : AliasHeap :=
  { objects := fun _ => {
      pathParent := pathParent
      name := [0x70]
      type := .transTCP
      convertible := IAliasPVD.convertible_transTCP }
    nextRef := 1 }

/-- A peer without application path is stored and removed again by its address. -/
theorem peer_removed :
    ∃ table, execute (next (peerHeap [])) (empty Nat)
        [.insert (some 0) (some 7) true, .removeAddress 7] = some table ∧
      table.Filed (peerHeap []) := by
  have hexecute : execute (next (peerHeap [])) (empty Nat)
      [.insert (some 0) (some 7) true, .removeAddress 7] = some _ := rfl
  have hwhole : Meets (next (peerHeap [])) (NamesWholePath (peerHeap [])) (empty Nat)
      [.insert (some 0) (some 7) true, .removeAddress 7] := ⟨trivial, fun _ _ => rfl, trivial⟩
  obtain ⟨⟨-, -, hfiled⟩, -⟩ := (inverse_along_iff (peerHeap []) hexecute).mpr hwhole
  exact ⟨_, hexecute, hfiled⟩

/-- A peer of the application `a` keeps its path when it is removed by its address. -/
theorem peer_half_removed :
    ¬∀ (heap : AliasHeap) (calls : List (Call Nat)) (table : CAliasAddr Nat),
      execute (next heap) (empty Nat) calls = some table → table.Filed heap := by
  intro hfiled
  have hexecute : execute (next (peerHeap [0x61])) (empty Nat)
      [.insert (some 0) (some 7) true, .removeAddress 7] = some _ := rfl
  have hback := (hfiled (peerHeap [0x61]) _ _ hexecute [0x61, 0x2F, 0x70] 7).mp rfl
  cases hback

end CAliasAddr

end CommonCommunicator
