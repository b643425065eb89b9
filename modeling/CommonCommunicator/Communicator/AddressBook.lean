import CommonCommunicator.Communicator.ProviderPort

/-!
# The peers that a provider knows from the document

A provider starts with the aliases of its type from the alias manager, each
under its path and with the address that is made of its IP and port. Two of them
at addresses that the comparator does not tell apart end the process.
-/

namespace CommonCommunicator

open Lib

variable {Address : Type} {family : AddressFamily Address}

/-- The comparator tells the addresses apart. -/
def AddressFamily.Apart (family : AddressFamily Address) (addr addr' : Address) : Prop :=
  family.comparable addr ∧ family.comparable addr' ∧ family.rank addr ≠ family.rank addr'

namespace PeerTable

/-- The table has these aliases with these addresses, each under its path, and no others. -/
structure Resolves (family : AddressFamily Address) (s : PeerTable Address)
    (entries : List (AliasRef × Address)) : Prop where
  ordered : s.mmAli4addr.Ordered family.comparable family.rank
  paths : ∀ path, s.mmAli4addr.get path =
    (entries.find? fun entry => s.heap.path entry.1 = path).map Prod.snd
  addresses : ∀ entry, entry ∈ s.mmAli4addr.mmAlias ↔ (entry.2, entry.1) ∈ entries

variable {s s' : PeerTable Address} {entries : List (AliasRef × Address)} {pvd : AliasRef}
  {addr : Address} {connectFlag res : Bool}

namespace Resolves

/-- A path that no entry has is not stored. -/
theorem new_path (h : s.Resolves family entries)
    (hnew : ∀ entry ∈ entries, s.heap.path entry.1 ≠ s.heap.path pvd) :
    s.mmAli4addr.mmAddr (s.heap.path pvd) = none := by
  have hnone : s.mmAli4addr.get (s.heap.path pvd) = none := by
    rw [h.paths, Option.map_eq_none_iff, List.find?_eq_none]
    intro entry hmem
    simpa using hnew entry hmem
  exact Option.map_eq_none_iff.mp hnone

/-- An entry is found by its path, if no other has it. -/
theorem get_of_mem (h : s.Resolves family entries)
    (hnodup : (entries.map fun entry => s.heap.path entry.1).Nodup) {entry : AliasRef × Address}
    (hmem : entry ∈ entries) : s.mmAli4addr.get (s.heap.path entry.1) = some entry.2 := by
  rw [h.paths]
  cases hfind : entries.find? fun other => s.heap.path other.1 = s.heap.path entry.1 with
  | none =>
      have hnone := List.find?_eq_none.mp hfind entry hmem
      exact absurd (decide_eq_true rfl) hnone
  | some found =>
      have hpath : s.heap.path found.1 = s.heap.path entry.1 := by
        simpa using List.find?_some hfind
      rw [List.inj_on_of_nodup_map hnodup (List.mem_of_find?_eq_some hfind) hmem hpath]
      rfl

/-- Another alias is stored exactly if its address is apart from all that are there. -/
theorem insert_iff (h : s.Resolves family entries)
    (hnew : ∀ entry ∈ entries, s.heap.path entry.1 ≠ s.heap.path pvd) :
    (∃ r, s.insert family (some pvd) addr connectFlag = .ok r) ↔
      ∀ entry ∈ entries, family.Apart entry.2 addr := by
  have hnone := h.new_path hnew
  have hfresh : s.mmAli4addr.Fresh family.comparable family.rank addr ↔
      ∀ entry ∈ entries, family.Apart entry.2 addr := by
    constructor
    · intro hfresh entry hmem
      exact hfresh (entry.2, entry.1) ((h.addresses _).mpr hmem)
    · intro hapart entry hmem
      exact hapart (entry.2, entry.1) ((h.addresses entry).mp hmem)
  rw [← hfresh]
  constructor
  · rintro ⟨r, hr⟩
    obtain ⟨stored, hstored, -⟩ := bind_eq_ok.mp hr
    exact ((ComparedAliasAddr.insert_returns_iff family.ranked family.compared h.ordered).mp
      ⟨stored, hstored⟩).resolve_left fun hthere => hthere hnone
  · intro hfresh
    obtain ⟨stored, hstored⟩ : ∃ stored, s.mmAli4addr.insert family.less s.heap (some pvd) addr
        connectFlag = .ok stored :=
      (ComparedAliasAddr.insert_returns_iff family.ranked family.compared h.ordered).mpr
        (.inr hfresh)
    rw [PeerTable.insert, hstored]
    exact ⟨_, rfl⟩

/-- A table with one more alias. -/
theorem insert (h : s.Resolves family entries)
    (hnew : ∀ entry ∈ entries, s.heap.path entry.1 ≠ s.heap.path pvd)
    (hinsert : s.insert family (some pvd) addr connectFlag = .ok (res, s')) :
    s'.Resolves family (entries ++ [(pvd, addr)]) ∧ s'.heap = s.heap ∧
      s'.pvdAlias = s.pvdAlias := by
  obtain ⟨⟨res', isNew, table⟩, htable, hs'⟩ := bind_eq_ok.mp hinsert
  cases hs'
  obtain ⟨hmmAddr, hordered, hmem⟩ := ComparedAliasAddr.insert_new family.ranked family.compared
    h.ordered (h.new_path hnew) htable
  refine ⟨⟨hordered, ?_, ?_⟩, rfl, rfl⟩
  · intro path
    rw [ComparedAliasAddr.get, hmmAddr, PartialMap.insert_apply, List.find?_append]
    by_cases hpath : path = s.heap.path pvd
    · have hnone : entries.find? (fun entry => s.heap.path entry.1 = path) = none := by
        rw [List.find?_eq_none]
        intro entry hentry
        simpa [hpath] using hnew entry hentry
      rw [if_pos hpath, hnone, Option.none_or, List.find?_cons_of_pos (by simp [hpath])]
      rfl
    · have hold := h.paths path
      rw [ComparedAliasAddr.get] at hold
      rw [if_neg hpath, List.find?_cons_of_neg (by simpa using Ne.symm hpath), List.find?_nil,
        Option.or_none]
      exact hold
  · intro entry
    rw [hmem, h.addresses, List.mem_append, List.mem_singleton, or_comm, Prod.ext_iff, Prod.ext_iff,
      and_comm (a := entry.1 = (addr, pvd).1)]

end Resolves

end PeerTable

namespace AliasTree

variable {tree : AliasTree} {s : PeerTable Address} {pvd : AliasRef} {random : RandomNumbers}
  {addr : Address}

/-- The alias is one of the provider's type, and this is the address that is made for it. -/
def Maps (tree : AliasTree) (family : AddressFamily Address) (type : ProviderType)
    (entry : AliasRef × RandomNumbers) (made : AliasRef × Address) : Prop :=
  made.1 = entry.1 ∧ (tree.heap.objects entry.1).type = type ∧
    ∃ pvdAlias, tree.pvdData entry.1 = .trans pvdAlias ∧
      family.setIpPort pvdAlias.ip (pvdAlias.portNum % 2 ^ 16) entry.2 = .ok made.2

/-- A turn of the loop stores the address that is made for the alias. -/
theorem Maps.mapAlias {type : ProviderType}
    (h : tree.Maps family type (pvd, random) (pvd, addr)) (hheap : s.heap = tree.heap)
    (htype : s.providerType = type) :
    tree.mapAlias family s pvd random =
      (s.insert family (some pvd) addr false).map fun r => (addr, r.2) := by
  obtain ⟨-, rfl, pvdAlias, hdata, haddr⟩ := h
  rw [AliasTree.mapAlias, hdata]
  dsimp only
  rw [hheap, htype, assertThat_pos rfl, ok_bind, haddr, ok_bind]
  cases s.insert family (some pvd) addr false with
  | error f => rfl
  | ok r => rfl

/-- The loop of `update_alias_mapper` goes to its end exactly if all addresses are apart, and the
table has the aliases with their addresses then. -/
theorem updateAliasMapper_iff {type : ProviderType} {done : List (AliasRef × Address)}
    (hdone : s.Resolves family done) (hheap : s.heap = tree.heap) (htype : s.providerType = type)
    (hdoneApart : done.Pairwise fun a b => family.Apart a.2 b.2)
    {aliasList : List (AliasRef × RandomNumbers)} {made : List (AliasRef × Address)}
    (hmaps : List.Forall₂ (tree.Maps family type) aliasList made)
    (hpaths : ((done ++ made).map fun entry => tree.heap.path entry.1).Nodup) :
    ((∃ r, tree.updateAliasMapper family aliasList s = .ok r) ↔
      (done ++ made).Pairwise fun a b => family.Apart a.2 b.2) ∧
      ∀ built s', tree.updateAliasMapper family aliasList s = .ok (built, s') →
        s'.Resolves family (done ++ made) ∧ s'.heap = tree.heap ∧ s'.pvdAlias = s.pvdAlias := by
  induction hmaps generalizing s done with
  | nil =>
      rw [List.append_nil]
      refine ⟨iff_of_true ⟨_, rfl⟩ hdoneApart, ?_⟩
      rintro built s' ⟨⟩
      exact ⟨hdone, hheap, rfl⟩
  | @cons entry first aliasList made hfirst _ ih =>
      obtain ⟨pvd, random⟩ := entry
      obtain ⟨pvd', addr⟩ := first
      obtain rfl : pvd' = pvd := hfirst.1
      have hnew : ∀ entry ∈ done, s.heap.path entry.1 ≠ s.heap.path pvd' := by
        rw [List.map_append, List.nodup_append] at hpaths
        intro entry hmem
        rw [hheap]
        exact hpaths.2.2 _ (List.mem_map_of_mem hmem) _ (List.mem_cons_self ..)
      have hstored : (∃ r, s.insert family (some pvd') addr false = .ok r) ↔
          ∀ entry ∈ done, family.Apart entry.2 addr := hdone.insert_iff hnew
      rw [updateAliasMapper, hfirst.mapAlias hheap htype]
      cases hinsert : s.insert family (some pvd') addr false with
      | error f =>
          refine ⟨iff_of_false ?_ ?_, ?_⟩
          · rintro ⟨r, ⟨⟩⟩
          · intro hall
            rw [List.pairwise_append] at hall
            obtain ⟨r, hr⟩ := hstored.mpr fun entry hmem =>
              hall.2.2 entry hmem _ (List.mem_cons_self ..)
            rw [hinsert] at hr
            cases hr
          · rintro built s' ⟨⟩
      | ok r =>
          obtain ⟨res, s₁⟩ := r
          obtain ⟨hresolves, hheap₁, hself₁⟩ := hdone.insert hnew hinsert
          have happend : done ++ (pvd', addr) :: made = (done ++ [(pvd', addr)]) ++ made := by
            rw [List.append_assoc, List.singleton_append]
          have htype₁ : s₁.providerType = type := by
            rw [← htype, PeerTable.providerType, hheap₁, hself₁, PeerTable.providerType]
          have hapart₁ : (done ++ [(pvd', addr)]).Pairwise fun a b => family.Apart a.2 b.2 := by
            rw [List.pairwise_append]
            refine ⟨hdoneApart, List.pairwise_singleton .., ?_⟩
            intro entry hmem last hlast
            rw [List.mem_singleton.mp hlast]
            exact hstored.mp ⟨_, hinsert⟩ entry hmem
          obtain ⟨hiff, hbuilt⟩ := ih hresolves (hheap₁.trans hheap) htype₁ hapart₁
            (happend ▸ hpaths)
          rw [happend, ← hiff, Except.map, ok_bind]
          refine ⟨?_, ?_⟩
          · constructor
            · rintro ⟨r, hr⟩
              obtain ⟨rest, hrest, -⟩ := bind_eq_ok.mp hr
              exact ⟨rest, hrest⟩
            · rintro ⟨rest, hrest⟩
              refine ⟨((pvd', addr) :: rest.1, rest.2), ?_⟩
              dsimp only
              rw [hrest]
              rfl
          · intro built s' hr
            obtain ⟨⟨rest, last⟩, hrest, hr⟩ := bind_eq_ok.mp hr
            cases hr
            obtain ⟨hlast, hheap', hself'⟩ := hbuilt rest s' hrest
            exact ⟨hlast, hheap', hself'.trans hself₁⟩

theorem cleared_resolves (tree : AliasTree) (selfAlias : AliasRef) :
    (tree.cleared Address selfAlias).Resolves family [] where
  ordered := ComparedAliasAddr.ordered_empty
  paths _ := rfl
  addresses _ := by simp [cleared, ComparedAliasAddr.empty]

/-- The address table that a provider starts with. -/
def startProvider (tree : AliasTree) (family : AddressFamily Address)
    (randoms : Bytes → RandomNumbers) (selfAlias : AliasRef) : Outcome (PeerTable Address) := do
  let (_, s) ← tree.updateAliasMapper family
    ((tree.config.mmPvds (tree.heap.objects selfAlias).type).map fun pvd =>
      (pvd, randoms (tree.heap.path pvd))) (tree.cleared Address selfAlias)
  return s

end AliasTree

/-! ## What the document says of the providers -/

/-- The path under which a provider is known. -/
def fullPath (provider : Bytes × PvdLeaf) : Bytes :=
  IAliasPVD.makeFullPath provider.1 provider.2.name

/-- The address that is made for a provider of the document. -/
def AddressFor (family : AddressFamily Address) (randoms : Bytes → RandomNumbers)
    (provider : Bytes × PvdLeaf) (addr : Address) : Prop :=
  ∃ pvdAlias, provider.2.data = .trans pvdAlias ∧
    family.setIpPort pvdAlias.ip (pvdAlias.portNum % 2 ^ 16)
      (randoms (fullPath provider)) = .ok addr

mutual

theorem AppTree.isKey_leafName : (app : AppTree) → {path : List Bytes} →
    {leaf : List Bytes × PvdLeaf} → app.WellNamed → leaf ∈ app.leaves path → IsKey leaf.2.name
  | .single _ pvds, path, leaf, hnamed, h => by
      rw [AppTree.leaves, List.mem_map] at h
      rw [AppTree.WellNamed] at hnamed
      obtain ⟨pvd, hmem, rfl⟩ := h
      exact hnamed.1 pvd hmem
  | .multi _ apps, path, leaf, hnamed, h => by
      rw [AppTree.leaves] at h
      rw [AppTree.WellNamed] at hnamed
      exact apps.isKey_leafName hnamed h

/-- The name of a provider can be a part of a path. -/
theorem AppForest.isKey_leafName : (apps : AppForest) → {path : List Bytes} →
    {leaf : List Bytes × PvdLeaf} → apps.WellNamed → leaf ∈ apps.leaves path → IsKey leaf.2.name
  | .nil, _, _, _, h => by cases h
  | .cons name app rest, path, leaf, hnamed, h => by
      rw [AppForest.WellNamed] at hnamed
      obtain ⟨-, -, happ, hrest⟩ := hnamed
      rw [AppForest.leaves, List.mem_append] at h
      obtain h | h := h
      · exact app.isKey_leafName happ h
      · exact rest.isKey_leafName hrest h

end

mutual

theorem AppTree.leaf_readFrom : (app : AppTree) → {path : List Bytes} →
    {leaf : List Bytes × PvdLeaf} → {obj : CMjson} → app.ReadFrom obj → leaf ∈ app.leaves path →
    ∃ member, leaf.2.ReadFrom member
  | .single _ pvds, path, leaf, obj, hread, h => by
      rw [AppTree.leaves, List.mem_map] at h
      rw [AppTree.ReadFrom] at hread
      obtain ⟨pvd, hmem, rfl⟩ := h
      obtain ⟨-, -, members, -, -, -, -, -, -, hall⟩ := hread
      obtain ⟨i, hi, rfl⟩ := List.getElem_of_mem hmem
      exact ⟨_, hall.get hi (hall.length_eq ▸ hi)⟩
  | .multi _ apps, path, leaf, obj, hread, h => by
      rw [AppTree.leaves] at h
      rw [AppTree.ReadFrom] at hread
      obtain ⟨-, -, members, -, -, -, -, -, -, happs⟩ := hread
      exact apps.leaf_readFrom happs h

/-- Every provider is described by a member of the document. -/
theorem AppForest.leaf_readFrom : (apps : AppForest) → {path : List Bytes} →
    {leaf : List Bytes × PvdLeaf} → {members : CMjson} → apps.ReadFrom members →
    leaf ∈ apps.leaves path → ∃ member, leaf.2.ReadFrom member
  | .nil, _, _, _, _, h => by cases h
  | .cons name app rest, path, leaf, members, hread, h => by
      rw [AppForest.ReadFrom] at hread
      obtain ⟨key, obj, more, -, -, happ, hrest⟩ := hread
      rw [AppForest.leaves, List.mem_append] at h
      obtain h | h := h
      · exact app.leaf_readFrom happ h
      · exact rest.leaf_readFrom hrest h

end

namespace AppForest

variable {resources : AppForest} {document : Json} {type : ProviderType}

/-- The paths of the providers are different ones. -/
theorem nodup_fullPaths (hnamed : resources.WellNamed) :
    (resources.providers.map fullPath).Nodup := by
  have hkeys : ∀ leaf ∈ resources.leaves [], ∀ name ∈ leaf.1 ++ [leaf.2.name], IsKey name := by
    intro leaf hmem name hname
    obtain hname | hname := List.mem_append.mp hname
    · exact resources.isKey_of_mem_leaves hnamed (fun _ h => by cases h) hmem name hname
    · rw [List.mem_singleton.mp hname]
      exact resources.isKey_leafName hnamed hmem
  have hsame : resources.providers.map fullPath =
      ((resources.leaves []).map leafName).map fun k => joined (k.1 ++ [k.2]) := by
    rw [AppForest.providers, List.map_map, List.map_map]
    apply List.map_congr_left
    intro leaf hmem
    exact (joined_snoc (fun name hname => hkeys leaf hmem name (List.mem_append_left _ hname))
      leaf.2.name).symm
  rw [hsame]
  apply List.Nodup.map_on _ (resources.nodup_leaves hnamed)
  intro k hk k' hk' heq
  obtain ⟨leaf, hleaf, rfl⟩ := List.mem_map.mp hk
  obtain ⟨leaf', hleaf', rfl⟩ := List.mem_map.mp hk'
  have hparts := (joined_inj (hkeys leaf hleaf) (hkeys leaf' hleaf')).mp heq
  obtain ⟨hpath, hname⟩ := List.append_inj' hparts rfl
  exact Prod.ext hpath (List.singleton_inj.mp hname)

/-- The providers of a type, in the order of the document. -/
def providersOf (resources : AppForest) (type : ProviderType) : List (Bytes × PvdLeaf) :=
  resources.providers.filter fun provider => provider.2.type = type

/-- Every provider of a socket type has an address. -/
theorem DescribedBy.exists_addresses (hread : resources.DescribedBy document)
    (family : AddressFamily Address) (randoms : Bytes → RandomNumbers)
    (htype : type ≠ .serviceVsomeip) :
    ∃ addresses,
      List.Forall₂ (AddressFor family randoms) (resources.providersOf type) addresses := by
  obtain ⟨root, members, rfl, -, hmembers⟩ := hread
  have hall : ∀ provider ∈ resources.providersOf type,
      ∃ addr, AddressFor family randoms provider addr := by
    intro provider hmem
    obtain ⟨hmem, hof⟩ := List.mem_filter.mp hmem
    obtain ⟨leaf, hleaf, rfl⟩ := List.mem_map.mp hmem
    obtain ⟨member, -, obj, addr, -, -, -, hdata⟩ := resources.leaf_readFrom hmembers hleaf
    cases hpvd : leaf.2.data with
    | trans pvdAlias =>
        obtain ⟨made, hmade⟩ := family.made pvdAlias.ip (pvdAlias.portNum % 2 ^ 16)
          (randoms (fullPath (joined leaf.1, leaf.2)))
        exact ⟨made, pvdAlias, hpvd, hmade⟩
    | service service =>
        rw [hpvd] at hdata
        exact absurd ((of_decide_eq_true hof).symm.trans hdata.1) htype
  generalize resources.providersOf type = providers at hall
  induction providers with
  | nil => exact ⟨[], .nil⟩
  | cons provider providers ih =>
      obtain ⟨hfirst, hrest⟩ := List.forall_mem_cons.mp hall
      obtain ⟨addr, haddr⟩ := hfirst
      obtain ⟨addresses, haddresses⟩ := ih hrest
      exact ⟨addr :: addresses, .cons haddr haddresses⟩

/-- A load lists the providers of the document by type. -/
theorem DescribedBy.exists_tree (heap : AliasHeap) (hread : resources.DescribedBy document)
    (hnamed : resources.WellNamed) (hchain : ∀ entry ∈ resources.entries, entry.2.chain ≠ none) :
    ∃ (tree : AliasTree) (refs : List AliasRef), (AliasTree.empty heap).init document = .ok tree ∧
      refs.map tree.view = resources.providers ∧ (∀ ref ∈ refs, ref < tree.heap.nextRef) ∧
      ∀ pvdType, tree.config.mmPvds pvdType =
        refs.filter fun ref => (tree.heap.objects ref).type = pvdType := by
  obtain ⟨root, members, rfl, haliases, hmembers⟩ := hread
  have hdepth : Json.depthOfMembers members ≤ (Json.object root).depth := by
    rw [Json.depth]
    exact Nat.le_succ_of_le (Nat.le_of_lt (Json.depthOfMembers_lt_of_find haliases))
  obtain ⟨tree, hloop, hmakes, -⟩ := AliasTree.appendRscAliases_of_readFrom resources
    (AliasTree.empty heap) hnamed hmembers hdepth hchain
  have hinit : (AliasTree.empty heap).init (.object root) = .ok tree := by
    rw [AliasTree.init, CMjson.getSecondObject, ok_bind, haliases.getMemberObject, ok_bind, hloop]
  obtain ⟨-, hholds⟩ := AliasTree.listed_of_construct
    (show AliasTree.construct heap (some (.object root)) = .ok tree from hinit)
  have hcount : tree.heap.nextRef - heap.nextRef = resources.providers.length := by
    rw [hmakes.count]
    exact Nat.add_sub_cancel_left ..
  rw [hcount] at hholds
  have hviews : (List.range' heap.nextRef resources.providers.length).map tree.view =
      resources.providers := hmakes.views
  have hbound : ∀ ref ∈ List.range' heap.nextRef resources.providers.length,
      ref < tree.heap.nextRef := by
    intro ref hmem
    rw [hmakes.count]
    exact (List.mem_range'_1.mp hmem).2
  refine ⟨tree, _, hinit, hviews, hbound, ?_⟩
  intro pvdType
  rw [hholds.pvds]
  have hnodup : ((List.range' heap.nextRef resources.providers.length).map
      (CConfigAliases.nameOf tree.heap)).Nodup := by
    have hnames := AppForest.nodup_providers hnamed
    rw [← hviews, List.map_map] at hnames
    exact hnames
  exact firsts_of_nodup (hnodup.sublist (List.filter_sublist.map _))

/-- The aliases of a type with the addresses of their providers are what a provider of the type
starts with. -/
theorem maps_of_addresses {tree : AliasTree} {randoms : Bytes → RandomNumbers}
    {refs : List AliasRef} {addresses : List Address}
    (haddresses : List.Forall₂ (AddressFor family randoms) (refs.map tree.view) addresses)
    (htype : ∀ ref ∈ refs, (tree.heap.objects ref).type = type) :
    List.Forall₂ (tree.Maps family type)
      (refs.map fun ref => (ref, randoms (tree.heap.path ref))) (refs.zip addresses) := by
  induction refs generalizing addresses with
  | nil =>
      cases haddresses
      exact .nil
  | cons ref refs ih =>
      rw [List.map_cons, List.forall₂_cons_left_iff] at haddresses
      obtain ⟨addr, rest, ⟨pvdAlias, hdata, hmade⟩, hrest, rfl⟩ := haddresses
      obtain ⟨hfirst, htypes⟩ := List.forall_mem_cons.mp htype
      exact .cons ⟨rfl, hfirst, pvdAlias, hdata, hmade⟩ (ih hrest htypes)

/-- A provider knows the providers of its type that the document describes. -/
structure Knows (resources : AppForest) (family : AddressFamily Address) (type : ProviderType)
    (addresses : List Address) (s : PeerTable Address) : Prop where
  address : ∀ path, s.mmAli4addr.get path =
    (((resources.providersOf type).zip addresses).find? fun entry =>
      fullPath entry.1 = path).map Prod.snd
  peer : ∀ entry ∈ (resources.providersOf type).zip addresses, family.comparable entry.2 →
    ∃ ref, s.mmAli4addr.getAlias family.less entry.2 = .ok (some ref) ∧
      s.heap.path ref = fullPath entry.1
  stranger : ∀ addr, s.mmAli4addr.getAlias family.less addr = .ok none ↔
    ∀ made ∈ addresses, family.Apart made addr

/-- What a table of the aliases and their addresses knows. -/
theorem knows_of_resolves {tree : AliasTree} {s : PeerTable Address} {refs : List AliasRef}
    {addresses : List Address} (hresolves : s.Resolves family (refs.zip addresses))
    (hheap : s.heap = tree.heap) (hviews : refs.map tree.view = resources.providersOf type)
    (hlength : refs.length = addresses.length) : resources.Knows family type addresses s := by
  have hzip : (resources.providersOf type).zip addresses =
      (refs.zip addresses).map fun entry => (tree.view entry.1, entry.2) := by
    rw [← hviews, List.zip_map_left]
    rfl
  have hpath : ∀ ref, s.heap.path ref = fullPath (tree.view ref) := by
    intro ref
    rw [hheap]
    rfl
  refine ⟨?_, ?_, ?_⟩
  · intro path
    rw [hresolves.paths, hzip, List.find?_map, Option.map_map]
    simp only [hpath]
    rfl
  · intro entry hmem hcomparable
    rw [hzip] at hmem
    obtain ⟨⟨ref, addr⟩, hentry, rfl⟩ := List.mem_map.mp hmem
    exact ⟨ref, hresolves.ordered.getAlias_of_mem family.ranked
      ((hresolves.addresses (addr, ref)).mpr hentry) hcomparable hcomparable rfl, hpath ref⟩
  · intro addr
    rw [ComparedAliasAddr.getAlias_eq_none_iff family.ranked family.compared hresolves.ordered]
    constructor
    · intro hfresh made hmem
      rw [← List.map_snd_zip (Nat.le_of_eq hlength.symm)] at hmem
      obtain ⟨entry, hentry, rfl⟩ := List.mem_map.mp hmem
      exact hfresh (entry.2, entry.1) ((hresolves.addresses (entry.2, entry.1)).mpr hentry)
    · intro hapart entry hmem
      exact hapart entry.1 (List.of_mem_zip ((hresolves.addresses entry).mp hmem)).2

/-- A load of a document, with what a provider of a type starts with then. -/
structure Starts (resources : AppForest) (family : AddressFamily Address)
    (randoms : Bytes → RandomNumbers) (type : ProviderType) (tree : AliasTree)
    (addresses : List Address) : Prop where
  views : (tree.config.mmPvds type).map tree.view = resources.providersOf type
  length : (tree.config.mmPvds type).length = addresses.length
  made : ∀ ref ∈ tree.config.mmPvds type,
    ref < tree.heap.nextRef ∧ (tree.heap.objects ref).type = type
  paths : (((tree.config.mmPvds type).zip addresses).map fun entry =>
    tree.heap.path entry.1).Nodup
  starts : ∀ selfAlias ∈ tree.config.mmPvds type,
    (∃ s, tree.startProvider family randoms selfAlias = .ok s) ↔ addresses.Pairwise family.Apart
  started : ∀ selfAlias ∈ tree.config.mmPvds type, ∀ s,
    tree.startProvider family randoms selfAlias = .ok s →
      s.Resolves family ((tree.config.mmPvds type).zip addresses) ∧ s.heap = tree.heap ∧
        s.pvdAlias = selfAlias

/-- The providers of a load start with the addresses of their type. -/
theorem starts_of_lists {tree : AliasTree} {all : List AliasRef} {addresses : List Address}
    {randoms : Bytes → RandomNumbers} (hnamed : resources.WellNamed)
    (hviews : all.map tree.view = resources.providers)
    (hbound : ∀ ref ∈ all, ref < tree.heap.nextRef)
    (hlists : ∀ pvdType, tree.config.mmPvds pvdType =
      all.filter fun ref => (tree.heap.objects ref).type = pvdType)
    (haddresses : List.Forall₂ (AddressFor family randoms) (resources.providersOf type) addresses) :
    resources.Starts family randoms type tree addresses := by
  have hrefs : (tree.config.mmPvds type).map tree.view = resources.providersOf type := by
    rw [hlists, providersOf, ← hviews, List.filter_map]
    rfl
  have hmade : ∀ ref ∈ tree.config.mmPvds type,
      ref < tree.heap.nextRef ∧ (tree.heap.objects ref).type = type := by
    intro ref hmem
    rw [hlists, List.mem_filter] at hmem
    exact ⟨hbound ref hmem.1, of_decide_eq_true hmem.2⟩
  have hlength : (tree.config.mmPvds type).length = addresses.length := by
    rw [← haddresses.length_eq, ← hrefs, List.length_map]
  have hmaps := maps_of_addresses (hrefs ▸ haddresses) fun ref hmem => (hmade ref hmem).2
  have hpaths : (((tree.config.mmPvds type).zip addresses).map fun entry =>
      tree.heap.path entry.1).Nodup := by
    have hnodup : ((resources.providersOf type).map fullPath).Nodup :=
      (resources.nodup_fullPaths hnamed).sublist (List.filter_sublist.map fullPath)
    rw [← hrefs, List.map_map] at hnodup
    have hfst : ((tree.config.mmPvds type).zip addresses).map (fun entry =>
        tree.heap.path entry.1) = (tree.config.mmPvds type).map (fullPath ∘ tree.view) := by
      conv_rhs => rw [← List.map_fst_zip (Nat.le_of_eq hlength), List.map_map]
      rfl
    rw [hfst]
    exact hnodup
  have hloop := fun selfAlias (hself : selfAlias ∈ tree.config.mmPvds type) =>
    AliasTree.updateAliasMapper_iff (tree.cleared_resolves selfAlias) rfl
      (hmade selfAlias hself).2 .nil hmaps (by rwa [List.nil_append])
  have hapart : ((tree.config.mmPvds type).zip addresses).Pairwise (fun a b =>
      family.Apart a.2 b.2) ↔ addresses.Pairwise family.Apart := by
    conv_rhs => rw [← List.map_snd_zip (Nat.le_of_eq hlength.symm), List.pairwise_map]
  refine ⟨hrefs, hlength, hmade, hpaths, ?_, ?_⟩
  · intro selfAlias hself
    have hiff := (hloop selfAlias hself).1
    rw [List.nil_append, hapart] at hiff
    rw [← hiff, AliasTree.startProvider, (hmade selfAlias hself).2]
    constructor
    · rintro ⟨s, hs⟩
      obtain ⟨r, hr, -⟩ := bind_eq_ok.mp hs
      exact ⟨r, hr⟩
    · rintro ⟨r, hr⟩
      rw [hr]
      exact ⟨_, rfl⟩
  · intro selfAlias hself s hs
    rw [AliasTree.startProvider, (hmade selfAlias hself).2] at hs
    obtain ⟨⟨built, last⟩, hr, hs⟩ := bind_eq_ok.mp hs
    cases hs
    exact (hloop selfAlias hself).2 built s hr

/-- Whatever addresses are made for the providers of a document, they start with these. -/
theorem DescribedBy.starts {heap : AliasHeap} {tree : AliasTree} {addresses : List Address}
    {randoms : Bytes → RandomNumbers} (hread : resources.DescribedBy document)
    (hnamed : resources.WellNamed) (hchain : ∀ entry ∈ resources.entries, entry.2.chain ≠ none)
    (htree : AliasTree.construct heap (some document) = .ok tree)
    (haddresses : List.Forall₂ (AddressFor family randoms) (resources.providersOf type) addresses) :
    resources.Starts family randoms type tree addresses := by
  obtain ⟨loaded, all, hinit, hviews, hbound, hlists⟩ := hread.exists_tree heap hnamed hchain
  obtain rfl : loaded = tree := Except.ok.inj (hinit.symm.trans htree)
  exact starts_of_lists hnamed hviews hbound hlists haddresses

/-- A document whose providers can be told apart by name loads, and its providers start with their
addresses. -/
theorem DescribedBy.exists_starts (heap : AliasHeap) (hread : resources.DescribedBy document)
    (hnamed : resources.WellNamed) (hchain : ∀ entry ∈ resources.entries, entry.2.chain ≠ none)
    (family : AddressFamily Address) (randoms : Bytes → RandomNumbers)
    (htype : type ≠ .serviceVsomeip) :
    ∃ tree addresses, AliasTree.construct heap (some document) = .ok tree ∧
      List.Forall₂ (AddressFor family randoms) (resources.providersOf type) addresses ∧
      resources.Starts family randoms type tree addresses := by
  obtain ⟨tree, -, hinit, -⟩ := hread.exists_tree heap hnamed hchain
  obtain ⟨addresses, haddresses⟩ := hread.exists_addresses family randoms htype
  exact ⟨tree, addresses, hinit, haddresses, hread.starts hnamed hchain hinit haddresses⟩

/-- A provider starts from a document exactly if the comparator tells the addresses of its type
apart. It knows each provider by its path and by its address then, and no others. -/
theorem described_peers_iff (heap : AliasHeap) (hread : resources.DescribedBy document)
    (hnamed : resources.WellNamed) (hchain : ∀ entry ∈ resources.entries, entry.2.chain ≠ none)
    (family : AddressFamily Address) (randoms : Bytes → RandomNumbers)
    (htype : type ≠ .serviceVsomeip) :
    ∃ tree addresses, AliasTree.construct heap (some document) = .ok tree ∧
      List.Forall₂ (AddressFor family randoms) (resources.providersOf type) addresses ∧
      ∀ selfAlias ∈ tree.config.mmPvds type,
        ((∃ s, tree.startProvider family randoms selfAlias = .ok s) ↔
          addresses.Pairwise family.Apart) ∧
        ∀ s, tree.startProvider family randoms selfAlias = .ok s →
          resources.Knows family type addresses s := by
  obtain ⟨tree, addresses, htree, haddresses, hstarts⟩ :=
    hread.exists_starts heap hnamed hchain family randoms htype
  refine ⟨tree, addresses, htree, haddresses, ?_⟩
  intro selfAlias hself
  refine ⟨hstarts.starts selfAlias hself, ?_⟩
  intro s hs
  obtain ⟨hresolves, hheap, -⟩ := hstarts.started selfAlias hself s hs
  exact knows_of_resolves hresolves hheap hstarts.views hstarts.length

/-- The provider at port 12 is known by its path and by its address. -/
theorem described_peers_house : ∃ tree s addr ref,
    AliasTree.construct AliasTree.noAliases (some AliasTree.houseDocument) = .ok tree ∧
      tree.startProvider (.inet fun _ => 0) (fun _ => CinetUds.someNumbers) 0 = .ok s ∧
      s.mmAli4addr.get (literal "A/b/p") = some addr ∧
      s.mmAli4addr.getAlias (AddressFamily.inet fun _ => 0).less addr = .ok (some ref) ∧
      s.heap.path ref = literal "A/b/p" := by
  have hchain : ∀ entry ∈ AliasTree.house.entries, entry.2.chain ≠ none := by
    intro entry hmem
    rw [show AliasTree.house.entries = [(literal "A", _)] from rfl, List.mem_singleton] at hmem
    subst hmem
    exact Option.some_ne_none _
  obtain ⟨loaded, hloaded, hself⟩ : ∃ tree,
      AliasTree.construct AliasTree.noAliases (some AliasTree.houseDocument) = .ok tree ∧
        tree.config.mmPvds .transUDP = [0] := ⟨_, rfl, rfl⟩
  obtain ⟨tree, addresses, htree, haddresses, hstarts⟩ := described_peers_iff AliasTree.noAliases
    AliasTree.house_describedBy AliasTree.house_wellNamed hchain (.inet fun _ => 0)
    (fun _ => CinetUds.someNumbers) (by decide : ProviderType.transUDP ≠ .serviceVsomeip)
  obtain rfl := Except.ok.inj (hloaded.symm.trans htree)
  obtain ⟨addr, rest, -, hrest, rfl⟩ := List.forall₂_cons_left_iff.mp haddresses
  obtain rfl := List.forall₂_nil_left_iff.mp hrest
  obtain ⟨hiff, hknows⟩ := hstarts 0 (hself ▸ List.mem_cons_self ..)
  obtain ⟨s, hs⟩ := hiff.mpr (List.pairwise_singleton ..)
  obtain ⟨ref, hget, hpath⟩ := (hknows s hs).peer _ (List.mem_cons_self ..) trivial
  exact ⟨loaded, s, addr, ref, hloaded, hs, (hknows s hs).address _, hget, hpath⟩

end AppForest

end CommonCommunicator
