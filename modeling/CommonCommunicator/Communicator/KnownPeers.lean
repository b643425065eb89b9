import CommonCommunicator.Communicator.AddressBook

/-!
# Described peers along a run

The address table of a provider only grows: no operation takes a path or an
address out of it. As long as the aliases keep their names, a described path
therefore names exactly the address of the document in every state, and neither
the datagrams of a described peer nor a connection to it end the process.
-/

namespace CommonCommunicator

open Lib

variable {Address : Type} {family : AddressFamily Address}

namespace AddressFamily

/-- The IPs that are read from addresses have no `/`. -/
def PlainNames (family : AddressFamily Address) : Prop :=
  ∀ addr ipport, family.getIpPort addr = .ok (some ipport) → IAliasPVD.slash ∉ ipport.ip

theorem plainNames_inet (inetAddr : Bytes → UInt32) : (inet inetAddr).PlainNames := by
  rintro addr ipport ⟨⟩
  have hdigits (n : Nat) : IAliasPVD.slash ∉ CString.printUnsigned n :=
    CString.notMem_printUnsigned n rfl
  have hdot : IAliasPVD.slash ≠ 0x2E := by decide
  simp [inetNtop, CaliasCmpfunc.dotted, hdigits, hdot]

theorem plainNames_uds (inetAddr : Bytes → UInt32) : (uds inetAddr).PlainNames := by
  intro addr ipport h
  obtain ⟨sunPath, -, h⟩ := bind_eq_ok.mp h
  split at h
  · cases h
  · split at h
    · cases h
    · next startPos hbehind =>
        obtain ⟨-, -, h⟩ := bind_eq_ok.mp h
        cases h
        obtain ⟨-, -, hname⟩ := CString.behindLast_eq_some hbehind
        intro hslash
        have hfirst := (CString.strtok_prefix CinetUds.colon _).subset hslash
        exact hname ((CString.strtok_prefix CinetUds.underscore startPos).subset hfirst)

end AddressFamily

namespace PeerTable

variable {transport : Transport} {pvd : IAliasPVD} {s s' s₁ : PeerTable Address}
  {bound : AliasRef} {addr : Address} {connectFlag res : Bool} {pvdAlias : Option AliasRef}

/-- Every stored alias has been made, and its path has the address under which it is stored. -/
structure Coherent (family : AddressFamily Address) (s : PeerTable Address) : Prop where
  ordered : s.mmAli4addr.Ordered family.comparable family.rank
  made : ∀ entry ∈ s.mmAli4addr.mmAlias, entry.2 < s.heap.nextRef
  path : ∀ entry ∈ s.mmAli4addr.mmAlias,
    s.mmAli4addr.get (s.heap.path entry.2) = some entry.1

namespace Coherent

theorem make (h : s.Coherent family) (pvd : IAliasPVD) : (s.make pvd).Coherent family where
  ordered := h.ordered
  made entry hmem := Nat.lt_succ_of_lt (h.made entry hmem)
  path entry hmem := by
    rw [AliasHeap.path, PeerTable.make, AliasHeap.make_objects_of_lt pvd (h.made entry hmem)]
    exact h.path entry hmem

theorem insert (h : s.Coherent family) (hmade : ∀ ref, pvdAlias = some ref → ref < s.heap.nextRef)
    (hinsert : s.insert family pvdAlias addr connectFlag = .ok (res, s')) :
    s'.Coherent family := by
  obtain ⟨⟨res', isNew, table⟩, htable, hs'⟩ := bind_eq_ok.mp hinsert
  cases hs'
  cases pvdAlias with
  | none =>
      cases htable
      exact h
  | some ref =>
      obtain ⟨-, hordered, -⟩ :=
        ComparedAliasAddr.insert_cases family.ranked family.compared h.ordered htable
      obtain ⟨-, hentries⟩ :=
        ComparedAliasAddr.mem_insert family.ranked family.compared h.ordered htable
      refine ⟨hordered, ?_, ?_⟩
      · intro entry hmem
        obtain hold | ⟨rfl, -⟩ := hentries entry hmem
        · exact h.made entry hold
        · exact hmade ref rfl
      · intro entry hmem
        obtain hold | ⟨rfl, hget⟩ := hentries entry hmem
        · exact ComparedAliasAddr.get_of_insert (h.path entry hold) htable
        · exact hget

theorem disconnection (h : s.Coherent family) (path : Bytes) :
    Coherent family { s with mmAli4addr := (s.mmAli4addr.resetConnectFlag path).2 } where
  ordered := by
    rw [ComparedAliasAddr.Ordered, ComparedAliasAddr.resetConnectFlag_mmAlias]
    exact h.ordered
  made := by
    rw [ComparedAliasAddr.resetConnectFlag_mmAlias]
    exact h.made
  path entry hmem := by
    rw [ComparedAliasAddr.resetConnectFlag_mmAlias] at hmem
    exact ComparedAliasAddr.get_resetConnectFlag path (h.path entry hmem)

/-- What a search finds has been made. -/
theorem lt_of_getAlias (h : s.Coherent family) {ref : AliasRef}
    (hget : s.mmAli4addr.getAlias family.less addr = .ok (some ref)) : ref < s.heap.nextRef := by
  obtain ⟨stored, hmem, -⟩ :=
    ComparedAliasAddr.mem_of_getAlias family.ranked family.compared h.ordered hget
  exact h.made (stored, ref) hmem

end Coherent

/-- What an operation that renames no alias does: it makes aliases, stores addresses, and takes
connection flags back. -/
inductive Moves (family : AddressFamily Address) :
    PeerTable Address → PeerTable Address → Prop
  | done (s : PeerTable Address) : Moves family s s
  | make {s s' : PeerTable Address} (pvd : IAliasPVD) (moves : Moves family (s.make pvd) s') :
      Moves family s s'
  | insert {s s₁ s' : PeerTable Address} {pvdAlias : Option AliasRef} {addr : Address}
      {connectFlag res : Bool} (made : ∀ ref, pvdAlias = some ref → ref < s.heap.nextRef)
      (stored : s.insert family pvdAlias addr connectFlag = .ok (res, s₁))
      (moves : Moves family s₁ s') : Moves family s s'
  | disconnection {s s' : PeerTable Address} (path : Bytes)
      (moves : Moves family { s with mmAli4addr := (s.mmAli4addr.resetConnectFlag path).2 } s') :
      Moves family s s'

namespace Moves

theorem trans (h : Moves family s s₁) (h' : Moves family s₁ s') : Moves family s s' := by
  induction h with
  | done _ => exact h'
  | make pvd _ ih => exact .make pvd (ih h')
  | insert made stored _ ih => exact .insert made stored (ih h')
  | disconnection path _ ih => exact .disconnection path (ih h')

/-- The moves keep the table coherent. -/
theorem coherent (h : Moves family s s') (hs : s.Coherent family) : s'.Coherent family := by
  induction h with
  | done _ => exact hs
  | make pvd _ ih => exact ih (hs.make pvd)
  | insert made stored _ ih => exact ih (hs.insert made stored)
  | disconnection path _ ih => exact ih (hs.disconnection path)

theorem of_makeClientId {found : Option AliasRef} (hs : s.Coherent family)
    (h : makeClientId transport family s addr = .ok (found, s')) :
    Moves family s s' ∧ ∀ ref, found = some ref → ref < s'.heap.nextRef := by
  obtain ⟨rfl, hfound⟩ | ⟨ipport, res, -, -, -, rfl, hinsert⟩ := makeClientId_cases h
  · exact ⟨.done _, fun ref heq => hs.lt_of_getAlias (hfound ref heq)⟩
  · have hmade : ∀ ref, some s.heap.nextRef = some ref → ref < s.heap.nextRef + 1 := by
      rintro ref ⟨⟩
      exact Nat.lt_succ_self _
    refine ⟨.make _ (.insert hmade hinsert (.done _)), ?_⟩
    obtain ⟨stored, -, hs'⟩ := bind_eq_ok.mp hinsert
    cases hs'
    exact hmade

theorem of_updateAliasMapper {ref : AliasRef} {ip : Bytes} {port : Nat} {random : RandomNumbers}
    (hmade : ref < s.heap.nextRef)
    (h : s.updateAliasMapper family ref ip port random = .ok s') : Moves family s s' := by
  obtain ⟨-, -, h⟩ := bind_eq_ok.mp h
  obtain ⟨destaddr, -, h⟩ := bind_eq_ok.mp h
  obtain ⟨⟨res, stored⟩, hinsert, h⟩ := bind_eq_ok.mp h
  cases h
  refine .insert ?_ hinsert (.done _)
  rintro ref' ⟨⟩
  exact hmade

theorem of_connectTry {peerIp appPath pvdId : Bytes} {peerPort : Nat} {random : RandomNumbers}
    (h : s.connectTry family peerIp peerPort appPath pvdId random = .ok s') :
    Moves family s s' := by
  obtain ⟨-, -, h⟩ := bind_eq_ok.mp h
  obtain ⟨-, -, h⟩ := bind_eq_ok.mp h
  obtain ⟨-, -, h⟩ := bind_eq_ok.mp h
  obtain ⟨-, -, h⟩ := bind_eq_ok.mp h
  split at h
  · cases h
  · exact .make _ (of_updateAliasMapper (Nat.lt_succ_self _) h)

theorem of_receiveFrom (hs : s.Coherent family)
    (h : receiveFrom transport family s addr = .ok s') : Moves family s s' := by
  obtain ⟨⟨peerAlias, named⟩, hmake, h⟩ := bind_eq_ok.mp h
  obtain ⟨-, -, h⟩ := bind_eq_ok.mp h
  obtain ⟨⟨res, stored⟩, hinsert, h⟩ := bind_eq_ok.mp h
  obtain ⟨-, -, h⟩ := bind_eq_ok.mp h
  cases h
  obtain ⟨hmoves, hmade⟩ := of_makeClientId hs hmake
  exact hmoves.trans (.insert hmade hinsert (.done _))

theorem of_makeConnection {path : Bytes} (hs : s.Coherent family)
    (h : s.makeConnection family path = .ok s') : Moves family s s' := by
  rw [PeerTable.makeConnection] at h
  split at h
  · cases h
    exact .done s
  · obtain ⟨peerAlias, hget, h⟩ := bind_eq_ok.mp h
    obtain ⟨⟨res, stored⟩, hinsert, h⟩ := bind_eq_ok.mp h
    obtain ⟨-, -, h⟩ := bind_eq_ok.mp h
    cases h
    refine .insert ?_ hinsert (.done _)
    rintro ref rfl
    exact hs.lt_of_getAlias hget

/-- The operations but the renaming of an alias. -/
theorem of_next {op : Operation Address} (hs : s.Coherent family)
    (hop : ∀ ref parent name, op ≠ .renameAlias ref parent name)
    (h : next transport family s op = .ok s') : Moves family s s' := by
  cases op with
  | loadAlias pvd ip port random =>
      exact .make pvd (of_updateAliasMapper (Nat.lt_succ_self _) h)
  | connectTry peerIp peerPort appPath pvdId random => exact of_connectTry h
  | acceptPeer newCliaddr =>
      obtain ⟨⟨found, named⟩, hmake, h⟩ := bind_eq_ok.mp h
      cases h
      exact (of_makeClientId hs hmake).1
  | receiveFrom cliaddr => exact of_receiveFrom hs h
  | makeConnection path => exact of_makeConnection hs h
  | disconnection path =>
      cases h
      exact .disconnection path (.done _)
  | renameAlias ref parent name => exact absurd rfl (hop ref parent name)

end Moves

/-- The addresses and the aliases are still there. -/
structure Extends (s s' : PeerTable Address) : Prop where
  nextRef : s.heap.nextRef ≤ s'.heap.nextRef
  paths : ∀ path addr, s.mmAli4addr.get path = some addr → s'.mmAli4addr.get path = some addr
  addresses : ∀ entry ∈ s.mmAli4addr.mmAlias, entry ∈ s'.mmAli4addr.mmAlias
  objects : ∀ ref < s.heap.nextRef, s'.heap.objects ref = s.heap.objects ref

namespace Extends

theorem refl (s : PeerTable Address) : s.Extends s :=
  ⟨Nat.le_refl _, fun _ _ h => h, fun _ h => h, fun _ _ => rfl⟩

theorem trans (h : s.Extends s₁) (h' : s₁.Extends s') : s.Extends s' where
  nextRef := h.nextRef.trans h'.nextRef
  paths path addr hget := h'.paths path addr (h.paths path addr hget)
  addresses entry hmem := h'.addresses entry (h.addresses entry hmem)
  objects ref hlt :=
    (h'.objects ref (Nat.lt_of_lt_of_le hlt h.nextRef)).trans (h.objects ref hlt)

theorem make (s : PeerTable Address) (pvd : IAliasPVD) : s.Extends (s.make pvd) where
  nextRef := Nat.le_succ _
  paths _ _ h := h
  addresses _ h := h
  objects _ hlt := AliasHeap.make_objects_of_lt pvd hlt

theorem insert (hs : s.Coherent family)
    (h : s.insert family pvdAlias addr connectFlag = .ok (res, s')) : s.Extends s' := by
  obtain ⟨⟨res', isNew, table⟩, htable, hs'⟩ := bind_eq_ok.mp h
  cases hs'
  cases pvdAlias with
  | none =>
      cases htable
      exact refl s
  | some ref =>
      obtain ⟨hkept, -⟩ :=
        ComparedAliasAddr.mem_insert family.ranked family.compared hs.ordered htable
      exact ⟨Nat.le_refl _, fun _ _ hget => ComparedAliasAddr.get_of_insert hget htable, hkept,
        fun _ _ => rfl⟩

theorem disconnection (s : PeerTable Address) (path : Bytes) :
    s.Extends { s with mmAli4addr := (s.mmAli4addr.resetConnectFlag path).2 } where
  nextRef := Nat.le_refl _
  paths _ _ hget := ComparedAliasAddr.get_resetConnectFlag path hget
  addresses entry hmem := by rwa [ComparedAliasAddr.resetConnectFlag_mmAlias]
  objects _ _ := rfl

/-- The table grows with every move. -/
theorem of_moves (h : Moves family s s') (hs : s.Coherent family) : s.Extends s' := by
  induction h with
  | done s => exact refl s
  | make pvd _ ih => exact (make _ pvd).trans (ih (hs.make pvd))
  | insert made stored _ ih => exact (insert hs stored).trans (ih (hs.insert made stored))
  | disconnection path _ ih => exact (disconnection _ path).trans (ih (hs.disconnection path))

end Extends

/-- The operation renames no alias. -/
def NamesKept (_ : PeerTable Address) (op : Operation Address) : Prop :=
  ∀ ref parent name, op ≠ .renameAlias ref parent name

/-- A run extends the table that it starts with. -/
theorem extends_of_run (hs : s.Coherent family)
    (hrun : GuardedRun (Step transport family) NamesKept s s') :
    s'.Coherent family ∧ s.Extends s' := by
  apply hrun.invariant
  · exact ⟨hs, .refl s⟩
  · rintro s₁ op s₂ ⟨hs₁, hextends⟩ hnames hstep
    have hmoves := Moves.of_next hs₁ hnames hstep
    exact ⟨hmoves.coherent hs₁, hextends.trans (.of_moves hmoves hs₁)⟩

/-- A stored peer, under the path of its alias. -/
structure Known (family : AddressFamily Address) (s : PeerTable Address) (ref : AliasRef)
    (addr : Address) : Prop where
  stored : (addr, ref) ∈ s.mmAli4addr.mmAlias
  comparable : family.comparable addr

/-- `make_client_id` returns an alias with this path for the address. -/
def Names (transport : Transport) (family : AddressFamily Address) (s : PeerTable Address)
    (addr : Address) (path : Bytes) : Prop :=
  ∃ ref s', makeClientId transport family s addr = .ok (some ref, s') ∧ s'.heap.path ref = path

namespace Known

variable {ref : AliasRef}

/-- A known peer stays known, with its path. -/
theorem of_extends (h : s.Known family ref addr) (hs : s.Coherent family)
    (hextends : s.Extends s') :
    s'.Known family ref addr ∧ s'.heap.path ref = s.heap.path ref :=
  ⟨⟨hextends.addresses _ h.stored, h.comparable⟩,
    congrArg IAliasPVD.path (hextends.objects ref (hs.made _ h.stored))⟩

/-- It is found under every address that the comparator takes for its own. -/
theorem getAlias (h : s.Known family ref addr) (hs : s.Coherent family) {addr' : Address}
    (haddr' : family.comparable addr') (hrank : family.rank addr' = family.rank addr) :
    s.mmAli4addr.getAlias family.less addr' = .ok (some ref) :=
  hs.ordered.getAlias_of_mem family.ranked h.stored h.comparable haddr' hrank.symm

/-- It can be stored again, which sets its flag. -/
theorem insert (h : s.Known family ref addr) (hs : s.Coherent family) (connectFlag : Bool)
    (addr' : Address) : ∃ s', s.insert family (some ref) addr' connectFlag = .ok (true, s') := by
  obtain ⟨src, hsrc, -⟩ := Option.map_eq_some_iff.mp (hs.path _ h.stored)
  simp only [PeerTable.insert, ComparedAliasAddr.insert, hsrc]
  by_cases hflag : src.connectFlag = false
  · rw [if_pos hflag]
    exact ⟨_, rfl⟩
  · rw [if_neg hflag]
    exact ⟨_, rfl⟩

theorem makeClientId (h : s.Known family ref addr) (hs : s.Coherent family)
    (haccepts : transport.Accepts s.providerType) {addr' : Address}
    (haddr' : family.comparable addr') (hrank : family.rank addr' = family.rank addr) :
    makeClientId transport family s addr' = .ok (some ref, s) := by
  rw [PeerTable.makeClientId, assertThat_pos haccepts, ok_bind, h.getAlias hs haddr' hrank]
  rfl

/-- An address has the name of a known peer exactly if it is the peer's, for all that the
comparator tells. -/
theorem names_iff (h : s.Known family ref addr) (hs : s.Coherent family)
    (hplain : family.PlainNames) (haccepts : transport.Accepts s.providerType)
    (hslash : IAliasPVD.slash ∈ s.heap.path ref) {addr' : Address} :
    Names transport family s addr' (s.heap.path ref) ↔
      family.comparable addr' ∧ family.rank addr' = family.rank addr := by
  constructor
  · rintro ⟨ref', s', hmake, hpath⟩
    obtain ⟨rfl, hfound⟩ | ⟨ipport, res, -, hipport, -, heq, hinsert⟩ := makeClientId_cases hmake
    · obtain ⟨stored, hmem, haddr', hrank⟩ := ComparedAliasAddr.mem_of_getAlias family.ranked
        family.compared hs.ordered (hfound ref' rfl)
      have hsame := hs.path _ hmem
      rw [hpath, hs.path _ h.stored] at hsame
      obtain rfl := Option.some.inj hsame
      exact ⟨haddr', hrank.symm⟩
    · obtain rfl := Option.some.inj heq
      obtain ⟨stored, -, hs'⟩ := bind_eq_ok.mp hinsert
      cases hs'
      have hname : ipport.ip ++ 0x3A :: CString.printUnsigned ipport.port = s.heap.path ref := by
        rw [← hpath, AliasHeap.path, PeerTable.make, AliasHeap.make_objects_nextRef]
        rfl
      rw [← hname, List.mem_append, List.mem_cons] at hslash
      obtain hip | hcolon | hport := hslash
      · exact absurd hip (hplain addr' ipport hipport)
      · exact absurd hcolon (by decide)
      · exact absurd hport (CString.notMem_printUnsigned ipport.port rfl)
  · rintro ⟨haddr', hrank⟩
    exact ⟨ref, s, h.makeClientId hs haccepts haddr' hrank, rfl⟩

theorem receiveFrom (h : s.Known family ref addr) (hs : s.Coherent family)
    (haccepts : transport.Accepts s.providerType) {addr' : Address}
    (haddr' : family.comparable addr') (hrank : family.rank addr' = family.rank addr) :
    ∃ s', receiveFrom transport family s addr' = .ok s' := by
  obtain ⟨s', hs'⟩ := h.insert hs true addr'
  rw [PeerTable.receiveFrom, h.makeClientId hs haccepts haddr' hrank, ok_bind]
  dsimp only
  rw [assertThat_pos (Option.some_ne_none ref), ok_bind, hs']
  exact ⟨s', rfl⟩

theorem makeConnection (h : s.Known family ref addr) (hs : s.Coherent family) :
    ∃ s', s.makeConnection family (s.heap.path ref) = .ok s' := by
  obtain ⟨s', hs'⟩ := h.insert hs true addr
  rw [PeerTable.makeConnection, hs.path _ h.stored]
  dsimp only
  rw [h.getAlias hs h.comparable rfl, ok_bind, hs']
  exact ⟨s', rfl⟩

end Known

end PeerTable

namespace AppForest

variable {resources : AppForest} {document : Json} {type : ProviderType} {transport : Transport}

/-- The path of a provider has a `/` in it. -/
theorem slash_mem_fullPath (hnamed : resources.WellNamed) {provider : Bytes × PvdLeaf}
    (hmem : provider ∈ resources.providers) : IAliasPVD.slash ∈ fullPath provider := by
  obtain ⟨leaf, hleaf, rfl⟩ := List.mem_map.mp hmem
  obtain ⟨name, -, hprefix⟩ := resources.prefix_of_mem_leaves hleaf
  have hpath : leaf.1 ≠ [] := by
    intro hnil
    rw [hnil] at hprefix
    cases List.prefix_nil.mp hprefix
  have hkeys := resources.isKey_of_mem_leaves hnamed (fun _ h => by cases h) hleaf
  have happ : joined leaf.1 ≠ [] := mt (joined_eq_nil hkeys).mp hpath
  rw [fullPath, IAliasPVD.makeFullPath, if_pos happ]
  exact List.mem_append_right _ (List.mem_cons_self ..)

/-- A provider starts with a coherent table, which knows the providers of the document. -/
theorem Starts.coherent {randoms : Bytes → RandomNumbers} {tree : AliasTree}
    {addresses : List Address} (hstarts : resources.Starts family randoms type tree addresses)
    {selfAlias : AliasRef} (hself : selfAlias ∈ tree.config.mmPvds type) {s : PeerTable Address}
    (hs : tree.startProvider family randoms selfAlias = .ok s) :
    s.Coherent family ∧ s.Kept family (tree.heap.objects selfAlias) ∧ s.providerType = type ∧
      ∀ entry ∈ (resources.providersOf type).zip addresses, family.comparable entry.2 →
        ∃ ref, s.heap.path ref = fullPath entry.1 ∧ s.Known family ref entry.2 := by
  obtain ⟨hresolves, hheap, hpvdAlias⟩ := hstarts.started selfAlias hself s hs
  obtain ⟨hlt, htype⟩ := hstarts.made selfAlias hself
  have hof : s.providerType = type := by
    rw [PeerTable.providerType, hheap, hpvdAlias]
    exact htype
  refine ⟨⟨hresolves.ordered, ?_, ?_⟩, ⟨hresolves.ordered, ?_, hof.trans htype.symm⟩, hof, ?_⟩
  · intro entry hmem
    rw [hheap]
    exact (hstarts.made _ (List.of_mem_zip ((hresolves.addresses entry).mp hmem)).1).1
  · intro entry hmem
    exact hresolves.get_of_mem (hheap ▸ hstarts.paths) ((hresolves.addresses entry).mp hmem)
  · rw [hheap, hpvdAlias]
    exact hlt
  · intro entry hmem hcomparable
    rw [← hstarts.views, List.zip_map_left] at hmem
    obtain ⟨⟨ref, addr⟩, hentry, rfl⟩ := List.mem_map.mp hmem
    refine ⟨ref, ?_, (hresolves.addresses (addr, ref)).mpr hentry, hcomparable⟩
    rw [hheap]
    rfl

/-- As long as the aliases keep their names, exactly the addresses that the comparator takes for
the one of a provider of the document have its name, and the process returns from a datagram of
the provider and from a connection to it. -/
theorem described_peers_known (heap : AliasHeap) (hread : resources.DescribedBy document)
    (hnamed : resources.WellNamed) (hchain : ∀ entry ∈ resources.entries, entry.2.chain ≠ none)
    (hplain : family.PlainNames) (randoms : Bytes → RandomNumbers)
    (haccepts : transport.Accepts type) :
    ∃ tree addresses, AliasTree.construct heap (some document) = .ok tree ∧
      List.Forall₂ (AddressFor family randoms) (resources.providersOf type) addresses ∧
      ∀ selfAlias ∈ tree.config.mmPvds type, ∀ s₀,
        tree.startProvider family randoms selfAlias = .ok s₀ →
        ∀ s, GuardedRun (PeerTable.Step transport family) PeerTable.NamesKept s₀ s →
          ∀ entry ∈ (resources.providersOf type).zip addresses, family.comparable entry.2 →
            s.mmAli4addr.get (fullPath entry.1) = some entry.2 ∧
              (∀ addr, PeerTable.Names transport family s addr (fullPath entry.1) ↔
                family.comparable addr ∧ family.rank addr = family.rank entry.2) ∧
              (∃ s', PeerTable.receiveFrom transport family s entry.2 = .ok s') ∧
              ∃ s', s.makeConnection family (fullPath entry.1) = .ok s' := by
  have htype : type ≠ .serviceVsomeip := by
    rintro rfl
    cases transport <;> simp [Transport.Accepts] at haccepts
  obtain ⟨tree, addresses, htree, haddresses, hstarts⟩ :=
    hread.exists_starts heap hnamed hchain family randoms htype
  refine ⟨tree, addresses, htree, haddresses, ?_⟩
  intro selfAlias hself s₀ hs₀ s hrun entry hmem hcomparable
  obtain ⟨hcoherent₀, hkept₀, hof₀, hall⟩ := hstarts.coherent hself hs₀
  obtain ⟨hcoherent, hextends⟩ := PeerTable.extends_of_run hcoherent₀ hrun
  have hkept : s.Kept family (tree.heap.objects selfAlias) :=
    hrun.invariant hkept₀ fun _ _ _ h _ hstep => h.next hstep
  have haccepts' : transport.Accepts s.providerType := by
    rw [hkept.type, ← hkept₀.type, hof₀]
    exact haccepts
  obtain ⟨ref, hpath₀, hknown₀⟩ := hall entry hmem hcomparable
  obtain ⟨hknown, hsame⟩ := hknown₀.of_extends hcoherent₀ hextends
  have hslash := slash_mem_fullPath hnamed (List.mem_of_mem_filter (List.of_mem_zip hmem).1)
  rw [← hpath₀, ← hsame] at hslash ⊢
  exact ⟨hcoherent.path _ hknown.stored,
    fun addr => hknown.names_iff hcoherent hplain haccepts' hslash,
    hknown.receiveFrom hcoherent haccepts' hcomparable rfl, hknown.makeConnection hcoherent⟩

/-- The provider at port 12 sends a datagram and is disconnected, and has its name as before. -/
theorem described_peers_known_house : ∃ tree s₀ s₁ addr,
    AliasTree.construct AliasTree.noAliases (some AliasTree.houseDocument) = .ok tree ∧
      tree.startProvider (.inet fun _ => 0) (fun _ => CinetUds.someNumbers) 0 = .ok s₀ ∧
      PeerTable.receiveFrom .udp (.inet fun _ => 0) s₀ addr = .ok s₁ ∧
      ∃ s, PeerTable.next .udp (.inet fun _ => 0) s₁ (.disconnection (literal "A/b/p")) = .ok s ∧
        PeerTable.Names .udp (.inet fun _ => 0) s addr (literal "A/b/p") := by
  have hchain : ∀ entry ∈ AliasTree.house.entries, entry.2.chain ≠ none := by
    intro entry hmem
    rw [show AliasTree.house.entries = [(literal "A", _)] from rfl, List.mem_singleton] at hmem
    subst hmem
    exact Option.some_ne_none _
  obtain ⟨loaded, s₀, hloaded, hself, hs₀⟩ : ∃ tree s₀,
      AliasTree.construct AliasTree.noAliases (some AliasTree.houseDocument) = .ok tree ∧
        tree.config.mmPvds .transUDP = [0] ∧
        tree.startProvider (.inet fun _ => 0) (fun _ => CinetUds.someNumbers) 0 = .ok s₀ :=
    ⟨_, _, rfl, rfl, rfl⟩
  have haccepts : Transport.udp.Accepts .transUDP := Or.inl rfl
  obtain ⟨tree, addresses, htree, haddresses, hknown⟩ := described_peers_known AliasTree.noAliases
    AliasTree.house_describedBy AliasTree.house_wellNamed hchain
    (AddressFamily.plainNames_inet fun _ => 0) (fun _ => CinetUds.someNumbers) haccepts
  obtain rfl := Except.ok.inj (hloaded.symm.trans htree)
  obtain ⟨addr, rest, -, -, rfl⟩ := List.forall₂_cons_left_iff.mp haddresses
  have hruns := hknown 0 (hself ▸ List.mem_cons_self ..) s₀ hs₀
  obtain ⟨-, -, ⟨s₁, hs₁⟩, -⟩ := hruns s₀ .start _ (List.mem_cons_self ..) trivial
  have hfirst : PeerTable.NamesKept s₀ (.receiveFrom addr) := fun _ _ _ h => by cases h
  have hsecond : PeerTable.NamesKept s₁ (.disconnection (literal "A/b/p")) :=
    fun _ _ _ h => by cases h
  obtain ⟨-, hnames, -⟩ :=
    hruns _ ((GuardedRun.start.next hfirst hs₁).next hsecond rfl) _ (List.mem_cons_self ..) trivial
  exact ⟨loaded, s₀, s₁, addr, hloaded, hs₀, hs₁, _, rfl, (hnames addr).mpr ⟨trivial, rfl⟩⟩

end AppForest

end CommonCommunicator
