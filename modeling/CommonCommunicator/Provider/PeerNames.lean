import CommonCommunicator.Provider.PeerTable

/-!
# Which peers can be named

A peer that turns up by itself is searched among the stored addresses and then
gets the name that its address shows; a peer that is named by the application
is stored under that name. The first needs addresses that can be taken apart,
the second an address that is not stored yet, or a name that is.
-/

namespace CommonCommunicator

open Lib

namespace PeerTable

variable {Address : Type} {transport : Transport} {family : AddressFamily Address}
  {pvd : IAliasPVD} {s : PeerTable Address}

/-- `insert` of an alias returns if its path is stored or its address is fresh. -/
theorem Kept.insert_iff (h : s.Kept family pvd) (ref : AliasRef) (addr : Address)
    (connectFlag : Bool) :
    (∃ res, s.insert family (some ref) addr connectFlag = .ok res) ↔
      s.mmAli4addr.get (s.heap.path ref) ≠ none ∨
        s.mmAli4addr.Fresh family.comparable family.rank addr := by
  have hthere : s.mmAli4addr.get (s.heap.path ref) ≠ none ↔
      s.mmAli4addr.mmAddr (s.heap.path ref) ≠ none := by
    simp [ComparedAliasAddr.get]
  rw [hthere, ← ComparedAliasAddr.insert_returns_iff family.ranked family.compared h.ordered]
  constructor
  · rintro ⟨res, hres⟩
    obtain ⟨stored, hstored, -⟩ := bind_eq_ok.mp hres
    exact ⟨stored, hstored⟩
  · rintro ⟨stored, hstored⟩
    rw [PeerTable.insert, hstored]
    exact ⟨_, rfl⟩

/-- `make_client_id` returns exactly if the address, and all that are stored, can be compared. -/
theorem Kept.makeClientId_iff (h : s.Kept family pvd) (hpvd : transport.Accepts pvd.type)
    (addr : Address) :
    (∃ res, PeerTable.makeClientId transport family s addr = .ok res) ↔
      family.comparable addr ∧ ∀ entry ∈ s.mmAli4addr.mmAlias, family.comparable entry.1 := by
  have haccepts : transport.Accepts s.providerType := h.type ▸ hpvd
  constructor
  · rintro ⟨res, hres⟩
    obtain ⟨-, -, hres⟩ := bind_eq_ok.mp hres
    obtain ⟨known, hknown, hres⟩ := bind_eq_ok.mp hres
    by_cases hnil : s.mmAli4addr.mmAlias = []
    · have hnone : known = none := by
        rw [ComparedAliasAddr.getAlias, hnil] at hknown
        exact (Except.ok.inj hknown).symm
      subst hnone
      obtain ⟨ipport, hipport, hres⟩ := bind_eq_ok.mp hres
      cases ipport with
      | none => cases hres
      | some ipport =>
          refine ⟨(family.readable addr).mpr ⟨ipport, hipport⟩, ?_⟩
          intro entry hmem
          rw [hnil] at hmem
          cases hmem
    · obtain ⟨haddr, hsorted⟩ :=
        ComparedAliasAddr.comparable_of_getAlias family.compared h.ordered hknown hnil
      exact ⟨haddr, hsorted.ranked⟩
  · rintro ⟨haddr, hall⟩
    have hsorted : ComparedMap.Sorted family.comparable family.rank s.mmAli4addr.mmAlias := by
      obtain hsorted | ⟨entry, hentry⟩ := h.ordered
      · exact hsorted
      · have hmem : entry ∈ s.mmAli4addr.mmAlias := hentry ▸ List.mem_singleton_self entry
        exact h.ordered.sorted hmem (hall entry hmem)
    have hknown := ComparedAliasAddr.getAlias_refines family.ranked hsorted haddr
    obtain ⟨ipport, hipport⟩ := (family.readable addr).mp haddr
    unfold PeerTable.makeClientId
    rw [assertThat_pos haccepts, ok_bind, hknown, ok_bind]
    cases hfound : (s.mmAli4addr.ranks family.rank).getAlias (family.rank addr) with
    | some cliAlias => exact ⟨_, rfl⟩
    | none =>
        rw [hfound] at hknown
        rw [hipport]
        dsimp only [ok_bind]
        split
        · exact ⟨_, rfl⟩
        · have hfresh := (ComparedAliasAddr.getAlias_eq_none_iff family.ranked family.compared
            h.ordered).mp hknown
          have hmade := h.make (s.makeNewClientAlias
            (ipport.ip ++ 0x3A :: CString.printUnsigned ipport.port))
          obtain ⟨⟨res, stored⟩, hstored⟩ :=
            (hmade.insert_iff s.heap.nextRef addr false).mpr (Or.inr hfresh)
          rw [hstored]
          exact ⟨_, rfl⟩

/-- `connect_try` gets to `make_connection` exactly if the name is stored or the address is
fresh. -/
theorem Kept.connectTry_iff (h : s.Kept family pvd) (hpvd : transport.Accepts pvd.type)
    {peerIp appPath pvdId : Bytes} {peerPort : Nat} (random : RandomNumbers) (hip : peerIp ≠ [])
    (hport : 0 < peerPort) (hid : pvdId ≠ []) {addr : Address}
    (haddr : family.setIpPort (CString.text peerIp) peerPort random = .ok addr) :
    (∃ s', s.connectTry family peerIp peerPort appPath pvdId random = .ok s') ↔
      s.mmAli4addr.get
          (IAliasPVD.makeFullPath (CString.text appPath) (CString.text pvdId)) ≠ none ∨
        s.mmAli4addr.Fresh family.comparable family.rank addr := by
  have hsupported : ¬(s.providerType ≠ .transTCP ∧ s.providerType ≠ .transUDP ∧
      s.providerType ≠ .transUdsTCP ∧ s.providerType ≠ .transUdsUDP) := by
    rintro ⟨htcp, hudp, hudsTcp, hudsUdp⟩
    rw [h.type] at htcp hudp hudsTcp hudsUdp
    cases transport with
    | tcp => exact hpvd.elim htcp hudsTcp
    | udp => exact hpvd.elim hudp hudsUdp
  have hmade := h.make (s.newAlias appPath pvdId)
  have hself : (s.make (s.newAlias appPath pvdId)).heap.objects s.heap.nextRef =
      s.newAlias appPath pvdId := AliasHeap.make_objects_nextRef ..
  have htype : ((s.make (s.newAlias appPath pvdId)).heap.objects s.heap.nextRef).type =
      (s.make (s.newAlias appPath pvdId)).providerType := by
    rw [hself, hmade.type, ← h.type]
    rfl
  have hpath : (s.make (s.newAlias appPath pvdId)).heap.path s.heap.nextRef =
      IAliasPVD.makeFullPath (CString.text appPath) (CString.text pvdId) := by
    rw [AliasHeap.path, hself]
    rfl
  have hiff := hmade.insert_iff s.heap.nextRef addr false
  rw [hpath] at hiff
  rw [PeerTable.connectTry, PeerTable.registerNewAlias, assertThat_pos hip, ok_bind,
    assertThat_pos hport, ok_bind, ok_bind, assertThat_pos hid, ok_bind, if_neg hsupported,
    PeerTable.updateAliasMapper, assertThat_pos htype, ok_bind, haddr, ok_bind]
  refine Iff.trans ?_ hiff
  constructor
  · rintro ⟨s', hs'⟩
    obtain ⟨stored, hstored, -⟩ := bind_eq_ok.mp hs'
    exact ⟨stored, hstored⟩
  · rintro ⟨stored, hstored⟩
    rw [hstored]
    exact ⟨_, rfl⟩

/-- A UDS peer that turns up gets a name exactly if its path, and every stored one, ends within
its field and has something behind a `/`. -/
theorem peerNames_survived_iff (inetAddr : Bytes → UInt32) {s : PeerTable UdsName}
    (hpvd : transport.Accepts pvd.type)
    (hreach : Reachable (Step transport (.uds inetAddr)) (started UdsName pvd) s)
    (addr : UdsName) :
    (∃ res, makeClientId transport (.uds inetAddr) s addr = .ok res) ↔
      CinetUds.NamedPath addr.1 ∧
        ∀ entry ∈ s.mmAli4addr.mmAlias, CinetUds.NamedPath entry.1.1 :=
  (Kept.reachable hreach).makeClientId_iff hpvd addr

/-- A provider for UDS. -/
def localPvd : IAliasPVD where
  pathParent := []
  name := [0x70]
  type := .transUdsTCP
  convertible := IAliasPVD.convertible_transUdsTCP

/-- The address of a server with the default id. -/
def localhostName : UdsName :=
  ⟨CinetUds.named afUnix (CinetUds.udsForm CinetUds.defUdsId 80 CinetUds.udsServer), Or.inl rfl⟩

/-- The address of a socket that has not been bound. -/
def unboundName : UdsName := ⟨CinetUds.named afUnix [], Or.inl rfl⟩

/-- A first peer with a name gets an alias. -/
theorem localhost_survived :
    ∃ res, makeClientId .tcp (.uds CaliasCmpfunc.inetAddr) (started UdsName localPvd)
      localhostName = .ok res := by
  have hpvd : Transport.tcp.Accepts localPvd.type := Or.inr rfl
  apply (peerNames_survived_iff CaliasCmpfunc.inetAddr hpvd .start localhostName).mpr
  constructor
  · constructor <;> decide
  · intro entry hmem
    cases hmem

/-- A first peer without a name is dereferenced. -/
theorem unbound_not_survived :
    ¬∀ (inetAddr : Bytes → UInt32) (transport : Transport) (pvd : IAliasPVD)
      (s : PeerTable UdsName) (addr : UdsName), transport.Accepts pvd.type →
      Reachable (Step transport (.uds inetAddr)) (started UdsName pvd) s →
        ∃ res, makeClientId transport (.uds inetAddr) s addr = .ok res := by
  intro hsurvives
  obtain ⟨res, hres⟩ :=
    hsurvives CaliasCmpfunc.inetAddr .tcp localPvd _ unboundName (Or.inr rfl) .start
  cases hres

/-- Naming a peer returns exactly if the name is stored already, or the address can be compared
with all that are stored and is none of them. -/
theorem naming_returns_iff (hpvd : transport.Accepts pvd.type)
    (hreach : Reachable (Step transport family) (started Address pvd) s)
    {peerIp appPath pvdId : Bytes} {peerPort : Nat} (random : RandomNumbers) (hip : peerIp ≠ [])
    (hport : 0 < peerPort) (hid : pvdId ≠ []) :
    ∃ addr, family.setIpPort (CString.text peerIp) peerPort random = .ok addr ∧
      ((∃ s', s.connectTry family peerIp peerPort appPath pvdId random = .ok s') ↔
        s.mmAli4addr.get
            (IAliasPVD.makeFullPath (CString.text appPath) (CString.text pvdId)) ≠ none ∨
          s.mmAli4addr.Fresh family.comparable family.rank addr) := by
  obtain ⟨addr, haddr⟩ := family.made (CString.text peerIp) peerPort random
  exact ⟨addr, haddr,
    (Kept.reachable hreach).connectTry_iff hpvd random hip hport hid haddr⟩

/-- The address word of `1.2.3.4` on port 80. -/
def remoteName : InetName :=
  ⟨{ sinFamily := afInet, sinPort := AddressFamily.swapBytes 80,
     sinAddr := CaliasCmpfunc.inetAddr (CaliasCmpfunc.dotted 1 2 3 4) }, rfl⟩

/-- A provider for UDP. -/
def datagramPvd : IAliasPVD where
  pathParent := []
  name := [0x70]
  type := .transUDP
  convertible := IAliasPVD.convertible_transUDP

/-- The first peer can be named. -/
theorem first_named :
    ∃ s', (started InetName datagramPvd).connectTry (.inet CaliasCmpfunc.inetAddr)
      (CaliasCmpfunc.dotted 1 2 3 4) 80 [0x61] [0x70] CinetUds.someNumbers = .ok s' := by
  have hpvd : Transport.udp.Accepts datagramPvd.type := Or.inl rfl
  obtain ⟨addr, -, hiff⟩ := @naming_returns_iff InetName .udp (.inet CaliasCmpfunc.inetAddr)
    datagramPvd _ hpvd .start (CaliasCmpfunc.dotted 1 2 3 4) [0x61] [0x70] 80
    CinetUds.someNumbers (by decide) (by decide) (by decide)
  apply hiff.mpr
  right
  intro entry hmem
  cases hmem

/-- A first datagram stores its sender under the name that its address shows. -/
theorem receiveFrom_remoteName :
    ∃ known : PeerTable InetName,
      receiveFrom .udp (.inet CaliasCmpfunc.inetAddr) (started InetName datagramPvd) remoteName =
        .ok known ∧
      known.mmAli4addr.get (IAliasPVD.makeFullPath [0x61] [0x70]) = none ∧
      known.mmAli4addr.mmAlias = [(remoteName, 1)] := ⟨_, rfl, rfl, rfl⟩

theorem setIpPort_remoteName :
    (AddressFamily.inet CaliasCmpfunc.inetAddr).setIpPort
      (CString.text (CaliasCmpfunc.dotted 1 2 3 4)) 80 CinetUds.someNumbers = .ok remoteName := rfl

/-- A peer that has sent a datagram has a name already, and cannot be given another. -/
theorem knownPeer_not_named :
    ¬∀ (inetAddr : Bytes → UInt32) (transport : Transport) (pvd : IAliasPVD)
      (s : PeerTable InetName) (peerIp appPath pvdId : Bytes) (peerPort : Nat)
      (random : RandomNumbers), transport.Accepts pvd.type →
      Reachable (Step transport (.inet inetAddr)) (started InetName pvd) s →
        peerIp ≠ [] → 0 < peerPort → pvdId ≠ [] →
          ∃ s', s.connectTry (.inet inetAddr) peerIp peerPort appPath pvdId random = .ok s' := by
  intro hnamed
  have hpvd : Transport.udp.Accepts datagramPvd.type := Or.inl rfl
  obtain ⟨known, hknown, hfree, hstored⟩ := receiveFrom_remoteName
  have hreach : Reachable (Step .udp (.inet CaliasCmpfunc.inetAddr)) (started InetName datagramPvd)
      known := .next .start trivial (a := .receiveFrom remoteName) hknown
  have hip : CaliasCmpfunc.dotted 1 2 3 4 ≠ [] := by decide
  have hid : ([0x70] : Bytes) ≠ [] := List.cons_ne_nil _ _
  have hreturns := hnamed CaliasCmpfunc.inetAddr .udp datagramPvd known
    (CaliasCmpfunc.dotted 1 2 3 4) [0x61] [0x70] 80 CinetUds.someNumbers hpvd hreach hip
    (Nat.succ_pos 79) hid
  obtain hthere | hfresh := ((Kept.reachable hreach).connectTry_iff hpvd CinetUds.someNumbers hip
    (Nat.succ_pos 79) hid setIpPort_remoteName).mp hreturns
  · exact hthere hfree
  · obtain ⟨-, -, hother⟩ := hfresh (remoteName, 1) (hstored ▸ List.mem_singleton_self _)
    exact hother rfl

end PeerTable

end CommonCommunicator
