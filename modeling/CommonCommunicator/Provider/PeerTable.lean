import CommonCommunicator.Alias.ComparedAliasAddr
import CommonCommunicator.Inet.AliasCompare
import CommonCommunicator.Lib.GuardedRun

/-!
# Names and addresses of peers

The address table of a provider, with the functions that fill it: aliases of
the alias file and of `connect_try` get their address from `set_ip_port`, and a
peer that turns up by itself gets its name from `get_ip_port`. They are the same
for both address types and, but for the provider types they accept, for TCP and
UDP.
-/

namespace CommonCommunicator

open Lib

/-- `AF_UNIX`. -/
def afUnix : Nat := 1

/-- `AF_INET`. -/
def afInet : Nat := 2

/-- The address of an internet peer. -/
abbrev InetName := {addr : SockaddrIn // addr.sinFamily = afInet}

/-- The address of a UDS peer. The kernel leaves out the family of a sender without a name. -/
abbrev UdsName :=
  {addr : SockaddrUn // addr.sunFamily = afUnix ∨ addr.sunPath = List.replicate udsPathMaxsize 0}

/-- What a provider does with addresses of its type, with what its comparator compares. -/
structure AddressFamily (Address : Type) where
  less : Address → Address → Outcome Bool
  getIpPort : Address → Outcome (Option Cipport)
  setIpPort : Bytes → Nat → RandomNumbers → Outcome Address
  comparable : Address → Prop
  rank : Address → ℚ
  ranked : RankedOn less comparable rank
  compared : ∀ a b r, less a b = .ok r → comparable a ∧ comparable b
  readable : ∀ a, comparable a ↔ ∃ ipport, getIpPort a = .ok (some ipport)
  made : ∀ ip port random, ∃ addr, setIpPort ip port random = .ok addr

namespace AddressFamily

/-- `htons` and `ntohs`. -/
def swapBytes (port : UInt16) : UInt16 := port <<< 8 ||| port >>> 8

/-- `inet_ntop`. -/
def inetNtop (addr : UInt32) : Bytes :=
  CaliasCmpfunc.dotted addr.toUInt8 (addr >>> 8).toUInt8 (addr >>> 16).toUInt8
    (addr >>> 24).toUInt8

/-- `sockaddr_in`: all addresses can be compared and named. -/
def inet (inetAddr : Bytes → UInt32) : AddressFamily InetName where
  less left right := CaliasCmpfunc.lessIn left.1 right.1
  getIpPort addr := .ok (some
    { ip := inetNtop addr.1.sinAddr, port := (swapBytes addr.1.sinPort).toNat })
  setIpPort ip port random := .ok ⟨
    { sinFamily := afInet
      sinPort := swapBytes (UInt16.ofNat (if port = 0 then random.port else port))
      sinAddr := if ip = [] then 0 else inetAddr (CString.text ip) }, rfl⟩
  comparable _ := True
  rank addr := CaliasCmpfunc.rankIn addr.1
  ranked left right _ _ := CaliasCmpfunc.rankedIn afInet left.1 right.1 left.2 right.2
  compared _ _ _ _ := ⟨trivial, trivial⟩
  readable _ := iff_of_true trivial ⟨_, rfl⟩
  made _ _ _ := ⟨_, rfl⟩

/-- The path of an address that has a name is not the one of a sender without a name. -/
theorem family_of_namedPath {addr : UdsName} (h : CinetUds.NamedPath addr.1) :
    addr.1.sunFamily = afUnix := by
  obtain hfamily | hzero := addr.2
  · exact hfamily
  · have hslash := h.hasSlash
    rw [hzero] at hslash
    exact absurd hslash (by decide)

/-- `sockaddr_un`: the addresses whose path has a name can be compared. -/
def uds (inetAddr : Bytes → UInt32) : AddressFamily UdsName where
  less left right := CaliasCmpfunc.lessUn inetAddr left.1 right.1
  getIpPort addr := CinetUds.getIpPort addr.1
  setIpPort ip port random :=
    match h : CinetUds.setIpPort afUnix ip port .server random with
    | .error e => .error e
    | .ok (addr, _, _) => .ok ⟨addr, Or.inl (CinetUds.sunFamily_of_setIpPort h)⟩
  comparable addr := CinetUds.NamedPath addr.1
  rank addr := CaliasCmpfunc.rankUn inetAddr addr.1
  ranked left right hleft hright :=
    CaliasCmpfunc.rankedUn inetAddr afUnix left.1 right.1
      ⟨family_of_namedPath hleft, CinetUds.readable_iff.mpr hleft⟩
      ⟨family_of_namedPath hright, CinetUds.readable_iff.mpr hright⟩
  compared _ _ _ h :=
    (CaliasCmpfunc.readable_of_lessUn h).imp CinetUds.readable_iff.mp CinetUds.readable_iff.mp
  readable _ := CinetUds.readable_iff.symm
  made _ _ _ := ⟨_, rfl⟩

end AddressFamily

/-- `CPVD_TCP` or `CPVD_UDP`. -/
inductive Transport
  | tcp
  | udp
  deriving DecidableEq, Repr

/-- The provider types of `CPVD_TCP` and of `CPVD_UDP`. -/
def Transport.Accepts : Transport → ProviderType → Prop
  | .tcp, type => type = .transTCP ∨ type = .transUdsTCP
  | .udp, type => type = .transUDP ∨ type = .transUdsUDP

instance (transport : Transport) (type : ProviderType) : Decidable (transport.Accepts type) := by
  cases transport <;> exact inferInstanceAs (Decidable (_ ∨ _))

/-- A provider's aliases and its address table. -/
structure PeerTable (Address : Type) where
  pvdAlias : AliasRef
  heap : AliasHeap
  mmAli4addr : ComparedAliasAddr Address

namespace PeerTable

variable {Address : Type}

/-- A provider that has just been started as `pvd`. -/
def started (Address : Type) (pvd : IAliasPVD) : PeerTable Address where
  pvdAlias := 0
  heap := { objects := fun _ => pvd, nextRef := 1 }
  mmAli4addr := .empty Address

/-- `get_provider_type`. -/
def providerType (s : PeerTable Address) : ProviderType := (s.heap.objects s.pvdAlias).type

/-- A new alias object, whose reference is the old `nextRef`. -/
def make (s : PeerTable Address) (pvd : IAliasPVD) : PeerTable Address :=
  { s with heap := s.heap.make pvd }

/-- `make_new_client_alias`: an alias of the provider's type without application path. -/
def makeNewClientAlias (s : PeerTable Address) (clientId : Bytes) : IAliasPVD where
  pathParent := []
  name := clientId
  type := s.providerType
  convertible := (s.heap.objects s.pvdAlias).convertible

/-- The alias that `register_new_alias` makes. Its names end at a NUL. -/
def newAlias (s : PeerTable Address) (appPath pvdId : Bytes) : IAliasPVD where
  pathParent := CString.text appPath
  name := CString.text pvdId
  type := s.providerType
  convertible := (s.heap.objects s.pvdAlias).convertible

/-- `insert` into the address table, with its result and `is_new`. -/
def insert (family : AddressFamily Address) (s : PeerTable Address) (pvdAlias : Option AliasRef)
    (addr : Address) (connectFlag : Bool) : Outcome (Bool × PeerTable Address) := do
  let (res, _, table) ← s.mmAli4addr.insert family.less s.heap pvdAlias addr connectFlag
  return (res, { s with mmAli4addr := table })

/-- `make_client_id`: the alias of an address, or null for a peer without address. What
`get_ip_port` returns is dereferenced in any case. -/
def makeClientId (transport : Transport) (family : AddressFamily Address) (s : PeerTable Address)
    (newCliaddr : Address) : Outcome (Option AliasRef × PeerTable Address) := do
  assertThat (transport.Accepts s.providerType)
  match ← s.mmAli4addr.getAlias family.less newCliaddr with
  | some cliAlias => return (some cliAlias, s)
  | none =>
      match ← family.getIpPort newCliaddr with
      | none => .error .undefined
      | some ipport =>
          if ipport.ip = TcpProvider.anyAddress then return (none, s)
          else
            let cliAlias := s.heap.nextRef
            let clientId := ipport.ip ++ 0x3A :: CString.printUnsigned ipport.port
            let (_, s) ←
              (s.make (s.makeNewClientAlias clientId)).insert family (some cliAlias) newCliaddr false
            return (some cliAlias, s)

/-- `update_alias_mapper` of one alias, with the IP and port that it has. -/
def updateAliasMapper (family : AddressFamily Address) (s : PeerTable Address)
    (newPvd : AliasRef) (ip : Bytes) (port : Nat) (random : RandomNumbers) :
    Outcome (PeerTable Address) := do
  assertThat ((s.heap.objects newPvd).type = s.providerType)
  let destaddr ← family.setIpPort ip port random
  let (_, s) ← s.insert family (some newPvd) destaddr false
  return s

/-- `register_new_alias`. Its `domain_error` is thrown again as an `exception`. -/
def registerNewAlias (family : AddressFamily Address) (s : PeerTable Address) (peerIp : Bytes)
    (peerPort : Nat) (appPath pvdId : Bytes) (random : RandomNumbers) :
    Outcome (PeerTable Address) := do
  assertThat (0 < peerPort)
  assertThat (pvdId ≠ [])
  if s.providerType ≠ .transTCP ∧ s.providerType ≠ .transUDP ∧ s.providerType ≠ .transUdsTCP ∧
      s.providerType ≠ .transUdsUDP then throwThat .exception
  else
    (s.make (s.newAlias appPath pvdId)).updateAliasMapper family s.heap.nextRef
      (CString.text peerIp) peerPort random

/-- `connect_try`, up to `make_connection`. -/
def connectTry (family : AddressFamily Address) (s : PeerTable Address) (peerIp : Bytes)
    (peerPort : Nat) (appPath pvdId : Bytes) (random : RandomNumbers) :
    Outcome (PeerTable Address) := do
  assertThat (peerIp ≠ [])
  assertThat (0 < peerPort)
  s.registerNewAlias family peerIp peerPort appPath pvdId random

/-- What UDP does with a datagram from a peer: `make_client_id`, and the connection flag. -/
def receiveFrom (transport : Transport) (family : AddressFamily Address) (s : PeerTable Address)
    (cliaddr : Address) : Outcome (PeerTable Address) := do
  let (peerAlias, s) ← makeClientId transport family s cliaddr
  assertThat (peerAlias ≠ none)
  let (res, s) ← s.insert family peerAlias cliaddr true
  assertThat (res = true)
  return s

/-- What UDP does with the address of a peer to connect to it. -/
def makeConnection (family : AddressFamily Address) (s : PeerTable Address) (path : Bytes) :
    Outcome (PeerTable Address) :=
  match s.mmAli4addr.get path with
  | none => .ok s
  | some addr => do
      let peerAlias ← s.mmAli4addr.getAlias family.less addr
      let (res, s) ← s.insert family peerAlias addr true
      assertThat (res = true)
      return s

/-- The operations on the names and addresses. -/
inductive Operation (Address : Type)
  | loadAlias (pvd : IAliasPVD) (ip : Bytes) (port : Nat) (random : RandomNumbers)
  | connectTry (peerIp : Bytes) (peerPort : Nat) (appPath pvdId : Bytes) (random : RandomNumbers)
  | acceptPeer (newCliaddr : Address)
  | receiveFrom (cliaddr : Address)
  | makeConnection (path : Bytes)
  | disconnection (path : Bytes)
  | renameAlias (ref : AliasRef) (parent name : Bytes)

/-- The state behind an operation that returns. -/
def next (transport : Transport) (family : AddressFamily Address) (s : PeerTable Address) :
    Operation Address → Outcome (PeerTable Address)
  | .loadAlias pvd ip port random =>
      (s.make pvd).updateAliasMapper family s.heap.nextRef ip port random
  | .connectTry peerIp peerPort appPath pvdId random =>
      s.connectTry family peerIp peerPort appPath pvdId random
  | .acceptPeer newCliaddr => do
      let (_, s) ← makeClientId transport family s newCliaddr
      return s
  | .receiveFrom cliaddr => receiveFrom transport family s cliaddr
  | .makeConnection path => s.makeConnection family path
  | .disconnection path => .ok { s with mmAli4addr := (s.mmAli4addr.resetConnectFlag path).2 }
  | .renameAlias ref parent name => .ok { s with heap := s.heap.update ref parent name }

/-- The operations as a relation. -/
def Step (transport : Transport) (family : AddressFamily Address) (s : PeerTable Address)
    (op : Operation Address) (s' : PeerTable Address) : Prop := next transport family s op = .ok s'

/-- What every operation keeps: the order of the addresses and the provider's own type. -/
structure Kept (family : AddressFamily Address) (pvd : IAliasPVD) (s : PeerTable Address) :
    Prop where
  ordered : s.mmAli4addr.Ordered family.comparable family.rank
  pvdAlias_lt : s.pvdAlias < s.heap.nextRef
  type : s.providerType = pvd.type

variable {transport : Transport} {family : AddressFamily Address} {pvd : IAliasPVD}
  {s s' : PeerTable Address}

/-- `make_client_id` finds an alias, or makes one whose name is the IP and port of the address. -/
theorem makeClientId_cases {addr : Address} {found : Option AliasRef}
    (h : makeClientId transport family s addr = .ok (found, s')) :
    (s' = s ∧ ∀ ref, found = some ref → s.mmAli4addr.getAlias family.less addr = .ok (some ref)) ∨
      ∃ ipport res, s.mmAli4addr.getAlias family.less addr = .ok none ∧
        family.getIpPort addr = .ok (some ipport) ∧ ipport.ip ≠ TcpProvider.anyAddress ∧
        found = some s.heap.nextRef ∧
        (s.make (s.makeNewClientAlias
          (ipport.ip ++ 0x3A :: CString.printUnsigned ipport.port))).insert family
            (some s.heap.nextRef) addr false = .ok (res, s') := by
  obtain ⟨-, -, h⟩ := bind_eq_ok.mp h
  obtain ⟨known, hknown, h⟩ := bind_eq_ok.mp h
  cases known with
  | some cliAlias =>
      cases h
      exact .inl ⟨rfl, fun _ heq => heq ▸ hknown⟩
  | none =>
      obtain ⟨ipport, hipport, h⟩ := bind_eq_ok.mp h
      cases ipport with
      | none => cases h
      | some ipport =>
          dsimp only at h
          split at h
          · cases h
            exact .inl ⟨rfl, fun _ heq => by cases heq⟩
          · next hany =>
              obtain ⟨⟨res, stored⟩, hinsert, h⟩ := bind_eq_ok.mp h
              cases h
              exact .inr ⟨ipport, res, hknown, hipport, hany, rfl, hinsert⟩

namespace Kept

theorem started : (started Address pvd).Kept family pvd where
  ordered := ComparedAliasAddr.ordered_empty
  pvdAlias_lt := Nat.zero_lt_one
  type := rfl

theorem make (h : s.Kept family pvd) (pvd' : IAliasPVD) : (s.make pvd').Kept family pvd where
  ordered := h.ordered
  pvdAlias_lt := Nat.lt_succ_of_lt h.pvdAlias_lt
  type := by
    rw [← h.type]
    exact congrArg IAliasPVD.type (AliasHeap.make_objects_of_lt pvd' h.pvdAlias_lt)

theorem insert (h : s.Kept family pvd) {pvdAlias : Option AliasRef} {addr : Address}
    {connectFlag res : Bool} (hinsert : s.insert family pvdAlias addr connectFlag = .ok (res, s')) :
    s'.Kept family pvd := by
  obtain ⟨⟨res', isNew, table⟩, htable, hs'⟩ := bind_eq_ok.mp hinsert
  cases hs'
  cases pvdAlias with
  | none =>
      cases htable
      exact h
  | some ref =>
      obtain ⟨-, hordered, -⟩ :=
        ComparedAliasAddr.insert_cases family.ranked family.compared h.ordered htable
      exact ⟨hordered, h.pvdAlias_lt, h.type⟩

theorem makeClientId (h : s.Kept family pvd) {addr : Address} {found : Option AliasRef}
    (hmake : makeClientId transport family s addr = .ok (found, s')) : s'.Kept family pvd := by
  obtain ⟨-, -, hmake⟩ := bind_eq_ok.mp hmake
  obtain ⟨known, -, hmake⟩ := bind_eq_ok.mp hmake
  cases known with
  | some cliAlias =>
      cases hmake
      exact h
  | none =>
      obtain ⟨ipport, -, hmake⟩ := bind_eq_ok.mp hmake
      cases ipport with
      | none => cases hmake
      | some ipport =>
          dsimp only at hmake
          split at hmake
          · cases hmake
            exact h
          · obtain ⟨⟨res, stored⟩, hinsert, hmake⟩ := bind_eq_ok.mp hmake
            cases hmake
            exact (h.make _).insert hinsert

theorem updateAliasMapper (h : s.Kept family pvd) {ref : AliasRef} {ip : Bytes} {port : Nat}
    {random : RandomNumbers} (hupdate : s.updateAliasMapper family ref ip port random = .ok s') :
    s'.Kept family pvd := by
  obtain ⟨-, -, hupdate⟩ := bind_eq_ok.mp hupdate
  obtain ⟨destaddr, -, hupdate⟩ := bind_eq_ok.mp hupdate
  obtain ⟨⟨res, stored⟩, hinsert, hupdate⟩ := bind_eq_ok.mp hupdate
  cases hupdate
  exact h.insert hinsert

theorem connectTry (h : s.Kept family pvd) {peerIp appPath pvdId : Bytes} {peerPort : Nat}
    {random : RandomNumbers}
    (hconnect : s.connectTry family peerIp peerPort appPath pvdId random = .ok s') :
    s'.Kept family pvd := by
  obtain ⟨-, -, hconnect⟩ := bind_eq_ok.mp hconnect
  obtain ⟨-, -, hregister⟩ := bind_eq_ok.mp hconnect
  obtain ⟨-, -, hregister⟩ := bind_eq_ok.mp hregister
  obtain ⟨-, -, hregister⟩ := bind_eq_ok.mp hregister
  split at hregister
  · cases hregister
  · exact (h.make _).updateAliasMapper hregister

theorem receiveFrom (h : s.Kept family pvd) {cliaddr : Address}
    (hreceive : receiveFrom transport family s cliaddr = .ok s') : s'.Kept family pvd := by
  obtain ⟨⟨peerAlias, named⟩, hmake, hreceive⟩ := bind_eq_ok.mp hreceive
  obtain ⟨-, -, hreceive⟩ := bind_eq_ok.mp hreceive
  obtain ⟨⟨res, stored⟩, hinsert, hreceive⟩ := bind_eq_ok.mp hreceive
  obtain ⟨-, -, hreceive⟩ := bind_eq_ok.mp hreceive
  cases hreceive
  exact (h.makeClientId hmake).insert hinsert

theorem makeConnection (h : s.Kept family pvd) {path : Bytes}
    (hconnect : s.makeConnection family path = .ok s') : s'.Kept family pvd := by
  rw [PeerTable.makeConnection] at hconnect
  split at hconnect
  · cases hconnect
    exact h
  · obtain ⟨peerAlias, -, hconnect⟩ := bind_eq_ok.mp hconnect
    obtain ⟨⟨res, stored⟩, hinsert, hconnect⟩ := bind_eq_ok.mp hconnect
    obtain ⟨-, -, hconnect⟩ := bind_eq_ok.mp hconnect
    cases hconnect
    exact h.insert hinsert

theorem next (h : s.Kept family pvd) {op : Operation Address}
    (hnext : next transport family s op = .ok s') : s'.Kept family pvd := by
  cases op with
  | loadAlias pvd' ip port random => exact (h.make pvd').updateAliasMapper hnext
  | connectTry peerIp peerPort appPath pvdId random => exact h.connectTry hnext
  | acceptPeer newCliaddr =>
      obtain ⟨⟨found, named⟩, hmake, hnext⟩ := bind_eq_ok.mp hnext
      cases hnext
      exact h.makeClientId hmake
  | receiveFrom cliaddr => exact h.receiveFrom hnext
  | makeConnection path => exact h.makeConnection hnext
  | disconnection path =>
      cases hnext
      refine ⟨?_, h.pvdAlias_lt, h.type⟩
      have hordered := h.ordered
      rwa [ComparedAliasAddr.Ordered, ← ComparedAliasAddr.resetConnectFlag_mmAlias _ path]
        at hordered
  | renameAlias ref parent name =>
      cases hnext
      refine ⟨h.ordered, h.pvdAlias_lt, ?_⟩
      rw [← h.type, providerType, providerType]
      by_cases hself : s.pvdAlias = ref
      · simp [AliasHeap.update, IAliasPVD.update, hself]
      · simp [AliasHeap.update, Function.update_of_ne hself]

theorem reachable (hreach : Reachable (Step transport family) (PeerTable.started Address pvd) s) :
    s.Kept family pvd :=
  hreach.invariant Kept.started fun _ _ _ h _ hstep => h.next hstep

end Kept

end PeerTable

end CommonCommunicator
