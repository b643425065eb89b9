import CommonCommunicator.Alias.AliasLoading
import CommonCommunicator.Provider.PeerTable

/-!
# The port of a provider alias

The alias file gives a port as a 32-bit number. `update_alias_mapper` puts it
into a socket address, and `sync_trans_provider` copies it between the alias and
the communicator, in whichever of the two the IP is missing. The address and the
communicator have 16 bits for it.
-/

namespace CommonCommunicator

open Lib

namespace AliasTree

variable {Address : Type}

/-- One turn of the loop of `update_alias_mapper`, with the address that it builds. The cast to
`CAliasTrans` gives null for a service, `port_num` is a `uint16_t`. -/
def mapAlias (tree : AliasTree) (family : AddressFamily Address) (s : PeerTable Address)
    (pvd : AliasRef) (random : RandomNumbers) : Outcome (Address × PeerTable Address) :=
  match tree.pvdData pvd with
  | .service _ => .error .assertion
  | .trans pvdAlias => do
      assertThat ((s.heap.objects pvd).type = s.providerType)
      let destaddr ← family.setIpPort pvdAlias.ip (pvdAlias.portNum % 2 ^ 16) random
      let (_, s) ← s.insert family (some pvd) destaddr false
      return (destaddr, s)

/-- `update_alias_mapper` of a list, with the addresses that it builds. -/
def updateAliasMapper (tree : AliasTree) (family : AddressFamily Address) :
    (aliasList : List (AliasRef × RandomNumbers)) → (s : PeerTable Address) →
      Outcome (List (AliasRef × Address) × PeerTable Address)
  | [], s => .ok ([], s)
  | (pvd, random) :: aliasList, s => do
      let (destaddr, s) ← tree.mapAlias family s pvd random
      let (built, s) ← tree.updateAliasMapper family aliasList s
      return ((pvd, destaddr) :: built, s)

/-- A provider that the constructor of `CPVD_TCP` or `CPVD_UDP` starts with, before it maps the
aliases of its type. -/
def cleared (Address : Type) (tree : AliasTree) (selfAlias : AliasRef) : PeerTable Address where
  pvdAlias := selfAlias
  heap := tree.heap
  mmAli4addr := .empty Address

/-- The alias has this of its data, unless its port is zero. -/
def PortHas (tree : AliasTree) (P : CAliasTrans → Prop) (pvd : AliasRef) : Prop :=
  ∀ pvdAlias, tree.pvdData pvd = .trans pvdAlias → pvdAlias.portNum ≠ 0 → P pvdAlias

end AliasTree

/-- Where an address shows the port that it was made from, and what an alias needs for it. -/
structure PortField {Address : Type} (family : AddressFamily Address) where
  carries : (ip : Bytes) → (port : Nat) → Address → Prop
  room : (ip : Bytes) → (port : Nat) → Prop
  carries_iff : ∀ {ip : Bytes} {port : Nat} {random : RandomNumbers} {addr : Address}, port ≠ 0 →
    family.setIpPort ip (port % 2 ^ 16) random = .ok addr →
      (carries ip port addr ↔ port < 2 ^ 16 ∧ room ip port)

namespace PortField

theorem swapBytes_swapBytes (port : UInt16) :
    AddressFamily.swapBytes (AddressFamily.swapBytes port) = port := by
  apply UInt16.toBitVec_inj.mp
  simp only [AddressFamily.swapBytes, UInt16.toBitVec_or, UInt16.toBitVec_shiftLeft,
    UInt16.toBitVec_shiftRight]
  rw [show (8 : UInt16).toBitVec % 16 = 8#16 from rfl]
  ext i hi
  by_cases hlow : i < 8
  · have hback : 8 + i < 16 := by omega
    have hout : port.toBitVec.getLsbD (8 + (8 + i)) = false :=
      BitVec.getLsbD_of_ge _ _ (by omega)
    simp [hlow, hback, hout]
  · have hout : 16 ≤ 8 + i := by omega
    have hsub : i - 8 < 8 := by omega
    have hback : 8 + (i - 8) = i := by omega
    simp [hlow, hsub, hout, hback, hi]

/-- The port that `set_ip_port` is left with is the one of the alias if 16 bits hold it. -/
theorem usedPort_eq_iff {port : Nat} (random : RandomNumbers) (hport : port ≠ 0) :
    (if port % 2 ^ 16 = 0 then random.port else port % 2 ^ 16) = port ↔ port < 2 ^ 16 := by
  have hrandom := random.portRange
  split <;> omega

theorem usedPort_lt (port : Nat) (random : RandomNumbers) :
    (if port % 2 ^ 16 = 0 then random.port else port % 2 ^ 16) < 2 ^ 16 := by
  have hrandom := random.portRange
  split <;> omega

/-- `sockaddr_in`: the field `sin_port`. -/
def inet (inetAddr : Bytes → UInt32) : PortField (.inet inetAddr) where
  carries _ port addr := (AddressFamily.swapBytes addr.1.sinPort).toNat = port
  room _ _ := True
  carries_iff {_ port random _} hport hmade := by
    obtain rfl := Except.ok.inj hmade
    dsimp only
    rw [swapBytes_swapBytes, UInt16.toNat_ofNat', Nat.mod_eq_of_lt (usedPort_lt port random),
      usedPort_eq_iff random hport, and_true]

/-- The IP that `set_ip_port` prints into a path. -/
def printedIp (ip : Bytes) : Bytes := CString.text (if ip = [] then CinetUds.defUdsId else ip)

/-- What stands in a path in front of the port. -/
def beforePort (ip : Bytes) : Bytes := CinetUds.udsDir ++ (printedIp ip ++ [CinetUds.colon])

/-- What is left of a number of digits that are cut off somewhere, up to the character behind
them. -/
theorem cut_digits_iff {before digits behind shown : Bytes} {c : UInt8} (n : Nat)
    (hdigits : c ∉ digits) :
    (∃ rest, (before ++ (digits ++ c :: behind)).take n = before ++ rest ∧
        rest.takeWhile (· != c) = shown) ↔
      before.length ≤ n ∧ digits.take (n - before.length) = shown := by
  have hcut : ((digits ++ c :: behind).take (n - before.length)).takeWhile (· != c) =
      digits.take (n - before.length) := by
    have hkeep : ∀ b ∈ digits.take (n - before.length), (b != c) = true := by
      intro b hb
      apply bne_iff_ne.mpr
      rintro rfl
      exact hdigits (List.mem_of_mem_take hb)
    rw [List.take_append, List.takeWhile_append_of_pos hkeep]
    cases n - before.length - digits.length with
    | zero => simp
    | succ k => simp
  constructor
  · rintro ⟨rest, hrest, hshown⟩
    have hlength : before.length ≤ n := by
      have hle := List.length_take_le n (before ++ (digits ++ c :: behind))
      rw [hrest, List.length_append] at hle
      omega
    rw [List.take_append, List.take_of_length_le hlength] at hrest
    rw [← hcut, List.append_cancel_left hrest]
    exact ⟨hlength, hshown⟩
  · rintro ⟨hlength, hshown⟩
    refine ⟨_, ?_, hcut.trans hshown⟩
    rw [List.take_append, List.take_of_length_le hlength]

/-- A printed port that is cut is not the one that was printed, nor one that needs more bits. -/
theorem take_printUnsigned_iff {port : Nat} (random : RandomNumbers) (hport : port ≠ 0) (m : Nat) :
    (CString.printUnsigned (if port % 2 ^ 16 = 0 then random.port else port % 2 ^ 16)).take m =
        CString.printUnsigned port ↔
      port < 2 ^ 16 ∧ (CString.printUnsigned port).length ≤ m := by
  have hused := usedPort_eq_iff random hport
  constructor
  · intro htake
    by_cases hwhole : (CString.printUnsigned
        (if port % 2 ^ 16 = 0 then random.port else port % 2 ^ 16)).length ≤ m
    · rw [List.take_of_length_le hwhole] at htake
      have hport := CString.printUnsigned_inj.mp htake
      rw [← htake]
      exact ⟨hused.mp hport, hwhole⟩
    · have hlength := congrArg List.length htake
      have hused_le := CString.length_printUnsigned_le (k := 5) (by decide)
        (Nat.lt_of_lt_of_le (usedPort_lt port random) (by decide))
      rw [List.length_take] at hlength
      have hshort : port < 10 ^ 4 :=
        (CString.length_printUnsigned_le_iff (by decide)).mp (by omega)
      rw [hused.mpr (by omega)] at hlength hwhole
      omega
  · rintro ⟨hlt, hle⟩
    rw [hused.mpr hlt, List.take_of_length_le hle]

/-- `sockaddr_un`: what stands between the `:` behind the IP and `_`, or the end of the path. -/
def uds (inetAddr : Bytes → UInt32) : PortField (.uds inetAddr) where
  carries ip port addr :=
    ∃ rest, CString.text addr.1.sunPath = beforePort ip ++ rest ∧
      rest.takeWhile (· != CinetUds.underscore) = CString.printUnsigned port
  room ip port :=
    (beforePort ip).length + (CString.printUnsigned port).length ≤ udsPathMaxsize - 1
  carries_iff {ip port random _} hport hmade := by
    obtain rfl := Except.ok.inj hmade
    have hform : ∀ used, CinetUds.udsForm (printedIp ip) used CinetUds.udsServer =
        beforePort ip ++ (CString.printUnsigned used ++
          CinetUds.underscore :: CinetUds.udsServer) := by
      intro used
      simp [CinetUds.udsForm, beforePort]
    have hread := CinetUds.read_named afUnix (CinetUds.notMem_udsForm
      (if port % 2 ^ 16 = 0 then random.port else port % 2 ^ 16)
      (CString.notMem_text (if ip = [] then CinetUds.defUdsId else ip))
      (@CinetUds.kind_of_random random CinetUds.udsServer (Or.inl rfl)))
    obtain ⟨-, htext⟩ := CString.read_eq_ok.mp hread
    dsimp only
    rw [htext, ← printedIp, hform, cut_digits_iff _ (CString.notMem_printUnsigned _ rfl),
      take_printUnsigned_iff random hport]
    omega

end PortField

namespace AliasTree

variable {Address : Type} {family : AddressFamily Address} {tree : AliasTree}
  {s s' : PeerTable Address}

/-- The addresses that were built show the ports of their aliases. -/
def PortsCarried (tree : AliasTree) (field : PortField family)
    (built : List (AliasRef × Address)) : Prop :=
  ∀ entry ∈ built,
    tree.PortHas (fun pvdAlias => field.carries pvdAlias.ip pvdAlias.portNum entry.2) entry.1

/-- The ports fit into 16 bits, and the addresses have room for them. -/
def PortsFit (tree : AliasTree) (field : PortField family)
    (aliasList : List (AliasRef × RandomNumbers)) : Prop :=
  ∀ entry ∈ aliasList, tree.PortHas (fun pvdAlias =>
    pvdAlias.portNum < 2 ^ 16 ∧ field.room pvdAlias.ip pvdAlias.portNum) entry.1

/-- A turn of the loop makes the address of an alias of the provider's type, and stores it. -/
theorem mapAlias_ok {pvd : AliasRef} {random : RandomNumbers} {destaddr : Address}
    (h : tree.mapAlias family s pvd random = .ok (destaddr, s')) :
    ∃ pvdAlias res, tree.pvdData pvd = .trans pvdAlias ∧
      (s.heap.objects pvd).type = s.providerType ∧
      family.setIpPort pvdAlias.ip (pvdAlias.portNum % 2 ^ 16) random = .ok destaddr ∧
      s.insert family (some pvd) destaddr false = .ok (res, s') := by
  rw [mapAlias] at h
  split at h
  · cases h
  · next pvdAlias hdata =>
      obtain ⟨⟨⟩, htype, h⟩ := bind_eq_ok.mp h
      obtain ⟨addr, haddr, h⟩ := bind_eq_ok.mp h
      obtain ⟨⟨res, stored⟩, hinsert, h⟩ := bind_eq_ok.mp h
      cases h
      exact ⟨pvdAlias, res, hdata, assertThat_eq_ok.mp htype, haddr, hinsert⟩

/-- A turn of the loop is `update_alias_mapper` of the one alias. -/
theorem mapAlias_updateAliasMapper {pvd : AliasRef} {random : RandomNumbers} {destaddr : Address}
    (h : tree.mapAlias family s pvd random = .ok (destaddr, s')) :
    ∃ pvdAlias, tree.pvdData pvd = .trans pvdAlias ∧
      s.updateAliasMapper family pvd pvdAlias.ip (pvdAlias.portNum % 2 ^ 16) random = .ok s' := by
  obtain ⟨pvdAlias, res, hdata, htype, haddr, hinsert⟩ := mapAlias_ok h
  refine ⟨pvdAlias, hdata, ?_⟩
  rw [PeerTable.updateAliasMapper, assertThat_pos htype, ok_bind, haddr, ok_bind, hinsert]
  rfl

/-- One turn of the loop: the address shows the port exactly if it fits. -/
theorem mapAlias_carries_iff (field : PortField family) {pvd : AliasRef} {random : RandomNumbers}
    {destaddr : Address} (h : tree.mapAlias family s pvd random = .ok (destaddr, s')) :
    tree.PortHas (fun pvdAlias => field.carries pvdAlias.ip pvdAlias.portNum destaddr) pvd ↔
      tree.PortHas (fun pvdAlias =>
        pvdAlias.portNum < 2 ^ 16 ∧ field.room pvdAlias.ip pvdAlias.portNum) pvd := by
  obtain ⟨made, -, hdata, -, haddr, -⟩ := mapAlias_ok h
  apply forall_congr'
  intro pvdAlias
  apply forall_congr'
  intro hpvdAlias
  obtain rfl : made = pvdAlias := PvdData.trans.inj (hdata.symm.trans hpvdAlias)
  exact forall_congr' fun hport => field.carries_iff hport haddr

/-- A provider always maps itself. -/
theorem updateAliasMapper_self (family : AddressFamily Address) {pvd : AliasRef}
    {pvdAlias : CAliasTrans} (random : RandomNumbers) (hdata : tree.pvdData pvd = .trans pvdAlias) :
    ∃ destaddr s', tree.updateAliasMapper family [(pvd, random)] (tree.cleared Address pvd) =
        .ok ([(pvd, destaddr)], s') ∧
      family.setIpPort pvdAlias.ip (pvdAlias.portNum % 2 ^ 16) random = .ok destaddr := by
  obtain ⟨destaddr, haddr⟩ := family.made pvdAlias.ip (pvdAlias.portNum % 2 ^ 16) random
  have htype : ((tree.cleared Address pvd).heap.objects pvd).type =
      (tree.cleared Address pvd).providerType := rfl
  have hturn : ∃ s', tree.mapAlias family (tree.cleared Address pvd) pvd random =
      .ok (destaddr, s') := by
    rw [mapAlias, hdata]
    dsimp only
    rw [assertThat_pos htype, ok_bind, haddr]
    exact ⟨_, rfl⟩
  obtain ⟨s', hturn⟩ := hturn
  refine ⟨destaddr, s', ?_, haddr⟩
  rw [updateAliasMapper, hturn]
  rfl

/-- The whole loop. -/
theorem updateAliasMapper_carried_iff (field : PortField family)
    {aliasList : List (AliasRef × RandomNumbers)} {built : List (AliasRef × Address)}
    (h : tree.updateAliasMapper family aliasList s = .ok (built, s')) :
    tree.PortsCarried field built ↔ tree.PortsFit field aliasList := by
  induction aliasList generalizing s built with
  | nil =>
      cases h
      exact iff_of_true (fun _ hmem => absurd hmem List.not_mem_nil)
        (fun _ hmem => absurd hmem List.not_mem_nil)
  | cons entry aliasList ih =>
      obtain ⟨pvd, random⟩ := entry
      obtain ⟨⟨destaddr, mid⟩, hturn, h⟩ := bind_eq_ok.mp h
      obtain ⟨⟨rest, last⟩, hrest, h⟩ := bind_eq_ok.mp h
      cases h
      have hfirst := mapAlias_carries_iff field hturn
      have hothers := ih hrest
      unfold PortsCarried PortsFit at hothers ⊢
      rw [List.forall_mem_cons, List.forall_mem_cons, hfirst, hothers]

end AliasTree

/-- `ip` and `port` of `ICommunicatorImpl`. -/
structure ProviderAddress where
  ip : Bytes
  port : UInt16
  deriving DecidableEq

namespace ProviderAddress

/-- `sync_trans_provider`: the communicator and the alias that it leaves. Its `invalid_argument` is
thrown again as an `exception`. -/
def syncTransProvider (comm : ProviderAddress) (pvd : CAliasTrans) :
    Outcome (ProviderAddress × CAliasTrans) :=
  if pvd.ip = [] ∧ comm.ip ≠ [] then
    .ok (comm, { ip := comm.ip, portNum := comm.port.toNat, mask := 24 })
  else if pvd.ip ≠ [] ∧ comm.ip = [] then
    .ok ({ ip := pvd.ip, port := UInt16.ofNat pvd.portNum }, pvd)
  else if pvd.ip ≠ [] ∧ comm.ip ≠ [] then
    if pvd.ip ≠ comm.ip ∨ pvd.portNum ≠ comm.port.toNat then throwThat .exception
    else .ok (comm, pvd)
  else .ok (comm, pvd)

/-- The communicator and the alias have the same IP and port. -/
def Agrees (comm : ProviderAddress) (pvd : CAliasTrans) : Prop :=
  comm.ip = pvd.ip ∧ comm.port.toNat = pvd.portNum

/-- A call that returns leaves IP and port equal, and a second one changes nothing. -/
def Synced (comm : ProviderAddress) (pvd : CAliasTrans) : Prop :=
  ∀ comm' pvd', comm.syncTransProvider pvd = .ok (comm', pvd') →
    comm'.Agrees pvd' ∧ comm'.syncTransProvider pvd' = .ok (comm', pvd')

/-- Where both have an IP, the call returns exactly if they agree, and changes nothing. -/
theorem syncTransProvider_eq_ok_iff {comm comm' : ProviderAddress} {pvd pvd' : CAliasTrans}
    (hcomm : comm.ip ≠ []) (hpvd : pvd.ip ≠ []) :
    comm.syncTransProvider pvd = .ok (comm', pvd') ↔
      comm.Agrees pvd ∧ comm = comm' ∧ pvd = pvd' := by
  rw [syncTransProvider, if_neg (fun h => hpvd h.1), if_neg (fun h => hcomm h.2),
    if_pos ⟨hpvd, hcomm⟩]
  constructor
  · intro h
    split at h
    · cases h
    · next hsame =>
        rw [not_or, not_not, not_not] at hsame
        cases h
        exact ⟨⟨hsame.1.symm, hsame.2.symm⟩, rfl, rfl⟩
  · rintro ⟨⟨hip, hport⟩, rfl, rfl⟩
    rw [if_neg]
    rintro (hne | hne)
    · exact hne hip.symm
    · exact hne hport.symm

/-- Sides that agree on an IP are left as they are. -/
theorem Agrees.again {comm : ProviderAddress} {pvd : CAliasTrans} (h : comm.Agrees pvd)
    (hip : comm.ip ≠ []) : comm.syncTransProvider pvd = .ok (comm, pvd) :=
  (syncTransProvider_eq_ok_iff hip (h.1 ▸ hip)).mpr ⟨h, rfl, rfl⟩

/-- A call with an IP on either side leaves both agreeing for good, unless the communicator has to
take over a port that it has no room for. -/
theorem synced_iff {comm : ProviderAddress} {pvd : CAliasTrans} (h : comm.ip ≠ [] ∨ pvd.ip ≠ []) :
    comm.Synced pvd ↔ (comm.ip = [] → pvd.portNum < 2 ^ 16) := by
  by_cases hcomm : comm.ip = []
  · have hpvd : pvd.ip ≠ [] := h.resolve_left (not_not.mpr hcomm)
    have hcall : comm.syncTransProvider pvd =
        .ok ({ ip := pvd.ip, port := UInt16.ofNat pvd.portNum }, pvd) := by
      rw [syncTransProvider, if_neg (fun hempty => hpvd hempty.1), if_pos ⟨hpvd, hcomm⟩]
    constructor
    · intro hsynced _
      obtain ⟨⟨-, hport⟩, -⟩ := hsynced _ _ hcall
      rw [← hport]
      exact UInt16.toNat_lt _
    · intro hlt comm' pvd' hfirst
      cases hcall.symm.trans hfirst
      have hagrees : ProviderAddress.Agrees
          { ip := pvd.ip, port := UInt16.ofNat pvd.portNum } pvd := by
        refine ⟨rfl, ?_⟩
        rw [UInt16.toNat_ofNat', Nat.mod_eq_of_lt (hlt hcomm)]
      exact ⟨hagrees, hagrees.again hpvd⟩
  · refine iff_of_true ?_ (fun hempty => absurd hempty hcomm)
    intro comm' pvd' hfirst
    by_cases hpvd : pvd.ip = []
    · rw [syncTransProvider, if_pos ⟨hpvd, hcomm⟩] at hfirst
      cases hfirst
      have hagrees : comm.Agrees { ip := comm.ip, portNum := comm.port.toNat, mask := 24 } :=
        ⟨rfl, rfl⟩
      exact ⟨hagrees, hagrees.again hcomm⟩
    · obtain ⟨hagrees, rfl, rfl⟩ := (syncTransProvider_eq_ok_iff hcomm hpvd).mp hfirst
      exact ⟨hagrees, hagrees.again hcomm⟩

/-- Ports are kept exactly where they fit into 16 bits: in the addresses of `update_alias_mapper`,
where a path also needs room for the digits, and in a communicator that takes its IP from the
alias. -/
theorem portsKept_iff (inetAddr : Bytes → UInt32) :
    (∀ (tree : AliasTree) (s s' : PeerTable InetName) (aliasList : List (AliasRef × RandomNumbers))
      (built : List (AliasRef × InetName)),
      tree.updateAliasMapper (.inet inetAddr) aliasList s = .ok (built, s') →
        (tree.PortsCarried (.inet inetAddr) built ↔ tree.PortsFit (.inet inetAddr) aliasList)) ∧
    (∀ (tree : AliasTree) (s s' : PeerTable UdsName) (aliasList : List (AliasRef × RandomNumbers))
      (built : List (AliasRef × UdsName)),
      tree.updateAliasMapper (.uds inetAddr) aliasList s = .ok (built, s') →
        (tree.PortsCarried (.uds inetAddr) built ↔ tree.PortsFit (.uds inetAddr) aliasList)) ∧
    ∀ (comm : ProviderAddress) (pvd : CAliasTrans), comm.ip ≠ [] ∨ pvd.ip ≠ [] →
      (comm.Synced pvd ↔ (comm.ip = [] → pvd.portNum < 2 ^ 16)) := by
  refine ⟨?_, ?_, ?_⟩
  · intro tree s s' aliasList built h
    exact AliasTree.updateAliasMapper_carried_iff (.inet inetAddr) h
  · intro tree s s' aliasList built h
    exact AliasTree.updateAliasMapper_carried_iff (.uds inetAddr) h
  · intro comm pvd h
    exact synced_iff h

/-- A resource with one provider `p`, at this port of 10.0.0.1. -/
def portDocument (port : String) : Json :=
  let text (s : String) : Json := .string (literal s)
  .object [(literal "aliases", .object [(literal "A", .object
    [(literal "properties", .object
      [(literal "type", text "single"), (literal "name", text "self"),
       (literal "where", text "here")]),
     (literal "svc-pvd", .object [(literal "p", .object
      [(literal "provider-type", text "tcp"),
       (literal "address", .object
        [(literal "ip", text "10.0.0.1"), (literal "port", text port)])])])])])]

/-- `inet_addr` of 10.0.0.1, whatever the text. -/
def inetAddrOfTen (_ : Bytes) : UInt32 := 0x0100000A

/-- Port 80 is kept in the address, and in a communicator without IP. -/
theorem port80_kept :
    ∃ tree, AliasTree.construct AliasTree.noAliases (some (portDocument "80")) = .ok tree ∧
      tree.config.mmPvds .transTCP = [0] ∧
      (∃ built s', tree.updateAliasMapper (.inet inetAddrOfTen) [(0, CinetUds.someNumbers)]
          (tree.cleared InetName 0) = .ok (built, s') ∧
        tree.PortsCarried (.inet inetAddrOfTen) built) ∧
      ∃ pvd, tree.pvdData 0 = .trans pvd ∧ Synced { ip := [], port := 0 } pvd := by
  obtain ⟨hinet, -, hsync⟩ := portsKept_iff inetAddrOfTen
  obtain ⟨tree, htree, hlist, hdata⟩ : ∃ tree,
      AliasTree.construct AliasTree.noAliases (some (portDocument "80")) = .ok tree ∧
        tree.config.mmPvds .transTCP = [0] ∧
        tree.pvdData 0 = .trans { ip := literal "10.0.0.1", mask := 0, portNum := 80 } :=
    ⟨_, rfl, rfl, rfl⟩
  obtain ⟨addr, s', hmap, -⟩ := AliasTree.updateAliasMapper_self (.inet inetAddrOfTen)
    CinetUds.someNumbers hdata
  refine ⟨tree, htree, hlist, ⟨_, _, hmap, ?_⟩, _, hdata, ?_⟩
  · apply (hinet _ _ _ _ _ hmap).mpr
    intro entry hmem pvdAlias hpvdAlias _
    rw [List.mem_singleton.mp hmem] at hpvdAlias
    obtain rfl := PvdData.trans.inj (hdata.symm.trans hpvdAlias)
    exact ⟨by decide, trivial⟩
  · apply (hsync _ _ (Or.inr (by decide))).mpr
    intro _
    decide

/-- Port 70000 is 4464 in the address, and in a communicator that takes it over: a second call
throws. -/
theorem port70000_not_kept :
    ∃ tree, AliasTree.construct AliasTree.noAliases (some (portDocument "70000")) = .ok tree ∧
      tree.config.mmPvds .transTCP = [0] ∧
      (∃ built s', tree.updateAliasMapper (.inet inetAddrOfTen) [(0, CinetUds.someNumbers)]
          (tree.cleared InetName 0) = .ok (built, s') ∧
        ¬tree.PortsCarried (.inet inetAddrOfTen) built) ∧
      ∃ pvd, tree.pvdData 0 = .trans pvd ∧ ¬Synced { ip := [], port := 0 } pvd := by
  obtain ⟨tree, htree, hlist, hdata⟩ : ∃ tree,
      AliasTree.construct AliasTree.noAliases (some (portDocument "70000")) = .ok tree ∧
        tree.config.mmPvds .transTCP = [0] ∧
        tree.pvdData 0 = .trans { ip := literal "10.0.0.1", mask := 0, portNum := 70000 } :=
    ⟨_, rfl, rfl, rfl⟩
  obtain ⟨addr, s', hmap, haddr⟩ := AliasTree.updateAliasMapper_self (.inet inetAddrOfTen)
    CinetUds.someNumbers hdata
  refine ⟨tree, htree, hlist, ⟨_, _, hmap, ?_⟩, _, hdata, ?_⟩
  · intro hcarried
    have hport : (AddressFamily.swapBytes addr.1.sinPort).toNat = 70000 :=
      hcarried _ (List.mem_cons_self ..) _ hdata (by decide)
    obtain rfl := Except.ok.inj haddr
    revert hport
    decide
  · intro hsynced
    obtain ⟨⟨-, hport⟩, -⟩ := hsynced _ _ rfl
    revert hport
    decide

end ProviderAddress

end CommonCommunicator
