import CommonCommunicator.Provider.TcpProvider
import CommonCommunicator.Provider.UdpWrite
import CommonCommunicator.Lib.GuardedRun

/-!
# CPVD_UDP

A UDP provider has one socket for all peers. A peer counts as connected while
the flag of its entry in the alias table is set; whoever sets the flag reports
the peer as connected and registers it, and whoever clears it reports it as
disconnected and unregisters it. An operation that throws has changed nothing,
and one that aborts has no resulting state.
-/

namespace CommonCommunicator

open Lib

/-- `CPVD_UDP`, with the alias objects, the alias manager and the connection callbacks made so
far. -/
structure UdpProvider (Address : Type) where
  pvdAlias : AliasRef
  heap : AliasHeap
  config : CConfigAliases
  mmAli4addr : CAliasAddr Address
  callbacks : List ConnectionCallback

namespace UdpProvider

variable {Address : Type} [DecidableEq Address]

/-- `get_provider_type`. -/
def providerType (s : UdpProvider Address) : ProviderType := (s.heap.objects s.pvdAlias).type

/-- `IPVDInf::regist_connected_peer`. -/
def registConnectedPeer (s : UdpProvider Address) (peerAlias : AliasRef) :
    Outcome (Bool × UdpProvider Address) :=
  catching (do
      let (res, config) ← s.config.registConnectedPeer s.heap peerAlias s.pvdAlias
      return (res, { s with config := config }))
    fun _ => .ok (false, s)

/-- `IPVDInf::unregist_connected_peer`. -/
def unregistConnectedPeer (s : UdpProvider Address) (peerFullPath : Bytes) :
    Outcome (UdpProvider Address) :=
  catching (do
      let config ← s.config.unregistConnectedPeer s.heap peerFullPath (s.heap.path s.pvdAlias)
      return { s with config := config })
    fun _ => .ok s

/-- The call of `cb_connection_handle`. -/
def reportConnection (s : UdpProvider Address) (appPath pvdPath : Bytes)
    (flag : ConnectionState) : UdpProvider Address :=
  { s with
    callbacks := s.callbacks ++
      [{ appPath := appPath, pvdPath := pvdPath, flag := flag, fromPeer := none }] }

/-- `IHProtocolInf::handle_connection`. -/
def handleConnection (s : UdpProvider Address) (appPath pvdPath : Bytes)
    (flag : ConnectionState) : Outcome (UdpProvider Address) :=
  if flag = .disconnected then do
    let s ← s.unregistConnectedPeer (IAliasPVD.makeFullPath appPath pvdPath)
    return s.reportConnection appPath pvdPath flag
  else .ok (s.reportConnection appPath pvdPath flag)

/-- `make_connection`: the application is told before the peer is registered. -/
def makeConnection (s : UdpProvider Address) (peerFullPath : Bytes) :
    Outcome (Bool × UdpProvider Address) :=
  match s.mmAli4addr.get peerFullPath with
  | none => .ok (false, s)
  | some addr => do
      let found := s.mmAli4addr.getAlias addr
      let (res, isNew, table) ← s.mmAli4addr.insert s.heap found (some addr) true
      assertThat (res = true)
      let s := { s with mmAli4addr := table }
      if isNew then
        match found with
        | none => .error .undefined
        | some peerAlias => do
            let pvd := s.heap.objects peerAlias
            let s ← s.handleConnection pvd.pathParent pvd.name .connected
            let (res, s) ← s.registConnectedPeer peerAlias
            assertThat (res = true)
            return (true, s)
      else return (true, s)

/-- `disconnection`. -/
def disconnection (s : UdpProvider Address) (appPath pvdId : Bytes) :
    Outcome (UdpProvider Address) :=
  if s.mmAli4addr.get (IAliasPVD.makeFullPath appPath pvdId) = none then .ok s
  else
    let (hadConnected, table) :=
      s.mmAli4addr.resetConnectFlag (IAliasPVD.makeFullPath appPath pvdId)
    let s := { s with mmAli4addr := table }
    if hadConnected then s.handleConnection appPath pvdId .disconnected else .ok s

/-- `disconnection` of an alias. -/
def disconnectionOf (s : UdpProvider Address) (peerAlias : AliasRef) :
    Outcome (UdpProvider Address) :=
  let pvd := s.heap.objects peerAlias
  s.disconnection pvd.pathParent pvd.name

/-- `make_client_id`. `getIpPort` is `get_ip_port` of the address family, which has nothing for an
unnamed peer; the result is dereferenced all the same. -/
def makeClientId (getIpPort : Address → Outcome (Option (Bytes × Nat)))
    (s : UdpProvider Address) (cliaddr : Address) :
    Outcome (Option AliasRef × UdpProvider Address) := do
  assertThat (s.providerType = .transUDP ∨ s.providerType = .transUdsUDP)
  match s.mmAli4addr.getAlias cliaddr with
  | some peer => return (some peer, s)
  | none =>
      match ← getIpPort cliaddr with
      | none => .error .undefined
      | some (ip, port) =>
          if ip = TcpProvider.anyAddress then return (none, s)
          else
            let peer := s.heap.nextRef
            let heap := s.heap.make
              { pathParent := [], name := ip ++ 0x3A :: TcpProvider.toString port,
                type := s.providerType,
                convertible := (s.heap.objects s.pvdAlias).convertible }
            let (_, _, table) ← s.mmAli4addr.insert heap (some peer) (some cliaddr) false
            return (some peer, { s with heap := heap, mmAli4addr := table })

/-- One turn of the loop in `read_msg`: the sender of a message and whether it is new, or nothing
if the datagram is empty and the loop goes on. -/
def readMsg (getIpPort : Address → Outcome (Option (Bytes × Nat))) (s : UdpProvider Address)
    (cliaddr : Address) (msgSize : Nat) :
    Outcome (Option (AliasRef × Bool) × UdpProvider Address) := do
  let (peerAlias, s) ← makeClientId getIpPort s cliaddr
  match peerAlias with
  | none => .error .assertion
  | some peerAlias =>
      if msgSize = 0 then do
        let s ← s.disconnectionOf peerAlias
        return (none, s)
      else do
        let (res, isNew, table) ←
          s.mmAli4addr.insert s.heap (some peerAlias) (some cliaddr) true
        assertThat (res = true)
        let s := { s with mmAli4addr := table }
        if isNew then
          let (res, s) ← s.registConnectedPeer peerAlias
          assertThat (res = true)
          return (some (peerAlias, true), s)
        else return (some (peerAlias, false), s)

/-- What `run_receiver` does with a datagram, up to `handle_protocol_chain`: the application is
told of a new peer after it is registered. -/
def runReceiver (getIpPort : Address → Outcome (Option (Bytes × Nat))) (s : UdpProvider Address)
    (cliaddr : Address) (msgSize : Nat) : Outcome (UdpProvider Address) := do
  let (msgRaw, s) ← readMsg getIpPort s cliaddr msgSize
  match msgRaw with
  | some (peerAlias, true) =>
      let pvd := s.heap.objects peerAlias
      s.handleConnection pvd.pathParent pvd.name .connected
  | _ => return s

/-- `write_msg` of a message with `msgSize` bytes that came from `source`, with the first `k` turns
of its loop. -/
def writeMsg (s : UdpProvider Address) (appPath pvdPath : Bytes) (source : Bytes × Bytes)
    (msgSize : Nat) (results : Nat → Int) (k : Nat) :
    Outcome (Option Bool × UdpProvider Address) := do
  assertThat (0 < msgSize)
  let target := if pvdPath = [] then source else (appPath, pvdPath)
  if target.2 = [] then throwThat .invalidArgument
  else
    let (res, s) ← s.makeConnection (IAliasPVD.makeFullPath target.1 target.2)
    if res then
      let written ← WriteLoop.writeMsg msgSize results k
      return (written, s)
    else throwThat .outOfRange

/-- `update_alias_mapper` of one alias, whose IP and port give the address. -/
def updateAliasMapper (s : UdpProvider Address) (newPvd : AliasRef) (destaddr : Address) :
    Outcome (UdpProvider Address) := do
  assertThat ((s.heap.objects newPvd).type = s.providerType)
  let (_, _, table) ← s.mmAli4addr.insert s.heap (some newPvd) (some destaddr) false
  return { s with mmAli4addr := table }

/-- `register_new_alias` for a peer address. The names of the alias end at a NUL. Its
`domain_error` is thrown again as an `exception`. -/
def registerNewAlias (s : UdpProvider Address) (peerAddr : Address) (peerPort : Nat)
    (appPath pvdId : Bytes) : Outcome (UdpProvider Address) := do
  assertThat (0 < peerPort)
  assertThat (pvdId ≠ [])
  if s.providerType ≠ .transTCP ∧ s.providerType ≠ .transUDP ∧ s.providerType ≠ .transUdsTCP ∧
      s.providerType ≠ .transUdsUDP then throwThat .exception
  else
    let newAlias := s.heap.nextRef
    let heap := s.heap.make
      { pathParent := CString.text appPath, name := CString.text pvdId, type := s.providerType,
        convertible := (s.heap.objects s.pvdAlias).convertible }
    { s with heap := heap }.updateAliasMapper newAlias peerAddr

/-- The operations of a provider. -/
inductive Operation (Address : Type)
  | makeConnection (peerFullPath : Bytes)
  | disconnection (appPath pvdId : Bytes)
  | runReceiver (cliaddr : Address) (msgSize : Nat)
  | writeMsg (appPath pvdPath : Bytes) (source : Bytes × Bytes) (msgSize : Nat)
      (results : Nat → Int) (k : Nat)
  | registerNewAlias (peerAddr : Address) (peerPort : Nat) (appPath pvdId : Bytes)

/-- The state behind an operation that returns. -/
def next (getIpPort : Address → Outcome (Option (Bytes × Nat))) (s : UdpProvider Address) :
    Operation Address → Outcome (UdpProvider Address)
  | .makeConnection peerFullPath => do
      let (_, s) ← s.makeConnection peerFullPath
      return s
  | .disconnection appPath pvdId => s.disconnection appPath pvdId
  | .runReceiver cliaddr msgSize => runReceiver getIpPort s cliaddr msgSize
  | .writeMsg appPath pvdPath source msgSize results k => do
      let (_, s) ← s.writeMsg appPath pvdPath source msgSize results k
      return s
  | .registerNewAlias peerAddr peerPort appPath pvdId =>
      s.registerNewAlias peerAddr peerPort appPath pvdId

/-- The operations as a relation. -/
def Step (getIpPort : Address → Outcome (Option (Bytes × Nat))) (s : UdpProvider Address)
    (op : Operation Address) (s' : UdpProvider Address) : Prop := next getIpPort s op = .ok s'

/-- The connection events that the application has seen for a peer path. -/
def events (s : UdpProvider Address) (peerFullPath : Bytes) : List ConnectionState :=
  (s.callbacks.filter fun callback =>
    IAliasPVD.makeFullPath callback.appPath callback.pvdPath = peerFullPath).map
      ConnectionCallback.flag

/-- The peer is registered with this provider. -/
def Registered (s : UdpProvider Address) (peerFullPath : Bytes) : Prop :=
  ∃ ref ∈ (s.config.mmConnectedPeers peerFullPath).getD [],
    s.heap.path ref = s.heap.path s.pvdAlias

end UdpProvider

end CommonCommunicator
