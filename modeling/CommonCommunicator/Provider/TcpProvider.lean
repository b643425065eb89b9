import CommonCommunicator.Alias.AliasAddr
import CommonCommunicator.Alias.ConfigAliases
import CommonCommunicator.Base.CString
import Mathlib.Data.Finset.Basic

/-!
# CPVD_TCP

The state of a TCP provider and its operations on connections: accepting and
making them, running a receiver for each, and closing them. The descriptors are
the kernel's: a new descriptor is none of the open ones, and the results of the
system calls are arguments. An operation that aborts has no resulting state.
Addresses are compared by the comparator of their type, as keys of `CAliasAddr`:
an `Address` stands for a class of what the comparator takes for equal.
-/

namespace CommonCommunicator

open Lib

/-- `ProviderMode`. -/
inductive ProviderMode
  | none
  | both
  | server
  | client
  deriving DecidableEq, Repr

/-- `rcv::ConnectionState`. -/
inductive ConnectionState
  | disconnected
  | suspend
  | resume
  | resumeUpdate
  | connected
  deriving DecidableEq, Repr

/-- A call of `cb_connection_handle`; `fromPeer` are the old application path and name. -/
structure ConnectionCallback where
  appPath : Bytes
  pvdPath : Bytes
  flag : ConnectionState
  fromPeer : Option (Bytes × Bytes)
  deriving DecidableEq, Repr

/-- Where the thread of a looper stands in `run_receiver`. -/
inductive ReceiverPhase
  | created
  | running
  | ended
  deriving DecidableEq, Repr

/-- `CLooper`: a receiver thread, its alias, and the path that its rename function has captured. -/
structure CLooper where
  peerAlias : AliasRef
  phase : ReceiverPhase
  peerFullPath : Bytes

/-- `CPVD_TCP`, with the alias objects, the alias manager, the open connection descriptors and the
connection callbacks made so far. Loopers are numbered in the order of their creation. -/
structure TcpProvider (Address : Type) where
  mode : ProviderMode
  sockfd : Int
  availableSockfd : Int
  pvdAlias : AliasRef
  heap : AliasHeap
  config : CConfigAliases
  mmAli4addr : CAliasAddr Address
  mmAli4sock : CAliasAddr Int
  loopers : List CLooper
  mLooperPool : PartialMap Bytes Nat
  mLooperGarbage : PartialMap Bytes Nat
  openFds : Finset Int
  callbacks : List ConnectionCallback

namespace TcpProvider

variable {Address : Type} [DecidableEq Address]

/-- A provider that has just been started as `pvd`, which is registered with the alias manager. -/
def started (Address : Type) (mode : ProviderMode) (sockfd : Int) (pvd : IAliasPVD) :
    TcpProvider Address :=
  let heap : AliasHeap := { objects := fun _ => pvd, nextRef := 1 }
  { mode := mode
    sockfd := sockfd
    availableSockfd := if mode = .client then sockfd else 0
    pvdAlias := 0
    heap := heap
    config := CConfigAliases.empty.appendPvdContext heap pvd.pathParent pvd.type 0
    mmAli4addr := .empty Address
    mmAli4sock := .empty Int
    loopers := []
    mLooperPool := .empty
    mLooperGarbage := .empty
    openFds := ∅
    callbacks := [] }

/-- `get_provider_type`. -/
def providerType (s : TcpProvider Address) : ProviderType := (s.heap.objects s.pvdAlias).type

/-- `Close`. -/
def close (s : TcpProvider Address) (fd : Int) : TcpProvider Address :=
  { s with openFds := s.openFds.erase fd }

/-- The kernel has opened a descriptor. -/
def opened (s : TcpProvider Address) (fd : Int) : TcpProvider Address :=
  { s with openFds := insert fd s.openFds }

/-- `release_self_sockfd`. -/
def releaseSelfSockfd (s : TcpProvider Address) (releaseSockfd : Int) : TcpProvider Address :=
  if releaseSockfd = s.sockfd then { s with availableSockfd := s.sockfd } else s

/-- `IPVDInf::regist_connected_peer`. -/
def registConnectedPeer (s : TcpProvider Address) (peerAlias : AliasRef) :
    Outcome (Bool × TcpProvider Address) :=
  catching (do
      let (res, config) ← s.config.registConnectedPeer s.heap peerAlias s.pvdAlias
      return (res, { s with config := config }))
    fun _ => .ok (false, s)

/-- `IPVDInf::unregist_connected_peer`. -/
def unregistConnectedPeer (s : TcpProvider Address) (peerFullPath : Bytes) :
    Outcome (TcpProvider Address) :=
  catching (do
      let config ← s.config.unregistConnectedPeer s.heap peerFullPath (s.heap.path s.pvdAlias)
      return { s with config := config })
    fun _ => .ok s

/-- The call of `cb_connection_handle`. -/
def reportConnection (s : TcpProvider Address) (appPath pvdPath : Bytes) (flag : ConnectionState)
    (fromPeer : Option (Bytes × Bytes)) : TcpProvider Address :=
  { s with
    callbacks := s.callbacks ++
      [{ appPath := appPath, pvdPath := pvdPath, flag := flag, fromPeer := fromPeer }] }

/-- `IHProtocolInf::handle_connection`. -/
def handleConnection (s : TcpProvider Address) (appPath pvdPath : Bytes) (flag : ConnectionState)
    (fromPeer : Option (Bytes × Bytes) := none) : Outcome (TcpProvider Address) :=
  if flag = .disconnected then do
    let s ← s.unregistConnectedPeer (IAliasPVD.makeFullPath appPath pvdPath)
    return s.reportConnection appPath pvdPath flag fromPeer
  else .ok (s.reportConnection appPath pvdPath flag fromPeer)

/-- `thread_create`: a path that has a looper already counts as success. `spawned` tells whether
the thread could be made. -/
def threadCreate (s : TcpProvider Address) (peerAlias : AliasRef) (spawned : Bool) :
    Bool × TcpProvider Address :=
  match s.mLooperPool (s.heap.path peerAlias) with
  | some _ => (true, s)
  | none =>
      if spawned then
        (true, { s with
          loopers := s.loopers ++ [{ peerAlias := peerAlias, phase := .created, peerFullPath := [] }]
          mLooperPool := s.mLooperPool.insert (s.heap.path peerAlias) s.loopers.length })
      else (false, s)

/-- `zombi_thread_migrate`. -/
def zombiThreadMigrate (s : TcpProvider Address) (peerAlias : AliasRef) : TcpProvider Address :=
  match s.mLooperPool (s.heap.path peerAlias) with
  | none => s
  | some id => { s with
      mLooperGarbage := s.mLooperGarbage.insert (s.heap.path peerAlias) id
      mLooperPool := s.mLooperPool.erase (s.heap.path peerAlias) }

/-- `disconnection` of a path: the descriptor is looked up again. -/
def disconnection (s : TcpProvider Address) (peerFullPath : Bytes) :
    Outcome (TcpProvider Address) :=
  match s.mmAli4sock.get peerFullPath with
  | none => .ok s
  | some fd => do
      let s := s.close fd
      let sock ← s.mmAli4sock.remove peerFullPath
      let s := { s with mmAli4sock := sock }
      let s := if s.mode = .client then s.releaseSelfSockfd fd else s
      s.unregistConnectedPeer peerFullPath

/-- `disconnection` of an alias, by its present path. -/
def disconnectionOf (s : TcpProvider Address) (peerAlias : AliasRef) :
    Outcome (TcpProvider Address) := s.disconnection (s.heap.path peerAlias)

/-- What `make_connection` and `server_accept` do with a new connection: they file its descriptor
and create its receiver, or disconnect it if there is no thread for it. -/
def storeConnection (s : TcpProvider Address) (peerAlias : Option AliasRef) (fd : Int)
    (spawned : Bool) : Outcome (Bool × TcpProvider Address) := do
  let (res, _, sock) ← s.mmAli4sock.insert s.heap peerAlias (some fd) true
  assertThat (res = true)
  match peerAlias with
  | none => .error .assertion
  | some peerAlias =>
      let (created, s) := { s with mmAli4sock := sock }.threadCreate peerAlias spawned
      if created then return (true, s)
      else
        let s ← s.disconnectionOf peerAlias
        return (false, s)

/-- What `make_connection` does with its socket when it fails. -/
def giveBack (s : TcpProvider Address) (fd : Int) : TcpProvider Address :=
  if s.mode = .client then s.releaseSelfSockfd fd else s.close fd

/-- The results of the system calls in `make_connection`. -/
structure ConnectResults where
  newSockfd : Int
  bound : Bool
  connected : Bool
  spawned : Bool

/-- The part of `make_connection` behind the choice of the socket. -/
def connectPeer (s : TcpProvider Address) (fd : Int) (peerFullPath : Bytes)
    (results : ConnectResults) : Outcome (Int × TcpProvider Address) :=
  match s.mmAli4addr.get peerFullPath with
  | none => .ok (-1, s.giveBack fd)
  | some destaddr =>
      if results.connected then do
        let (created, s) ←
          s.storeConnection (s.mmAli4addr.getAlias destaddr) fd results.spawned
        return if created then (fd, s) else (-1, s.giveBack fd)
      else .ok (-1, s.giveBack fd)

/-- `make_connection`: its result and the state. A failed `Bind_uds_client` is no `CException`, and
the socket stays open. -/
def makeConnection (s : TcpProvider Address) (peerFullPath : Bytes) (results : ConnectResults) :
    Outcome (Int × TcpProvider Address) :=
  match s.mode with
  | .both | .server => do
      assertThat (0 < results.newSockfd)
      let s := s.opened results.newSockfd
      if s.providerType = .transUdsTCP ∧ results.bound = false then return (-1, s)
      else s.connectPeer results.newSockfd peerFullPath results
  | .client =>
      let fd := s.availableSockfd
      let s := { s with availableSockfd := 0 }
      if fd = 0 then .ok (0, s) else s.connectPeer fd peerFullPath results
  | .none => .ok (-1, s)

/-- `std::to_string`. -/
def toString (n : Nat) : Bytes := (Nat.toDigits 10 n).map fun c => UInt8.ofNat c.toNat

/-- The text `0.0.0.0`. -/
def anyAddress : Bytes := [0x30, 0x2E, 0x30, 0x2E, 0x30, 0x2E, 0x30]

/-- `make_client_id`. `getIpPort` is `get_ip_port` of the address family, which has nothing for an
unnamed peer; the result is dereferenced all the same. -/
def makeClientId (getIpPort : Address → Outcome (Option (Bytes × Nat)))
    (s : TcpProvider Address) (newCliaddr : Address) :
    Outcome (Option AliasRef × TcpProvider Address) := do
  assertThat (s.providerType = .transTCP ∨ s.providerType = .transUdsTCP)
  match s.mmAli4addr.getAlias newCliaddr with
  | some cliAlias => return (some cliAlias, s)
  | none =>
      match ← getIpPort newCliaddr with
      | none => .error .undefined
      | some (ip, port) =>
          if ip = anyAddress then return (none, s)
          else
            let cliAlias := s.heap.nextRef
            let heap := s.heap.make
              { pathParent := [], name := ip ++ 0x3A :: toString port, type := s.providerType,
                convertible := (s.heap.objects s.pvdAlias).convertible }
            let (_, _, addr) ← s.mmAli4addr.insert heap (some cliAlias) (some newCliaddr) false
            return (some cliAlias, { s with heap := heap, mmAli4addr := addr })

/-- `server_accept`: whether it throws, and the state. -/
def serverAccept (getIpPort : Address → Outcome (Option (Bytes × Nat)))
    (s : TcpProvider Address) (newsockfd : Int) (newCliaddr : Address) (spawned : Bool) :
    Outcome (Bool × TcpProvider Address) :=
  if newsockfd < 0 then .ok (true, s)
  else do
    let (peerAlias, s) ← makeClientId getIpPort (s.opened newsockfd) newCliaddr
    match peerAlias with
    | none => return (false, s)
    | some peerAlias =>
        let (created, s) ← s.storeConnection (some peerAlias) newsockfd spawned
        return (!created, s)

/-- `update_alias_mapper` of one alias, whose IP and port give the address. -/
def updateAliasMapper (s : TcpProvider Address) (newPvd : AliasRef) (destaddr : Address) :
    Outcome (TcpProvider Address) := do
  assertThat ((s.heap.objects newPvd).type = s.providerType)
  let (_, _, addr) ← s.mmAli4addr.insert s.heap (some newPvd) (some destaddr) false
  return { s with mmAli4addr := addr }

/-- `register_new_alias` for a peer address. The names of the alias end at a NUL. Its
`domain_error` is thrown again as an `exception`. -/
def registerNewAlias (s : TcpProvider Address) (peerAddr : Address) (peerPort : Nat)
    (appPath pvdId : Bytes) : Outcome (TcpProvider Address) := do
  assertThat (0 < peerPort)
  assertThat (pvdId ≠ [])
  if s.providerType ≠ .transTCP ∧ s.providerType ≠ .transUDP ∧ s.providerType ≠ .transUdsTCP ∧
      s.providerType ≠ .transUdsUDP then throwThat .exception
  else
    let newAlias := s.heap.nextRef
    let heap := s.heap.make
      { pathParent := CString.text appPath, name := CString.text pvdId, type := s.providerType,
        convertible := (s.heap.objects s.pvdAlias).convertible }
    { s with heap := heap }.updateAliasMapper newAlias peerAddr

/-- The prologue of `run_receiver`, up to the first read: the path that is captured, and the
state. -/
def runReceiverPrologue (s : TcpProvider Address) (peerAlias : AliasRef) :
    Outcome (Bytes × TcpProvider Address) :=
  let pvd := s.heap.objects peerAlias
  match s.mmAli4sock.get pvd.path with
  | none => .error .assertion
  | some fd => do
      assertThat (0 < fd)
      let (res, s) ← s.registConnectedPeer peerAlias
      assertThat (res = true)
      let s ← s.handleConnection pvd.pathParent pvd.name .connected
      return (pvd.path, s)

/-- The looper enters `run_receiver`. -/
def receiverStart (s : TcpProvider Address) (id : Nat) : Outcome (TcpProvider Address) :=
  match s.loopers[id]? with
  | none => .error .undefined
  | some looper => do
      let (peerFullPath, s) ← s.runReceiverPrologue looper.peerAlias
      return { s with
        loopers := s.loopers.set id { looper with phase := .running, peerFullPath := peerFullPath } }

/-- The end of `run_receiver`, behind its loop. -/
def runReceiverEpilogue (s : TcpProvider Address) (peerAlias : AliasRef) :
    Outcome (TcpProvider Address) := do
  let pvd := s.heap.objects peerAlias
  let s ← s.handleConnection pvd.pathParent pvd.name .disconnected
  let s ← s.disconnectionOf peerAlias
  return s.zombiThreadMigrate peerAlias

/-- The looper leaves `run_receiver`. -/
def receiverEnd (s : TcpProvider Address) (id : Nat) : Outcome (TcpProvider Address) :=
  match s.loopers[id]? with
  | none => .error .undefined
  | some looper => do
      let s ← s.runReceiverEpilogue looper.peerAlias
      return { s with loopers := s.loopers.set id { looper with phase := .ended } }

/-- `append_pvd_alias`: an alias of the alias file. -/
def appendPvdAlias (s : TcpProvider Address) (pvd : IAliasPVD) : TcpProvider Address :=
  let heap := s.heap.make pvd
  { s with
    heap := heap
    config := s.config.appendPvdContext heap pvd.pathParent pvd.type s.heap.nextRef }

end TcpProvider

end CommonCommunicator
