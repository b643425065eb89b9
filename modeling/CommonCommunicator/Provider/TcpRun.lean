import CommonCommunicator.Lib.GuardedRun
import CommonCommunicator.Provider.TcpProvider

/-!
# Runs of a TCP provider

A peer names itself by the owner of its messages: the rename function of its
receiver files the connection under the new name. The operations of the
provider, each taken as one step, make up its runs.
-/

namespace CommonCommunicator

open Lib

namespace TcpProvider

variable {Address : Type} [DecidableEq Address]

/-- The new names that the rename function goes on with. An empty or known path makes it return,
a path without `/` makes it throw, before it has changed anything. -/
def renameTarget (peerFullPath fullPath : Bytes) : Option (Bytes × Bytes) :=
  if fullPath = [] ∨ peerFullPath = fullPath then none
  else IAliasPVD.decomposeFullPath fullPath

/-- `lamda_update_peer_alias`, given the path that it has captured: the new captured path and the
state. The result of the second `insert` is not looked at. -/
def updatePeerAlias (s : TcpProvider Address) (peerAlias : AliasRef)
    (peerFullPath fullPath : Bytes) : Outcome (Bytes × TcpProvider Address) :=
  match renameTarget peerFullPath fullPath with
  | none => .ok (peerFullPath, s)
  | some (newApp, newPvd) => do
      let addr := s.mmAli4sock.get peerFullPath
      let pvd := s.heap.objects peerAlias
      let s ← s.handleConnection pvd.pathParent pvd.name .suspend
      let s ← s.unregistConnectedPeer peerFullPath
      let sock ← s.mmAli4sock.remove peerFullPath
      let heap := s.heap.update peerAlias newApp newPvd
      let (_, _, sock) ← sock.insert heap (some peerAlias) addr true
      let (res, s) ← { s with heap := heap, mmAli4sock := sock }.registConnectedPeer peerAlias
      assertThat (res = true)
      let s ← s.handleConnection newApp newPvd .resumeUpdate (some (pvd.pathParent, pvd.name))
      return (fullPath, s)

/-- The rename function of a looper. -/
def renameBy (s : TcpProvider Address) (id : Nat) (fullPath : Bytes) :
    Outcome (TcpProvider Address) :=
  match s.loopers[id]? with
  | none => .error .undefined
  | some looper => do
      let (captured, s) ← s.updatePeerAlias looper.peerAlias looper.peerFullPath fullPath
      return { s with loopers := s.loopers.set id { looper with peerFullPath := captured } }

/-- The operations of the provider and of its loopers. -/
inductive Action (Address : Type)
  | appendPvdAlias (pvd : IAliasPVD)
  | updateAliasMapper (pvd : AliasRef) (destaddr : Address)
  | registerNewAlias (peerAddr : Address) (peerPort : Nat) (appPath pvdId : Bytes)
  | serverAccept (newsockfd : Int) (newCliaddr : Address) (spawned : Bool)
  | makeConnection (peerFullPath : Bytes) (results : ConnectResults)
  | receiverStart (id : Nat)
  | updatePeerAlias (id : Nat) (fullPath : Bytes)
  | receiverEnd (id : Nat)
  | disconnection (peerFullPath : Bytes)

/-- The phase of a looper. -/
def phase (s : TcpProvider Address) (id : Nat) : Option ReceiverPhase :=
  s.loopers[id]?.map CLooper.phase

/-- What the kernel and the threads grant: a new descriptor is not an open one, only a server
accepts, only listed aliases are mapped, and a looper's steps come in their order. A rename may
still be queued when the looper has ended. -/
def Enabled (s : TcpProvider Address) : Action Address → Prop
  | .appendPvdAlias _ => True
  | .updateAliasMapper pvd _ => pvd ∈ s.config.mmPvds s.providerType
  | .registerNewAlias _ _ _ _ => True
  | .serverAccept newsockfd _ _ => (s.mode = .both ∨ s.mode = .server) ∧
      newsockfd ∉ s.openFds ∧ newsockfd ≠ s.sockfd
  | .makeConnection _ results => results.newSockfd ∉ s.openFds ∧ results.newSockfd ≠ s.sockfd
  | .receiverStart id => s.phase id = some .created
  | .updatePeerAlias id _ => s.phase id = some .running ∨ s.phase id = some .ended
  | .receiverEnd id => s.phase id = some .running
  | .disconnection _ => True

instance (s : TcpProvider Address) : DecidablePred s.Enabled := fun a =>
  match a with
  | .appendPvdAlias _ => inferInstanceAs (Decidable True)
  | .updateAliasMapper _ _ => inferInstanceAs (Decidable (_ ∈ _))
  | .registerNewAlias _ _ _ _ => inferInstanceAs (Decidable True)
  | .serverAccept _ _ _ => inferInstanceAs (Decidable ((_ ∨ _) ∧ _ ∧ _))
  | .makeConnection _ _ => inferInstanceAs (Decidable (_ ∧ _))
  | .receiverStart _ => inferInstanceAs (Decidable (_ = _))
  | .updatePeerAlias _ _ => inferInstanceAs (Decidable (_ ∨ _))
  | .receiverEnd _ => inferInstanceAs (Decidable (_ = _))
  | .disconnection _ => inferInstanceAs (Decidable True)

/-- The effect of an operation. -/
def perform (getIpPort : Address → Outcome (Option (Bytes × Nat))) (s : TcpProvider Address) :
    Action Address → Outcome (TcpProvider Address)
  | .appendPvdAlias pvd => .ok (s.appendPvdAlias pvd)
  | .updateAliasMapper pvd destaddr => s.updateAliasMapper pvd destaddr
  | .registerNewAlias peerAddr peerPort appPath pvdId =>
      s.registerNewAlias peerAddr peerPort appPath pvdId
  | .serverAccept newsockfd newCliaddr spawned =>
      (serverAccept getIpPort s newsockfd newCliaddr spawned).map Prod.snd
  | .makeConnection peerFullPath results => (s.makeConnection peerFullPath results).map Prod.snd
  | .receiverStart id => s.receiverStart id
  | .updatePeerAlias id fullPath => s.renameBy id fullPath
  | .receiverEnd id => s.receiverEnd id
  | .disconnection peerFullPath => s.disconnection peerFullPath

/-- One step of the provider. Where an operation aborts there is none. -/
def next (getIpPort : Address → Outcome (Option (Bytes × Nat))) (s : TcpProvider Address)
    (a : Action Address) : Option (TcpProvider Address) :=
  if s.Enabled a then (perform getIpPort s a).toOption else none

/-- The steps as a relation. -/
def Step (getIpPort : Address → Outcome (Option (Bytes × Nat))) (s : TcpProvider Address)
    (a : Action Address) (s' : TcpProvider Address) : Prop := next getIpPort s a = some s'

theorem step_iff {getIpPort : Address → Outcome (Option (Bytes × Nat))}
    {s s' : TcpProvider Address} {a : Action Address} :
    Step getIpPort s a s' ↔ s.Enabled a ∧ perform getIpPort s a = .ok s' := by
  rw [Step, next]
  by_cases henabled : s.Enabled a
  · rw [if_pos henabled]
    cases hperform : perform getIpPort s a with
    | error f => simp [Except.toOption]
    | ok mid => simp [Except.toOption, henabled]
  · simp [henabled]

/-- `get_ip_port` for peers on the local host, which differ in the port. -/
def localIpPort (port : Nat) : Outcome (Option (Bytes × Nat)) :=
  .ok (some ([0x31, 0x32, 0x37, 0x2E, 0x30, 0x2E, 0x30, 0x2E, 0x31], port))

/-- A TCP server `a/s` with the listening descriptor 3. -/
def localServer : TcpProvider Nat :=
  started Nat .server 3
    { pathParent := [0x61]
      name := [0x73]
      type := .transTCP
      convertible := IAliasPVD.convertible_transTCP }

end TcpProvider

end CommonCommunicator
