import CommonCommunicator.Provider.ClientSocket
import CommonCommunicator.Provider.PeerTakeover
import CommonCommunicator.Provider.TcpWrite

/-!
# The socket of CPVD_TCP::write_msg

`write_msg` takes its socket from `get_connected_socket`, which finds it in the
table, makes a connection or reads it from the message, and asserts that it is
positive. A connection that cannot be made is -1 and becomes an exception, which
`write_msg` catches. Two failures do not come as -1: a client whose socket is in
use gets 0, and a socket that cannot be created fails an assertion.
-/

namespace CommonCommunicator

open Lib

/-- The part of a message's source that `get_source_sock_read_only` reads. -/
structure SourceSock where
  addrType : ProviderType
  address : Option Int
  deriving DecidableEq, Repr

/-- A message with its source. -/
structure TcpMessage where
  raw : CRawMessage
  source : SourceSock
  deriving DecidableEq, Repr

/-- `get_source_sock_read_only`. -/
def TcpMessage.getSourceSockReadOnly (msg : TcpMessage) (providerType : ProviderType) :
    Outcome Int := do
  assertThat (msg.source.addrType = .notDefine ∨ msg.source.addrType = providerType)
  match msg.source.address with
  | none => .error .undefined
  | some fd => return fd

namespace TcpProvider

variable {Address : Type} [DecidableEq Address]

/-- `get_connected_socket`: the descriptor, or the exception that it throws again, and the
state. -/
def getConnectedSocket (s : TcpProvider Address) (peerFullPath : Bytes) (msg : TcpMessage)
    (results : ConnectResults) : Outcome (Except StdException Int × TcpProvider Address) :=
  if peerFullPath ≠ [] then
    match s.mmAli4sock.get peerFullPath with
    | some fd => return (.ok fd, s)
    | none => do
        let (uSockfd, s) ← s.makeConnection peerFullPath results
        if uSockfd < 0 then return (.error .exception, s) else return (.ok uSockfd, s)
  else if msg.raw.sourcePvd ≠ [] then do
    let uSockfd ← msg.getSourceSockReadOnly s.providerType
    return (.ok uSockfd, s)
  else return (.error .exception, s)

/-- `write_msg`: its result with the calls of `write`, and the state. -/
def writeMsg (write : Nat → Nat → Int) (turns : Nat) (s : TcpProvider Address)
    (appPath pvdPath : Bytes) (msg : TcpMessage) (results : ConnectResults)
    (calls : List SocketWrite) :
    Outcome (Option (Bool × List SocketWrite) × TcpProvider Address) := do
  let (uSockfd, s) ← s.getConnectedSocket (IAliasPVD.makeFullPath appPath pvdPath) msg results
  let written ← TcpWrite.writeMsg write turns uSockfd msg.raw calls
  return (written, s)

/-- What the provider does, with its calls of `write_msg`. -/
inductive SendAction (Address : Type)
  | act (a : Action Address)
  | writeMsg (appPath pvdPath : Bytes) (msg : TcpMessage) (results : ConnectResults)

/-- A new socket is none of the open descriptors, if there is one. -/
def Fresh (s : TcpProvider Address) (results : ConnectResults) : Prop :=
  0 < results.newSockfd → results.newSockfd ∉ s.openFds ∧ results.newSockfd ≠ s.sockfd

/-- The steps of the provider. A call of `write_msg` that aborts has no next state. -/
def SendStep (getIpPort : Address → Outcome (Option (Bytes × Nat))) (s : TcpProvider Address) :
    SendAction Address → TcpProvider Address → Prop
  | .act a, s' => Step getIpPort s a s'
  | .writeMsg appPath pvdPath msg results, s' => s.Fresh results ∧ ∃ write turns calls written,
      s.writeMsg write turns appPath pvdPath msg results calls = .ok (written, s')

/-- No alias is renamed. -/
def RenamesNone : SendAction Address → Prop
  | .act (.updatePeerAlias _ _) => False
  | _ => True

/-- A peer that is connected has a positive descriptor, and for another one a socket is there: a
new one, or that of a client that is not in use. -/
def FindsSocket (s : TcpProvider Address) (peerFullPath : Bytes) (results : ConnectResults) :
    Prop :=
  peerFullPath ≠ [] →
    match s.mmAli4sock.get peerFullPath with
    | some fd => 0 < fd
    | none =>
        match s.mode with
        | .both | .server => 0 < results.newSockfd
        | .client => s.availableSockfd ≠ 0
        | .none => True

/-- A stored descriptor is the socket of a client, or an open one of a server. -/
def Owns (s : TcpProvider Address) (fd : Int) : Prop :=
  if s.mode = .client then fd = s.sockfd else fd ∈ s.openFds

/-- The descriptors that are stored are owned, and a client that has its socket has stored none. -/
structure Handles (s : TcpProvider Address) : Prop where
  descriptor : 0 < s.sockfd
  owned : ∀ path fd, s.mmAli4sock.get path = some fd → s.Owns fd
  available : s.mode = .client → s.availableSockfd = 0 ∨
    s.availableSockfd = s.sockfd ∧ ∀ path, s.mmAli4sock.get path = none

variable {s s' : TcpProvider Address}

namespace Handles

omit [DecidableEq Address] in
theorem congr (h : s.Handles) (hsame : SameHandles s s') : s'.Handles := by
  refine ⟨?_, ?_, ?_⟩
  · rw [hsame.sockfd]
    exact h.descriptor
  · intro path fd hget
    rw [hsame.sock] at hget
    rw [Owns, hsame.mode, hsame.sockfd, hsame.fds]
    exact h.owned path fd hget
  · intro hclient
    rw [hsame.available, hsame.sockfd, hsame.sock]
    exact h.available (hsame.mode ▸ hclient)

omit [DecidableEq Address] in
/-- `disconnection` removes its path, and a client has its socket again. -/
theorem disconnection (h : s.Handles) (hcoherent : s.KeyCoherent) {path : Bytes}
    (hstep : s.disconnection path = .ok s') :
    s'.Handles ∧ s'.mode = s.mode ∧ s'.sockfd = s.sockfd ∧ s'.mmAli4sock.get path = none ∧
      ∀ path' fd, s'.mmAli4sock.get path' = some fd → s.mmAli4sock.get path' = some fd := by
  obtain ⟨hnone, rfl⟩ | ⟨fd, sock, available, config, hget, hremove, -, rfl⟩ :=
    disconnection_effect hstep
  · exact ⟨h, rfl, rfl, hnone, fun _ _ hget => hget⟩
  · obtain ⟨hnone, -⟩ | ⟨addr, -, -, hrest, -⟩ := CAliasAddr.remove_cases hremove
    · cases hget.symm.trans hnone
    have hold : ∀ path' fd', sock.get path' = some fd' →
        path' ≠ path ∧ s.mmAli4sock.get path' = some fd' := by
      intro path' fd' hget'
      rw [hrest] at hget'
      exact PartialMap.of_erase_eq_some hget'
    have hself : sock.get path = none := by rw [hrest, PartialMap.erase_self]
    refine ⟨⟨h.descriptor, ?_, ?_⟩, rfl, rfl, hself,
      fun path' fd' hget' => (hold path' fd' hget').2⟩
    · intro path' fd' hget'
      obtain ⟨hne, hstored⟩ := hold path' fd' hget'
      have howns := h.owned path' fd' hstored
      rw [Owns] at howns ⊢
      dsimp only
      by_cases hclient : s.mode = .client
      · rwa [if_pos hclient] at howns ⊢
      · rw [if_neg hclient] at howns ⊢
        refine Finset.mem_erase.mpr ⟨?_, howns⟩
        rintro rfl
        exact hne (hcoherent.sock.key_unique hstored hget)
    · intro hclient
      have howns : ∀ path fd, s.mmAli4sock.get path = some fd → fd = s.sockfd := by
        intro path fd hget
        have howns := h.owned path fd hget
        rwa [Owns, if_pos (by exact hclient)] at howns
      obtain rfl := howns path fd hget
      have hclosed := @ClientSocket.disconnection_closes Address s _ path hclient hget hstep
      refine .inr ⟨hclosed.2.2.1, ?_⟩
      intro path'
      cases hget' : sock.get path' with
      | none => rfl
      | some fd' =>
          obtain ⟨hne, hstored⟩ := hold path' fd' hget'
          rw [howns path' fd' hstored] at hstored
          exact absurd (hcoherent.sock.key_unique hstored hget) hne

omit [DecidableEq Address] in
/-- An owned descriptor may be stored while a client has no socket. -/
theorem withSock (h : s.Handles) {ref : AliasRef} {fd : Int} {connectFlag res isNew : Bool}
    {sock : CAliasAddr Int} (howns : s.Owns fd)
    (hclient : s.mode = .client → s.availableSockfd = 0)
    (hinsert : s.mmAli4sock.insert s.heap (some ref) (some fd) connectFlag =
      .ok (res, isNew, sock)) :
    Handles { s with mmAli4sock := sock } ∧ ∀ path' fd', path' ≠ s.heap.path ref →
      sock.get path' = some fd' → s.mmAli4sock.get path' = some fd' := by
  obtain ⟨-, ⟨addr, haddr, -, -, hget, -⟩ | ⟨-, hget, -⟩⟩ := CAliasAddr.insert_cases hinsert
  · obtain rfl := Option.some.inj haddr
    refine ⟨⟨h.descriptor, ?_, fun hmode => .inl (hclient hmode)⟩, ?_⟩
    · intro path' fd' hget'
      change sock.get path' = some fd' at hget'
      rw [hget, PartialMap.insert_apply] at hget'
      split at hget'
      · obtain rfl := Option.some.inj hget'
        exact howns
      · exact h.owned path' fd' hget'
    · intro path' fd' hne hget'
      rwa [hget, PartialMap.insert_of_ne _ hne] at hget'
  · refine ⟨⟨h.descriptor, ?_, fun hmode => .inl (hclient hmode)⟩, ?_⟩
    · intro path' fd' hget'
      exact h.owned path' fd' (hget ▸ hget')
    · intro path' fd' _ hget'
      rwa [hget] at hget'

omit [DecidableEq Address] in
/-- A connection is stored, or nothing is left of it. -/
theorem storeConnection (h : s.Handles) (hcoherent : s.KeyCoherent) {peerAlias : Option AliasRef}
    {fd : Int} {spawned created : Bool} (howns : s.Owns fd)
    (hclient : s.mode = .client → s.availableSockfd = 0)
    (hmade : ∀ ref, peerAlias = some ref → ref < s.heap.nextRef)
    (hstep : s.storeConnection peerAlias fd spawned = .ok (created, s')) :
    s'.Handles ∧ s'.mode = s.mode ∧ s'.sockfd = s.sockfd ∧
      (created = false → ∀ path' fd', s'.mmAli4sock.get path' = some fd' →
        s.mmAli4sock.get path' = some fd') := by
  obtain ⟨ref, isNew, sock, mid, rfl, hinsert, hcreate, hend⟩ := storeConnection_effect hstep
  obtain ⟨hstored, hold⟩ := h.withSock howns hclient hinsert
  have hsame := SameHandles.threadCreate hcreate
  have hmid : mid.Handles := hstored.congr hsame
  have hmidCoherent := (hcoherent.withSock (hmade ref rfl) hinsert).threadCreate
    (hmade ref rfl) hcreate
  have hheap : mid.heap = s.heap := by
    obtain rfl | ⟨-, -, rfl⟩ := threadCreate_effect hcreate <;> rfl
  obtain ⟨rfl, rfl⟩ | ⟨rfl, hdisconnect⟩ := hend
  · refine ⟨hmid, hsame.mode, hsame.sockfd, ?_⟩
    intro hfalse
    cases hfalse
  · obtain ⟨hlast, hmode, hsockfd, hself, hrest⟩ := hmid.disconnection hmidCoherent hdisconnect
    refine ⟨hlast, hmode.trans hsame.mode, hsockfd.trans hsame.sockfd, ?_⟩
    intro _ path' fd' hget'
    have hne : path' ≠ s.heap.path ref := by
      rintro rfl
      rw [hheap] at hself
      cases hself.symm.trans hget'
    apply hold path' fd' hne
    have hmidGet := hrest path' fd' hget'
    rwa [hsame.sock] at hmidGet

omit [DecidableEq Address] in
/-- A descriptor that is not stored may be given back. -/
theorem giveBack (h : s.Handles) {fd : Int} (hfree : ∀ path, s.mmAli4sock.get path ≠ some fd)
    (hclient : s.mode = .client → ∀ path, s.mmAli4sock.get path = none) :
    (s.giveBack fd).Handles := by
  rw [TcpProvider.giveBack]
  split
  · next hmode =>
      rw [releaseSelfSockfd]
      split
      · refine ⟨h.descriptor, h.owned, fun _ => .inr ⟨rfl, hclient hmode⟩⟩
      · exact h
  · next hmode =>
      refine ⟨h.descriptor, ?_, fun hclient => absurd hclient hmode⟩
      intro path fd' hget
      have howns := h.owned path fd' hget
      rw [Owns, if_neg hmode] at howns
      rw [Owns, if_neg (by exact hmode)]
      refine Finset.mem_erase.mpr ⟨?_, howns⟩
      rintro rfl
      exact hfree path hget

/-- A socket that is not stored is connected and stored, or given back. -/
theorem connectPeer (h : s.Handles) (hcoherent : s.KeyCoherent) {fd res : Int} {path : Bytes}
    {results : ConnectResults} (howns : s.Owns fd)
    (hfree : ∀ path, s.mmAli4sock.get path ≠ some fd)
    (hclient : s.mode = .client →
      s.availableSockfd = 0 ∧ ∀ path, s.mmAli4sock.get path = none)
    (hstep : s.connectPeer fd path results = .ok (res, s')) :
    s'.Handles ∧ (res = -1 ∨ res = fd) := by
  obtain ⟨rfl, rfl⟩ | ⟨destaddr, created, mid, -, -, hstore, hend⟩ := connectPeer_effect hstep
  · exact ⟨h.giveBack hfree fun hmode => (hclient hmode).2, .inl rfl⟩
  · obtain ⟨hmid, hmode, -, hold⟩ := h.storeConnection hcoherent howns
      (fun hmode => (hclient hmode).1)
      (fun ref hstored => hcoherent.addrMade destaddr ref hstored) hstore
    obtain ⟨-, rfl, rfl⟩ | ⟨hfalse, rfl, rfl⟩ := hend
    · exact ⟨hmid, .inr rfl⟩
    · refine ⟨hmid.giveBack ?_ ?_, .inl rfl⟩
      · intro path' hget'
        exact hfree path' (hold hfalse path' fd hget')
      · intro hmidClient path'
        cases hget' : mid.mmAli4sock.get path' with
        | none => rfl
        | some fd' =>
            have hnone := (hclient (hmode ▸ hmidClient)).2 path'
            cases hnone.symm.trans (hold hfalse path' fd' hget')

omit [DecidableEq Address] in
theorem opened (h : s.Handles) (fd : Int) : (s.opened fd).Handles := by
  refine ⟨h.descriptor, ?_, h.available⟩
  intro path fd' hget
  have howns := h.owned path fd' hget
  rw [Owns] at howns ⊢
  change if s.mode = .client then fd' = s.sockfd else fd' ∈ insert fd s.openFds
  split at howns
  · next hmode => rwa [if_pos hmode]
  · next hmode =>
      rw [if_neg hmode]
      exact Finset.mem_insert_of_mem howns

omit [DecidableEq Address] in
/-- A client that takes its socket has none. -/
theorem taken (h : s.Handles) : Handles { s with availableSockfd := 0 } :=
  ⟨h.descriptor, h.owned, fun _ => .inl rfl⟩

omit [DecidableEq Address] in
/-- A new descriptor is not stored. -/
theorem not_stored (h : s.Handles) {fd : Int} (hmode : s.mode ≠ .client) (hnew : fd ∉ s.openFds)
    (path : Bytes) : s.mmAli4sock.get path ≠ some fd := by
  intro hget
  have howns := h.owned path fd hget
  rw [Owns, if_neg hmode] at howns
  exact hnew howns

omit [DecidableEq Address] in
theorem owns_opened (hmode : s.mode ≠ .client) (fd : Int) : (s.opened fd).Owns fd := by
  rw [Owns, if_neg (by exact hmode)]
  exact Finset.mem_insert_self fd s.openFds

omit [DecidableEq Address] in
/-- A client whose socket is available has nothing stored. -/
theorem client_free (h : s.Handles) (hmode : s.mode = .client) (hne : s.availableSockfd ≠ 0) :
    s.availableSockfd = s.sockfd ∧ ∀ path, s.mmAli4sock.get path = none :=
  (h.available hmode).resolve_left hne

/-- `make_connection` returns -1, a positive descriptor, or for a client without its socket 0. -/
theorem makeConnection (h : s.Handles) (hcoherent : s.KeyCoherent) {path : Bytes}
    {results : ConnectResults} {res : Int} (hfresh : s.Fresh results)
    (hstep : s.makeConnection path results = .ok (res, s')) :
    s'.Handles ∧ (res = -1 ∨ 0 < res ∨ s.mode = .client ∧ s.availableSockfd = 0) := by
  by_cases hmode : s.mode = .client
  · obtain ⟨hzero, rfl⟩ | ⟨hne, hconnect⟩ := ClientSocket.makeConnection_client hmode hstep
    · exact ⟨h.taken, .inr (.inr ⟨hmode, hzero⟩)⟩
    · obtain ⟨havailable, hnothing⟩ := h.client_free hmode hne
      have howns : Owns { s with availableSockfd := 0 } s.availableSockfd := by
        rw [Owns, if_pos (by exact hmode)]
        exact havailable
      obtain ⟨hhandles, hres⟩ := h.taken.connectPeer (hcoherent.withFds 0 s.openFds) howns
        (fun path hget => by cases (hnothing path).symm.trans hget) (fun _ => ⟨rfl, hnothing⟩)
        hconnect
      refine ⟨hhandles, ?_⟩
      obtain hfailed | rfl := hres
      · exact .inl hfailed
      · right
        left
        rw [havailable]
        exact h.descriptor
  · obtain ⟨-, rfl, rfl⟩ | ⟨hclient, -⟩ | ⟨-, hpos, ⟨-, -, rfl, rfl⟩ | ⟨-, hconnect⟩⟩ :=
      makeConnection_effect hstep
    · exact ⟨h, .inl rfl⟩
    · exact absurd hclient hmode
    · exact ⟨h.opened results.newSockfd, .inl rfl⟩
    · obtain ⟨hhandles, hres⟩ := (h.opened results.newSockfd).connectPeer
        (hcoherent.withFds s.availableSockfd _) (owns_opened hmode results.newSockfd)
        (h.not_stored hmode (hfresh hpos).1) (fun hclient => absurd hclient hmode) hconnect
      refine ⟨hhandles, ?_⟩
      obtain hfailed | rfl := hres
      · exact .inl hfailed
      · exact .inr (.inl hpos)

variable {getIpPort : Address → Outcome (Option (Bytes × Nat))}

theorem makeClientId (h : s.Handles) {newCliaddr : Address} {peerAlias : Option AliasRef}
    (hstep : makeClientId getIpPort s newCliaddr = .ok (peerAlias, s')) :
    s'.Handles ∧ SameHandles s s' := by
  have hsame : SameHandles s s' := by
    obtain ⟨rfl, -⟩ | ⟨pvd, res, isNew, addr, -, -, rfl⟩ := makeClientId_effect hstep
    · exact .refl s'
    · exact ⟨⟨rfl, rfl, rfl⟩, rfl, rfl⟩
  exact ⟨h.congr hsame, hsame⟩

theorem serverAccept (h : s.Handles) (hcoherent : s.KeyCoherent) {newsockfd : Int}
    {newCliaddr : Address} {spawned threw : Bool} (hmode : s.mode ≠ .client)
    (hstep : serverAccept getIpPort s newsockfd newCliaddr spawned = .ok (threw, s')) :
    s'.Handles := by
  obtain ⟨-, rfl⟩ | ⟨-, peerAlias, mid, hclient, hend⟩ := serverAccept_effect hstep
  · exact h
  · obtain ⟨hmid, hsame⟩ := (h.opened newsockfd).makeClientId hclient
    obtain ⟨hmidCoherent, hmade⟩ :=
      (hcoherent.withFds s.availableSockfd (insert newsockfd s.openFds)).makeClientId hclient
    have hmidMode : mid.mode ≠ .client := by
      rw [hsame.mode]
      exact hmode
    have howns : mid.Owns newsockfd := by
      rw [Owns, if_neg hmidMode, hsame.fds]
      exact Finset.mem_insert_self newsockfd s.openFds
    obtain ⟨-, rfl⟩ | ⟨ref, created, rfl, hstore⟩ := hend
    · exact hmid
    · exact (hmid.storeConnection hmidCoherent howns (fun hclient => absurd hclient hmidMode)
        hmade hstore).1

/-- What one operation preserves. -/
theorem step (h : s.Handles) (hcoherent : s.KeyCoherent) {a : Action Address}
    (hguard : RenamesNone (.act a)) (hstep : Step getIpPort s a s') : s'.Handles := by
  obtain ⟨henabled, hperform⟩ := step_iff.mp hstep
  cases a with
  | appendPvdAlias pvd =>
      cases hperform
      exact h.congr ⟨⟨rfl, rfl, rfl⟩, rfl, rfl⟩
  | updateAliasMapper pvd destaddr => exact h.congr (.updateAliasMapper hperform)
  | registerNewAlias peerAddr peerPort appPath pvdId =>
      exact h.congr (.registerNewAlias hperform)
  | serverAccept newsockfd newCliaddr spawned =>
      obtain ⟨⟨threw, last⟩, haccept, rfl⟩ := map_eq_ok.mp hperform
      apply h.serverAccept hcoherent _ haccept
      intro hclient
      obtain ⟨hserver, -⟩ := henabled
      rw [hclient] at hserver
      simp at hserver
  | makeConnection peerFullPath results =>
      obtain ⟨⟨res, last⟩, hconnect, rfl⟩ := map_eq_ok.mp hperform
      exact (h.makeConnection hcoherent (fun _ => henabled) hconnect).1
  | receiverStart id => exact h.congr (.receiverStart hperform)
  | updatePeerAlias id fullPath => cases hguard
  | receiverEnd id =>
      obtain ⟨looper, mid, last, -, hreport, hdisconnect, rfl⟩ := receiverEnd_effect hperform
      have hmid : mid.Handles := h.congr (.handleConnection hreport)
      have hlast := (hmid.disconnection (hcoherent.handleConnection hreport) hdisconnect).1
      obtain ⟨⟨hmode, hsock, hfds⟩, hsockfd, havailable⟩ :=
        SameHandles.zombiThreadMigrate last looper.peerAlias
      exact hlast.congr ⟨⟨hmode, hsock, hfds⟩, hsockfd, havailable⟩
  | disconnection peerFullPath => exact (h.disconnection hcoherent hperform).1

end Handles

/-- What holds of a provider in every run without renames. -/
structure Sound (s : TcpProvider Address) : Prop where
  coherent : s.KeyCoherent
  handles : s.Handles

namespace Sound

variable {getIpPort : Address → Outcome (Option (Bytes × Nat))}

omit [DecidableEq Address] in
theorem started {mode : ProviderMode} {sockfd : Int} (hsockfd : 0 < sockfd) (pvd : IAliasPVD) :
    (started Address mode sockfd pvd).Sound := by
  refine ⟨.started mode sockfd pvd, hsockfd, ?_, ?_⟩
  · intro path fd hget
    cases hget
  · intro hclient
    exact .inr ⟨if_pos hclient, fun _ => rfl⟩

/-- `get_connected_socket` changes the provider only by a connection. -/
theorem getConnectedSocket (h : s.Sound) {path : Bytes} {msg : TcpMessage}
    {results : ConnectResults} {uSockfd : Except StdException Int} (hfresh : s.Fresh results)
    (hstep : s.getConnectedSocket path msg results = .ok (uSockfd, s')) : s'.Sound := by
  unfold TcpProvider.getConnectedSocket at hstep
  split at hstep
  · split at hstep
    · cases hstep
      exact h
    · obtain ⟨⟨res, last⟩, hconnect, hend⟩ := bind_eq_ok.mp hstep
      have hlast : last.Sound :=
        ⟨h.coherent.makeConnection hconnect,
          (h.handles.makeConnection h.coherent hfresh hconnect).1⟩
      dsimp only at hend
      split at hend
      · cases hend
        exact hlast
      · cases hend
        exact hlast
  · split at hstep
    · obtain ⟨fd, -, hend⟩ := bind_eq_ok.mp hstep
      cases hend
      exact h
    · cases hstep
      exact h

/-- What one step preserves. -/
theorem sendStep (h : s.Sound) {a : SendAction Address} (hguard : RenamesNone a)
    (hstep : SendStep getIpPort s a s') : s'.Sound := by
  cases a with
  | act a =>
      have hkeep : s.KeepsName a := by
        cases a with
        | updatePeerAlias id fullPath => cases hguard
        | _ => trivial
      exact ⟨h.coherent.step hkeep hstep, h.handles.step h.coherent hguard hstep⟩
  | writeMsg appPath pvdPath msg results =>
      obtain ⟨hfresh, write, turns, calls, written, hwrite⟩ := hstep
      obtain ⟨⟨uSockfd, last⟩, hsocket, hrest⟩ := bind_eq_ok.mp hwrite
      obtain ⟨sent, -, hend⟩ := bind_eq_ok.mp hrest
      cases hend
      exact h.getConnectedSocket hfresh hsocket

end Sound

omit [DecidableEq Address] in
/-- A new descriptor is stored without an abort under a path that is free and not empty. -/
theorem storeConnection_returns (s : TcpProvider Address) {ref : AliasRef} {fd : Int}
    (spawned : Bool) (hne : s.heap.path ref ≠ [])
    (hfree : s.mmAli4sock.get (s.heap.path ref) = none) (hnew : s.mmAli4sock.mmAlias fd = none) :
    ∃ created s', s.storeConnection (some ref) fd spawned = .ok (created, s') := by
  obtain ⟨isNew, sock, hinsert⟩ : ∃ isNew sock, s.mmAli4sock.insert s.heap (some ref) (some fd)
      true = .ok (true, isNew, sock) := CAliasAddr.insert_ok true (.inr ⟨fd, rfl, hnew⟩)
  rw [storeConnection, hinsert, ok_bind]
  dsimp only
  rw [assertThat_pos rfl, ok_bind]
  cases hcreate : { s with mmAli4sock := sock }.threadCreate ref spawned with
  | mk created mid =>
      cases created with
      | true => exact ⟨true, mid, rfl⟩
      | false =>
          have hsock : mid.mmAli4sock = sock := (SameHandles.threadCreate hcreate).sock
          have hheap : mid.heap = s.heap := by
            obtain rfl | ⟨-, -, rfl⟩ := threadCreate_effect hcreate <;> rfl
          have hstored : mid.mmAli4sock.get (mid.heap.path ref) = some fd := by
            rw [hsock, hheap]
            obtain ⟨-, ⟨addr, haddr, -, -, hget, -⟩ | ⟨hthere, -⟩⟩ :=
              CAliasAddr.insert_cases hinsert
            · rw [hget, PartialMap.insert_self, haddr]
            · exact absurd hfree hthere
          obtain ⟨last, hlast, -⟩ := disconnection_ok hstored (hheap ▸ hne)
          refine ⟨false, last, ?_⟩
          simp [disconnectionOf, hlast]

omit [DecidableEq Address] in
/-- A connection that is asked for by a path without a connection ends without an abort. -/
theorem connectPeer_returns (hcoherent : s.KeyCoherent) {fd : Int} {path : Bytes}
    (results : ConnectResults) (hne : path ≠ []) (hpath : s.mmAli4sock.get path = none)
    (hfree : ∀ path, s.mmAli4sock.get path ≠ some fd) :
    ∃ res s', s.connectPeer fd path results = .ok (res, s') := by
  rw [connectPeer]
  cases hget : s.mmAli4addr.get path with
  | none => exact ⟨-1, s.giveBack fd, rfl⟩
  | some destaddr =>
      dsimp only
      split
      · have hback : s.mmAli4addr.pathOf s.heap destaddr = some path :=
          (hcoherent.addr path destaddr).mp hget
        obtain ⟨ref, halias, hrefPath⟩ := Option.map_eq_some_iff.mp hback
        have hnew : s.mmAli4sock.mmAlias fd = none := by
          cases hstored : s.mmAli4sock.mmAlias fd with
          | none => rfl
          | some ref' =>
              have hfiled : s.mmAli4sock.pathOf s.heap fd = some (s.heap.path ref') := by
                rw [CAliasAddr.pathOf, hstored]
                rfl
              exact absurd ((hcoherent.sock _ fd).mpr hfiled) (hfree _)
        obtain ⟨created, mid, hstore⟩ := s.storeConnection_returns results.spawned
          (hrefPath ▸ hne) (hrefPath ▸ hpath) hnew
        have hgetAlias : s.mmAli4addr.getAlias destaddr = some ref := halias
        rw [hgetAlias, hstore, ok_bind]
        dsimp only
        split
        · exact ⟨_, _, rfl⟩
        · exact ⟨_, _, rfl⟩
      · exact ⟨-1, s.giveBack fd, rfl⟩

omit [DecidableEq Address] in
/-- `make_connection` ends without an abort if there is a socket for it. -/
theorem Sound.makeConnection_returns (h : s.Sound) {path : Bytes} {results : ConnectResults}
    (hfresh : s.Fresh results) (hne : path ≠ []) (hpath : s.mmAli4sock.get path = none)
    (hfinds : s.FindsSocket path results) :
    ∃ res s', s.makeConnection path results = .ok (res, s') := by
  have hsocket := hfinds hne
  rw [hpath] at hsocket
  rw [makeConnection]
  have hnew : s.mode ≠ .client → 0 < results.newSockfd → ∃ res s', (do
      assertThat (0 < results.newSockfd)
      let s := s.opened results.newSockfd
      if s.providerType = .transUdsTCP ∧ results.bound = false then return (-1, s)
      else s.connectPeer results.newSockfd path results) = Except.ok (res, s') := by
    intro hmode hpos
    rw [assertThat_pos hpos, ok_bind]
    dsimp only
    split
    · exact ⟨-1, _, rfl⟩
    · exact connectPeer_returns (h.coherent.withFds s.availableSockfd _) results hne hpath
        (h.handles.not_stored hmode (hfresh hpos).1)
  split
  · next hmode =>
      rw [hmode] at hsocket
      exact hnew (by rw [hmode]; decide) hsocket
  · next hmode =>
      rw [hmode] at hsocket
      exact hnew (by rw [hmode]; decide) hsocket
  · next hmode =>
      rw [hmode] at hsocket
      dsimp only at hsocket ⊢
      rw [if_neg hsocket]
      obtain ⟨-, hnothing⟩ := h.handles.client_free hmode hsocket
      exact connectPeer_returns (h.coherent.withFds 0 s.openFds) results hne hpath
        (fun path hget => by cases (hnothing path).symm.trans hget)
  · exact ⟨-1, s, rfl⟩

/-- Where a socket is found, `get_connected_socket` returns a positive descriptor or throws. -/
theorem Sound.getConnectedSocket_returns (h : s.Sound) {path : Bytes} {msg : TcpMessage}
    {results : ConnectResults} (hfresh : s.Fresh results)
    (hsource : path = [] → msg.raw.sourcePvd = []) (hfinds : s.FindsSocket path results) :
    ∃ uSockfd s', s.getConnectedSocket path msg results = .ok (uSockfd, s') ∧
      ∀ fd, uSockfd = .ok fd → 0 < fd := by
  by_cases hne : path ≠ []
  · cases hget : s.mmAli4sock.get path with
    | some fd =>
        refine ⟨.ok fd, s, ?_, ?_⟩
        · simp [TcpProvider.getConnectedSocket, hne, hget]
        · intro fd' hfd
          cases hfd
          have hpos := hfinds hne
          rwa [hget] at hpos
    | none =>
        obtain ⟨res, s', hconnect⟩ := h.makeConnection_returns hfresh hne hget hfinds
        by_cases hfailed : res < 0
        · refine ⟨.error .exception, s', ?_, ?_⟩
          · simp [TcpProvider.getConnectedSocket, hne, hget, hconnect, hfailed]
          · intro fd hfd
            cases hfd
        · refine ⟨.ok res, s', ?_, ?_⟩
          · simp [TcpProvider.getConnectedSocket, hne, hget, hconnect, hfailed]
          · intro fd hfd
            cases hfd
            obtain ⟨-, hminus | hpos | ⟨hmode, hzero⟩⟩ :=
              h.handles.makeConnection h.coherent hfresh hconnect
            · omega
            · exact hpos
            · have hsocket := hfinds hne
              rw [hget, hmode] at hsocket
              exact absurd hzero hsocket
  · have hnil : path = [] := not_not.mp hne
    refine ⟨.error .exception, s, ?_, ?_⟩
    · simp [TcpProvider.getConnectedSocket, hnil, hsource hnil]
    · intro fd hfd
      cases hfd

/-- A descriptor that `write_msg` goes on with is positive. -/
theorem writeMsg_socket {write : Nat → Nat → Int} {turns : Nat} {fd : Int} {msg : CRawMessage}
    {calls : List SocketWrite} {written : Option (Bool × List SocketWrite)}
    (h : TcpWrite.writeMsg write turns (.ok fd) msg calls = .ok written) : 0 < fd := by
  rw [TcpWrite.writeMsg] at h
  split at h
  · cases h
  · obtain ⟨⟨⟩, hasserted, -⟩ := bind_eq_ok.mp h
    rw [assertThat_eq_ok] at hasserted
    exact hasserted.1

/-- If `get_connected_socket` returns no descriptor that the assertion refuses, there was a
socket. -/
theorem findsSocket_of_returns {path : Bytes} {msg : TcpMessage} {results : ConnectResults}
    {uSockfd : Except StdException Int}
    (hsocket : s.getConnectedSocket path msg results = .ok (uSockfd, s'))
    (hpos : ∀ fd, uSockfd = .ok fd → 0 < fd) : s.FindsSocket path results := by
  intro hne
  rw [getConnectedSocket, if_pos hne] at hsocket
  split
  · next fd hget =>
      rw [hget] at hsocket
      cases hsocket
      exact hpos fd rfl
  · next hget =>
      rw [hget] at hsocket
      obtain ⟨⟨res, last⟩, hconnect, hend⟩ := bind_eq_ok.mp hsocket
      have hserver : s.mode ≠ .none → s.mode ≠ .client → 0 < results.newSockfd := by
        intro hnone hclient
        obtain ⟨hmode, -⟩ | ⟨hmode, -⟩ | ⟨-, hnew, -⟩ := makeConnection_effect hconnect
        · exact absurd hmode hnone
        · exact absurd hmode hclient
        · exact hnew
      split
      · next hmode => exact hserver (by rw [hmode]; decide) (by rw [hmode]; decide)
      · next hmode => exact hserver (by rw [hmode]; decide) (by rw [hmode]; decide)
      · next hmode =>
          intro hzero
          have hnull : s.makeConnection path results =
              .ok (0, { s with availableSockfd := 0 }) := by
            simp [makeConnection, hmode, hzero]
          cases hconnect.symm.trans hnull
          cases hend
          exact absurd (hpos 0 rfl) (by decide)
      · trivial

/-- In every run without renames, and for every destination and message, `write_msg` returns true
or false if and only if it finds a socket; otherwise it aborts. -/
theorem writeMsg_returns_iff (getIpPort : Address → Outcome (Option (Bytes × Nat)))
    {mode : ProviderMode} {sockfd : Int} (hsockfd : 0 < sockfd) {pvd : IAliasPVD}
    (run : GuardedRun (SendStep getIpPort) (fun _ => RenamesNone)
      (started Address mode sockfd pvd) s)
    {write : Nat → Nat → Int} (hwrite : TcpWrite.TakesSome write) {appPath pvdPath : Bytes}
    {msg : TcpMessage} {b : Bytes} (hmsg : msg.raw.Holds b) (hne : b ≠ [])
    (hsource : IAliasPVD.makeFullPath appPath pvdPath = [] → msg.raw.sourcePvd = [])
    {results : ConnectResults} (hfresh : s.Fresh results) {turns : Nat}
    (hturns : b.length < turns) (calls : List SocketWrite) :
    (∃ res sent s', s.writeMsg write turns appPath pvdPath msg results calls =
      .ok (some (res, sent), s')) ↔
      s.FindsSocket (IAliasPVD.makeFullPath appPath pvdPath) results := by
  have hsound : s.Sound :=
    run.invariant (.started hsockfd pvd) fun _ _ _ h hguard hstep => h.sendStep hguard hstep
  constructor
  · rintro ⟨res, sent, s', hcall⟩
    obtain ⟨⟨uSockfd, mid⟩, hsocket, hrest⟩ := bind_eq_ok.mp hcall
    obtain ⟨written, hwritten, -⟩ := bind_eq_ok.mp hrest
    apply findsSocket_of_returns hsocket
    rintro fd rfl
    exact writeMsg_socket hwritten
  · intro hfinds
    obtain ⟨uSockfd, s', hsocket, hpos⟩ := hsound.getConnectedSocket_returns hfresh hsource hfinds
    rw [TcpProvider.writeMsg, hsocket]
    cases uSockfd with
    | error e => exact ⟨false, calls, s', rfl⟩
    | ok fd =>
        obtain ⟨res, new, hsent, -⟩ :=
          TcpWrite.writeMsg_sends hwrite hmsg hne (hpos fd rfl) hturns calls
        refine ⟨res, calls ++ new, s', ?_⟩
        rw [ok_bind]
        dsimp only
        rw [hsent, ok_bind]
        rfl

/-- A TCP client `a/c` with the socket 3. -/
def tcpClient : TcpProvider Nat :=
  started Nat .client 3
    { pathParent := [0x61]
      name := [0x63]
      type := .transTCP
      convertible := IAliasPVD.convertible_transTCP }

/-- A message of one byte, without a source. -/
def oneByte : TcpMessage :=
  { raw := .ofBytes [1]
    source := { addrType := .notDefine, address := none } }

/-- A connection that succeeds. -/
def connects : ConnectResults :=
  { newSockfd := 0, bound := true, connected := true, spawned := true }

/-- The first message to a known peer is sent. -/
theorem writeMsg_returns_first :
    ∃ s, GuardedRun (SendStep localIpPort) (fun _ => RenamesNone) tcpClient s ∧
      ∃ res sent s', s.writeMsg (fun _ count => count) 2 [] [0x70] oneByte connects [] =
        .ok (some (res, sent), s') := by
  have hrun : GuardedRun (SendStep localIpPort) (fun _ => RenamesNone) tcpClient _ :=
    .next .start (a := .act (.registerNewAlias 90 90 [] [0x70])) trivial rfl
  refine ⟨_, hrun, ?_⟩
  apply (writeMsg_returns_iff localIpPort (by decide) hrun _ (CRawMessage.ofBytes_holds [1])
    (by decide) (by decide) (fun hpos => absurd hpos (by decide)) (by decide) []).mpr
  · intro _
    exact (by decide : (3 : Int) ≠ 0)
  · intro i count hcount
    exact .inr ⟨Int.ofNat_lt.mpr hcount, Int.le_refl _⟩

/-- The socket is in use for the peer `p`. A message to another peer, known or not, fails the
assertion, and so does the first message of a server that gets no new socket. -/
theorem writeMsg_second_aborts :
    ∃ s, GuardedRun (SendStep localIpPort) (fun _ => RenamesNone) tcpClient s ∧
      s.mmAli4addr.get [0x71] = some 91 ∧ s.mmAli4addr.get [0x72] = none ∧
      (∀ write turns calls, s.writeMsg write turns [] [0x71] oneByte connects calls =
        .error .assertion) ∧
      (∀ write turns calls, s.writeMsg write turns [] [0x72] oneByte connects calls =
        .error .assertion) ∧
      ∀ write turns calls, localServer.writeMsg write turns [] [0x72] oneByte connects calls =
        .error .assertion := by
  have hrun : GuardedRun (SendStep localIpPort) (fun _ => RenamesNone) tcpClient _ :=
    .next (.next (.next .start (a := .act (.registerNewAlias 90 90 [] [0x70])) trivial rfl)
      (a := .act (.registerNewAlias 91 91 [] [0x71])) trivial rfl)
      (a := .act (.makeConnection [0x70] connects)) trivial rfl
  exact ⟨_, hrun, rfl, rfl, fun _ _ _ => rfl, fun _ _ _ => rfl, fun _ _ _ => rfl⟩

end TcpProvider

end CommonCommunicator
