import CommonCommunicator.Provider.ClientSocket
import Mathlib.Data.Finset.SDiff

/-!
# Failed connections

`make_connection` can fail at the socket, at its bind, at the peer's address, at
the connection and at the thread. A failure before the connection gives the
socket back, and nothing is left of the call. A failed bind of a UDS socket
leaves the socket open. A thread that cannot be created makes `disconnection`
close the socket that the handler of the exception then gives back once more.
-/

namespace CommonCommunicator

open Lib

namespace TcpProvider

variable {Address : Type} {s s' : TcpProvider Address}

/-- The descriptors that `disconnection` of a path passes to `Close`. -/
def disconnectionCloses (s : TcpProvider Address) (peerFullPath : Bytes) : List Int :=
  (s.mmAli4sock.get peerFullPath).toList

/-- The descriptors that the handler in `make_connection` passes to `Close`. -/
def giveBackCloses (s : TcpProvider Address) (fd : Int) : List Int :=
  if s.mode = .client then [] else [fd]

/-- The descriptors that are passed to `Close` while a new connection is stored. -/
def storeConnectionCloses (s : TcpProvider Address) (peerAlias : Option AliasRef) (fd : Int)
    (spawned : Bool) : List Int :=
  match s.mmAli4sock.insert s.heap peerAlias (some fd) true, peerAlias with
  | .ok (_, _, sock), some peerAlias =>
      let (created, s) := { s with mmAli4sock := sock }.threadCreate peerAlias spawned
      if created then [] else s.disconnectionCloses (s.heap.path peerAlias)
  | _, _ => []

/-- The descriptors that `make_connection` passes to `Close` once it has its socket, in order. -/
def connectPeerCloses [DecidableEq Address] (s : TcpProvider Address) (fd : Int)
    (peerFullPath : Bytes) (results : ConnectResults) : List Int :=
  match s.mmAli4addr.get peerFullPath with
  | none => s.giveBackCloses fd
  | some destaddr =>
      if results.connected then
        let peerAlias := s.mmAli4addr.getAlias destaddr
        match s.storeConnection peerAlias fd results.spawned with
        | .ok (false, mid) =>
            s.storeConnectionCloses peerAlias fd results.spawned ++ mid.giveBackCloses fd
        | _ => []
      else s.giveBackCloses fd

/-- The descriptors that `make_connection` passes to `Close`, in order. -/
def makeConnectionCloses [DecidableEq Address] (s : TcpProvider Address) (peerFullPath : Bytes)
    (results : ConnectResults) : List Int :=
  match s.mode with
  | .both | .server =>
      let s := s.opened results.newSockfd
      if s.providerType = .transUdsTCP ∧ results.bound = false then []
      else s.connectPeerCloses results.newSockfd peerFullPath results
  | .client =>
      if s.availableSockfd = 0 then []
      else { s with availableSockfd := 0 }.connectPeerCloses s.availableSockfd peerFullPath results
  | .none => []

/-- A call that has failed left nothing behind: the open descriptors, the table of sockets and the
available socket of a client are as before, and no descriptor was closed twice. -/
structure LeavesNothing (s s' : TcpProvider Address) (closes : List Int) : Prop where
  openFds : s'.openFds = s.openFds
  mmAli4sock : s'.mmAli4sock = s.mmAli4sock
  availableSockfd : s.mode = .client → s'.availableSockfd = s.availableSockfd
  once : closes.Nodup

/-- What the kernel grants: a new descriptor is not open yet, and a client connects on a descriptor
only if it is open. -/
structure Granted (s : TcpProvider Address) (results : ConnectResults) : Prop where
  fresh : results.newSockfd ∉ s.openFds
  connectable : results.connected = true → s.mode = .client →
    0 ≤ s.availableSockfd ∧ s.availableSockfd ∈ s.openFds

/-- The peer is known, and the connection to it succeeds. -/
def Connects (s : TcpProvider Address) (peerFullPath : Bytes)
    (results : ConnectResults) : Prop :=
  s.mmAli4addr.get peerFullPath ≠ none ∧ results.connected = true

/-- If the peer is connected, there is a thread for it: one can be created, or its path has a
looper. -/
def GetsThread (s : TcpProvider Address) (peerFullPath : Bytes)
    (results : ConnectResults) : Prop :=
  ∀ destaddr peerAlias, s.mmAli4addr.get peerFullPath = some destaddr →
    s.mmAli4addr.getAlias destaddr = some peerAlias → results.connected = true →
    results.spawned = true ∨ s.mLooperPool (s.heap.path peerAlias) ≠ none

/-- The calls that leave nothing behind should they fail: a UDS socket is bound, a connected peer
gets its thread, and the socket that a client gives back is its own. -/
def FailsCleanly (s : TcpProvider Address) (peerFullPath : Bytes)
    (results : ConnectResults) : Prop :=
  match s.mode with
  | .both | .server =>
      (s.providerType = .transUdsTCP → results.bound = true) ∧ s.GetsThread peerFullPath results
  | .client => s.availableSockfd ≠ 0 → s.GetsThread peerFullPath results ∧
      (s.Connects peerFullPath results ∨ s.availableSockfd = s.sockfd)
  | .none => True

/-- A thread that could not be created leaves the provider as it was. -/
theorem threadCreate_refused {peerAlias : AliasRef} {spawned : Bool}
    (h : s.threadCreate peerAlias spawned = (false, s')) :
    s' = s ∧ spawned = false ∧ s.mLooperPool (s.heap.path peerAlias) = none := by
  rw [threadCreate] at h
  split at h
  · cases h
  · next hnone =>
      split at h
      · cases h
      · next hspawned =>
          cases h
          exact ⟨rfl, by simpa using hspawned, hnone⟩

theorem giveBack_client {fd : Int} (hclient : s.mode = .client) :
    (s.giveBack fd).availableSockfd = if fd = s.sockfd then s.sockfd else s.availableSockfd := by
  rw [giveBack, if_pos hclient, releaseSelfSockfd]
  split
  · rfl
  · rfl

/-- A connection that gets no thread is disconnected by its path: the descriptor that is closed is
the new one, or that of an older entry of the path. -/
theorem storeConnection_refused {peerAlias : Option AliasRef} {fd : Int} {spawned : Bool}
    (h : s.storeConnection peerAlias fd spawned = .ok (false, s')) :
    ∃ ref closed, peerAlias = some ref ∧ spawned = false ∧
      s.mLooperPool (s.heap.path ref) = none ∧
      s.storeConnectionCloses peerAlias fd spawned = [closed] ∧
      (s.mmAli4sock.get (s.heap.path ref) = none ∧ closed = fd ∨
        s.mmAli4sock.get (s.heap.path ref) = some closed) ∧
      s'.mode = s.mode ∧ s'.mmAli4sock.get (s.heap.path ref) = none ∧
      s'.openFds = s.openFds.erase closed := by
  obtain ⟨ref, isNew, sock, mid, rfl, hinsert, hcreate, hend⟩ := storeConnection_effect h
  obtain ⟨hcreated, -⟩ | ⟨-, hdisconnection⟩ := hend
  · cases hcreated
  obtain ⟨rfl, hspawned, hpool⟩ := threadCreate_refused hcreate
  have hfiled : s.mmAli4sock.get (s.heap.path ref) = none ∧ sock.get (s.heap.path ref) = some fd ∨
      s.mmAli4sock.get (s.heap.path ref) ≠ none ∧
        sock.get (s.heap.path ref) = s.mmAli4sock.get (s.heap.path ref) := by
    obtain ⟨-, ⟨fd', hfd', hfree, -, hsock, -⟩ | ⟨hthere, hsock, -⟩⟩ :=
      CAliasAddr.insert_cases hinsert
    · rw [hsock, PartialMap.insert_self, Option.some.inj hfd']
      exact Or.inl ⟨hfree, rfl⟩
    · rw [hsock]
      exact Or.inr ⟨hthere, rfl⟩
  obtain ⟨hnone, -⟩ | ⟨closed, sock', available, config, hclosed, hremove, -, rfl⟩ :=
    disconnection_effect hdisconnection
  · exfalso
    obtain ⟨-, hstored⟩ | ⟨hthere, hsame⟩ := hfiled
    · exact absurd (hstored.symm.trans hnone) (by simp)
    · exact hthere (hsame.symm.trans hnone)
  have hcloses : s.storeConnectionCloses (some ref) fd spawned = [closed] := by
    unfold storeConnectionCloses
    rw [hinsert]
    dsimp only
    rw [hcreate]
    dsimp only
    rw [if_neg (by simp), disconnectionCloses, hclosed]
    rfl
  refine ⟨ref, closed, rfl, hspawned, hpool, hcloses, ?_, rfl, ?_, rfl⟩
  · obtain ⟨hfree, hstored⟩ | ⟨hthere, hsame⟩ := hfiled
    · exact Or.inl ⟨hfree, Option.some.inj (hclosed.symm.trans hstored)⟩
    · exact Or.inr (hsame.symm.trans hclosed)
  · obtain ⟨hnone, -⟩ | ⟨addr, -, -, hsock', -⟩ := CAliasAddr.remove_cases hremove
    · exact absurd (hclosed.symm.trans hnone) (by simp)
    · dsimp only at hsock' ⊢
      rw [hsock', PartialMap.erase_self]

/-- The ways of `make_connection` from its socket on. Where a thread is missing, the descriptor of
the peer's path is closed and its entry is gone. -/
inductive ConnectEnd (s : TcpProvider Address) (fd : Int) (path : Bytes)
    (results : ConnectResults) (res : Int) (s' : TcpProvider Address) : List Int → Prop
  | unconnected (refused : ¬s.Connects path results) (failed : res = -1)
      (same : s' = s.giveBack fd) : ConnectEnd s fd path results res s' (s.giveBackCloses fd)
  | stored (connects : s.Connects path results) (thread : s.GetsThread path results)
      (succeeded : res = fd) : ConnectEnd s fd path results res s' []
  | threadless (closed : Int) (peerPath : Bytes) (connects : s.Connects path results)
      (lost : ¬s.GetsThread path results) (failed : res = -1)
      (filed : s.mmAli4sock.get peerPath = none ∧ closed = fd ∨
        s.mmAli4sock.get peerPath = some closed)
      (removed : s'.mmAli4sock.get peerPath = none)
      (openFds : s'.openFds ⊆ s.openFds.erase closed) :
      ConnectEnd s fd path results res s' (closed :: s.giveBackCloses fd)

theorem giveBack_openFds (s : TcpProvider Address) (fd : Int) :
    (s.giveBack fd).openFds ⊆ s.openFds := by
  rw [giveBack]
  split
  · rw [releaseSelfSockfd]
    split
    · exact Finset.Subset.refl _
    · exact Finset.Subset.refl _
  · exact Finset.erase_subset _ _

theorem connectPeer_end [DecidableEq Address] {fd res : Int} {path : Bytes}
    {results : ConnectResults} (h : s.connectPeer fd path results = .ok (res, s')) :
    ConnectEnd s fd path results res s' (s.connectPeerCloses fd path results) := by
  rw [connectPeer] at h
  rw [connectPeerCloses]
  cases hget : s.mmAli4addr.get path with
  | none =>
      obtain ⟨rfl, rfl⟩ : -1 = res ∧ _ = s' := by simpa [hget] using h
      exact .unconnected (fun hconnects => hconnects.1 hget) rfl rfl
  | some destaddr =>
      simp only [hget] at h
      dsimp only
      cases hconnected : results.connected with
      | false =>
          obtain ⟨rfl, rfl⟩ : -1 = res ∧ _ = s' := by simpa [hconnected] using h
          refine .unconnected ?_ rfl rfl
          rintro ⟨-, hconnects⟩
          simp [hconnected] at hconnects
      | true =>
          have hconnects : s.Connects path results := ⟨by simp [hget], hconnected⟩
          rw [hconnected, if_pos rfl] at h
          rw [if_pos rfl]
          obtain ⟨⟨created, mid⟩, hstore, hend⟩ := bind_eq_ok.mp h
          rw [hstore]
          cases created with
          | true =>
              obtain ⟨rfl, rfl⟩ : fd = res ∧ mid = s' := by simpa using hend
              refine .stored hconnects ?_ rfl
              intro destaddr' ref' hget' halias' _
              obtain rfl := Option.some.inj (hget.symm.trans hget')
              obtain ⟨ref, isNew, sock, mid', halias, -, hcreate, -⟩ :=
                storeConnection_effect hstore
              obtain rfl := Option.some.inj (halias.symm.trans halias')
              exact (threadCreate_created hcreate).symm
          | false =>
              obtain ⟨rfl, rfl⟩ : -1 = res ∧ mid.giveBack fd = s' := by simpa using hend
              obtain ⟨ref, closed, halias, hspawned, hpool, hcloses, hfiled, hmode, hremoved,
                hopen⟩ := storeConnection_refused hstore
              have hlost : ¬s.GetsThread path results := by
                intro hthread
                obtain hspawned' | hpool' := hthread destaddr ref hget halias hconnected
                · simp [hspawned] at hspawned'
                · exact hpool' hpool
              dsimp only
              rw [hcloses, giveBackCloses, hmode]
              refine .threadless closed (s.heap.path ref) hconnects hlost rfl hfiled ?_ ?_
              · rw [giveBack_sock, hremoved]
              · rw [← hopen]
                exact giveBack_openFds mid fd

/-- A failed call of a server leaves nothing behind if it has bound its UDS socket and a connected
peer gets its thread, and only then. -/
theorem leavesNothing_server [DecidableEq Address] {res : Int} {path : Bytes}
    {results : ConnectResults} (hmode : s.mode = .both ∨ s.mode = .server)
    (hfresh : results.newSockfd ∉ s.openFds)
    (h : s.makeConnection path results = .ok (res, s')) :
    (res = -1 → s.LeavesNothing s' (s.makeConnectionCloses path results)) ↔
      (s.providerType = .transUdsTCP → results.bound = true) ∧ s.GetsThread path results := by
  have hclient : s.mode ≠ .client := by
    obtain hmode | hmode := hmode
    · simp [hmode]
    · simp [hmode]
  have hcloses : s.makeConnectionCloses path results =
      if s.providerType = .transUdsTCP ∧ results.bound = false then []
      else (s.opened results.newSockfd).connectPeerCloses results.newSockfd path results := by
    unfold makeConnectionCloses
    obtain hmode | hmode := hmode
    · rw [hmode]
      rfl
    · rw [hmode]
      rfl
  obtain ⟨hnone, -⟩ | ⟨hother, -⟩ | ⟨-, hpos, ⟨huds, hunbound, rfl, rfl⟩ | ⟨hbound, hconnect⟩⟩ :=
    makeConnection_effect h
  · obtain hmode | hmode := hmode
    · simp [hmode] at hnone
    · simp [hmode] at hnone
  · exact absurd hother hclient
  · -- The socket stays open.
    apply iff_of_false
    · intro hnothing
      have hopen : insert results.newSockfd s.openFds = s.openFds := (hnothing rfl).openFds
      exact hfresh (hopen ▸ Finset.mem_insert_self _ _)
    · rintro ⟨hbound, -⟩
      rw [hbound huds] at hunbound
      cases hunbound
  · have hboth : ¬(s.providerType = .transUdsTCP ∧ results.bound = false) := by
      rintro ⟨huds, hunbound⟩
      obtain hother | hbound := hbound
      · exact hother huds
      · simp [hbound] at hunbound
    have huds : s.providerType = .transUdsTCP → results.bound = true := by
      intro huds
      exact hbound.resolve_left (not_not.mpr huds)
    rw [hcloses, if_neg hboth]
    have hend := connectPeer_end hconnect
    generalize (s.opened results.newSockfd).connectPeerCloses results.newSockfd path results =
      closes at hend ⊢
    cases hend with
    | unconnected refused failed same =>
        apply iff_of_true
        · intro _
          rw [giveBack, if_neg (by exact hclient)] at same
          subst same
          refine ⟨Finset.erase_insert hfresh, rfl, fun hmode => absurd hmode hclient, ?_⟩
          rw [giveBackCloses, if_neg (by exact hclient)]
          exact List.nodup_singleton _
        · refine ⟨huds, ?_⟩
          intro destaddr peerAlias hget _ hconnected
          exact absurd ⟨by simp [opened, hget], hconnected⟩ refused
    | stored connects thread succeeded =>
        apply iff_of_true
        · intro hfailed
          omega
        · exact ⟨huds, thread⟩
    | threadless closed peerPath connects lost failed filed removed openFds =>
        apply iff_of_false
        · intro hnothing
          obtain ⟨hopen, hsock, havailable, honce⟩ := hnothing failed
          obtain ⟨-, rfl⟩ | hthere := filed
          · rw [giveBackCloses, if_neg (by exact hclient)] at honce
            simp at honce
          · rw [hsock] at removed
            exact absurd (removed.symm.trans hthere) (by simp)
        · exact fun hclean => lost hclean.2

/-- A failed call of a client leaves nothing behind if a connected peer gets its thread and the
socket that is given back is the client's own, and only then. -/
theorem leavesNothing_client [DecidableEq Address] {res : Int} {path : Bytes}
    {results : ConnectResults} (hclient : s.mode = .client)
    (hconnectable : results.connected = true →
      0 ≤ s.availableSockfd ∧ s.availableSockfd ∈ s.openFds)
    (h : s.makeConnection path results = .ok (res, s')) :
    (res = -1 → s.LeavesNothing s' (s.makeConnectionCloses path results)) ↔
      (s.availableSockfd ≠ 0 → s.GetsThread path results ∧
        (s.Connects path results ∨ s.availableSockfd = s.sockfd)) := by
  by_cases hzero : s.availableSockfd = 0
  · apply iff_of_true
    · intro hfailed
      unfold makeConnection at h
      rw [hclient] at h
      obtain ⟨rfl, -⟩ : 0 = res ∧ _ := by simpa [hzero] using h
      cases hfailed
    · exact fun hne => absurd hzero hne
  · obtain ⟨hnone, -⟩ | ⟨-, hconnect⟩ := ClientSocket.makeConnection_client hclient h
    · exact absurd hnone hzero
    have hcloses : s.makeConnectionCloses path results =
        { s with availableSockfd := 0 }.connectPeerCloses s.availableSockfd path results := by
      unfold makeConnectionCloses
      rw [hclient]
      exact if_neg hzero
    rw [hcloses]
    have hend := connectPeer_end hconnect
    generalize { s with availableSockfd := 0 }.connectPeerCloses s.availableSockfd path results =
      closes at hend ⊢
    cases hend with
    | unconnected refused failed same =>
        have hthread : s.GetsThread path results := by
          intro destaddr peerAlias hget _ hconnected
          exact absurd ⟨by simp [hget], hconnected⟩ refused
        have hsame : s'.availableSockfd =
            if s.availableSockfd = s.sockfd then s.sockfd else 0 := by
          rw [same]
          exact giveBack_client hclient
        constructor
        · intro hnothing _
          refine ⟨hthread, Or.inr ?_⟩
          have havailable := (hnothing failed).availableSockfd hclient
          by_contra hother
          rw [hsame, if_neg hother] at havailable
          exact hzero havailable.symm
        · intro hclean _
          obtain ⟨-, hconnects | hown⟩ := hclean hzero
          · exact absurd hconnects refused
          · rw [if_pos hown] at hsame
            rw [giveBack, if_pos (by exact hclient), releaseSelfSockfd,
              if_pos (by exact hown)] at same
            subst same
            refine ⟨rfl, rfl, fun _ => hown.symm, ?_⟩
            rw [giveBackCloses, if_pos (by exact hclient)]
            exact List.nodup_nil
    | stored connects thread succeeded =>
        apply iff_of_true
        · intro hfailed
          have hnonneg := (hconnectable connects.2).1
          omega
        · exact fun _ => ⟨thread, Or.inl connects⟩
    | threadless closed peerPath connects lost failed filed removed openFds =>
        apply iff_of_false
        · intro hnothing
          obtain ⟨hopen, hsock, -, -⟩ := hnothing failed
          obtain ⟨-, rfl⟩ | hthere := filed
          · rw [hopen] at openFds
            have hmem := (hconnectable connects.2).2
            exact Finset.notMem_erase _ _ (openFds hmem)
          · rw [hsock] at removed
            exact absurd (removed.symm.trans hthere) (by simp)
        · exact fun hclean => lost (hclean hzero).1

/-- A failed `make_connection` leaves nothing behind exactly if it fails at a place whose clean-up
fits: not at the bind of a UDS socket, not at the thread of a connected peer, and, for a client,
with a socket that is its own. -/
theorem leaves_nothing_iff [DecidableEq Address] {s s' : TcpProvider Address} {res : Int}
    {path : Bytes} {results : ConnectResults} (hgranted : s.Granted results)
    (h : s.makeConnection path results = .ok (res, s')) :
    (res = -1 → s.LeavesNothing s' (s.makeConnectionCloses path results)) ↔
      s.FailsCleanly path results := by
  unfold FailsCleanly
  cases hmode : s.mode with
  | both => exact leavesNothing_server (Or.inl hmode) hgranted.fresh h
  | server => exact leavesNothing_server (Or.inr hmode) hgranted.fresh h
  | client =>
      apply leavesNothing_client hmode _ h
      exact fun hconnected => hgranted.connectable hconnected hmode
  | none =>
      apply iff_of_true
      · intro _
        unfold makeConnection at h
        unfold makeConnectionCloses
        rw [hmode] at h ⊢
        obtain ⟨-, rfl⟩ : -1 = res ∧ s = s' := by simpa using h
        exact ⟨rfl, rfl, fun _ => rfl, List.nodup_nil⟩
      · trivial

/-- A connection that is refused. -/
def refused : ConnectResults :=
  { newSockfd := 5, bound := true, connected := false, spawned := true }

/-- A server that knows nobody gives its new socket back. -/
theorem localServer_gives_back :
    ∃ s', localServer.makeConnection [0x70] refused = .ok (-1, s') ∧
      localServer.LeavesNothing s' [5] := by
  have hcall : localServer.makeConnection [0x70] refused = .ok (-1, _) := rfl
  have hgranted : localServer.Granted refused := by
    constructor
    · exact Finset.notMem_empty 5
    · intro hconnected
      cases hconnected
  refine ⟨_, hcall, (leaves_nothing_iff hgranted hcall).mpr ?_ rfl⟩
  constructor
  · exact fun _ => rfl
  · intro destaddr peerAlias hget
    cases hget

/-- A connection for which no thread can be created. -/
def threadless : ConnectResults :=
  { newSockfd := 5, bound := true, connected := true, spawned := false }

/-- A server that has named a peer connects to it, gets no thread, and closes the socket twice. -/
theorem localServer_closes_twice :
    ¬∀ (s s' : TcpProvider Nat) (path : Bytes) (results : ConnectResults),
      Reachable (Step localIpPort) localServer s → s.Granted results →
        s.makeConnection path results = .ok (-1, s') →
        s.LeavesNothing s' (s.makeConnectionCloses path results) := by
  intro hleaves
  have hrun : Reachable (Step localIpPort) localServer _ :=
    .next .start trivial (a := .registerNewAlias 7 80 [0x61] [0x70]) rfl
  have honce := (hleaves _ _ [0x61, 0x2F, 0x70] threadless hrun
    ⟨Finset.notMem_empty 5, fun _ hclient => by cases hclient⟩ rfl).once
  revert honce
  decide

end TcpProvider

end CommonCommunicator
