import CommonCommunicator.Provider.KeyCoherence

/-!
# The socket table of a server

A provider in server mode finds the descriptor of a connection in
`_mm_ali4sock_`. `insert` leaves an occupied path as it is and still returns
true, so the table follows the open descriptors as long as no connection is
stored for a path that has one.
-/

namespace CommonCommunicator

open Lib

namespace TcpProvider

variable {Address : Type} {s s' : TcpProvider Address}

/-- Both states have the same descriptors open and stored. -/
structure SameSockets (s s' : TcpProvider Address) : Prop where
  mode : s'.mode = s.mode
  sock : s'.mmAli4sock = s.mmAli4sock
  fds : s'.openFds = s.openFds

/-- Both states have the same sockets. -/
structure SameHandles (s s' : TcpProvider Address) : Prop extends SameSockets s s' where
  sockfd : s'.sockfd = s.sockfd
  available : s'.availableSockfd = s.availableSockfd

namespace SameHandles

theorem refl (s : TcpProvider Address) : SameHandles s s := ⟨⟨rfl, rfl, rfl⟩, rfl, rfl⟩

theorem handleConnection {appPath pvdPath : Bytes} {flag : ConnectionState}
    {fromPeer : Option (Bytes × Bytes)}
    (h : s.handleConnection appPath pvdPath flag fromPeer = .ok s') : SameHandles s s' := by
  obtain ⟨config, callbacks, rfl, -⟩ := handleConnection_effect h
  exact ⟨⟨rfl, rfl, rfl⟩, rfl, rfl⟩

theorem threadCreate {peerAlias : AliasRef} {spawned created : Bool}
    (h : s.threadCreate peerAlias spawned = (created, s')) : SameHandles s s' := by
  obtain rfl | ⟨-, -, rfl⟩ := threadCreate_effect h
  · exact refl s'
  · exact ⟨⟨rfl, rfl, rfl⟩, rfl, rfl⟩

theorem zombiThreadMigrate (s : TcpProvider Address) (peerAlias : AliasRef) :
    SameHandles s (s.zombiThreadMigrate peerAlias) := by
  rw [TcpProvider.zombiThreadMigrate]
  split
  · exact refl s
  · exact ⟨⟨rfl, rfl, rfl⟩, rfl, rfl⟩

theorem updateAliasMapper [DecidableEq Address] {newPvd : AliasRef} {destaddr : Address}
    (h : s.updateAliasMapper newPvd destaddr = .ok s') : SameHandles s s' := by
  obtain ⟨res, isNew, addr, -, rfl⟩ := updateAliasMapper_effect h
  exact ⟨⟨rfl, rfl, rfl⟩, rfl, rfl⟩

theorem registerNewAlias [DecidableEq Address] {peerAddr : Address} {peerPort : Nat}
    {appPath pvdId : Bytes} (h : s.registerNewAlias peerAddr peerPort appPath pvdId = .ok s') :
    SameHandles s s' := by
  obtain ⟨pvd, hmapped⟩ := registerNewAlias_effect h
  obtain ⟨⟨hmode, hsock, hfds⟩, hsockfd, havailable⟩ := updateAliasMapper hmapped
  exact ⟨⟨hmode, hsock, hfds⟩, hsockfd, havailable⟩

theorem receiverStart {id : Nat} (h : s.receiverStart id = .ok s') : SameHandles s s' := by
  obtain ⟨looper, last, -, hprologue, rfl⟩ := receiverStart_effect h
  obtain ⟨-, config, -, rfl⟩ := runReceiverPrologue_effect hprologue
  exact ⟨⟨rfl, rfl, rfl⟩, rfl, rfl⟩

end SameHandles

/-- Every open descriptor is stored, except perhaps the pending ones. -/
def Stored (s : TcpProvider Address) (pending : Set Int) : Prop :=
  ∀ fd ∈ s.openFds, fd ∉ pending → ∃ path, s.mmAli4sock.get path = some fd

namespace Stored

variable {pending : Set Int}

theorem congr (h : s.Stored pending) (hsame : SameSockets s s') : s'.Stored pending := by
  rw [Stored, hsame.fds, hsame.sock]
  exact h

theorem mono {pending' : Set Int} (h : s.Stored pending) (hsub : pending ⊆ pending') :
    s.Stored pending' := fun fd hmem hnot => h fd hmem fun hin => hnot (hsub hin)

/-- A new descriptor is pending. -/
theorem opened (h : s.Stored ∅) (fd : Int) : (s.opened fd).Stored {fd} := by
  intro fd' hmem hne
  exact h fd' ((Finset.mem_insert.mp hmem).resolve_left hne) (Set.notMem_empty fd')

/-- What is pending may be closed. -/
theorem giveBack {fd : Int} (h : s.Stored {fd}) (hmode : s.mode ≠ .client) :
    (s.giveBack fd).Stored ∅ := by
  obtain ⟨available, fds, heq, hfds⟩ := giveBack_effect s fd
  obtain rfl := hfds hmode
  rw [heq]
  intro fd' hmem _
  obtain ⟨hne, hopen⟩ := Finset.mem_erase.mp hmem
  exact h fd' hopen hne

/-- `disconnection` removes the entry of the descriptor that it closes. -/
theorem disconnection {path : Bytes} (h : s.Stored pending)
    (hstep : s.disconnection path = .ok s') : s'.Stored pending := by
  obtain ⟨-, rfl⟩ | ⟨closed, sock, available, config, hget, hremove, -, rfl⟩ :=
    disconnection_effect hstep
  · exact h
  · intro fd hmem hnot
    obtain ⟨hclosed, hopen⟩ := Finset.mem_erase.mp hmem
    obtain ⟨path', hstored⟩ := h fd hopen hnot
    have hpath : path' ≠ path := by
      rintro rfl
      rw [hget] at hstored
      exact hclosed (Option.some.inj hstored).symm
    refine ⟨path', ?_⟩
    obtain ⟨hnone, -⟩ | ⟨addr, -, -, hget', -⟩ := CAliasAddr.remove_cases hremove
    · rw [hget] at hnone
      cases hnone
    · rw [hget', PartialMap.erase_of_ne hpath]
      exact hstored

/-- `insert` keeps every stored descriptor, and stores a new one if the path is free. -/
theorem insert {ref : AliasRef} {fd : Int} {connectFlag res isNew : Bool} {sock : CAliasAddr Int}
    (h : s.Stored {fd})
    (hinsert : s.mmAli4sock.insert s.heap (some ref) (some fd) connectFlag =
      .ok (res, isNew, sock)) :
    Stored { s with mmAli4sock := sock } {fd} ∧
      (s.mmAli4sock.get (s.heap.path ref) = none →
        Stored { s with mmAli4sock := sock } ∅ ∧ sock.get (s.heap.path ref) = some fd) := by
  obtain ⟨-, ⟨addr, haddr, hfree, -, hget, -⟩ | ⟨hthere, hget, -⟩⟩ :=
    CAliasAddr.insert_cases hinsert
  · cases haddr
    have hself : sock.get (s.heap.path ref) = some fd := by rw [hget, PartialMap.insert_self]
    have hall : Stored { s with mmAli4sock := sock } ∅ := by
      intro fd' hmem _
      by_cases hfd : fd' = fd
      · exact ⟨s.heap.path ref, hfd ▸ hself⟩
      · obtain ⟨path, hstored⟩ := h fd' hmem hfd
        have hpath : path ≠ s.heap.path ref := by
          rintro rfl
          rw [hfree] at hstored
          cases hstored
        refine ⟨path, ?_⟩
        dsimp only
        rw [hget, PartialMap.insert_of_ne _ hpath]
        exact hstored
    exact ⟨hall.mono (Set.empty_subset _), fun _ => ⟨hall, hself⟩⟩
  · refine ⟨?_, fun hfree => absurd hfree hthere⟩
    rw [Stored]
    dsimp only
    rw [hget]
    exact h

/-- A connection that is stored for a free path is no longer pending. For an occupied path it stays
pending, which matters unless there is no thread for it. -/
theorem storeConnection {peerAlias : Option AliasRef} {fd : Int} {spawned created : Bool}
    (h : s.Stored {fd}) (hstep : s.storeConnection peerAlias fd spawned = .ok (created, s')) :
    s'.mode = s.mode ∧ s'.Stored {fd} ∧
      ∃ ref, peerAlias = some ref ∧
        (s.mmAli4sock.get (s.heap.path ref) = none →
          s'.Stored ∅ ∧
            (created = true → s'.mmAli4sock.get (s.heap.path ref) = some fd)) ∧
        (created = true → s.mLooperPool (s.heap.path ref) ≠ none ∨ spawned = true) := by
  obtain ⟨ref, isNew, sock, mid, rfl, hinsert, hcreate, hend⟩ := storeConnection_effect hstep
  obtain ⟨hpending, hfree⟩ := h.insert hinsert
  have hsame := (SameHandles.threadCreate hcreate).toSameSockets
  obtain ⟨rfl, rfl⟩ | ⟨rfl, hdisconnect⟩ := hend
  · have hcreated := threadCreate_created hcreate
    refine ⟨hsame.mode, hpending.congr hsame, ref, rfl, ?_, fun _ => hcreated⟩
    intro hnone
    refine ⟨(hfree hnone).1.congr hsame, fun _ => ?_⟩
    rw [hsame.sock]
    exact (hfree hnone).2
  · refine ⟨?_, (hpending.congr hsame).disconnection hdisconnect, ref, rfl, ?_, by simp⟩
    · rw [disconnection_mode hdisconnect]
      exact hsame.mode
    · intro hnone
      exact ⟨((hfree hnone).1.congr hsame).disconnection hdisconnect, by simp⟩

end Stored

variable [DecidableEq Address] {getIpPort : Address → Outcome (Option (Bytes × Nat))}

/-- The path under which a new connection from the address is stored, if there is one. -/
def acceptedPath (getIpPort : Address → Outcome (Option (Bytes × Nat)))
    (s : TcpProvider Address) (newCliaddr : Address) : Option Bytes :=
  match s.mmAli4addr.getAlias newCliaddr with
  | some cliAlias => some (s.heap.path cliAlias)
  | none =>
      match getIpPort newCliaddr with
      | .ok (some (ip, port)) => if ip = anyAddress then none else some (ip ++ 0x3A :: toString port)
      | _ => none

/-- A step that stores connections under free paths only. A descriptor may come to an occupied path
if no thread can be made for it. -/
def KeepsSockets (getIpPort : Address → Outcome (Option (Bytes × Nat)))
    (s : TcpProvider Address) : Action Address → Prop
  | .serverAccept newsockfd newCliaddr _ => newsockfd < 0 ∨
      ∃ path ∈ s.acceptedPath getIpPort newCliaddr, s.mmAli4sock.get path = none
  | .makeConnection peerFullPath results =>
      (s.providerType = .transUdsTCP → results.bound = true) ∧
        (results.connected = true → s.mmAli4addr.isThere peerFullPath →
          s.mmAli4sock.isThere peerFullPath →
            s.mLooperPool peerFullPath = none ∧ results.spawned = false)
  | .updatePeerAlias _ _ => False
  | _ => True

/-- The invariant of the guarded steps. -/
structure SocketTable (s : TcpProvider Address) : Prop where
  coherent : s.KeyCoherent
  mode : s.mode ≠ .client
  stored : s.Stored ∅

/-- The socket of a connection that `make_connection` has made is stored under its path. -/
theorem makeConnection_stored {path : Bytes} {results : ConnectResults} {res : Int}
    (h : s.SocketTable) (hguard : s.KeepsSockets getIpPort (.makeConnection path results))
    (hstep : s.makeConnection path results = .ok (res, s')) :
    s'.mode = s.mode ∧ s'.Stored ∅ ∧ (0 < res → s'.mmAli4sock.get path = some res) := by
  obtain ⟨-, rfl, rfl⟩ | ⟨hclient, -⟩ | ⟨-, -, ⟨huds, hunbound, -, -⟩ | ⟨-, hconnect⟩⟩ :=
    makeConnection_effect hstep
  · exact ⟨rfl, h.stored, fun hpos => absurd hpos (by decide)⟩
  · exact absurd hclient h.mode
  · rw [hguard.1 huds] at hunbound
    cases hunbound
  · have hopened := h.stored.opened results.newSockfd
    obtain ⟨rfl, rfl⟩ | ⟨destaddr, created, mid, hget, hconnected, hstore, hend⟩ :=
      connectPeer_effect hconnect
    · exact ⟨giveBack_mode .., hopened.giveBack h.mode, fun hpos => absurd hpos (by decide)⟩
    · obtain ⟨hmode, hpending, ref, halias, hfree, hcreated⟩ := hopened.storeConnection hstore
      have hpath : s.heap.path ref = path := by
        have hback : s.mmAli4addr.pathOf s.heap destaddr = some path :=
          (h.coherent.addr path destaddr).mp hget
        have hstored : s.mmAli4addr.mmAlias destaddr = some ref := halias
        simpa [CAliasAddr.pathOf, hstored] using hback
      have hclient : mid.mode ≠ .client := by
        rw [hmode]
        exact h.mode
      by_cases hnone : s.mmAli4sock.get path = none
      · obtain ⟨hstored, hself⟩ := hfree (hpath ▸ hnone)
        obtain ⟨hdone, rfl, rfl⟩ | ⟨-, rfl, rfl⟩ := hend
        · exact ⟨hmode, hstored, fun _ => hpath ▸ hself hdone⟩
        · exact ⟨(giveBack_mode ..).trans hmode, hpending.giveBack hclient,
            fun hpos => absurd hpos (by decide)⟩
      · have haddr : s.mmAli4addr.get path ≠ none := by
          intro hnot
          have hsome : s.mmAli4addr.get path = some destaddr := hget
          rw [hnot] at hsome
          cases hsome
        obtain ⟨hpool, hspawned⟩ := hguard.2 hconnected (CAliasAddr.isThere_iff.mpr haddr)
          (CAliasAddr.isThere_iff.mpr hnone)
        obtain ⟨hdone, -, -⟩ | ⟨-, rfl, rfl⟩ := hend
        · obtain hlooper | hthread := hcreated hdone
          · exact absurd (hpath ▸ hpool) hlooper
          · rw [hspawned] at hthread
            cases hthread
        · exact ⟨(giveBack_mode ..).trans hmode, hpending.giveBack hclient,
            fun hpos => absurd hpos (by decide)⟩

/-- `make_client_id` finds the accepted path. -/
theorem makeClientId_path {newCliaddr : Address} {peerAlias : Option AliasRef}
    (hstep : makeClientId getIpPort s newCliaddr = .ok (peerAlias, s')) :
    SameSockets s s' ∧ s.acceptedPath getIpPort newCliaddr = peerAlias.map s'.heap.path := by
  obtain ⟨⟨⟩, -, hrest⟩ := bind_eq_ok.mp hstep
  rw [acceptedPath]
  cases hstored : s.mmAli4addr.getAlias newCliaddr with
  | some ref =>
      obtain ⟨rfl, rfl⟩ : some ref = peerAlias ∧ s = s' := by simpa [hstored] using hrest
      exact ⟨(SameHandles.refl s).toSameSockets, rfl⟩
  | none =>
      simp only [hstored] at hrest
      obtain ⟨ipPort, hipPort, hfound⟩ := bind_eq_ok.mp hrest
      cases ipPort with
      | none => cases hfound
      | some found =>
          obtain ⟨ip, port⟩ := found
          simp only [hipPort]
          by_cases hany : ip = anyAddress
          · obtain ⟨rfl, rfl⟩ : none = peerAlias ∧ s = s' := by simpa [hany] using hfound
            exact ⟨(SameHandles.refl s).toSameSockets, by simp [hany]⟩
          · simp only [hany, if_false] at hfound
            obtain ⟨⟨res, isNew, addr⟩, hinsert, hend⟩ := bind_eq_ok.mp hfound
            obtain ⟨rfl, rfl⟩ : some s.heap.nextRef = peerAlias ∧ _ = s' := by simpa using hend
            refine ⟨⟨rfl, rfl, rfl⟩, ?_⟩
            simp [hany, AliasHeap.path, IAliasPVD.path, IAliasPVD.makeFullPath]

/-- The socket of an accepted connection is stored. -/
theorem serverAccept_stored {newsockfd : Int} {newCliaddr : Address} {spawned threw : Bool}
    (h : s.SocketTable)
    (hguard : s.KeepsSockets getIpPort (.serverAccept newsockfd newCliaddr spawned))
    (hstep : serverAccept getIpPort s newsockfd newCliaddr spawned = .ok (threw, s')) :
    s'.mode = s.mode ∧ s'.Stored ∅ := by
  obtain ⟨-, rfl⟩ | ⟨hnonneg, peerAlias, mid, hclient, hend⟩ := serverAccept_effect hstep
  · exact ⟨rfl, h.stored⟩
  · obtain ⟨path, hpath, hnone⟩ := hguard.resolve_left hnonneg
    obtain ⟨hsame, haccepted⟩ := makeClientId_path hclient
    have hopened := (h.stored.opened newsockfd).congr hsame
    have hmap : peerAlias.map mid.heap.path = some path := haccepted.symm.trans hpath
    obtain ⟨rfl, -⟩ | ⟨ref, created, rfl, hstore⟩ := hend
    · cases hmap
    · obtain ⟨hmode, -, ref', halias, hfree, -⟩ := hopened.storeConnection hstore
      cases halias
      have hnone' : mid.mmAli4sock.get (mid.heap.path ref) = none := by
        rw [Option.some.inj hmap, hsame.sock]
        exact hnone
      exact ⟨hmode.trans hsame.mode, (hfree hnone').1⟩

namespace SocketTable

omit [DecidableEq Address] in
/-- The coherence of the names needs no condition, since there are no renames. -/
theorem keepsName {a : Action Address} (hguard : s.KeepsSockets getIpPort a) : s.KeepsName a := by
  cases a with
  | updatePeerAlias id fullPath => cases hguard
  | _ => trivial

omit [DecidableEq Address] in
theorem started {mode : ProviderMode} (hmode : mode ≠ .client) (sockfd : Int) (pvd : IAliasPVD) :
    (started Address mode sockfd pvd).SocketTable :=
  ⟨.started mode sockfd pvd, hmode, fun _ hmem _ => absurd hmem (Finset.notMem_empty _)⟩

omit [DecidableEq Address] in
theorem of_sameSockets (h : s.SocketTable) (hcoherent : s'.KeyCoherent) (hsame : SameSockets s s') :
    s'.SocketTable := by
  refine ⟨hcoherent, ?_, h.stored.congr hsame⟩
  rw [hsame.mode]
  exact h.mode

/-- What one step preserves. -/
theorem step (h : s.SocketTable) {a : Action Address} (hguard : s.KeepsSockets getIpPort a)
    (hstep : Step getIpPort s a s') : s'.SocketTable := by
  have hcoherent : s'.KeyCoherent := h.coherent.step (keepsName hguard) hstep
  obtain ⟨-, hperform⟩ := step_iff.mp hstep
  cases a with
  | appendPvdAlias pvd =>
      cases hperform
      exact h.of_sameSockets hcoherent ⟨rfl, rfl, rfl⟩
  | updateAliasMapper pvd destaddr =>
      exact h.of_sameSockets hcoherent (SameHandles.updateAliasMapper hperform).toSameSockets
  | registerNewAlias peerAddr peerPort appPath pvdId =>
      exact h.of_sameSockets hcoherent (SameHandles.registerNewAlias hperform).toSameSockets
  | serverAccept newsockfd newCliaddr spawned =>
      obtain ⟨⟨threw, last⟩, haccept, rfl⟩ := map_eq_ok.mp hperform
      obtain ⟨hmode, hstored⟩ := serverAccept_stored h hguard haccept
      exact ⟨hcoherent, hmode ▸ h.mode, hstored⟩
  | makeConnection peerFullPath results =>
      obtain ⟨⟨res, last⟩, hconnect, rfl⟩ := map_eq_ok.mp hperform
      obtain ⟨hmode, hstored, -⟩ := makeConnection_stored h hguard hconnect
      exact ⟨hcoherent, hmode ▸ h.mode, hstored⟩
  | receiverStart id =>
      exact h.of_sameSockets hcoherent (SameHandles.receiverStart hperform).toSameSockets
  | updatePeerAlias id fullPath => cases hguard
  | receiverEnd id =>
      obtain ⟨looper, mid, last, -, hreport, hdisconnect, rfl⟩ := receiverEnd_effect hperform
      have hsame := (SameHandles.handleConnection hreport).toSameSockets
      have hlast := (h.stored.congr hsame).disconnection hdisconnect
      have hzombi := (SameHandles.zombiThreadMigrate last looper.peerAlias).toSameSockets
      have hmode : (last.zombiThreadMigrate looper.peerAlias).mode ≠ .client := by
        rw [hzombi.mode, disconnection_mode hdisconnect, hsame.mode]
        exact h.mode
      have hstored := hlast.congr hzombi
      exact ⟨hcoherent, hmode, hstored⟩
  | disconnection peerFullPath =>
      refine ⟨hcoherent, ?_, h.stored.disconnection hperform⟩
      rw [disconnection_mode hperform]
      exact h.mode

end SocketTable

/-- In every run whose steps store connections under free paths only, each open descriptor is
stored under one path, and a connection that has been made under its own. -/
theorem sockets_in_table (getIpPort : Address → Outcome (Option (Bytes × Nat)))
    {mode : ProviderMode} (hmode : mode = .both ∨ mode = .server) {sockfd : Int} {pvd : IAliasPVD}
    (run : GuardedRun (Step getIpPort) (KeepsSockets getIpPort) (started Address mode sockfd pvd)
      s) :
    (∀ fd ∈ s.openFds, ∃! path, s.mmAli4sock.get path = some fd) ∧
      ∀ path results fd s', s.KeepsSockets getIpPort (.makeConnection path results) →
        s.makeConnection path results = .ok (fd, s') → 0 < fd →
          s'.mmAli4sock.get path = some fd := by
  have hclient : mode ≠ .client := by
    rintro rfl
    simp at hmode
  have htable : s.SocketTable :=
    run.invariant (.started hclient sockfd pvd) fun _ _ _ h hguard hstep => h.step hguard hstep
  constructor
  · intro fd hmem
    obtain ⟨path, hstored⟩ := htable.stored fd hmem (Set.notMem_empty fd)
    exact ⟨path, hstored, fun path' hstored' => htable.coherent.sock.key_unique hstored' hstored⟩
  · intro path results fd s' hguard hstep hpos
    exact (makeConnection_stored htable hguard hstep).2.2 hpos

/-- The path `p` is registered for port 90, and connected. -/
def connectOnce : List (Action Nat) :=
  [.serverAccept 5 80 true, .receiverStart 0, .registerNewAlias 90 90 [] [0x70],
    .makeConnection [0x70] { newSockfd := 6, bound := true, connected := true, spawned := true }]

theorem connectOnce_in_table :
    ∃ s, Lib.execute (next localIpPort) localServer connectOnce = some s ∧
      ∀ fd ∈ s.openFds, ∃! path, s.mmAli4sock.get path = some fd := by
  have hexecute : Lib.execute (next localIpPort) localServer connectOnce = some _ := rfl
  refine ⟨_, hexecute, (sockets_in_table localIpPort (Or.inr rfl) (.execute .start hexecute ?_)).1⟩
  refine ⟨Or.inr ⟨_, rfl, rfl⟩, trivial, trivial, ?_, trivial⟩
  exact ⟨fun _ => rfl, fun _ _ hthere => absurd rfl hthere⟩

/-- The path `p` is registered for port 90, and connected twice. -/
def connectTwice : List (Action Nat) :=
  [.registerNewAlias 90 90 [] [0x70],
    .makeConnection [0x70] { newSockfd := 5, bound := true, connected := true, spawned := true },
    .makeConnection [0x70] { newSockfd := 6, bound := true, connected := true, spawned := true }]

/-- The second descriptor has been returned and is open, but the table holds the first one. -/
theorem connectTwice_not_in_table :
    ∃ s, Lib.execute (next localIpPort) localServer connectTwice = some s ∧
      Reachable (Step localIpPort) localServer s ∧ 6 ∈ s.openFds ∧
      s.mmAli4sock.get [0x70] = some 5 ∧ ∀ path, s.mmAli4sock.get path ≠ some 6 := by
  have hexecute : Lib.execute (next localIpPort) localServer connectTwice = some _ := rfl
  refine ⟨_, hexecute, Lib.reachable_of_execute hexecute, by decide, rfl, ?_⟩
  intro path
  by_cases hpath : path = [0x70]
  · subst hpath
    decide
  · have hnone : PartialMap.insert .empty [0x70] (CSource.mk (5 : Int) true) path = none := by
      simp [hpath]
    intro hstored
    have hthere : (PartialMap.insert .empty [0x70] (CSource.mk (5 : Int) true) path).map
        CSource.address = some 6 := hstored
    rw [hnone] at hthere
    cases hthere

end TcpProvider

end CommonCommunicator
