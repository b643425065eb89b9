import CommonCommunicator.Provider.SocketTable

/-!
# A peer that names itself after another

The owner path of a message is the key under which the rename function files the
connection again, and the key by which `disconnection` finds the descriptor that
it closes. The connections of other peers are safe when the path is free, and
when the captured path is still the one of the connection.
-/

namespace CommonCommunicator

open Lib

namespace TcpProvider

variable {Address : Type} {s s' : TcpProvider Address}

/-- Whatever is renamed, no descriptor is stored twice. -/
theorem disconnection_oneToOne {path : Bytes} (h : s.mmAli4sock.OneToOne)
    (hstep : s.disconnection path = .ok s') : s'.mmAli4sock.OneToOne := by
  obtain ⟨-, rfl⟩ | ⟨fd, sock, available, config, -, hremove, -, rfl⟩ := disconnection_effect hstep
  · exact h
  · exact h.remove hremove

theorem storeConnection_oneToOne {peerAlias : Option AliasRef} {fd : Int} {spawned created : Bool}
    (h : s.mmAli4sock.OneToOne)
    (hstep : s.storeConnection peerAlias fd spawned = .ok (created, s')) :
    s'.mmAli4sock.OneToOne := by
  obtain ⟨ref, isNew, sock, mid, rfl, hinsert, hcreate, hend⟩ := storeConnection_effect hstep
  have hmid : mid.mmAli4sock.OneToOne := by
    rw [(SameHandles.threadCreate hcreate).sock]
    exact h.insert hinsert
  obtain ⟨-, rfl⟩ | ⟨-, hdisconnect⟩ := hend
  · exact hmid
  · exact disconnection_oneToOne hmid hdisconnect

theorem updatePeerAlias_oneToOne {peerAlias : AliasRef} {captured captured' fullPath : Bytes}
    (h : s.mmAli4sock.OneToOne)
    (hstep : s.updatePeerAlias peerAlias captured fullPath = .ok (captured', s')) :
    s'.mmAli4sock.OneToOne := by
  obtain ⟨-, -, rfl⟩ | ⟨newApp, newPvd, config, sock, found, isNew, sock', config', callbacks,
    -, -, hremove, hinsert, -, -, rfl⟩ := updatePeerAlias_effect hstep
  · exact h
  · exact (h.remove hremove).insert hinsert

variable [DecidableEq Address] {getIpPort : Address → Outcome (Option (Bytes × Nat))}

theorem connectPeer_oneToOne {fd res : Int} {path : Bytes} {results : ConnectResults}
    (h : s.mmAli4sock.OneToOne) (hstep : s.connectPeer fd path results = .ok (res, s')) :
    s'.mmAli4sock.OneToOne := by
  obtain ⟨-, rfl⟩ | ⟨destaddr, created, mid, -, -, hstore, hend⟩ := connectPeer_effect hstep
  · rw [giveBack_sock]
    exact h
  · have hmid : mid.mmAli4sock.OneToOne := storeConnection_oneToOne h hstore
    obtain ⟨-, -, rfl⟩ | ⟨-, -, rfl⟩ := hend
    · exact hmid
    · rw [giveBack_sock]
      exact hmid

theorem step_oneToOne {a : Action Address} (h : s.mmAli4sock.OneToOne)
    (hstep : Step getIpPort s a s') : s'.mmAli4sock.OneToOne := by
  obtain ⟨-, hperform⟩ := step_iff.mp hstep
  cases a with
  | appendPvdAlias pvd =>
      cases hperform
      exact h
  | updateAliasMapper pvd destaddr =>
      rw [(SameHandles.updateAliasMapper hperform).sock]
      exact h
  | registerNewAlias peerAddr peerPort appPath pvdId =>
      rw [(SameHandles.registerNewAlias hperform).sock]
      exact h
  | serverAccept newsockfd newCliaddr spawned =>
      obtain ⟨⟨threw, last⟩, haccept, rfl⟩ := map_eq_ok.mp hperform
      obtain ⟨-, rfl⟩ | ⟨-, peerAlias, mid, hclient, hend⟩ := serverAccept_effect haccept
      · exact h
      · have hmid : mid.mmAli4sock.OneToOne := by
          rw [(makeClientId_path hclient).1.sock]
          exact h
        obtain ⟨-, rfl⟩ | ⟨ref, created, -, hstore⟩ := hend
        · exact hmid
        · exact storeConnection_oneToOne hmid hstore
  | makeConnection peerFullPath results =>
      obtain ⟨⟨res, last⟩, hconnect, rfl⟩ := map_eq_ok.mp hperform
      obtain ⟨-, -, rfl⟩ | ⟨-, ⟨-, rfl⟩ | hpeer⟩ | ⟨-, -, ⟨-, -, -, rfl⟩ | ⟨-, hpeer⟩⟩ :=
        makeConnection_effect hconnect
      · exact h
      · exact h
      · exact connectPeer_oneToOne (by exact h) hpeer
      · exact h
      · exact connectPeer_oneToOne (by exact h) hpeer
  | receiverStart id =>
      rw [(SameHandles.receiverStart hperform).sock]
      exact h
  | updatePeerAlias id fullPath =>
      obtain ⟨looper, captured, mid, -, hrename, rfl⟩ := renameBy_effect hperform
      have hmid := updatePeerAlias_oneToOne h hrename
      exact hmid
  | receiverEnd id =>
      obtain ⟨looper, mid, last, -, hreport, hdisconnect, rfl⟩ := receiverEnd_effect hperform
      have hmid : mid.mmAli4sock.OneToOne := by
        rw [(SameHandles.handleConnection hreport).sock]
        exact h
      have hlast := disconnection_oneToOne hmid hdisconnect
      rw [← (SameHandles.zombiThreadMigrate last looper.peerAlias).sock] at hlast
      exact hlast
  | disconnection peerFullPath => exact disconnection_oneToOne h hperform

/-- No descriptor is stored twice in any reachable state. -/
theorem reachable_oneToOne {mode : ProviderMode} {sockfd : Int} {pvd : IAliasPVD}
    (run : Reachable (Step getIpPort) (started Address mode sockfd pvd) s) :
    s.mmAli4sock.OneToOne :=
  run.invariant CAliasAddr.OneToOne.empty fun _ _ _ h _ hstep => step_oneToOne h hstep

omit [DecidableEq Address] in
theorem unregistConnectedPeer_ok (s : TcpProvider Address) (path : Bytes) :
    ∃ config, s.unregistConnectedPeer path = .ok { s with config := config } ∧
      ∀ other, other ≠ path →
        config.mmConnectedPeers other = s.config.mmConnectedPeers other := by
  rw [unregistConnectedPeer]
  cases hcall : s.config.unregistConnectedPeer s.heap path (s.heap.path s.pvdAlias) with
  | ok config =>
      exact ⟨config, rfl, fun other hne => CConfigAliases.unregistConnectedPeer_peers hcall hne⟩
  | error f =>
      rw [CConfigAliases.unregistConnectedPeer] at hcall
      split at hcall
      · cases hcall
        exact ⟨s.config, rfl, fun _ _ => rfl⟩
      · split at hcall
        · cases hcall
        · cases hcall

omit [DecidableEq Address] in
theorem registConnectedPeer_ok (s : TcpProvider Address) (peerAlias : AliasRef) :
    ∃ config, s.registConnectedPeer peerAlias = .ok (true, { s with config := config }) ∧
      ∀ other, other ≠ s.heap.path peerAlias →
        config.mmConnectedPeers other = s.config.mmConnectedPeers other := by
  obtain ⟨config, hcall⟩ := s.config.registConnectedPeer_ok s.heap peerAlias s.pvdAlias
  refine ⟨config, ?_, ?_⟩
  · rw [registConnectedPeer, hcall]
    rfl
  · intro other hne
    exact CConfigAliases.registConnectedPeer_peers hcall hne

omit [DecidableEq Address] in
/-- `disconnection` of a stored path closes its descriptor and forgets the path. -/
theorem disconnection_ok {path : Bytes} {fd : Int} (hget : s.mmAli4sock.get path = some fd)
    (hne : path ≠ []) :
    ∃ s', s.disconnection path = .ok s' ∧ s'.openFds = s.openFds.erase fd ∧
      ∀ other, other ≠ path → s'.mmAli4sock.get other = s.mmAli4sock.get other ∧
        s'.config.mmConnectedPeers other = s.config.mmConnectedPeers other := by
  obtain ⟨sock, hremove⟩ : ∃ sock, s.mmAli4sock.remove path = .ok sock :=
    CAliasAddr.remove_ok fun hnil => absurd hnil hne
  obtain ⟨available, hclosed⟩ : ∃ available, s.disconnection path = unregistConnectedPeer
      { s with openFds := s.openFds.erase fd, mmAli4sock := sock, availableSockfd := available }
      path := by
    have hremove' : (s.close fd).mmAli4sock.remove path = .ok sock := hremove
    rw [disconnection, hget]
    simp only [hremove', ok_bind]
    by_cases hmode : (s.close fd).mode = .client
    · obtain ⟨available, hrelease⟩ :=
        releaseSelfSockfd_effect { s.close fd with mmAli4sock := sock } fd
      refine ⟨available, ?_⟩
      rw [if_pos hmode]
      exact congrArg (unregistConnectedPeer · path) hrelease
    · refine ⟨s.availableSockfd, ?_⟩
      rw [if_neg hmode]
      rfl
  obtain ⟨config, hunregist, hpeers⟩ := unregistConnectedPeer_ok { s with
    openFds := s.openFds.erase fd, mmAli4sock := sock, availableSockfd := available } path
  refine ⟨_, hclosed.trans hunregist, rfl, ?_⟩
  intro other hother
  refine ⟨?_, hpeers other hother⟩
  obtain ⟨-, rfl⟩ | ⟨addr, -, -, hget', -⟩ := CAliasAddr.remove_cases hremove
  · rfl
  · dsimp only
    rw [hget', PartialMap.erase_of_ne hother]

/-- A connection with a running receiver: its descriptor is open and stored under the path of its
alias. -/
structure Live (s : TcpProvider Address) (id : Nat) (looper : CLooper) (fd : Int) : Prop where
  found : s.loopers[id]? = some looper
  running : looper.phase = .running
  stored : s.mmAli4sock.get (s.heap.path looper.peerAlias) = some fd
  isOpen : fd ∈ s.openFds

/-- The connection of a looper is renamed and later disconnected; another path keeps its entry and
its registration, and only the descriptor `fd` is closed. -/
def SparesPeer (s : TcpProvider Address) (id : Nat) (looper : CLooper) (fd : Int)
    (fullPath other : Bytes) : Prop :=
  ∃ mid s', s.renameBy id fullPath = .ok mid ∧ mid.disconnectionOf looper.peerAlias = .ok s' ∧
    s'.mmAli4sock.get other = s.mmAli4sock.get other ∧
    s'.config.mmConnectedPeers other = s.config.mmConnectedPeers other ∧
    s'.openFds = s.openFds.erase fd

/-- The paths that a rename to `new` goes through lead to no other connection: from the own path to
itself or to a free one, or, where the captured path is out of date, to the own path. -/
def ClearTo (s : TcpProvider Address) (looper : CLooper) (new other : Bytes) : Prop :=
  let own := s.heap.path looper.peerAlias
  new ≠ [] ∧
    (looper.peerFullPath = own ∧ own ≠ [] ∧ (new = own ∨ s.mmAli4sock.get new = none) ∨
      looper.peerFullPath ≠ own ∧ looper.peerFullPath ≠ other ∧
        (looper.peerFullPath = [] → s.mmAli4sock.get [] = none) ∧ new = own)

/-- The rename by an owner path keeps clear of the connection under `other`. -/
def KeepsClear (s : TcpProvider Address) (looper : CLooper) (fullPath other : Bytes) : Prop :=
  match renameTarget looper.peerFullPath fullPath with
  | none => s.heap.path looper.peerAlias ≠ []
  | some (newApp, newPvd) => s.ClearTo looper (IAliasPVD.makeFullPath newApp newPvd) other

omit [DecidableEq Address] in
/-- A rename of a looper, step by step: the captured path is removed, the new one inserted. -/
theorem renameBy_ok {id : Nat} {looper : CLooper} {fullPath newApp newPvd : Bytes} {isNew : Bool}
    {sock sock' : CAliasAddr Int} (hfound : s.loopers[id]? = some looper)
    (htarget : renameTarget looper.peerFullPath fullPath = some (newApp, newPvd))
    (hremove : s.mmAli4sock.remove looper.peerFullPath = .ok sock)
    (hinsert : sock.insert (s.heap.update looper.peerAlias newApp newPvd) (some looper.peerAlias)
      (s.mmAli4sock.get looper.peerFullPath) true = .ok (true, isNew, sock')) :
    ∃ s', s.renameBy id fullPath = .ok s' ∧ s'.mmAli4sock = sock' ∧ s'.openFds = s.openFds ∧
      s'.heap = s.heap.update looper.peerAlias newApp newPvd ∧
      ∀ other, other ≠ looper.peerFullPath → other ≠ s'.heap.path looper.peerAlias →
        s'.config.mmConnectedPeers other = s.config.mmConnectedPeers other := by
  let pvd := s.heap.objects looper.peerAlias
  let s₁ := s.reportConnection pvd.pathParent pvd.name .suspend none
  obtain ⟨config, hunregist, hpeers⟩ := unregistConnectedPeer_ok s₁ looper.peerFullPath
  let s₂ : TcpProvider Address := { s₁ with
    config := config
    heap := s.heap.update looper.peerAlias newApp newPvd
    mmAli4sock := sock' }
  obtain ⟨config', hregist, hpeers'⟩ := registConnectedPeer_ok s₂ looper.peerAlias
  let s₃ := { s₂ with config := config' }.reportConnection newApp newPvd .resumeUpdate
    (some (pvd.pathParent, pvd.name))
  have hrename : s.updatePeerAlias looper.peerAlias looper.peerFullPath fullPath =
      .ok (fullPath, s₃) := (updatePeerAlias_eq_ok htarget).mpr
    ⟨_, sock, true, isNew, sock', _, hunregist, hremove, hinsert, hregist, rfl, rfl⟩
  refine ⟨{ s₃ with loopers := s₃.loopers.set id { looper with peerFullPath := fullPath } },
    ?_, rfl, rfl, rfl, ?_⟩
  · rw [renameBy, hfound]
    exact bind_eq_ok.mpr ⟨_, hrename, rfl⟩
  · intro other hcaptured hnew
    exact (hpeers' other hnew).trans (hpeers other hcaptured)

omit [DecidableEq Address] in
/-- What a rename of a looper does to the stored descriptors. -/
theorem renameBy_cases {id : Nat} {looper : CLooper} {fullPath : Bytes}
    (hfound : s.loopers[id]? = some looper) (h : s.renameBy id fullPath = .ok s') :
    s'.openFds = s.openFds ∧
      ((renameTarget looper.peerFullPath fullPath = none ∧ s'.mmAli4sock = s.mmAli4sock ∧
          s'.heap = s.heap) ∨
        ∃ newApp newPvd sock res isNew,
          renameTarget looper.peerFullPath fullPath = some (newApp, newPvd) ∧
          s.mmAli4sock.remove looper.peerFullPath = .ok sock ∧
          sock.insert s'.heap (some looper.peerAlias) (s.mmAli4sock.get looper.peerFullPath) true =
            .ok (res, isNew, s'.mmAli4sock) ∧
          s'.heap.path looper.peerAlias = IAliasPVD.makeFullPath newApp newPvd) := by
  obtain ⟨found, captured, mid, hfound', hrename, rfl⟩ := renameBy_effect h
  obtain rfl : looper = found := Option.some.inj (hfound.symm.trans hfound')
  obtain ⟨htarget, -, rfl⟩ | ⟨newApp, newPvd, config, sock, res, isNew, sock', config', callbacks,
    htarget, -, hremove, hinsert, -, -, rfl⟩ := updatePeerAlias_effect hrename
  · exact ⟨rfl, Or.inl ⟨htarget, rfl, rfl⟩⟩
  · exact ⟨rfl, Or.inr ⟨newApp, newPvd, sock, res, isNew, htarget, hremove, hinsert,
      AliasHeap.update_path_self ..⟩⟩

omit [DecidableEq Address] in
/-- A call of `disconnection` that closes `fd` has found it under the path. -/
theorem disconnection_closes {path : Bytes} {fd : Int} (hopen : fd ∈ s.openFds)
    (hstep : s.disconnection path = .ok s') (hfds : s'.openFds = s.openFds.erase fd) :
    s.mmAli4sock.get path = some fd ∧ path ≠ [] ∧
      s'.mmAli4sock.get = PartialMap.erase s.mmAli4sock.get path := by
  obtain ⟨-, rfl⟩ | ⟨closed, sock, available, config, hget, hremove, -, rfl⟩ :=
    disconnection_effect hstep
  · rw [hfds] at hopen
    exact absurd rfl (Finset.ne_of_mem_erase hopen)
  · have hclosed : closed = fd := by
      by_contra hne
      have hleft : fd ∈ s.openFds.erase closed :=
        Finset.mem_erase.mpr ⟨fun heq => hne heq.symm, hopen⟩
      rw [show s.openFds.erase closed = s.openFds.erase fd from hfds] at hleft
      exact Finset.ne_of_mem_erase hleft rfl
    subst hclosed
    obtain ⟨hnone, -⟩ | ⟨addr, -, hpath, hget', -⟩ := CAliasAddr.remove_cases hremove
    · rw [hget] at hnone
      cases hnone
    · exact ⟨hget, hpath, hget'⟩

section TwoConnections

variable {id id' : Nat} {looper looper' : CLooper} {fd fd' : Int} {fullPath : Bytes}

omit [DecidableEq Address] in
theorem Live.path_ne (hlive : s.Live id looper fd) (hlive' : s.Live id' looper' fd')
    (hne : fd ≠ fd') : s.heap.path looper'.peerAlias ≠ s.heap.path looper.peerAlias := by
  intro heq
  have hstored := hlive'.stored
  rw [heq, hlive.stored] at hstored
  exact hne (Option.some.inj hstored)

omit [DecidableEq Address] in
theorem keepsClear_of_sparesPeer (hone : s.mmAli4sock.OneToOne) (hlive : s.Live id looper fd)
    (hlive' : s.Live id' looper' fd')
    (h : s.SparesPeer id looper fd fullPath (s.heap.path looper'.peerAlias)) :
    s.KeepsClear looper fullPath (s.heap.path looper'.peerAlias) := by
  obtain ⟨mid, s', hrename, hdisconnect, hentry, -, hfds⟩ := h
  obtain ⟨hmid, hcases⟩ := renameBy_cases hlive.found hrename
  rw [← hmid] at hfds
  obtain ⟨hget, hnew, hget'⟩ := disconnection_closes (hmid ▸ hlive.isOpen) hdisconnect hfds
  rw [KeepsClear]
  obtain ⟨htarget, -, hheap⟩ | ⟨newApp, newPvd, sock, res, isNew, htarget, hremove, hinsert,
    hpath⟩ := hcases
  · rw [htarget]
    rw [hheap] at hnew
    exact hnew
  · rw [htarget]
    rw [hpath] at hget hnew hget'
    refine ⟨hnew, ?_⟩
    obtain ⟨-, ⟨addr, haddr, hfree, -, hsock, -⟩ | ⟨-, hsock, -⟩⟩ :=
      CAliasAddr.insert_cases hinsert
    · rw [hpath] at hfree hsock
      rw [hsock, PartialMap.insert_self] at hget
      obtain rfl := Option.some.inj hget
      have hown := hone.unique _ _ _ haddr hlive.stored
      obtain ⟨hnone, -⟩ | ⟨addr', -, hne, hsock', -⟩ := CAliasAddr.remove_cases hremove
      · rw [haddr] at hnone
        cases hnone
      · refine Or.inl ⟨hown, hown ▸ hne, ?_⟩
        rw [hsock', hown, PartialMap.erase_apply] at hfree
        split at hfree
        · next heq => exact Or.inl heq
        · exact Or.inr hfree
    · rw [hsock] at hget
      obtain ⟨hnone, rfl⟩ | ⟨addr', hcaptured, hne, hsock', -⟩ := CAliasAddr.remove_cases hremove
      · have hown := hone.unique _ _ _ hget hlive.stored
        refine Or.inr ⟨?_, ?_, fun hnil => hnil ▸ hnone, hown⟩
        · intro heq
          rw [heq, hlive.stored] at hnone
          cases hnone
        · intro heq
          rw [heq, hlive'.stored] at hnone
          cases hnone
      · rw [hsock'] at hget
        obtain ⟨hcap, hold⟩ := PartialMap.of_erase_eq_some hget
        have hown := hone.unique _ _ _ hold hlive.stored
        refine Or.inr ⟨fun heq => hcap (hown.trans heq.symm), ?_, fun hnil => absurd hnil hne, hown⟩
        intro heq
        have hgone : sock.get (s.heap.path looper'.peerAlias) = none := by
          rw [hsock', heq, PartialMap.erase_self]
        rw [hget', PartialMap.erase_apply, hsock, hgone, ite_self, hlive'.stored] at hentry
        cases hentry

omit [DecidableEq Address] in
/-- A rename that keeps clear of another path moves the own entry only. -/
theorem ClearTo.moves {newApp newPvd other : Bytes}
    (hclear : s.ClearTo looper (IAliasPVD.makeFullPath newApp newPvd) other)
    (hlive : s.Live id looper fd) (hother : s.mmAli4sock.get other ≠ none)
    (hne : other ≠ s.heap.path looper.peerAlias) :
    other ≠ looper.peerFullPath ∧ other ≠ IAliasPVD.makeFullPath newApp newPvd ∧
      ∃ sock isNew sock', s.mmAli4sock.remove looper.peerFullPath = .ok sock ∧
        sock.insert (s.heap.update looper.peerAlias newApp newPvd) (some looper.peerAlias)
          (s.mmAli4sock.get looper.peerFullPath) true = .ok (true, isNew, sock') ∧
        sock'.get (IAliasPVD.makeFullPath newApp newPvd) = some fd ∧
        sock'.get other = s.mmAli4sock.get other := by
  have hstored := hlive.stored
  have hpath : (s.heap.update looper.peerAlias newApp newPvd).path looper.peerAlias =
      IAliasPVD.makeFullPath newApp newPvd := AliasHeap.update_path_self ..
  obtain ⟨-, ⟨hown, hnonempty, hnew⟩ | ⟨hown, hcaptured, hnil, hnew⟩⟩ := hclear
  · have hfree : other ≠ IAliasPVD.makeFullPath newApp newPvd := by
      obtain heq | hnone := hnew
      · rw [heq]
        exact hne
      · rintro rfl
        exact hother hnone
    rw [hown]
    obtain ⟨sock, hremove⟩ :
        ∃ sock, s.mmAli4sock.remove (s.heap.path looper.peerAlias) = .ok sock :=
      CAliasAddr.remove_ok fun hnil => absurd hnil hnonempty
    obtain ⟨hnone, -⟩ | ⟨addr, haddr, -, hsock, halias⟩ := CAliasAddr.remove_cases hremove
    · rw [hstored] at hnone
      cases hnone
    · obtain rfl : fd = addr := Option.some.inj (hstored.symm.trans haddr)
      have hgone : sock.get (IAliasPVD.makeFullPath newApp newPvd) = none := by
        rw [hsock, PartialMap.erase_apply]
        obtain heq | hnone := hnew
        · rw [if_pos heq]
        · rw [hnone, ite_self]
      obtain ⟨isNew, sock', hinsert⟩ : ∃ isNew sock',
          sock.insert (s.heap.update looper.peerAlias newApp newPvd) (some looper.peerAlias)
            (some fd) true = .ok (true, isNew, sock') :=
        CAliasAddr.insert_ok true (Or.inr ⟨fd, rfl, by rw [halias, PartialMap.erase_self]⟩)
      obtain ⟨-, ⟨addr', haddr', -, -, hsock', -⟩ | ⟨hthere, -, -⟩⟩ :=
        CAliasAddr.insert_cases hinsert
      · cases haddr'
        rw [hpath] at hsock'
        rw [hstored]
        refine ⟨hne, hfree, sock, isNew, sock', hremove, hinsert, ?_, ?_⟩
        · rw [hsock', PartialMap.insert_self]
        · rw [hsock', PartialMap.insert_of_ne _ hfree, hsock, PartialMap.erase_of_ne hne]
      · rw [hpath] at hthere
        exact absurd hgone hthere
  · obtain ⟨sock, hremove⟩ : ∃ sock, s.mmAli4sock.remove looper.peerFullPath = .ok sock :=
      CAliasAddr.remove_ok fun heq => heq ▸ hnil heq
    have hkept : ∀ path, path ≠ looper.peerFullPath →
        sock.get path = s.mmAli4sock.get path := by
      intro path hpath
      obtain ⟨-, rfl⟩ | ⟨addr, -, -, hsock, -⟩ := CAliasAddr.remove_cases hremove
      · rfl
      · rw [hsock, PartialMap.erase_of_ne hpath]
    have hthere : sock.get (s.heap.path looper.peerAlias) = some fd :=
      (hkept _ hown.symm).trans hstored
    obtain ⟨isNew, sock', hinsert⟩ : ∃ isNew sock',
        sock.insert (s.heap.update looper.peerAlias newApp newPvd) (some looper.peerAlias)
          (s.mmAli4sock.get looper.peerFullPath) true = .ok (true, isNew, sock') := by
      apply CAliasAddr.insert_ok true
      rw [hpath, hnew, hthere]
      exact Or.inl (Option.some_ne_none fd)
    obtain ⟨-, ⟨addr, -, hfree, -⟩ | ⟨-, hsock', -⟩⟩ := CAliasAddr.insert_cases hinsert
    · rw [hpath, hnew, hthere] at hfree
      cases hfree
    · refine ⟨hcaptured.symm, hnew ▸ hne, sock, isNew, sock', hremove, hinsert, ?_, ?_⟩
      · rw [hsock', hnew, hthere]
      · rw [hsock', hkept other hcaptured.symm]

omit [DecidableEq Address] in
theorem sparesPeer_of_keepsClear (hlive : s.Live id looper fd) (hlive' : s.Live id' looper' fd')
    (hne : fd ≠ fd') (h : s.KeepsClear looper fullPath (s.heap.path looper'.peerAlias)) :
    s.SparesPeer id looper fd fullPath (s.heap.path looper'.peerAlias) := by
  have hpaths := hlive.path_ne hlive' hne
  rw [KeepsClear] at h
  split at h
  · next htarget =>
      have hrename : s.renameBy id fullPath =
          .ok { s with loopers := s.loopers.set id looper } := by
        rw [renameBy, hlive.found]
        simp [updatePeerAlias, htarget]
      obtain ⟨s', hdisconnect, hclosed, hothers⟩ :=
        disconnection_ok (s := { s with loopers := s.loopers.set id looper }) hlive.stored h
      obtain ⟨hentry, hpeers⟩ := hothers _ hpaths
      exact ⟨_, s', hrename, hdisconnect, hentry, hpeers, hclosed⟩
  · next newApp newPvd htarget =>
      have hother : s.mmAli4sock.get (s.heap.path looper'.peerAlias) ≠ none := by
        rw [hlive'.stored]
        exact Option.some_ne_none fd'
      obtain ⟨hcaptured, hnew, sock, isNew, sock', hremove, hinsert, hget, hkept⟩ :=
        h.moves hlive hother hpaths
      obtain ⟨mid, hrename, rfl, hfds, hheap, hpeers⟩ :=
        renameBy_ok hlive.found htarget hremove hinsert
      have hpath : mid.heap.path looper.peerAlias = IAliasPVD.makeFullPath newApp newPvd := by
        rw [hheap, AliasHeap.update_path_self]
      obtain ⟨s', hdisconnect, hclosed, hothers⟩ := disconnection_ok hget h.1
      obtain ⟨hentry, hpeers'⟩ := hothers _ hnew
      refine ⟨mid, s', hrename, ?_, hentry.trans hkept, ?_, ?_⟩
      · rw [disconnectionOf, hpath]
        exact hdisconnect
      · rw [hpeers', hpeers _ hcaptured (by rw [hpath]; exact hnew)]
      · rw [hclosed, hfds]

end TwoConnections

/-- A rename of a live connection and its later disconnection leave another live connection alone
exactly when the paths keep clear of it. -/
theorem sparesPeer_iff (getIpPort : Address → Outcome (Option (Bytes × Nat)))
    {mode : ProviderMode} {sockfd : Int} {pvd : IAliasPVD}
    (run : Reachable (Step getIpPort) (started Address mode sockfd pvd) s) {id id' : Nat}
    {looper looper' : CLooper} {fd fd' : Int} (hlive : s.Live id looper fd)
    (hlive' : s.Live id' looper' fd') (hne : fd ≠ fd') (fullPath : Bytes) :
    s.SparesPeer id looper fd fullPath (s.heap.path looper'.peerAlias) ↔
      s.KeepsClear looper fullPath (s.heap.path looper'.peerAlias) :=
  ⟨keepsClear_of_sparesPeer (reachable_oneToOne run) hlive hlive',
    sparesPeer_of_keepsClear hlive hlive' hne⟩

/-- Two peers, at the ports 80 and 81, connect to the server. -/
def twoPeers : List (Action Nat) :=
  [.serverAccept 5 80 true, .serverAccept 6 81 true, .receiverStart 0, .receiverStart 1]

/-- The running looper of the peer `127.0.0.1:80`. -/
def firstPeer : CLooper :=
  { peerAlias := 1
    phase := .running
    peerFullPath := [0x31, 0x32, 0x37, 0x2E, 0x30, 0x2E, 0x30, 0x2E, 0x31, 0x3A, 0x38, 0x30] }

/-- The running looper of the peer `127.0.0.1:81`. -/
def secondPeer : CLooper :=
  { peerAlias := 2
    phase := .running
    peerFullPath := [0x31, 0x32, 0x37, 0x2E, 0x30, 0x2E, 0x30, 0x2E, 0x31, 0x3A, 0x38, 0x31] }

/-- The first one names itself `a/b`, and disconnects. -/
theorem freeName_sparesPeer :
    ∃ s, Lib.execute (next localIpPort) localServer twoPeers = some s ∧
      s.SparesPeer 0 firstPeer 5 [0x61, 0x2F, 0x62] (s.heap.path secondPeer.peerAlias) := by
  have hexecute : Lib.execute (next localIpPort) localServer twoPeers = some _ := rfl
  refine ⟨_, hexecute, (sparesPeer_iff localIpPort (Lib.reachable_of_execute hexecute) ?_
    (?_ : Live _ 1 secondPeer 6) (by decide) _).mpr ?_⟩
  · exact ⟨rfl, rfl, rfl, by decide⟩
  · exact ⟨rfl, rfl, rfl, by decide⟩
  · exact ⟨by decide, Or.inl ⟨rfl, by decide, Or.inr rfl⟩⟩

/-- The first one names itself `/127.0.0.1:81`, which is read as the name of the second one, and
disconnects. The descriptor that is closed is that of the second one, which is no longer stored
nor registered. -/
theorem namesOther_takes_over :
    ∃ s mid s', Lib.execute (next localIpPort) localServer twoPeers = some s ∧
      Reachable (Step localIpPort) localServer s ∧
      s.Live 0 firstPeer 5 ∧ s.Live 1 secondPeer 6 ∧
      s.renameBy 0 [0x2F, 0x31, 0x32, 0x37, 0x2E, 0x30, 0x2E, 0x30, 0x2E, 0x31, 0x3A, 0x38, 0x31] =
        .ok mid ∧
      mid.disconnectionOf firstPeer.peerAlias = .ok s' ∧ 5 ∈ s'.openFds ∧ 6 ∉ s'.openFds ∧
      s'.mmAli4sock.get (s.heap.path secondPeer.peerAlias) = none ∧
      s'.config.mmConnectedPeers (s.heap.path secondPeer.peerAlias) = none := by
  have hexecute : Lib.execute (next localIpPort) localServer twoPeers = some _ := rfl
  refine ⟨_, _, _, hexecute, Lib.reachable_of_execute hexecute,
    ⟨rfl, rfl, rfl, by decide⟩, ⟨rfl, rfl, rfl, by decide⟩, rfl, rfl, ?_, ?_, ?_, ?_⟩
  · decide
  · decide
  · rfl
  · rfl

end TcpProvider

end CommonCommunicator
