import CommonCommunicator.Provider.TcpEffects

/-!
# Made aliases

The containers of a provider and its loopers hold references to alias objects.
Whatever is renamed, each reference is that of an object that has been made, so
that a new object is none of them.
-/

namespace CommonCommunicator

open Lib

namespace TcpProvider

variable {Address : Type} {s s' : TcpProvider Address}

/-- Every alias that is stored, listed or received for has been made. -/
structure Made (s : TcpProvider Address) : Prop where
  addr : s.mmAli4addr.Within s.heap.nextRef
  looper : ∀ (id : Nat) (looper : CLooper), s.loopers[id]? = some looper →
    looper.peerAlias < s.heap.nextRef
  listed : ∀ pvdType, ∀ ref ∈ s.config.mmPvds pvdType, ref < s.heap.nextRef

end TcpProvider

namespace CConfigAliases

variable {config config' : CConfigAliases} {heap : AliasHeap} {bound : AliasRef}

/-- Only the given alias can be new in the lists. -/
theorem appendPvdContext_listed {appPath : Bytes} {pvdType : ProviderType} {context : AliasRef}
    (h : ∀ t, ∀ ref ∈ config.mmPvds t, ref < bound) (hmade : context < bound) :
    ∀ t, ∀ ref ∈ (config.appendPvdContext heap appPath pvdType context).mmPvds t, ref < bound := by
  obtain ⟨-, hsame | ⟨-, hpvds, -⟩⟩ := config.appendPvdContext_cases heap appPath pvdType context
  · rw [hsame]
    exact h
  · intro t ref hmem
    rw [hpvds, Function.update_apply] at hmem
    split at hmem
    · obtain hold | hnew := List.mem_append.mp hmem
      · exact h pvdType ref hold
      · rw [List.mem_singleton.mp hnew]
        exact hmade
    · exact h t ref hmem

theorem registConnectedPeer_listed {peerPvd myPvd : AliasRef} {res : Bool}
    (h : ∀ t, ∀ ref ∈ config.mmPvds t, ref < bound) (hmade : peerPvd < bound)
    (hcall : config.registConnectedPeer heap peerPvd myPvd = .ok (res, config')) :
    ∀ t, ∀ ref ∈ config'.mmPvds t, ref < bound := by
  obtain ⟨mid, hregist, hrest⟩ := bind_eq_ok.mp hcall
  rw [registProvider_eq] at hregist
  cases hregist
  dsimp only at hrest
  split at hrest
  · cases hrest
    exact appendPvdContext_listed h hmade
  · cases hrest
    exact appendPvdContext_listed h hmade

theorem unregistConnectedPeer_listed {peerFullPath myPvdFullPath : Bytes}
    (hcall : config.unregistConnectedPeer heap peerFullPath myPvdFullPath = .ok config') :
    config'.mmPvds = config.mmPvds := by
  rw [unregistConnectedPeer] at hcall
  split at hcall
  · cases hcall
  · split at hcall
    · cases hcall
      rfl
    · cases hcall
      rfl

end CConfigAliases

namespace TcpProvider

variable {Address : Type} {s s' : TcpProvider Address}

namespace Made

theorem withConfig (h : s.Made) {config : CConfigAliases}
    (heffect : ConfigEffect s.heap s.pvdAlias s.config config) :
    Made { s with config := config } := by
  refine ⟨h.addr, h.looper, ?_⟩
  cases heffect with
  | same => exact h.listed
  | regist made call => exact CConfigAliases.registConnectedPeer_listed h.listed made call
  | unregist call =>
      dsimp only
      rw [CConfigAliases.unregistConnectedPeer_listed call]
      exact h.listed

/-- Sockets, callbacks and descriptors hold no alias. -/
theorem withSock (h : s.Made) (sock : CAliasAddr Int) (available : Int) (fds : Finset Int)
    (callbacks : List ConnectionCallback) :
    Made { s with
      mmAli4sock := sock
      availableSockfd := available
      openFds := fds
      callbacks := callbacks } := ⟨h.addr, h.looper, h.listed⟩

theorem withNewAlias (h : s.Made) (pvd : IAliasPVD) :
    Made { s with heap := s.heap.make pvd } where
  addr address ref hstored := Nat.lt_succ_of_lt (h.addr address ref hstored)
  looper id looper hlooper := Nat.lt_succ_of_lt (h.looper id looper hlooper)
  listed pvdType ref hmem := Nat.lt_succ_of_lt (h.listed pvdType ref hmem)

/-- A looper may change its phase and what it has captured. -/
theorem withLooper (h : s.Made) {id : Nat} {looper looper' : CLooper}
    (hlooper : s.loopers[id]? = some looper) (halias : looper'.peerAlias = looper.peerAlias) :
    Made { s with loopers := s.loopers.set id looper' } := by
  refine ⟨h.addr, ?_, h.listed⟩
  intro id' found hfound
  by_cases hid : id = id'
  · subst hid
    dsimp only at hfound
    rw [List.getElem?_set_self (List.getElem?_eq_some_iff.mp hlooper).1] at hfound
    cases hfound
    rw [halias]
    exact h.looper id looper hlooper
  · dsimp only at hfound
    rw [List.getElem?_set_ne hid] at hfound
    exact h.looper id' found hfound

theorem handleConnection (h : s.Made) {appPath pvdPath : Bytes} {flag : ConnectionState}
    {fromPeer : Option (Bytes × Bytes)}
    (hstep : s.handleConnection appPath pvdPath flag fromPeer = .ok s') : s'.Made := by
  obtain ⟨config, callbacks, rfl, heffect⟩ := handleConnection_effect hstep
  exact (h.withConfig heffect).withSock s.mmAli4sock s.availableSockfd s.openFds callbacks

theorem disconnection (h : s.Made) {path : Bytes} (hstep : s.disconnection path = .ok s') :
    s'.Made := by
  obtain ⟨-, rfl⟩ | ⟨fd, sock, available, config, -, -, heffect, rfl⟩ := disconnection_effect hstep
  · exact h
  · exact (h.withConfig heffect).withSock sock available _ s.callbacks

theorem threadCreate (h : s.Made) {peerAlias : AliasRef} {spawned created : Bool}
    (hmade : peerAlias < s.heap.nextRef)
    (hstep : s.threadCreate peerAlias spawned = (created, s')) : s'.Made := by
  obtain rfl | ⟨-, -, rfl⟩ := threadCreate_effect hstep
  · exact h
  · refine ⟨h.addr, ?_, h.listed⟩
    intro id looper hlooper
    dsimp only at hlooper
    rw [List.getElem?_append] at hlooper
    split at hlooper
    · exact h.looper id looper hlooper
    · obtain rfl := List.mem_singleton.mp (List.mem_of_getElem? hlooper)
      exact hmade

theorem zombiThreadMigrate (h : s.Made) (peerAlias : AliasRef) :
    (s.zombiThreadMigrate peerAlias).Made := by
  rw [TcpProvider.zombiThreadMigrate]
  split
  · exact h
  · exact ⟨h.addr, h.looper, h.listed⟩

theorem storeConnection (h : s.Made) {peerAlias : Option AliasRef} {fd : Int}
    {spawned created : Bool} (hmade : ∀ ref, peerAlias = some ref → ref < s.heap.nextRef)
    (hstep : s.storeConnection peerAlias fd spawned = .ok (created, s')) : s'.Made := by
  obtain ⟨ref, isNew, sock, mid, halias, -, hcreate, hend⟩ := storeConnection_effect hstep
  have hstored := h.withSock sock s.availableSockfd s.openFds s.callbacks
  have hmid : mid.Made := hstored.threadCreate (hmade ref halias) hcreate
  obtain ⟨-, rfl⟩ | ⟨-, hdisconnect⟩ := hend
  · exact hmid
  · exact hmid.disconnection hdisconnect

theorem giveBack (h : s.Made) (fd : Int) : (s.giveBack fd).Made := by
  obtain ⟨available, fds, heq, -⟩ := giveBack_effect s fd
  rw [heq]
  exact h.withSock s.mmAli4sock available fds s.callbacks

variable [DecidableEq Address] {getIpPort : Address → Outcome (Option (Bytes × Nat))}

theorem withAddr (h : s.Made) {ref : AliasRef} {address : Option Address}
    {connectFlag res isNew : Bool} {addr : CAliasAddr Address} (href : ref < s.heap.nextRef)
    (hinsert : s.mmAli4addr.insert s.heap (some ref) address connectFlag = .ok (res, isNew, addr)) :
    Made { s with mmAli4addr := addr } :=
  ⟨CAliasAddr.insert_within h.addr href hinsert, h.looper, h.listed⟩

theorem connectPeer (h : s.Made) {fd res : Int} {path : Bytes} {results : ConnectResults}
    (hstep : s.connectPeer fd path results = .ok (res, s')) : s'.Made := by
  obtain ⟨-, rfl⟩ | ⟨destaddr, created, mid, -, -, hstore, hend⟩ := connectPeer_effect hstep
  · exact h.giveBack fd
  · have hmid := h.storeConnection (fun ref hstored => h.addr destaddr ref hstored) hstore
    obtain ⟨-, -, rfl⟩ | ⟨-, -, rfl⟩ := hend
    · exact hmid
    · exact hmid.giveBack fd

/-- The alias of an accepted peer has been made by then. -/
theorem makeClientId (h : s.Made) {newCliaddr : Address} {peerAlias : Option AliasRef}
    (hstep : makeClientId getIpPort s newCliaddr = .ok (peerAlias, s')) :
    s'.Made ∧ ∀ ref, peerAlias = some ref → ref < s'.heap.nextRef := by
  obtain ⟨rfl, rfl | ⟨ref, rfl, hstored⟩⟩ | ⟨pvd, res, isNew, addr, rfl, hinsert, rfl⟩ :=
    makeClientId_effect hstep
  · refine ⟨h, ?_⟩
    intro ref hnone
    cases hnone
  · refine ⟨h, ?_⟩
    intro ref' hsome
    cases hsome
    exact h.addr newCliaddr ref hstored
  · have hnew : s.heap.nextRef < (s.heap.make pvd).nextRef := Nat.lt_succ_self _
    refine ⟨(h.withNewAlias pvd).withAddr hnew hinsert, ?_⟩
    intro ref' hsome
    cases hsome
    exact hnew

omit [DecidableEq Address] in
theorem updatePeerAlias (h : s.Made) {peerAlias : AliasRef} {captured captured' fullPath : Bytes}
    (hmade : peerAlias < s.heap.nextRef)
    (hstep : s.updatePeerAlias peerAlias captured fullPath = .ok (captured', s')) :
    s'.Made ∧ s'.loopers = s.loopers := by
  obtain ⟨-, -, rfl⟩ | ⟨newApp, newPvd, config, sock, found, isNew, sock', config', callbacks,
    -, hunregist, -, -, hregist, -, rfl⟩ := updatePeerAlias_effect hstep
  · exact ⟨h, rfl⟩
  · have hlisted : ∀ t, ∀ ref ∈ config.mmPvds t, ref < s.heap.nextRef := by
      obtain hcall | rfl := hunregist
      · rw [CConfigAliases.unregistConnectedPeer_listed hcall]
        exact h.listed
      · exact h.listed
    exact ⟨⟨h.addr, h.looper, CConfigAliases.registConnectedPeer_listed hlisted hmade hregist⟩, rfl⟩

omit [DecidableEq Address] in
theorem started (mode : ProviderMode) (sockfd : Int) (pvd : IAliasPVD) :
    (started Address mode sockfd pvd).Made := by
  refine ⟨?_, ?_, ?_⟩
  · intro address ref hstored
    cases hstored
  · intro id looper hlooper
    cases hlooper
  · apply CConfigAliases.appendPvdContext_listed
    · intro t ref hmem
      cases hmem
    · exact Nat.zero_lt_one

/-- What one step preserves. -/
theorem step (h : s.Made) {a : Action Address} (hstep : Step getIpPort s a s') : s'.Made := by
  obtain ⟨henabled, hperform⟩ := step_iff.mp hstep
  cases a with
  | appendPvdAlias pvd =>
      cases hperform
      have hnew := h.withNewAlias pvd
      exact ⟨hnew.addr, hnew.looper,
        CConfigAliases.appendPvdContext_listed hnew.listed (Nat.lt_succ_self s.heap.nextRef)⟩
  | updateAliasMapper pvd destaddr =>
      obtain ⟨res, isNew, addr, hinsert, rfl⟩ := updateAliasMapper_effect hperform
      exact h.withAddr (h.listed _ pvd henabled) hinsert
  | registerNewAlias peerAddr peerPort appPath pvdId =>
      obtain ⟨pvd, hmapped⟩ := registerNewAlias_effect hperform
      obtain ⟨res, isNew, addr, hinsert, rfl⟩ := updateAliasMapper_effect hmapped
      exact (h.withNewAlias pvd).withAddr (Nat.lt_succ_self s.heap.nextRef) hinsert
  | serverAccept newsockfd newCliaddr spawned =>
      obtain ⟨⟨threw, last⟩, haccept, rfl⟩ := map_eq_ok.mp hperform
      obtain ⟨-, rfl⟩ | ⟨-, peerAlias, mid, hclient, hend⟩ := serverAccept_effect haccept
      · exact h
      · have hopened := h.withSock s.mmAli4sock s.availableSockfd
          (insert newsockfd s.openFds) s.callbacks
        obtain ⟨hmid, hmade⟩ := hopened.makeClientId hclient
        obtain ⟨-, rfl⟩ | ⟨ref, created, rfl, hstore⟩ := hend
        · exact hmid
        · exact hmid.storeConnection hmade hstore
  | makeConnection peerFullPath results =>
      obtain ⟨⟨res, last⟩, hconnect, rfl⟩ := map_eq_ok.mp hperform
      have hopened := h.withSock s.mmAli4sock s.availableSockfd
        (insert results.newSockfd s.openFds) s.callbacks
      have hclient := h.withSock s.mmAli4sock 0 s.openFds s.callbacks
      obtain ⟨-, -, rfl⟩ | ⟨-, ⟨-, rfl⟩ | hpeer⟩ | ⟨-, -, ⟨-, -, -, rfl⟩ | ⟨-, hpeer⟩⟩ :=
        makeConnection_effect hconnect
      · exact h
      · exact hclient
      · exact hclient.connectPeer hpeer
      · exact hopened
      · exact hopened.connectPeer hpeer
  | receiverStart id =>
      obtain ⟨looper, last, hlooper, hprologue, rfl⟩ := receiverStart_effect hperform
      obtain ⟨-, config, hregist, rfl⟩ := runReceiverPrologue_effect hprologue
      have hregistered := h.withConfig (.regist (h.looper id looper hlooper) hregist)
      exact (hregistered.withSock s.mmAli4sock s.availableSockfd s.openFds _).withLooper hlooper rfl
  | updatePeerAlias id fullPath =>
      obtain ⟨looper, captured, mid, hlooper, hrename, rfl⟩ := renameBy_effect hperform
      obtain ⟨hmid, hloopers⟩ := h.updatePeerAlias (h.looper id looper hlooper) hrename
      have hget : mid.loopers[id]? = some looper := by
        rw [hloopers]
        exact hlooper
      exact hmid.withLooper hget rfl
  | receiverEnd id =>
      obtain ⟨looper, mid, last, hlooper, hreport, hdisconnect, rfl⟩ := receiverEnd_effect hperform
      have hlast := (h.handleConnection hreport).disconnection hdisconnect
      have hget : (last.zombiThreadMigrate looper.peerAlias).loopers[id]? = some looper := by
        rw [zombiThreadMigrate_loopers, disconnection_loopers hdisconnect,
          handleConnection_loopers hreport]
        exact hlooper
      exact (hlast.zombiThreadMigrate looper.peerAlias).withLooper hget rfl
  | disconnection peerFullPath => exact h.disconnection hperform

end Made

end TcpProvider

end CommonCommunicator
