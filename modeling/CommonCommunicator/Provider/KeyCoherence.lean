import CommonCommunicator.Provider.TcpEffects

/-!
# Aliases under their own names

Five containers share the alias objects of a provider, and all but the lists
file them by name. Accepting, connecting, registering and disconnecting use the
present names. A rename changes the name of an object and files it again in one
of the containers only; the names therefore agree as long as no rename changes
one.
-/

namespace CommonCommunicator

open Lib

namespace TcpProvider

variable {Address : Type} {s s' : TcpProvider Address}

/-- Every stored alias is filed under its own present name, and listed once. -/
structure FiledByName (s : TcpProvider Address) : Prop where
  addr : s.mmAli4addr.Filed s.heap
  sock : s.mmAli4sock.Filed s.heap
  looper : ∀ path id, s.mLooperPool path = some id →
    ∃ looper, s.loopers[id]? = some looper ∧ s.heap.path looper.peerAlias = path
  parent : ∀ appPath lists pvdType ref, s.config.mmPvdsMap appPath = some lists →
    ref ∈ lists pvdType → (s.heap.objects ref).pathParent = appPath
  once : ∀ pvdType, (s.config.mmPvds pvdType).Nodup

/-- The invariant behind `FiledByName`: the stored references have been made, and a listed alias
is listed for its own application. -/
structure KeyCoherent (s : TcpProvider Address) : Prop where
  addr : s.mmAli4addr.Filed s.heap
  sock : s.mmAli4sock.Filed s.heap
  looper : ∀ path id, s.mLooperPool path = some id →
    ∃ looper, s.loopers[id]? = some looper ∧ s.heap.path looper.peerAlias = path
  config : s.config.Coherent s.heap
  addrMade : s.mmAli4addr.Within s.heap.nextRef
  sockMade : s.mmAli4sock.Within s.heap.nextRef
  looperMade : ∀ (id : Nat) (looper : CLooper), s.loopers[id]? = some looper →
    looper.peerAlias < s.heap.nextRef

/-- A rename that leaves the names of its alias as they are. -/
def KeepsName (s : TcpProvider Address) : Action Address → Prop
  | .updatePeerAlias id fullPath => ∀ looper ∈ s.loopers[id]?,
      ∀ target ∈ renameTarget looper.peerFullPath fullPath,
        target = ((s.heap.objects looper.peerAlias).pathParent,
          (s.heap.objects looper.peerAlias).name)
  | _ => True

namespace KeyCoherent

theorem filedByName (h : s.KeyCoherent) : s.FiledByName := by
  refine ⟨h.addr, h.sock, h.looper, ?_, h.config.nodup⟩
  intro appPath lists pvdType ref hlists hmem
  apply h.config.parent appPath pvdType ref
  rw [CConfigAliases.listing_of_map hlists]
  exact hmem

theorem withCoherent (h : s.KeyCoherent) {config : CConfigAliases}
    (hconfig : config.Coherent s.heap) : KeyCoherent { s with config := config } :=
  ⟨h.addr, h.sock, h.looper, hconfig, h.addrMade, h.sockMade, h.looperMade⟩

theorem withConfig (h : s.KeyCoherent) {config : CConfigAliases}
    (heffect : ConfigEffect s.heap s.pvdAlias s.config config) :
    KeyCoherent { s with config := config } := h.withCoherent (heffect.coherent h.config)

theorem withCallbacks (h : s.KeyCoherent) (callbacks : List ConnectionCallback) :
    KeyCoherent { s with callbacks := callbacks } :=
  ⟨h.addr, h.sock, h.looper, h.config, h.addrMade, h.sockMade, h.looperMade⟩

theorem withFds (h : s.KeyCoherent) (available : Int) (fds : Finset Int) :
    KeyCoherent { s with availableSockfd := available, openFds := fds } :=
  ⟨h.addr, h.sock, h.looper, h.config, h.addrMade, h.sockMade, h.looperMade⟩

/-- A new alias object leaves the others as they are. -/
theorem withNewAlias (h : s.KeyCoherent) (pvd : IAliasPVD) :
    KeyCoherent { s with heap := s.heap.make pvd } := by
  have hobjects : ∀ ref, ref < s.heap.nextRef →
      (s.heap.make pvd).objects ref = s.heap.objects ref :=
    fun ref hlt => AliasHeap.make_objects_of_lt pvd hlt
  refine ⟨h.addr.of_objects h.addrMade hobjects, h.sock.of_objects h.sockMade hobjects, ?_,
    h.config.congr rfl rfl hobjects (Nat.le_succ _), ?_, ?_, ?_⟩
  · intro path id hpool
    obtain ⟨looper, hlooper, rfl⟩ := h.looper path id hpool
    refine ⟨looper, hlooper, ?_⟩
    simp only [AliasHeap.path, hobjects _ (h.looperMade id looper hlooper)]
  · intro address ref hstored
    exact Nat.lt_succ_of_lt (h.addrMade address ref hstored)
  · intro address ref hstored
    exact Nat.lt_succ_of_lt (h.sockMade address ref hstored)
  · intro id looper hlooper
    exact Nat.lt_succ_of_lt (h.looperMade id looper hlooper)

/-- Storing a descriptor keeps the names. -/
theorem withSock (h : s.KeyCoherent) {ref : AliasRef} {fd : Option Int}
    {connectFlag res isNew : Bool} {sock : CAliasAddr Int} (href : ref < s.heap.nextRef)
    (hinsert : s.mmAli4sock.insert s.heap (some ref) fd connectFlag = .ok (res, isNew, sock)) :
    KeyCoherent { s with mmAli4sock := sock } :=
  ⟨h.addr, h.sock.insert hinsert, h.looper, h.config, h.addrMade,
    CAliasAddr.insert_within h.sockMade href hinsert, h.looperMade⟩

theorem withoutSock (h : s.KeyCoherent) {path : Bytes} {sock : CAliasAddr Int}
    (hremove : s.mmAli4sock.remove path = .ok sock) :
    KeyCoherent { s with mmAli4sock := sock } :=
  ⟨h.addr, h.sock.remove hremove, h.looper, h.config, h.addrMade,
    CAliasAddr.remove_within h.sockMade hremove, h.looperMade⟩

/-- A looper may change what it has captured, but not its alias. -/
theorem withLooper (h : s.KeyCoherent) {id : Nat} {looper looper' : CLooper}
    (hlooper : s.loopers[id]? = some looper) (halias : looper'.peerAlias = looper.peerAlias) :
    KeyCoherent { s with loopers := s.loopers.set id looper' } := by
  have hget : ∀ (id' : Nat) (found : CLooper), (s.loopers.set id looper')[id']? = some found →
      ∃ old : CLooper, s.loopers[id']? = some old ∧ found.peerAlias = old.peerAlias := by
    intro id' found hfound
    by_cases hid : id = id'
    · subst hid
      obtain rfl : looper' = found := by
        rw [List.getElem?_set_self (List.getElem?_eq_some_iff.mp hlooper).1] at hfound
        exact Option.some.inj hfound
      exact ⟨looper, hlooper, halias⟩
    · rw [List.getElem?_set_ne hid] at hfound
      exact ⟨found, hfound, rfl⟩
  refine ⟨h.addr, h.sock, ?_, h.config, h.addrMade, h.sockMade, ?_⟩
  · intro path id' hpool
    obtain ⟨old, hold, rfl⟩ := h.looper path id' hpool
    have hlt : id' < (s.loopers.set id looper').length := by
      rw [List.length_set]
      exact (List.getElem?_eq_some_iff.mp hold).1
    obtain ⟨old', hold', heq⟩ := hget id' _ (List.getElem?_eq_getElem hlt)
    obtain rfl : old = old' := Option.some.inj (hold.symm.trans hold')
    exact ⟨_, List.getElem?_eq_getElem hlt, by rw [heq]⟩
  · intro id' found hfound
    obtain ⟨old, hold, heq⟩ := hget id' found hfound
    rw [heq]
    exact h.looperMade id' old hold

theorem handleConnection (h : s.KeyCoherent) {appPath pvdPath : Bytes} {flag : ConnectionState}
    {fromPeer : Option (Bytes × Bytes)}
    (hstep : s.handleConnection appPath pvdPath flag fromPeer = .ok s') : s'.KeyCoherent := by
  obtain ⟨config, callbacks, rfl, heffect⟩ := handleConnection_effect hstep
  exact (h.withConfig heffect).withCallbacks callbacks

theorem disconnection (h : s.KeyCoherent) {path : Bytes}
    (hstep : s.disconnection path = .ok s') : s'.KeyCoherent := by
  obtain ⟨-, rfl⟩ | ⟨fd, sock, available, config, -, hremove, heffect, rfl⟩ :=
    disconnection_effect hstep
  · exact h
  · exact ((h.withoutSock hremove).withFds available _).withConfig heffect

/-- A new looper is filed under the path of its alias. -/
theorem threadCreate (h : s.KeyCoherent) {peerAlias : AliasRef} {spawned created : Bool}
    (hmade : peerAlias < s.heap.nextRef)
    (hstep : s.threadCreate peerAlias spawned = (created, s')) : s'.KeyCoherent := by
  obtain rfl | ⟨-, -, rfl⟩ := threadCreate_effect hstep
  · exact h
  · refine ⟨h.addr, h.sock, ?_, h.config, h.addrMade, h.sockMade, ?_⟩
    · intro path id hpool
      simp only [PartialMap.insert_apply] at hpool
      split at hpool
      · next hpath =>
          cases hpool
          exact ⟨_, List.getElem?_concat_length, hpath.symm⟩
      · obtain ⟨looper, hlooper, hpath⟩ := h.looper path id hpool
        refine ⟨looper, ?_, hpath⟩
        rw [List.getElem?_append_left (List.getElem?_eq_some_iff.mp hlooper).1]
        exact hlooper
    · intro id looper hlooper
      dsimp only at hlooper
      rw [List.getElem?_append] at hlooper
      split at hlooper
      · exact h.looperMade id looper hlooper
      · obtain rfl := List.mem_singleton.mp (List.mem_of_getElem? hlooper)
        exact hmade

theorem zombiThreadMigrate (h : s.KeyCoherent) (peerAlias : AliasRef) :
    (s.zombiThreadMigrate peerAlias).KeyCoherent := by
  rw [TcpProvider.zombiThreadMigrate]
  split
  · exact h
  · refine ⟨h.addr, h.sock, ?_, h.config, h.addrMade, h.sockMade, h.looperMade⟩
    intro path id hpool
    exact h.looper path id (PartialMap.of_erase_eq_some hpool).2

theorem storeConnection (h : s.KeyCoherent) {peerAlias : Option AliasRef} {fd : Int}
    {spawned created : Bool} (hmade : ∀ ref, peerAlias = some ref → ref < s.heap.nextRef)
    (hstep : s.storeConnection peerAlias fd spawned = .ok (created, s')) : s'.KeyCoherent := by
  obtain ⟨ref, isNew, sock, mid, halias, hinsert, hcreate, hend⟩ := storeConnection_effect hstep
  have hmid := (h.withSock (hmade ref halias) hinsert).threadCreate (hmade ref halias) hcreate
  obtain ⟨-, rfl⟩ | ⟨-, hdisconnect⟩ := hend
  · exact hmid
  · exact hmid.disconnection hdisconnect

theorem giveBack (h : s.KeyCoherent) (fd : Int) : (s.giveBack fd).KeyCoherent := by
  obtain ⟨available, fds, heq, -⟩ := giveBack_effect s fd
  rw [heq]
  exact h.withFds available fds

variable [DecidableEq Address] {getIpPort : Address → Outcome (Option (Bytes × Nat))}

/-- Storing an address keeps the names. -/
theorem withAddr (h : s.KeyCoherent) {ref : AliasRef} {address : Option Address}
    {connectFlag res isNew : Bool} {addr : CAliasAddr Address} (href : ref < s.heap.nextRef)
    (hinsert : s.mmAli4addr.insert s.heap (some ref) address connectFlag = .ok (res, isNew, addr)) :
    KeyCoherent { s with mmAli4addr := addr } :=
  ⟨h.addr.insert hinsert, h.sock, h.looper, h.config,
    CAliasAddr.insert_within h.addrMade href hinsert, h.sockMade, h.looperMade⟩

theorem connectPeer (h : s.KeyCoherent) {fd res : Int} {path : Bytes} {results : ConnectResults}
    (hstep : s.connectPeer fd path results = .ok (res, s')) : s'.KeyCoherent := by
  obtain ⟨-, rfl⟩ | ⟨destaddr, created, mid, -, -, hstore, hend⟩ := connectPeer_effect hstep
  · exact h.giveBack fd
  · have hmid := h.storeConnection (fun ref hstored => h.addrMade destaddr ref hstored) hstore
    obtain ⟨-, -, rfl⟩ | ⟨-, -, rfl⟩ := hend
    · exact hmid
    · exact hmid.giveBack fd

theorem makeConnection (h : s.KeyCoherent) {path : Bytes} {results : ConnectResults} {res : Int}
    (hstep : s.makeConnection path results = .ok (res, s')) : s'.KeyCoherent := by
  obtain ⟨-, -, rfl⟩ | ⟨-, ⟨-, rfl⟩ | hconnect⟩ | ⟨-, -, ⟨-, -, -, rfl⟩ | ⟨-, hconnect⟩⟩ :=
    makeConnection_effect hstep
  · exact h
  · exact h.withFds 0 s.openFds
  · exact (h.withFds 0 s.openFds).connectPeer hconnect
  · exact h.withFds s.availableSockfd _
  · exact (h.withFds s.availableSockfd _).connectPeer hconnect

/-- The alias of an accepted peer is stored for its address, or new. -/
theorem makeClientId (h : s.KeyCoherent) {newCliaddr : Address} {peerAlias : Option AliasRef}
    (hstep : makeClientId getIpPort s newCliaddr = .ok (peerAlias, s')) :
    s'.KeyCoherent ∧ ∀ ref, peerAlias = some ref → ref < s'.heap.nextRef := by
  obtain ⟨rfl, rfl | ⟨ref, rfl, hstored⟩⟩ | ⟨pvd, res, isNew, addr, rfl, hinsert, rfl⟩ :=
    makeClientId_effect hstep
  · exact ⟨h, fun ref hnone => nomatch hnone⟩
  · refine ⟨h, ?_⟩
    intro ref' hsome
    cases hsome
    exact h.addrMade newCliaddr ref hstored
  · have hnew : s.heap.nextRef < (s.heap.make pvd).nextRef := Nat.lt_succ_self _
    refine ⟨(h.withNewAlias pvd).withAddr hnew hinsert, ?_⟩
    intro ref' hsome
    cases hsome
    exact hnew

theorem serverAccept (h : s.KeyCoherent) {newsockfd : Int} {newCliaddr : Address}
    {spawned threw : Bool}
    (hstep : serverAccept getIpPort s newsockfd newCliaddr spawned = .ok (threw, s')) :
    s'.KeyCoherent := by
  obtain ⟨-, rfl⟩ | ⟨-, peerAlias, mid, hclient, hend⟩ := serverAccept_effect hstep
  · exact h
  · obtain ⟨hmid, hmade⟩ := (h.withFds s.availableSockfd _).makeClientId hclient
    obtain ⟨-, rfl⟩ | ⟨ref, created, rfl, hstore⟩ := hend
    · exact hmid
    · exact hmid.storeConnection hmade hstore

theorem updateAliasMapper (h : s.KeyCoherent) {newPvd : AliasRef} {destaddr : Address}
    (hmade : newPvd < s.heap.nextRef) (hstep : s.updateAliasMapper newPvd destaddr = .ok s') :
    s'.KeyCoherent := by
  obtain ⟨res, isNew, addr, hinsert, rfl⟩ := updateAliasMapper_effect hstep
  exact h.withAddr hmade hinsert

theorem registerNewAlias (h : s.KeyCoherent) {peerAddr : Address} {peerPort : Nat}
    {appPath pvdId : Bytes} (hstep : s.registerNewAlias peerAddr peerPort appPath pvdId = .ok s') :
    s'.KeyCoherent := by
  obtain ⟨pvd, hmapped⟩ := registerNewAlias_effect hstep
  exact (h.withNewAlias pvd).updateAliasMapper (Nat.lt_succ_self _) hmapped

omit [DecidableEq Address] in
theorem receiverStart (h : s.KeyCoherent) {id : Nat} (hstep : s.receiverStart id = .ok s') :
    s'.KeyCoherent := by
  obtain ⟨looper, last, hlooper, hprologue, rfl⟩ := receiverStart_effect hstep
  obtain ⟨-, config, hregist, rfl⟩ := runReceiverPrologue_effect hprologue
  have hcoherent := h.withConfig (.regist (h.looperMade id looper hlooper) hregist)
  exact (hcoherent.withCallbacks _).withLooper hlooper rfl

omit [DecidableEq Address] in
theorem receiverEnd (h : s.KeyCoherent) {id : Nat} (hstep : s.receiverEnd id = .ok s') :
    s'.KeyCoherent := by
  obtain ⟨looper, mid, last, hlooper, hreport, hdisconnect, rfl⟩ := receiverEnd_effect hstep
  have hcoherent := ((h.handleConnection hreport).disconnection hdisconnect).zombiThreadMigrate
    looper.peerAlias
  have hget : (last.zombiThreadMigrate looper.peerAlias).loopers[id]? = some looper := by
    rw [zombiThreadMigrate_loopers, disconnection_loopers hdisconnect,
      handleConnection_loopers hreport]
    exact hlooper
  exact hcoherent.withLooper hget rfl

omit [DecidableEq Address] in
theorem appendPvdAlias (h : s.KeyCoherent) (pvd : IAliasPVD) :
    (s.appendPvdAlias pvd).KeyCoherent := by
  have hnew := h.withNewAlias pvd
  have hconfig := hnew.config.appendPvdContext pvd.type (Nat.lt_succ_self s.heap.nextRef)
  rw [AliasHeap.make_objects_nextRef] at hconfig
  exact hnew.withCoherent hconfig

omit [DecidableEq Address] in
/-- A rename to the names that the alias has files the connection again under the same key. -/
theorem updatePeerAlias (h : s.KeyCoherent) {peerAlias : AliasRef}
    {captured captured' fullPath : Bytes} (hmade : peerAlias < s.heap.nextRef)
    (hkeep : ∀ target ∈ renameTarget captured fullPath,
      target = ((s.heap.objects peerAlias).pathParent, (s.heap.objects peerAlias).name))
    (hstep : s.updatePeerAlias peerAlias captured fullPath = .ok (captured', s')) :
    s'.KeyCoherent ∧ s'.loopers = s.loopers := by
  obtain ⟨-, -, rfl⟩ | ⟨newApp, newPvd, config, sock, found, isNew, sock', config', callbacks,
    htarget, hunregist, hremove, hinsert, hregist, -, rfl⟩ := updatePeerAlias_effect hstep
  · exact ⟨h, rfl⟩
  · obtain ⟨rfl, rfl⟩ := Prod.mk.inj (hkeep (newApp, newPvd) htarget)
    rw [AliasHeap.update_self] at hinsert hregist ⊢
    have hunregisted : KeyCoherent { s with config := config } := by
      obtain hcall | rfl := hunregist
      · exact h.withConfig (.unregist hcall)
      · exact h
    have hsock := (hunregisted.withoutSock hremove).withSock hmade hinsert
    have hregisted := hsock.withConfig (.regist hmade hregist)
    exact ⟨hregisted.withCallbacks callbacks, rfl⟩

omit [DecidableEq Address] in
theorem renameBy (h : s.KeyCoherent) {id : Nat} {fullPath : Bytes}
    (hkeep : s.KeepsName (.updatePeerAlias id fullPath))
    (hstep : s.renameBy id fullPath = .ok s') : s'.KeyCoherent := by
  obtain ⟨looper, captured, mid, hlooper, hrename, rfl⟩ := renameBy_effect hstep
  obtain ⟨hmid, hloopers⟩ := h.updatePeerAlias (h.looperMade id looper hlooper)
    (hkeep looper hlooper) hrename
  have hget : mid.loopers[id]? = some looper := by
    rw [hloopers]
    exact hlooper
  exact hmid.withLooper hget rfl

omit [DecidableEq Address] in
/-- A provider that has just been started has its own alias listed and nothing else stored. -/
theorem started (mode : ProviderMode) (sockfd : Int) (pvd : IAliasPVD) :
    (started Address mode sockfd pvd).KeyCoherent := by
  refine ⟨CAliasAddr.filed_empty _, CAliasAddr.filed_empty _, ?_, ?_, ?_, ?_, ?_⟩
  · intro path id hpool
    cases hpool
  · have hmade : 0 < AliasHeap.nextRef { objects := fun _ => pvd, nextRef := 1 } := Nat.zero_lt_one
    exact (CConfigAliases.Coherent.empty _).appendPvdContext pvd.type hmade
  · intro address ref hstored
    cases hstored
  · intro address ref hstored
    cases hstored
  · intro id looper hlooper
    cases hlooper

/-- What one step preserves. -/
theorem step (h : s.KeyCoherent) {a : Action Address} (hkeep : s.KeepsName a)
    (hstep : Step getIpPort s a s') : s'.KeyCoherent := by
  obtain ⟨henabled, hperform⟩ := step_iff.mp hstep
  cases a with
  | appendPvdAlias pvd =>
      cases hperform
      exact h.appendPvdAlias pvd
  | updateAliasMapper pvd destaddr =>
      have hlisted := h.config.listed _ pvd henabled
      exact h.updateAliasMapper (h.config.made _ _ pvd hlisted) hperform
  | registerNewAlias peerAddr peerPort appPath pvdId => exact h.registerNewAlias hperform
  | serverAccept newsockfd newCliaddr spawned =>
      obtain ⟨⟨threw, last⟩, haccept, rfl⟩ := map_eq_ok.mp hperform
      exact h.serverAccept haccept
  | makeConnection peerFullPath results =>
      obtain ⟨⟨res, last⟩, hconnect, rfl⟩ := map_eq_ok.mp hperform
      exact h.makeConnection hconnect
  | receiverStart id => exact h.receiverStart hperform
  | updatePeerAlias id fullPath => exact h.renameBy hkeep hperform
  | receiverEnd id => exact h.receiverEnd hperform
  | disconnection peerFullPath => exact h.disconnection hperform

end KeyCoherent

/-- In every run whose renames keep the names, every alias is filed under its own name. -/
theorem filed_by_name [DecidableEq Address]
    (getIpPort : Address → Outcome (Option (Bytes × Nat))) {mode : ProviderMode} {sockfd : Int}
    {pvd : IAliasPVD}
    (run : GuardedRun (Step getIpPort) KeepsName (started Address mode sockfd pvd) s) :
    s.FiledByName := by
  have hcoherent : s.KeyCoherent :=
    run.invariant (.started mode sockfd pvd) fun _ _ _ h hkeep hstep => h.step hkeep hstep
  exact hcoherent.filedByName

/-- A peer at port 80 connects, and one of its messages has the owner `/127.0.0.1:80`, which is
read as the name that it has already. -/
def sameName : List (Action Nat) :=
  [.serverAccept 5 80 true, .receiverStart 0,
    .updatePeerAlias 0
      [0x2F, 0x31, 0x32, 0x37, 0x2E, 0x30, 0x2E, 0x30, 0x2E, 0x31, 0x3A, 0x38, 0x30],
    .receiverEnd 0]

theorem sameName_filed_by_name :
    ∃ s, Lib.execute (next localIpPort) localServer sameName = some s ∧ s.FiledByName := by
  obtain ⟨s, hs⟩ :=
    Option.isSome_iff_exists.mp
      (by decide : (Lib.execute (next localIpPort) localServer sameName).isSome = true)
  refine ⟨s, hs, filed_by_name localIpPort (.execute .start hs ?_)⟩
  refine ⟨trivial, trivial, ?_, trivial, trivial⟩
  rintro looper ⟨⟩ target ⟨⟩
  rfl

/-- A peer at port 80 connects and names itself `a/b`. -/
def otherName : List (Action Nat) :=
  [.serverAccept 5 80 true, .receiverStart 0, .updatePeerAlias 0 [0x61, 0x2F, 0x62]]

/-- Its looper, its address and its application are still filed under the old name. -/
theorem otherName_not_filed :
    ∃ s, Lib.execute (next localIpPort) localServer otherName = some s ∧
      Reachable (Step localIpPort) localServer s ∧ ¬s.FiledByName := by
  have hexecute : Lib.execute (next localIpPort) localServer otherName = some _ := rfl
  refine ⟨_, hexecute, Lib.reachable_of_execute hexecute, ?_⟩
  intro hfiled
  obtain ⟨looper, ⟨⟩, hpath⟩ := hfiled.looper
    [0x31, 0x32, 0x37, 0x2E, 0x30, 0x2E, 0x30, 0x2E, 0x31, 0x3A, 0x38, 0x30] 0 rfl
  revert hpath
  decide

end TcpProvider

end CommonCommunicator
