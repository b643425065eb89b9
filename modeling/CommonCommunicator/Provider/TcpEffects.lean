import CommonCommunicator.Provider.TcpRun

/-!
# What the operations of a TCP provider change

Each operation is described once by the components that it changes and by what
it has done to them, so that invariants need not open it again.
-/

namespace CommonCommunicator

open Lib

namespace TcpProvider

variable {Address : Type} {s s' : TcpProvider Address}

/-- What the bookkeeping of connected peers has made of the alias manager. -/
inductive ConfigEffect (heap : AliasHeap) (pvdAlias : AliasRef) (config : CConfigAliases) :
    CConfigAliases → Prop
  | same : ConfigEffect heap pvdAlias config config
  | regist {peerAlias : AliasRef} {res : Bool} {config' : CConfigAliases}
      (made : peerAlias < heap.nextRef)
      (call : config.registConnectedPeer heap peerAlias pvdAlias = .ok (res, config')) :
      ConfigEffect heap pvdAlias config config'
  | unregist {path : Bytes} {config' : CConfigAliases}
      (call : config.unregistConnectedPeer heap path (heap.path pvdAlias) = .ok config') :
      ConfigEffect heap pvdAlias config config'

theorem ConfigEffect.coherent {heap : AliasHeap} {pvdAlias : AliasRef}
    {config config' : CConfigAliases} (h : ConfigEffect heap pvdAlias config config')
    (hcoherent : config.Coherent heap) : config'.Coherent heap := by
  cases h with
  | same => exact hcoherent
  | regist made call => exact hcoherent.registConnectedPeer made call
  | unregist call => exact hcoherent.unregistConnectedPeer call

/-- An exception of the alias manager leaves it as it was. -/
theorem registConnectedPeer_cases {peerAlias : AliasRef} {res : Bool}
    (h : s.registConnectedPeer peerAlias = .ok (res, s')) :
    ∃ config, s' = { s with config := config } ∧
      (s.config.registConnectedPeer s.heap peerAlias s.pvdAlias = .ok (res, config) ∨
        res = false ∧ config = s.config) := by
  rw [TcpProvider.registConnectedPeer] at h
  cases hcall : s.config.registConnectedPeer s.heap peerAlias s.pvdAlias with
  | error f =>
      cases f with
      | assertion => simp [hcall, catching] at h
      | undefined => simp [hcall, catching] at h
      | thrown e =>
          obtain ⟨rfl, rfl⟩ : false = res ∧ s = s' := by simpa [hcall, catching] using h
          exact ⟨s.config, rfl, Or.inr ⟨rfl, rfl⟩⟩
  | ok r =>
      obtain ⟨res', config⟩ := r
      obtain ⟨rfl, rfl⟩ : res' = res ∧ _ = s' := by simpa [hcall] using h
      exact ⟨config, rfl, Or.inl rfl⟩

theorem unregistConnectedPeer_cases {path : Bytes} (h : s.unregistConnectedPeer path = .ok s') :
    ∃ config, s' = { s with config := config } ∧
      (s.config.unregistConnectedPeer s.heap path (s.heap.path s.pvdAlias) = .ok config ∨
        config = s.config) := by
  rw [TcpProvider.unregistConnectedPeer] at h
  cases hcall : s.config.unregistConnectedPeer s.heap path (s.heap.path s.pvdAlias) with
  | error f =>
      cases f with
      | assertion => simp [hcall, catching] at h
      | undefined => simp [hcall, catching] at h
      | thrown e =>
          obtain rfl : s = s' := by simpa [hcall, catching] using h
          exact ⟨s.config, rfl, Or.inr rfl⟩
  | ok config =>
      obtain rfl : _ = s' := by simpa [hcall] using h
      exact ⟨config, rfl, Or.inl rfl⟩

theorem registConnectedPeer_effect {peerAlias : AliasRef} {res : Bool}
    (hmade : peerAlias < s.heap.nextRef) (h : s.registConnectedPeer peerAlias = .ok (res, s')) :
    ∃ config, s' = { s with config := config } ∧
      ConfigEffect s.heap s.pvdAlias s.config config := by
  obtain ⟨config, rfl, hcall | ⟨-, rfl⟩⟩ := registConnectedPeer_cases h
  · exact ⟨config, rfl, .regist hmade hcall⟩
  · exact ⟨s.config, rfl, .same⟩

theorem unregistConnectedPeer_effect {path : Bytes} (h : s.unregistConnectedPeer path = .ok s') :
    ∃ config, s' = { s with config := config } ∧
      ConfigEffect s.heap s.pvdAlias s.config config := by
  obtain ⟨config, rfl, hcall | rfl⟩ := unregistConnectedPeer_cases h
  · exact ⟨config, rfl, .unregist hcall⟩
  · exact ⟨s.config, rfl, .same⟩

theorem handleConnection_effect {appPath pvdPath : Bytes} {flag : ConnectionState}
    {fromPeer : Option (Bytes × Bytes)}
    (h : s.handleConnection appPath pvdPath flag fromPeer = .ok s') :
    ∃ config callbacks, s' = { s with config := config, callbacks := callbacks } ∧
      ConfigEffect s.heap s.pvdAlias s.config config := by
  rw [handleConnection] at h
  split at h
  · obtain ⟨mid, hmid, hrest⟩ := bind_eq_ok.mp h
    cases hrest
    obtain ⟨config, rfl, heffect⟩ := unregistConnectedPeer_effect hmid
    exact ⟨config, _, rfl, heffect⟩
  · cases h
    exact ⟨s.config, _, rfl, .same⟩

theorem releaseSelfSockfd_effect (s : TcpProvider Address) (fd : Int) :
    ∃ available, s.releaseSelfSockfd fd = { s with availableSockfd := available } := by
  rw [releaseSelfSockfd]
  split
  · exact ⟨_, rfl⟩
  · exact ⟨s.availableSockfd, rfl⟩

@[simp] theorem releaseSelfSockfd_callbacks (s : TcpProvider Address) (fd : Int) :
    (s.releaseSelfSockfd fd).callbacks = s.callbacks := by
  obtain ⟨available, heq⟩ := releaseSelfSockfd_effect s fd
  rw [heq]

theorem giveBack_effect (s : TcpProvider Address) (fd : Int) :
    ∃ available fds, s.giveBack fd = { s with availableSockfd := available, openFds := fds } ∧
      (s.mode ≠ .client → fds = s.openFds.erase fd) := by
  rw [giveBack]
  split
  · next hclient =>
      obtain ⟨available, heq⟩ := releaseSelfSockfd_effect s fd
      exact ⟨available, s.openFds, heq, fun hne => absurd hclient hne⟩
  · exact ⟨s.availableSockfd, _, rfl, fun _ => rfl⟩

@[simp] theorem handleConnection_of_ne {appPath pvdPath : Bytes} {flag : ConnectionState}
    {fromPeer : Option (Bytes × Bytes)} (hflag : flag ≠ .disconnected) :
    s.handleConnection appPath pvdPath flag fromPeer =
      .ok (s.reportConnection appPath pvdPath flag fromPeer) := if_neg hflag

theorem giveBack_mode (s : TcpProvider Address) (fd : Int) : (s.giveBack fd).mode = s.mode := by
  obtain ⟨available, fds, heq, -⟩ := giveBack_effect s fd
  rw [heq]

theorem giveBack_sock (s : TcpProvider Address) (fd : Int) :
    (s.giveBack fd).mmAli4sock = s.mmAli4sock := by
  obtain ⟨available, fds, heq, -⟩ := giveBack_effect s fd
  rw [heq]

/-- `disconnection` closes the descriptor that it finds under the path and removes the entry. -/
theorem disconnection_effect {path : Bytes} (h : s.disconnection path = .ok s') :
    (s.mmAli4sock.get path = none ∧ s' = s) ∨
      ∃ fd sock available config, s.mmAli4sock.get path = some fd ∧
        s.mmAli4sock.remove path = .ok sock ∧
        ConfigEffect s.heap s.pvdAlias s.config config ∧
        s' = { s with
          openFds := s.openFds.erase fd
          mmAli4sock := sock
          availableSockfd := available
          config := config } := by
  rw [disconnection] at h
  cases hget : s.mmAli4sock.get path with
  | none =>
      obtain rfl : s = s' := by simpa [hget] using h
      exact Or.inl ⟨rfl, rfl⟩
  | some fd =>
      rw [hget] at h
      obtain ⟨sock, hremove, hrest⟩ := bind_eq_ok.mp h
      dsimp only at hrest
      split at hrest
      · obtain ⟨available, heq⟩ :=
          releaseSelfSockfd_effect { s.close fd with mmAli4sock := sock } fd
        rw [heq] at hrest
        obtain ⟨config, rfl, heffect⟩ := unregistConnectedPeer_effect hrest
        exact Or.inr ⟨fd, sock, available, config, rfl, hremove, heffect, rfl⟩
      · obtain ⟨config, rfl, heffect⟩ := unregistConnectedPeer_effect hrest
        exact Or.inr ⟨fd, sock, s.availableSockfd, config, rfl, hremove, heffect, rfl⟩

theorem handleConnection_loopers {appPath pvdPath : Bytes} {flag : ConnectionState}
    {fromPeer : Option (Bytes × Bytes)}
    (h : s.handleConnection appPath pvdPath flag fromPeer = .ok s') : s'.loopers = s.loopers := by
  obtain ⟨config, callbacks, rfl, -⟩ := handleConnection_effect h
  rfl

theorem disconnection_loopers {path : Bytes} (h : s.disconnection path = .ok s') :
    s'.loopers = s.loopers := by
  obtain ⟨-, rfl⟩ | ⟨fd, sock, available, config, -, -, -, rfl⟩ := disconnection_effect h
  · rfl
  · rfl

theorem disconnection_mode {path : Bytes} (h : s.disconnection path = .ok s') :
    s'.mode = s.mode := by
  obtain ⟨-, rfl⟩ | ⟨fd, sock, available, config, -, -, -, rfl⟩ := disconnection_effect h
  · rfl
  · rfl

@[simp] theorem zombiThreadMigrate_callbacks (s : TcpProvider Address) (peerAlias : AliasRef) :
    (s.zombiThreadMigrate peerAlias).callbacks = s.callbacks := by
  rw [zombiThreadMigrate]
  split
  · rfl
  · rfl

@[simp] theorem zombiThreadMigrate_loopers (s : TcpProvider Address) (peerAlias : AliasRef) :
    (s.zombiThreadMigrate peerAlias).loopers = s.loopers := by
  rw [zombiThreadMigrate]
  split
  · rfl
  · rfl

/-- `thread_create` makes a looper, or finds one of the path, or fails. -/
theorem threadCreate_effect {peerAlias : AliasRef} {spawned created : Bool}
    (h : s.threadCreate peerAlias spawned = (created, s')) :
    s' = s ∨ created = true ∧ s.mLooperPool (s.heap.path peerAlias) = none ∧
      s' = { s with
        loopers := s.loopers ++ [{ peerAlias := peerAlias, phase := .created, peerFullPath := [] }]
        mLooperPool := s.mLooperPool.insert (s.heap.path peerAlias) s.loopers.length } := by
  rw [threadCreate] at h
  split at h
  · cases h
    exact Or.inl rfl
  · next hnone =>
      split at h
      · cases h
        exact Or.inr ⟨rfl, hnone, rfl⟩
      · cases h
        exact Or.inl rfl

theorem threadCreate_created {peerAlias : AliasRef} {spawned : Bool}
    (h : s.threadCreate peerAlias spawned = (true, s')) :
    s.mLooperPool (s.heap.path peerAlias) ≠ none ∨ spawned = true := by
  rw [threadCreate] at h
  split at h
  · next id hid =>
      rw [hid]
      exact Or.inl (Option.some_ne_none id)
  · split at h
    · next hspawned => exact Or.inr hspawned
    · cases h

/-- A new connection is filed; then its receiver is created, or it is disconnected again. -/
theorem storeConnection_effect {peerAlias : Option AliasRef} {fd : Int} {spawned created : Bool}
    (h : s.storeConnection peerAlias fd spawned = .ok (created, s')) :
    ∃ ref isNew sock mid, peerAlias = some ref ∧
      s.mmAli4sock.insert s.heap (some ref) (some fd) true = .ok (true, isNew, sock) ∧
      { s with mmAli4sock := sock }.threadCreate ref spawned = (created, mid) ∧
      (created = true ∧ s' = mid ∨
        created = false ∧ mid.disconnection (mid.heap.path ref) = .ok s') := by
  obtain ⟨⟨res, isNew, sock⟩, hinsert, hasserted⟩ := bind_eq_ok.mp h
  obtain ⟨⟨⟩, hres, hrest⟩ := bind_eq_ok.mp hasserted
  obtain rfl : res = true := by simpa using hres
  cases peerAlias with
  | none => cases hrest
  | some ref =>
      dsimp only at hrest
      cases hcreate : { s with mmAli4sock := sock }.threadCreate ref spawned with
      | mk created' mid =>
          rw [hcreate] at hrest
          refine ⟨ref, isNew, sock, mid, rfl, hinsert, ?_⟩
          cases created' with
          | true =>
              obtain ⟨rfl, rfl⟩ : true = created ∧ mid = s' := by simpa using hrest
              exact ⟨hcreate, Or.inl ⟨rfl, rfl⟩⟩
          | false =>
              simp only [Bool.false_eq_true, if_false] at hrest
              obtain ⟨last, hlast, hend⟩ := bind_eq_ok.mp hrest
              obtain ⟨rfl, rfl⟩ : false = created ∧ last = s' := by simpa using hend
              exact ⟨hcreate, Or.inr ⟨rfl, hlast⟩⟩

/-- `make_connection` gives its socket back unless the connection could be made and stored. -/
theorem connectPeer_effect [DecidableEq Address] {fd res : Int} {path : Bytes}
    {results : ConnectResults} (h : s.connectPeer fd path results = .ok (res, s')) :
    (res = -1 ∧ s' = s.giveBack fd) ∨
      ∃ destaddr created mid, s.mmAli4addr.get path = some destaddr ∧ results.connected = true ∧
        s.storeConnection (s.mmAli4addr.getAlias destaddr) fd results.spawned =
          .ok (created, mid) ∧
        (created = true ∧ res = fd ∧ s' = mid ∨
          created = false ∧ res = -1 ∧ s' = mid.giveBack fd) := by
  rw [connectPeer] at h
  cases hget : s.mmAli4addr.get path with
  | none =>
      obtain ⟨rfl, rfl⟩ : -1 = res ∧ _ = s' := by simpa [hget] using h
      exact Or.inl ⟨rfl, rfl⟩
  | some destaddr =>
      simp only [hget] at h
      split at h
      · next hconnected =>
          obtain ⟨⟨created, mid⟩, hstore, hend⟩ := bind_eq_ok.mp h
          refine Or.inr ⟨destaddr, created, mid, rfl, hconnected, hstore, ?_⟩
          cases created with
          | true =>
              obtain ⟨rfl, rfl⟩ : fd = res ∧ mid = s' := by simpa using hend
              exact Or.inl ⟨rfl, rfl, rfl⟩
          | false =>
              obtain ⟨rfl, rfl⟩ : -1 = res ∧ mid.giveBack fd = s' := by simpa using hend
              exact Or.inr ⟨rfl, rfl, rfl⟩
      · obtain ⟨rfl, rfl⟩ : -1 = res ∧ s.giveBack fd = s' := by simpa using h
        exact Or.inl ⟨rfl, rfl⟩

/-- The socket of `make_connection` is a new one, or that of a client if it is available. -/
theorem makeConnection_effect [DecidableEq Address] {res : Int} {path : Bytes}
    {results : ConnectResults} (h : s.makeConnection path results = .ok (res, s')) :
    (s.mode = .none ∧ res = -1 ∧ s' = s) ∨
      (s.mode = .client ∧
        (res = 0 ∧ s' = { s with availableSockfd := 0 } ∨
          { s with availableSockfd := 0 }.connectPeer s.availableSockfd path results =
            .ok (res, s'))) ∨
      (s.mode = .both ∨ s.mode = .server) ∧ 0 < results.newSockfd ∧
        (s.providerType = .transUdsTCP ∧ results.bound = false ∧ res = -1 ∧
            s' = s.opened results.newSockfd ∨
          (s.providerType ≠ .transUdsTCP ∨ results.bound = true) ∧
            (s.opened results.newSockfd).connectPeer results.newSockfd path results =
              .ok (res, s')) := by
  have hnew : (do
        assertThat (0 < results.newSockfd)
        let s := s.opened results.newSockfd
        if s.providerType = .transUdsTCP ∧ results.bound = false then return (-1, s)
        else s.connectPeer results.newSockfd path results) = Except.ok (res, s') →
      0 < results.newSockfd ∧
        (s.providerType = .transUdsTCP ∧ results.bound = false ∧ res = -1 ∧
            s' = s.opened results.newSockfd ∨
          (s.providerType ≠ .transUdsTCP ∨ results.bound = true) ∧
            (s.opened results.newSockfd).connectPeer results.newSockfd path results =
              .ok (res, s')) := by
    intro hdo
    obtain ⟨⟨⟩, hpos, hrest⟩ := bind_eq_ok.mp hdo
    refine ⟨by simpa using hpos, ?_⟩
    dsimp only at hrest
    split at hrest
    · next hunbound =>
        obtain ⟨rfl, rfl⟩ : -1 = res ∧ _ = s' := by simpa using hrest
        exact Or.inl ⟨hunbound.1, hunbound.2, rfl, rfl⟩
    · next hbound =>
        refine Or.inr ⟨?_, hrest⟩
        by_contra hneither
        push Not at hneither
        exact hbound ⟨hneither.1, by simpa using hneither.2⟩
  rw [makeConnection] at h
  cases hmode : s.mode with
  | none =>
      obtain ⟨rfl, rfl⟩ : -1 = res ∧ s = s' := by simpa [hmode] using h
      exact Or.inl ⟨rfl, rfl, rfl⟩
  | client =>
      simp only [hmode] at h
      refine Or.inr (Or.inl ⟨rfl, ?_⟩)
      split at h
      · obtain ⟨rfl, rfl⟩ : 0 = res ∧ _ = s' := by simpa using h
        exact Or.inl ⟨rfl, rfl⟩
      · exact Or.inr h
  | both =>
      simp only [hmode] at h
      exact Or.inr (Or.inr ⟨Or.inl rfl, hnew h⟩)
  | server =>
      simp only [hmode] at h
      exact Or.inr (Or.inr ⟨Or.inr rfl, hnew h⟩)

/-- `make_client_id` finds the alias of the address, or makes one, or has none. -/
theorem makeClientId_effect [DecidableEq Address]
    {getIpPort : Address → Outcome (Option (Bytes × Nat))} {newCliaddr : Address}
    {peerAlias : Option AliasRef}
    (h : makeClientId getIpPort s newCliaddr = .ok (peerAlias, s')) :
    (s' = s ∧ (peerAlias = none ∨
        ∃ ref, peerAlias = some ref ∧ s.mmAli4addr.getAlias newCliaddr = some ref)) ∨
      ∃ pvd res isNew addr, peerAlias = some s.heap.nextRef ∧
        s.mmAli4addr.insert (s.heap.make pvd) (some s.heap.nextRef) (some newCliaddr) false =
          .ok (res, isNew, addr) ∧
        s' = { s with heap := s.heap.make pvd, mmAli4addr := addr } := by
  obtain ⟨⟨⟩, -, hrest⟩ := bind_eq_ok.mp h
  cases hstored : s.mmAli4addr.getAlias newCliaddr with
  | some ref =>
      obtain ⟨rfl, rfl⟩ : some ref = peerAlias ∧ s = s' := by simpa [hstored] using hrest
      exact Or.inl ⟨rfl, Or.inr ⟨ref, rfl, rfl⟩⟩
  | none =>
      simp only [hstored] at hrest
      obtain ⟨ipPort, -, hfound⟩ := bind_eq_ok.mp hrest
      cases ipPort with
      | none => cases hfound
      | some found =>
          dsimp only at hfound
          split at hfound
          · obtain ⟨rfl, rfl⟩ : none = peerAlias ∧ s = s' := by simpa using hfound
            exact Or.inl ⟨rfl, Or.inl rfl⟩
          · obtain ⟨⟨res, isNew, addr⟩, hinsert, hend⟩ := bind_eq_ok.mp hfound
            obtain ⟨rfl, rfl⟩ : some s.heap.nextRef = peerAlias ∧ _ = s' := by simpa using hend
            exact Or.inr ⟨_, res, isNew, addr, rfl, hinsert, rfl⟩

/-- An accepted descriptor is stored for the alias of the peer, if it has one. -/
theorem serverAccept_effect [DecidableEq Address]
    {getIpPort : Address → Outcome (Option (Bytes × Nat))} {newsockfd : Int}
    {newCliaddr : Address} {spawned threw : Bool}
    (h : serverAccept getIpPort s newsockfd newCliaddr spawned = .ok (threw, s')) :
    (newsockfd < 0 ∧ s' = s) ∨
      ¬newsockfd < 0 ∧ ∃ peerAlias mid, makeClientId getIpPort (s.opened newsockfd) newCliaddr =
          .ok (peerAlias, mid) ∧
        (peerAlias = none ∧ s' = mid ∨
          ∃ ref created, peerAlias = some ref ∧
            mid.storeConnection (some ref) newsockfd spawned = .ok (created, s')) := by
  rw [serverAccept] at h
  split at h
  · next hneg =>
      obtain ⟨-, rfl⟩ : true = threw ∧ s = s' := by simpa using h
      exact Or.inl ⟨hneg, rfl⟩
  · next hnonneg =>
      obtain ⟨⟨peerAlias, mid⟩, hclient, hrest⟩ := bind_eq_ok.mp h
      refine Or.inr ⟨hnonneg, peerAlias, mid, hclient, ?_⟩
      cases peerAlias with
      | none =>
          obtain ⟨-, rfl⟩ : false = threw ∧ mid = s' := by simpa using hrest
          exact Or.inl ⟨rfl, rfl⟩
      | some ref =>
          obtain ⟨⟨created, last⟩, hstore, hend⟩ := bind_eq_ok.mp hrest
          obtain ⟨-, rfl⟩ : (!created) = threw ∧ last = s' := by simpa using hend
          exact Or.inr ⟨ref, created, rfl, hstore⟩

/-- The address is stored for the alias, unless its path has one. -/
theorem updateAliasMapper_effect [DecidableEq Address] {newPvd : AliasRef} {destaddr : Address}
    (h : s.updateAliasMapper newPvd destaddr = .ok s') :
    ∃ res isNew addr, s.mmAli4addr.insert s.heap (some newPvd) (some destaddr) false =
      .ok (res, isNew, addr) ∧ s' = { s with mmAli4addr := addr } := by
  obtain ⟨⟨⟩, -, hrest⟩ := bind_eq_ok.mp h
  obtain ⟨⟨res, isNew, addr⟩, hinsert, hend⟩ := bind_eq_ok.mp hrest
  cases hend
  exact ⟨res, isNew, addr, hinsert, rfl⟩

/-- A new alias is made and stored for the address. -/
theorem registerNewAlias_effect [DecidableEq Address] {peerAddr : Address} {peerPort : Nat}
    {appPath pvdId : Bytes} (h : s.registerNewAlias peerAddr peerPort appPath pvdId = .ok s') :
    ∃ pvd, { s with heap := s.heap.make pvd }.updateAliasMapper s.heap.nextRef peerAddr =
      .ok s' := by
  obtain ⟨⟨⟩, -, hport⟩ := bind_eq_ok.mp h
  obtain ⟨⟨⟩, -, hrest⟩ := bind_eq_ok.mp hport
  split at hrest
  · cases hrest
  · exact ⟨_, hrest⟩

/-- A receiver finds a descriptor under the path of its alias, registers the peer and reports
the connection. -/
theorem runReceiverPrologue_effect {peerAlias : AliasRef} {peerFullPath : Bytes}
    (h : s.runReceiverPrologue peerAlias = .ok (peerFullPath, s')) :
    peerFullPath = s.heap.path peerAlias ∧ ∃ config,
      s.config.registConnectedPeer s.heap peerAlias s.pvdAlias = .ok (true, config) ∧
      s' = { s with config := config }.reportConnection (s.heap.objects peerAlias).pathParent
        (s.heap.objects peerAlias).name .connected none := by
  rw [runReceiverPrologue] at h
  split at h
  · cases h
  · obtain ⟨⟨⟩, -, hregist⟩ := bind_eq_ok.mp h
    obtain ⟨⟨res, mid⟩, hmid, hasserted⟩ := bind_eq_ok.mp hregist
    obtain ⟨⟨⟩, hres, hreport⟩ := bind_eq_ok.mp hasserted
    obtain rfl : res = true := by simpa using hres
    obtain ⟨config, rfl, hcall | ⟨hfalse, -⟩⟩ := registConnectedPeer_cases hmid
    · obtain ⟨last, hlast, hend⟩ := bind_eq_ok.mp hreport
      cases hend
      cases hlast
      exact ⟨rfl, config, hcall, rfl⟩
    · cases hfalse

/-- The looper then captures this path. -/
theorem receiverStart_effect {id : Nat} (h : s.receiverStart id = .ok s') :
    ∃ looper last, s.loopers[id]? = some looper ∧
      s.runReceiverPrologue looper.peerAlias = .ok (s.heap.path looper.peerAlias, last) ∧
      s' = { last with
        loopers := last.loopers.set id
          { looper with phase := .running, peerFullPath := s.heap.path looper.peerAlias } } := by
  rw [receiverStart] at h
  cases hlooper : s.loopers[id]? with
  | none => simp [hlooper] at h
  | some looper =>
      simp only [hlooper] at h
      obtain ⟨⟨captured, last⟩, hprologue, hend⟩ := bind_eq_ok.mp h
      cases hend
      obtain ⟨rfl, -⟩ := runReceiverPrologue_effect hprologue
      exact ⟨looper, last, rfl, hprologue, rfl⟩

/-- A receiver ends by the present names of its alias. -/
theorem receiverEnd_effect {id : Nat} (h : s.receiverEnd id = .ok s') :
    ∃ looper mid last, s.loopers[id]? = some looper ∧
      s.handleConnection (s.heap.objects looper.peerAlias).pathParent
        (s.heap.objects looper.peerAlias).name .disconnected = .ok mid ∧
      mid.disconnectionOf looper.peerAlias = .ok last ∧
      s' = { last.zombiThreadMigrate looper.peerAlias with
        loopers := (last.zombiThreadMigrate looper.peerAlias).loopers.set id
          { looper with phase := .ended } } := by
  rw [receiverEnd] at h
  cases hlooper : s.loopers[id]? with
  | none => simp [hlooper] at h
  | some looper =>
      simp only [hlooper] at h
      obtain ⟨left, hepilogue, hend⟩ := bind_eq_ok.mp h
      obtain ⟨mid, hmid, hrest⟩ := bind_eq_ok.mp hepilogue
      obtain ⟨last, hlast, hzombi⟩ := bind_eq_ok.mp hrest
      cases hzombi
      cases hend
      exact ⟨looper, mid, last, rfl, hmid, hlast, rfl⟩

/-- The calls that a rename that goes on is made of. -/
theorem updatePeerAlias_eq_ok {peerAlias : AliasRef}
    {captured captured' fullPath newApp newPvd : Bytes}
    (htarget : renameTarget captured fullPath = some (newApp, newPvd)) :
    s.updatePeerAlias peerAlias captured fullPath = .ok (captured', s') ↔
      ∃ s₁ sock found isNew sock' s₂,
        (s.reportConnection (s.heap.objects peerAlias).pathParent (s.heap.objects peerAlias).name
          .suspend none).unregistConnectedPeer captured = .ok s₁ ∧
        s₁.mmAli4sock.remove captured = .ok sock ∧
        sock.insert (s₁.heap.update peerAlias newApp newPvd) (some peerAlias)
          (s.mmAli4sock.get captured) true = .ok (found, isNew, sock') ∧
        { s₁ with
          heap := s₁.heap.update peerAlias newApp newPvd
          mmAli4sock := sock' }.registConnectedPeer peerAlias = .ok (true, s₂) ∧
        fullPath = captured' ∧
        s' = s₂.reportConnection newApp newPvd .resumeUpdate
          (some ((s.heap.objects peerAlias).pathParent, (s.heap.objects peerAlias).name)) := by
  rw [updatePeerAlias, htarget]
  simp only [ne_eq, reduceCtorEq, not_false_eq_true, handleConnection_of_ne, ok_bind]
  constructor
  · intro h
    obtain ⟨s₁, hunregist, hstep₁⟩ := bind_eq_ok.mp h
    obtain ⟨sock, hremove, hstep₂⟩ := bind_eq_ok.mp hstep₁
    obtain ⟨⟨found, isNew, sock'⟩, hinsert, hstep₃⟩ := bind_eq_ok.mp hstep₂
    obtain ⟨⟨res, s₂⟩, hregist, hstep₄⟩ := bind_eq_ok.mp hstep₃
    obtain ⟨⟨⟩, hres, hend⟩ := bind_eq_ok.mp hstep₄
    obtain rfl : res = true := by simpa using hres
    cases hend
    exact ⟨s₁, sock, found, isNew, sock', s₂, hunregist, hremove, hinsert, hregist, rfl, rfl⟩
  · rintro ⟨s₁, sock, found, isNew, sock', s₂, hunregist, hremove, hinsert, hregist, rfl, rfl⟩
    refine bind_eq_ok.mpr ⟨s₁, hunregist, ?_⟩
    refine bind_eq_ok.mpr ⟨sock, hremove, ?_⟩
    refine bind_eq_ok.mpr ⟨_, hinsert, ?_⟩
    refine bind_eq_ok.mpr ⟨_, hregist, ?_⟩
    exact bind_eq_ok.mpr ⟨(), assertThat_pos rfl, rfl⟩

/-- A rename that goes on moves the entry of the captured path to the new path of its alias. -/
theorem updatePeerAlias_effect {peerAlias : AliasRef} {captured captured' fullPath : Bytes}
    (h : s.updatePeerAlias peerAlias captured fullPath = .ok (captured', s')) :
    (renameTarget captured fullPath = none ∧ captured' = captured ∧ s' = s) ∨
      ∃ newApp newPvd config sock found isNew sock' config' callbacks,
        renameTarget captured fullPath = some (newApp, newPvd) ∧
        (s.config.unregistConnectedPeer s.heap captured (s.heap.path s.pvdAlias) = .ok config ∨
          config = s.config) ∧
        s.mmAli4sock.remove captured = .ok sock ∧
        sock.insert (s.heap.update peerAlias newApp newPvd) (some peerAlias)
          (s.mmAli4sock.get captured) true = .ok (found, isNew, sock') ∧
        config.registConnectedPeer (s.heap.update peerAlias newApp newPvd) peerAlias s.pvdAlias =
          .ok (true, config') ∧
        captured' = fullPath ∧
        s' = { s with
          heap := s.heap.update peerAlias newApp newPvd
          config := config'
          mmAli4sock := sock'
          callbacks := callbacks } := by
  cases htarget : renameTarget captured fullPath with
  | none =>
      rw [updatePeerAlias] at h
      obtain ⟨rfl, rfl⟩ : captured = captured' ∧ s = s' := by simpa [htarget] using h
      exact Or.inl ⟨rfl, rfl, rfl⟩
  | some target =>
      obtain ⟨newApp, newPvd⟩ := target
      obtain ⟨s₁, sock, found, isNew, sock', s₂, hunregist, hremove, hinsert, hregist, rfl, rfl⟩ :=
        (updatePeerAlias_eq_ok htarget).mp h
      obtain ⟨config, rfl, hunregisted⟩ := unregistConnectedPeer_cases hunregist
      obtain ⟨config', rfl, hregisted | ⟨hfalse, -⟩⟩ := registConnectedPeer_cases hregist
      · exact Or.inr ⟨newApp, newPvd, config, sock, found, isNew, sock', config', _, rfl,
          hunregisted, hremove, hinsert, hregisted, rfl, rfl⟩
      · cases hfalse

/-- A looper keeps the path that its rename function has captured. -/
theorem renameBy_effect {id : Nat} {fullPath : Bytes} (h : s.renameBy id fullPath = .ok s') :
    ∃ looper captured mid, s.loopers[id]? = some looper ∧
      s.updatePeerAlias looper.peerAlias looper.peerFullPath fullPath = .ok (captured, mid) ∧
      s' = { mid with loopers := mid.loopers.set id { looper with peerFullPath := captured } } := by
  rw [renameBy] at h
  cases hlooper : s.loopers[id]? with
  | none => simp [hlooper] at h
  | some looper =>
      simp only [hlooper] at h
      obtain ⟨⟨captured, mid⟩, hrename, hend⟩ := bind_eq_ok.mp h
      cases hend
      exact ⟨looper, captured, mid, rfl, hrename, rfl⟩

end TcpProvider

end CommonCommunicator
