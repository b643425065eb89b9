import CommonCommunicator.Provider.UdpProvider
import CommonCommunicator.Alias.ConnectedPeers

/-!
# The connection events of CPVD_UDP

Whether a peer is connected can be read off at three places: at the flag in the
alias table, at the registration with the alias manager, and at the events that
the application has seen. Each operation that turns one of them turns all three,
so the events of a peer alternate, and they say who is registered. A peer whose
alias has an empty path is the exception: the alias manager refuses to
unregister it.
-/

namespace CommonCommunicator

open Lib

/-- Connected, disconnected, connected, and so on. -/
def ConnectionState.Alternate (events : List ConnectionState) : Prop :=
  ∀ i flag, events[i]? = some flag → flag = if i % 2 = 0 then .connected else .disconnected

namespace ConnectionState.Alternate

variable {events : List ConnectionState}

theorem nil : Alternate [] := by
  intro i flag hflag
  simp at hflag

theorem snoc (h : Alternate events) (flag : ConnectionState)
    (hflag : flag = if events.length % 2 = 0 then .connected else .disconnected) :
    Alternate (events ++ [flag]) := by
  intro i flag' hget
  rw [List.getElem?_append] at hget
  split at hget
  · exact h i flag' hget
  · next hlength =>
      have hi : i - events.length < 1 := by
        have := (List.getElem?_eq_some_iff.mp hget).1
        simpa using this
      obtain rfl : i = events.length := by omega
      obtain rfl : flag = flag' := by simpa using hget
      exact hflag

/-- The last event is `CONNECTED` if there is an odd number of them. -/
theorem last_iff (h : Alternate events) :
    events.getLast? = some .connected ↔ events.length % 2 = 1 := by
  rw [List.getLast?_eq_getElem?]
  cases hlast : events[events.length - 1]? with
  | none =>
      have hnil : events.length = 0 := by
        have := List.getElem?_eq_none_iff.mp hlast
        omega
      simp [hnil]
  | some flag =>
      have hlength := (List.getElem?_eq_some_iff.mp hlast).1
      rw [h _ flag hlast]
      by_cases heven : (events.length - 1) % 2 = 0
      · rw [if_pos heven]
        refine iff_of_true rfl ?_
        omega
      · rw [if_neg heven]
        refine iff_of_false (by simp) ?_
        omega

end ConnectionState.Alternate

/-- The peers whose list in the alias manager has the path `mine`; the lists hold aliases that have
been made. -/
structure CConfigAliases.RegisteredWith (config : CConfigAliases) (heap : AliasHeap)
    (mine : Bytes) (peers : Bytes → Bool) : Prop where
  stored : ∃ pairs : List (Bytes × Bytes), pairs.Nodup ∧
    StoresRelation config.mmConnectedPeers heap.path pairs ∧
    ∀ path, (path, mine) ∈ pairs ↔ peers path = true
  made : ∀ path, ∀ ref ∈ (config.mmConnectedPeers path).getD [], ref < heap.nextRef

namespace CConfigAliases.RegisteredWith

variable {config config' : CConfigAliases} {heap heap' : AliasHeap} {mine : Bytes}
  {peers : Bytes → Bool}

theorem iff (h : config.RegisteredWith heap mine peers) (path : Bytes) :
    (∃ ref ∈ (config.mmConnectedPeers path).getD [], heap.path ref = mine) ↔
      peers path = true := by
  obtain ⟨pairs, -, hstores, hpairs⟩ := h.stored
  rw [← hpairs, ← hstores.any_iff]
  simp

/-- A registration adds the peer. -/
theorem regist {myPvd : AliasRef} (h : config.RegisteredWith heap (heap.path myPvd) peers)
    (hmade : myPvd < heap.nextRef) (peerPvd : AliasRef) :
    ∃ config', config.registConnectedPeer heap peerPvd myPvd = .ok (true, config') ∧
      config'.RegisteredWith heap (heap.path myPvd)
        (Function.update peers (heap.path peerPvd) true) := by
  obtain ⟨pairs, hnodup, hstores, hpairs⟩ := h.stored
  obtain ⟨config', hcall, hstores'⟩ := registConnectedPeer_stores hstores peerPvd myPvd
  refine ⟨config', hcall, ⟨_, Change.nodup_apply hnodup, hstores', ?_⟩, ?_⟩
  · intro path
    rw [Change.mem_apply, hpairs]
    by_cases hpath : path = heap.path peerPvd
    · simp [hpath]
    · simp [hpath, Ne.symm hpath]
  · intro path ref hmem
    obtain hold | ⟨-, rfl⟩ := mem_of_registConnectedPeer hcall hmem
    · exact h.made path ref hold
    · exact hmade

/-- An unregistration removes the peer. -/
theorem unregist (h : config.RegisteredWith heap mine peers) {path : Bytes} (hpath : path ≠ [])
    (hmine : mine ≠ []) :
    ∃ config', config.unregistConnectedPeer heap path mine = .ok config' ∧
      config'.RegisteredWith heap mine (Function.update peers path false) := by
  obtain ⟨pairs, hnodup, hstores, hpairs⟩ := h.stored
  obtain ⟨config', hcall, hstores'⟩ := unregistConnectedPeer_stores hstores hnodup hpath hmine
  refine ⟨config', hcall, ⟨_, Change.nodup_apply hnodup, hstores', ?_⟩, ?_⟩
  · intro path'
    rw [Change.mem_apply, hpairs]
    by_cases heq : path' = path
    · simp [heq]
    · simp [heq, Ne.symm heq]
  · intro path' ref hmem
    exact h.made path' ref (mem_of_unregistConnectedPeer hcall hmem)

/-- New alias objects change nothing. -/
theorem of_objects (h : config.RegisteredWith heap mine peers)
    (hobjects : ∀ ref, ref < heap.nextRef → heap'.objects ref = heap.objects ref)
    (hnext : heap.nextRef ≤ heap'.nextRef) : config.RegisteredWith heap' mine peers := by
  obtain ⟨pairs, hnodup, hstores, hpairs⟩ := h.stored
  refine ⟨⟨pairs, hnodup, hstores.rename ?_, hpairs⟩, ?_⟩
  · intro path ref hmem
    rw [AliasHeap.path, AliasHeap.path, hobjects ref (h.made path ref hmem)]
  · intro path ref hmem
    exact Nat.lt_of_lt_of_le (h.made path ref hmem) hnext

end CConfigAliases.RegisteredWith

namespace UdpProvider

variable {Address : Type} [DecidableEq Address] {s s' : UdpProvider Address}

/-- The tables are in order: entries are filed under their paths, none under the empty one, and the
provider has a path of its own. -/
structure Ordered (s : UdpProvider Address) : Prop where
  filed : s.mmAli4addr.Filed s.heap
  within : s.mmAli4addr.Within s.heap.nextRef
  named : s.mmAli4addr.get [] = none
  mine : s.pvdAlias < s.heap.nextRef ∧ s.heap.path s.pvdAlias ≠ []

/-- `register_new_alias` makes an alias whose path is not empty: the application path and the
identifier do not both end at once. -/
def Operation.NamesPeer : Operation Address → Prop
  | .registerNewAlias _ _ appPath pvdId => CString.text appPath ≠ [] ∨ CString.text pvdId ≠ []
  | _ => True

/-- The events tell which peers are connected. -/
def Reported (s : UdpProvider Address) (peers : Bytes → Bool) : Prop :=
  ∀ path, ConnectionState.Alternate (s.events path) ∧
    (peers path = true ↔ (s.events path).length % 2 = 1)

variable {peers : Bytes → Bool}

omit [DecidableEq Address] in
/-- A peer's next event turns the peer. -/
theorem Reported.report (h : s.Reported peers) (appPath pvdPath : Bytes) {flag : ConnectionState}
    {now : Bool} (hnow : peers (IAliasPVD.makeFullPath appPath pvdPath) = !now)
    (hflag : flag = if now then .connected else .disconnected) :
    (s.reportConnection appPath pvdPath flag).Reported
      (Function.update peers (IAliasPVD.makeFullPath appPath pvdPath) now) := by
  intro path
  obtain ⟨halternate, hlength⟩ := h path
  by_cases hpath : path = IAliasPVD.makeFullPath appPath pvdPath
  · have hevents : (s.reportConnection appPath pvdPath flag).events path =
        s.events path ++ [flag] := by
      simp [events, reportConnection, hpath]
    rw [← hpath] at hnow
    rw [hnow] at hlength
    rw [hevents, ← hpath, Function.update_self]
    cases now with
    | true =>
        have heven : (s.events path).length % 2 = 0 := by
          simp at hlength
          exact hlength
        refine ⟨halternate.snoc flag (by simp [hflag, heven]), ?_⟩
        rw [List.length_append, List.length_singleton]
        refine iff_of_true rfl ?_
        omega
    | false =>
        have hodd : (s.events path).length % 2 = 1 := by simpa using hlength
        refine ⟨halternate.snoc flag (by simp [hflag, hodd]), ?_⟩
        rw [List.length_append, List.length_singleton]
        refine iff_of_false (by simp) ?_
        omega
  · have hevents : (s.reportConnection appPath pvdPath flag).events path = s.events path := by
      simp [events, reportConnection, Ne.symm hpath]
    rw [hevents, Function.update_of_ne hpath]
    exact ⟨halternate, hlength⟩

/-- An entry under a path that is not empty keeps the tables in order. -/
theorem Ordered.store (h : s.Ordered) {ref : AliasRef} {address : Option Address}
    {connectFlag res isNew : Bool} {table : CAliasAddr Address} (hmade : ref < s.heap.nextRef)
    (hpath : s.heap.path ref ≠ [])
    (hinsert : s.mmAli4addr.insert s.heap (some ref) address connectFlag =
      .ok (res, isNew, table)) : { s with mmAli4addr := table }.Ordered := by
  refine ⟨h.filed.insert hinsert, CAliasAddr.insert_within h.within hmade hinsert, ?_, h.mine⟩
  obtain ⟨-, ⟨addr, -, -, -, hget, -⟩ | ⟨-, hget, -⟩⟩ := CAliasAddr.insert_cases hinsert
  · dsimp only
    rw [hget, PartialMap.insert_of_ne _ (Ne.symm hpath)]
    exact h.named
  · dsimp only
    rw [hget]
    exact h.named

omit [DecidableEq Address] in
/-- The entry of a stored path leads to an alias of that path. -/
theorem Ordered.getAlias (h : s.Ordered) {path : Bytes} {addr : Address}
    (hget : s.mmAli4addr.get path = some addr) :
    ∃ ref, s.mmAli4addr.getAlias addr = some ref ∧ ref < s.heap.nextRef ∧
      s.heap.path ref = path := by
  have hpath := (h.filed path addr).mp hget
  obtain ⟨ref, hstored, hpath⟩ := Option.map_eq_some_iff.mp hpath
  exact ⟨ref, hstored, h.within addr ref hstored, hpath⟩

omit [DecidableEq Address] in
/-- An alias that is stored for an address has a path that is not empty. -/
theorem Ordered.path_ne_nil (h : s.Ordered) {ref : AliasRef} {addr : Address}
    (hstored : s.mmAli4addr.mmAlias addr = some ref) : s.heap.path ref ≠ [] := by
  have hget : s.mmAli4addr.get (s.heap.path ref) = some addr :=
    (h.filed _ addr).mpr (by simp [CAliasAddr.pathOf, hstored])
  intro hnil
  rw [hnil, h.named] at hget
  cases hget

/-- The three places agree on which peers are connected. -/
structure Agree (s : UdpProvider Address) (peers : Bytes → Bool) : Prop where
  ordered : s.Ordered
  flags : s.mmAli4addr.connected = peers
  registered : s.config.RegisteredWith s.heap (s.heap.path s.pvdAlias) peers
  reported : s.Reported peers

namespace Agree

omit [DecidableEq Address] in
/-- `IPVDInf::regist_connected_peer` adds the peer. -/
theorem regist (hmine : s.pvdAlias < s.heap.nextRef)
    (h : s.config.RegisteredWith s.heap (s.heap.path s.pvdAlias) peers) (peerAlias : AliasRef) :
    ∃ config, s.registConnectedPeer peerAlias = .ok (true, { s with config := config }) ∧
      config.RegisteredWith s.heap (s.heap.path s.pvdAlias)
        (Function.update peers (s.heap.path peerAlias) true) := by
  obtain ⟨config, hcall, hregistered⟩ := h.regist hmine peerAlias
  refine ⟨config, ?_, hregistered⟩
  rw [registConnectedPeer, hcall]
  rfl

/-- An entry that is stored without its flag connects nobody. -/
theorem store (h : s.Agree peers) {ref : AliasRef} {address : Option Address} {res isNew : Bool}
    {table : CAliasAddr Address} (hmade : ref < s.heap.nextRef) (hpath : s.heap.path ref ≠ [])
    (hinsert : s.mmAli4addr.insert s.heap (some ref) address false = .ok (res, isNew, table)) :
    { s with mmAli4addr := table }.Agree peers := by
  refine ⟨h.ordered.store hmade hpath hinsert, ?_, h.registered, h.reported⟩
  rw [← h.flags]
  dsimp only
  rw [(CAliasAddr.insert_connected hinsert).1, Bool.or_false, Function.update_eq_self]

omit [DecidableEq Address] in
/-- A new alias object changes nothing. -/
theorem make (h : s.Agree peers) (pvd : IAliasPVD) :
    { s with heap := s.heap.make pvd }.Agree peers := by
  have hobjects : ∀ ref, ref < s.heap.nextRef →
      (s.heap.make pvd).objects ref = s.heap.objects ref :=
    fun ref href => AliasHeap.make_objects_of_lt pvd href
  have hmine : (s.heap.make pvd).path s.pvdAlias = s.heap.path s.pvdAlias := by
    rw [AliasHeap.path, AliasHeap.path, hobjects _ h.ordered.mine.1]
  have hnext : s.heap.nextRef ≤ (s.heap.make pvd).nextRef := Nat.le_succ _
  constructor
  · refine ⟨h.ordered.filed.of_objects h.ordered.within hobjects, ?_, h.ordered.named, ?_⟩
    · intro address ref hstored
      exact Nat.lt_of_lt_of_le (h.ordered.within address ref hstored) hnext
    · exact ⟨Nat.lt_of_lt_of_le h.ordered.mine.1 hnext, hmine ▸ h.ordered.mine.2⟩
  · exact h.flags
  · change s.config.RegisteredWith _ ((s.heap.make pvd).path s.pvdAlias) peers
    rw [hmine]
    exact h.registered.of_objects hobjects hnext
  · exact h.reported

/-- What `insert` does when it is to set the flag. -/
theorem insert (h : s.Agree peers) {ref : AliasRef} {address : Option Address}
    {res isNew : Bool} {table : CAliasAddr Address} (hmade : ref < s.heap.nextRef)
    (hpath : s.heap.path ref ≠ [])
    (hinsert : s.mmAli4addr.insert s.heap (some ref) address true = .ok (res, isNew, table)) :
    { s with mmAli4addr := table }.Ordered ∧
      table.connected = Function.update peers (s.heap.path ref) true ∧
      peers (s.heap.path ref) = !isNew := by
  obtain ⟨hconnected, hnew⟩ := CAliasAddr.insert_connected hinsert
  rw [h.flags] at hconnected hnew
  refine ⟨h.ordered.store hmade hpath hinsert, ?_, ?_⟩
  · simpa using hconnected
  · rw [hnew rfl, Bool.not_not]

omit [DecidableEq Address] in
/-- A peer whose flag was set already is connected as before. -/
theorem known (h : s.Agree peers) {path : Bytes} {table : CAliasAddr Address}
    (hordered : { s with mmAli4addr := table }.Ordered)
    (hconnected : table.connected = Function.update peers path true)
    (hknown : peers path = true) : { s with mmAli4addr := table }.Agree peers := by
  refine ⟨hordered, ?_, h.registered, h.reported⟩
  dsimp only
  rw [hconnected, ← hknown, Function.update_eq_self]

omit [DecidableEq Address] in
/-- A peer whose flag is set, who is reported and registered, is connected. -/
theorem connect (h : s.Agree peers) {peerAlias : AliasRef} {table : CAliasAddr Address}
    {config : CConfigAliases} (hordered : { s with mmAli4addr := table }.Ordered)
    (hconnected : table.connected = Function.update peers (s.heap.path peerAlias) true)
    (hbefore : peers (s.heap.path peerAlias) = !true)
    (hregistered : config.RegisteredWith s.heap (s.heap.path s.pvdAlias)
      (Function.update peers (s.heap.path peerAlias) true)) :
    { s.reportConnection (s.heap.objects peerAlias).pathParent (s.heap.objects peerAlias).name
        .connected with mmAli4addr := table, config := config }.Agree
      (Function.update peers (s.heap.path peerAlias) true) := by
  refine ⟨⟨hordered.filed, hordered.within, hordered.named, hordered.mine⟩, hconnected,
    hregistered, ?_⟩
  exact h.reported.report _ _ hbefore rfl

/-- `make_connection` connects the peer, if it has an entry. -/
theorem makeConnection (h : s.Agree peers) {peerFullPath : Bytes} {res : Bool}
    (hstep : s.makeConnection peerFullPath = .ok (res, s')) : ∃ peers', s'.Agree peers' := by
  rw [UdpProvider.makeConnection] at hstep
  split at hstep
  · cases hstep
    exact ⟨peers, h⟩
  · next addr hget =>
      obtain ⟨ref, hfound, hmade, -⟩ := h.ordered.getAlias hget
      rw [hfound] at hstep
      obtain ⟨⟨done, isNew, table⟩, hinsert, hstep⟩ := bind_eq_ok.mp hstep
      obtain ⟨-, -, hstep⟩ := bind_eq_ok.mp hstep
      obtain ⟨hordered, hconnected, hbefore⟩ :=
        h.insert hmade (h.ordered.path_ne_nil hfound) hinsert
      cases isNew with
      | false =>
          cases hstep
          exact ⟨peers, h.known hordered hconnected hbefore⟩
      | true =>
          have hreport : { s with mmAli4addr := table }.handleConnection
              (s.heap.objects ref).pathParent (s.heap.objects ref).name .connected =
                .ok ({ s with mmAli4addr := table }.reportConnection
                  (s.heap.objects ref).pathParent (s.heap.objects ref).name .connected) := rfl
          obtain ⟨config, hcall, hregistered⟩ :=
            regist (s := { s with mmAli4addr := table }.reportConnection
              (s.heap.objects ref).pathParent (s.heap.objects ref).name .connected)
              h.ordered.mine.1 h.registered ref
          dsimp only at hstep
          rw [if_pos rfl, hreport, ok_bind, hcall] at hstep
          cases hstep
          exact ⟨_, h.connect hordered hconnected hbefore hregistered⟩

omit [DecidableEq Address] in
/-- `disconnection` disconnects the peer, if it has an entry. -/
theorem disconnection (h : s.Agree peers) {appPath pvdId : Bytes}
    (hstep : s.disconnection appPath pvdId = .ok s') : ∃ peers', s'.Agree peers' := by
  rw [UdpProvider.disconnection] at hstep
  split at hstep
  · cases hstep
    exact ⟨peers, h⟩
  · next hthere =>
      obtain ⟨hhad, hconnected, hget, halias⟩ := s.mmAli4addr.resetConnectFlag_effect
        (IAliasPVD.makeFullPath appPath pvdId)
      rw [h.flags] at hhad hconnected
      have hpath : IAliasPVD.makeFullPath appPath pvdId ≠ [] := by
        intro hnil
        rw [hnil] at hthere
        exact hthere h.ordered.named
      generalize s.mmAli4addr.resetConnectFlag (IAliasPVD.makeFullPath appPath pvdId) = reset
        at hstep hhad hconnected hget halias
      obtain ⟨hadConnected, table⟩ := reset
      dsimp only at hstep hhad hconnected hget halias
      have hordered : { s with mmAli4addr := table }.Ordered := by
        refine ⟨h.ordered.filed.congr hget halias, ?_, ?_, h.ordered.mine⟩
        · intro address ref hstored
          exact h.ordered.within address ref (by rw [← halias, hstored])
        · dsimp only
          rw [hget]
          exact h.ordered.named
      cases hadConnected with
      | false =>
          cases hstep
          refine ⟨peers, hordered, ?_, h.registered, h.reported⟩
          dsimp only
          rw [hconnected, hhad, Function.update_eq_self]
      | true =>
          obtain ⟨config, hcall, hregistered⟩ :=
            h.registered.unregist hpath h.ordered.mine.2
          have hreport : { s with mmAli4addr := table }.unregistConnectedPeer
              (IAliasPVD.makeFullPath appPath pvdId) =
                .ok { s with mmAli4addr := table, config := config } := by
            rw [unregistConnectedPeer, hcall]
            rfl
          rw [if_pos rfl, handleConnection, if_pos rfl, hreport] at hstep
          cases hstep
          refine ⟨_, ⟨hordered.filed, hordered.within, hordered.named, hordered.mine⟩, hconnected,
            hregistered, ?_⟩
          exact h.reported.report appPath pvdId hhad.symm rfl

/-- `make_client_id` finds an alias for the address or makes one, and connects nobody. -/
theorem makeClientId {getIpPort : Address → Outcome (Option (Bytes × Nat))} (h : s.Agree peers)
    {cliaddr : Address} {peer : AliasRef}
    (hstep : UdpProvider.makeClientId getIpPort s cliaddr = .ok (some peer, s')) :
    s'.Agree peers ∧ peer < s'.heap.nextRef ∧ s'.heap.path peer ≠ [] := by
  obtain ⟨-, -, hstep⟩ := bind_eq_ok.mp hstep
  split at hstep
  · next ref hfound =>
      cases hstep
      exact ⟨h, h.ordered.within _ _ hfound, h.ordered.path_ne_nil hfound⟩
  · obtain ⟨named, -, hstep⟩ := bind_eq_ok.mp hstep
    split at hstep
    · cases hstep
    · next ip port =>
        split at hstep
        · cases hstep
        · obtain ⟨⟨res, isNew, table⟩, hinsert, hstep⟩ := bind_eq_ok.mp hstep
          cases hstep
          have hpath : (s.heap.make
              { pathParent := [], name := ip ++ 0x3A :: TcpProvider.toString port,
                type := s.providerType,
                convertible := (s.heap.objects s.pvdAlias).convertible }).path s.heap.nextRef ≠
              [] := by
            simp [AliasHeap.path, IAliasPVD.path, IAliasPVD.makeFullPath]
          exact ⟨(h.make _).store (Nat.lt_succ_self _) hpath hinsert, Nat.lt_succ_self _, hpath⟩

/-- A datagram connects its sender, or disconnects it if it is empty. -/
theorem runReceiver {getIpPort : Address → Outcome (Option (Bytes × Nat))} (h : s.Agree peers)
    {cliaddr : Address} {msgSize : Nat}
    (hstep : UdpProvider.runReceiver getIpPort s cliaddr msgSize = .ok s') :
    ∃ peers', s'.Agree peers' := by
  obtain ⟨⟨msgRaw, read⟩, hread, hstep⟩ := bind_eq_ok.mp hstep
  obtain ⟨⟨found, mid⟩, hclient, hread⟩ := bind_eq_ok.mp hread
  cases found with
  | none => cases hread
  | some ref =>
      obtain ⟨hmid, hmade, hpath⟩ := h.makeClientId hclient
      dsimp only at hread
      split at hread
      · obtain ⟨t, hdisconnection, hread⟩ := bind_eq_ok.mp hread
        cases hread
        cases hstep
        exact hmid.disconnection hdisconnection
      · obtain ⟨⟨res, isNew, table⟩, hinsert, hread⟩ := bind_eq_ok.mp hread
        obtain ⟨-, -, hread⟩ := bind_eq_ok.mp hread
        obtain ⟨hordered, hconnected, hbefore⟩ := hmid.insert hmade hpath hinsert
        cases isNew with
        | false =>
            cases hread
            cases hstep
            exact ⟨peers, hmid.known hordered hconnected hbefore⟩
        | true =>
            obtain ⟨config, hcall, hregistered⟩ :=
              regist (s := { mid with mmAli4addr := table }) hmid.ordered.mine.1 hmid.registered
                ref
            dsimp only at hread
            rw [if_pos rfl, hcall] at hread
            cases hread
            cases hstep
            exact ⟨_, hmid.connect hordered hconnected hbefore hregistered⟩

/-- `write_msg` connects the peer before it writes. -/
theorem writeMsg (h : s.Agree peers) {appPath pvdPath : Bytes} {source : Bytes × Bytes}
    {msgSize k : Nat} {results : Nat → Int} {written : Option Bool}
    (hstep : s.writeMsg appPath pvdPath source msgSize results k = .ok (written, s')) :
    ∃ peers', s'.Agree peers' := by
  obtain ⟨-, -, hstep⟩ := bind_eq_ok.mp hstep
  dsimp only at hstep
  generalize (if pvdPath = [] then source else (appPath, pvdPath)) = target at hstep
  split at hstep
  · cases hstep
  · obtain ⟨⟨res, mid⟩, hconnection, hstep⟩ := bind_eq_ok.mp hstep
    dsimp only at hstep
    split at hstep
    · obtain ⟨result, -, hstep⟩ := bind_eq_ok.mp hstep
      cases hstep
      exact h.makeConnection hconnection
    · cases hstep

/-- `register_new_alias` stores an entry and connects nobody. -/
theorem registerNewAlias (h : s.Agree peers) {peerAddr : Address} {peerPort : Nat}
    {appPath pvdId : Bytes} (hname : CString.text appPath ≠ [] ∨ CString.text pvdId ≠ [])
    (hstep : s.registerNewAlias peerAddr peerPort appPath pvdId = .ok s') : s'.Agree peers := by
  obtain ⟨-, -, hstep⟩ := bind_eq_ok.mp hstep
  obtain ⟨-, -, hstep⟩ := bind_eq_ok.mp hstep
  split at hstep
  · cases hstep
  · obtain ⟨-, -, hstep⟩ := bind_eq_ok.mp hstep
    obtain ⟨⟨res, isNew, table⟩, hinsert, hstep⟩ := bind_eq_ok.mp hstep
    cases hstep
    apply (h.make _).store (Nat.lt_succ_self _) _ hinsert
    simp only [AliasHeap.path, AliasHeap.make_objects_nextRef, IAliasPVD.path,
      IAliasPVD.makeFullPath]
    split
    · simp
    · next hparent => exact hname.resolve_left hparent

/-- Whatever the provider does, the three places agree. -/
theorem next {getIpPort : Address → Outcome (Option (Bytes × Nat))} (h : s.Agree peers)
    {op : Operation Address} (hname : op.NamesPeer) (hstep : Step getIpPort s op s') :
    ∃ peers', s'.Agree peers' := by
  cases op with
  | makeConnection peerFullPath =>
      obtain ⟨⟨res, t⟩, hcall, hstep⟩ := bind_eq_ok.mp hstep
      cases hstep
      exact h.makeConnection hcall
  | disconnection appPath pvdId => exact h.disconnection hstep
  | runReceiver cliaddr msgSize => exact h.runReceiver hstep
  | writeMsg appPath pvdPath source msgSize results k =>
      obtain ⟨⟨written, t⟩, hcall, hstep⟩ := bind_eq_ok.mp hstep
      cases hstep
      exact h.writeMsg hcall
  | registerNewAlias peerAddr peerPort appPath pvdId =>
      exact ⟨peers, h.registerNewAlias hname hstep⟩

end Agree

/-- A provider before its first connection. Aliases may already be stored. -/
structure Started (s : UdpProvider Address) : Prop where
  filed : s.mmAli4addr.Filed s.heap
  within : s.mmAli4addr.Within s.heap.nextRef
  made : s.pvdAlias < s.heap.nextRef
  quiet : ∀ path, s.mmAli4addr.connected path = false
  unregistered : s.config.RegisteredWith s.heap (s.heap.path s.pvdAlias) fun _ => false
  silent : s.callbacks = []

/-- Neither the alias of the provider nor one in its table has an empty path. -/
structure Named (s : UdpProvider Address) : Prop where
  own : s.heap.path s.pvdAlias ≠ []
  stored : s.mmAli4addr.get [] = none

omit [DecidableEq Address] in
theorem Started.agree (h : s.Started) (hnamed : s.Named) : s.Agree fun _ => false := by
  refine ⟨⟨h.filed, h.within, hnamed.stored, h.made, hnamed.own⟩, funext h.quiet,
    h.unregistered, ?_⟩
  intro path
  have hevents : s.events path = [] := by simp [events, h.silent]
  rw [hevents]
  exact ⟨ConnectionState.Alternate.nil, by simp⟩

/-- As long as no alias has an empty path, the events of every peer alternate, and a peer is
registered exactly while the last of them is `CONNECTED`. -/
theorem udp_events_alternate {getIpPort : Address → Outcome (Option (Bytes × Nat))}
    (hstart : s.Started) (hnamed : s.Named)
    (run : GuardedRun (Step getIpPort) (fun _ op => op.NamesPeer) s s') (peerFullPath : Bytes) :
    ConnectionState.Alternate (s'.events peerFullPath) ∧
      (s'.Registered peerFullPath ↔ (s'.events peerFullPath).getLast? = some .connected) := by
  obtain ⟨peers, hagree⟩ : ∃ peers, s'.Agree peers := by
    apply run.invariant ⟨_, hstart.agree hnamed⟩
    rintro t op t' ⟨peers, h⟩ hname hstep
    exact h.next hname hstep
  obtain ⟨halternate, hlength⟩ := hagree.reported peerFullPath
  refine ⟨halternate, ?_⟩
  rw [halternate.last_iff, ← hlength]
  exact hagree.registered.iff peerFullPath

/-- A provider of the application `a` that knows one peer. -/
def onePeer : UdpProvider Nat :=
  { pvdAlias := 0
    heap := {
      objects := fun ref => {
        pathParent := [0x61]
        name := [0x70, UInt8.ofNat ref]
        type := .transUDP
        convertible := IAliasPVD.convertible_transUDP }
      nextRef := 2 }
    config := .empty
    mmAli4addr := {
      mmAddr := PartialMap.empty.insert [0x61, 0x2F, 0x70, 1] { address := 9, connectFlag := false }
      mmAlias := PartialMap.empty.insert 9 1 }
    callbacks := [] }

theorem onePeer_started : onePeer.Started := by
  constructor
  · have hget : onePeer.mmAli4addr.get =
        PartialMap.empty.insert [0x61, 0x2F, 0x70, 1] 9 := by
      funext path
      simp only [CAliasAddr.get, onePeer, PartialMap.insert_apply]
      split
      · rfl
      · rfl
    have hpathOf : onePeer.mmAli4addr.pathOf onePeer.heap =
        PartialMap.empty.insert 9 [0x61, 0x2F, 0x70, 1] := by
      funext addr
      simp only [CAliasAddr.pathOf, onePeer, PartialMap.insert_apply]
      split
      · rfl
      · rfl
    rw [CAliasAddr.Filed, hpathOf, hget]
    exact InverseMaps.empty.insert rfl rfl
  · intro address ref hstored
    simp only [onePeer, PartialMap.insert_apply] at hstored
    split at hstored
    · cases hstored
      decide
    · cases hstored
  · decide
  · intro path
    simp only [CAliasAddr.connected, onePeer, PartialMap.insert_apply]
    split
    · rfl
    · rfl
  · refine ⟨⟨[], List.nodup_nil, StoresRelation.empty, by simp⟩, ?_⟩
    simp [onePeer, CConfigAliases.empty]
  · rfl

/-- The peer is connected, sends an empty datagram, and is written to; in between a second peer is
registered under a name that ends at a NUL. -/
theorem onePeer_events :
    ∃ s', GuardedRun (Step fun _ => .ok none) (fun _ op => op.NamesPeer) onePeer s' ∧
      s'.events [0x61, 0x2F, 0x70, 1] = [.connected, .disconnected, .connected] ∧
      ConnectionState.Alternate (s'.events [0x61, 0x2F, 0x70, 1]) ∧
      s'.Registered [0x61, 0x2F, 0x70, 1] := by
  have hrun : GuardedRun (Step fun _ => .ok none) (fun _ op => op.NamesPeer) onePeer _ :=
    .next (.next (.next (.next .start trivial (a := .makeConnection [0x61, 0x2F, 0x70, 1]) rfl)
      trivial (a := .runReceiver 9 0) rfl)
      (Or.inl (by decide)) (a := .registerNewAlias 8 80 [0x62] [0, 0x78]) rfl)
      trivial (a := .writeMsg [0x61] [0x70, 1] ([], []) 1 (fun _ => 1) 1) rfl
  have hevents := udp_events_alternate onePeer_started ⟨by decide, rfl⟩ hrun
    [0x61, 0x2F, 0x70, 1]
  exact ⟨_, hrun, rfl, hevents.1, hevents.2.mpr rfl⟩

/-- An identifier that begins with a NUL is not empty, but gives an empty path. The alias manager
does not unregister such a peer when it is disconnected. -/
theorem namelessPeer_stays_registered :
    ¬∀ s' : UdpProvider Nat, Reachable (Step fun _ => .ok none) onePeer s' →
      ∀ peerFullPath, ConnectionState.Alternate (s'.events peerFullPath) ∧
        (s'.Registered peerFullPath ↔ (s'.events peerFullPath).getLast? = some .connected) := by
  intro halternate
  have hrun : Reachable (Step fun _ => .ok none) onePeer _ :=
    .next (.next (.next .start trivial (a := .registerNewAlias 8 80 [] [0, 0x78]) rfl)
      trivial (a := .makeConnection []) rfl) trivial (a := .disconnection [] []) rfl
  have hregistered := (halternate _ hrun []).2.mp ⟨0, List.mem_singleton_self 0, rfl⟩
  exact absurd hregistered (by decide)

end UdpProvider

end CommonCommunicator
