import CommonCommunicator.Lib.GuardedRun
import CommonCommunicator.Provider.TcpEffects
import Mathlib.Data.Finset.Lattice.Lemmas

/-!
# The socket of a TCP client

In client mode a TCP provider has one socket, which was bound at the start. It
is either available or the descriptor of the one connection. `disconnection`
closes the descriptor before it makes it available again, so the socket is
owned properly only as long as no connection ends.
-/

namespace CommonCommunicator

open Lib

/-- A TCP provider with the descriptors that the kernel has connected. -/
structure ClientSocket (Address : Type) where
  provider : TcpProvider Address
  connectedFds : Finset Int

namespace ClientSocket

variable {Address : Type}

/-- The calls that hand the socket back and forth. -/
inductive Call
  | makeConnection (peerFullPath : Bytes) (results : TcpProvider.ConnectResults)
  | disconnection (peerFullPath : Bytes)

/-- The call as the provider makes it. -/
def run (s : TcpProvider Address) : Call → Outcome (TcpProvider Address)
  | .makeConnection peerFullPath results => (s.makeConnection peerFullPath results).map Prod.snd
  | .disconnection peerFullPath => s.disconnection peerFullPath

/-- The descriptor on which the call connects. -/
def connects (s : TcpProvider Address) : Call → Finset Int
  | .makeConnection peerFullPath results =>
      if s.availableSockfd ≠ 0 ∧ s.mmAli4addr.get peerFullPath ≠ none ∧
          results.connected = true then
        {s.availableSockfd}
      else ∅
  | .disconnection _ => ∅

/-- A descriptor is connected from then on until it is closed. -/
def next (s : ClientSocket Address) (call : Call) : Outcome (ClientSocket Address) := do
  let provider ← run s.provider call
  return {
    provider := provider
    connectedFds := (s.connectedFds ∪ connects s.provider call) ∩ provider.openFds }

/-- The calls as a relation. -/
def Step (s : ClientSocket Address) (call : Call) (s' : ClientSocket Address) : Prop :=
  next s call = .ok s'

/-- A client whose socket has been made. -/
structure Inited (s : ClientSocket Address) : Prop where
  client : s.provider.mode = .client
  descriptor : 0 < s.provider.sockfd
  opened : s.provider.sockfd ∈ s.provider.openFds
  unconnected : s.provider.sockfd ∉ s.connectedFds
  unused : s.provider.mmAli4sock = .empty Int

/-- `start` in client mode, where `Bind` succeeds. -/
def start (s : ClientSocket Address) : ClientSocket Address :=
  { s with provider := s.provider.releaseSelfSockfd s.provider.sockfd }

/-- The socket is available, open and not connected, or it is open and filed for one peer. -/
def Owned (s : ClientSocket Address) : Prop :=
  0 < s.provider.availableSockfd ∧ s.provider.availableSockfd ∈ s.provider.openFds ∧
      s.provider.availableSockfd ∉ s.connectedFds ∨
    s.provider.availableSockfd = 0 ∧ s.provider.sockfd ∈ s.provider.openFds ∧
      ∃! peerFullPath, s.provider.mmAli4sock.get peerFullPath = some s.provider.sockfd

/-- The calls that end no connection: a path that is disconnected has none, and a new connection
gets its thread, or its peer has a looper. -/
def EndsNone (s : ClientSocket Address) : Call → Prop
  | .makeConnection peerFullPath results =>
      ∀ destaddr peerAlias, s.provider.availableSockfd ≠ 0 →
        s.provider.mmAli4addr.get peerFullPath = some destaddr →
        s.provider.mmAli4addr.getAlias destaddr = some peerAlias → results.connected = true →
        results.spawned = true ∨
          s.provider.mLooperPool (s.provider.heap.path peerAlias) ≠ none
  | .disconnection peerFullPath => s.provider.mmAli4sock.get peerFullPath = none

/-- The socket is available and nothing is filed. -/
structure Free (s : ClientSocket Address) : Prop where
  available : s.provider.availableSockfd = s.provider.sockfd
  unconnected : s.provider.sockfd ∉ s.connectedFds
  nothing : ∀ path, s.provider.mmAli4sock.get path = none

/-- The socket is filed under this path, and nothing else is. -/
structure Held (s : ClientSocket Address) (path : Bytes) : Prop where
  available : s.provider.availableSockfd = 0
  filed : s.provider.mmAli4sock.get = PartialMap.empty.insert path s.provider.sockfd

/-- A client with an open socket that is free or held. -/
structure InOrder (s : ClientSocket Address) : Prop where
  client : s.provider.mode = .client
  descriptor : 0 < s.provider.sockfd
  opened : s.provider.sockfd ∈ s.provider.openFds
  place : s.Free ∨ ∃ path, s.Held path

/-- The socket has been closed and is available all the same. -/
structure Closed (s : ClientSocket Address) : Prop where
  descriptor : 0 < s.provider.sockfd
  available : s.provider.availableSockfd = s.provider.sockfd
  closed : s.provider.sockfd ∉ s.provider.openFds

variable {s s' : ClientSocket Address}

theorem InOrder.start (h : s.Inited) : s.start.InOrder := by
  have hstart : s.start.provider = { s.provider with availableSockfd := s.provider.sockfd } :=
    if_pos rfl
  constructor
  · rw [hstart]
    exact h.client
  · rw [hstart]
    exact h.descriptor
  · rw [hstart]
    exact h.opened
  · left
    constructor
    · rw [hstart]
    · rw [hstart]
      exact h.unconnected
    · rw [hstart]
      intro path
      dsimp only
      rw [h.unused]
      rfl

theorem InOrder.owned (h : s.InOrder) : s.Owned := by
  obtain hfree | ⟨path, hheld⟩ := h.place
  · left
    rw [hfree.available]
    exact ⟨h.descriptor, h.opened, hfree.unconnected⟩
  · right
    refine ⟨hheld.available, h.opened, path, ?_, ?_⟩
    · dsimp only
      rw [hheld.filed, PartialMap.insert_self]
    · intro path' hpath'
      by_contra hne
      rw [hheld.filed, PartialMap.insert_of_ne _ hne] at hpath'
      cases hpath'

theorem Closed.not_owned (h : s.Closed) : ¬s.Owned := by
  rintro (⟨-, hopen, -⟩ | ⟨hzero, -, -⟩)
  · rw [h.available] at hopen
    exact h.closed hopen
  · rw [h.available] at hzero
    exact absurd hzero (Int.ne_of_gt h.descriptor)

/-- A client that disconnects the socket's peer closes the socket and makes it available. -/
theorem disconnection_closes {t t' : TcpProvider Address} {path : Bytes}
    (hclient : t.mode = .client) (hget : t.mmAli4sock.get path = some t.sockfd)
    (h : t.disconnection path = .ok t') :
    t'.mode = .client ∧ t'.sockfd = t.sockfd ∧ t'.availableSockfd = t.sockfd ∧
      t'.openFds = t.openFds.erase t.sockfd := by
  rw [TcpProvider.disconnection, hget] at h
  obtain ⟨sock, -, hrest⟩ := bind_eq_ok.mp h
  have hrelease : TcpProvider.releaseSelfSockfd { t.close t.sockfd with mmAli4sock := sock }
      t.sockfd = { t.close t.sockfd with mmAli4sock := sock, availableSockfd := t.sockfd } :=
    if_pos rfl
  dsimp only at hrest
  rw [if_pos (by exact hclient), hrelease] at hrest
  obtain ⟨config, rfl, -⟩ := TcpProvider.unregistConnectedPeer_cases hrest
  exact ⟨hclient, rfl, rfl, rfl⟩

/-- A thread is there if it can be made or the path has a looper. -/
theorem threadCreate_fst (t : TcpProvider Address) (peerAlias : AliasRef) (spawned : Bool) :
    (t.threadCreate peerAlias spawned).1 = true ↔
      spawned = true ∨ t.mLooperPool (t.heap.path peerAlias) ≠ none := by
  rw [TcpProvider.threadCreate]
  split
  · next id hid => simp [hid]
  · next hid =>
      cases spawned with
      | true => simp
      | false => simp [hid]

/-- A connection on the client's own socket is filed if it gets its thread, and closed if not. -/
theorem storeConnection_client {t t' : TcpProvider Address} {peerAlias : Option AliasRef}
    {spawned created : Bool} (hclient : t.mode = .client)
    (hnothing : ∀ path, t.mmAli4sock.get path = none)
    (h : t.storeConnection peerAlias t.sockfd spawned = .ok (created, t')) :
    ∃ ref, peerAlias = some ref ∧ t'.mode = .client ∧ t'.sockfd = t.sockfd ∧
      (created = true ↔ spawned = true ∨ t.mLooperPool (t.heap.path ref) ≠ none) ∧
      (created = true → t'.availableSockfd = t.availableSockfd ∧ t'.openFds = t.openFds ∧
        t'.mmAli4sock.get = PartialMap.empty.insert (t.heap.path ref) t.sockfd) ∧
      (created = false → t'.availableSockfd = t.sockfd ∧
        t'.openFds = t.openFds.erase t.sockfd) := by
  obtain ⟨ref, isNew, sock, mid, rfl, hinsert, hcreate, hend⟩ :=
    TcpProvider.storeConnection_effect h
  have hget : sock.get = PartialMap.empty.insert (t.heap.path ref) t.sockfd := by
    obtain ⟨-, ⟨fd, hfd, -, -, hget, -⟩ | ⟨hthere, -, -⟩⟩ := CAliasAddr.insert_cases hinsert
    · obtain rfl := Option.some.inj hfd
      rw [hget, show t.mmAli4sock.get = PartialMap.empty from funext hnothing]
    · exact absurd (hnothing _) hthere
  have hcreated := threadCreate_fst { t with mmAli4sock := sock } ref spawned
  rw [hcreate] at hcreated
  have hmid : mid.mode = .client ∧ mid.sockfd = t.sockfd ∧
      mid.availableSockfd = t.availableSockfd ∧ mid.openFds = t.openFds ∧
      mid.mmAli4sock = sock ∧ mid.heap = t.heap := by
    obtain rfl | ⟨-, -, rfl⟩ := TcpProvider.threadCreate_effect hcreate
    · exact ⟨hclient, rfl, rfl, rfl, rfl, rfl⟩
    · exact ⟨hclient, rfl, rfl, rfl, rfl, rfl⟩
  obtain ⟨hmode, hsockfd, havailable, hopen, hsock, hheap⟩ := hmid
  obtain ⟨rfl, rfl⟩ | ⟨rfl, hdisconnection⟩ := hend
  · refine ⟨ref, rfl, hmode, hsockfd, hcreated, ?_, by simp⟩
    intro _
    exact ⟨havailable, hopen, by rw [hsock, hget]⟩
  · have hfiled : mid.mmAli4sock.get (mid.heap.path ref) = some mid.sockfd := by
      rw [hsock, hget, hheap, hsockfd, PartialMap.insert_self]
    obtain ⟨hmode', hsockfd', havailable', hopen'⟩ :=
      disconnection_closes hmode hfiled hdisconnection
    refine ⟨ref, rfl, hmode', hsockfd'.trans hsockfd, hcreated, by simp, ?_⟩
    intro _
    rw [havailable', hopen', hsockfd, hopen]
    exact ⟨rfl, rfl⟩

theorem giveBack_client {t : TcpProvider Address} (hclient : t.mode = .client) :
    t.giveBack t.sockfd = { t with availableSockfd := t.sockfd } := by
  rw [TcpProvider.giveBack, if_pos hclient, TcpProvider.releaseSelfSockfd, if_pos rfl]

/-- A client takes its socket, if it is available. -/
theorem makeConnection_client {t t' : TcpProvider Address} {res : Int}
    {path : Bytes} {results : TcpProvider.ConnectResults} (hclient : t.mode = .client)
    (h : t.makeConnection path results = .ok (res, t')) :
    t.availableSockfd = 0 ∧ t' = { t with availableSockfd := 0 } ∨
      t.availableSockfd ≠ 0 ∧ TcpProvider.connectPeer { t with availableSockfd := 0 }
        t.availableSockfd path results = .ok (res, t') := by
  unfold TcpProvider.makeConnection at h
  split at h
  · next hmode => simp [hclient] at hmode
  · next hmode => simp [hclient] at hmode
  · dsimp only at h
    split at h
    · next hzero =>
        cases h
        exact Or.inl ⟨hzero, rfl⟩
    · next hne => exact Or.inr ⟨hne, h⟩
  · next hmode => simp [hclient] at hmode

/-- What a client does with its socket: it gives it back unused, or connects it. -/
theorem connectPeer_client {t t' : TcpProvider Address} {res : Int} {path : Bytes}
    {results : TcpProvider.ConnectResults} (hclient : t.mode = .client)
    (hnothing : ∀ path, t.mmAli4sock.get path = none)
    (h : t.connectPeer t.sockfd path results = .ok (res, t')) :
    ¬(t.mmAli4addr.get path ≠ none ∧ results.connected = true) ∧
        t' = { t with availableSockfd := t.sockfd } ∨
      ∃ destaddr ref, t.mmAli4addr.get path = some destaddr ∧
        t.mmAli4addr.getAlias destaddr = some ref ∧ results.connected = true ∧
        t'.mode = .client ∧ t'.sockfd = t.sockfd ∧
        ((results.spawned = true ∨ t.mLooperPool (t.heap.path ref) ≠ none) ∧
            t'.availableSockfd = t.availableSockfd ∧ t'.openFds = t.openFds ∧
            t'.mmAli4sock.get = PartialMap.empty.insert (t.heap.path ref) t.sockfd ∨
          ¬(results.spawned = true ∨ t.mLooperPool (t.heap.path ref) ≠ none) ∧
            t'.availableSockfd = t.sockfd ∧ t'.openFds = t.openFds.erase t.sockfd) := by
  rw [TcpProvider.connectPeer] at h
  cases hget : t.mmAli4addr.get path with
  | none =>
      simp only [hget, giveBack_client hclient] at h
      cases h
      exact Or.inl ⟨by simp, rfl⟩
  | some destaddr =>
      simp only [hget] at h
      cases hconnected : results.connected with
      | false =>
          rw [hconnected, if_neg (by simp), giveBack_client hclient] at h
          cases h
          exact Or.inl ⟨by simp, rfl⟩
      | true =>
          rw [hconnected, if_pos rfl] at h
          obtain ⟨⟨created, mid⟩, hstore, h⟩ := bind_eq_ok.mp h
          obtain ⟨ref, halias, hmode, hsockfd, hcreated, hkept, hlost⟩ :=
            storeConnection_client hclient hnothing hstore
          refine Or.inr ⟨destaddr, ref, rfl, halias, rfl, ?_⟩
          cases created with
          | true =>
              cases h
              exact ⟨hmode, hsockfd, Or.inl ⟨hcreated.mp rfl, hkept rfl⟩⟩
          | false =>
              dsimp only at h
              rw [if_neg (by simp), ← hsockfd, giveBack_client hmode] at h
              cases h
              refine ⟨hmode, hsockfd, Or.inr ⟨fun hthread => ?_, hsockfd, (hlost rfl).2⟩⟩
              exact absurd (hcreated.mpr hthread) (by simp)

/-- A disconnection closes the socket if it finds its path. -/
theorem InOrder.disconnection (h : s.InOrder) {path : Bytes}
    (hstep : s.Step (.disconnection path) s') :
    (s.EndsNone (.disconnection path) → s'.InOrder) ∧
      (¬s.EndsNone (.disconnection path) → s'.Closed) := by
  obtain ⟨t', hrun, hs'⟩ := bind_eq_ok.mp hstep
  cases hs'
  change s.provider.disconnection path = .ok t' at hrun
  constructor
  · intro hnone
    have hnone : s.provider.mmAli4sock.get path = none := hnone
    rw [TcpProvider.disconnection, hnone] at hrun
    cases hrun
    refine ⟨h.client, h.descriptor, h.opened, ?_⟩
    obtain hfree | ⟨path', hheld⟩ := h.place
    · refine Or.inl ⟨hfree.available, ?_, hfree.nothing⟩
      intro hconnected
      simp [connects, hfree.unconnected] at hconnected
    · exact Or.inr ⟨path', hheld.available, hheld.filed⟩
  · intro hthere
    have hfiled : s.provider.mmAli4sock.get path = some s.provider.sockfd := by
      obtain hfree | ⟨path', hheld⟩ := h.place
      · exact absurd (hfree.nothing path) hthere
      · by_cases hpath : path = path'
        · rw [hheld.filed, hpath, PartialMap.insert_self]
        · refine absurd ?_ hthere
          change s.provider.mmAli4sock.get path = none
          rw [hheld.filed, PartialMap.insert_of_ne _ hpath]
          rfl
    obtain ⟨-, hsockfd, havailable, hopen⟩ := disconnection_closes h.client hfiled hrun
    constructor
    · exact hsockfd ▸ h.descriptor
    · exact havailable.trans hsockfd.symm
    · dsimp only
      rw [hopen, hsockfd]
      exact Finset.notMem_erase _ _

/-- A connection files the socket, or closes it if it gets no thread. -/
theorem InOrder.makeConnection (h : s.InOrder) {path : Bytes}
    {results : TcpProvider.ConnectResults} (hstep : s.Step (.makeConnection path results) s') :
    (s.EndsNone (.makeConnection path results) → s'.InOrder) ∧
      (¬s.EndsNone (.makeConnection path results) → s'.Closed) := by
  obtain ⟨t', hrun, hs'⟩ := bind_eq_ok.mp hstep
  cases hs'
  obtain ⟨⟨res, t'⟩, hcall, rfl⟩ := map_eq_ok.mp hrun
  obtain ⟨hzero, rfl⟩ | ⟨hne, hcall⟩ := makeConnection_client h.client hcall
  · constructor
    · intro _
      obtain hfree | ⟨path', hheld⟩ := h.place
      · exact absurd (hfree.available.symm.trans hzero) (Int.ne_of_gt h.descriptor)
      · exact ⟨h.client, h.descriptor, h.opened, Or.inr ⟨path', rfl, hheld.filed⟩⟩
    · intro hends
      refine absurd ?_ hends
      intro destaddr peerAlias hne
      exact absurd hzero hne
  · obtain hfree | ⟨path', hheld⟩ := h.place
    · rw [hfree.available] at hcall
      obtain ⟨hunconnected, rfl⟩ | ⟨destaddr, ref, hget, halias, hconnected, hmode, hsockfd,
          ⟨hthread, havailable, hopen, hfiled⟩ | ⟨hthread, havailable, hopen⟩⟩ :=
        connectPeer_client (t := { s.provider with availableSockfd := 0 }) h.client
          hfree.nothing hcall
      · constructor
        · intro _
          refine ⟨h.client, h.descriptor, h.opened, Or.inl ⟨rfl, ?_, hfree.nothing⟩⟩
          intro hmem
          have hmem := (Finset.mem_inter.mp hmem).1
          rw [connects, if_neg (fun hconnects => hunconnected hconnects.2),
            Finset.union_empty] at hmem
          exact hfree.unconnected hmem
        · intro hends
          refine absurd ?_ hends
          intro destaddr peerAlias _ hget _ hconnected
          exact absurd ⟨by simp [hget], hconnected⟩ hunconnected
      · constructor
        · intro _
          refine ⟨hmode, hsockfd ▸ h.descriptor, ?_,
            Or.inr ⟨s.provider.heap.path ref, havailable, ?_⟩⟩
          · dsimp only
            rw [hopen, hsockfd]
            exact h.opened
          · dsimp only
            rw [hfiled, hsockfd]
        · intro hends
          refine absurd ?_ hends
          rintro destaddr' ref' - hget' halias' -
          obtain rfl := Option.some.inj (hget.symm.trans hget')
          obtain rfl := Option.some.inj (halias.symm.trans halias')
          exact hthread
      · constructor
        · intro hnone
          exact absurd (hnone destaddr ref hne hget halias hconnected) hthread
        · intro _
          refine ⟨hsockfd ▸ h.descriptor, havailable.trans hsockfd.symm, ?_⟩
          dsimp only
          rw [hopen, hsockfd]
          exact Finset.notMem_erase _ _
    · exact absurd hheld.available hne

/-- What a call leaves of a client in order: it is in order again if the call ends no connection,
and its socket is closed if it does. -/
theorem InOrder.step (h : s.InOrder) {call : Call} (hstep : s.Step call s') :
    (s.EndsNone call → s'.InOrder) ∧ (¬s.EndsNone call → s'.Closed) := by
  cases call with
  | makeConnection path results => exact h.makeConnection hstep
  | disconnection path => exact h.disconnection hstep

/-- In every run whose calls end no connection the socket is owned properly, and a call that ends
one loses it. -/
theorem owned_of_run (hinited : s.Inited)
    (run : GuardedRun Step EndsNone s.start s') :
    s'.Owned ∧ ∀ call s'', s'.Step call s'' → (s''.Owned ↔ s'.EndsNone call) := by
  have hinOrder : s'.InOrder := by
    apply run.invariant (InOrder.start hinited)
    intro t call t' h hnone hstep
    exact (h.step hstep).1 hnone
  refine ⟨hinOrder.owned, ?_⟩
  intro call s'' hstep
  obtain ⟨hkeeps, hcloses⟩ := hinOrder.step hstep
  constructor
  · intro howned
    by_contra hends
    exact (hcloses hends).not_owned howned
  · intro hnone
    exact (hkeeps hnone).owned

/-- A TCP client with the socket 3 that knows one peer. -/
def localClient : ClientSocket Nat :=
  { provider := { TcpProvider.started Nat .client 3
        { pathParent := [0x61]
          name := [0x63]
          type := .transTCP
          convertible := IAliasPVD.convertible_transTCP } with
      heap := {
        objects := fun ref => {
          pathParent := [0x61]
          name := [0x70, UInt8.ofNat ref]
          type := .transTCP
          convertible := IAliasPVD.convertible_transTCP }
        nextRef := 2 }
      mmAli4addr := {
        mmAddr := PartialMap.empty.insert [0x61, 0x2F, 0x70, 1]
          { address := 7, connectFlag := false }
        mmAlias := PartialMap.empty.insert 7 1 }
      openFds := {3} }
    connectedFds := ∅ }

theorem localClient_inited : localClient.Inited := by
  constructor
  · rfl
  · decide
  · exact Finset.mem_singleton_self 3
  · exact Finset.notMem_empty 3
  · rfl

/-- A connection that succeeds and gets its thread. -/
def connected : TcpProvider.ConnectResults :=
  { newSockfd := 0, bound := true, connected := true, spawned := true }

/-- The client connects to its peer. -/
theorem localClient_connects :
    ∃ s', GuardedRun Step EndsNone localClient.start s' ∧ s'.provider.availableSockfd = 0 ∧
      s'.Owned ∧ ∀ s'', s'.Step (.disconnection [0x61, 0x2F, 0x70, 1]) s'' → ¬s''.Owned := by
  have hrun : GuardedRun Step EndsNone localClient.start _ :=
    .next .start (a := .makeConnection [0x61, 0x2F, 0x70, 1] connected)
      (fun _ _ _ _ _ _ => Or.inl rfl) rfl
  obtain ⟨howned, hstep⟩ := owned_of_run localClient_inited hrun
  refine ⟨_, hrun, rfl, howned, ?_⟩
  intro s'' hdisconnection howned'
  have hnone := (hstep _ s'' hdisconnection).mp howned'
  cases hnone

/-- The client disconnects again: its socket is closed, and available to the next connection. -/
theorem localClient_not_owned :
    ∃ s', Reachable Step localClient.start s' ∧ s'.provider.availableSockfd = 3 ∧
      3 ∉ s'.provider.openFds ∧ ¬s'.Owned := by
  have hrun : Reachable Step localClient.start _ :=
    .next (.next .start trivial (a := .makeConnection [0x61, 0x2F, 0x70, 1] connected) rfl)
      trivial (a := .disconnection [0x61, 0x2F, 0x70, 1]) rfl
  refine ⟨_, hrun, rfl, by decide, ?_⟩
  exact Closed.not_owned ⟨by decide, rfl, by decide⟩

end ClientSocket

end CommonCommunicator
