import CommonCommunicator.Lib.SessionTable
import CommonCommunicator.Provider.MadeAliases
import CommonCommunicator.Provider.PeerTakeover

/-!
# The receivers of the connections

`run_receiver` looks its descriptor up once, under the path of its alias, and
reads from it until it ends, whatever becomes of the entry in `_mm_ali4sock_`.
`thread_create` makes no receiver for a path that has a looper. A receiver whose
connection somebody else has closed goes on reading a number that the kernel may
give away again. As long as connections are stored and renamed only while there
is no such receiver, each is read by one receiver of its own. Each operation is
one step here, also a rename and the end of a receiver.
-/

namespace CommonCommunicator

open Lib

/-- A TCP provider with the variable `socket_fd` of each `run_receiver`. -/
structure TcpReaders (Address : Type) where
  provider : TcpProvider Address
  socketFd : PartialMap Nat Int

namespace TcpReaders

variable {Address : Type}

/-- A provider that has just been started has no receivers. -/
def started (Address : Type) (mode : ProviderMode) (sockfd : Int) (pvd : IAliasPVD) :
    TcpReaders Address :=
  { provider := .started Address mode sockfd pvd, socketFd := .empty }

/-- The present path of a looper that has not ended. -/
def sessionPath (s : TcpReaders Address) (id : Nat) : Option Bytes :=
  match s.provider.loopers[id]? with
  | none => none
  | some looper =>
      if looper.phase = .ended then none else some (s.provider.heap.path looper.peerAlias)

/-- The descriptor that a receiver reads from. -/
def reading (s : TcpReaders Address) (id : Nat) : Option Int :=
  match s.provider.phase id with
  | some .running => s.socketFd id
  | _ => none

/-- The descriptor that `run_receiver` finds when it starts. -/
def foundFd (s : TcpReaders Address) (id : Nat) : Option Int :=
  match s.provider.loopers[id]? with
  | none => none
  | some looper => s.provider.mmAli4sock.get (s.provider.heap.path looper.peerAlias)

variable [DecidableEq Address]

/-- One step of the provider; a receiver that starts keeps the descriptor that it finds. -/
def next (getIpPort : Address → Outcome (Option (Bytes × Nat))) (s : TcpReaders Address)
    (a : TcpProvider.Action Address) : Option (TcpReaders Address) :=
  (TcpProvider.next getIpPort s.provider a).map fun provider =>
    { provider := provider
      socketFd :=
        match a with
        | .receiverStart id => Function.update s.socketFd id (s.foundFd id)
        | _ => s.socketFd }

/-- The steps as a relation. -/
def Step (getIpPort : Address → Outcome (Option (Bytes × Nat))) (s : TcpReaders Address)
    (a : TcpProvider.Action Address) (s' : TcpReaders Address) : Prop :=
  next getIpPort s a = some s'

omit [DecidableEq Address] in
/-- Each looper that has not ended has a connection under its path: none has been closed under a
receiver that goes on. -/
def Attended (s : TcpReaders Address) : Prop :=
  ∀ id < s.provider.loopers.length, ∀ path ∈ s.sessionPath id,
    s.provider.mmAli4sock.get path ≠ none

instance {s : TcpReaders Address} : Decidable s.Attended :=
  inferInstanceAs (Decidable (∀ _ < _, ∀ _ ∈ _, _))

omit [DecidableEq Address] in
/-- A connection may be stored under the path: there is none yet, no looper is filed under it, and
no looper goes on without its connection. -/
def Vacant (s : TcpReaders Address) (path : Bytes) : Prop :=
  s.provider.mmAli4sock.get path = none ∧ s.provider.mLooperPool path = none ∧ s.Attended

instance {s : TcpReaders Address} {path : Bytes} : Decidable (s.Vacant path) :=
  inferInstanceAs (Decidable (_ ∧ _ ∧ _))

omit [DecidableEq Address] in
/-- The path is vacant, or has a connection and a looper, and then nothing is stored. -/
def Storable (s : TcpReaders Address) (path : Bytes) : Prop :=
  s.Vacant path ∨
    s.provider.mmAli4sock.get path ≠ none ∧ s.provider.mLooperPool path ≠ none

instance {s : TcpReaders Address} {path : Bytes} : Decidable (s.Storable path) :=
  inferInstanceAs (Decidable (_ ∨ _ ∧ _))

/-- A step that stores connections under vacant paths only, and renames a running receiver to a
full path with an application part that has no connection, while no looper goes on without its
connection. -/
def KeepsReaders (getIpPort : Address → Outcome (Option (Bytes × Nat))) (s : TcpReaders Address) :
    TcpProvider.Action Address → Prop
  | .serverAccept newsockfd newCliaddr _ => newsockfd < 0 ∨
      ∀ path ∈ s.provider.acceptedPath getIpPort newCliaddr, s.Storable path
  | .makeConnection peerFullPath results => results.connected = true →
      ∀ destaddr ∈ s.provider.mmAli4addr.get peerFullPath,
        ∀ ref ∈ s.provider.mmAli4addr.getAlias destaddr,
          s.Storable (s.provider.heap.path ref)
  | .updatePeerAlias id fullPath => ∀ looper ∈ s.provider.loopers[id]?,
      ∀ target ∈ TcpProvider.renameTarget looper.peerFullPath fullPath,
        looper.phase = .running ∧ target.1 ≠ [] ∧ s.provider.mmAli4sock.get fullPath = none ∧
          s.Attended
  | _ => True

instance {getIpPort : Address → Outcome (Option (Bytes × Nat))} (s : TcpReaders Address) :
    DecidablePred (s.KeepsReaders getIpPort) := fun a =>
  match a with
  | .serverAccept _ _ _ => inferInstanceAs (Decidable (_ ∨ ∀ _ ∈ _, _))
  | .makeConnection _ _ => inferInstanceAs (Decidable (_ → ∀ _ ∈ _, ∀ _ ∈ _, _))
  | .updatePeerAlias _ _ => inferInstanceAs (Decidable (∀ _ ∈ _, ∀ _ ∈ _, _ ∧ _ ∧ _ ∧ _))
  | .appendPvdAlias _ => inferInstanceAs (Decidable True)
  | .updateAliasMapper _ _ => inferInstanceAs (Decidable True)
  | .registerNewAlias _ _ _ _ => inferInstanceAs (Decidable True)
  | .receiverStart _ => inferInstanceAs (Decidable True)
  | .receiverEnd _ => inferInstanceAs (Decidable True)
  | .disconnection _ => inferInstanceAs (Decidable True)

/-- The connections and their receivers as a table of sessions. -/
def sessions (s : TcpReaders Address) : SessionTable Nat Bytes Int :=
  { table := s.provider.mmAli4sock.get, name := s.sessionPath, reads := s.reading }

section Sessions

variable {p p' : TcpProvider Address} {socketFd : PartialMap Nat Int}

omit [DecidableEq Address] in
/-- The table sees the stored descriptors, the loopers and the names of their aliases. -/
theorem sessions_congr (hsock : p'.mmAli4sock.get = p.mmAli4sock.get)
    (hloopers : p'.loopers = p.loopers)
    (hpath : ∀ (id : Nat) (looper : CLooper), p.loopers[id]? = some looper →
      p'.heap.path looper.peerAlias = p.heap.path looper.peerAlias) :
    (mk p' socketFd).sessions = (mk p socketFd).sessions := by
  have hname : (mk p' socketFd).sessionPath = (mk p socketFd).sessionPath := by
    funext id
    simp only [sessionPath, hloopers]
    cases hlooper : p.loopers[id]? with
    | none => rfl
    | some looper => simp only [hpath id looper hlooper]
  have hreads : (mk p' socketFd).reading = (mk p socketFd).reading := by
    funext id
    simp only [reading, TcpProvider.phase, hloopers]
  simp only [sessions, hsock, hname, hreads]

omit [DecidableEq Address] in
/-- A looper is replaced, and its variable set. -/
theorem sessions_set (p : TcpProvider Address) (socketFd : PartialMap Nat Int) {id : Nat}
    {looper : CLooper} (looper' : CLooper) (found : Option Int)
    (hlooper : p.loopers[id]? = some looper) :
    (mk { p with loopers := p.loopers.set id looper' }
        (Function.update socketFd id found)).sessions =
      { table := p.mmAli4sock.get
        name := Function.update (mk p socketFd).sessionPath id
          (if looper'.phase = .ended then none else some (p.heap.path looper'.peerAlias))
        reads := Function.update (mk p socketFd).reading id
          (match looper'.phase with
            | .running => found
            | _ => none) } := by
  have hlt : id < p.loopers.length := (List.getElem?_eq_some_iff.mp hlooper).1
  have hself : (p.loopers.set id looper')[id]? = some looper' := List.getElem?_set_self hlt
  have hname : (mk { p with loopers := p.loopers.set id looper' }
      (Function.update socketFd id found)).sessionPath =
        Function.update (mk p socketFd).sessionPath id
          (if looper'.phase = .ended then none else some (p.heap.path looper'.peerAlias)) := by
    funext id'
    by_cases hid : id' = id
    · subst hid
      simp only [sessionPath, hself, Function.update_self]
    · simp only [sessionPath, Function.update_of_ne hid, List.getElem?_set_ne (Ne.symm hid)]
  have hreads : (mk { p with loopers := p.loopers.set id looper' }
      (Function.update socketFd id found)).reading =
        Function.update (mk p socketFd).reading id
          (match looper'.phase with
            | .running => found
            | _ => none) := by
    funext id'
    by_cases hid : id' = id
    · subst hid
      simp only [reading, TcpProvider.phase, hself, Option.map_some, Function.update_self]
      cases looper'.phase <;> rfl
    · simp [reading, TcpProvider.phase, Function.update_of_ne hid,
        List.getElem?_set_ne (Ne.symm hid)]
  simp only [sessions, hname, hreads]

omit [DecidableEq Address] in
/-- `disconnection` removes the entry; the looper goes on. -/
theorem disconnection_sessions (socketFd : PartialMap Nat Int) {path : Bytes}
    (h : p.disconnection path = .ok p') :
    (mk p' socketFd).sessions =
      { (mk p socketFd).sessions with table := PartialMap.erase p.mmAli4sock.get path } := by
  obtain ⟨hnone, rfl⟩ | ⟨fd, sock, available, config, hget, hremove, -, rfl⟩ :=
    TcpProvider.disconnection_effect h
  · have hsame : PartialMap.erase p'.mmAli4sock.get path = p'.mmAli4sock.get :=
      Function.update_eq_self_iff.mpr hnone.symm
    rw [hsame]
    rfl
  · obtain ⟨hnone, -⟩ | ⟨addr, -, -, hget', -⟩ := CAliasAddr.remove_cases hremove
    · rw [hget] at hnone
      cases hnone
    · rw [← hget']
      rfl

omit [DecidableEq Address] in
/-- A new looper is the session of its path. -/
theorem sessions_append (p : TcpProvider Address) (socketFd : PartialMap Nat Int) (ref : AliasRef)
    (pool : PartialMap Bytes Nat) :
    (mk { p with
        loopers := p.loopers ++ [{ peerAlias := ref, phase := .created, peerFullPath := [] }]
        mLooperPool := pool } socketFd).sessions =
      { (mk p socketFd).sessions with
        name := PartialMap.insert (mk p socketFd).sessionPath p.loopers.length
          (p.heap.path ref) } := by
  have hother : ∀ (id : Nat) (looper : CLooper), id ≠ p.loopers.length →
      (p.loopers ++ [looper])[id]? = p.loopers[id]? := by
    intro id looper hid
    rw [List.getElem?_append]
    split
    · rfl
    · next hlt =>
        have hfar : p.loopers.length < id := by omega
        have hlast : [looper].length ≤ id - p.loopers.length := by
          rw [List.length_singleton]
          omega
        rw [List.getElem?_eq_none hlast, List.getElem?_eq_none (Nat.le_of_lt hfar)]
  have hname : (mk { p with
        loopers := p.loopers ++ [{ peerAlias := ref, phase := .created, peerFullPath := [] }]
        mLooperPool := pool } socketFd).sessionPath =
      PartialMap.insert (mk p socketFd).sessionPath p.loopers.length (p.heap.path ref) := by
    funext id
    rw [PartialMap.insert_apply]
    split
    · next hid =>
        subst hid
        simp [sessionPath]
    · next hid => simp only [sessionPath, hother id _ hid]
  have hreads : (mk { p with
        loopers := p.loopers ++ [{ peerAlias := ref, phase := .created, peerFullPath := [] }]
        mLooperPool := pool } socketFd).reading = (mk p socketFd).reading := by
    funext id
    by_cases hid : id = p.loopers.length
    · subst hid
      simp [reading, TcpProvider.phase]
    · simp only [reading, TcpProvider.phase, hother id _ hid]
  simp only [sessions, hname, hreads]

omit [DecidableEq Address] in
/-- No looper has an index behind the last one. -/
theorem sessionPath_length : (mk p socketFd).sessionPath p.loopers.length = none := by
  simp [sessionPath]

omit [DecidableEq Address] in
theorem reading_length : (mk p socketFd).reading p.loopers.length = none := by
  simp [reading, TcpProvider.phase]

omit [DecidableEq Address] in
/-- What is asked of the loopers there are holds of every index. -/
theorem Attended.stored (h : (mk p socketFd).Attended) {id : Nat} {path : Bytes}
    (hname : (mk p socketFd).sessionPath id = some path) : p.mmAli4sock.get path ≠ none := by
  by_cases hid : id < p.loopers.length
  · exact h id hid path hname
  · simp [sessionPath, List.getElem?_eq_none (Nat.le_of_not_lt hid)] at hname

omit [DecidableEq Address] in
/-- No looper goes on under a path without a connection. -/
theorem Attended.unnamed (h : (mk p socketFd).Attended) {path : Bytes}
    (hfree : p.mmAli4sock.get path = none) (id : Nat) :
    (mk p socketFd).sessionPath id ≠ some path :=
  fun hname => h.stored hname hfree

omit [DecidableEq Address] in
/-- No receiver reads a descriptor that is not stored: it reads the one under its own path. -/
theorem Attended.unread (h : (mk p socketFd).Attended)
    (hreader : (mk p socketFd).sessions.OneReader)
    {fd : Int} (hunstored : ∀ path, p.mmAli4sock.get path ≠ some fd) (id : Nat) :
    (mk p socketFd).reading id ≠ some fd := by
  intro hreads
  have hphase : p.phase id = some .running := by
    rw [reading] at hreads
    split at hreads
    · assumption
    · cases hreads
  obtain ⟨looper, hlooper, hrunning⟩ := Option.map_eq_some_iff.mp hphase
  have hname : (mk p socketFd).sessionPath id = some (p.heap.path looper.peerAlias) := by
    simp [sessionPath, hlooper, hrunning]
  obtain ⟨found, hfound⟩ := Option.ne_none_iff_exists'.mp (h.stored hname)
  obtain ⟨id', hname', hown⟩ := hreader.served _ found hfound
  obtain rfl := hreader.named id' id _ hname' hname
  obtain rfl : fd = found := hown fd hreads
  exact hunstored _ hfound

omit [DecidableEq Address] in
/-- A connection that is stored under a vacant path gets a looper of its own, or is given up. -/
theorem storeVacant_moves {ref : AliasRef} {fd : Int} {spawned created : Bool}
    (hone : p.mmAli4sock.OneToOne) (hreader : (mk p socketFd).sessions.OneReader)
    (hvacant : (mk p socketFd).Vacant (p.heap.path ref))
    (h : p.storeConnection (some ref) fd spawned = .ok (created, p')) :
    (mk p socketFd).sessions.Moves (mk p' socketFd).sessions := by
  obtain ⟨hfree, hpool, hattended⟩ := hvacant
  obtain ⟨ref', isNew, sock, mid, halias, hinsert, hcreate, hend⟩ :=
    TcpProvider.storeConnection_effect h
  cases halias
  obtain ⟨-, ⟨addr, haddr, -, hnew, hget, -⟩ | ⟨hthere, -, -⟩⟩ := CAliasAddr.insert_cases hinsert
  · cases haddr
    have hunstored : ∀ path, p.mmAli4sock.get path ≠ some fd :=
      fun path hstored => hone.stored path fd hstored hnew
    rw [TcpProvider.threadCreate] at hcreate
    dsimp only at hcreate
    rw [hpool] at hcreate
    dsimp only at hcreate
    cases spawned with
    | true =>
        cases hcreate
        obtain ⟨-, rfl⟩ | ⟨hfalse, -⟩ := hend
        · have hlast := sessions_append { p with mmAli4sock := sock } socketFd ref
            (p.mLooperPool.insert (p.heap.path ref) p.loopers.length)
          dsimp only at hlast
          refine Or.inr ⟨.opened p.loopers.length (p.heap.path ref) fd, ?_⟩
          rw [hlast]
          have hstep := SessionTable.Step.opened (s := (mk p socketFd).sessions) hfree
            sessionPath_length reading_length (hattended.unnamed hfree) hunstored
            (hattended.unread hreader hunstored)
          have htable : (mk p socketFd).sessions.table.insert (p.heap.path ref) fd = sock.get :=
            hget.symm
          rw [htable] at hstep
          exact hstep
        · cases hfalse
    | false =>
        cases hcreate
        obtain ⟨hfalse, -⟩ | ⟨-, hdisconnect⟩ := hend
        · cases hfalse
        · left
          rw [disconnection_sessions socketFd hdisconnect]
          have htable : PartialMap.erase sock.get (p.heap.path ref) = p.mmAli4sock.get := by
            rw [hget]
            exact PartialMap.erase_insert hfree
          dsimp only
          rw [htable]
          rfl
  · exact absurd hfree hthere

omit [DecidableEq Address] in
theorem storeConnection_moves {ref : AliasRef} {fd : Int} {spawned created : Bool}
    (hone : p.mmAli4sock.OneToOne) (hreader : (mk p socketFd).sessions.OneReader)
    (hstorable : (mk p socketFd).Storable (p.heap.path ref))
    (h : p.storeConnection (some ref) fd spawned = .ok (created, p')) :
    (mk p socketFd).sessions.Moves (mk p' socketFd).sessions := by
  obtain hvacant | ⟨hthere, hlooper⟩ := hstorable
  · exact storeVacant_moves hone hreader hvacant h
  · obtain ⟨ref', isNew, sock, mid, halias, hinsert, hcreate, hend⟩ :=
      TcpProvider.storeConnection_effect h
    cases halias
    have hget : sock.get = p.mmAli4sock.get := by
      obtain ⟨-, ⟨addr, -, hfree, -⟩ | ⟨-, hget, -⟩⟩ := CAliasAddr.insert_cases hinsert
      · exact absurd hfree hthere
      · exact hget
    rw [TcpProvider.threadCreate] at hcreate
    dsimp only at hcreate hlooper
    split at hcreate
    · cases hcreate
      obtain ⟨-, rfl⟩ | ⟨hfalse, -⟩ := hend
      · exact Or.inl (sessions_congr hget rfl fun _ _ _ => rfl)
      · cases hfalse
    · next hnone => exact absurd hnone hlooper

omit [DecidableEq Address] in
/-- What a looper has captured is not seen. -/
theorem sessions_captured (p : TcpProvider Address) (socketFd : PartialMap Nat Int) {id : Nat}
    {looper : CLooper} (captured : Bytes) (hlooper : p.loopers[id]? = some looper) :
    (mk { p with loopers := p.loopers.set id { looper with peerFullPath := captured } }
        socketFd).sessions = (mk p socketFd).sessions := by
  have hset := sessions_set p socketFd { looper with peerFullPath := captured } (socketFd id)
    hlooper
  rw [Function.update_eq_self] at hset
  rw [hset]
  have hname : Function.update (mk p socketFd).sessionPath id
      (if looper.phase = .ended then none else some (p.heap.path looper.peerAlias)) =
        (mk p socketFd).sessionPath := by
    rw [Function.update_eq_self_iff]
    simp only [sessionPath, hlooper]
  have hreads : Function.update (mk p socketFd).reading id
      (match looper.phase with
        | .running => socketFd id
        | _ => none) = (mk p socketFd).reading := by
    rw [Function.update_eq_self_iff]
    simp only [reading, TcpProvider.phase, hlooper, Option.map_some]
    cases looper.phase <;> rfl
  dsimp only
  rw [hname, hreads]
  rfl

omit [DecidableEq Address] in
/-- No two loopers that go on have the same alias. -/
theorem alias_unique (h : (mk p socketFd).sessions.OneReader) {id id' : Nat}
    {looper looper' : CLooper} (hlooper : p.loopers[id]? = some looper)
    (hlive : looper.phase ≠ .ended) (hlooper' : p.loopers[id']? = some looper')
    (hlive' : looper'.phase ≠ .ended) (hsame : looper'.peerAlias = looper.peerAlias) :
    id' = id := by
  apply h.named id' id (p.heap.path looper.peerAlias)
  · simp only [sessions, sessionPath, hlooper', if_neg hlive', hsame]
  · simp only [sessions, sessionPath, hlooper, if_neg hlive]

omit [DecidableEq Address] in
/-- The alias of a looper that goes on is renamed; no other session has this alias. -/
theorem sessions_rename {id : Nat} {looper : CLooper} {newApp newPvd : Bytes}
    {config : CConfigAliases} {sock : CAliasAddr Int} {callbacks : List ConnectionCallback}
    (h : (mk p socketFd).sessions.OneReader) (hlooper : p.loopers[id]? = some looper)
    (hlive : looper.phase ≠ .ended) :
    (mk { p with
        heap := p.heap.update looper.peerAlias newApp newPvd
        config := config
        mmAli4sock := sock
        callbacks := callbacks } socketFd).sessions =
      { (mk p socketFd).sessions with
        table := sock.get
        name := PartialMap.insert (mk p socketFd).sessionPath id
          (IAliasPVD.makeFullPath newApp newPvd) } := by
  have hname : (mk { p with
        heap := p.heap.update looper.peerAlias newApp newPvd
        config := config
        mmAli4sock := sock
        callbacks := callbacks } socketFd).sessionPath =
      PartialMap.insert (mk p socketFd).sessionPath id
        (IAliasPVD.makeFullPath newApp newPvd) := by
    funext id'
    rw [PartialMap.insert_apply]
    split
    · next hid =>
        subst hid
        simp only [sessionPath, hlooper, if_neg hlive, AliasHeap.update_path_self]
    · next hid =>
        simp only [sessionPath]
        cases hfound : p.loopers[id']? with
        | none => rfl
        | some found =>
            dsimp only
            split
            · rfl
            · next hgoes =>
                have halias : found.peerAlias ≠ looper.peerAlias :=
                  fun hsame => hid (alias_unique h hlooper hlive hfound hgoes hsame)
                simp only [AliasHeap.path, AliasHeap.update, Function.update_of_ne halias]
  simp only [sessions, hname]
  rfl

omit [DecidableEq Address] in
/-- A rename to a free full path takes the entry of the session along. -/
theorem renameBy_moves {id : Nat} {fullPath : Bytes} (h : (mk p socketFd).sessions.OneReader)
    (hcaptured : ∀ (id : Nat) (looper : CLooper), p.loopers[id]? = some looper →
      looper.phase = .running → looper.peerFullPath = p.heap.path looper.peerAlias)
    (hguard : ∀ looper ∈ p.loopers[id]?,
      ∀ target ∈ TcpProvider.renameTarget looper.peerFullPath fullPath,
        looper.phase = .running ∧ target.1 ≠ [] ∧ p.mmAli4sock.get fullPath = none ∧
          (mk p socketFd).Attended)
    (hstep : p.renameBy id fullPath = .ok p') :
    (mk p socketFd).sessions.Moves (mk p' socketFd).sessions := by
  obtain ⟨looper, captured, mid, hlooper, hrename, rfl⟩ := TcpProvider.renameBy_effect hstep
  obtain ⟨-, rfl, rfl⟩ | ⟨newApp, newPvd, config, sock, found, isNew, sock', config', callbacks,
    htarget, -, hremove, hinsert, -, hfull, rfl⟩ := TcpProvider.updatePeerAlias_effect hrename
  · exact Or.inl (sessions_captured _ socketFd looper.peerFullPath hlooper)
  · subst captured
    obtain ⟨hrunning, happ, hfree, hattended⟩ := hguard looper hlooper (newApp, newPvd) htarget
    have hlive : looper.phase ≠ .ended := by
      rw [hrunning]
      exact ReceiverPhase.noConfusion
    have hown : looper.peerFullPath = p.heap.path looper.peerAlias :=
      hcaptured id looper hlooper hrunning
    have hpath : IAliasPVD.makeFullPath newApp newPvd = fullPath := by
      rw [TcpProvider.renameTarget] at htarget
      split at htarget
      · cases htarget
      · exact IAliasPVD.makeFullPath_of_decompose htarget happ
    have hself : (mk p socketFd).sessionPath id = some (p.heap.path looper.peerAlias) := by
      simp only [sessionPath, hlooper]
      rw [if_neg hlive]
    have hnone : ∀ id', (mk p socketFd).sessions.name id' ≠ some fullPath :=
      hattended.unnamed hfree
    obtain ⟨hmissing, rfl⟩ | ⟨fd, hget, -, hget', -⟩ := CAliasAddr.remove_cases hremove
    · obtain ⟨-, ⟨addr, haddr, -⟩ | ⟨hthere, -⟩⟩ := CAliasAddr.insert_cases hinsert
      · rw [hmissing] at haddr
        cases haddr
      · rw [AliasHeap.update_path_self, hpath] at hthere
        exact absurd hfree hthere
    · have hfree' : sock.get fullPath = none := by
        rw [hget', PartialMap.erase_apply, hfree, ite_self]
      obtain ⟨-, ⟨addr, haddr, -, -, hlast, -⟩ | ⟨hthere, -⟩⟩ := CAliasAddr.insert_cases hinsert
      · rw [hget] at haddr
        cases haddr
        rw [AliasHeap.update_path_self, hpath, hget', hown] at hlast
        refine Or.inr ⟨.renamed id fullPath, ?_⟩
        have hset := sessions_captured { p with
            heap := p.heap.update looper.peerAlias newApp newPvd
            config := config'
            mmAli4sock := sock'
            callbacks := callbacks } socketFd fullPath hlooper
        dsimp only at hset
        rw [hset, sessions_rename h hlooper hlive, hpath, hlast]
        rw [hown] at hget
        exact .renamed hself hget hfree hnone
      · rw [AliasHeap.update_path_self, hpath] at hthere
        exact absurd hfree' hthere

omit [DecidableEq Address] in
/-- A receiver starts with the descriptor that is stored under its path. -/
theorem receiverStart_moves (socketFd : PartialMap Nat Int) {id : Nat}
    (hphase : p.phase id = some .created)
    (h : p.receiverStart id = .ok p') :
    (mk p socketFd).sessions.Moves
        (mk p' (Function.update socketFd id ((mk p socketFd).foundFd id))).sessions ∧
      (mk p socketFd).foundFd id ≠ none := by
  obtain ⟨looper, last, hlooper, hprologue, rfl⟩ := TcpProvider.receiverStart_effect h
  have hcreated : looper.phase = .created := by
    simpa [TcpProvider.phase, hlooper] using hphase
  have hfound : (mk p socketFd).foundFd id = p.mmAli4sock.get (p.heap.path looper.peerAlias) := by
    simp only [foundFd, hlooper]
  cases hget : p.mmAli4sock.get (p.heap.path looper.peerAlias) with
  | none =>
      rw [TcpProvider.runReceiverPrologue] at hprologue
      simp only [AliasHeap.path] at hget
      simp [hget] at hprologue
  | some fd =>
      obtain ⟨-, config, -, rfl⟩ := TcpProvider.runReceiverPrologue_effect hprologue
      rw [hfound, hget]
      refine ⟨Or.inr ⟨.started id, ?_⟩, Option.some_ne_none fd⟩
      have hset := sessions_set
        ({ p with config := config }.reportConnection (p.heap.objects looper.peerAlias).pathParent
          (p.heap.objects looper.peerAlias).name .connected none) socketFd
        { looper with phase := .running, peerFullPath := p.heap.path looper.peerAlias } (some fd)
        hlooper
      rw [hset]
      have hself : (mk p socketFd).sessionPath id = some (p.heap.path looper.peerAlias) := by
        simp [sessionPath, hlooper, hcreated]
      have hname : Function.update (mk p socketFd).sessionPath id
          (some (p.heap.path looper.peerAlias)) = (mk p socketFd).sessionPath := by
        rw [Function.update_eq_self_iff]
        exact hself.symm
      have hstep : (mk p socketFd).sessions.Step (.started id)
          { (mk p socketFd).sessions with
            reads := PartialMap.insert (mk p socketFd).reading id fd } := .started hself hget
      have hlast : { table := p.mmAli4sock.get
                     name := Function.update (mk p socketFd).sessionPath id
                       (some (p.heap.path looper.peerAlias))
                     reads := Function.update (mk p socketFd).reading id (some fd) } =
          { (mk p socketFd).sessions with
            reads := PartialMap.insert (mk p socketFd).reading id fd } := by
        rw [hname]
        rfl
      rw [← hlast] at hstep
      exact hstep

omit [DecidableEq Address] in
/-- A receiver that ends takes the entry of its path away. -/
theorem receiverEnd_moves (socketFd : PartialMap Nat Int) {id : Nat}
    (hphase : p.phase id = some .running)
    (h : p.receiverEnd id = .ok p') :
    (mk p socketFd).sessions.Moves (mk p' socketFd).sessions := by
  obtain ⟨looper, mid, last, hlooper, hreport, hdisconnect, rfl⟩ :=
    TcpProvider.receiverEnd_effect h
  have hrunning : looper.phase = .running := by
    simpa [TcpProvider.phase, hlooper] using hphase
  have hself : (mk p socketFd).sessionPath id = some (p.heap.path looper.peerAlias) := by
    simp [sessionPath, hlooper, hrunning]
  obtain ⟨config, callbacks, rfl, -⟩ := TcpProvider.handleConnection_effect hreport
  have hlast := disconnection_sessions socketFd hdisconnect
  have hloopers := TcpProvider.disconnection_loopers hdisconnect
  dsimp only at hloopers
  have hzombi : (mk (last.zombiThreadMigrate looper.peerAlias) socketFd).sessions =
      (mk last socketFd).sessions := by
    apply sessions_congr
    · rw [(TcpProvider.SameHandles.zombiThreadMigrate last looper.peerAlias).sock]
    · exact TcpProvider.zombiThreadMigrate_loopers ..
    · intro id' found _
      rw [TcpProvider.zombiThreadMigrate]
      split
      · rfl
      · rfl
  have hget : (last.zombiThreadMigrate looper.peerAlias).loopers[id]? = some looper := by
    rw [TcpProvider.zombiThreadMigrate_loopers, hloopers]
    exact hlooper
  have hset := sessions_set (last.zombiThreadMigrate looper.peerAlias) socketFd
    { looper with phase := .ended } (socketFd id) hget
  rw [Function.update_eq_self] at hset
  have hall := hzombi.trans hlast
  refine Or.inr ⟨.finished id, ?_⟩
  rw [hset]
  have htable : (last.zombiThreadMigrate looper.peerAlias).mmAli4sock.get =
      PartialMap.erase p.mmAli4sock.get (p.heap.path looper.peerAlias) :=
    congrArg SessionTable.table hall
  have hname : (mk (last.zombiThreadMigrate looper.peerAlias) socketFd).sessionPath =
      (mk p socketFd).sessionPath := congrArg SessionTable.name hall
  have hreads : (mk (last.zombiThreadMigrate looper.peerAlias) socketFd).reading =
      (mk p socketFd).reading := congrArg SessionTable.reads hall
  rw [htable, hname, hreads]
  exact .finished hself

variable {getIpPort : Address → Outcome (Option (Bytes × Nat))}

/-- A connection is made for a vacant path. -/
theorem connectPeer_moves {fd res : Int} {path : Bytes} {results : TcpProvider.ConnectResults}
    (hone : p.mmAli4sock.OneToOne) (hreader : (mk p socketFd).sessions.OneReader)
    (hstorable : results.connected = true → ∀ destaddr ∈ p.mmAli4addr.get path,
      ∀ ref ∈ p.mmAli4addr.getAlias destaddr, (mk p socketFd).Storable (p.heap.path ref))
    (h : p.connectPeer fd path results = .ok (res, p')) :
    (mk p socketFd).sessions.Moves (mk p' socketFd).sessions := by
  have hgive : ∀ q : TcpProvider Address,
      (mk (q.giveBack fd) socketFd).sessions = (mk q socketFd).sessions := by
    intro q
    obtain ⟨available, fds, heq, -⟩ := TcpProvider.giveBack_effect q fd
    rw [heq]
    rfl
  obtain ⟨-, rfl⟩ | ⟨destaddr, created, mid, hget, hconnected, hstore, hend⟩ :=
    TcpProvider.connectPeer_effect h
  · exact Or.inl (hgive p)
  · obtain ⟨ref, -, -, -, halias, -⟩ := TcpProvider.storeConnection_effect hstore
    rw [halias] at hstore
    have hmid := storeConnection_moves hone hreader
      (hstorable hconnected destaddr hget ref halias) hstore
    obtain ⟨-, -, rfl⟩ | ⟨-, -, rfl⟩ := hend
    · exact hmid
    · rw [hgive mid]
      exact hmid

omit [DecidableEq Address] in
/-- The receivers of the later state are those of the earlier one, under the same names. -/
def Kept (p p' : TcpProvider Address) : Prop :=
  ∀ (id : Nat) (looper : CLooper), p'.loopers[id]? = some looper → looper.phase = .running →
    p.loopers[id]? = some looper ∧ p'.heap.path looper.peerAlias = p.heap.path looper.peerAlias

omit [DecidableEq Address] in
theorem Kept.of_eq (hloopers : p'.loopers = p.loopers) (hheap : p'.heap = p.heap) :
    Kept p p' := by
  intro id looper hlooper _
  rw [hloopers] at hlooper
  exact ⟨hlooper, by rw [hheap]⟩

omit [DecidableEq Address] in
/-- A new alias object leaves the names and the sessions as they are. -/
theorem newAlias_kept (p' : TcpProvider Address) (socketFd : PartialMap Nat Int) {pvd : IAliasPVD}
    (hmade : p.Made) (hsock : p'.mmAli4sock = p.mmAli4sock)
    (hloopers : p'.loopers = p.loopers) (hheap : p'.heap = p.heap.make pvd) :
    Kept p p' ∧ (mk p' socketFd).sessions = (mk p socketFd).sessions := by
  have hpath : ∀ (id : Nat) (looper : CLooper), p.loopers[id]? = some looper →
      p'.heap.path looper.peerAlias = p.heap.path looper.peerAlias := by
    intro id looper hlooper
    have hlt := hmade.looper id looper hlooper
    simp only [hheap, AliasHeap.path, AliasHeap.make_objects_of_lt pvd hlt]
  refine ⟨?_, sessions_congr (by rw [hsock]) hloopers hpath⟩
  intro id looper hlooper _
  rw [hloopers] at hlooper
  exact ⟨hlooper, hpath id looper hlooper⟩

omit [DecidableEq Address] in
theorem Kept.trans {q : TcpProvider Address} (h : Kept p q) (h' : Kept q p') : Kept p p' := by
  intro id looper hlooper hrunning
  obtain ⟨hmid, hpath⟩ := h' id looper hlooper hrunning
  obtain ⟨hfirst, hpath'⟩ := h id looper hmid hrunning
  exact ⟨hfirst, hpath.trans hpath'⟩

omit [DecidableEq Address] in
theorem disconnection_kept {path : Bytes} (h : p.disconnection path = .ok p') : Kept p p' := by
  obtain ⟨-, rfl⟩ | ⟨fd, sock, available, config, -, -, -, rfl⟩ :=
    TcpProvider.disconnection_effect h
  · exact .of_eq rfl rfl
  · exact .of_eq rfl rfl

omit [DecidableEq Address] in
/-- The looper of a new connection does not receive yet. -/
theorem storeConnection_kept {peerAlias : Option AliasRef} {fd : Int} {spawned created : Bool}
    (h : p.storeConnection peerAlias fd spawned = .ok (created, p')) : Kept p p' := by
  obtain ⟨ref, isNew, sock, mid, -, -, hcreate, hend⟩ := TcpProvider.storeConnection_effect h
  have hmid : Kept p mid := by
    obtain rfl | ⟨-, -, rfl⟩ := TcpProvider.threadCreate_effect hcreate
    · exact .of_eq rfl rfl
    · intro id looper hlooper hrunning
      dsimp only at hlooper
      rw [List.getElem?_append] at hlooper
      split at hlooper
      · exact ⟨hlooper, rfl⟩
      · obtain rfl := List.mem_singleton.mp (List.mem_of_getElem? hlooper)
        cases hrunning
  obtain ⟨-, rfl⟩ | ⟨-, hdisconnect⟩ := hend
  · exact hmid
  · exact hmid.trans (disconnection_kept hdisconnect)

omit [DecidableEq Address] in
theorem giveBack_kept (p : TcpProvider Address) (fd : Int) : Kept p (p.giveBack fd) := by
  obtain ⟨available, fds, heq, -⟩ := TcpProvider.giveBack_effect p fd
  rw [heq]
  exact .of_eq rfl rfl

/-- An accepted peer has an alias already, or gets a new one. -/
theorem makeClientId_kept (socketFd : PartialMap Nat Int) {newCliaddr : Address}
    {peerAlias : Option AliasRef} (hmade : p.Made)
    (h : TcpProvider.makeClientId getIpPort p newCliaddr = .ok (peerAlias, p')) :
    Kept p p' ∧ (mk p' socketFd).sessions = (mk p socketFd).sessions ∧
      p'.loopers = p.loopers ∧ p'.mLooperPool = p.mLooperPool := by
  obtain ⟨rfl, -⟩ | ⟨pvd, res, isNew, addr, -, -, rfl⟩ := TcpProvider.makeClientId_effect h
  · exact ⟨.of_eq rfl rfl, rfl, rfl, rfl⟩
  · obtain ⟨hkept, hsessions⟩ := newAlias_kept
      { p with heap := p.heap.make pvd, mmAli4addr := addr } socketFd hmade rfl rfl rfl
    exact ⟨hkept, hsessions, rfl, rfl⟩

theorem connectPeer_kept {fd res : Int} {path : Bytes} {results : TcpProvider.ConnectResults}
    (h : p.connectPeer fd path results = .ok (res, p')) : Kept p p' := by
  obtain ⟨-, rfl⟩ | ⟨destaddr, created, mid, -, -, hstore, hend⟩ :=
    TcpProvider.connectPeer_effect h
  · exact giveBack_kept p fd
  · have hmid := storeConnection_kept hstore
    obtain ⟨-, -, rfl⟩ | ⟨-, -, rfl⟩ := hend
    · exact hmid
    · exact hmid.trans (giveBack_kept mid fd)

/-- The receivers stay when a connection is accepted, which becomes a session of its own. -/
theorem serverAccept_moves (socketFd : PartialMap Nat Int) {newsockfd : Int} {newCliaddr : Address}
    {spawned threw : Bool} (hmade : p.Made) (hone : p.mmAli4sock.OneToOne)
    (hreader : (mk p socketFd).sessions.OneReader)
    (hguard : (mk p socketFd).KeepsReaders getIpPort (.serverAccept newsockfd newCliaddr spawned))
    (h : p.serverAccept getIpPort newsockfd newCliaddr spawned = .ok (threw, p')) :
    Kept p p' ∧ (mk p socketFd).sessions.Moves (mk p' socketFd).sessions := by
  obtain ⟨-, rfl⟩ | ⟨hnonneg, peerAlias, mid, hclient, hend⟩ := TcpProvider.serverAccept_effect h
  · exact ⟨.of_eq rfl rfl, Or.inl rfl⟩
  · have hopened := hmade.withSock p.mmAli4sock p.availableSockfd (insert newsockfd p.openFds)
      p.callbacks
    obtain ⟨hkept, hsessions, hloopers, hpool⟩ := makeClientId_kept socketFd hopened hclient
    obtain ⟨hsame, haccepted⟩ := TcpProvider.makeClientId_path hclient
    have hkept' : Kept p mid := .trans (.of_eq rfl rfl) hkept
    obtain ⟨-, rfl⟩ | ⟨ref, created, rfl, hstore⟩ := hend
    · exact ⟨hkept', Or.inl hsessions⟩
    · have hstorable := (hguard.resolve_left hnonneg) (mid.heap.path ref) haccepted
      have hname : (mk mid socketFd).sessionPath = (mk p socketFd).sessionPath :=
        congrArg SessionTable.name hsessions
      have hstorable' : (mk mid socketFd).Storable (mid.heap.path ref) := by
        rw [Storable, Vacant, Attended]
        dsimp only
        rw [hname, hsame.sock, hpool, hloopers]
        exact hstorable
      have honeMid : mid.mmAli4sock.OneToOne := by
        rw [hsame.sock]
        exact hone
      have hreaderMid : (mk mid socketFd).sessions.OneReader := by
        rw [hsessions]
        exact hreader
      have hmoves := storeConnection_moves honeMid hreaderMid hstorable' hstore
      rw [hsessions] at hmoves
      exact ⟨hkept'.trans (storeConnection_kept hstore), hmoves⟩

/-- The same of a connection that is made. -/
theorem makeConnection_moves (socketFd : PartialMap Nat Int) {path : Bytes}
    {results : TcpProvider.ConnectResults} {res : Int} (hone : p.mmAli4sock.OneToOne)
    (hreader : (mk p socketFd).sessions.OneReader)
    (hguard : (mk p socketFd).KeepsReaders getIpPort (.makeConnection path results))
    (h : p.makeConnection path results = .ok (res, p')) :
    Kept p p' ∧ (mk p socketFd).sessions.Moves (mk p' socketFd).sessions := by
  obtain ⟨-, -, rfl⟩ | ⟨-, hend⟩ | ⟨-, -, hend⟩ := TcpProvider.makeConnection_effect h
  · exact ⟨.of_eq rfl rfl, Or.inl rfl⟩
  · obtain ⟨-, rfl⟩ | hpeer := hend
    · exact ⟨.of_eq rfl rfl, Or.inl rfl⟩
    · have hkept := connectPeer_kept hpeer
      exact ⟨hkept,
        connectPeer_moves (p := { p with availableSockfd := 0 }) hone hreader hguard hpeer⟩
  · obtain ⟨-, -, -, rfl⟩ | ⟨-, hpeer⟩ := hend
    · exact ⟨.of_eq rfl rfl, Or.inl rfl⟩
    · have hkept := connectPeer_kept hpeer
      exact ⟨hkept,
        connectPeer_moves (p := p.opened results.newSockfd) hone hreader hguard hpeer⟩

omit [DecidableEq Address] in
/-- The other receivers go on when one ends. -/
theorem receiverEnd_kept {id : Nat} (h : p.receiverEnd id = .ok p') : Kept p p' := by
  obtain ⟨looper, mid, last, hlooper, hreport, hdisconnect, rfl⟩ :=
    TcpProvider.receiverEnd_effect h
  obtain ⟨config, callbacks, rfl, -⟩ := TcpProvider.handleConnection_effect hreport
  have hdisconnected := disconnection_kept hdisconnect
  have hlast : Kept p last := hdisconnected
  have hzombi : Kept last (last.zombiThreadMigrate looper.peerAlias) := by
    rw [TcpProvider.zombiThreadMigrate]
    split
    · exact .of_eq rfl rfl
    · exact .of_eq rfl rfl
  refine (hlast.trans hzombi).trans ?_
  intro id' other hother hrunning
  dsimp only at hother ⊢
  rw [List.getElem?_set] at hother
  split at hother
  · split at hother
    · cases hother
      cases hrunning
    · cases hother
  · exact ⟨hother, rfl⟩

end Sessions

section Runs

variable {s s' : TcpReaders Address} {getIpPort : Address → Outcome (Option (Bytes × Nat))}

omit [DecidableEq Address] in
/-- A receiver has captured its present path, and has a descriptor. -/
def Captured (s : TcpReaders Address) (id : Nat) (looper : CLooper) : Prop :=
  looper.phase = .running →
    looper.peerFullPath = s.provider.heap.path looper.peerAlias ∧ s.socketFd id ≠ none

/-- The invariant of the guarded steps: the sessions come from steps of the session table. -/
structure Tracked (s : TcpReaders Address) : Prop where
  made : s.provider.Made
  oneToOne : s.provider.mmAli4sock.OneToOne
  captured : ∀ (id : Nat) (looper : CLooper), s.provider.loopers[id]? = some looper →
    s.Captured id looper
  sessions : Reachable SessionTable.Step .empty s.sessions

namespace Tracked

omit [DecidableEq Address] in
theorem started (mode : ProviderMode) (sockfd : Int) (pvd : IAliasPVD) :
    (started Address mode sockfd pvd).Tracked := by
  refine ⟨.started mode sockfd pvd, .empty, ?_, .start⟩
  intro id looper hlooper
  cases hlooper

omit [DecidableEq Address] in
/-- What receivers have captured stays while they keep their names. -/
theorem of_kept (h : s.Tracked) {p : TcpProvider Address} (hmade : p.Made)
    (hone : p.mmAli4sock.OneToOne) (hkept : Kept s.provider p)
    (hmoves : s.sessions.Moves (TcpReaders.mk p s.socketFd).sessions) :
    (TcpReaders.mk p s.socketFd).Tracked := by
  refine ⟨hmade, hone, ?_, hmoves.reachable h.sessions⟩
  intro id looper hlooper hrunning
  obtain ⟨hold, hpath⟩ := hkept id looper hlooper hrunning
  dsimp only
  rw [hpath]
  exact h.captured id looper hold hrunning

omit [DecidableEq Address] in
/-- One looper is replaced, and the others keep their names. -/
theorem captured_set {p p' : TcpProvider Address} {socketFd : PartialMap Nat Int} {id : Nat}
    {looper looper' : CLooper} {found : Option Int} (hlooper : p.loopers[id]? = some looper)
    (hloopers : p'.loopers = p.loopers.set id looper')
    (hself : (TcpReaders.mk p' (Function.update socketFd id found)).Captured id looper')
    (hother : ∀ (id' : Nat) (other : CLooper), id' ≠ id → p.loopers[id']? = some other →
      (TcpReaders.mk p' socketFd).Captured id' other) :
    ∀ (id' : Nat) (other : CLooper), p'.loopers[id']? = some other →
      (TcpReaders.mk p' (Function.update socketFd id found)).Captured id' other := by
  intro id' other hfound
  rw [hloopers] at hfound
  by_cases hid : id' = id
  · subst hid
    rw [List.getElem?_set_self (List.getElem?_eq_some_iff.mp hlooper).1] at hfound
    cases hfound
    exact hself
  · rw [List.getElem?_set_ne (Ne.symm hid)] at hfound
    have hcaptured := hother id' other hid hfound
    intro hrunning
    obtain ⟨hpath, hfd⟩ := hcaptured hrunning
    refine ⟨hpath, ?_⟩
    dsimp only
    rw [Function.update_of_ne hid]
    exact hfd

omit [DecidableEq Address] in
/-- A receiver captures the path under which it finds its descriptor. -/
theorem receiverStart (h : s.Tracked) {id : Nat} {p : TcpProvider Address} (hmade : p.Made)
    (hone : p.mmAli4sock.OneToOne) (hphase : s.provider.phase id = some .created)
    (hperform : s.provider.receiverStart id = .ok p) :
    (TcpReaders.mk p (Function.update s.socketFd id (s.foundFd id))).Tracked := by
  obtain ⟨hmoves, hfound⟩ := receiverStart_moves s.socketFd hphase hperform
  obtain ⟨looper, last, hlooper, hprologue, rfl⟩ := TcpProvider.receiverStart_effect hperform
  obtain ⟨-, config, -, rfl⟩ := TcpProvider.runReceiverPrologue_effect hprologue
  refine ⟨hmade, hone, ?_, hmoves.reachable h.sessions⟩
  refine captured_set hlooper rfl ?_ fun id' other _ => h.captured id' other
  intro _
  refine ⟨rfl, ?_⟩
  dsimp only
  rw [Function.update_self]
  exact hfound

omit [DecidableEq Address] in
/-- A receiver that is renamed has captured its new path. -/
theorem renameBy (h : s.Tracked) {id : Nat} {fullPath : Bytes} {p : TcpProvider Address}
    (hmade : p.Made) (hone : p.mmAli4sock.OneToOne)
    (hguard : s.KeepsReaders getIpPort (.updatePeerAlias id fullPath))
    (hperform : s.provider.renameBy id fullPath = .ok p) :
    (TcpReaders.mk p s.socketFd).Tracked := by
  have hnames := fun id looper hlooper hrunning => (h.captured id looper hlooper hrunning).1
  have hmoves := renameBy_moves (.run h.sessions) hnames hguard hperform
  refine ⟨hmade, hone, ?_, hmoves.reachable h.sessions⟩
  obtain ⟨looper, captured, mid, hlooper, hrename, rfl⟩ := TcpProvider.renameBy_effect hperform
  rw [← Function.update_eq_self id s.socketFd]
  obtain ⟨-, rfl, rfl⟩ | ⟨newApp, newPvd, config, sock, found, isNew, sock', config', callbacks,
    htarget, -, -, -, -, hfull, rfl⟩ := TcpProvider.updatePeerAlias_effect hrename
  · exact captured_set hlooper rfl
      (by rw [Function.update_eq_self]; exact h.captured id looper hlooper)
      fun id' other _ => h.captured id' other
  · subst captured
    obtain ⟨hrunning, happ, -, -⟩ := hguard looper hlooper (newApp, newPvd) htarget
    have hlive : looper.phase ≠ .ended := by
      rw [hrunning]
      exact ReceiverPhase.noConfusion
    refine captured_set hlooper rfl ?_ ?_
    · rw [Function.update_eq_self]
      intro _
      refine ⟨?_, (h.captured id looper hlooper hrunning).2⟩
      rw [TcpProvider.renameTarget] at htarget
      split at htarget
      · cases htarget
      · dsimp only
        rw [AliasHeap.update_path_self]
        exact (IAliasPVD.makeFullPath_of_decompose htarget happ).symm
    · intro id' other hid hother hruns
      have hgoes : other.phase ≠ .ended := by
        rw [hruns]
        exact ReceiverPhase.noConfusion
      have halias : other.peerAlias ≠ looper.peerAlias :=
        fun hsame => hid (alias_unique (.run h.sessions) hlooper hlive hother hgoes hsame)
      have hcaptured := h.captured id' other hother hruns
      simp only [AliasHeap.path, AliasHeap.update, Function.update_of_ne halias]
      exact hcaptured

/-- What one step preserves. -/
theorem step (h : s.Tracked) {a : TcpProvider.Action Address}
    (hguard : s.KeepsReaders getIpPort a) (hstep : Step getIpPort s a s') : s'.Tracked := by
  obtain ⟨p, hnext, rfl⟩ := Option.map_eq_some_iff.mp hstep
  have hmade : p.Made := h.made.step hnext
  have hone : p.mmAli4sock.OneToOne := TcpProvider.step_oneToOne h.oneToOne hnext
  obtain ⟨henabled, hperform⟩ := TcpProvider.step_iff.mp hnext
  cases a with
  | appendPvdAlias pvd =>
      cases hperform
      obtain ⟨hkept, hsessions⟩ := newAlias_kept (s.provider.appendPvdAlias pvd) s.socketFd
        h.made rfl rfl rfl
      exact h.of_kept hmade hone hkept (Or.inl hsessions)
  | updateAliasMapper pvd destaddr =>
      obtain ⟨res, isNew, addr, -, rfl⟩ := TcpProvider.updateAliasMapper_effect hperform
      exact h.of_kept hmade hone (.of_eq rfl rfl) (Or.inl rfl)
  | registerNewAlias peerAddr peerPort appPath pvdId =>
      obtain ⟨pvd, hmapped⟩ := TcpProvider.registerNewAlias_effect hperform
      obtain ⟨res, isNew, addr, -, rfl⟩ := TcpProvider.updateAliasMapper_effect hmapped
      obtain ⟨hkept, hsessions⟩ := newAlias_kept
        { s.provider with heap := s.provider.heap.make pvd, mmAli4addr := addr } s.socketFd
        h.made rfl rfl rfl
      exact h.of_kept hmade hone hkept (Or.inl hsessions)
  | serverAccept newsockfd newCliaddr spawned =>
      obtain ⟨⟨threw, last⟩, haccept, rfl⟩ := map_eq_ok.mp hperform
      obtain ⟨hkept, hmoves⟩ := serverAccept_moves s.socketFd h.made h.oneToOne
        (.run h.sessions) hguard haccept
      exact h.of_kept hmade hone hkept hmoves
  | makeConnection peerFullPath results =>
      obtain ⟨⟨res, last⟩, hconnect, rfl⟩ := map_eq_ok.mp hperform
      obtain ⟨hkept, hmoves⟩ := makeConnection_moves s.socketFd h.oneToOne (.run h.sessions)
        hguard hconnect
      exact h.of_kept hmade hone hkept hmoves
  | receiverStart id => exact h.receiverStart hmade hone henabled hperform
  | updatePeerAlias id fullPath => exact h.renameBy hmade hone hguard hperform
  | receiverEnd id =>
      exact h.of_kept hmade hone (receiverEnd_kept hperform)
        (receiverEnd_moves s.socketFd henabled hperform)
  | disconnection peerFullPath =>
      exact h.of_kept hmade hone (disconnection_kept hperform)
        (Or.inr ⟨.closed peerFullPath, disconnection_sessions s.socketFd hperform ▸ .closed⟩)

end Tracked

end Runs

/-- The server of `TcpProvider.localServer`. -/
def localServer : TcpReaders Nat :=
  { provider := TcpProvider.localServer, socketFd := .empty }

/-- A peer is disconnected, and the next one gets its descriptor while its receiver still reads. -/
def descriptorAgain : List (TcpProvider.Action Nat) :=
  [.serverAccept 5 80 true, .receiverStart 0,
    .disconnection [0x31, 0x32, 0x37, 0x2E, 0x30, 0x2E, 0x30, 0x2E, 0x31, 0x3A, 0x38, 0x30],
    .serverAccept 5 81 true, .receiverStart 1]

/-- Without the condition two receivers read one descriptor: what the second peer sends may be
taken for a message of the first one. -/
theorem descriptorAgain_two_readers :
    ∃ s, Lib.execute (next TcpProvider.localIpPort) localServer descriptorAgain = some s ∧
      s.reading 0 = some 5 ∧ s.reading 1 = some 5 := by
  have hexecute : Lib.execute (next TcpProvider.localIpPort) localServer descriptorAgain =
    some _ := rfl
  exact ⟨_, hexecute, rfl, rfl⟩

end TcpReaders

end CommonCommunicator
