import CommonCommunicator.Lib.GuardedRun
import CommonCommunicator.Provider.TcpEffects

/-!
# One connection and the receive worker

The receiver thread of a connection queues the messages that it reads; the one
worker of the receive pool calls the rename function for each of them. Both
threads work on the tables of the provider and on the alias of the connection,
one access at a time.
-/

namespace CommonCommunicator

open Lib

/-- A rename in progress: the owner path, its parts, the socket and the old names. -/
structure Rename where
  fullPath : Bytes
  newApp : Bytes
  newPvd : Bytes
  addr : Option Int
  peerApp : Bytes
  peerPvd : Bytes

/-- What the rename function does next. -/
inductive RenameStage
  | suspend
  | unregist
  | remove
  | update
  | insert
  | regist
  | resume
  deriving DecidableEq, Repr

/-- What the receiver does next. -/
inductive ReceiverStage
  | prologue
  | reading
  | unregist (appPath pvdPath : Bytes)
  | report (appPath pvdPath : Bytes)
  | disconnect
  | isThere (peerFullPath : Bytes)
  | get (peerFullPath : Bytes)
  | close (peerFullPath : Bytes) (fd : Int)
  | remove (peerFullPath : Bytes) (fd : Int)
  | unregistAgain (peerFullPath : Bytes)
  | migrate
  | ended
  deriving DecidableEq, Repr

/-- The receiver has reported its end. -/
def ReceiverStage.Closing : ReceiverStage → Prop
  | .prologue | .reading | .unregist _ _ | .report _ _ => False
  | _ => True

/-- A connection: its alias, its two threads, the path that the rename function has captured and
the owner paths of the queued messages, job after job. -/
structure ConnectionRun (Address : Type) where
  provider : TcpProvider Address
  peerAlias : AliasRef
  receiver : ReceiverStage
  worker : Option (RenameStage × Rename)
  peerFullPath : Bytes
  jobs : List Bytes

namespace ConnectionRun

variable {Address : Type}

/-- A connection whose receiver has just been created; the callbacks count from here. -/
def start (provider : TcpProvider Address) (peerAlias : AliasRef) : ConnectionRun Address :=
  { provider := { provider with callbacks := [] }
    peerAlias := peerAlias
    receiver := .prologue
    worker := none
    peerFullPath := []
    jobs := [] }

/-- The present names of the alias. -/
def names (c : ConnectionRun Address) : Bytes × Bytes :=
  ((c.provider.heap.objects c.peerAlias).pathParent, (c.provider.heap.objects c.peerAlias).name)

/-- The next access of the receiver outside its loop. -/
def receiverStep (c : ConnectionRun Address) : Outcome (ConnectionRun Address) :=
  match c.receiver with
  | .prologue => do
      let (peerFullPath, provider) ← c.provider.runReceiverPrologue c.peerAlias
      return { c with provider := provider, receiver := .reading, peerFullPath := peerFullPath }
  | .unregist appPath pvdPath => do
      let provider ← c.provider.unregistConnectedPeer (IAliasPVD.makeFullPath appPath pvdPath)
      return { c with provider := provider, receiver := .report appPath pvdPath }
  | .report appPath pvdPath => .ok { c with
      provider := c.provider.reportConnection appPath pvdPath .disconnected none
      receiver := .disconnect }
  | .disconnect => .ok { c with receiver := .isThere (c.provider.heap.path c.peerAlias) }
  | .isThere peerFullPath =>
      match c.provider.mmAli4sock.get peerFullPath with
      | none => .ok { c with receiver := .migrate }
      | some _ => .ok { c with receiver := .get peerFullPath }
  | .get peerFullPath =>
      match c.provider.mmAli4sock.get peerFullPath with
      | none => .error .undefined
      | some fd => .ok { c with receiver := .close peerFullPath fd }
  | .close peerFullPath fd => .ok { c with
      provider := c.provider.close fd
      receiver := .remove peerFullPath fd }
  | .remove peerFullPath fd => do
      let sock ← c.provider.mmAli4sock.remove peerFullPath
      let provider := { c.provider with mmAli4sock := sock }
      return { c with
        provider := if provider.mode = .client then provider.releaseSelfSockfd fd else provider
        receiver := .unregistAgain peerFullPath }
  | .unregistAgain peerFullPath => do
      let provider ← c.provider.unregistConnectedPeer peerFullPath
      return { c with provider := provider, receiver := .migrate }
  | .migrate => .ok { c with
      provider := c.provider.zombiThreadMigrate c.peerAlias
      receiver := .ended }
  | .reading | .ended => .ok c

/-- The call of the rename function for the next message, up to its first call-back. -/
def beginJob (c : ConnectionRun Address) : ConnectionRun Address :=
  match c.jobs with
  | [] => c
  | fullPath :: jobs =>
      match TcpProvider.renameTarget c.peerFullPath fullPath with
      | none => { c with jobs := jobs }
      | some (newApp, newPvd) => { c with
          jobs := jobs
          worker := some (.suspend,
            { fullPath := fullPath
              newApp := newApp
              newPvd := newPvd
              addr := c.provider.mmAli4sock.get c.peerFullPath
              peerApp := c.names.1
              peerPvd := c.names.2 }) }

/-- The next access of the worker. -/
def workerStep (c : ConnectionRun Address) : Outcome (ConnectionRun Address) :=
  match c.worker with
  | none => .ok c.beginJob
  | some (.suspend, rename) => .ok { c with
      provider := c.provider.reportConnection rename.peerApp rename.peerPvd .suspend none
      worker := some (.unregist, rename) }
  | some (.unregist, rename) => do
      let provider ← c.provider.unregistConnectedPeer c.peerFullPath
      return { c with provider := provider, worker := some (.remove, rename) }
  | some (.remove, rename) => do
      let sock ← c.provider.mmAli4sock.remove c.peerFullPath
      return { c with
        provider := { c.provider with mmAli4sock := sock }
        worker := some (.update, rename) }
  | some (.update, rename) => .ok { c with
      provider := { c.provider with
        heap := c.provider.heap.update c.peerAlias rename.newApp rename.newPvd }
      peerFullPath := rename.fullPath
      worker := some (.insert, rename) }
  | some (.insert, rename) => do
      let (_, _, sock) ← c.provider.mmAli4sock.insert c.provider.heap (some c.peerAlias)
        rename.addr true
      return { c with
        provider := { c.provider with mmAli4sock := sock }
        worker := some (.regist, rename) }
  | some (.regist, rename) => do
      let (res, provider) ← c.provider.registConnectedPeer c.peerAlias
      assertThat (res = true)
      return { c with provider := provider, worker := some (.resume, rename) }
  | some (.resume, rename) => .ok { c with
      provider := c.provider.reportConnection rename.newApp rename.newPvd .resumeUpdate
        (some (rename.peerApp, rename.peerPvd))
      worker := none }

/-- The steps of the two threads: a message with its owner path is read and queued, the receiver
leaves its loop and takes the names of the alias, or a thread makes its next access. -/
inductive Action
  | receive (fullPath : Bytes)
  | leave
  | receiver
  | worker
  deriving DecidableEq, Repr

/-- When a step can be taken. -/
def Enabled (c : ConnectionRun Address) : Action → Prop
  | .receive _ => c.receiver = .reading
  | .leave => c.receiver = .reading
  | .receiver => c.receiver ≠ .reading ∧ c.receiver ≠ .ended
  | .worker => c.worker.isSome = true ∨ c.jobs ≠ []

instance (c : ConnectionRun Address) : DecidablePred c.Enabled := fun a =>
  match a with
  | .receive _ => inferInstanceAs (Decidable (_ = _))
  | .leave => inferInstanceAs (Decidable (_ = _))
  | .receiver => inferInstanceAs (Decidable (_ ∧ _))
  | .worker => inferInstanceAs (Decidable (_ ∨ _))

/-- The effect of a step. -/
def perform (c : ConnectionRun Address) : Action → Outcome (ConnectionRun Address)
  | .receive fullPath => .ok { c with jobs := c.jobs ++ [fullPath] }
  | .leave => .ok { c with receiver := .unregist c.names.1 c.names.2 }
  | .receiver => c.receiverStep
  | .worker => c.workerStep

/-- One step. Where the code aborts or leaves the defined behaviour there is none. -/
def next (c : ConnectionRun Address) (a : Action) : Option (ConnectionRun Address) :=
  if c.Enabled a then (c.perform a).toOption else none

/-- The steps as a relation. -/
def Step (c : ConnectionRun Address) (a : Action) (c' : ConnectionRun Address) : Prop :=
  c.next a = some c'

theorem step_iff {c c' : ConnectionRun Address} {a : Action} :
    Step c a c' ↔ c.Enabled a ∧ c.perform a = .ok c' := by
  rw [Step, next]
  by_cases henabled : c.Enabled a
  · rw [if_pos henabled]
    cases hperform : c.perform a with
    | error f => simp [Except.toOption]
    | ok mid => simp [Except.toOption, henabled]
  · simp [henabled]

theorem next_of_perform {c c' : ConnectionRun Address} {a : Action} (henabled : c.Enabled a)
    (hperform : c.perform a = .ok c') : c.next a = some c' := step_iff.mpr ⟨henabled, hperform⟩

/-- A step in front of an execution. -/
theorem execute_cons {c c' c'' : ConnectionRun Address} {a : Action} {actions : List Action}
    (henabled : c.Enabled a) (hperform : c.perform a = .ok c')
    (h : Lib.execute next c' actions = some c'') :
    Lib.execute next c (a :: actions) = some c'' := by
  rw [Lib.execute, next_of_perform henabled hperform]
  exact h

/-- Behind the report the receiver takes the connection out of the tables, and reports nothing. -/
theorem receiverStep_closing {c c' : ConnectionRun Address} (hclosing : c.receiver.Closing)
    (hstep : c.receiverStep = .ok c') :
    c'.receiver.Closing ∧ c'.worker = c.worker ∧ c'.names = c.names ∧
      c'.peerFullPath = c.peerFullPath ∧ c'.provider.callbacks = c.provider.callbacks := by
  cases hreceiver : c.receiver with
  | prologue | reading | unregist | report => simp [hreceiver, ReceiverStage.Closing] at hclosing
  | disconnect =>
      simp only [receiverStep, hreceiver] at hstep
      cases hstep
      exact ⟨trivial, rfl, rfl, rfl, rfl⟩
  | isThere peerFullPath =>
      simp only [receiverStep, hreceiver] at hstep
      split at hstep
      · cases hstep
        exact ⟨trivial, rfl, rfl, rfl, rfl⟩
      · cases hstep
        exact ⟨trivial, rfl, rfl, rfl, rfl⟩
  | get peerFullPath =>
      simp only [receiverStep, hreceiver] at hstep
      split at hstep
      · cases hstep
      · cases hstep
        exact ⟨trivial, rfl, rfl, rfl, rfl⟩
  | close peerFullPath fd =>
      simp only [receiverStep, hreceiver] at hstep
      cases hstep
      exact ⟨trivial, rfl, rfl, rfl, rfl⟩
  | remove peerFullPath fd =>
      simp only [receiverStep, hreceiver] at hstep
      obtain ⟨sock, -, hend⟩ := bind_eq_ok.mp hstep
      cases hend
      obtain ⟨available, heq⟩ :=
        TcpProvider.releaseSelfSockfd_effect { c.provider with mmAli4sock := sock } fd
      refine ⟨trivial, rfl, ?_, rfl, ?_⟩
      · simp only [names, heq]
        split <;> rfl
      · simp only [heq]
        split <;> rfl
  | unregistAgain peerFullPath =>
      simp only [receiverStep, hreceiver] at hstep
      obtain ⟨provider, hunregist, hend⟩ := bind_eq_ok.mp hstep
      obtain ⟨config, rfl, -⟩ := TcpProvider.unregistConnectedPeer_cases hunregist
      cases hend
      exact ⟨trivial, rfl, rfl, rfl, rfl⟩
  | migrate =>
      simp only [receiverStep, hreceiver] at hstep
      cases hstep
      refine ⟨trivial, rfl, ?_, rfl, TcpProvider.zombiThreadMigrate_callbacks ..⟩
      rw [names, names, TcpProvider.zombiThreadMigrate]
      split <;> rfl
  | ended =>
      simp only [receiverStep, hreceiver] at hstep
      cases hstep
      exact ⟨hclosing, rfl, rfl, rfl, rfl⟩

/-- What an access of the receiver outside its loop does: it reports the connection in front of the
loop, and its end behind it. -/
theorem receiverStep_cases {c c' : ConnectionRun Address} (hreading : c.receiver ≠ .reading)
    (hstep : c.receiverStep = .ok c') :
    c'.worker = c.worker ∧ c'.names = c.names ∧
      (c.receiver = .prologue ∧ c'.receiver = .reading ∧
          c'.provider.callbacks = c.provider.callbacks ++
            [{ appPath := c.names.1, pvdPath := c.names.2, flag := .connected, fromPeer := none }] ∨
        c'.peerFullPath = c.peerFullPath ∧
          ((∃ appPath pvdPath, c.receiver = .unregist appPath pvdPath ∧
              c'.receiver = .report appPath pvdPath ∧
              c'.provider.callbacks = c.provider.callbacks) ∨
            (∃ appPath pvdPath, c.receiver = .report appPath pvdPath ∧
              c'.receiver = .disconnect ∧
              c'.provider.callbacks = c.provider.callbacks ++
                [{ appPath := appPath, pvdPath := pvdPath, flag := .disconnected,
                   fromPeer := none }]) ∨
            c.receiver.Closing ∧ c'.receiver.Closing ∧
              c'.provider.callbacks = c.provider.callbacks)) := by
  cases hreceiver : c.receiver with
  | reading => exact absurd hreceiver hreading
  | prologue =>
      simp only [receiverStep, hreceiver] at hstep
      obtain ⟨⟨captured, provider⟩, hprologue, hend⟩ := bind_eq_ok.mp hstep
      obtain ⟨-, config, -, rfl⟩ := TcpProvider.runReceiverPrologue_effect hprologue
      cases hend
      exact ⟨rfl, rfl, Or.inl ⟨rfl, rfl, rfl⟩⟩
  | unregist appPath pvdPath =>
      simp only [receiverStep, hreceiver] at hstep
      obtain ⟨provider, hunregist, hend⟩ := bind_eq_ok.mp hstep
      obtain ⟨config, rfl, -⟩ := TcpProvider.unregistConnectedPeer_cases hunregist
      cases hend
      exact ⟨rfl, rfl, Or.inr ⟨rfl, Or.inl ⟨appPath, pvdPath, rfl, rfl, rfl⟩⟩⟩
  | report appPath pvdPath =>
      simp only [receiverStep, hreceiver] at hstep
      cases hstep
      exact ⟨rfl, rfl, Or.inr ⟨rfl, Or.inr (Or.inl ⟨appPath, pvdPath, rfl, rfl, rfl⟩)⟩⟩
  | disconnect | isThere | get | close | remove | unregistAgain | migrate | ended =>
      have hclosing : c.receiver.Closing := by
        rw [hreceiver]
        trivial
      obtain ⟨hnext, hworker, hnames, hcaptured, hcallbacks⟩ :=
        receiverStep_closing hclosing hstep
      rw [← hreceiver]
      exact ⟨hworker, hnames, Or.inr ⟨hcaptured, Or.inr (Or.inr ⟨hclosing, hnext, hcallbacks⟩)⟩⟩

/-- Without the receiver in between, the worker does what `lamda_update_peer_alias` does. -/
theorem worker_uninterrupted {c : ConnectionRun Address} {fullPath captured : Bytes}
    {jobs : List Bytes} {provider : TcpProvider Address} {target : Bytes × Bytes}
    (hidle : c.worker = none) (hjobs : c.jobs = fullPath :: jobs)
    (htarget : TcpProvider.renameTarget c.peerFullPath fullPath = some target)
    (h : c.provider.updatePeerAlias c.peerAlias c.peerFullPath fullPath =
      .ok (captured, provider)) :
    Lib.execute next c (List.replicate 8 .worker) =
      some { c with provider := provider, peerFullPath := captured, jobs := jobs } := by
  obtain ⟨newApp, newPvd⟩ := target
  obtain ⟨s₁, sock, found, isNew, sock', s₂, hunregist, hremove, hinsert, hregist, rfl, rfl⟩ :=
    (TcpProvider.updatePeerAlias_eq_ok htarget).mp h
  let rename : Rename :=
    { fullPath := fullPath
      newApp := newApp
      newPvd := newPvd
      addr := c.provider.mmAli4sock.get c.peerFullPath
      peerApp := c.names.1
      peerPvd := c.names.2 }
  have hbegin : c.perform .worker = .ok { c with
      jobs := jobs
      worker := some (.suspend, rename) } := by
    simp only [perform, workerStep, hidle, beginJob, hjobs, htarget, rename]
  refine execute_cons (Or.inr (by simp [hjobs])) hbegin ?_
  refine execute_cons (Or.inl rfl) rfl ?_
  refine execute_cons (Or.inl rfl) (bind_eq_ok.mpr ⟨s₁, hunregist, rfl⟩) ?_
  refine execute_cons (Or.inl rfl) (bind_eq_ok.mpr ⟨sock, hremove, rfl⟩) ?_
  refine execute_cons (Or.inl rfl) rfl ?_
  refine execute_cons (Or.inl rfl) (bind_eq_ok.mpr ⟨_, hinsert, rfl⟩) ?_
  refine execute_cons (Or.inl rfl)
    (bind_eq_ok.mpr ⟨_, hregist, bind_eq_ok.mpr ⟨(), assertThat_pos rfl, rfl⟩⟩) ?_
  refine execute_cons (Or.inl rfl) rfl ?_
  rw [hidle]
  rfl

/-- Without the worker in between, the receiver does what the end of `run_receiver` does. -/
theorem receiver_uninterrupted {c : ConnectionRun Address} {provider : TcpProvider Address}
    (hreading : c.receiver = .reading)
    (h : c.provider.runReceiverEpilogue c.peerAlias = .ok provider) :
    ∃ n, Lib.execute next c (.leave :: List.replicate n .receiver) =
      some { c with provider := provider, receiver := .ended } := by
  obtain ⟨mid, hreport, hrest⟩ := bind_eq_ok.mp h
  obtain ⟨last, hdisconnect, hend⟩ := bind_eq_ok.mp hrest
  cases hend
  obtain ⟨s₁, hunregist, hreported⟩ := bind_eq_ok.mp hreport
  cases hreported
  let s₂ := s₁.reportConnection c.names.1 c.names.2 .disconnected none
  let c₂ : ConnectionRun Address :=
    { c with provider := s₂, receiver := .isThere (s₂.heap.path c.peerAlias) }
  have hfirst : ∀ {actions : List Action} {c' : ConnectionRun Address},
      Lib.execute next c₂ actions = some c' →
        Lib.execute next c (.leave :: .receiver :: .receiver :: .receiver :: actions) =
          some c' := by
    intro actions c' hlater
    refine execute_cons hreading rfl ?_
    refine execute_cons ⟨by simp, by simp⟩ (bind_eq_ok.mpr ⟨s₁, hunregist, rfl⟩) ?_
    refine execute_cons ⟨by simp, by simp⟩ rfl ?_
    exact execute_cons ⟨by simp, by simp⟩ rfl hlater
  have hdisconnect' : s₂.disconnection (s₂.heap.path c.peerAlias) = .ok last := hdisconnect
  rw [TcpProvider.disconnection] at hdisconnect'
  cases hget : s₂.mmAli4sock.get (s₂.heap.path c.peerAlias) with
  | none =>
      rw [hget] at hdisconnect'
      have hlast : last = s₂ := (Except.ok.inj hdisconnect').symm
      subst hlast
      have habsent : c₂.perform .receiver = .ok { c₂ with receiver := .migrate } := by
        simp only [perform, receiverStep, c₂, hget]
      refine ⟨5, hfirst ?_⟩
      refine execute_cons ⟨by simp, by simp⟩ habsent ?_
      exact execute_cons ⟨by simp, by simp⟩ rfl rfl
  | some fd =>
      rw [hget] at hdisconnect'
      obtain ⟨sock, hremove, hunregist'⟩ := bind_eq_ok.mp hdisconnect'
      let c₃ : ConnectionRun Address := { c₂ with receiver := .get (s₂.heap.path c.peerAlias) }
      have hthere : c₂.perform .receiver = .ok c₃ := by
        simp only [perform, receiverStep, c₂, c₃, hget]
      have hfound : c₃.perform .receiver =
          .ok { c₂ with receiver := .close (s₂.heap.path c.peerAlias) fd } := by
        simp only [perform, receiverStep, c₂, c₃, hget]
      refine ⟨9, hfirst ?_⟩
      refine execute_cons ⟨by simp, by simp⟩ hthere ?_
      refine execute_cons ⟨by simp, by simp⟩ hfound ?_
      refine execute_cons ⟨by simp, by simp⟩ rfl ?_
      refine execute_cons ⟨by simp, by simp⟩ (bind_eq_ok.mpr ⟨sock, hremove, rfl⟩) ?_
      refine execute_cons ⟨by simp, by simp⟩ (bind_eq_ok.mpr ⟨last, hunregist', rfl⟩) ?_
      exact execute_cons ⟨by simp, by simp⟩ rfl rfl

end ConnectionRun

end CommonCommunicator
