import CommonCommunicator.Provider.ConnectionRun

/-!
# The connection call-backs of one connection

An application is told that a connection is up, of every change of its name,
and that it is down. The receiver does not wait for the jobs that it has queued,
and the rename function does not look whether the connection is still there. The
call-backs come in their order as long as no rename meets the end of the
receiver.
-/

namespace CommonCommunicator

open Lib

/-- What the call-backs made so far say about a connection. -/
inductive ConnectionPhase
  | fresh
  | up (appPath pvdPath : Bytes)
  | suspended (appPath pvdPath : Bytes)
  | down
  deriving DecidableEq, Repr

namespace ConnectionPhase

/-- The phase after a call-back, if it may come in this phase: only a connection that is up is
suspended or goes down, under its name, and it is resumed from this name. -/
def next : ConnectionPhase → ConnectionCallback → Option ConnectionPhase
  | .fresh, { appPath, pvdPath, flag := .connected, fromPeer := none } => some (.up appPath pvdPath)
  | .up app pvd, { appPath, pvdPath, flag := .suspend, fromPeer := none } =>
      if (appPath, pvdPath) = (app, pvd) then some (.suspended app pvd) else none
  | .suspended app pvd, { appPath, pvdPath, flag := .resumeUpdate, fromPeer := some names } =>
      if names = (app, pvd) then some (.up appPath pvdPath) else none
  | .up app pvd, { appPath, pvdPath, flag := .disconnected, fromPeer := none } =>
      if (appPath, pvdPath) = (app, pvd) then some .down else none
  | _, _ => none

/-- The phase after a list of call-backs. -/
def history (events : List ConnectionCallback) : Option ConnectionPhase :=
  events.foldlM next .fresh

theorem history_append (events : List ConnectionCallback) (event : ConnectionCallback) :
    history (events ++ [event]) = (history events).bind (next · event) := by
  simp [history, List.foldlM_append]

theorem history_snoc {events : List ConnectionCallback} {event : ConnectionCallback}
    {phase phase' : ConnectionPhase} (h : history events = some phase)
    (hnext : phase.next event = some phase') : history (events ++ [event]) = some phase' := by
  rw [history_append, h]
  exact hnext

@[simp] theorem next_suspend (app pvd : Bytes) :
    (up app pvd).next { appPath := app, pvdPath := pvd, flag := .suspend, fromPeer := none } =
      some (.suspended app pvd) := if_pos rfl

@[simp] theorem next_resumeUpdate (app pvd app' pvd' : Bytes) :
    (suspended app pvd).next
        { appPath := app', pvdPath := pvd', flag := .resumeUpdate, fromPeer := some (app, pvd) } =
      some (.up app' pvd') := if_pos rfl

@[simp] theorem next_disconnected (app pvd : Bytes) :
    (up app pvd).next { appPath := app, pvdPath := pvd, flag := .disconnected, fromPeer := none } =
      some .down := if_pos rfl

end ConnectionPhase

namespace ConnectionCallback

/-- Renames between two names: each one is suspended and resumed from the name it had. -/
inductive Rounds : Bytes × Bytes → List ConnectionCallback → Bytes × Bytes → Prop
  | done (names : Bytes × Bytes) : Rounds names [] names
  | round {names names' : Bytes × Bytes} {events : List ConnectionCallback}
      (rounds : Rounds names events names') (new : Bytes × Bytes) :
      Rounds names (events ++
        [{ appPath := names'.1, pvdPath := names'.2, flag := .suspend, fromPeer := none },
          { appPath := new.1, pvdPath := new.2, flag := .resumeUpdate, fromPeer := some names' }])
        new

/-- A whole connection: up, renames, down. -/
def Complete (events : List ConnectionCallback) : Prop :=
  ∃ names rounds names', Rounds names rounds names' ∧ events =
    { appPath := names.1, pvdPath := names.2, flag := .connected, fromPeer := none } :: (rounds ++
      [{ appPath := names'.1, pvdPath := names'.2, flag := .disconnected, fromPeer := none }])

/-- What a list of call-backs looks like in each phase. -/
def Shape (events : List ConnectionCallback) : ConnectionPhase → Prop
  | .fresh => events = []
  | .up appPath pvdPath => ∃ names rounds, Rounds names rounds (appPath, pvdPath) ∧ events =
      { appPath := names.1, pvdPath := names.2, flag := .connected, fromPeer := none } :: rounds
  | .suspended appPath pvdPath => ∃ names rounds, Rounds names rounds (appPath, pvdPath) ∧ events =
      { appPath := names.1, pvdPath := names.2, flag := .connected, fromPeer := none } :: (rounds ++
        [{ appPath := appPath, pvdPath := pvdPath, flag := .suspend, fromPeer := none }])
  | .down => Complete events

/-- The call-backs that an application may see have this form. -/
theorem shape_of_history {events : List ConnectionCallback} {phase : ConnectionPhase}
    (h : ConnectionPhase.history events = some phase) : Shape events phase := by
  induction events using List.reverseRecOn generalizing phase with
  | nil =>
      cases h
      rfl
  | append_singleton events event ih =>
      rw [ConnectionPhase.history_append] at h
      obtain ⟨before, hbefore, hnext⟩ := Option.bind_eq_some_iff.mp h
      have hshape := ih hbefore
      unfold ConnectionPhase.next at hnext
      split at hnext
      · cases hnext
        obtain rfl : events = [] := hshape
        exact ⟨(_, _), [], .done _, rfl⟩
      · split at hnext
        · next heq =>
            cases hnext
            cases heq
            obtain ⟨names, rounds, hrounds, rfl⟩ := hshape
            exact ⟨names, rounds, hrounds, rfl⟩
        · cases hnext
      · split at hnext
        · next heq =>
            cases hnext
            cases heq
            obtain ⟨names, rounds, hrounds, rfl⟩ := hshape
            refine ⟨names, _, hrounds.round (_, _), ?_⟩
            simp
        · cases hnext
      · split at hnext
        · next heq =>
            cases hnext
            cases heq
            obtain ⟨names, rounds, hrounds, rfl⟩ := hshape
            exact ⟨names, rounds, _, hrounds, rfl⟩
        · cases hnext
      · cases hnext

end ConnectionCallback

namespace ConnectionRun

variable {Address : Type} {c c' : ConnectionRun Address}

/-- The phase that the call-backs have to be in, for where the two threads are. -/
def phase (c : ConnectionRun Address) : ConnectionPhase :=
  match c.receiver, c.worker with
  | .prologue, _ => .fresh
  | .reading, none => .up c.names.1 c.names.2
  | .reading, some (.suspend, rename) => .up rename.peerApp rename.peerPvd
  | .reading, some (_, rename) => .suspended rename.peerApp rename.peerPvd
  | .unregist appPath pvdPath, _ => .up appPath pvdPath
  | .report appPath pvdPath, _ => .up appPath pvdPath
  | _, _ => .down

theorem phase_closing (hclosing : c.receiver.Closing) : c.phase = .down := by
  cases hreceiver : c.receiver with
  | prologue | reading | unregist | report => simp [hreceiver, ReceiverStage.Closing] at hclosing
  | _ => simp only [phase, hreceiver]

/-- A rename is over before the receiver ends, and it starts with a socket while the receiver
reads. -/
def KeepsApart (c : ConnectionRun Address) : Action → Prop
  | .leave => c.worker = none
  | .worker => c.worker = none → ∀ fullPath ∈ c.jobs.head?,
      TcpProvider.renameTarget c.peerFullPath fullPath ≠ none →
        c.receiver = .reading ∧ c.provider.mmAli4sock.isThere c.peerFullPath
  | _ => True

/-- The stages of a rename in which the alias has its new names. -/
def RenameStage.Renamed : RenameStage → Prop
  | .insert | .regist | .resume => True
  | _ => False

/-- The invariant of the guarded steps. -/
structure Orderly (c : ConnectionRun Address) : Prop where
  history : ConnectionPhase.history c.provider.callbacks = some c.phase
  fresh : c.receiver = .prologue → c.jobs = []
  reading : c.worker ≠ none → c.receiver = .reading
  socket : ∀ stage rename, c.worker = some (stage, rename) → rename.addr ≠ none
  renamed : ∀ stage rename, c.worker = some (stage, rename) → RenameStage.Renamed stage →
    c.names = (rename.newApp, rename.newPvd)

namespace Orderly

theorem start (provider : TcpProvider Address) (peerAlias : AliasRef) :
    (ConnectionRun.start provider peerAlias).Orderly := by
  refine ⟨rfl, fun _ => rfl, fun hnone => absurd rfl hnone, ?_, ?_⟩
  · intro stage rename hworker
    cases hworker
  · intro stage rename hworker
    cases hworker

/-- With an idle worker only the call-backs count. -/
theorem of_idle (hidle : c.worker = none) (hfresh : c.receiver ≠ .prologue)
    (hhistory : ConnectionPhase.history c.provider.callbacks = some c.phase) : c.Orderly := by
  refine ⟨hhistory, fun hprologue => absurd hprologue hfresh, fun hnone => absurd hidle hnone,
    ?_, ?_⟩
  · intro stage rename hworker
    rw [hidle] at hworker
    cases hworker
  · intro stage rename hworker
    rw [hidle] at hworker
    cases hworker

/-- The receiver reports the connection in front of its loop, and its end behind it. -/
theorem receiverStep (h : c.Orderly) (hreading : c.receiver ≠ .reading)
    (hstep : c.receiverStep = .ok c') : c'.Orderly := by
  have hidle : c.worker = none := by
    by_contra hbusy
    exact hreading (h.reading hbusy)
  have hhistory := h.history
  obtain ⟨hworker, hnames, ⟨hbefore, hafter, hcallbacks⟩ | ⟨-, hends⟩⟩ :=
    receiverStep_cases hreading hstep
  · rw [phase, hbefore] at hhistory
    refine of_idle (hworker.trans hidle) (by simp [hafter]) ?_
    rw [hcallbacks]
    simp only [phase, hafter, hworker, hidle, hnames]
    exact ConnectionPhase.history_snoc hhistory rfl
  · obtain ⟨appPath, pvdPath, hbefore, hafter, hcallbacks⟩ |
      ⟨appPath, pvdPath, hbefore, hafter, hcallbacks⟩ | ⟨hbefore, hafter, hcallbacks⟩ := hends
    · rw [phase, hbefore] at hhistory
      refine of_idle (hworker.trans hidle) (by simp [hafter]) ?_
      rw [hcallbacks, phase, hafter]
      exact hhistory
    · rw [phase, hbefore] at hhistory
      refine of_idle (hworker.trans hidle) (by simp [hafter]) ?_
      rw [hcallbacks, phase, hafter]
      exact ConnectionPhase.history_snoc hhistory (ConnectionPhase.next_disconnected ..)
    · refine of_idle (hworker.trans hidle) (fun hnot => ?_) ?_
      · rw [hnot] at hafter
        exact hafter
      · rw [hcallbacks, phase_closing hafter, ← phase_closing hbefore]
        exact hhistory

/-- A rename begins with a socket while the receiver reads, or it does nothing. -/
theorem beginJob (h : c.Orderly) (hidle : c.worker = none) (hguard : c.KeepsApart .worker) :
    c.beginJob.Orderly := by
  have hhistory := h.history
  rw [ConnectionRun.beginJob]
  cases hjobs : c.jobs with
  | nil => exact h
  | cons fullPath jobs =>
      have hfresh : c.receiver ≠ .prologue := by
        intro hprologue
        rw [h.fresh hprologue] at hjobs
        cases hjobs
      dsimp only
      cases htarget : TcpProvider.renameTarget c.peerFullPath fullPath with
      | none => exact of_idle hidle hfresh hhistory
      | some target =>
          obtain ⟨hreading, hthere⟩ := hguard hidle fullPath (by rw [hjobs]; rfl)
            (by simp [htarget])
          refine ⟨?_, fun hprologue => absurd hprologue hfresh, fun _ => hreading, ?_, ?_⟩
          · simp only [phase, hreading, hidle] at hhistory ⊢
            exact hhistory
          · intro stage rename hworker
            cases hworker
            exact CAliasAddr.isThere_iff.mp hthere
          · intro stage rename hworker hrenamed
            cases hworker
            cases hrenamed

/-- The next stage of a rename, when the names, the call-backs and the socket agree. -/
theorem of_busy {stage : RenameStage} {rename : Rename}
    (hreading : c.receiver = .reading) (hworker : c.worker = some (stage, rename))
    (hsocket : rename.addr ≠ none)
    (hrenamed : RenameStage.Renamed stage → c.names = (rename.newApp, rename.newPvd))
    (hhistory : ConnectionPhase.history c.provider.callbacks = some c.phase) : c.Orderly := by
  refine ⟨hhistory, ?_, fun _ => hreading, ?_, ?_⟩
  · intro hprologue
    rw [hreading] at hprologue
    cases hprologue
  · intro stage' rename' hworker'
    rw [hworker] at hworker'
    cases hworker'
    exact hsocket
  · intro stage' rename' hworker'
    rw [hworker] at hworker'
    cases hworker'
    exact hrenamed

theorem workerStep (h : c.Orderly) (hguard : c.KeepsApart .worker)
    (hstep : c.workerStep = .ok c') : c'.Orderly := by
  have hhistory := h.history
  cases hworker : c.worker with
  | none =>
      simp only [ConnectionRun.workerStep, hworker] at hstep
      cases hstep
      exact h.beginJob hworker hguard
  | some busy =>
      obtain ⟨stage, rename⟩ := busy
      have hreading : c.receiver = .reading := h.reading (by simp [hworker])
      have hsocket := h.socket stage rename hworker
      have hrenamed := h.renamed stage rename hworker
      simp only [phase, hreading, hworker] at hhistory
      cases stage with
      | suspend =>
          simp only [ConnectionRun.workerStep, hworker] at hstep
          cases hstep
          refine of_busy hreading rfl hsocket False.elim ?_
          simp only [phase, hreading]
          exact ConnectionPhase.history_snoc hhistory (ConnectionPhase.next_suspend ..)
      | unregist =>
          simp only [ConnectionRun.workerStep, hworker] at hstep
          obtain ⟨provider, hunregist, hend⟩ := bind_eq_ok.mp hstep
          obtain ⟨config, rfl, -⟩ := TcpProvider.unregistConnectedPeer_cases hunregist
          cases hend
          refine of_busy hreading rfl hsocket False.elim ?_
          simp only [phase, hreading]
          exact hhistory
      | remove =>
          simp only [ConnectionRun.workerStep, hworker] at hstep
          obtain ⟨sock, -, hend⟩ := bind_eq_ok.mp hstep
          cases hend
          refine of_busy hreading rfl hsocket False.elim ?_
          simp only [phase, hreading]
          exact hhistory
      | update =>
          simp only [ConnectionRun.workerStep, hworker] at hstep
          cases hstep
          refine of_busy hreading rfl hsocket (fun _ => ?_) ?_
          · simp [names, AliasHeap.update, IAliasPVD.update]
          · simp only [phase, hreading]
            exact hhistory
      | insert =>
          simp only [ConnectionRun.workerStep, hworker] at hstep
          obtain ⟨⟨res, isNew, sock⟩, -, hend⟩ := bind_eq_ok.mp hstep
          cases hend
          refine of_busy hreading rfl hsocket (fun _ => hrenamed trivial) ?_
          simp only [phase, hreading]
          exact hhistory
      | regist =>
          simp only [ConnectionRun.workerStep, hworker] at hstep
          obtain ⟨⟨res, provider⟩, hregist, hasserted⟩ := bind_eq_ok.mp hstep
          obtain ⟨⟨⟩, -, hend⟩ := bind_eq_ok.mp hasserted
          obtain ⟨config, rfl, -⟩ := TcpProvider.registConnectedPeer_cases hregist
          cases hend
          refine of_busy hreading rfl hsocket (fun _ => hrenamed trivial) ?_
          simp only [phase, hreading]
          exact hhistory
      | resume =>
          simp only [ConnectionRun.workerStep, hworker] at hstep
          cases hstep
          refine of_idle rfl (by simp [hreading]) ?_
          have hnames : c.names = (rename.newApp, rename.newPvd) := hrenamed trivial
          have hphase : ConnectionPhase.next (.suspended rename.peerApp rename.peerPvd)
              { appPath := rename.newApp, pvdPath := rename.newPvd, flag := .resumeUpdate,
                fromPeer := some (rename.peerApp, rename.peerPvd) } =
                some (.up c.names.1 c.names.2) := by
            rw [hnames]
            exact ConnectionPhase.next_resumeUpdate ..
          simp only [phase, hreading]
          exact ConnectionPhase.history_snoc hhistory hphase

/-- What one step preserves. -/
theorem step (h : c.Orderly) {a : Action} (hguard : c.KeepsApart a) (hstep : Step c a c') :
    c'.Orderly := by
  obtain ⟨henabled, hperform⟩ := step_iff.mp hstep
  cases a with
  | receive fullPath =>
      have hreading : c.receiver = .reading := henabled
      cases hperform
      refine ⟨h.history, ?_, h.reading, h.socket, h.renamed⟩
      intro hprologue
      rw [hreading] at hprologue
      cases hprologue
  | leave =>
      have hreading : c.receiver = .reading := henabled
      have hidle : c.worker = none := hguard
      have hhistory := h.history
      cases hperform
      simp only [phase, hreading, hidle] at hhistory
      exact of_idle hidle (by simp) hhistory
  | receiver => exact h.receiverStep henabled.1 hperform
  | worker => exact h.workerStep hguard hperform

end Orderly

/-- In every run in which no rename meets the end of the receiver, the call-backs come in their
order, and a rename has its socket when it stores it again. -/
theorem connection_events {provider : TcpProvider Address} {peerAlias : AliasRef}
    (run : GuardedRun Step KeepsApart (start provider peerAlias) c) :
    (∃ phase, ConnectionPhase.history c.provider.callbacks = some phase) ∧
      (c.receiver = .ended → ConnectionCallback.Complete c.provider.callbacks) ∧
      ∀ rename, c.worker = some (.insert, rename) →
        rename.addr ≠ none ∧ c.receiver = .reading := by
  have horderly : c.Orderly :=
    run.invariant (.start provider peerAlias) fun _ _ _ h hguard hstep => h.step hguard hstep
  refine ⟨⟨_, horderly.history⟩, ?_, ?_⟩
  · intro hended
    have hhistory := horderly.history
    rw [phase, hended] at hhistory
    exact ConnectionCallback.shape_of_history hhistory
  · intro rename hworker
    exact ⟨horderly.socket _ rename hworker, horderly.reading (by simp [hworker])⟩

/-- The server has accepted the peer `127.0.0.1:80`. -/
def accepted : TcpProvider Nat :=
  (Lib.execute (TcpProvider.next TcpProvider.localIpPort) TcpProvider.localServer
    [.serverAccept 5 80 true]).getD TcpProvider.localServer

/-- The peer names itself `a/b`; the job is done before the connection closes. -/
def renameThenClose : List Action :=
  [.receiver, .receive [0x61, 0x2F, 0x62]] ++ List.replicate 8 .worker ++ [.leave] ++
    List.replicate 9 .receiver

theorem renameThenClose_complete :
    ∃ c, Lib.execute next (start accepted 1) renameThenClose = some c ∧
      ConnectionCallback.Complete c.provider.callbacks := by
  have hexecute : Lib.execute next (start accepted 1) renameThenClose = some _ := rfl
  refine ⟨_, hexecute, (connection_events (.execute .start hexecute ?_)).2.1 rfl⟩
  have hbusy : ∀ {worker : Option (RenameStage × Rename)} {busy : RenameStage × Rename} {P : Prop},
      worker = some busy → worker = none → P :=
    fun hsome hnone => absurd (hsome.symm.trans hnone) (Option.some_ne_none _)
  refine ⟨trivial, trivial, ?_, hbusy rfl, hbusy rfl, hbusy rfl, hbusy rfl, hbusy rfl, hbusy rfl,
    hbusy rfl, rfl, trivial, trivial, trivial, trivial, trivial, trivial, trivial, trivial,
    trivial, trivial⟩
  exact fun _ _ _ _ => ⟨rfl, Option.some_ne_none _⟩

/-- The connection closes before the worker comes to the job. -/
def closeThenRename : List Action :=
  [.receiver, .receive [0x61, 0x2F, 0x62], .leave] ++ List.replicate 9 .receiver ++
    List.replicate 5 .worker

/-- A connection that is down is suspended, and the missing socket is about to be dereferenced. -/
theorem closeThenRename_disorder :
    ∃ c, Lib.execute next (start accepted 1) closeThenRename = some c ∧
      Reachable Step (start accepted 1) c ∧
      ConnectionPhase.history c.provider.callbacks = none ∧
      (∃ rename, c.worker = some (.insert, rename) ∧ rename.addr = none) ∧
      c.workerStep = .error .undefined := by
  have hexecute : Lib.execute next (start accepted 1) closeThenRename = some _ := rfl
  refine ⟨_, hexecute, Lib.reachable_of_execute hexecute, rfl, ⟨_, rfl, rfl⟩, rfl⟩

end ConnectionRun

end CommonCommunicator
