import CommonCommunicator.Lib.HistoryReads
import CommonCommunicator.Provider.ConnectionEvents

/-!
# The names of the message call-backs

A message is called back under the names that the alias of its connection had
when the receiver set its source, while the worker gives the alias new names and
tells the application about them. A message never comes under names that were
not announced, and the names of the messages never go back. The application path
and the name of an alias are taken to be read, and to be changed, as one pair,
which no lock of the code sees to.
-/

namespace CommonCommunicator

open Lib

/-- The names under which a call-back says that the connection is up. -/
def ConnectionCallback.announces? (event : ConnectionCallback) : Option (Bytes × Bytes) :=
  match event.flag with
  | .connected | .resume | .resumeUpdate => some (event.appPath, event.pvdPath)
  | _ => none

namespace ConnectionRun

variable {Address : Type} {c c' : ConnectionRun Address}

/-- The names that were announced, in their order. -/
def announced (c : ConnectionRun Address) : List (Bytes × Bytes) :=
  c.provider.callbacks.filterMap ConnectionCallback.announces?

/-- The names that a rename has given to the alias and not announced yet. -/
def unannounced (c : ConnectionRun Address) : List (Bytes × Bytes) :=
  match c.worker with
  | some (.insert, rename) | some (.regist, rename) | some (.resume, rename) =>
      [(rename.newApp, rename.newPvd)]
  | _ => []

/-- All names that the alias has had since it was announced first. -/
def nameHistory (c : ConnectionRun Address) : List (Bytes × Bytes) := c.announced ++ c.unannounced

theorem unannounced_idle (hidle : c.worker = none) : c.unannounced = [] := by
  simp [unannounced, hidle]

theorem nameHistory_idle (hidle : c.worker = none) : c.nameHistory = c.announced := by
  rw [nameHistory, unannounced_idle hidle, List.append_nil]

/-- The receiver announces the names once, in front of its loop. -/
theorem receiverStep_names (hreading : c.receiver ≠ .reading) (hstep : c.receiverStep = .ok c') :
    c'.worker = c.worker ∧ c'.names = c.names ∧
      (c.receiver = .prologue ∧ c'.receiver = .reading ∧
          c'.announced = c.announced ++ [c.names] ∨
        c.receiver ≠ .prologue ∧ c'.receiver ≠ .reading ∧ c'.receiver ≠ .prologue ∧
          c'.announced = c.announced ∧ c'.peerFullPath = c.peerFullPath) := by
  obtain ⟨hworker, hnames, ⟨hbefore, hafter, hcallbacks⟩ | ⟨hcaptured, hends⟩⟩ :=
    receiverStep_cases hreading hstep
  · refine ⟨hworker, hnames, Or.inl ⟨hbefore, hafter, ?_⟩⟩
    rw [announced, hcallbacks, List.filterMap_append]
    rfl
  · refine ⟨hworker, hnames, Or.inr ?_⟩
    obtain ⟨appPath, pvdPath, hbefore, hafter, hcallbacks⟩ |
      ⟨appPath, pvdPath, hbefore, hafter, hcallbacks⟩ | ⟨hbefore, hafter, hcallbacks⟩ := hends
    · refine ⟨by simp [hbefore], by simp [hafter], by simp [hafter], ?_, hcaptured⟩
      rw [announced, hcallbacks, announced]
    · refine ⟨by simp [hbefore], by simp [hafter], by simp [hafter], ?_, hcaptured⟩
      rw [announced, hcallbacks, List.filterMap_append]
      exact List.append_nil _
    · refine ⟨?_, ?_, ?_, by rw [announced, hcallbacks, announced], hcaptured⟩
      · intro hnot
        rw [hnot] at hbefore
        exact hbefore
      · intro hnot
        rw [hnot] at hafter
        exact hafter
      · intro hnot
        rw [hnot] at hafter
        exact hafter

/-- A message begins a rename to its owner path, or it leaves the names alone. -/
theorem beginJob_names {owner : Bytes} (hidle : c.worker = none)
    (hbegin : { c with jobs := [owner] }.beginJob = c') :
    c'.receiver = c.receiver ∧ c'.names = c.names ∧ c'.peerFullPath = c.peerFullPath ∧
      c'.announced = c.announced ∧ c'.unannounced = [] ∧
      (c'.worker = none ∨ ∃ rename, c'.worker = some (.suspend, rename) ∧
        rename.fullPath = owner ∧
        TcpProvider.renameTarget c.peerFullPath owner = some (rename.newApp, rename.newPvd)) := by
  subst hbegin
  cases htarget : TcpProvider.renameTarget c.peerFullPath owner with
  | none =>
      have hnone : { c with jobs := [owner] }.beginJob = { c with jobs := [] } := by
        simp only [beginJob, htarget]
      rw [hnone]
      exact ⟨rfl, rfl, rfl, rfl, unannounced_idle hidle, Or.inl hidle⟩
  | some target =>
      have hsome : ∃ rename, { c with jobs := [owner] }.beginJob =
          { c with jobs := [], worker := some (.suspend, rename) } ∧
          rename.fullPath = owner ∧ target = (rename.newApp, rename.newPvd) := by
        simp only [beginJob, htarget]
        exact ⟨_, rfl, rfl, rfl⟩
      obtain ⟨rename, hrename, hpath, rfl⟩ := hsome
      rw [hrename]
      exact ⟨rfl, rfl, rfl, rfl, rfl, Or.inr ⟨rename, rfl, hpath, rfl⟩⟩

/-- A rename goes on, gives the alias its new names, or announces them and is over. -/
theorem workerStep_names {stage : RenameStage} {rename : Rename}
    (hworker : c.worker = some (stage, rename)) (hstep : c.workerStep = .ok c') :
    c'.receiver = c.receiver ∧
      ((∃ stage', c'.worker = some (stage', rename)) ∧ c'.names = c.names ∧
          c'.peerFullPath = c.peerFullPath ∧ c'.announced = c.announced ∧
          c'.unannounced = c.unannounced ∨
        c'.worker = some (.insert, rename) ∧ c'.names = (rename.newApp, rename.newPvd) ∧
          c'.peerFullPath = rename.fullPath ∧ c'.announced = c.announced ∧ c.unannounced = [] ∨
        c'.worker = none ∧ c'.names = c.names ∧ c'.peerFullPath = c.peerFullPath ∧
          c'.announced = c.announced ++ c.unannounced ∧ c.unannounced ≠ []) := by
  cases stage with
  | suspend =>
      simp only [workerStep, hworker] at hstep
      cases hstep
      refine ⟨rfl, Or.inl ⟨⟨_, rfl⟩, rfl, rfl, ?_, by simp only [unannounced, hworker]⟩⟩
      simp only [announced, TcpProvider.reportConnection, List.filterMap_append]
      exact List.append_nil _
  | unregist =>
      simp only [workerStep, hworker] at hstep
      obtain ⟨provider, hunregist, hend⟩ := bind_eq_ok.mp hstep
      obtain ⟨config, rfl, -⟩ := TcpProvider.unregistConnectedPeer_cases hunregist
      cases hend
      exact ⟨rfl, Or.inl ⟨⟨_, rfl⟩, rfl, rfl, rfl, by simp only [unannounced, hworker]⟩⟩
  | remove =>
      simp only [workerStep, hworker] at hstep
      obtain ⟨sock, -, hend⟩ := bind_eq_ok.mp hstep
      cases hend
      exact ⟨rfl, Or.inl ⟨⟨_, rfl⟩, rfl, rfl, rfl, by simp only [unannounced, hworker]⟩⟩
  | update =>
      simp only [workerStep, hworker] at hstep
      cases hstep
      refine ⟨rfl, Or.inr (Or.inl ⟨rfl, ?_, rfl, rfl, by simp only [unannounced, hworker]⟩)⟩
      simp [names, AliasHeap.update, IAliasPVD.update]
  | insert =>
      simp only [workerStep, hworker] at hstep
      obtain ⟨⟨res, isNew, sock⟩, -, hend⟩ := bind_eq_ok.mp hstep
      cases hend
      exact ⟨rfl, Or.inl ⟨⟨_, rfl⟩, rfl, rfl, rfl, by simp only [unannounced, hworker]⟩⟩
  | regist =>
      simp only [workerStep, hworker] at hstep
      obtain ⟨⟨res, provider⟩, hregist, hasserted⟩ := bind_eq_ok.mp hstep
      obtain ⟨⟨⟩, -, hend⟩ := bind_eq_ok.mp hasserted
      obtain ⟨config, rfl, -⟩ := TcpProvider.registConnectedPeer_cases hregist
      cases hend
      exact ⟨rfl, Or.inl ⟨⟨_, rfl⟩, rfl, rfl, rfl, by simp only [unannounced, hworker]⟩⟩
  | resume =>
      simp only [workerStep, hworker] at hstep
      cases hstep
      refine ⟨rfl, Or.inr (Or.inr ⟨rfl, rfl, rfl, ?_, by simp [unannounced, hworker]⟩)⟩
      simp only [announced, TcpProvider.reportConnection, List.filterMap_append, unannounced,
        hworker]
      rfl

end ConnectionRun

/-- A buffer that was read: the source that the receiver has set and the owner paths of the
messages, as far as its job comes. -/
structure SourcedBuffer where
  source : Bytes × Bytes
  owners : List Bytes
  deriving DecidableEq, Repr

/-- A connection with its messages: the buffer that the receiver has read and not queued yet, the
queue, the job of the worker, whether the call-back of an unpacked message is due, and the names of
the message call-backs so far. Its `jobs` hold at most the message that is being unpacked. -/
structure ConnectionMessages (Address : Type) where
  run : ConnectionRun Address
  read : Option SourcedBuffer
  queue : List SourcedBuffer
  job : Option SourcedBuffer
  unpacked : Bool
  messages : List (Bytes × Bytes)

namespace ConnectionMessages

variable {Address : Type} {c c' : ConnectionMessages Address}

/-- A connection whose receiver has just been created. -/
def start (provider : TcpProvider Address) (peerAlias : AliasRef) : ConnectionMessages Address :=
  { run := .start provider peerAlias
    read := none
    queue := []
    job := none
    unpacked := false
    messages := [] }

/-- The steps. The receiver reads a buffer and sets its source, queues it, leaves its loop, or makes
another access. The worker takes a buffer, unpacks its next message and begins the rename, makes
the next access of the rename, calls the message back, or is done with the buffer: it has come to
the end, or the codec or the application has thrown. -/
inductive Action
  | read (owners : List Bytes)
  | queue
  | leave
  | receiver
  | take
  | unpack
  | rename
  | callback
  | finish
  deriving DecidableEq, Repr

/-- One step. A buffer takes both names of the alias at once, and a rename gives it both at once.
Where the code aborts or leaves the defined behaviour there is none. -/
def next (c : ConnectionMessages Address) : Action → Option (ConnectionMessages Address)
  | .read owners =>
      if c.run.receiver = .reading ∧ c.read = none then
        some { c with read := some { source := c.run.names, owners := owners } }
      else none
  | .queue => c.read.map fun buffer => { c with read := none, queue := c.queue ++ [buffer] }
  | .leave =>
      if c.read = none then (c.run.next .leave).map fun run => { c with run := run } else none
  | .receiver => (c.run.next .receiver).map fun run => { c with run := run }
  | .take =>
      match c.job, c.queue with
      | none, buffer :: queue => some { c with job := some buffer, queue := queue }
      | _, _ => none
  | .unpack =>
      match c.job with
      | some { source, owners := owner :: owners } =>
          if c.unpacked = false ∧ c.run.worker = none then
            some { c with
              run := { c.run with jobs := [owner] }.beginJob
              job := some { source := source, owners := owners }
              unpacked := true }
          else none
      | _ => none
  | .rename =>
      if c.run.worker = none then none
      else (c.run.next .worker).map fun run => { c with run := run }
  | .callback =>
      if c.unpacked = true ∧ c.run.worker = none then
        c.job.map fun buffer =>
          { c with messages := c.messages ++ [buffer.source], unpacked := false }
      else none
  | .finish => if c.job.isSome ∧ c.unpacked = false then some { c with job := none } else none

/-- The steps as a relation. -/
def Step (c : ConnectionMessages Address) (a : Action) (c' : ConnectionMessages Address) : Prop :=
  c.next a = some c'

/-- The names that were announced so far. -/
def announced (c : ConnectionMessages Address) : List (Bytes × Bytes) := c.run.announced

/-- The sources of the messages that were called back and of the buffers behind them. -/
def sources (c : ConnectionMessages Address) : List (Bytes × Bytes) :=
  c.messages ++ (c.job.toList ++ (c.queue ++ c.read.toList)).map SourcedBuffer.source

/-- The invariant: the receiver reads under the names that the alias got last, and what was read
and what was called back is in the order of the names. -/
structure Named (c : ConnectionMessages Address) : Prop where
  fresh : c.run.receiver = .prologue →
    c.run.worker = none ∧ c.read = none ∧ c.queue = [] ∧ c.job = none
  current : c.run.receiver = .reading → c.run.nameHistory.getLast? = some c.run.names
  sources : ReadsOf c.run.nameHistory c.sources
  messages : ReadsOf c.announced c.messages

namespace Named

theorem start (provider : TcpProvider Address) (peerAlias : AliasRef) :
    (ConnectionMessages.start provider peerAlias).Named := by
  refine ⟨fun _ => ⟨rfl, rfl, rfl, rfl⟩, ?_, .nil _, .nil _⟩
  intro hreading
  cases hreading

/-- A step of the receiver or of a rename, by what it does to the names. -/
theorem of_run (h : c.Named) {run : ConnectionRun Address}
    (hfresh : run.receiver = .prologue → c.run.receiver = .prologue ∧ run.worker = none)
    (hcurrent : run.receiver = .reading → run.nameHistory.getLast? = some run.names)
    {later announcedLater : List (Bytes × Bytes)}
    (hhistory : run.nameHistory = c.run.nameHistory ++ later)
    (hannounced : run.announced = c.run.announced ++ announcedLater) :
    { c with run := run }.Named := by
  refine ⟨?_, hcurrent, ?_, ?_⟩
  · intro hprologue
    obtain ⟨hbefore, hidle⟩ := hfresh hprologue
    exact ⟨hidle, (h.fresh hbefore).2⟩
  · show ReadsOf run.nameHistory c.sources
    rw [hhistory]
    exact h.sources.grow later
  · show ReadsOf run.announced c.messages
    rw [hannounced]
    exact h.messages.grow announcedLater

theorem receiver (h : c.Named) {run : ConnectionRun Address}
    (hstep : ConnectionRun.Step c.run .receiver run) : { c with run := run }.Named := by
  obtain ⟨⟨hreading, -⟩, hperform⟩ := ConnectionRun.step_iff.mp hstep
  obtain ⟨hworker, hnames, hprologue | hlater⟩ :=
    ConnectionRun.receiverStep_names hreading hperform
  · obtain ⟨hbefore, hafter, hannounced⟩ := hprologue
    have hidle : c.run.worker = none := (h.fresh hbefore).1
    have hhistory : run.nameHistory = c.run.nameHistory ++ [c.run.names] := by
      rw [ConnectionRun.nameHistory_idle hidle, ← hannounced,
        ConnectionRun.nameHistory_idle (hworker.trans hidle)]
    refine h.of_run ?_ ?_ hhistory hannounced
    · intro hnone
      rw [hafter] at hnone
      cases hnone
    · intro _
      rw [hhistory, hnames, List.getLast?_concat]
  · obtain ⟨-, hnotReading, hnotFresh, hannounced, -⟩ := hlater
    have hhistory : run.nameHistory = c.run.nameHistory := by
      rw [ConnectionRun.nameHistory, ConnectionRun.nameHistory, hannounced,
        ConnectionRun.unannounced, ConnectionRun.unannounced, hworker]
    refine h.of_run (fun hnone => absurd hnone hnotFresh) (fun hnone => absurd hnone hnotReading)
      (hhistory.trans (List.append_nil _).symm) (hannounced.trans (List.append_nil _).symm)

theorem rename (h : c.Named) {run : ConnectionRun Address} (hbusy : c.run.worker ≠ none)
    (hstep : ConnectionRun.Step c.run .worker run) : { c with run := run }.Named := by
  obtain ⟨⟨stage, rename⟩, hworker⟩ := Option.ne_none_iff_exists'.mp hbusy
  obtain ⟨-, hperform⟩ := ConnectionRun.step_iff.mp hstep
  obtain ⟨hreceiver, hnames⟩ := ConnectionRun.workerStep_names hworker hperform
  have hfresh : run.receiver = .prologue → c.run.receiver = .prologue ∧ run.worker = none := by
    intro hprologue
    rw [hreceiver] at hprologue
    exact absurd (h.fresh hprologue).1 hbusy
  obtain hmoved | hrenamed | hresumed := hnames
  · obtain ⟨-, hnames, -, hannounced, hunannounced⟩ := hmoved
    have hhistory : run.nameHistory = c.run.nameHistory := by
      rw [ConnectionRun.nameHistory, ConnectionRun.nameHistory, hannounced, hunannounced]
    refine h.of_run hfresh ?_ (hhistory.trans (List.append_nil _).symm)
      (hannounced.trans (List.append_nil _).symm)
    rw [hreceiver, hhistory, hnames]
    exact h.current
  · obtain ⟨hinsert, hnames, -, hannounced, hunannounced⟩ := hrenamed
    have hhistory :
        run.nameHistory = c.run.nameHistory ++ [(rename.newApp, rename.newPvd)] := by
      rw [ConnectionRun.nameHistory, ConnectionRun.nameHistory, hannounced, hunannounced,
        List.append_nil, ConnectionRun.unannounced, hinsert]
    refine h.of_run hfresh ?_ hhistory (hannounced.trans (List.append_nil _).symm)
    intro _
    rw [hhistory, hnames, List.getLast?_concat]
  · obtain ⟨hidle, hnames, -, hannounced, -⟩ := hresumed
    have hhistory : run.nameHistory = c.run.nameHistory := by
      rw [ConnectionRun.nameHistory_idle hidle, hannounced, ConnectionRun.nameHistory]
    refine h.of_run hfresh ?_ (hhistory.trans (List.append_nil _).symm) hannounced
    rw [hreceiver, hhistory, hnames]
    exact h.current

/-- The names do not change while the receiver handles a buffer or the worker takes one. -/
theorem of_sources (h : c.Named) (hfresh : c.run.receiver ≠ .prologue)
    (hrun : c'.run = c.run) (hsources : ReadsOf c.run.nameHistory c'.sources)
    (hmessages : c'.messages = c.messages) : c'.Named := by
  refine ⟨?_, ?_, ?_, ?_⟩
  · intro hprologue
    rw [hrun] at hprologue
    exact absurd hprologue hfresh
  · rw [hrun]
    exact h.current
  · rw [hrun]
    exact hsources
  · rw [announced, hrun, hmessages]
    exact h.messages

/-- A buffer is read under the names announced last. -/
theorem readStep (h : c.Named) {owners : List Bytes} (hstep : Step c (.read owners) c') :
    c'.Named := by
  simp only [Step, next, Option.ite_none_right_eq_some, Option.some.injEq] at hstep
  obtain ⟨⟨hreading, hread⟩, rfl⟩ := hstep
  refine h.of_sources (by simp [hreading]) rfl ?_ rfl
  have hlast := h.sources.last (h.current hreading)
  simpa [ConnectionMessages.sources, hread] using hlast

/-- The buffer keeps its names in the queue. -/
theorem queueStep (h : c.Named) (hstep : Step c .queue c') : c'.Named := by
  simp only [Step, next, Option.map_eq_some_iff] at hstep
  obtain ⟨buffer, hread, rfl⟩ := hstep
  refine h.of_sources (fun hfresh => ?_) rfl ?_ rfl
  · rw [(h.fresh hfresh).2.1] at hread
    cases hread
  · simpa [ConnectionMessages.sources, hread] using h.sources

/-- The end of the loop is not seen by the buffers. -/
theorem leaveStep (h : c.Named) (hstep : Step c .leave c') : c'.Named := by
  simp only [Step, next, Option.ite_none_right_eq_some, Option.map_eq_some_iff] at hstep
  obtain ⟨-, run, hleave, rfl⟩ := hstep
  obtain ⟨-, hperform⟩ := ConnectionRun.step_iff.mp hleave
  cases hperform
  refine h.of_run ?_ ?_ (List.append_nil _).symm (List.append_nil _).symm
  · intro hnone
    cases hnone
  · intro hnone
    cases hnone

/-- The buffer keeps its names in its job. -/
theorem takeStep (h : c.Named) (hstep : Step c .take c') : c'.Named := by
  simp only [Step, next] at hstep
  split at hstep
  · next hjob hqueue =>
      cases hstep
      refine h.of_sources (fun hfresh => ?_) rfl ?_ rfl
      · rw [(h.fresh hfresh).2.2.1] at hqueue
        cases hqueue
      · simpa [ConnectionMessages.sources, hjob, hqueue] using h.sources
  · cases hstep

/-- A message that begins to rename the connection announces nothing yet. -/
theorem unpackStep (h : c.Named) (hstep : Step c .unpack c') : c'.Named := by
  simp only [Step, next] at hstep
  split at hstep
  · next source owner owners hjob =>
      simp only [Option.ite_none_right_eq_some, Option.some.injEq] at hstep
      obtain ⟨⟨-, hidle⟩, rfl⟩ := hstep
      generalize hbegin : { c.run with jobs := [owner] }.beginJob = run
      obtain ⟨hreceiver, hnames, -, hannounced, hunannounced, -⟩ :=
        ConnectionRun.beginJob_names hidle hbegin
      have hhistory : run.nameHistory = c.run.nameHistory := by
        rw [ConnectionRun.nameHistory, hannounced, hunannounced, List.append_nil,
          ConnectionRun.nameHistory_idle hidle]
      refine ⟨?_, ?_, ?_, ?_⟩
      · intro hprologue
        rw [hreceiver] at hprologue
        rw [(h.fresh hprologue).2.2.2] at hjob
        cases hjob
      · show run.receiver = _ → run.nameHistory.getLast? = some run.names
        rw [hreceiver, hhistory, hnames]
        exact h.current
      · show ReadsOf run.nameHistory _
        rw [hhistory]
        simpa [ConnectionMessages.sources, hjob] using h.sources
      · show ReadsOf run.announced _
        rw [hannounced]
        exact h.messages
  · cases hstep

/-- A call-back comes under the names of its buffer, which are announced. -/
theorem callbackStep (h : c.Named) (hstep : Step c .callback c') : c'.Named := by
  simp only [Step, next, Option.ite_none_right_eq_some, Option.map_eq_some_iff] at hstep
  obtain ⟨⟨-, hidle⟩, buffer, hjob, rfl⟩ := hstep
  have hsources : c.sources = c.messages ++
      buffer.source :: (c.queue ++ c.read.toList).map SourcedBuffer.source := by
    simp [ConnectionMessages.sources, hjob]
  have hagain := h.sources
  rw [hsources] at hagain
  have hreported := hagain.again
  refine ⟨?_, h.current, ?_, ?_⟩
  · intro hprologue
    rw [(h.fresh hprologue).2.2.2] at hjob
    cases hjob
  · simpa [ConnectionMessages.sources, hjob] using hreported
  · -- no rename is in progress: the names of the alias are announced
    show ReadsOf c.run.announced _
    rw [← ConnectionRun.nameHistory_idle hidle]
    refine hagain.sublist ?_
    simp

/-- The end of a job leaves the other buffers. -/
theorem finishStep (h : c.Named) (hstep : Step c .finish c') : c'.Named := by
  simp only [Step, next, Option.ite_none_right_eq_some, Option.some.injEq] at hstep
  obtain ⟨⟨hjob, -⟩, rfl⟩ := hstep
  refine h.of_sources (fun hfresh => ?_) rfl ?_ rfl
  · rw [(h.fresh hfresh).2.2.2] at hjob
    cases hjob
  · refine h.sources.sublist (List.Sublist.append_left (List.Sublist.map _ ?_) _)
    exact List.sublist_append_right ..
/-- What a step preserves. -/
theorem step (h : c.Named) {a : Action} (hstep : Step c a c') : c'.Named := by
  cases a with
  | read owners => exact h.readStep hstep
  | queue => exact h.queueStep hstep
  | leave => exact h.leaveStep hstep
  | receiver =>
      simp only [Step, next, Option.map_eq_some_iff] at hstep
      obtain ⟨run, hrun, rfl⟩ := hstep
      exact h.receiver hrun
  | take => exact h.takeStep hstep
  | unpack => exact h.unpackStep hstep
  | rename =>
      simp only [Step, next, Option.ite_none_left_eq_some, Option.map_eq_some_iff] at hstep
      obtain ⟨hbusy, run, hrun, rfl⟩ := hstep
      exact h.rename hbusy hrun
  | callback => exact h.callbackStep hstep
  | finish => exact h.finishStep hstep

end Named

/-- The messages that a buffer read by a step may carry, when the peer has one owner path. -/
def Carries (path : Bytes) (_ : ConnectionMessages Address) : Action → Prop
  | .read owners => ∀ owner ∈ owners, owner = [] ∨ owner = path
  | _ => True

/-- The buffers between the receiver and the end of their jobs. -/
def buffers (c : ConnectionMessages Address) : List SourcedBuffer :=
  c.job.toList ++ (c.queue ++ c.read.toList)

/-- How far the one rename of a peer with one owner path has come. -/
inductive RenamePhase (path : Bytes) (names : Bytes × Bytes) (run : ConnectionRun Address) : Prop
  | fresh (receiver : run.receiver = .prologue) (worker : run.worker = none)
      (announced : run.announced = []) (same : run.names = names)
  | first (receiver : run.receiver ≠ .prologue) (announced : run.announced = [names])
      (unannounced : run.unannounced = [])
  | own (receiver : run.receiver ≠ .prologue) {own : Bytes × Bytes}
      (decomposed : IAliasPVD.decomposeFullPath path = some own)
      (history : run.nameHistory = [names, own]) (captured : run.peerFullPath = path)
      (ending : run.worker ≠ none → run.unannounced ≠ [])

/-- The invariant with one owner path: every rename leads to it. -/
structure OneOwner (path : Bytes) (names : Bytes × Bytes) (c : ConnectionMessages Address) :
    Prop where
  owners : ∀ buffer ∈ c.buffers, ∀ owner ∈ buffer.owners, owner = [] ∨ owner = path
  target : ∀ stage rename, c.run.worker = some (stage, rename) → rename.fullPath = path ∧
    IAliasPVD.decomposeFullPath path = some (rename.newApp, rename.newPvd)
  phase : RenamePhase path names c.run

namespace OneOwner

variable {path : Bytes} {names : Bytes × Bytes}

theorem start {provider : TcpProvider Address} {peerAlias : AliasRef} :
    OneOwner path (ConnectionRun.start provider peerAlias).names
      (ConnectionMessages.start provider peerAlias) := by
  refine ⟨?_, ?_, .fresh rfl rfl rfl rfl⟩
  · intro buffer hbuffer
    cases hbuffer
  · intro stage rename hworker
    cases hworker

theorem receiver (h : OneOwner path names c) {run : ConnectionRun Address}
    (hstep : ConnectionRun.Step c.run .receiver run) :
    OneOwner path names { c with run := run } := by
  obtain ⟨⟨hreading, -⟩, hperform⟩ := ConnectionRun.step_iff.mp hstep
  obtain ⟨hworker, hnames, hreceiver⟩ := ConnectionRun.receiverStep_names hreading hperform
  refine ⟨h.owners, ?_, ?_⟩
  · intro stage rename hbusy
    exact h.target stage rename (hworker.symm.trans hbusy)
  · obtain ⟨hprologue, hafter, hannounced⟩ | ⟨hnotFresh, -, hnotFresh', hannounced, hcaptured⟩ :=
      hreceiver
    · have hready : run.receiver ≠ .prologue := by simp [hafter]
      cases h.phase with
      | fresh hbefore hidle hnone hsame =>
          refine .first hready ?_ (ConnectionRun.unannounced_idle (hworker.trans hidle))
          rw [hannounced, hnone, hsame, List.nil_append]
      | first hbefore => exact absurd hprologue hbefore
      | own hbefore => exact absurd hprologue hbefore
    · have hunannounced : run.unannounced = c.run.unannounced := by
        rw [ConnectionRun.unannounced, ConnectionRun.unannounced, hworker]
      cases h.phase with
      | fresh hbefore => exact absurd hbefore hnotFresh
      | first hbefore hfirst hnone =>
          exact .first hnotFresh' (hannounced.trans hfirst) (hunannounced.trans hnone)
      | own hbefore hdecomposed hhistory hpath hending =>
          refine .own hnotFresh' hdecomposed ?_ (hcaptured.trans hpath) ?_
          · rw [ConnectionRun.nameHistory, hannounced, hunannounced]
            exact hhistory
          · rw [hworker, hunannounced]
            exact hending

theorem rename (h : OneOwner path names c) {run : ConnectionRun Address}
    (hbusy : c.run.worker ≠ none) (hstep : ConnectionRun.Step c.run .worker run) :
    OneOwner path names { c with run := run } := by
  obtain ⟨⟨stage, rename⟩, hworker⟩ := Option.ne_none_iff_exists'.mp hbusy
  obtain ⟨-, hperform⟩ := ConnectionRun.step_iff.mp hstep
  obtain ⟨hreceiver, hnames⟩ := ConnectionRun.workerStep_names hworker hperform
  obtain ⟨hpath, hdecomposed⟩ := h.target stage rename hworker
  obtain hmoved | hrenamed | hresumed := hnames
  · obtain ⟨⟨stage', hstage'⟩, -, hcaptured, hannounced, hunannounced⟩ := hmoved
    refine ⟨h.owners, ?_, ?_⟩
    · intro stage'' rename' hworker'
      cases hstage'.symm.trans hworker'
      exact ⟨hpath, hdecomposed⟩
    · cases h.phase with
      | fresh hbefore hidle => exact absurd hidle hbusy
      | first hbefore hfirst hnone =>
          exact .first (by rwa [hreceiver]) (hannounced.trans hfirst) (hunannounced.trans hnone)
      | own hbefore hown hhistory hsame hending =>
          refine .own (by rwa [hreceiver]) hown ?_ (hcaptured.trans hsame) ?_
          · rw [ConnectionRun.nameHistory, hannounced, hunannounced]
            exact hhistory
          · intro _
            rw [hunannounced]
            exact hending hbusy
  · obtain ⟨hinsert, -, hcaptured, hannounced, hunannounced⟩ := hrenamed
    refine ⟨h.owners, ?_, ?_⟩
    · intro stage' rename' hworker'
      cases hinsert.symm.trans hworker'
      exact ⟨hpath, hdecomposed⟩
    · cases h.phase with
      | fresh hbefore hidle => exact absurd hidle hbusy
      | first hbefore hfirst hnone =>
          refine .own (by rwa [hreceiver]) hdecomposed ?_ (hcaptured.trans hpath) ?_
          · rw [ConnectionRun.nameHistory, hannounced, hfirst, ConnectionRun.unannounced, hinsert]
            rfl
          · rw [ConnectionRun.unannounced, hinsert]
            simp
      | own hbefore hown hhistory hsame hending => exact absurd hunannounced (hending hbusy)
  · obtain ⟨hidle, -, hcaptured, hannounced, hunannounced⟩ := hresumed
    refine ⟨h.owners, ?_, ?_⟩
    · intro stage' rename' hworker'
      cases hidle.symm.trans hworker'
    · cases h.phase with
      | fresh hbefore hnone => exact absurd hnone hbusy
      | first hbefore hfirst hnone => exact absurd hnone hunannounced
      | own hbefore hown hhistory hsame hending =>
          refine .own (by rwa [hreceiver]) hown ?_ (hcaptured.trans hsame) ?_
          · rw [ConnectionRun.nameHistory_idle hidle, hannounced]
            exact hhistory
          · intro hnone
            exact absurd hidle hnone

/-- The peer names itself at most once: afterwards its path is the captured one. -/
theorem unpack (h : OneOwner path names c) {source : Bytes × Bytes} {owner : Bytes}
    {owners : List Bytes} {run : ConnectionRun Address}
    (hready : c.run.receiver ≠ .prologue) (hidle : c.run.worker = none)
    (hjob : c.job = some { source := source, owners := owner :: owners })
    (hbegin : { c.run with jobs := [owner] }.beginJob = run) :
    OneOwner path names { c with
      run := run
      job := some { source := source, owners := owners }
      unpacked := true } := by
  obtain ⟨hreceiver, hsame, hcaptured, hannounced, hunannounced, hworker⟩ :=
    ConnectionRun.beginJob_names hidle hbegin
  have howners : ∀ path' ∈ owner :: owners, path' = [] ∨ path' = path :=
    h.owners { source := source, owners := owner :: owners } (by simp [buffers, hjob])
  have htarget : ∀ {new : Bytes × Bytes},
      TcpProvider.renameTarget c.run.peerFullPath owner = some new →
      owner = path ∧ c.run.peerFullPath ≠ path ∧ IAliasPVD.decomposeFullPath path = some new := by
    intro new hnew
    rw [TcpProvider.renameTarget] at hnew
    split at hnew
    · cases hnew
    · next hother =>
        obtain ⟨hnonempty, hother⟩ := not_or.mp hother
        obtain rfl : owner = path := (howners owner List.mem_cons_self).resolve_left hnonempty
        exact ⟨rfl, hother, hnew⟩
  refine ⟨?_, ?_, ?_⟩
  · intro buffer hbuffer
    obtain rfl | hrest : buffer = { source := source, owners := owners } ∨
        buffer ∈ c.queue ++ c.read.toList := by simpa [buffers] using hbuffer
    · exact fun path' hpath' => howners path' (List.mem_cons_of_mem _ hpath')
    · exact h.owners buffer (List.mem_append_right _ hrest)
  · intro stage rename hrename
    obtain hnone | ⟨rename', hrename', hpath, hnew⟩ := hworker
    · cases hnone.symm.trans hrename
    · cases hrename'.symm.trans hrename
      obtain ⟨rfl, -, hdecomposed⟩ := htarget hnew
      exact ⟨hpath, hdecomposed⟩
  · cases h.phase with
    | fresh hbefore => exact absurd hbefore hready
    | first hbefore hfirst hnone =>
        exact .first (by rwa [hreceiver]) (hannounced.trans hfirst) hunannounced
    | own hbefore hown hhistory hpath hending =>
        refine .own (by rwa [hreceiver]) hown ?_ (hcaptured.trans hpath) ?_
        · rw [ConnectionRun.nameHistory, hannounced, hunannounced, List.append_nil,
            ← ConnectionRun.nameHistory_idle hidle]
          exact hhistory
        · intro hbusy
          obtain hnone | ⟨rename', -, -, hnew⟩ := hworker
          · exact absurd hnone hbusy
          · exact absurd hpath (htarget hnew).2.1

/-- A step that leaves the names alone and brings no other owner path. -/
theorem of_buffers (h : OneOwner path names c) (hrun : c'.run = c.run)
    (hbuffers : ∀ buffer ∈ c'.buffers, buffer ∉ c.buffers →
      ∀ owner ∈ buffer.owners, owner = [] ∨ owner = path) : OneOwner path names c' := by
  refine ⟨?_, ?_, ?_⟩
  · intro buffer hbuffer
    by_cases hold : buffer ∈ c.buffers
    · exact h.owners buffer hold
    · exact hbuffers buffer hbuffer hold
  · rw [hrun]
    exact h.target
  · rw [hrun]
    exact h.phase

theorem step (h : OneOwner path names c) (hnamed : c.Named) {a : Action}
    (hcarries : c.Carries path a) (hstep : Step c a c') : OneOwner path names c' := by
  cases a with
  | read owners =>
      simp only [Step, next, Option.ite_none_right_eq_some, Option.some.injEq] at hstep
      obtain ⟨-, rfl⟩ := hstep
      refine h.of_buffers rfl fun buffer hbuffer hnew => ?_
      obtain rfl : { source := c.run.names, owners := owners } = buffer := by
        simp only [buffers, Option.toList_some, List.mem_append, List.mem_singleton] at hbuffer hnew
        tauto
      exact hcarries
  | queue =>
      simp only [Step, next, Option.map_eq_some_iff] at hstep
      obtain ⟨buffer, hread, rfl⟩ := hstep
      refine h.of_buffers rfl fun buffer' hbuffer hnew => absurd ?_ hnew
      simpa [buffers, hread] using hbuffer
  | leave =>
      simp only [Step, next, Option.ite_none_right_eq_some, Option.map_eq_some_iff] at hstep
      obtain ⟨-, run, hleave, rfl⟩ := hstep
      obtain ⟨hreading, hperform⟩ := ConnectionRun.step_iff.mp hleave
      have hready : c.run.receiver ≠ .prologue := by
        rw [show c.run.receiver = .reading from hreading]
        simp
      cases hperform
      refine ⟨h.owners, h.target, ?_⟩
      cases h.phase with
      | fresh hbefore => exact absurd hbefore hready
      | first _ hfirst hnone => exact .first (by simp) hfirst hnone
      | own _ hown hhistory hcaptured hending =>
          exact .own (by simp) hown hhistory hcaptured hending
  | receiver =>
      simp only [Step, next, Option.map_eq_some_iff] at hstep
      obtain ⟨run, hrun, rfl⟩ := hstep
      exact h.receiver hrun
  | take =>
      simp only [Step, next] at hstep
      split at hstep
      · next hjob hqueue =>
          cases hstep
          refine h.of_buffers rfl fun buffer' hbuffer hnew => absurd ?_ hnew
          simpa [buffers, hjob, hqueue] using hbuffer
      · cases hstep
  | unpack =>
      simp only [Step, next] at hstep
      split at hstep
      · next source owner owners hjob =>
          simp only [Option.ite_none_right_eq_some, Option.some.injEq] at hstep
          obtain ⟨⟨-, hidle⟩, rfl⟩ := hstep
          refine h.unpack ?_ hidle hjob rfl
          intro hprologue
          rw [(hnamed.fresh hprologue).2.2.2] at hjob
          cases hjob
      · cases hstep
  | rename =>
      simp only [Step, next, Option.ite_none_left_eq_some, Option.map_eq_some_iff] at hstep
      obtain ⟨hbusy, run, hrun, rfl⟩ := hstep
      exact h.rename hbusy hrun
  | callback =>
      simp only [Step, next, Option.ite_none_right_eq_some, Option.map_eq_some_iff] at hstep
      obtain ⟨-, buffer, hjob, rfl⟩ := hstep
      exact h.of_buffers rfl fun buffer' hbuffer hnew => absurd hbuffer hnew
  | finish =>
      simp only [Step, next, Option.ite_none_right_eq_some, Option.some.injEq] at hstep
      obtain ⟨-, rfl⟩ := hstep
      refine h.of_buffers rfl fun buffer' hbuffer hnew => absurd ?_ hnew
      exact List.mem_append_right _ hbuffer

end OneOwner

/-- Both invariants of a connection whose peer has one owner path. -/
structure NamedOnce (path : Bytes) (names : Bytes × Bytes) (c : ConnectionMessages Address) :
    Prop where
  named : c.Named
  owner : OneOwner path names c

namespace NamedOnce

variable {path : Bytes} {names : Bytes × Bytes}

theorem step (h : NamedOnce path names c) {a : Action} (hcarries : c.Carries path a)
    (hstep : Step c a c') : NamedOnce path names c' :=
  ⟨h.named.step hstep, h.owner.step h.named hcarries hstep⟩

/-- The messages come under the first names, and then under the path of the peer. -/
theorem messages_eq (h : NamedOnce path names c) :
    ∃ n own k, (k ≠ 0 → IAliasPVD.decomposeFullPath path = some own) ∧
      c.messages = List.replicate n names ++ List.replicate k own := by
  have hmessages := h.named.messages
  cases h.owner.phase with
  | fresh _ _ hnone _ =>
      refine ⟨0, names, 0, fun hzero => absurd rfl hzero, List.eq_nil_iff_forall_not_mem.mpr ?_⟩
      intro message hmessage
      have hmem := hmessages.mem hmessage
      rw [announced, hnone] at hmem
      cases hmem
  | first _ hfirst _ =>
      rw [announced, hfirst] at hmessages
      refine ⟨c.messages.length, names, 0, fun hzero => absurd rfl hzero, ?_⟩
      rw [List.replicate_zero, List.append_nil]
      exact List.eq_replicate_of_mem fun message hmessage =>
        List.mem_singleton.mp (hmessages.mem hmessage)
  | @own _ own hdecomposed hhistory _ _ =>
      have hread : ReadsOf [names, own] c.messages := by
        rw [← hhistory, ConnectionRun.nameHistory]
        exact hmessages.grow _
      obtain ⟨n, k, heq⟩ := hread.of_pair
      exact ⟨n, own, k, fun _ => hdecomposed, heq⟩

end NamedOnce

/-- In every run the messages come under announced names only and in the order of these; while the
receiver reads and no rename is in progress, the next message will come under the names announced
last. Where all messages carry one owner path or none, they come under the first names up to
some message and from then on under this path. -/
theorem message_names {provider : TcpProvider Address} {peerAlias : AliasRef}
    {actions : List Action} (run : Lib.execute next (start provider peerAlias) actions = some c) :
    ReadsOf c.announced c.messages ∧
      (c.run.receiver = .reading → c.run.worker = none →
        c.announced.getLast? = some c.run.names) ∧
      ∀ path, (∀ owners, .read owners ∈ actions → ∀ owner ∈ owners, owner = [] ∨ owner = path) →
        ∃ n own k, (k ≠ 0 → IAliasPVD.decomposeFullPath path = some own) ∧
          c.messages =
            List.replicate n (ConnectionRun.start provider peerAlias).names ++
              List.replicate k own := by
  have hnamed : c.Named :=
    (Lib.reachable_of_execute run).invariant (.start provider peerAlias)
      fun _ _ _ h _ hstep => h.step hstep
  refine ⟨hnamed.messages, ?_, ?_⟩
  · intro hreading hidle
    rw [announced, ← ConnectionRun.nameHistory_idle hidle]
    exact hnamed.current hreading
  · intro path howners
    have hmeets : Meets next (Carries path) (start provider peerAlias) actions := by
      refine Meets.of_forall (fun a ha s => ?_) _
      cases a with
      | read owners => exact howners owners ha
      | _ => trivial
    have honce : NamedOnce path (ConnectionRun.start provider peerAlias).names c :=
      (GuardedRun.execute .start run hmeets).invariant ⟨.start provider peerAlias, .start⟩
        fun _ _ _ h hcarries hstep => h.step hcarries hstep
    exact honce.messages_eq

/-- The peer names itself `a/b` in its second message; the third is read before the rename and the
fourth after it. -/
def namedOnce : List Action :=
  [.receiver, .read [[], [0x61, 0x2F, 0x62]], .queue, .take, .unpack, .callback, .unpack,
    .read [[0x61, 0x2F, 0x62]], .queue] ++ List.replicate 5 .rename ++
    [.read [[0x61, 0x2F, 0x62]], .queue] ++ List.replicate 2 .rename ++
    [.callback, .finish, .take, .unpack, .callback, .finish, .take, .unpack, .callback, .finish]

theorem message_names_namedOnce :
    ∃ c first, Lib.execute next (start ConnectionRun.accepted 1) namedOnce = some c ∧
      ReadsOf c.announced c.messages ∧ c.announced = [first, ([0x61], [0x62])] ∧
      c.messages = [first, first, first, ([0x61], [0x62])] ∧
      ∃ n own k, (k ≠ 0 → IAliasPVD.decomposeFullPath [0x61, 0x2F, 0x62] = some own) ∧
        c.messages = List.replicate n first ++ List.replicate k own := by
  have hexecute : Lib.execute next (start ConnectionRun.accepted 1) namedOnce = some _ := rfl
  obtain ⟨hreads, -, hown⟩ := message_names hexecute
  exact ⟨_, _, hexecute, hreads, rfl, rfl, hown [0x61, 0x2F, 0x62] (by simp [namedOnce])⟩

end ConnectionMessages

end CommonCommunicator
