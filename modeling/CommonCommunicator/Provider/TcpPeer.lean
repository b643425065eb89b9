import CommonCommunicator.Pool.JobOrder
import CommonCommunicator.Provider.TcpRead

/-!
# A peer at the end of a TCP connection

The receiver thread of a provider with one connection reads from its socket until a read does not
fill the read buffer, and queues the message with the worker of the receive pool. A step is one
`read`, one section of the pool, or the delivery of bytes by the connection.
-/

namespace CommonCommunicator

open Lib

/-- Where the receiver thread is: in the loop of `read_msg`, behind it with a message, or at its
end. -/
inductive ReadingPhase
  | reading
  | handling
  | ended
  deriving DecidableEq, Repr

/-- A provider whose only connection this is: its receiver, the read buffer and the receive pool.
The last two belong to the provider; receivers of several connections would share them. `wire` are
the bytes that have been sent and not been read, and `closed` tells that no more will be sent. -/
structure TcpPeer where
  wire : Bytes
  closed : Bool
  readBuf : Bytes
  msgRaw : CRawMessage
  phase : ReadingPhase
  appPath : Bytes
  pvdPath : Bytes
  rxthrPool : CThreadPool.Traced CRawMessage

namespace TcpPeer

/-- A receiver that has just started, of a connection under this alias. -/
def connected (appPath pvdPath readBuf : Bytes) : TcpPeer :=
  { wire := []
    closed := false
    readBuf := readBuf
    msgRaw := CRawMessage.init
    phase := .reading
    appPath := appPath
    pvdPath := pvdPath
    rxthrPool := .create CRawMessage }

/-- The connection delivers bytes. -/
def deliver (p : TcpPeer) (bytes : Bytes) : TcpPeer := { p with wire := p.wire ++ bytes }

/-- The receiver is not in a call of `run_thread`. -/
def Awake (p : TcpPeer) : Prop := p.rxthrPool.pool.calls 0 = none

instance (p : TcpPeer) : Decidable p.Awake :=
  inferInstanceAs (Decidable (p.rxthrPool.pool.calls 0 = none))

/-- A turn of the loop of `read_msg` whose `read` has returned `msgSize` bytes. -/
def read (p : TcpPeer) (msgSize : Nat) : Option (Outcome TcpPeer) :=
  if p.phase = .reading ∧ p.Awake ∧ 1 ≤ msgSize ∧ msgSize ≤ TcpRead.readBufsize ∧
      msgSize ≤ p.wire.length then
    let readBuf := overwrite p.readBuf 0 (p.wire.take msgSize)
    some (do
      let msgRaw ← TcpRead.appendChunk p.msgRaw readBuf msgSize
      return { p with
        wire := p.wire.drop msgSize
        readBuf := readBuf
        msgRaw := msgRaw
        phase := if msgSize = TcpRead.readBufsize then .reading else .handling })
  else none

/-- A `read` that returns 0 ends `read_msg`, and the receiver if it has got no message. -/
def readEnd (p : TcpPeer) : Option TcpPeer :=
  if p.phase = .reading ∧ p.Awake ∧ p.wire = [] ∧ p.closed = true then
    some { p with phase := if 0 < p.msgRaw.msgSize then .handling else .ended }
  else none

/-- A `read` that fails ends the receiver. The message in progress is destroyed; nothing looks at it
again. -/
def readFails (p : TcpPeer) : Option TcpPeer :=
  if p.phase = .reading ∧ p.Awake then some { p with phase := .ended } else none

/-- `handle_protocol_chain`, up to the end of `push_runfunc`; the receiver goes on to its next
`read_msg` when `run_thread` has returned. -/
def handleProtocolChain (p : TcpPeer) : Option TcpPeer :=
  if p.phase = .handling then
    (p.rxthrPool.next (.pushRunfunc 0 (p.msgRaw.setSource p.appPath p.pvdPath) false)).map
      fun rxthrPool => { p with
        msgRaw := CRawMessage.init
        phase := .reading
        rxthrPool := rxthrPool }
  else none

/-- The section does not queue a job: only the receiver does. -/
def QueuesNothing : CThreadPool.Action CRawMessage → Prop
  | .pushRunfunc _ _ _ => False
  | _ => True

instance : DecidablePred QueuesNothing
  | .pushRunfunc _ _ _ => .isFalse id
  | .pickLooper _ => .isTrue trivial
  | .trigRunFunc _ => .isTrue trivial
  | .runRoutin _ => .isTrue trivial
  | .pushLooper _ => .isTrue trivial
  | .wakeUp _ => .isTrue trivial

theorem enqueues_eq_nil {a : CThreadPool.Action CRawMessage} (ha : QueuesNothing a) :
    CThreadPool.enqueues a = [] ∧ CThreadPool.Queues a := by
  cases a with
  | pushRunfunc caller runFunc runImmediatly => exact ha.elim
  | pickLooper _ | trigRunFunc _ | runRoutin _ | pushLooper _ | wakeUp _ => exact ⟨rfl, trivial⟩

/-- The connection is closed at the other end. -/
def close (p : TcpPeer) : TcpPeer := { p with closed := true }

/-- What the threads of the peer do. -/
inductive Action
  | read (msgSize : Nat)
  | readEnd
  | readFails
  | handleProtocolChain
  | pool (a : CThreadPool.Action CRawMessage)

/-- One step, if it is possible and no assertion fails. -/
def next (p : TcpPeer) : Action → Option TcpPeer
  | .read msgSize => (p.read msgSize).bind Except.toOption
  | .readEnd => p.readEnd
  | .readFails => p.readFails
  | .handleProtocolChain => p.handleProtocolChain
  | .pool a =>
      if QueuesNothing a then (p.rxthrPool.next a).map ({ p with rxthrPool := · }) else none

/-- What the receiver has read: the messages that it has queued, and the one in progress. -/
def taken (p : TcpPeer) : Bytes :=
  p.rxthrPool.enqueued.flatMap CRawMessage.content ++ p.msgRaw.content

/-- The receiver has read the bytes in order, and its messages are as they were read. -/
structure Sound (p : TcpPeer) (bytes : Bytes) : Prop where
  holds : p.msgRaw.Holds p.msgRaw.content
  queued : ∀ msgRaw ∈ p.rxthrPool.enqueued,
    msgRaw.Holds msgRaw.content ∧ msgRaw.content ≠ []
  stream : p.taken ++ p.wire = bytes
  order : p.rxthrPool.InOrder
  ready : p.phase = .handling → p.msgRaw.content ≠ []

namespace Sound

variable {p p' : TcpPeer} {bytes : Bytes}

theorem connected (appPath pvdPath readBuf : Bytes) :
    (TcpPeer.connected appPath pvdPath readBuf).Sound [] where
  holds := by
    rw [TcpPeer.connected, CRawMessage.init_content]
    exact CRawMessage.init_holds _
  queued := fun _ hmem => absurd hmem List.not_mem_nil
  stream := by simp [TcpPeer.connected, taken, CThreadPool.Traced.create]
  order := .create
  ready := fun h => by cases h

theorem deliver (h : p.Sound bytes) (more : Bytes) : (p.deliver more).Sound (bytes ++ more) := by
  refine ⟨h.holds, h.queued, ?_, h.order, h.ready⟩
  rw [← h.stream, List.append_assoc]
  rfl

theorem close (h : p.Sound bytes) : p.close.Sound bytes :=
  ⟨h.holds, h.queued, h.stream, h.order, h.ready⟩

/-- The assertion on `append_msg` holds, and the message grows by what was read. -/
theorem read (h : p.Sound bytes) {msgSize : Nat} {res : Outcome TcpPeer}
    (hread : p.read msgSize = some res) : ∃ p', res = .ok p' ∧ p'.Sound bytes := by
  obtain ⟨⟨hphase, -, hpos, hle, hlen⟩, heq⟩ := Option.ite_none_right_eq_some.mp hread
  have hchunk : (p.wire.take msgSize).length = msgSize := List.length_take_of_le hlen
  have hne : p.wire.take msgSize ≠ [] := List.ne_nil_of_length_pos (by omega)
  have htake := take_overwrite_zero p.readBuf (p.wire.take msgSize)
  obtain ⟨msgRaw, happend, hholds⟩ := TcpRead.appendChunk_of_take h.holds hne htake
  rw [hchunk] at happend
  simp only [happend, ok_bind] at heq
  obtain rfl := Option.some.inj heq
  refine ⟨_, rfl, ?_⟩
  have hcontent : msgRaw.content = p.msgRaw.content ++ p.wire.take msgSize := hholds.content_eq
  refine ⟨?_, h.queued, ?_, h.order, fun _ => ?_⟩
  · rw [hcontent]
    exact hholds
  · rw [← h.stream]
    simp [taken, hcontent, List.take_append_drop]
  · rw [hcontent]
    simp [hne]

/-- A message that is queued is kept as it is. -/
theorem handleProtocolChain (h : p.Sound bytes) (hstep : p.handleProtocolChain = some p') :
    p'.Sound bytes := by
  obtain ⟨hphase, heq⟩ := Option.ite_none_right_eq_some.mp hstep
  obtain ⟨rxthrPool, hpush, rfl⟩ := Option.map_eq_some_iff.mp heq
  have hqueues : CThreadPool.Queues
      (.pushRunfunc 0 (p.msgRaw.setSource p.appPath p.pvdPath) false) := rfl
  have horder := h.order.next hqueues hpush
  obtain ⟨-, henqueued, -⟩ := CThreadPool.Traced.step_iff.mp hpush
  have hsource := CRawMessage.setSource_holds h.holds p.appPath p.pvdPath
  refine ⟨?_, ?_, ?_, horder, fun hhandling => by cases hhandling⟩
  · rw [CRawMessage.init_content]
    exact CRawMessage.init_holds _
  · intro msgRaw hmem
    simp only [henqueued, CThreadPool.enqueues] at hmem
    rcases List.mem_append.mp hmem with hmem | hmem
    · exact h.queued msgRaw hmem
    · rw [List.mem_singleton.mp hmem, hsource.content_eq]
      exact ⟨hsource, h.ready hphase⟩
  · rw [← h.stream]
    simp [taken, henqueued, CThreadPool.enqueues, hsource.content_eq]

/-- A section of the pool that queues nothing. -/
theorem pool (h : p.Sound bytes) {a : CThreadPool.Action CRawMessage} (ha : QueuesNothing a)
    {rxthrPool : CThreadPool.Traced CRawMessage} (hstep : p.rxthrPool.next a = some rxthrPool) :
    Sound { p with rxthrPool := rxthrPool } bytes ∧ rxthrPool.enqueued = p.rxthrPool.enqueued := by
  have hsame := enqueues_eq_nil ha
  obtain ⟨-, henqueued, -⟩ := CThreadPool.Traced.step_iff.mp hstep
  rw [hsame.1, List.append_nil] at henqueued
  refine ⟨⟨h.holds, ?_, ?_, h.order.next hsame.2 hstep, h.ready⟩, henqueued⟩
  · rw [henqueued]
    exact h.queued
  · rw [← h.stream]
    simp only [taken, henqueued]

/-- What one step preserves. -/
theorem step (h : p.Sound bytes) {a : Action} (hstep : p.next a = some p') : p'.Sound bytes := by
  cases a with
  | read msgSize =>
      obtain ⟨res, hread, hres⟩ := Option.bind_eq_some_iff.mp hstep
      obtain ⟨p₁, rfl, hsound⟩ := h.read hread
      obtain rfl := Option.some.inj hres
      exact hsound
  | readEnd =>
      obtain ⟨-, heq⟩ := Option.ite_none_right_eq_some.mp hstep
      obtain rfl := Option.some.inj heq
      refine ⟨h.holds, h.queued, h.stream, h.order, fun hhandling hempty => ?_⟩
      have hsize := h.holds.size
      rw [hempty, List.length_nil] at hsize
      simp [hsize] at hhandling
  | readFails =>
      obtain ⟨-, heq⟩ := Option.ite_none_right_eq_some.mp hstep
      obtain rfl := Option.some.inj heq
      exact ⟨h.holds, h.queued, h.stream, h.order, fun hhandling => by cases hhandling⟩
  | handleProtocolChain => exact h.handleProtocolChain hstep
  | pool a =>
      obtain ⟨ha, heq⟩ := Option.ite_none_right_eq_some.mp hstep
      obtain ⟨rxthrPool, hpool, rfl⟩ := Option.map_eq_some_iff.mp heq
      exact (h.pool ha hpool).1

end Sound

/-- Only `handle_protocol_chain` queues, and it queues the message in progress. -/
theorem enqueued_step {p p' : TcpPeer} {bytes : Bytes} (h : p.Sound bytes) {a : Action}
    (hstep : p.next a = some p') :
    p'.rxthrPool.enqueued = p.rxthrPool.enqueued ∨
      a = .handleProtocolChain ∧ p.msgRaw.content ≠ [] ∧ ∃ msgRaw : CRawMessage,
        p'.rxthrPool.enqueued = p.rxthrPool.enqueued ++ [msgRaw] ∧
          msgRaw.content = p.msgRaw.content := by
  cases a with
  | read msgSize =>
      obtain ⟨res, hread, hres⟩ := Option.bind_eq_some_iff.mp hstep
      obtain ⟨-, heq⟩ := Option.ite_none_right_eq_some.mp hread
      obtain rfl := Option.some.inj heq
      left
      cases happend : TcpRead.appendChunk p.msgRaw
          (overwrite p.readBuf 0 (p.wire.take msgSize)) msgSize with
      | error f => simp [happend, Except.toOption] at hres
      | ok msgRaw =>
          simp only [happend, ok_bind] at hres
          obtain rfl := Option.some.inj hres
          rfl
  | readEnd =>
      obtain ⟨-, heq⟩ := Option.ite_none_right_eq_some.mp hstep
      obtain rfl := Option.some.inj heq
      exact .inl rfl
  | readFails =>
      obtain ⟨-, heq⟩ := Option.ite_none_right_eq_some.mp hstep
      obtain rfl := Option.some.inj heq
      exact .inl rfl
  | handleProtocolChain =>
      obtain ⟨hphase, heq⟩ := Option.ite_none_right_eq_some.mp hstep
      obtain ⟨rxthrPool, hpush, rfl⟩ := Option.map_eq_some_iff.mp heq
      obtain ⟨-, henqueued, -⟩ := CThreadPool.Traced.step_iff.mp hpush
      exact .inr ⟨rfl, h.ready hphase, _, henqueued,
        (CRawMessage.setSource_holds h.holds p.appPath p.pvdPath).content_eq⟩
  | pool a =>
      obtain ⟨ha, heq⟩ := Option.ite_none_right_eq_some.mp hstep
      obtain ⟨rxthrPool, hpool, rfl⟩ := Option.map_eq_some_iff.mp heq
      exact .inl (h.pool ha hpool).2

end TcpPeer

end CommonCommunicator
