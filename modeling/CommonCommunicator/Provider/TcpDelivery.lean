import CommonCommunicator.Provider.Framing
import CommonCommunicator.Provider.TcpPeer
import CommonCommunicator.Provider.WriteOrder

/-!
# Payloads over TCP

Threads that write to connections, each of which leads to a provider of its own that has no other
connection, so that its read buffer and receive pool serve this one only. Whatever the threads do
in which order, each connection delivers the segments of the `write_msg` calls in the order of
their locks. If every message of `read_msg` ends where a segment ends, the message
callbacks get the payloads in this order.
-/

namespace CommonCommunicator

open Lib

/-- A provider that writes, and the peers of its connections, each a provider with this one
connection. -/
structure TcpSystem (Thread Conn : Type) where
  writers : TcpWriters Thread Conn
  peers : Conn → TcpPeer

namespace TcpSystem

variable {Thread Conn : Type}

/-- Connections under these aliases, on which nobody has written yet. -/
def connected (Thread : Type) (appPath pvdPath : Conn → Bytes) (readBuf : Bytes) :
    TcpSystem Thread Conn :=
  { writers := .create Thread Conn
    peers := fun conn => .connected (appPath conn) (pvdPath conn) readBuf }

/-- A step of a writing thread or of a peer, or the close of a connection by `disconnection`. -/
inductive Action (Thread Conn : Type)
  | writers (a : TcpWriters.Action Thread Conn)
  | peer (conn : Conn) (a : TcpPeer.Action)
  | disconnection (conn : Conn)

variable [DecidableEq Thread] [DecidableEq Conn]

/-- One step, if it is possible. What a `write` takes is delivered, and `disconnection` takes
`mtx_write`; a closed connection takes nothing. -/
def next (s : TcpSystem Thread Conn) : Action Thread Conn → Option (TcpSystem Thread Conn)
  | .writers a =>
      match TcpWriters.emits s.writers a with
      | none => (s.writers.next a).map ({ s with writers := · })
      | some (conn, bytes) =>
          if (s.peers conn).closed then none
          else (s.writers.next a).map fun writers =>
            { writers := writers
              peers := Function.update s.peers conn ((s.peers conn).deliver bytes) }
  | .peer conn a =>
      ((s.peers conn).next a).map fun p => { s with peers := Function.update s.peers conn p }
  | .disconnection conn =>
      if s.writers.mtxWrite = none then
        some { s with peers := Function.update s.peers conn (s.peers conn).close }
      else none

/-- The steps as a relation. -/
def Step (s : TcpSystem Thread Conn) (a : Action Thread Conn) (s' : TcpSystem Thread Conn) : Prop :=
  next s a = some s'

variable {s s' : TcpSystem Thread Conn} {conn : Conn}

/-- What a step does to the writers and to the receiver at the end of one connection. -/
inductive Acts (s : TcpSystem Thread Conn) (conn : Conn) :
    Action Thread Conn → TcpSystem Thread Conn → Prop
  | writes {a : TcpWriters.Action Thread Conn} {s' : TcpSystem Thread Conn}
      (step : s.writers.Step a s'.writers)
      (received : s'.peers conn =
        (s.peers conn).deliver (TcpWriters.emittedTo conn (TcpWriters.emits s.writers a))) :
      Acts s conn (.writers a) s'
  | receives {a : TcpPeer.Action} {s' : TcpSystem Thread Conn} (same : s'.writers = s.writers)
      (step : (s.peers conn).next a = some (s'.peers conn)) : Acts s conn (.peer conn a) s'
  | closes {s' : TcpSystem Thread Conn} (same : s'.writers = s.writers)
      (closed : s'.peers conn = (s.peers conn).close) : Acts s conn (.disconnection conn) s'
  | elsewhere {a : Action Thread Conn} {s' : TcpSystem Thread Conn}
      (same : s'.writers = s.writers) (kept : s'.peers conn = s.peers conn) : Acts s conn a s'

omit [DecidableEq Thread] in
theorem deliver_nil (p : TcpPeer) : p.deliver [] = p := by
  rw [TcpPeer.deliver, List.append_nil]

theorem acts_of_step {a : Action Thread Conn} (hstep : Step s a s') (conn : Conn) :
    Acts s conn a s' := by
  rw [Step] at hstep
  cases a with
  | writers a =>
      rw [next] at hstep
      split at hstep
      · next hemits =>
          obtain ⟨writers, hwriters, rfl⟩ := Option.map_eq_some_iff.mp hstep
          refine .writes hwriters ?_
          rw [hemits]
          exact (deliver_nil _).symm
      · next conn' bytes hemits =>
          obtain ⟨-, heq⟩ := Option.ite_none_left_eq_some.mp hstep
          obtain ⟨writers, hwriters, rfl⟩ := Option.map_eq_some_iff.mp heq
          refine .writes hwriters ?_
          rw [hemits, TcpWriters.emittedTo]
          by_cases hconn : conn' = conn
          · rw [if_pos hconn, ← hconn]
            exact Function.update_self ..
          · rw [if_neg hconn, deliver_nil]
            exact Function.update_of_ne (Ne.symm hconn) ..
  | peer conn' a =>
      obtain ⟨p, hpeer, rfl⟩ := Option.map_eq_some_iff.mp hstep
      by_cases hconn : conn' = conn
      · subst hconn
        exact .receives rfl (by simpa using hpeer)
      · exact .elsewhere rfl (Function.update_of_ne (Ne.symm hconn) ..)
  | disconnection conn' =>
      obtain ⟨-, heq⟩ := Option.ite_none_right_eq_some.mp hstep
      obtain rfl := Option.some.inj heq
      by_cases hconn : conn' = conn
      · subst hconn
        exact .closes rfl (Function.update_self ..)
      · exact .elsewhere rfl (Function.update_of_ne (Ne.symm hconn) ..)

theorem writers_of_step {a : Action Thread Conn} (hstep : Step s a s') :
    (∃ b, a = .writers b ∧ s.writers.Step b s'.writers) ∨ s'.writers = s.writers := by
  rw [Step] at hstep
  cases a with
  | writers a =>
      left
      rw [next] at hstep
      split at hstep
      · obtain ⟨writers, hwriters, rfl⟩ := Option.map_eq_some_iff.mp hstep
        exact ⟨a, rfl, hwriters⟩
      · obtain ⟨-, heq⟩ := Option.ite_none_left_eq_some.mp hstep
        obtain ⟨writers, hwriters, rfl⟩ := Option.map_eq_some_iff.mp heq
        exact ⟨a, rfl, hwriters⟩
  | peer conn a =>
      obtain ⟨p, -, rfl⟩ := Option.map_eq_some_iff.mp hstep
      exact .inr rfl
  | disconnection conn =>
      obtain ⟨-, heq⟩ := Option.ite_none_right_eq_some.mp hstep
      obtain rfl := Option.some.inj heq
      exact .inr rfl

/-- Every receiver has got what was handed to its connection, in order. -/
structure Sound (s : TcpSystem Thread Conn) : Prop where
  ordered : s.writers.Ordered
  peers : ∀ conn, (s.peers conn).Sound (s.writers.stream conn)

theorem sound_connected (appPath pvdPath : Conn → Bytes) (readBuf : Bytes) :
    (connected Thread appPath pvdPath readBuf).Sound :=
  ⟨TcpWriters.ordered_create, fun _ => .connected ..⟩

/-- What one step preserves. -/
theorem Sound.step (h : s.Sound) {a : Action Thread Conn} (hstep : Step s a s') : s'.Sound := by
  have hordered : s'.writers.Ordered := by
    obtain ⟨b, -, hwriters⟩ | hsame := writers_of_step hstep
    · exact h.ordered.step hwriters
    · rw [hsame]
      exact h.ordered
  refine ⟨hordered, fun conn => ?_⟩
  cases acts_of_step hstep conn with
  | writes step received =>
      rw [received, TcpWriters.stream_step h.ordered.locked step]
      exact (h.peers conn).deliver _
  | receives same step =>
      rw [same]
      exact (h.peers conn).step step
  | closes same closed =>
      rw [same, closed]
      exact (h.peers conn).close
  | elsewhere same kept =>
      rw [same, kept]
      exact h.peers conn

theorem Sound.reachable {appPath pvdPath : Conn → Bytes} {readBuf : Bytes}
    (hrun : Reachable Step (connected Thread appPath pvdPath readBuf) s) : s.Sound :=
  hrun.invariant (sound_connected appPath pvdPath readBuf) fun _ _ _ h _ hstep => h.step hstep

/-- A message of `read_msg` ends where the next segment of its connection ends, and a `write` that
fails is the first one of its segment. -/
def Aligned (s : TcpSystem Thread Conn) : Action Thread Conn → Prop
  | .writers a => s.writers.FailsWhole a
  | .peer conn .handleProtocolChain =>
      (s.peers conn).taken.length = ((s.writers.framesTo conn).take
        ((s.peers conn).rxthrPool.enqueued.length + 1)).flatten.length
  | _ => True

instance (s : TcpSystem Thread Conn) (a : Action Thread Conn) : Decidable (s.Aligned a) :=
  match a with
  | .writers a => inferInstanceAs (Decidable (s.writers.FailsWhole a))
  | .peer _ .handleProtocolChain => inferInstanceAs (Decidable (_ = _))
  | .peer _ (.read _) => .isTrue trivial
  | .peer _ .readEnd => .isTrue trivial
  | .peer _ .readFails => .isTrue trivial
  | .peer _ (.pool _) => .isTrue trivial
  | .disconnection _ => .isTrue trivial

/-- The queued messages are the first segments of their connections. -/
structure Framed (s : TcpSystem Thread Conn) : Prop where
  sound : s.Sound
  whole : s.writers.Whole
  queued : ∀ conn, (s.peers conn).rxthrPool.enqueued.map CRawMessage.content <+:
    s.writers.framesTo conn

theorem framed_connected (appPath pvdPath : Conn → Bytes) (readBuf : Bytes) :
    (connected Thread appPath pvdPath readBuf).Framed where
  sound := sound_connected appPath pvdPath readBuf
  whole := fun _ hmem => absurd hmem List.not_mem_nil
  queued := fun _ => List.nil_prefix

/-- The message that is queued is the next segment. -/
theorem Framed.handle (h : s.Framed)
    (haligned : s.Aligned (.peer conn .handleProtocolChain))
    (hne : (s.peers conn).msgRaw.content ≠ []) :
    (s.peers conn).rxthrPool.enqueued.map CRawMessage.content ++
      [(s.peers conn).msgRaw.content] <+: s.writers.framesTo conn := by
  have htaken : (s.peers conn).taken =
      ((s.peers conn).rxthrPool.enqueued.map CRawMessage.content).flatten ++
        (s.peers conn).msgRaw.content := by
    rw [TcpPeer.taken, List.flatMap_def]
  apply prefix_concat_of_length (h.queued conn) hne
  · rw [← htaken]
    refine List.IsPrefix.trans ?_
      (TcpWriters.stream_prefix_frames h.sound.ordered.locked h.whole conn).1
    rw [← (h.sound.peers conn).stream]
    exact List.prefix_append ..
  · rw [← htaken, List.length_map]
    exact haligned

/-- What one step preserves, if it is aligned. -/
theorem Framed.step (h : s.Framed) {a : Action Thread Conn} (haligned : s.Aligned a)
    (hstep : Step s a s') : s'.Framed := by
  have hwriters : s'.writers.Whole ∧
      ∀ conn, s.writers.framesTo conn <+: s'.writers.framesTo conn := by
    obtain ⟨b, rfl, hwriters⟩ | hsame := writers_of_step hstep
    · exact ⟨TcpWriters.whole_step h.whole haligned hwriters,
        TcpWriters.framesTo_step h.sound.ordered haligned hwriters⟩
    · rw [hsame]
      exact ⟨h.whole, fun _ => List.prefix_rfl⟩
  refine ⟨h.sound.step hstep, hwriters.1, fun conn => ?_⟩
  have hkept := (h.queued conn).trans (hwriters.2 conn)
  cases acts_of_step hstep conn with
  | writes step received =>
      rw [received]
      exact hkept
  | receives same step =>
      obtain henqueued | ⟨rfl, hne, msgRaw, henqueued, hcontent⟩ :=
        TcpPeer.enqueued_step (h.sound.peers conn) step
      · rw [henqueued]
        exact hkept
      · rw [henqueued, List.map_append, List.map_singleton, hcontent]
        exact (h.handle haligned hne).trans (hwriters.2 conn)
  | closes same closed =>
      rw [closed]
      exact hkept
  | elsewhere same kept =>
      rw [kept]
      exact hkept

theorem Framed.of_run {appPath pvdPath : Conn → Bytes} {readBuf : Bytes}
    (hrun : GuardedRun Step Aligned (connected Thread appPath pvdPath readBuf) s) : s.Framed :=
  hrun.invariant (framed_connected appPath pvdPath readBuf) fun _ _ _ h hmet hstep =>
    h.step hmet hstep

end TcpSystem

end CommonCommunicator
