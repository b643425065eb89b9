import CommonCommunicator.Lib.ByteBuffer
import CommonCommunicator.Lib.GuardedRun
import Mathlib.Data.List.Basic
import Mathlib.Logic.Function.Basic

/-!
# Threads that write to TCP connections

Any number of threads are in `write_payload` of one provider. Each of them takes `mtx_write` for
one segment and gives it back behind it, so that segments of several threads alternate on a
connection, and their bytes do not. A step is a call of `write`, or what a thread does around the
lock.

Every segment of a payload has bytes. The descriptor of a connection is taken to be found under the
same path all the time, or not to be found.
-/

namespace CommonCommunicator

open Lib

/-- Where a thread is in `write_payload`: before it, before the lock of the next `write_msg`, or in
the loop of `write_msg`, where `buffer` is what is left of the segment. -/
inductive WritePoint (Conn : Type)
  | outside
  | before (conn : Conn) (itor : List Bytes)
  | inside (conn : Conn) (segment buffer : Bytes) (itor : List Bytes)

/-- The connection and the segment of the loop that the thread is in, and what is left of it. -/
def WritePoint.current {Conn : Type} : WritePoint Conn → Option (Conn × Bytes × Bytes)
  | inside conn segment buffer _ => some (conn, segment, buffer)
  | _ => none

/-- A call of `write_msg` that has ended, with the bytes that the connection has taken. -/
structure WrittenMsg (Thread Conn : Type) where
  thread : Thread
  conn : Conn
  segment : Bytes
  sent : Bytes
  res : Bool

/-- The threads that use one provider. `asked` are the segments that each thread has packed for its
calls of `write_payload`, and `written` are the ended calls of `write_msg`, in the order of their
locks. -/
structure TcpWriters (Thread Conn : Type) where
  point : Thread → WritePoint Conn
  mtxWrite : Option Thread
  asked : Thread → List (Conn × Bytes)
  written : List (WrittenMsg Thread Conn)

namespace TcpWriters

variable {Thread Conn : Type}

/-- No thread has called `write_payload` yet. -/
def create (Thread Conn : Type) : TcpWriters Thread Conn :=
  { point := fun _ => .outside, mtxWrite := none, asked := fun _ => [], written := [] }

variable [DecidableEq Thread]

/-- The thread goes on. -/
def moveTo (s : TcpWriters Thread Conn) (t : Thread) (point : WritePoint Conn) :
    TcpWriters Thread Conn :=
  { s with point := Function.update s.point t point }

/-- A call of `write_msg` ends. -/
def log (s : TcpWriters Thread Conn) (msg : WrittenMsg Thread Conn) : TcpWriters Thread Conn :=
  { s with written := s.written ++ [msg] }

/-- What a thread does: it calls `write_payload`, finds no socket for its segment, takes the lock,
calls `write`, gives the lock back behind a whole segment, or returns. -/
inductive Action (Thread Conn : Type)
  | writePayload (t : Thread) (conn : Conn) (segments : List Bytes)
  | noSocket (t : Thread)
  | lock (t : Thread)
  | write (t : Thread) (writtenSize : Int)
  | unlock (t : Thread)
  | finish (t : Thread)

/-- One step, if the thread is where the step begins. A `write_msg` that returns false makes
`write_payload` return false. -/
def next (s : TcpWriters Thread Conn) : Action Thread Conn → Option (TcpWriters Thread Conn)
  | .writePayload t conn segments =>
      match s.point t with
      | .outside =>
          if ∀ segment ∈ segments, segment ≠ [] then
            some { s.moveTo t (.before conn segments) with
              asked := Function.update s.asked t (s.asked t ++ segments.map (conn, ·)) }
          else none
      | _ => none
  | .noSocket t =>
      match s.point t with
      | .before conn (segment :: _) =>
          some ((s.moveTo t .outside).log
            { thread := t, conn := conn, segment := segment, sent := [], res := false })
      | _ => none
  | .lock t =>
      match s.point t with
      | .before conn (segment :: itor) =>
          if s.mtxWrite = none then
            some { s.moveTo t (.inside conn segment segment itor) with mtxWrite := some t }
          else none
      | _ => none
  | .write t writtenSize =>
      match s.point t with
      | .inside conn segment buffer itor =>
          if buffer = [] then none
          else if writtenSize < 0 then
            some ({ s.moveTo t .outside with mtxWrite := none }.log
              { thread := t, conn := conn, segment := segment
                sent := segment.take (segment.length - buffer.length), res := false })
          else if 1 ≤ writtenSize ∧ writtenSize ≤ buffer.length then
            some (s.moveTo t (.inside conn segment (buffer.drop writtenSize.toNat) itor))
          else none
      | _ => none
  | .unlock t =>
      match s.point t with
      | .inside conn segment [] itor =>
          some ({ s.moveTo t (.before conn itor) with mtxWrite := none }.log
            { thread := t, conn := conn, segment := segment, sent := segment, res := true })
      | _ => none
  | .finish t =>
      match s.point t with
      | .before _ [] => some (s.moveTo t .outside)
      | _ => none

/-- The steps as a relation. -/
def Step (s : TcpWriters Thread Conn) (a : Action Thread Conn) (s' : TcpWriters Thread Conn) :
    Prop := next s a = some s'

/-- The bytes that a step hands to a connection. -/
def emits (s : TcpWriters Thread Conn) : Action Thread Conn → Option (Conn × Bytes)
  | .write t writtenSize =>
      match s.point t with
      | .inside conn _ buffer _ =>
          if writtenSize < 0 then none else some (conn, buffer.take writtenSize.toNat)
      | _ => none
  | _ => none

/-- The call of `write_msg` that has the lock: its connection, its segment and what is left. -/
def holder (s : TcpWriters Thread Conn) : Option (Conn × Bytes × Bytes) :=
  s.mtxWrite.bind fun t => (s.point t).current

/-- The segments that a thread has still to write. -/
def pending : WritePoint Conn → List (Conn × Bytes)
  | .outside => []
  | .before conn itor => itor.map (conn, ·)
  | .inside conn segment _ itor => (conn, segment) :: itor.map (conn, ·)

/-- The segments that a thread has written or tried to write. -/
def writtenBy (s : TcpWriters Thread Conn) (t : Thread) : List (Conn × Bytes) :=
  (s.written.filter (·.thread = t)).map fun msg => (msg.conn, msg.segment)

variable {s s' : TcpWriters Thread Conn} {t u : Thread} {conn : Conn}

/-- What each step does. -/
inductive Wrote (s : TcpWriters Thread Conn) : Action Thread Conn → TcpWriters Thread Conn → Prop
  | called (t : Thread) (conn : Conn) (segments : List Bytes) (origin : s.point t = .outside)
      (whole : ∀ segment ∈ segments, segment ≠ []) :
      Wrote s (.writePayload t conn segments)
        { s.moveTo t (.before conn segments) with
          asked := Function.update s.asked t (s.asked t ++ segments.map (conn, ·)) }
  | missed (t : Thread) (conn : Conn) (segment : Bytes) (itor : List Bytes)
      (origin : s.point t = .before conn (segment :: itor)) :
      Wrote s (.noSocket t) ((s.moveTo t .outside).log
        { thread := t, conn := conn, segment := segment, sent := [], res := false })
  | locked (t : Thread) (conn : Conn) (segment : Bytes) (itor : List Bytes)
      (origin : s.point t = .before conn (segment :: itor)) (free : s.mtxWrite = none) :
      Wrote s (.lock t)
        { s.moveTo t (.inside conn segment segment itor) with mtxWrite := some t }
  | failed (t : Thread) (writtenSize : Int) (conn : Conn) (segment buffer : Bytes)
      (itor : List Bytes) (origin : s.point t = .inside conn segment buffer itor)
      (left : buffer ≠ []) (bad : writtenSize < 0) :
      Wrote s (.write t writtenSize) ({ s.moveTo t .outside with mtxWrite := none }.log
        { thread := t, conn := conn, segment := segment
          sent := segment.take (segment.length - buffer.length), res := false })
  | accepted (t : Thread) (writtenSize : Nat) (conn : Conn) (segment buffer : Bytes)
      (itor : List Bytes) (origin : s.point t = .inside conn segment buffer itor)
      (some : 1 ≤ writtenSize) (fits : writtenSize ≤ buffer.length) :
      Wrote s (.write t writtenSize)
        (s.moveTo t (.inside conn segment (buffer.drop writtenSize) itor))
  | unlocked (t : Thread) (conn : Conn) (segment : Bytes) (itor : List Bytes)
      (origin : s.point t = .inside conn segment [] itor) :
      Wrote s (.unlock t) ({ s.moveTo t (.before conn itor) with mtxWrite := none }.log
        { thread := t, conn := conn, segment := segment, sent := segment, res := true })
  | returned (t : Thread) (conn : Conn) (origin : s.point t = .before conn []) :
      Wrote s (.finish t) (s.moveTo t .outside)

theorem wrote_of_step {a : Action Thread Conn} (hstep : Step s a s') : Wrote s a s' := by
  rw [Step] at hstep
  cases a with
  | writePayload t conn segments =>
      rw [next] at hstep
      split at hstep
      · next horigin =>
          obtain ⟨hwhole, heq⟩ := Option.ite_none_right_eq_some.mp hstep
          obtain rfl := Option.some.inj heq
          exact .called t conn segments horigin hwhole
      · cases hstep
  | noSocket t =>
      rw [next] at hstep
      split at hstep
      · next conn segment itor horigin =>
          obtain rfl := Option.some.inj hstep
          exact .missed t conn segment itor horigin
      · cases hstep
  | lock t =>
      rw [next] at hstep
      split at hstep
      · next conn segment itor horigin =>
          obtain ⟨hfree, heq⟩ := Option.ite_none_right_eq_some.mp hstep
          obtain rfl := Option.some.inj heq
          exact .locked t conn segment itor horigin hfree
      · cases hstep
  | write t writtenSize =>
      rw [next] at hstep
      split at hstep
      · next conn segment buffer itor horigin =>
          split at hstep
          · cases hstep
          · next hleft =>
              split at hstep
              · next hbad =>
                  obtain rfl := Option.some.inj hstep
                  exact .failed t writtenSize conn segment buffer itor horigin hleft hbad
              · obtain ⟨⟨hsome, hfits⟩, heq⟩ := Option.ite_none_right_eq_some.mp hstep
                obtain rfl := Option.some.inj heq
                obtain ⟨n, rfl⟩ := Int.eq_ofNat_of_zero_le (show 0 ≤ writtenSize by omega)
                exact .accepted t n conn segment buffer itor horigin (by omega) (by omega)
      · cases hstep
  | unlock t =>
      rw [next] at hstep
      split at hstep
      · next conn segment itor horigin =>
          obtain rfl := Option.some.inj hstep
          exact .unlocked t conn segment itor horigin
      · cases hstep
  | finish t =>
      rw [next] at hstep
      split at hstep
      · next conn horigin =>
          obtain rfl := Option.some.inj hstep
          exact .returned t conn horigin
      · cases hstep

/-- A thread outside the loop of `write_msg` stays outside. -/
theorem current_update {point : WritePoint Conn} (horigin : (s.point t).current = none)
    (hpoint : point.current = none) (u : Thread) :
    (Function.update s.point t point u).current = (s.point u).current := by
  rw [Function.update_apply]
  split
  · next heq => rw [heq, horigin, hpoint]
  · rfl

theorem holder_move {point : WritePoint Conn} (horigin : (s.point t).current = none)
    (hpoint : point.current = none) (hmutex : s'.mtxWrite = s.mtxWrite)
    (hmoved : s'.point = Function.update s.point t point) : s'.holder = s.holder := by
  rw [holder, holder, hmutex, hmoved]
  exact congrArg s.mtxWrite.bind (funext (current_update horigin hpoint))

/-- The thread with the lock is in its loop, behind a part of its segment, and no other is. -/
structure Locked (s : TcpWriters Thread Conn) : Prop where
  owner : ∀ t, (s.point t).current ≠ none ↔ s.mtxWrite = some t
  behind : ∀ t conn segment buffer, (s.point t).current = some (conn, segment, buffer) →
    ∃ sent, segment = sent ++ buffer

namespace Locked

omit [DecidableEq Thread] in
theorem create : (TcpWriters.create Thread Conn).Locked := by
  constructor
  · intro t
    exact iff_of_false (fun h => h rfl) (Option.some_ne_none t).symm
  · intro t conn segment buffer h
    cases h

omit [DecidableEq Thread] in
theorem holder (h : s.Locked) {segment buffer : Bytes}
    (hcurrent : (s.point t).current = some (conn, segment, buffer)) :
    s.mtxWrite = some t ∧ s.holder = some (conn, segment, buffer) := by
  have howner := (h.owner t).mp (by rw [hcurrent]; exact Option.some_ne_none _)
  exact ⟨howner, by rw [TcpWriters.holder, howner]; exact hcurrent⟩

/-- A thread moves outside the lock. -/
theorem move (h : s.Locked) {point : WritePoint Conn} (horigin : (s.point t).current = none)
    (hpoint : point.current = none) {asked : Thread → List (Conn × Bytes)}
    {written : List (WrittenMsg Thread Conn)} :
    Locked { s with
      point := Function.update s.point t point, asked := asked, written := written } := by
  constructor
  · intro u
    rw [current_update horigin hpoint]
    exact h.owner u
  · intro u conn segment buffer hu
    rw [current_update horigin hpoint] at hu
    exact h.behind u conn segment buffer hu

/-- The thread with the lock goes on in its loop, or one gets the lock. -/
theorem hold (h : s.Locked) {point : WritePoint Conn} {segment buffer : Bytes}
    (hfree : s.mtxWrite = none ∨ s.mtxWrite = some t)
    (hpoint : point.current = some (conn, segment, buffer))
    (hbehind : ∃ sent, segment = sent ++ buffer) :
    Locked { s.moveTo t point with mtxWrite := some t } := by
  have hothers : ∀ u, u ≠ t → (s.point u).current = none := by
    intro u hne
    by_contra hu
    have howner := (h.owner u).mp hu
    rcases hfree with hfree | hfree
    · cases hfree.symm.trans howner
    · exact hne (Option.some.inj (howner.symm.trans hfree))
  constructor
  · intro u
    simp only [moveTo, Function.update_apply]
    split
    · next heq => simp [heq, hpoint]
    · next hne => simp [hothers u hne, Ne.symm hne]
  · intro u conn' segment' buffer' hu
    simp only [moveTo, Function.update_apply] at hu
    split at hu
    · cases hpoint.symm.trans hu
      exact hbehind
    · next hne => cases (hothers u hne).symm.trans hu

/-- The thread with the lock gives it back. -/
theorem release (h : s.Locked) (howner : s.mtxWrite = some t) {point : WritePoint Conn}
    (hpoint : point.current = none) {written : List (WrittenMsg Thread Conn)} :
    Locked { s with
      point := Function.update s.point t point, mtxWrite := none, written := written } := by
  have hnone : ∀ u, (Function.update s.point t point u).current = none := by
    intro u
    rw [Function.update_apply]
    split
    · exact hpoint
    · next hne =>
        by_contra hu
        exact hne (Option.some.inj (((h.owner u).mp hu).symm.trans howner))
  constructor
  · intro u
    exact iff_of_false (fun hu => hu (hnone u)) (Option.some_ne_none u).symm
  · intro u conn segment buffer hu
    cases (hnone u).symm.trans hu

/-- What one step preserves. -/
theorem step (h : s.Locked) {a : Action Thread Conn} (hstep : Step s a s') : s'.Locked := by
  cases wrote_of_step hstep with
  | called t conn segments origin whole => exact h.move (by rw [origin]; rfl) rfl
  | missed t conn segment itor origin => exact h.move (by rw [origin]; rfl) rfl
  | locked t conn segment itor origin free => exact h.hold (.inl free) rfl ⟨[], rfl⟩
  | failed t writtenSize conn segment buffer itor origin left bad =>
      exact h.release (h.holder (by rw [origin]; rfl)).1 rfl
  | accepted t writtenSize conn segment buffer itor origin some fits =>
      obtain ⟨sent, hsent⟩ := h.behind t conn segment buffer (by rw [origin]; rfl)
      have howner := (h.holder (t := t) (by rw [origin]; rfl)).1
      have hhold : Locked { s.moveTo t (.inside conn segment (buffer.drop writtenSize) itor) with
          mtxWrite := Option.some t } := by
        refine h.hold (.inr howner) rfl ⟨sent ++ buffer.take writtenSize, ?_⟩
        rw [List.append_assoc, List.take_append_drop, hsent]
      rwa [← howner] at hhold
  | unlocked t conn segment itor origin => exact h.release (h.holder (by rw [origin]; rfl)).1 rfl
  | returned t conn origin => exact h.move (by rw [origin]; rfl) rfl

end Locked

section Stream

variable [DecidableEq Conn]

/-- The part of what a step hands out that goes to this connection. -/
def emittedTo (conn : Conn) : Option (Conn × Bytes) → Bytes
  | some (conn', bytes) => if conn' = conn then bytes else []
  | none => []

/-- The bytes that the call with the lock has handed to this connection. -/
def sending (s : TcpWriters Thread Conn) (conn : Conn) : Bytes :=
  emittedTo conn (s.holder.map fun (conn', segment, buffer) =>
    (conn', segment.take (segment.length - buffer.length)))

/-- The calls of `write_msg` to this connection, in the order of their locks. -/
def writtenTo (s : TcpWriters Thread Conn) (conn : Conn) : List (WrittenMsg Thread Conn) :=
  s.written.filter (·.conn = conn)

/-- What the calls of `write_msg` have handed to this connection. -/
def stream (s : TcpWriters Thread Conn) (conn : Conn) : Bytes :=
  (s.writtenTo conn).flatMap WrittenMsg.sent ++ s.sending conn

theorem take_of_behind {segment sent buffer : Bytes} (h : segment = sent ++ buffer) :
    segment.take (segment.length - buffer.length) = sent := by
  rw [h, List.length_append, Nat.add_sub_cancel, List.take_left]

omit [DecidableEq Thread] in
/-- An ended call of `write_msg` goes behind the others. -/
theorem flatMap_log (s : TcpWriters Thread Conn) (msg : WrittenMsg Thread Conn) (conn : Conn) :
    ((s.log msg).writtenTo conn).flatMap WrittenMsg.sent =
      (s.writtenTo conn).flatMap WrittenMsg.sent ++ emittedTo conn (some (msg.conn, msg.sent)) := by
  rw [writtenTo, log, List.filter_append, List.flatMap_append]
  by_cases hconn : msg.conn = conn
  · simp [writtenTo, emittedTo, hconn]
  · simp [writtenTo, emittedTo, hconn]

omit [DecidableEq Thread] in
theorem sending_of_holder {conn' : Conn} {segment sent buffer : Bytes}
    (h : s.holder = some (conn', segment, buffer)) (hsent : segment = sent ++ buffer)
    (conn : Conn) : s.sending conn = emittedTo conn (some (conn', sent)) := by
  simp only [sending, h, Option.map_some, take_of_behind hsent]

omit [DecidableEq Thread] in
theorem sending_of_free (h : s.holder = none) (conn : Conn) : s.sending conn = [] := by
  rw [sending, h]
  rfl

omit [DecidableEq Thread] in
theorem emittedTo_append (conn conn' : Conn) (a b : Bytes) :
    emittedTo conn (some (conn', a)) ++ emittedTo conn (some (conn', b)) =
      emittedTo conn (some (conn', a ++ b)) := by
  by_cases hconn : conn' = conn <;> simp [emittedTo, hconn]

/-- What a connection is handed in a step goes behind what it was handed before. -/
theorem stream_step (h : s.Locked) {a : Action Thread Conn} (hstep : Step s a s') (conn : Conn) :
    s'.stream conn = s.stream conn ++ emittedTo conn (emits s a) := by
  have hlocked := h.step hstep
  -- a thread that moves outside the lock leaves the call with the lock as it is
  have hmove : ∀ {t point}, (s.point t).current = none → point.current = none →
      s'.mtxWrite = s.mtxWrite → s'.point = Function.update s.point t point →
      s'.sending conn = s.sending conn := by
    intro t point horigin hpoint hmutex hmoved
    rw [sending, sending, holder_move horigin hpoint hmutex hmoved]
  cases wrote_of_step hstep with
  | called t conn' segments origin whole =>
      have hsending := hmove (t := t) (by rw [origin]; rfl) rfl rfl rfl
      rw [stream, hsending]
      exact (List.append_nil _).symm
  | missed t conn' segment itor origin =>
      have hsending := hmove (t := t) (by rw [origin]; rfl) rfl rfl rfl
      rw [stream, hsending, flatMap_log]
      simp [emits, emittedTo, stream, moveTo, writtenTo]
  | locked t conn' segment itor origin free =>
      have hholder := (hlocked.holder (t := t)
        (show WritePoint.current _ = Option.some (conn', segment, segment) by
          simp [moveTo, WritePoint.current])).2
      rw [stream, sending_of_holder hholder (List.nil_append segment).symm, stream,
        sending_of_free (by rw [holder, free]; rfl)]
      simp [emits, emittedTo, moveTo, writtenTo]
  | failed t writtenSize conn' segment buffer itor origin left bad =>
      obtain ⟨sent, hsent⟩ := h.behind t conn' segment buffer (by rw [origin]; rfl)
      have hholder := (h.holder (t := t) (by rw [origin]; rfl)).2
      rw [stream, sending_of_free rfl, flatMap_log, take_of_behind hsent, stream,
        sending_of_holder hholder hsent]
      simp [emits, origin, bad, emittedTo, moveTo, writtenTo]
  | accepted t writtenSize conn' segment buffer itor origin some fits =>
      obtain ⟨sent, hsent⟩ := h.behind t conn' segment buffer (by rw [origin]; rfl)
      have hholder := (h.holder (t := t) (by rw [origin]; rfl)).2
      have hholder' := (hlocked.holder (t := t)
        (show WritePoint.current _ = Option.some (conn', segment, buffer.drop writtenSize) by
          simp [moveTo, WritePoint.current])).2
      have hsent' : segment = (sent ++ buffer.take writtenSize) ++ buffer.drop writtenSize := by
        rw [List.append_assoc, List.take_append_drop, hsent]
      have hemits : emits s (.write t writtenSize) =
          Option.some (conn', buffer.take writtenSize) := by
        simp [emits, origin]
      rw [stream, sending_of_holder hholder' hsent', hemits, stream,
        sending_of_holder hholder hsent, List.append_assoc, emittedTo_append]
      rfl
  | unlocked t conn' segment itor origin =>
      have hholder := (h.holder (t := t) (by rw [origin]; rfl)).2
      rw [stream, sending_of_free rfl, flatMap_log, stream,
        sending_of_holder hholder (List.append_nil segment).symm]
      simp [emits, emittedTo, moveTo, writtenTo]
  | returned t conn' origin =>
      have hsending := hmove (t := t) (by rw [origin]; rfl) rfl rfl rfl
      rw [stream, hsending]
      exact (List.append_nil _).symm

end Stream

/-- The segments that a thread has written or has still to write. -/
def account (s : TcpWriters Thread Conn) (t : Thread) : List (Conn × Bytes) :=
  s.writtenBy t ++ pending (s.point t)

/-- What a step makes of the segments of a thread: it adds those of a new payload, or drops those
behind one that could not be written. -/
def Accounts (s s' : TcpWriters Thread Conn) (u : Thread) : Prop :=
  (∃ new, s'.asked u = s.asked u ++ new ∧ s'.account u = s.account u ++ new) ∨
    s'.asked u = s.asked u ∧ (s'.account u).Sublist (s.account u) ∧
      ∃ msg ∈ s'.written, msg.thread = u ∧ msg.res = false

theorem writtenBy_log (s : TcpWriters Thread Conn) (msg : WrittenMsg Thread Conn) (u : Thread) :
    (s.log msg).writtenBy u =
      s.writtenBy u ++ if msg.thread = u then [(msg.conn, msg.segment)] else [] := by
  rw [writtenBy, log, List.filter_append, List.map_append]
  by_cases hthread : msg.thread = u
  · simp [writtenBy, hthread]
  · simp [writtenBy, hthread]

/-- The segments of a thread that moves on are the same, or the step of another thread. -/
theorem accounts_same (hasked : s'.asked u = s.asked u) (hwritten : s'.writtenBy u = s.writtenBy u)
    (hpending : pending (s'.point u) = pending (s.point u)) : Accounts s s' u := by
  refine .inl ⟨[], by rw [hasked, List.append_nil], ?_⟩
  rw [account, account, hwritten, hpending, List.append_nil]

theorem accounts_moveTo {point : WritePoint Conn} (hpending : pending point = pending (s.point t))
    {mtxWrite : Option Thread} :
    Accounts s { s.moveTo t point with mtxWrite := mtxWrite } u := by
  refine accounts_same rfl rfl ?_
  simp only [moveTo, Function.update_apply]
  split
  · next heq => rw [heq, hpending]
  · rfl

/-- A call of `write_msg` ends, and what was pending behind its segment stays or is dropped. -/
theorem accounts_log {point : WritePoint Conn} {msg : WrittenMsg Thread Conn}
    {rest : List (Conn × Bytes)} (hthread : msg.thread = t)
    (horigin : pending (s.point t) = (msg.conn, msg.segment) :: rest)
    (hpending : pending point = rest ∨ pending point = [] ∧ msg.res = false)
    {mtxWrite : Option Thread} :
    Accounts s ({ s.moveTo t point with mtxWrite := mtxWrite }.log msg) u := by
  have hwritten := writtenBy_log { s.moveTo t point with mtxWrite := mtxWrite } msg u
  have hmoved : writtenBy { s.moveTo t point with mtxWrite := mtxWrite } u = s.writtenBy u := rfl
  rw [hmoved] at hwritten
  by_cases hut : u = t
  · rw [if_pos (hthread.trans hut.symm)] at hwritten
    have hpoint : ({ s.moveTo t point with mtxWrite := mtxWrite }.log msg).point u = point := by
      rw [hut]
      exact Function.update_self ..
    have hold : s.account u = s.writtenBy u ++ (msg.conn, msg.segment) :: rest := by
      rw [account, hut, horigin]
    rcases hpending with hpending | ⟨hpending, hfailed⟩
    · refine .inl ⟨[], (List.append_nil _).symm, ?_⟩
      rw [account, hwritten, hpoint, hpending, hold, List.append_nil, List.append_assoc]
      rfl
    · refine .inr ⟨rfl, ?_, msg, List.mem_append_right _ List.mem_cons_self,
        hthread.trans hut.symm, hfailed⟩
      rw [account, hwritten, hpoint, hpending, hold, List.append_nil]
      exact List.Sublist.append_left (List.singleton_sublist.mpr List.mem_cons_self) _
  · rw [if_neg (fun heq => hut (heq.symm.trans hthread)), List.append_nil] at hwritten
    exact accounts_same rfl hwritten (congrArg pending (Function.update_of_ne hut ..))

theorem accounts_step {a : Action Thread Conn} (hstep : Step s a s') (u : Thread) :
    Accounts s s' u := by
  cases wrote_of_step hstep with
  | called t conn segments origin whole =>
      by_cases hut : u = t
      · refine .inl ⟨segments.map (conn, ·), ?_, ?_⟩
        · rw [hut]
          exact Function.update_self ..
        · simp only [account, moveTo, hut, origin, Function.update_self, pending]
          rw [List.append_nil]
          rfl
      · exact accounts_same (Function.update_of_ne hut ..) rfl
          (congrArg pending (Function.update_of_ne hut ..))
  | missed t conn segment itor origin =>
      exact accounts_log rfl (by rw [origin]; rfl) (.inr ⟨rfl, rfl⟩)
  | locked t conn segment itor origin free => exact accounts_moveTo (by rw [origin]; rfl)
  | failed t writtenSize conn segment buffer itor origin left bad =>
      exact accounts_log rfl (by rw [origin]; rfl) (.inr ⟨rfl, rfl⟩)
  | accepted t writtenSize conn segment buffer itor origin some fits =>
      exact accounts_moveTo (by rw [origin]; rfl)
  | unlocked t conn segment itor origin => exact accounts_log rfl (by rw [origin]; rfl) (.inl rfl)
  | returned t conn origin => exact accounts_moveTo (by rw [origin]; rfl)

/-- What the log of ended calls says. -/
structure Ordered (s : TcpWriters Thread Conn) : Prop where
  locked : s.Locked
  whole : ∀ t, ∀ entry ∈ pending (s.point t), entry.2 ≠ []
  sent : ∀ msg ∈ s.written, msg.segment ≠ [] ∧ msg.sent <+: msg.segment ∧
    (msg.res = true ↔ msg.sent = msg.segment)
  asked : ∀ t, (s.account t).Sublist (s.asked t) ∧
    ((∀ msg ∈ s.written, msg.thread = t → msg.res = true) → s.account t = s.asked t)

theorem ordered_create : (create Thread Conn).Ordered where
  locked := .create
  whole := fun _ _ hmem => absurd hmem List.not_mem_nil
  sent := fun _ hmem => absurd hmem List.not_mem_nil
  asked := fun _ => ⟨List.Sublist.slnil, fun _ => rfl⟩

namespace Ordered

theorem whole_moveTo (h : s.Ordered) {point : WritePoint Conn}
    (hpoint : ∀ entry ∈ pending point, entry.2 ≠ []) :
    ∀ u, ∀ entry ∈ pending ((s.moveTo t point).point u), entry.2 ≠ [] := by
  intro u entry hmem
  simp only [moveTo, Function.update_apply] at hmem
  split at hmem
  · exact hpoint entry hmem
  · exact h.whole u entry hmem

theorem sent_log (h : s.Ordered) {msg : WrittenMsg Thread Conn} (hne : msg.segment ≠ [])
    (hsent : msg.sent <+: msg.segment) (hres : msg.res = true ↔ msg.sent = msg.segment) :
    ∀ other ∈ s.written ++ [msg], other.segment ≠ [] ∧ other.sent <+: other.segment ∧
      (other.res = true ↔ other.sent = other.segment) := by
  intro other hmem
  rcases List.mem_append.mp hmem with hmem | hmem
  · exact h.sent other hmem
  · rw [List.mem_singleton.mp hmem]
    exact ⟨hne, hsent, hres⟩

theorem asked_step (h : s.Ordered) {a : Action Thread Conn} (hstep : Step s a s')
    (hkept : ∀ msg ∈ s.written, msg ∈ s'.written) (u : Thread) :
    (s'.account u).Sublist (s'.asked u) ∧
      ((∀ msg ∈ s'.written, msg.thread = u → msg.res = true) → s'.account u = s'.asked u) := by
  obtain ⟨hless, hall⟩ := h.asked u
  obtain ⟨new, hasked, haccount⟩ | ⟨hasked, hdropped, msg, hmem, hthread, hfailed⟩ :=
    accounts_step hstep u
  · rw [hasked, haccount]
    refine ⟨hless.append_right new, fun hres => ?_⟩
    rw [hall fun msg hmem => hres msg (hkept msg hmem)]
  · rw [hasked]
    refine ⟨hdropped.trans hless, fun hres => ?_⟩
    cases hfailed.symm.trans (hres msg hmem hthread)

/-- What one step preserves. -/
theorem step (h : s.Ordered) {a : Action Thread Conn} (hstep : Step s a s') : s'.Ordered := by
  have hlocked := h.locked.step hstep
  have hasked := h.asked_step hstep
  cases wrote_of_step hstep with
  | called t conn segments origin whole =>
      refine ⟨hlocked, h.whole_moveTo ?_, h.sent, hasked fun _ => id⟩
      intro entry hmem
      obtain ⟨segment, hsegment, rfl⟩ := List.mem_map.mp hmem
      exact whole segment hsegment
  | missed t conn segment itor origin =>
      have hne : segment ≠ [] := h.whole t (conn, segment) (by rw [origin]; exact .head _)
      refine ⟨hlocked, h.whole_moveTo fun _ hmem => absurd hmem List.not_mem_nil, ?_,
        hasked fun _ => List.mem_append_left _⟩
      exact h.sent_log hne List.nil_prefix (iff_of_false Bool.false_ne_true hne.symm)
  | locked t conn segment itor origin free =>
      have hwhole := h.whole t
      rw [origin] at hwhole
      exact ⟨hlocked, h.whole_moveTo hwhole, h.sent, hasked fun _ => id⟩
  | failed t writtenSize conn segment buffer itor origin left bad =>
      have hne : segment ≠ [] := h.whole t (conn, segment) (by rw [origin]; exact .head _)
      obtain ⟨sent, hsent⟩ := h.locked.behind t conn segment buffer (by rw [origin]; rfl)
      refine ⟨hlocked, h.whole_moveTo fun _ hmem => absurd hmem List.not_mem_nil, ?_,
        hasked fun _ => List.mem_append_left _⟩
      refine h.sent_log hne (List.take_prefix _ _) (iff_of_false Bool.false_ne_true ?_)
      intro heq
      have hwhole : sent = segment := (take_of_behind hsent).symm.trans heq
      rw [hwhole] at hsent
      exact left (List.self_eq_append_right.mp hsent)
  | accepted t writtenSize conn segment buffer itor origin some fits =>
      have hwhole := h.whole t
      rw [origin] at hwhole
      exact ⟨hlocked, h.whole_moveTo hwhole, h.sent, hasked fun _ => id⟩
  | unlocked t conn segment itor origin =>
      have hwhole := h.whole t
      rw [origin] at hwhole
      have hne : segment ≠ [] := hwhole (conn, segment) (.head _)
      refine ⟨hlocked, h.whole_moveTo fun entry hmem => hwhole entry (.tail _ hmem), ?_,
        hasked fun _ => List.mem_append_left _⟩
      exact h.sent_log hne List.prefix_rfl (iff_of_true rfl rfl)
  | returned t conn origin =>
      exact ⟨hlocked, h.whole_moveTo fun _ hmem => absurd hmem List.not_mem_nil, h.sent,
        hasked fun _ => id⟩

theorem reachable (hrun : Reachable Step (TcpWriters.create Thread Conn) s) : s.Ordered :=
  hrun.invariant ordered_create fun _ _ _ h _ hstep => h.step hstep

end Ordered

section Frames

variable [DecidableEq Conn]

/-- A `write` that fails is the first one of its segment. -/
def FailsWhole (s : TcpWriters Thread Conn) : Action Thread Conn → Prop
  | .write t writtenSize =>
      ∀ conn segment buffer, (s.point t).current = some (conn, segment, buffer) →
        writtenSize < 0 → buffer = segment
  | _ => True

instance (s : TcpWriters Thread Conn) (a : Action Thread Conn) : Decidable (s.FailsWhole a) :=
  match a with
  | .write t writtenSize =>
      match hcurrent : (s.point t).current with
      | none => .isTrue (by simp [FailsWhole, hcurrent])
      | some (conn, segment, buffer) =>
          decidable_of_iff (writtenSize < 0 → buffer = segment) (by simp [FailsWhole, hcurrent])
  | .writePayload _ _ _ => .isTrue trivial
  | .noSocket _ => .isTrue trivial
  | .lock _ => .isTrue trivial
  | .unlock _ => .isTrue trivial
  | .finish _ => .isTrue trivial

/-- No call of `write_msg` has left a part of its segment. -/
def Whole (s : TcpWriters Thread Conn) : Prop :=
  ∀ msg ∈ s.written, msg.sent = [] ∨ msg.sent = msg.segment

/-- The segment of the call with the lock, if it has handed bytes to this connection. -/
def begun (s : TcpWriters Thread Conn) (conn : Conn) : List Bytes :=
  if s.sending conn = [] then [] else (s.holder.map fun (_, segment, _) => segment).toList

/-- The segments of which this connection has taken bytes, in the order of their locks. -/
def framesTo (s : TcpWriters Thread Conn) (conn : Conn) : List Bytes :=
  ((s.writtenTo conn).filter (·.sent ≠ [])).map WrittenMsg.segment ++ s.begun conn

omit [DecidableEq Thread] in
theorem framesTo_log_none (s : TcpWriters Thread Conn) {msg : WrittenMsg Thread Conn}
    (hsent : msg.sent = []) (conn : Conn) :
    (((s.log msg).writtenTo conn).filter (·.sent ≠ [])).map WrittenMsg.segment =
      ((s.writtenTo conn).filter (·.sent ≠ [])).map WrittenMsg.segment := by
  rw [writtenTo, log, List.filter_append, List.filter_append, List.map_append]
  by_cases hconn : msg.conn = conn <;> simp [hconn, hsent, writtenTo]

omit [DecidableEq Thread] in
theorem framesTo_log_whole (s : TcpWriters Thread Conn) {msg : WrittenMsg Thread Conn}
    (hsent : msg.sent ≠ []) (conn : Conn) :
    (((s.log msg).writtenTo conn).filter (·.sent ≠ [])).map WrittenMsg.segment =
      ((s.writtenTo conn).filter (·.sent ≠ [])).map WrittenMsg.segment ++
        if msg.conn = conn then [msg.segment] else [] := by
  rw [writtenTo, log, List.filter_append, List.filter_append, List.map_append]
  by_cases hconn : msg.conn = conn <;> simp [hconn, hsent, writtenTo]

omit [DecidableEq Thread] in
theorem begun_of_free (h : s.holder = none) (conn : Conn) : s.begun conn = [] := by
  rw [begun, if_pos (sending_of_free h conn)]

omit [DecidableEq Thread] in
theorem begun_of_holder {conn' : Conn} {segment sent buffer : Bytes}
    (h : s.holder = some (conn', segment, buffer)) (hsent : segment = sent ++ buffer)
    (conn : Conn) : s.begun conn = if conn' = conn ∧ sent ≠ [] then [segment] else [] := by
  rw [begun, sending_of_holder h hsent, emittedTo, h]
  by_cases hconn : conn' = conn <;> by_cases hnil : sent = [] <;> simp [hconn, hnil]

/-- The frames of a connection stay, and new ones come behind them. -/
theorem framesTo_step (h : s.Ordered) {a : Action Thread Conn} (ha : s.FailsWhole a)
    (hstep : Step s a s') (conn : Conn) : s.framesTo conn <+: s'.framesTo conn := by
  have hlocked := h.locked.step hstep
  have hmove : ∀ {t point}, (s.point t).current = none → point.current = none →
      s'.mtxWrite = s.mtxWrite → s'.point = Function.update s.point t point →
      s'.begun conn = s.begun conn := by
    intro t point horigin hpoint hmutex hmoved
    rw [begun, begun, sending, sending, holder_move horigin hpoint hmutex hmoved]
  have hreleased : s'.mtxWrite = none → s'.begun conn = [] := by
    intro hfree
    exact begun_of_free (by rw [holder, hfree]; rfl) conn
  cases wrote_of_step hstep with
  | called t conn' segments origin whole =>
      have hbegun := hmove (t := t) (by rw [origin]; rfl) rfl rfl rfl
      rw [framesTo, framesTo, hbegun]
      exact List.prefix_rfl
  | missed t conn' segment itor origin =>
      have hbegun := hmove (t := t) (by rw [origin]; rfl) rfl rfl rfl
      rw [framesTo, framesTo, hbegun, framesTo_log_none _ rfl]
      exact List.prefix_rfl
  | locked t conn' segment itor origin free =>
      have hholder := (hlocked.holder (t := t)
        (show WritePoint.current _ = Option.some (conn', segment, segment) by
          simp [moveTo, WritePoint.current])).2
      rw [framesTo, framesTo, begun_of_free (by rw [holder, free]; rfl),
        begun_of_holder hholder (List.nil_append segment).symm]
      simp [moveTo, writtenTo]
  | failed t writtenSize conn' segment buffer itor origin left bad =>
      obtain rfl : buffer = segment := ha conn' segment buffer (by rw [origin]; rfl) bad
      have hholder := (h.locked.holder (t := t) (by rw [origin]; rfl)).2
      rw [framesTo, framesTo, hreleased rfl,
        begun_of_holder hholder (List.nil_append buffer).symm, framesTo_log_none _ (by simp)]
      simp [moveTo, writtenTo]
  | accepted t writtenSize conn' segment buffer itor origin some fits =>
      obtain ⟨sent, hsent⟩ := h.locked.behind t conn' segment buffer (by rw [origin]; rfl)
      have hholder := (h.locked.holder (t := t) (by rw [origin]; rfl)).2
      have hholder' := (hlocked.holder (t := t)
        (show WritePoint.current _ = Option.some (conn', segment, buffer.drop writtenSize) by
          simp [moveTo, WritePoint.current])).2
      have hsent' : segment = (sent ++ buffer.take writtenSize) ++ buffer.drop writtenSize := by
        rw [List.append_assoc, List.take_append_drop, hsent]
      rw [framesTo, framesTo, begun_of_holder hholder hsent, begun_of_holder hholder' hsent']
      refine (List.prefix_append_right_inj _).mpr ?_
      by_cases hbegun : conn' = conn ∧ sent ≠ []
      · have hbegun' : conn' = conn ∧ sent ++ buffer.take writtenSize ≠ [] :=
          ⟨hbegun.1, by simp [hbegun.2]⟩
        exact (if_pos hbegun).trans (if_pos hbegun').symm ▸ List.prefix_rfl
      · rw [if_neg hbegun]
        exact List.nil_prefix
  | unlocked t conn' segment itor origin =>
      have hne : segment ≠ [] := h.whole t (conn', segment) (by rw [origin]; exact .head _)
      have hholder := (h.locked.holder (t := t) (by rw [origin]; rfl)).2
      rw [framesTo, framesTo, hreleased rfl,
        begun_of_holder hholder (List.append_nil segment).symm, framesTo_log_whole _ hne]
      simp [moveTo, writtenTo, hne]
  | returned t conn' origin =>
      have hbegun := hmove (t := t) (by rw [origin]; rfl) rfl rfl rfl
      rw [framesTo, framesTo, hbegun]
      exact List.prefix_rfl

omit [DecidableEq Conn] in
/-- What the guard keeps. -/
theorem whole_step (h : s.Whole) {a : Action Thread Conn} (ha : s.FailsWhole a)
    (hstep : Step s a s') : s'.Whole := by
  have hlog : ∀ msg : WrittenMsg Thread Conn, msg.sent = [] ∨ msg.sent = msg.segment →
      ∀ other ∈ s.written ++ [msg], other.sent = [] ∨ other.sent = other.segment := by
    intro msg hmsg other hmem
    rcases List.mem_append.mp hmem with hmem | hmem
    · exact h other hmem
    · rw [List.mem_singleton.mp hmem]
      exact hmsg
  cases wrote_of_step hstep with
  | called _ _ _ _ _ | locked _ _ _ _ _ _ | accepted _ _ _ _ _ _ _ _ _ | returned _ _ _ => exact h
  | missed t conn' segment itor origin => exact hlog _ (.inl rfl)
  | failed t writtenSize conn' segment buffer itor origin left bad =>
      obtain rfl : buffer = segment := ha conn' segment buffer (by rw [origin]; rfl) bad
      exact hlog _ (.inl (by simp))
  | unlocked t conn' segment itor origin => exact hlog _ (.inr rfl)

omit [DecidableEq Thread] in
/-- A connection has taken a front part of its frames, and all of them if no call is behind a part
of its segment. -/
theorem stream_prefix_frames (h : s.Locked) (hwhole : s.Whole) (conn : Conn) :
    s.stream conn <+: (s.framesTo conn).flatten ∧
      (s.sending conn = [] → s.stream conn = (s.framesTo conn).flatten) := by
  have hwritten : ∀ msgs : List (WrittenMsg Thread Conn),
      (∀ msg ∈ msgs, msg.sent = [] ∨ msg.sent = msg.segment) →
      ((msgs.filter (·.sent ≠ [])).map WrittenMsg.segment).flatten =
        msgs.flatMap WrittenMsg.sent := by
    intro msgs
    induction msgs with
    | nil => exact fun _ => rfl
    | cons msg msgs ih =>
        intro hall
        obtain ⟨hmsg, hrest⟩ := List.forall_mem_cons.mp hall
        by_cases hnil : msg.sent = []
        · rw [List.filter_cons_of_neg (by simp [hnil]), ih hrest, List.flatMap_cons, hnil,
            List.nil_append]
        · rw [List.filter_cons_of_pos (by simp [hnil]), List.map_cons, List.flatten_cons, ih hrest,
            List.flatMap_cons, hmsg.resolve_left hnil]
  have hcalls := hwritten (s.writtenTo conn) fun msg hmem => hwhole msg (List.mem_filter.mp hmem).1
  rw [framesTo, List.flatten_append, hcalls, stream]
  constructor
  · refine (List.prefix_append_right_inj _).mpr ?_
    cases hholder : s.holder with
    | none =>
        rw [sending_of_free hholder]
        exact List.nil_prefix
    | some current =>
        obtain ⟨conn', segment, buffer⟩ := current
        obtain ⟨t, howner, hcurrent⟩ := Option.bind_eq_some_iff.mp hholder
        obtain ⟨sent, hsent⟩ := h.behind t conn' segment buffer hcurrent
        rw [sending_of_holder hholder hsent, begun_of_holder hholder hsent, emittedTo]
        by_cases hconn : conn' = conn
        · by_cases hnil : sent = []
          · simp [hconn, hnil]
          · simp [hconn, hnil, hsent]
        · simp [hconn]
  · intro hfree
    rw [hfree, begun, if_pos hfree]
    rfl

end Frames

end TcpWriters

end CommonCommunicator
