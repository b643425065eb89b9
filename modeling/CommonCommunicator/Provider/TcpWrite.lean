import CommonCommunicator.Base.RawMessage
import CommonCommunicator.Communicator.SendPayload

/-!
# The write loop of CPVD_TCP

`write_msg` calls `write` with what is left of the message until nothing is left
or a call fails; `write_payload` calls `write_msg` for one segment after the other
until one of them returns false. Both are modelled with the calls of `write` that
they make, in order. What `write` returns is an oracle for the number of the call
and the number of bytes that it is asked to send.

`msg_size` is an `Int` here as it is an `ssize_t` in the source, where no message
has `2 ^ 63` bytes.
-/

namespace CommonCommunicator

open Lib

/-- A call of `write`: the bytes that it is asked to send, and its result. -/
structure SocketWrite where
  asked : Bytes
  result : Int
  deriving DecidableEq, Repr

/-- The bytes that the call has taken. -/
def SocketWrite.accepted (call : SocketWrite) : Bytes := call.asked.take call.result.toNat

namespace TcpWrite

/-- The bytes that the calls have taken. -/
def accepted (calls : List SocketWrite) : Bytes := calls.flatMap SocketWrite.accepted

/-- The variables of the loop: how far `buffer` is behind the start of the message, and
`msg_size`. -/
structure WriteVars where
  buffer : Nat
  msgSize : Int
  deriving DecidableEq, Repr

section Source

variable (write : Nat → Nat → Int)

/-- The loop of `write_msg` on the block `data`: its result and the calls of `write`, those made
before in `calls`. Nothing is left of a loop that does not end within `turns`. -/
def writeLoop (data : Bytes) : (turns : Nat) → WriteVars → List SocketWrite →
    Outcome (Option (Bool × List SocketWrite))
  | 0, _, _ => return none
  | turns + 1, vars, calls =>
      if 0 < vars.msgSize then do
        let asked ← readBytes data vars.buffer vars.msgSize.toNat
        let writtenSize := write calls.length asked.length
        let calls := calls ++ [{ asked := asked, result := writtenSize }]
        if writtenSize < 0 then return some (false, calls)
        else
          writeLoop data turns
            { buffer := vars.buffer + writtenSize.toNat, msgSize := vars.msgSize - writtenSize }
            calls
      else return some (true, calls)

/-- `write_msg` with what `get_connected_socket` has returned or thrown. -/
def writeMsg (turns : Nat) (uSockfd : Except StdException Int) (msg : CRawMessage)
    (calls : List SocketWrite) : Outcome (Option (Bool × List SocketWrite)) :=
  match uSockfd with
  | .error _ => return some (false, calls)
  | .ok uSockfd =>
      match msg.mMsg with
      | none => .error .assertion
      | some data => do
          assertThat (0 < uSockfd ∧ 0 < msg.msgSize)
          writeLoop write data turns { buffer := 0, msgSize := msg.msgSize } calls

/-- The loop of `write_payload` over the segments: true at its end, false where it throws. The
sockets are those of the segments in order. -/
def writeSegments (turns : Nat) (uSockfd : Nat → Except StdException Int) : (i : Nat) →
    List CRawMessage → List SocketWrite → Outcome (Option (Bool × List SocketWrite))
  | _, [], calls => return some (true, calls)
  | i, segment :: segments, calls => do
      match ← writeMsg write turns (uSockfd i) segment calls with
      | none => return none
      | some (false, calls) => return some (false, calls)
      | some (true, calls) => writeSegments turns uSockfd (i + 1) segments calls

end Source

/-- `write` fails, or takes between one byte and all that it is asked to send. -/
def TakesSome (write : Nat → Nat → Int) : Prop :=
  ∀ i count, 0 < count → write i count = -1 ∨ 1 ≤ write i count ∧ write i count ≤ count

/-- How calls of `write` send the message `b` to their result: each takes the bytes behind the
ones taken before, and the last one has failed exactly if the result is false. -/
structure Sends (b : Bytes) (res : Bool) (calls : List SocketWrite) : Prop where
  isPrefix : accepted calls <+: b
  short : (calls.filter fun call => 0 ≤ call.result).length ≤ b.length
  complete : res = true ↔ accepted calls = b
  failed : res = false ↔ ∃ call ∈ calls, call.result = -1

@[simp] theorem accepted_nil : accepted [] = [] := rfl

@[simp] theorem accepted_cons (call : SocketWrite) (calls : List SocketWrite) :
    accepted (call :: calls) = call.accepted ++ accepted calls := rfl

theorem accepted_append (calls calls' : List SocketWrite) :
    accepted (calls ++ calls') = accepted calls ++ accepted calls' := List.flatMap_append

variable {write : Nat → Nat → Int} {rest b : Bytes} {res : Bool} {calls new : List SocketWrite}

theorem Sends.nil : Sends [] true [] := by
  refine ⟨?_, ?_, ?_, ?_⟩ <;> simp

/-- A call that fails is the last one. -/
theorem Sends.fail (hne : rest ≠ []) : Sends rest false [{ asked := rest, result := -1 }] := by
  refine ⟨?_, ?_, ?_, ?_⟩
  · simp [SocketWrite.accepted]
  · simp
  · simp [SocketWrite.accepted, hne.symm]
  · simp

/-- A call that takes bytes leaves the others to the calls after it. -/
theorem Sends.cons {r : Int} (hr : 1 ≤ r) (hle : r ≤ rest.length)
    (h : Sends (rest.drop r.toNat) res new) :
    Sends rest res ({ asked := rest, result := r } :: new) := by
  have hsplit : rest.take r.toNat ++ rest.drop r.toNat = rest := List.take_append_drop _ _
  have hcount := h.short
  rw [List.length_drop] at hcount
  refine ⟨?_, ?_, ?_, ?_⟩
  · rw [accepted_cons, SocketWrite.accepted]
    calc rest.take r.toNat ++ accepted new
        <+: rest.take r.toNat ++ rest.drop r.toNat :=
          (List.prefix_append_right_inj _).mpr h.isPrefix
      _ = rest := hsplit
  · rw [List.filter_cons_of_pos (by simp only [decide_eq_true_eq]; omega), List.length_cons]
    omega
  · rw [h.complete, accepted_cons, SocketWrite.accepted]
    constructor
    · intro heq
      rw [heq, hsplit]
    · intro heq
      exact List.append_cancel_left (heq.trans hsplit.symm)
  · have hne : r ≠ -1 := by omega
    rw [h.failed, List.exists_mem_cons_iff]
    exact (or_iff_right hne).symm

/-- From behind the bytes already taken, the loop sends the rest of the message. -/
theorem writeLoop_sends (hwrite : TakesSome write) {data : Bytes} (hdata : data.take b.length = b)
    {turns : Nat} {vars : WriteVars} (hvars : vars.buffer + vars.msgSize = b.length)
    (hsize : 0 ≤ vars.msgSize) (hturns : vars.msgSize < turns) (calls : List SocketWrite) :
    ∃ res new, writeLoop write data turns vars calls = .ok (some (res, calls ++ new)) ∧
      Sends (b.drop vars.buffer) res new := by
  induction turns generalizing vars calls with
  | zero => omega
  | succ turns ih =>
      rw [writeLoop]
      by_cases hleft : 0 < vars.msgSize
      · have hlen : b.length ≤ data.length := by
          rw [← hdata]
          exact List.length_take_le' _ _
        have hasked : readBytes data vars.buffer vars.msgSize.toNat = .ok (b.drop vars.buffer) := by
          have hfield : field data vars.buffer vars.msgSize.toNat = b.drop vars.buffer := by
            rw [← field_take (n := b.length) (by omega), hdata, field]
            exact List.take_of_length_le (by rw [List.length_drop]; omega)
          rw [readBytes_of_le (by omega), hfield]
        have hcount : (b.drop vars.buffer).length = vars.msgSize := by
          rw [List.length_drop]
          omega
        rw [if_pos hleft, hasked, ok_bind]
        rcases hwrite calls.length (b.drop vars.buffer).length (by omega) with hfail | ⟨hr, hle⟩
        · rw [hfail]
          refine ⟨false, [{ asked := b.drop vars.buffer, result := -1 }], rfl, ?_⟩
          exact .fail (List.ne_nil_of_length_pos (by omega))
        · generalize write calls.length (b.drop vars.buffer).length = r at hr hle ⊢
          obtain ⟨res, new, hloop, hsends⟩ := @ih
            { buffer := vars.buffer + r.toNat, msgSize := vars.msgSize - r }
            (by dsimp only; omega) (by dsimp only; omega) (by dsimp only; omega)
            (calls ++ [{ asked := b.drop vars.buffer, result := r }])
          refine ⟨res, { asked := b.drop vars.buffer, result := r } :: new, ?_, ?_⟩
          · dsimp only
            rw [if_neg (by omega), hloop, List.append_assoc, List.singleton_append]
          · apply Sends.cons hr hle
            rw [List.drop_drop]
            exact hsends
      · rw [if_neg hleft]
        refine ⟨true, [], by rw [List.append_nil]; rfl, ?_⟩
        rw [List.drop_eq_nil_of_le (by omega)]
        exact .nil

/-- `write_msg` on a valid socket ends within as many turns as the message has bytes and one. -/
theorem writeMsg_sends (hwrite : TakesSome write) {msg : CRawMessage} (hmsg : msg.Holds b)
    (hne : b ≠ []) {uSockfd : Int} (hsock : 0 < uSockfd) {turns : Nat} (hturns : b.length < turns)
    (calls : List SocketWrite) :
    ∃ res new, writeMsg write turns (.ok uSockfd) msg calls = .ok (some (res, calls ++ new)) ∧
      Sends b res new := by
  obtain ⟨⟨data, hdata, -, -, htake, -⟩, hsize⟩ := hmsg
  have hpos : 0 < b.length := List.length_pos_iff.mpr hne
  obtain ⟨res, new, hloop, hsends⟩ := @writeLoop_sends write b hwrite data htake turns
    { buffer := 0, msgSize := b.length } (by simp) (by simp) (by simpa using hturns) calls
  refine ⟨res, new, ?_, hsends⟩
  simp only [writeMsg, hdata, hsize]
  rw [assertThat_pos ⟨hsock, hpos⟩, ok_bind, hloop]

/-- The segments hold messages, and the sockets are valid or not found. -/
structure Sendable (turns : Nat) (uSockfd : Nat → Except StdException Int)
    (segments : List CRawMessage) : Prop where
  holds : ∀ segment ∈ segments, segment.Holds segment.content ∧ segment.content ≠ [] ∧
    segment.content.length < turns
  valid : ∀ i fd, uSockfd i = .ok fd → 0 < fd

/-- The segments up to `failed` are sent, `failed` in part, and whatever comes behind it makes no
call of `write`. -/
structure Stops (write : Nat → Nat → Int) (turns : Nat) (uSockfd : Nat → Except StdException Int)
    (i : Nat) (calls new : List SocketWrite) (done : List CRawMessage) (failed : CRawMessage) :
    Prop where
  part : ∃ part, part <+: failed.content ∧ part ≠ failed.content ∧
    accepted new = done.flatMap CRawMessage.content ++ part
  rest : ∀ rest, writeSegments write turns uSockfd i (done ++ failed :: rest) calls =
    .ok (some (false, calls ++ new))

variable {turns : Nat} {uSockfd : Nat → Except StdException Int}

theorem writeSegments_cons_false {i : Nat} {segment : CRawMessage} (segments : List CRawMessage)
    (h : writeMsg write turns (uSockfd i) segment calls = .ok (some (false, new))) :
    writeSegments write turns uSockfd i (segment :: segments) calls = .ok (some (false, new)) := by
  rw [writeSegments, h]
  rfl

theorem writeSegments_cons_true {i : Nat} {segment : CRawMessage} (segments : List CRawMessage)
    (h : writeMsg write turns (uSockfd i) segment calls = .ok (some (true, new))) :
    writeSegments write turns uSockfd i (segment :: segments) calls =
      writeSegments write turns uSockfd (i + 1) segments new := by
  rw [writeSegments, h]
  rfl

/-- The loop over the segments comes to its end, and then has sent them all, or stops at one. -/
theorem writeSegments_sends (hwrite : TakesSome write) {segments : List CRawMessage}
    (hsegments : Sendable turns uSockfd segments) (i : Nat) (calls : List SocketWrite) :
    ∃ new, writeSegments write turns uSockfd i segments calls = .ok (some (true, calls ++ new)) ∧
        accepted new = segments.flatMap CRawMessage.content ∨
      ∃ done failed rest, segments = done ++ failed :: rest ∧
        Stops write turns uSockfd i calls new done failed := by
  induction segments generalizing i calls with
  | nil => exact ⟨[], .inl ⟨by rw [List.append_nil]; rfl, rfl⟩⟩
  | cons segment segments ih =>
      obtain ⟨⟨hholds, hne, hturns⟩, hrest⟩ := List.forall_mem_cons.mp hsegments.holds
      have hstop : ∀ new, writeMsg write turns (uSockfd i) segment calls =
            .ok (some (false, calls ++ new)) →
          accepted new <+: segment.content → accepted new ≠ segment.content →
          Stops write turns uSockfd i calls new [] segment :=
        fun new hmsg hfront hpart =>
          ⟨⟨accepted new, hfront, hpart, rfl⟩, fun rest => writeSegments_cons_false rest hmsg⟩
      cases hsock : uSockfd i with
      | error e =>
          refine ⟨[], .inr ⟨[], segment, segments, rfl, hstop [] ?_ ?_ ?_⟩⟩
          · rw [hsock, List.append_nil]
            rfl
          · exact List.nil_prefix
          · exact hne.symm
      | ok fd =>
          obtain ⟨res, sent, hmsg, hsends⟩ :=
            writeMsg_sends hwrite hholds hne (hsegments.valid i fd hsock) hturns calls
          rw [← hsock] at hmsg
          cases res with
          | false =>
              have hpart : accepted sent ≠ segment.content := by
                intro heq
                cases hsends.complete.mpr heq
              exact ⟨sent, .inr ⟨[], segment, segments, rfl,
                hstop sent hmsg hsends.isPrefix hpart⟩⟩
          | true =>
              have hwhole : accepted sent = segment.content := hsends.complete.mp rfl
              obtain ⟨new, ⟨hloop, hall⟩ | ⟨done, failed, rest, rfl, hstops⟩⟩ :=
                ih ⟨hrest, hsegments.valid⟩ (i + 1) (calls ++ sent)
              · refine ⟨sent ++ new, .inl ⟨?_, ?_⟩⟩
                · rw [writeSegments_cons_true segments hmsg, hloop, List.append_assoc]
                · rw [accepted_append, hwhole, hall, List.flatMap_cons]
              · refine ⟨sent ++ new, .inr ⟨segment :: done, failed, rest, rfl, ?_, ?_⟩⟩
                · obtain ⟨part, hfront, hpart, hsent⟩ := hstops.part
                  refine ⟨part, hfront, hpart, ?_⟩
                  rw [accepted_append, hwhole, hsent, List.flatMap_cons, List.append_assoc]
                · intro rest'
                  rw [List.cons_append, writeSegments_cons_true _ hmsg, hstops.rest,
                    List.append_assoc]

/-- The segments from `failed` on are not sent whole. -/
theorem Stops.unfinished {i : Nat} {done : List CRawMessage} {failed : CRawMessage}
    (h : Stops write turns uSockfd i calls new done failed) (rest : List CRawMessage) :
    accepted new <+: (done ++ failed :: rest).flatMap CRawMessage.content ∧
      accepted new ≠ (done ++ failed :: rest).flatMap CRawMessage.content := by
  obtain ⟨part, hfront, hpart, hsent⟩ := h.part
  rw [hsent, List.flatMap_append, List.flatMap_cons]
  constructor
  · apply (List.prefix_append_right_inj _).mpr
    exact hfront.trans (List.prefix_append _ _)
  · intro heq
    have hlen := congrArg List.length (List.append_cancel_left heq)
    rw [List.length_append] at hlen
    exact hpart (hfront.eq_of_length_le (by omega))

/-- The results of the `write_msg` calls that the loop over the segments makes. -/
def segmentEnds (write : Nat → Nat → Int) (turns : Nat)
    (uSockfd : Nat → Except StdException Int) : (i : Nat) → List CRawMessage →
    List SocketWrite → List Bool
  | _, [], _ => []
  | i, segment :: segments, calls =>
      match writeMsg write turns (uSockfd i) segment calls with
      | .ok (some (true, calls)) =>
          true :: segmentEnds write turns uSockfd (i + 1) segments calls
      | _ => [false]

/-- The loop of `write_payload` that is told these results ends as the loop that makes the
calls. -/
theorem writeSegments_ends {ends : List Bool} {segments : List CRawMessage} {i : Nat}
    {calls sent : List SocketWrite}
    (hends : ends.drop i = segmentEnds write turns uSockfd i segments calls)
    (hloop : writeSegments write turns uSockfd i segments calls = .ok (some (res, sent))) :
    CHProtoBaseLan.writeSegments (fun j => .ok (ends.getD j false)) i segments =
      if res then .ok () else throwThat .logicError := by
  induction segments generalizing i calls with
  | nil =>
      cases hloop
      rfl
  | cons segment segments ih =>
      have hget : ends.getD i false = (ends.drop i).headD false := by
        rw [List.headD_eq_head?_getD, List.head?_drop, List.getD_eq_getElem?_getD]
      rw [segmentEnds] at hends
      cases hmsg : writeMsg write turns (uSockfd i) segment calls with
      | error f =>
          rw [writeSegments, hmsg] at hloop
          cases hloop
      | ok result =>
          rw [hmsg] at hends
          cases result with
          | none =>
              rw [writeSegments, hmsg] at hloop
              cases hloop
          | some written =>
              obtain ⟨taken, calls'⟩ := written
              cases taken with
              | false =>
                  rw [writeSegments_cons_false segments hmsg] at hloop
                  cases hloop
                  rw [hends] at hget
                  rw [CHProtoBaseLan.writeSegments, hget]
                  rfl
              | true =>
                  rw [writeSegments_cons_true segments hmsg] at hloop
                  rw [hends] at hget
                  rw [CHProtoBaseLan.writeSegments, hget]
                  apply ih _ hloop
                  rw [← List.tail_drop, hends]
                  rfl

/-- `write_payload` returns what the loop over its segments ends with. -/
theorem writePayload_ends {Head : Type} (config : CConfigProtocols Head)
    {payload : CPayload Head} {context : SendContext}
    {elements : List (Protocol Head)} {segments : List CRawMessage}
    (hpack : CHProtoBaseLan.encapsulation payload context = .ok (elements, segments))
    (hloop : writeSegments write turns uSockfd 0 segments [] = .ok (some (res, calls))) :
    ∃ config' elements', CHProtoBaseLan.writePayload config payload context
        (fun i => .ok ((segmentEnds write turns uSockfd 0 segments []).getD i false)) =
      .ok (res, config', elements') := by
  have hends := writeSegments_ends (List.drop_zero) hloop
  rw [CHProtoBaseLan.writePayload, hpack]
  dsimp only
  rw [hends]
  cases res with
  | false => exact ⟨_, _, rfl⟩
  | true =>
      simp only [if_true]
      split
      · exact ⟨_, _, rfl⟩
      · exact ⟨_, _, rfl⟩

/-- The TCP write loop delivers exactly the message. What `write_msg` and `write_payload` hand to
`write` is taken in order without gap or repetition, and their results say whether all of it has
been taken. -/
theorem write_delivers {write : Nat → Nat → Int} (hwrite : TakesSome write) :
    (∀ (msg : CRawMessage) b, msg.Holds b → b ≠ [] → ∀ uSockfd : Int, 0 < uSockfd →
      ∀ turns, b.length < turns → ∀ calls, ∃ res new,
        writeMsg write turns (.ok uSockfd) msg calls = .ok (some (res, calls ++ new)) ∧
          Sends b res new) ∧
    (∀ turns uSockfd segments, Sendable turns uSockfd segments → ∃ res calls,
      writeSegments write turns uSockfd 0 segments [] = .ok (some (res, calls)) ∧
        accepted calls <+: segments.flatMap CRawMessage.content ∧
        (res = true ↔ accepted calls = segments.flatMap CRawMessage.content) ∧
        (res = false → ∃ done failed rest, segments = done ++ failed :: rest ∧
          Stops write turns uSockfd 0 [] calls done failed) ∧
        ∀ {Head : Type} (config : CConfigProtocols Head) payload context elements,
          CHProtoBaseLan.encapsulation payload context = .ok (elements, segments) →
          ∃ config' elements', CHProtoBaseLan.writePayload config payload context
              (fun i => .ok ((segmentEnds write turns uSockfd 0 segments []).getD i false)) =
            .ok (res, config', elements')) := by
  constructor
  · intro msg b hmsg hne uSockfd hsock turns hturns calls
    exact writeMsg_sends hwrite hmsg hne hsock hturns calls
  · intro turns uSockfd segments hsegments
    obtain ⟨new, ⟨hloop, hall⟩ | ⟨done, failed, rest, rfl, hstops⟩⟩ :=
      writeSegments_sends hwrite hsegments 0 []
    · rw [List.nil_append] at hloop
      refine ⟨true, new, hloop, hall ▸ List.prefix_refl _, iff_of_true rfl hall, ?_, ?_⟩
      · intro hfalse
        cases hfalse
      · intro Head config payload context elements hpack
        exact writePayload_ends config hpack hloop
    · have hloop := hstops.rest rest
      rw [List.nil_append] at hloop
      obtain ⟨hfront, hne⟩ := hstops.unfinished rest
      refine ⟨false, new, hloop, hfront, iff_of_false Bool.false_ne_true hne,
        fun _ => ⟨done, failed, rest, rfl, hstops⟩, ?_⟩
      intro Head config payload context elements hpack
      exact writePayload_ends config hpack hloop

/-- The first call takes one byte of the first segment; the second call fails. -/
theorem write_delivers_short :
    ∃ res calls, writeSegments (fun i _ => if i = 1 then -1 else 1) 4 (fun _ => .ok 5) 0
        [.ofBytes [1, 2, 3], .ofBytes [4]] [] = .ok (some (res, calls)) ∧
      accepted calls = [1] ∧ res = false ∧
      (res = false → ∃ done failed rest,
        [.ofBytes [1, 2, 3], .ofBytes [4]] = done ++ failed :: rest ∧
        Stops (fun i _ => if i = 1 then -1 else 1) 4 (fun _ => .ok 5) 0 [] calls done failed) := by
  have hwrite : TakesSome fun i _ => if i = 1 then -1 else 1 := by
    intro i count hcount
    by_cases hi : i = 1
    · exact .inl (if_pos hi)
    · right
      simp only [if_neg hi]
      omega
  have hsegments : Sendable 4 (fun _ => .ok 5) [.ofBytes [1, 2, 3], .ofBytes [4]] := by
    refine ⟨?_, ?_⟩
    · intro segment hmem
      simp only [List.mem_cons, List.not_mem_nil, or_false] at hmem
      rcases hmem with rfl | rfl
      · exact ⟨CRawMessage.ofBytes_holds [1, 2, 3], by decide, by decide⟩
      · exact ⟨CRawMessage.ofBytes_holds [4], by decide, by decide⟩
    · intro i fd hfd
      cases hfd
      decide
  obtain ⟨res, calls, hloop, -, -, hstops, -⟩ := (write_delivers hwrite).2 4 _ _ hsegments
  have hrun := hloop
  rw [show writeSegments (fun i _ => if i = 1 then -1 else 1) 4 (fun _ => .ok 5) 0
    [.ofBytes [1, 2, 3], .ofBytes [4]] [] =
    .ok (some (false, [{ asked := [1, 2, 3], result := 1 }, { asked := [2, 3], result := -1 }]))
    from rfl] at hrun
  cases hrun
  exact ⟨_, _, hloop, rfl, rfl, hstops⟩

end TcpWrite

end CommonCommunicator
