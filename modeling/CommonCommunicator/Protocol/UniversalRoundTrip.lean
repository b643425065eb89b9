import CommonCommunicator.Protocol.UniversalCmd

/-!
# Round trip of the command codec

The encoder places the path and the payload by its own members, the decoder by
the header size that it reads from the wire. For every command that the fields
can express the two agree: a frame is well formed, and what stands behind it in
the received message makes no difference.
-/

namespace CommonCommunicator

open Lib

namespace UniversalCmd

/-- A command codec whose three mandatory fields have been set. -/
def prepared (flag state msgId : Nat) : UniversalCmd :=
  ((cleared.setFlag (UInt8.ofNat flag)).setState (UInt32.ofNat state)).setMsgId (UInt32.ofNat msgId)

section Frame

variable {cmd : UniversalCmd} {now : UInt64} {msg path : Bytes}

theorem decode_frame (cmd : UniversalCmd) (now : UInt64) (msg path t : Bytes) :
    UniversalHeader.decode (cmd.frame now msg path ++ t) =
      cmd.frameHeader now msg.length path := by
  rw [frame, List.append_assoc, List.append_assoc, UniversalHeader.decode_encode_append]

theorem headerSize_frame (h : Packable cmd msg path) (t : Bytes) :
    headerSize (cmd.frame now msg path ++ t) = UniversalHeader.size + (path.length + 1) := by
  rw [headerSize, decode_frame, frameHeader_hsize h]

theorem payloadSize_frame (h : Packable cmd msg path) (t : Bytes) :
    payloadSize (cmd.frame now msg path ++ t) = msg.length := by
  rw [payloadSize, decode_frame, frameHeader_payloadSize h now]

theorem hasFrom_frame (cmd : UniversalCmd) (now : UInt64) (msg path t : Bytes) :
    hasFrom (cmd.frame now msg path ++ t) := by
  rw [hasFrom, decode_frame]
  exact (by decide : (1 : UInt8) ≠ 0)

/-- Between the header and the payload stand the path and its NUL byte. -/
theorem pathField_frame (cmd : UniversalCmd) (now : UInt64) (msg path t : Bytes) :
    field (cmd.frame now msg path ++ t) UniversalHeader.size (path.length + 1) = path ++ [0] := by
  rw [frame, List.append_assoc, List.append_assoc, field_append_right (by simp),
    UniversalHeader.length_encode, Nat.sub_self, field_zero_append (by simp)]

theorem payloadField_frame (cmd : UniversalCmd) (now : UInt64) (msg path t : Bytes) :
    field (cmd.frame now msg path ++ t) (UniversalHeader.size + (path.length + 1)) msg.length =
      msg := by
  rw [frame, List.append_assoc, field_append_right (by simp), List.length_append,
    UniversalHeader.length_encode, List.length_append, List.length_singleton, Nat.sub_self,
    field_zero_append rfl]

theorem wellFormed_frame (h : Packable cmd msg path) (t : Bytes) :
    WellFormed (cmd.frame now msg path ++ t) := by
  have hlen : UniversalHeader.size + (path.length + 1) + msg.length ≤
      (cmd.frame now msg path ++ t).length := by
    rw [List.length_append, length_frame]
    omega
  constructor
  · omega
  · rw [headerSize_frame h]
    omega
  · rw [headerSize_frame h, payloadSize_frame h]
    exact hlen
  · intro _
    rw [headerSize_frame h, Nat.add_sub_cancel_left, pathField_frame]
    simp

theorem owner_frame (h : Packable cmd msg path) (hnul : 0 ∉ path) (t : Bytes) :
    owner (cmd.frame now msg path ++ t) = path := by
  have hfree : ∀ c ∈ path, (c != 0) = true := by
    intro c hc
    have hne : c ≠ 0 := fun hzero => hnul (hzero ▸ hc)
    simpa using hne
  rw [owner, headerSize_frame h, Nat.add_sub_cancel_left, pathField_frame,
    List.takeWhile_append_of_pos hfree]
  simp

/-- A frame is unpacked again, whatever follows it inside the message and in the memory. -/
theorem unpack_frame (h : Packable cmd msg path) (hnul : 0 ∉ path) (t behind : Bytes) :
    ∃ receiver payload,
      cleared.unpack CRawMessage.init (cmd.frame now msg path ++ t ++ behind)
          (cmd.frame now msg path ++ t).length = .ok (true, receiver, payload) ∧
        receiver.header = cmd.frameHeader now msg.length path ∧ receiver.mFrom = path ∧
        payload.content = msg ∧ (msg = [] → payload = CRawMessage.init) := by
  have hlong : UniversalHeader.size < (cmd.frame now msg path ++ t).length := by
    rw [List.length_append, length_frame]
    omega
  obtain ⟨receiver, payload, hunpack, hheader, hfrom, hholds, hsame⟩ :=
    unpack_of_wellFormed cleared (CRawMessage.init_holds CRawMessage.defCapSize)
      (wellFormed_frame h t) hlong behind
  rw [decode_frame] at hheader
  rw [if_pos (hasFrom_frame cmd now msg path t), owner_frame h hnul] at hfrom
  rw [payloadSize_frame h, headerSize_frame h, payloadField_frame] at hholds
  rw [payloadSize_frame h] at hsame
  refine ⟨receiver, payload, hunpack, hheader, hfrom, ?_, ?_⟩
  · by_cases hne : msg = []
    · subst hne
      rw [hsame rfl, CRawMessage.init_content]
    · exact (hholds (List.length_pos_iff.mpr hne)).content_eq
  · rintro rfl
    exact hsame rfl

end Frame

section Prepared

variable {flag state msgId : Nat}

theorem prepared_flag (h : flag ≤ 255) (state msgId : Nat) :
    (prepared flag state msgId).header.flag.toNat = flag :=
  UInt8.toNat_ofNat_of_lt' (Nat.lt_succ_of_le h)

theorem prepared_state (h : state ≤ 65535) (flag msgId : Nat) :
    (prepared flag state msgId).header.state.toNat = state := by
  have hword : (UInt32.ofNat state).toNat = state :=
    UInt32.toNat_ofNat_of_lt' (show state < 2 ^ 32 by omega)
  have hfield : (prepared flag state msgId).header.state =
      UInt16.ofNat (UInt32.ofNat state).toNat := rfl
  rw [hfield, hword]
  exact UInt16.toNat_ofNat_of_lt' (Nat.lt_succ_of_le h)

theorem prepared_msgId (h : msgId < 2 ^ 32) (flag state : Nat) :
    (prepared flag state msgId).header.msgId.toNat = msgId := UInt32.toNat_ofNat_of_lt' h

/-- What a prepared codec needs for a path and a payload that the wire fields can express. -/
theorem packable_prepared (hflag : 1 ≤ flag ∧ flag ≤ 255) (hstate : 1 ≤ state ∧ state ≤ 65535)
    (hmsgId : 1 ≤ msgId ∧ msgId < 2 ^ 32) {path msg : Bytes} (hnamed : path ≠ [])
    (hpath : path.length ≤ 65510) (hmsg : msg.length < 2 ^ 32) :
    Packable (prepared flag state msgId) msg path := by
  refine ⟨?_, ?_, ?_, hnamed, hpath, hmsg⟩
  · intro hzero
    apply Nat.one_le_iff_ne_zero.mp hflag.1
    rw [← prepared_flag hflag.2 state msgId, hzero]
    rfl
  · intro hzero
    apply Nat.one_le_iff_ne_zero.mp hstate.1
    rw [← prepared_state hstate.2 flag msgId, hzero]
    rfl
  · intro hzero
    apply Nat.one_le_iff_ne_zero.mp hmsgId.1
    rw [← prepared_msgId hmsgId.2 flag state, hzero]
    rfl

end Prepared

/-- Every command comes back: flag, state, message id, time, sender's path and payload, whatever
follows the frame in the received message. -/
theorem roundTrip {flag state msgId : Nat} (hflag : 1 ≤ flag ∧ flag ≤ 255)
    (hstate : 1 ≤ state ∧ state ≤ 65535) (hmsgId : 1 ≤ msgId ∧ msgId < 2 ^ 32) {path : Bytes}
    (hnamed : path ≠ []) (hnul : 0 ∉ path) (hpath : path.length ≤ 65510) {msg : Bytes}
    (hmsg : msg.length < 2 ^ 32) (now : UInt64) (t : Bytes) :
    ∃ sender segment receiver payload,
      (prepared flag state msgId).pack now msg path = .ok (true, sender, [segment]) ∧
      cleared.unpack CRawMessage.init (segment.content ++ t) (segment.content ++ t).length =
        .ok (true, receiver, payload) ∧
      receiver.header.flag.toNat = flag ∧ receiver.header.state.toNat = state ∧
      receiver.header.msgId.toNat = msgId ∧ receiver.header.when_ = now ∧
      receiver.mFrom = path ∧ payload.content = msg ∧
      (msg = [] → payload = CRawMessage.init) := by
  have hpackable := packable_prepared hflag hstate hmsgId hnamed hpath hmsg
  obtain ⟨segment, hpack, hholds⟩ := pack_of_packable hpackable now
  obtain ⟨receiver, payload, hunpack, hheader, hfrom, hcontent, hempty⟩ :=
    @unpack_frame _ now msg path hpackable hnul t []
  rw [List.append_nil] at hunpack
  rw [← hholds.content_eq] at hunpack
  refine ⟨_, segment, receiver, payload, hpack, hunpack, ?_, ?_, ?_, ?_, hfrom, hcontent, hempty⟩
  · rw [hheader]
    exact prepared_flag hflag.2 state msgId
  · rw [hheader]
    exact prepared_state hstate.2 flag msgId
  · rw [hheader]
    exact prepared_msgId hmsgId.2 flag state
  · rw [hheader]
    rfl

/-- A command without a payload comes back without a message. -/
example :
    (do
      let (_, _, segments) ← (prepared 1 2 3).pack 9 [] [0x61, 0x2F, 0x62]
      let frame := (segments.map CRawMessage.content).flatten ++ [7, 7]
      let (res, receiver, payload) ← cleared.unpack CRawMessage.init frame frame.length
      return (res, receiver.mFrom, payload)) =
        .ok (true, [0x61, 0x2F, 0x62], CRawMessage.init) := rfl

/-- A command with three bytes of payload from `a/b`, with two bytes behind its frame. -/
theorem roundTrip_with_payload :
    ∃ sender segment receiver payload,
      (prepared 1 2 3).pack 9 [0x41, 0, 0x43] [0x61, 0x2F, 0x62] =
        .ok (true, sender, [segment]) ∧
      cleared.unpack CRawMessage.init (segment.content ++ [7, 7])
        (segment.content ++ [7, 7]).length = .ok (true, receiver, payload) ∧
      receiver.header.flag.toNat = 1 ∧ receiver.header.state.toNat = 2 ∧
      receiver.header.msgId.toNat = 3 ∧ receiver.header.when_ = 9 ∧
      receiver.mFrom = [0x61, 0x2F, 0x62] ∧ payload.content = [0x41, 0, 0x43] ∧
      (([0x41, 0, 0x43] : Bytes) = [] → payload = CRawMessage.init) :=
  roundTrip (by decide) (by decide) (by decide) (by decide) (by decide) (by decide) (by decide) 9
    [7, 7]

end UniversalCmd

end CommonCommunicator
