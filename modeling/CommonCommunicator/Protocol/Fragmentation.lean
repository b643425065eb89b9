import CommonCommunicator.Protocol.HeaderUnion

/-!
# Fragmentation of the fixed-header codecs

`pack` has a loop that cuts a payload into segments, and except for UDP it
takes `Segment_ByteSize` bytes at a time. `pack_raw_data` asserts that a segment
is shorter than that, so the loop never gets beyond the first full segment: the
codecs carry the payloads that fit one segment, and no others.
-/

namespace CommonCommunicator

namespace FixedHeader

/-- One codec object unpacks segments one after the other: the message id and the payload that it
holds after each of them. -/
def unpackSegments (order : ByteOrder) :
    (payload : CRawMessage) → List CRawMessage → Outcome (List (UInt32 × Bytes))
  | _, [] => return []
  | payload, segment :: segments => do
      let (res, protocol, payload) ←
        unpack order payload (segment.getMsgReadOnly.getD []) segment.msgSize
      assertThat (res = true)
      let received ← unpackSegments order payload segments
      return (protocol.msgId, payload.content) :: received

/-- `pack` returns, and its segments give the message back piece by piece under its id. -/
def Lossless (order : ByteOrder) (protocol : FixedHeader) (pvd : ProviderType) (msg : Bytes) :
    Prop :=
  ∃ protocol' segments received,
    pack order protocol msg pvd = .ok (true, protocol', segments) ∧
      unpackSegments order CRawMessage.init segments = .ok received ∧
      (∀ piece ∈ received, piece.1 = protocol.msgId) ∧
      (received.map Prod.snd).flatten = msg

/-- A segment that holds a frame is unpacked into its message. -/
theorem unpackSegments_frame {order : ByteOrder} {msgId : UInt32} {msg : Bytes}
    {segment : CRawMessage} (hne : msg ≠ []) (hshort : msg.length < segmentByteSize)
    (hholds : segment.Holds (frame order msgId msg)) :
    unpackSegments order CRawMessage.init [segment] = .ok [(msgId, msg)] := by
  have hframe : frame order msgId msg ≠ [] :=
    List.ne_nil_of_length_pos (by rw [length_frame, size]; omega)
  obtain ⟨payload, hunpack, hpayload⟩ := unpack_frame order msgId
    (CRawMessage.init_holds CRawMessage.defCapSize) hne hshort [] [0]
  rw [List.nil_append, List.append_nil, length_frame] at hunpack
  simp [unpackSegments, hholds.getMsgReadOnly_eq hframe, hholds.size, hunpack,
    hpayload.content_eq]

/-- The codecs are lossless for exactly the messages that are shorter than a full segment, for
every type of provider. -/
theorem lossless_iff (order : ByteOrder) (protocol : FixedHeader) (pvd : ProviderType)
    (msg : Bytes) : Lossless order protocol pvd msg ↔ msg.length < segmentByteSize := by
  constructor
  · rintro ⟨protocol', segments, received, hpack, -, -, -⟩
    by_contra hlong
    rw [pack_long order protocol pvd (Nat.le_of_not_lt hlong)] at hpack
    cases hpack
  · intro hshort
    by_cases hne : msg = []
    · subst hne
      exact ⟨protocol, [], [], rfl, rfl, by simp, rfl⟩
    · obtain ⟨segment, hpack, hholds⟩ := pack_short order protocol pvd hne hshort
      exact ⟨_, [segment], _, hpack, unpackSegments_frame hne hshort hholds, by simp, by simp⟩

/-- A TCP message of one full segment is lost: `pack` trips its assertion. -/
theorem fullSegment_not_lossless :
    ¬Lossless .big { msgId := 7, length := 0 } .transTCP (List.replicate 1500 0x41) := by
  rintro ⟨protocol', segments, received, hpack, -, -, -⟩
  rw [pack_long .big _ .transTCP (by rw [List.length_replicate, segmentByteSize])] at hpack
  cases hpack

end FixedHeader

end CommonCommunicator
