import CommonCommunicator.Lib.ByteOrder
import CommonCommunicator.Protocol.Interface

/-!
# CPBigEndian and CPLittleEndian

The two fixed-header codecs put a message id and a payload length of four
bytes each before the payload. On a little-endian host the bit-fields of
`CPBigEndian` place the most significant byte of each number first; apart from
the byte order and the name the two classes are the same code.
-/

namespace CommonCommunicator

open Lib

/-- In which order a codec puts the bytes of a header number on the wire. -/
inductive ByteOrder
  | little
  | big
  deriving DecidableEq, Repr

namespace ByteOrder

def encode : ByteOrder → Nat → Nat → Bytes
  | little => littleEndian
  | big => bigEndian

def value : ByteOrder → Bytes → Nat
  | little => valueLE
  | big => valueBE

@[simp] theorem length_encode (order : ByteOrder) (w n : Nat) :
    (order.encode w n).length = w := by
  cases order <;> simp [encode]

theorem value_encode (order : ByteOrder) (w n : Nat) :
    order.value (order.encode w n) = n % 256 ^ w := by
  cases order with
  | little => exact valueLE_littleEndian w n
  | big => exact valueBE_bigEndian w n

end ByteOrder

/-- `protocol.header` of the fixed-header codecs. -/
structure FixedHeader where
  msgId : UInt32
  length : UInt32
  deriving DecidableEq, Repr

namespace FixedHeader

/-- `sizeof(protocol)`. -/
def size : Nat := 8

/-- `Segment_ByteSize`: the MTU size. -/
def segmentByteSize : Nat := 1500

def encode (order : ByteOrder) (h : FixedHeader) : Bytes :=
  order.encode 4 h.msgId.toNat ++ order.encode 4 h.length.toNat

def decode (order : ByteOrder) (b : Bytes) : FixedHeader :=
  { msgId := UInt32.ofNat (order.value (field b 0 4))
    length := UInt32.ofNat (order.value (field b 4 4)) }

@[simp] theorem length_encode (order : ByteOrder) (h : FixedHeader) :
    (h.encode order).length = size := by
  simp [encode, size]

/-- A header is recovered from the first eight bytes, whatever follows. -/
theorem decode_encode_append (order : ByteOrder) (h : FixedHeader) (rest : Bytes) :
    decode order (h.encode order ++ rest) = h := by
  have hid : field (h.encode order ++ rest) 0 4 = order.encode 4 h.msgId.toNat := by
    rw [encode, List.append_assoc, field_zero_append (by simp)]
  have hlen : field (h.encode order ++ rest) 4 4 = order.encode 4 h.length.toNat := by
    rw [encode, List.append_assoc, field_append_right (by simp), ByteOrder.length_encode,
      Nat.sub_self, field_zero_append (by simp)]
  have hword (n : UInt32) : UInt32.ofNat (n.toNat % 256 ^ 4) = n := by
    have hn : n.toNat < 256 ^ 4 := n.toNat_lt
    rw [Nat.mod_eq_of_lt hn, UInt32.ofNat_toNat]
  simp only [decode, hid, hlen, ByteOrder.value_encode, hword]

/-- The header is read from the first eight bytes only. -/
theorem decode_append {order : ByteOrder} {b : Bytes} (hb : size ≤ b.length) (rest : Bytes) :
    decode order (b ++ rest) = decode order b := by
  rw [size] at hb
  simp only [decode]
  rw [field_append_left (by omega), field_append_left (by omega)]

/-- `lamda_get_length`: the length of the next segment and what is left after it. -/
def getLength (pvd : ProviderType) (msgSize : Nat) : Outcome (Nat × Nat) :=
  if pvd = .transUDP then do
    assertThat (msgSize < segmentByteSize)
    return (msgSize, 0)
  else if segmentByteSize ≤ msgSize then
    return (segmentByteSize, msgSize - segmentByteSize)
  else
    return (msgSize, 0)

def packRawData (order : ByteOrder) (protocol : FixedHeader) (msg : Bytes) (msgSize : Nat) :
    Outcome (FixedHeader × Bytes) := do
  assertThat (0 < msgSize ∧ msgSize < segmentByteSize)
  let protocol := { protocol with length := UInt32.ofNat msgSize }
  let srcBuf ← readBytes msg 0 protocol.length.toNat
  return (protocol, protocol.encode order ++ srcBuf)

/-- The segment loop of `pack`, on the bytes still to be packed. Every round takes at least one
byte of them, so as many rounds as there are bytes are enough. -/
def packLoop (order : ByteOrder) (msg : Bytes) (pvd : ProviderType) :
    (rounds msgSize : Nat) → FixedHeader → Outcome (FixedHeader × List CRawMessage)
  | 0, _, protocol => return (protocol, [])
  | rounds + 1, msgSize, protocol =>
      if msgSize = 0 then
        return (protocol, [])
      else do
        let (msgLength, msgSize) ← getLength pvd msgSize
        -- the message pointer is not moved on between the segments
        let (protocol, rawData) ← packRawData order protocol msg msgLength
        let (_, oneSegment) ← CRawMessage.init.setNewMsg rawData
        let (protocol, segments) ← packLoop order msg pvd rounds msgSize protocol
        return (protocol, oneSegment :: segments)

def pack (order : ByteOrder) (protocol : FixedHeader) (msg : Bytes) (pvd : ProviderType) :
    Outcome (Bool × FixedHeader × List CRawMessage) := do
  let (protocol, segments) ← packLoop order msg pvd msg.length msg.length protocol
  return (true, protocol, segments)

/-- The header of the message; the payload starts behind it. -/
def unpackRawData (order : ByteOrder) (mem : Bytes) (msgSize : Nat) : Outcome FixedHeader := do
  assertThat (size < msgSize)
  let raw ← readBytes mem 0 size
  let protocol := decode order raw
  assertThat (protocol.length.toNat ≤ sizeSub msgSize size)
  return protocol

def unpack (order : ByteOrder) (payload : CRawMessage) (mem : Bytes) (msgSize : Nat) :
    Outcome (Bool × FixedHeader × CRawMessage) := do
  let protocol ← unpackRawData order mem msgSize
  let classifiedData ← readBytes mem size protocol.length.toNat
  let (_, payload) ← payload.setNewMsg classifiedData
  return (true, protocol, payload)

def cleared : FixedHeader := { msgId := 0, length := 0 }

/-- The class of a fixed-header codec. -/
def codec (order : ByteOrder) (name : String) : IProtocolInf FixedHeader where
  name := name
  fresh := cleared
  whoIsOwner _ := []
  getMsgSize _ _ dataSize := dataSize
  pack protocol _ msg pvd _ := pack order protocol msg pvd
  unpack _ payload mem msgSize := unpack order payload mem msgSize
  cleanHeadTail _ := cleared

/-- The bytes of the segment that carries `msg` under message id `msgId`. -/
def frame (order : ByteOrder) (msgId : UInt32) (msg : Bytes) : Bytes :=
  ({ msgId := msgId, length := UInt32.ofNat msg.length } : FixedHeader).encode order ++ msg

@[simp] theorem length_frame (order : ByteOrder) (msgId : UInt32) (msg : Bytes) :
    (frame order msgId msg).length = size + msg.length := by
  simp [frame]

/-- A message that fits one segment is packed into its frame. -/
theorem pack_short (order : ByteOrder) (h : FixedHeader) {msg : Bytes} (pvd : ProviderType)
    (hne : msg ≠ []) (hshort : msg.length < segmentByteSize) :
    ∃ segment, pack order h msg pvd =
        .ok (true, { h with length := UInt32.ofNat msg.length }, [segment]) ∧
      segment.Holds (frame order h.msgId msg) := by
  have hpos : 0 < msg.length := List.length_pos_iff.mpr hne
  have hlen : getLength pvd msg.length = .ok (msg.length, 0) := by
    by_cases hudp : pvd = .transUDP
    · simp [getLength, hudp, hshort]
    · simp [getLength, hudp, hshort]
  have hword : (UInt32.ofNat msg.length).toNat = msg.length := by
    rw [UInt32.toNat_ofNat_of_lt']
    exact hshort.trans (by decide)
  have hread : readBytes msg 0 msg.length = .ok msg := by
    rw [readBytes_of_le (by omega)]
    simp [field]
  have hraw : packRawData order h msg msg.length =
      .ok ({ h with length := UInt32.ofNat msg.length }, frame order h.msgId msg) := by
    simp [packRawData, hpos, hshort, hword, hread, frame]
  obtain ⟨segment, hset, hholds, -⟩ := CRawMessage.setNewMsg_holds
    (CRawMessage.init_holds CRawMessage.defCapSize)
    (show frame order h.msgId msg ≠ [] by simp [frame, hne])
  refine ⟨segment, ?_, hholds⟩
  obtain ⟨k, hk⟩ : ∃ k, msg.length = k + 1 := ⟨msg.length - 1, by omega⟩
  have hrest : ∀ p, packLoop order msg pvd k 0 p = .ok (p, []) := by
    intro p
    cases k <;> simp [packLoop]
  have hloop : packLoop order msg pvd (k + 1) msg.length h =
      .ok ({ h with length := UInt32.ofNat msg.length }, [segment]) := by
    simp [packLoop, hne, hlen, hraw, hset, hrest]
  rw [pack]
  rw [← hk] at hloop
  simp [hloop]

/-- A longer message trips the assertion on the segment size. -/
theorem pack_long (order : ByteOrder) (h : FixedHeader) {msg : Bytes} (pvd : ProviderType)
    (hlong : segmentByteSize ≤ msg.length) : pack order h msg pvd = .error .assertion := by
  have hpos : 0 < msg.length := lt_of_lt_of_le (by decide) hlong
  have hne : msg ≠ [] := List.ne_nil_of_length_pos hpos
  obtain ⟨k, hk⟩ : ∃ k, msg.length = k + 1 := ⟨msg.length - 1, by omega⟩
  have hloop : packLoop order msg pvd (k + 1) msg.length h = .error .assertion := by
    by_cases hudp : pvd = .transUDP
    · simp [packLoop, hne, getLength, hudp, assertThat, Nat.not_lt.mpr hlong]
    · have hraw : packRawData order h msg segmentByteSize = .error .assertion := by
        simp [packRawData, assertThat]
      simp [packLoop, hne, getLength, hudp, hlong, hraw]
  rw [pack]
  rw [← hk] at hloop
  simp [hloop]

/-- What a packed single segment is. -/
theorem pack_single {order : ByteOrder} {h h' : FixedHeader} {msg : Bytes} {pvd : ProviderType}
    {res : Bool} {segment : CRawMessage}
    (hpack : pack order h msg pvd = .ok (res, h', [segment])) :
    msg ≠ [] ∧ msg.length < segmentByteSize ∧ segment.Holds (frame order h.msgId msg) := by
  have hne : msg ≠ [] := by
    rintro rfl
    simp [pack, packLoop] at hpack
  have hshort : msg.length < segmentByteSize := by
    by_contra hlong
    rw [pack_long order h pvd (Nat.le_of_not_lt hlong)] at hpack
    cases hpack
  obtain ⟨segment', hpack', hholds⟩ := pack_short order h pvd hne hshort
  rw [hpack'] at hpack
  obtain ⟨-, -, rfl⟩ : true = res ∧ _ ∧ segment' = segment := by simpa using hpack
  exact ⟨hne, hshort, hholds⟩

/-- The declared payload length of a message. -/
def payloadLength (order : ByteOrder) (mem : Bytes) : Nat := (decode order mem).length.toNat

/-- Which messages `unpack` takes: a non-empty payload that lies behind the header. -/
def Accepts (order : ByteOrder) (mem : Bytes) (msgSize : Nat) : Prop :=
  0 < payloadLength order mem ∧ size + payloadLength order mem ≤ msgSize

instance (order : ByteOrder) (mem : Bytes) (msgSize : Nat) :
    Decidable (Accepts order mem msgSize) :=
  inferInstanceAs (Decidable (_ ∧ _))

private theorem decode_field (order : ByteOrder) (mem : Bytes) :
    decode order (field mem 0 size) = decode order mem := by
  simp only [decode, field, List.drop_zero]
  rw [List.take_take, List.drop_take, List.take_take]
  rfl

private theorem unpackRawData_ok {order : ByteOrder} {mem : Bytes} {msgSize : Nat}
    (hmem : msgSize ≤ mem.length) (hsize : size < msgSize)
    (hle : payloadLength order mem ≤ msgSize - size) :
    unpackRawData order mem msgSize = .ok (decode order mem) := by
  rw [payloadLength] at hle
  simp [unpackRawData, hsize, readBytes_of_le (show 0 + size ≤ mem.length by omega),
    decode_field, sizeSub_of_le hsize.le, hle]

theorem unpack_of_accepts {order : ByteOrder} {payload : CRawMessage} {b mem : Bytes}
    {msgSize : Nat} (hp : payload.Holds b) (hmem : msgSize ≤ mem.length)
    (hacc : Accepts order mem msgSize) :
    ∃ payload', unpack order payload mem msgSize = .ok (true, decode order mem, payload') ∧
      payload'.Holds (field mem size (payloadLength order mem)) := by
  obtain ⟨hpos, hfit⟩ := hacc
  have hraw : unpackRawData order mem msgSize = .ok (decode order mem) :=
    unpackRawData_ok hmem (by omega) (by omega)
  have hin : size + payloadLength order mem ≤ mem.length := by omega
  have hread := readBytes_of_le hin
  have hlen := length_field hin
  obtain ⟨payload', hset, hholds, -⟩ := CRawMessage.setNewMsg_holds hp
    (show field mem size (payloadLength order mem) ≠ [] from
      List.ne_nil_of_length_pos (by omega))
  refine ⟨payload', ?_, hholds⟩
  rw [payloadLength] at hread hset
  simp [unpack, hraw, hread, hset]

/-- Every other message trips an assertion. -/
theorem unpack_of_not_accepts {order : ByteOrder} (payload : CRawMessage) {mem : Bytes}
    {msgSize : Nat} (hmem : msgSize ≤ mem.length) (hacc : ¬Accepts order mem msgSize) :
    unpack order payload mem msgSize = .error .assertion := by
  by_cases hsize : size < msgSize
  · by_cases hle : payloadLength order mem ≤ msgSize - size
    · have hzero : (decode order mem).length.toNat = 0 := by
        rw [Accepts, payloadLength] at hacc
        rw [payloadLength] at hle
        omega
      have hread : readBytes mem size 0 = .ok [] := by
        rw [readBytes_of_le (by omega)]
        simp [field]
      simp [unpack, unpackRawData_ok hmem hsize hle, hzero, hread, CRawMessage.setNewMsg_nil]
    · rw [payloadLength] at hle
      simp [unpack, unpackRawData, hsize, readBytes_of_le (show 0 + size ≤ mem.length by omega),
        decode_field, sizeSub_of_le hsize.le, assertThat, hle]
  · simp [unpack, unpackRawData, assertThat, hsize]

/-- A frame declares the length of its message, whatever follows it. -/
theorem payloadLength_frame (order : ByteOrder) (msgId : UInt32) {msg : Bytes}
    (hshort : msg.length < segmentByteSize) (rest : Bytes) :
    payloadLength order (frame order msgId msg ++ rest) = msg.length := by
  rw [payloadLength, frame, List.append_assoc, decode_encode_append]
  exact UInt32.toNat_ofNat_of_lt' (hshort.trans (by decide))

/-- The message stands behind the header of its frame. -/
theorem field_frame (order : ByteOrder) (msgId : UInt32) (msg rest : Bytes) :
    field (frame order msgId msg ++ rest) size msg.length = msg := by
  rw [frame, List.append_assoc, field_append_right (by simp), length_encode, Nat.sub_self,
    field_zero_append rfl]

/-- A frame is unpacked again, whatever follows it inside the message and in the memory. -/
theorem unpack_frame (order : ByteOrder) (msgId : UInt32) {msg b : Bytes} {payload : CRawMessage}
    (hp : payload.Holds b) (hne : msg ≠ []) (hshort : msg.length < segmentByteSize)
    (t behind : Bytes) :
    ∃ payload', unpack order payload (frame order msgId msg ++ (t ++ behind))
          (frame order msgId msg ++ t).length =
        .ok (true, { msgId := msgId, length := UInt32.ofNat msg.length }, payload') ∧
      payload'.Holds msg := by
  have hdecode : decode order (frame order msgId msg ++ (t ++ behind)) =
      { msgId := msgId, length := UInt32.ofNat msg.length } := by
    rw [frame, List.append_assoc, decode_encode_append]
  have hlength := payloadLength_frame order msgId hshort (t ++ behind)
  have hmem : (frame order msgId msg ++ t).length ≤
      (frame order msgId msg ++ (t ++ behind)).length := by
    simp only [List.length_append]
    omega
  have hacc : Accepts order (frame order msgId msg ++ (t ++ behind))
      (frame order msgId msg ++ t).length := by
    rw [Accepts, hlength, List.length_append, length_frame]
    exact ⟨List.length_pos_iff.mpr hne, by omega⟩
  obtain ⟨payload', hunpack, hholds⟩ := unpack_of_accepts hp hmem hacc
  rw [hdecode] at hunpack
  rw [hlength, field_frame] at hholds
  exact ⟨payload', hunpack, hholds⟩

end FixedHeader

end CommonCommunicator
