import CommonCommunicator.Protocol.FixedHeader

/-!
# The header union of CPBigEndian

`CPBigEndian` never computes a byte order: its header is a union of two 32-bit
numbers with eight named bytes, and `MAKE_RAW_DATA` and `MAKE_PROTOCOL` move the
bytes to and from the wire by their names. On a little-endian host the names
are such that each number goes out with its most significant byte first. The
two codecs therefore differ in nothing but the order of the bytes inside each
number, and both give back what they have packed.
-/

namespace CommonCommunicator

open Lib

/-- `CPBigEndian::UProtocol`: the bytes of the union in the order of the memory, under the names
of the bit-fields. -/
structure BigEndianUnion where
  raw3 : UInt8
  raw2 : UInt8
  raw1 : UInt8
  raw0 : UInt8
  raw7 : UInt8
  raw6 : UInt8
  raw5 : UInt8
  raw4 : UInt8
  deriving DecidableEq, Repr

namespace BigEndianUnion

/-- The eight bytes that the union occupies. -/
def memory (u : BigEndianUnion) : Bytes :=
  [u.raw3, u.raw2, u.raw1, u.raw0, u.raw7, u.raw6, u.raw5, u.raw4]

/-- The union whose memory is given. -/
def ofMemory (b : Bytes) : BigEndianUnion :=
  { raw3 := b.getD 0 0, raw2 := b.getD 1 0, raw1 := b.getD 2 0, raw0 := b.getD 3 0,
    raw7 := b.getD 4 0, raw6 := b.getD 5 0, raw5 := b.getD 6 0, raw4 := b.getD 7 0 }

/-- The member `header`, as a little-endian host reads it. -/
def header (u : BigEndianUnion) : FixedHeader := FixedHeader.decode .little u.memory

/-- The union after its member `header` has been written. -/
def ofHeader (h : FixedHeader) : BigEndianUnion := ofMemory (h.encode .little)

/-- `MAKE_RAW_DATA` for the places 0 to 7. -/
def makeRawData (u : BigEndianUnion) : Bytes :=
  [u.raw0, u.raw1, u.raw2, u.raw3, u.raw4, u.raw5, u.raw6, u.raw7]

/-- `MAKE_PROTOCOL` for the places 0 to 7. -/
def makeProtocol (raw : Bytes) : BigEndianUnion :=
  { raw0 := raw.getD 0 0, raw1 := raw.getD 1 0, raw2 := raw.getD 2 0, raw3 := raw.getD 3 0,
    raw4 := raw.getD 4 0, raw5 := raw.getD 5 0, raw6 := raw.getD 6 0, raw7 := raw.getD 7 0 }

/-- `CPBigEndian::pack_raw_data`. -/
def packRawData (protocol : BigEndianUnion) (msg : Bytes) (msgSize : Nat) :
    Outcome (BigEndianUnion × Bytes) := do
  assertThat (0 < msgSize ∧ msgSize < FixedHeader.segmentByteSize)
  let protocol := ofHeader { protocol.header with length := UInt32.ofNat msgSize }
  let srcBuf ← readBytes msg 0 protocol.header.length.toNat
  return (protocol, protocol.makeRawData ++ srcBuf)

/-- `CPBigEndian::unpack_raw_data`. -/
def unpackRawData (mem : Bytes) (msgSize : Nat) : Outcome BigEndianUnion := do
  assertThat (FixedHeader.size < msgSize)
  let raw ← readBytes mem 0 FixedHeader.size
  let protocol := makeProtocol raw
  assertThat (protocol.header.length.toNat ≤ sizeSub msgSize FixedHeader.size)
  return protocol

/-- The segment loop of `CPBigEndian::pack`, on the bytes still to be packed. -/
def packLoop (msg : Bytes) (pvd : ProviderType) :
    (rounds msgSize : Nat) → BigEndianUnion → Outcome (BigEndianUnion × List CRawMessage)
  | 0, _, protocol => return (protocol, [])
  | rounds + 1, msgSize, protocol =>
      if msgSize = 0 then
        return (protocol, [])
      else do
        let (msgLength, msgSize) ← FixedHeader.getLength pvd msgSize
        let (protocol, rawData) ← protocol.packRawData msg msgLength
        let (_, oneSegment) ← CRawMessage.init.setNewMsg rawData
        let (protocol, segments) ← packLoop msg pvd rounds msgSize protocol
        return (protocol, oneSegment :: segments)

/-- `CPBigEndian::pack`. -/
def pack (protocol : BigEndianUnion) (msg : Bytes) (pvd : ProviderType) :
    Outcome (Bool × BigEndianUnion × List CRawMessage) := do
  let (protocol, segments) ← packLoop msg pvd msg.length msg.length protocol
  return (true, protocol, segments)

/-- `CPBigEndian::unpack`. -/
def unpack (payload : CRawMessage) (mem : Bytes) (msgSize : Nat) :
    Outcome (Bool × BigEndianUnion × CRawMessage) := do
  let protocol ← unpackRawData mem msgSize
  let classifiedData ← readBytes mem FixedHeader.size protocol.header.length.toNat
  let (_, payload) ← payload.setNewMsg classifiedData
  return (true, protocol, payload)

/-- The bytes of the two numbers, each in the other order. -/
def swapNumbers (b : Bytes) : Bytes := (b.take 4).reverse ++ ((b.drop 4).take 4).reverse

theorem memory_ofMemory {b : Bytes} (hb : b.length = FixedHeader.size) :
    (ofMemory b).memory = b := by
  match b, hb with
  | [_, _, _, _, _, _, _, _], _ => rfl

theorem memory_ofHeader (h : FixedHeader) : (ofHeader h).memory = h.encode .little :=
  memory_ofMemory (FixedHeader.length_encode .little h)

@[simp] theorem header_ofHeader (h : FixedHeader) : (ofHeader h).header = h := by
  have hdecode := FixedHeader.decode_encode_append .little h []
  rw [List.append_nil] at hdecode
  rw [header, memory_ofHeader, hdecode]

theorem makeRawData_eq (u : BigEndianUnion) : u.makeRawData = swapNumbers u.memory := rfl

theorem memory_makeProtocol {raw : Bytes} (hraw : raw.length = FixedHeader.size) :
    (makeProtocol raw).memory = swapNumbers raw := by
  match raw, hraw with
  | [_, _, _, _, _, _, _, _], _ => rfl

/-- The wire order of one encoding is the other one with the bytes of each number swapped. -/
theorem swapNumbers_encode (h : FixedHeader) :
    swapNumbers (h.encode .little) = h.encode .big := by
  have hid : (h.encode .little).take 4 = littleEndian 4 h.msgId.toNat :=
    List.take_left' (by simp [ByteOrder.encode])
  have hlen : (h.encode .little).drop 4 = littleEndian 4 h.length.toNat :=
    List.drop_left' (by simp [ByteOrder.encode])
  have hall : (littleEndian 4 h.length.toNat).take 4 = littleEndian 4 h.length.toNat :=
    List.take_of_length_le (by simp)
  rw [swapNumbers, hid, hlen, hall]
  rfl

/-- What `MAKE_RAW_DATA` puts on the wire is the big-endian encoding of the header. -/
theorem makeRawData_ofHeader (h : FixedHeader) : (ofHeader h).makeRawData = h.encode .big := by
  rw [makeRawData_eq, memory_ofHeader, swapNumbers_encode]

/-- What `MAKE_PROTOCOL` reads from the wire is the big-endian value of its numbers. -/
theorem header_makeProtocol {raw : Bytes} (hraw : raw.length = FixedHeader.size) :
    (makeProtocol raw).header = FixedHeader.decode .big raw := by
  rw [header, memory_makeProtocol hraw]
  match raw, hraw with
  | [_, _, _, _, _, _, _, _], _ => rfl

/-- `pack_raw_data` on the union is `pack_raw_data` on its header. -/
theorem packRawData_header (u : BigEndianUnion) (msg : Bytes) (msgSize : Nat) :
    (u.packRawData msg msgSize).map (fun r => (r.1.header, r.2)) =
      FixedHeader.packRawData .big u.header msg msgSize := by
  by_cases hsize : 0 < msgSize ∧ msgSize < FixedHeader.segmentByteSize
  · simp only [packRawData, FixedHeader.packRawData, assertThat_pos hsize, ok_bind,
      header_ofHeader, makeRawData_ofHeader]
    cases readBytes msg 0 (UInt32.ofNat msgSize).toNat with
    | error f => rfl
    | ok srcBuf => simp [Except.map]
  · simp [packRawData, FixedHeader.packRawData, assertThat, hsize, Except.map]

/-- `unpack_raw_data` on the union is `unpack_raw_data` on its header. -/
theorem unpackRawData_header (mem : Bytes) (msgSize : Nat) :
    (unpackRawData mem msgSize).map header = FixedHeader.unpackRawData .big mem msgSize := by
  by_cases hsize : FixedHeader.size < msgSize
  · simp only [unpackRawData, FixedHeader.unpackRawData, assertThat_pos hsize, ok_bind]
    by_cases hmem : 0 + FixedHeader.size ≤ mem.length
    · have hheader := header_makeProtocol (length_field hmem)
      simp only [readBytes_of_le hmem, ok_bind, hheader]
      by_cases hfit : (FixedHeader.decode .big (field mem 0 FixedHeader.size)).length.toNat ≤
          sizeSub msgSize FixedHeader.size
      · simp [assertThat_pos hfit, Except.map, hheader]
      · simp [assertThat, hfit, Except.map]
    · simp only [readBytes, definedIf, if_neg hmem, error_bind]
      rfl
  · simp [unpackRawData, FixedHeader.unpackRawData, assertThat, hsize, Except.map]

/-- The loop on the union is the loop on its header. -/
theorem packLoop_header (msg : Bytes) (pvd : ProviderType) (rounds msgSize : Nat)
    (u : BigEndianUnion) :
    (packLoop msg pvd rounds msgSize u).map (fun r => (r.1.header, r.2)) =
      FixedHeader.packLoop .big msg pvd rounds msgSize u.header := by
  induction rounds generalizing msgSize u with
  | zero => rfl
  | succ rounds ih =>
      by_cases hsize : msgSize = 0
      · simp [packLoop, FixedHeader.packLoop, hsize, Except.map]
      · simp only [packLoop, FixedHeader.packLoop, if_neg hsize]
        cases FixedHeader.getLength pvd msgSize with
        | error f => rfl
        | ok taken =>
            obtain ⟨msgLength, left⟩ := taken
            have hraw := packRawData_header u msg msgLength
            simp only [ok_bind, ← hraw]
            cases u.packRawData msg msgLength with
            | error f => rfl
            | ok packed =>
                obtain ⟨u', rawData⟩ := packed
                simp only [Except.map, ok_bind]
                cases CRawMessage.init.setNewMsg rawData with
                | error f => rfl
                | ok stored =>
                    have hrest := ih left u'
                    simp only [ok_bind, ← hrest]
                    cases packLoop msg pvd rounds left u' with
                    | error f => rfl
                    | ok rest => rfl

/-- `pack` on the union is `pack` on its header. -/
theorem pack_header (u : BigEndianUnion) (msg : Bytes) (pvd : ProviderType) :
    (u.pack msg pvd).map (fun r => (r.1, r.2.1.header, r.2.2)) =
      FixedHeader.pack .big u.header msg pvd := by
  rw [pack, FixedHeader.pack, ← packLoop_header]
  cases packLoop msg pvd msg.length msg.length u with
  | error f => rfl
  | ok packed => rfl

/-- `unpack` into the union is `unpack` into its header. -/
theorem unpack_header (payload : CRawMessage) (mem : Bytes) (msgSize : Nat) :
    (unpack payload mem msgSize).map (fun r => (r.1, r.2.1.header, r.2.2)) =
      FixedHeader.unpack .big payload mem msgSize := by
  rw [unpack, FixedHeader.unpack, ← unpackRawData_header]
  cases unpackRawData mem msgSize with
  | error f => rfl
  | ok protocol =>
      simp only [Except.map, ok_bind]
      cases readBytes mem FixedHeader.size protocol.header.length.toNat with
      | error f => rfl
      | ok classifiedData =>
          simp only [ok_bind]
          cases payload.setNewMsg classifiedData with
          | error f => rfl
          | ok stored => rfl

end BigEndianUnion

namespace FixedHeader

/-- The big-endian frame is the little-endian one with the bytes of both numbers swapped. -/
theorem frame_big (msgId : UInt32) (msg : Bytes) :
    frame .big msgId msg = BigEndianUnion.swapNumbers ((frame .little msgId msg).take size) ++
      (frame .little msgId msg).drop size := by
  rw [frame, frame, List.take_left' (length_encode ..), List.drop_left' (length_encode ..),
    BigEndianUnion.swapNumbers_encode]

/-- A codec packs a short payload into one segment, the frame, and unpacks it again whatever
follows. -/
theorem pack_unpack_frame (order : ByteOrder) (protocol : FixedHeader) {msg : Bytes}
    (hne : msg ≠ []) (hshort : msg.length < segmentByteSize) (pvd : ProviderType) (t : Bytes) :
    ∃ protocol' segment received payload,
      pack order protocol msg pvd = .ok (true, protocol', [segment]) ∧
      segment.content = frame order protocol.msgId msg ∧
      unpack order CRawMessage.init (segment.content ++ t) (segment.content ++ t).length =
        .ok (true, received, payload) ∧
      received.msgId = protocol.msgId ∧ received.length.toNat = msg.length ∧
      payload.content = msg := by
  obtain ⟨segment, hpack, hholds⟩ := pack_short order protocol pvd hne hshort
  obtain ⟨payload, hunpack, hpayload⟩ := unpack_frame order protocol.msgId
    (CRawMessage.init_holds CRawMessage.defCapSize) hne hshort t []
  rw [List.append_nil, ← hholds.content_eq] at hunpack
  refine ⟨_, segment, _, payload, hpack, hholds.content_eq, hunpack, rfl, ?_,
    hpayload.content_eq⟩
  exact UInt32.toNat_ofNat_of_lt' (hshort.trans (by decide))

/-- The big-endian codec with its union, and the little-endian one: each packs a short payload
into one segment and unpacks it again whatever follows, and the two segments differ in the order
of the bytes inside the header numbers only. -/
theorem roundTrip_both_orders (u : BigEndianUnion) {msg : Bytes} (hne : msg ≠ [])
    (hshort : msg.length < segmentByteSize) (pvd : ProviderType) (t : Bytes) :
    ∃ u' protocol' big little,
      u.pack msg pvd = .ok (true, u', [big]) ∧
      pack .little u.header msg pvd = .ok (true, protocol', [little]) ∧
      (∃ received payload, BigEndianUnion.unpack CRawMessage.init (big.content ++ t)
          (big.content ++ t).length = .ok (true, received, payload) ∧
        received.header.msgId = u.header.msgId ∧ received.header.length.toNat = msg.length ∧
        payload.content = msg) ∧
      (∃ received payload, unpack .little CRawMessage.init (little.content ++ t)
          (little.content ++ t).length = .ok (true, received, payload) ∧
        received.msgId = u.header.msgId ∧ received.length.toNat = msg.length ∧
        payload.content = msg) ∧
      big.content = BigEndianUnion.swapNumbers (little.content.take size) ++
        little.content.drop size := by
  obtain ⟨bigHeader, big, bigReceived, bigPayload, hbigPack, hbigFrame, hbigUnpack, hbig⟩ :=
    pack_unpack_frame .big u.header hne hshort pvd t
  obtain ⟨protocol', little, received, payload, hlittlePack, hlittleFrame, hlittleUnpack,
    hlittle⟩ := pack_unpack_frame .little u.header hne hshort pvd t
  have hunionPack := (u.pack_header msg pvd).trans hbigPack
  have hunionUnpack := (BigEndianUnion.unpack_header CRawMessage.init (big.content ++ t)
    (big.content ++ t).length).trans hbigUnpack
  obtain ⟨⟨res, u', segments⟩, hpack, hsame⟩ := map_eq_ok.mp hunionPack
  obtain ⟨⟨res', unionReceived, payload'⟩, hunpack, hsame'⟩ := map_eq_ok.mp hunionUnpack
  cases hsame
  cases hsame'
  refine ⟨u', protocol', big, little, hpack, hlittlePack, ⟨unionReceived, _, hunpack, hbig⟩,
    ⟨received, payload, hlittleUnpack, hlittle⟩, ?_⟩
  rw [hbigFrame, hlittleFrame]
  exact frame_big u.header.msgId msg

theorem roundTrip_both_orders_one_byte :
    ∃ u' protocol' big little,
      (BigEndianUnion.ofHeader { msgId := 1, length := 0 }).pack [0x41] .transUDP =
        .ok (true, u', [big]) ∧
      pack .little { msgId := 1, length := 0 } [0x41] .transUDP =
        .ok (true, protocol', [little]) ∧
      (∃ received payload, BigEndianUnion.unpack CRawMessage.init (big.content ++ [0x42])
          (big.content ++ [0x42]).length = .ok (true, received, payload) ∧
        received.header.msgId = 1 ∧ received.header.length.toNat = 1 ∧
        payload.content = [0x41]) ∧
      (∃ received payload, unpack .little CRawMessage.init (little.content ++ [0x42])
          (little.content ++ [0x42]).length = .ok (true, received, payload) ∧
        received.msgId = 1 ∧ received.length.toNat = 1 ∧ payload.content = [0x41]) ∧
      big.content = BigEndianUnion.swapNumbers (little.content.take size) ++
        little.content.drop size := by
  have h := roundTrip_both_orders (BigEndianUnion.ofHeader { msgId := 1, length := 0 })
    (show ([0x41] : Bytes) ≠ [] by decide) (by decide) .transUDP [0x42]
  rw [BigEndianUnion.header_ofHeader] at h
  exact h

end FixedHeader

end CommonCommunicator
