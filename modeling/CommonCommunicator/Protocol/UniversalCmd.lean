import CommonCommunicator.Lib.ByteOrder
import CommonCommunicator.Protocol.Interface

/-!
# CPUniversalCMD

The command codec: a packed header of 24 bytes, then, if the header says so,
the sender's path with a NUL byte, then the payload. The header names its own
size and the payload size; both are read back from the wire by `unpack`.
-/

namespace CommonCommunicator

open Lib

/-- `protocol.header` of the command codec in wire order. `when_` is the bit pattern of the
double that the clock returned. -/
structure UniversalHeader where
  hsize : UInt16
  state : UInt16
  msgId : UInt32
  payloadSize : UInt32
  when_ : UInt64
  flag : UInt8
  reserve : UInt16
  isFrom : UInt8
  deriving DecidableEq, Repr

/-- The members of a command codec: the header and the sender's path. -/
structure UniversalCmd where
  header : UniversalHeader
  mFrom : Bytes
  deriving DecidableEq, Repr

namespace UniversalHeader

/-- `TOTAL_HEADER_SIZE`. -/
def size : Nat := 24

def encode (h : UniversalHeader) : Bytes :=
  layout [(2, h.hsize.toNat), (2, h.state.toNat), (4, h.msgId.toNat), (4, h.payloadSize.toNat),
    (8, h.when_.toNat), (1, h.flag.toNat), (2, h.reserve.toNat), (1, h.isFrom.toNat)]

def decode (b : Bytes) : UniversalHeader :=
  { hsize := UInt16.ofNat (valueLE (field b 0 2))
    state := UInt16.ofNat (valueLE (field b 2 2))
    msgId := UInt32.ofNat (valueLE (field b 4 4))
    payloadSize := UInt32.ofNat (valueLE (field b 8 4))
    when_ := UInt64.ofNat (valueLE (field b 12 8))
    flag := UInt8.ofNat (valueLE (field b 20 1))
    reserve := UInt16.ofNat (valueLE (field b 21 2))
    isFrom := UInt8.ofNat (valueLE (field b 23 1)) }

@[simp] theorem length_encode (h : UniversalHeader) : h.encode.length = size := by
  simp [encode, length_layout, size]

/-- The header is read from the first 24 bytes only. -/
theorem decode_append {b : Bytes} (hb : size ≤ b.length) (rest : Bytes) :
    decode (b ++ rest) = decode b := by
  rw [size] at hb
  simp only [decode]
  rw [field_append_left (by omega), field_append_left (by omega), field_append_left (by omega),
    field_append_left (by omega), field_append_left (by omega), field_append_left (by omega),
    field_append_left (by omega), field_append_left (by omega)]

theorem decode_field (b : Bytes) : decode (field b 0 size) = decode b := by
  rw [field, List.drop_zero]
  simp only [decode]
  rw [field_take (by decide), field_take (by decide), field_take (by decide),
    field_take (by decide), field_take (by decide), field_take (by decide),
    field_take (by decide), field_take (by decide)]

/-- A header is recovered from its encoding, whatever follows. -/
theorem decode_encode_append (h : UniversalHeader) (rest : Bytes) :
    decode (h.encode ++ rest) = h := by
  have hhsize : valueLE (field (h.encode ++ rest) 0 2) = h.hsize.toNat :=
    valueLE_field_layout (i := 0) rfl h.hsize.toNat_lt
  have hstate : valueLE (field (h.encode ++ rest) 2 2) = h.state.toNat :=
    valueLE_field_layout (i := 1) rfl h.state.toNat_lt
  have hmsgId : valueLE (field (h.encode ++ rest) 4 4) = h.msgId.toNat :=
    valueLE_field_layout (i := 2) rfl h.msgId.toNat_lt
  have hpayloadSize : valueLE (field (h.encode ++ rest) 8 4) = h.payloadSize.toNat :=
    valueLE_field_layout (i := 3) rfl h.payloadSize.toNat_lt
  have hwhen : valueLE (field (h.encode ++ rest) 12 8) = h.when_.toNat :=
    valueLE_field_layout (i := 4) rfl h.when_.toNat_lt
  have hflag : valueLE (field (h.encode ++ rest) 20 1) = h.flag.toNat :=
    valueLE_field_layout (i := 5) rfl h.flag.toNat_lt
  have hreserve : valueLE (field (h.encode ++ rest) 21 2) = h.reserve.toNat :=
    valueLE_field_layout (i := 6) rfl h.reserve.toNat_lt
  have hisFrom : valueLE (field (h.encode ++ rest) 23 1) = h.isFrom.toNat :=
    valueLE_field_layout (i := 7) rfl h.isFrom.toNat_lt
  simp only [decode, hhsize, hstate, hmsgId, hpayloadSize, hwhen, hflag, hreserve, hisFrom,
    UInt16.ofNat_toNat, UInt32.ofNat_toNat, UInt64.ofNat_toNat, UInt8.ofNat_toNat]

end UniversalHeader

namespace UniversalCmd

/-- The NUL-terminated string at offset `off`: bytes are read up to the first NUL. -/
def cString (mem : Bytes) (off : Nat) : Outcome Bytes := do
  definedIf (0 ∈ mem.drop off)
  return (mem.drop off).takeWhile (· != 0)

def setFlag (cmd : UniversalCmd) (value : UInt8) : UniversalCmd :=
  { cmd with header := { cmd.header with flag := value } }

/-- The state goes into a 16-bit field. -/
def setState (cmd : UniversalCmd) (value : UInt32) : UniversalCmd :=
  { cmd with header := { cmd.header with state := UInt16.ofNat value.toNat } }

def setMsgId (cmd : UniversalCmd) (value : UInt32) : UniversalCmd :=
  { cmd with header := { cmd.header with msgId := value } }

def setFrom (cmd : UniversalCmd) (value : Bytes) : UniversalCmd :=
  { header := if value ≠ [] then { cmd.header with isFrom := 1 } else cmd.header
    mFrom := value }

def setWhen (cmd : UniversalCmd) (now : UInt64) : UniversalCmd :=
  { cmd with header := { cmd.header with when_ := now } }

def setLength (cmd : UniversalCmd) (value : Nat) : UniversalCmd :=
  { cmd with header := { cmd.header with payloadSize := UInt32.ofNat value } }

/-- The header size goes into a 16-bit field. -/
def setHeaderSize (cmd : UniversalCmd) : UniversalCmd :=
  let hsize := UInt16.ofNat UniversalHeader.size
  { cmd with header := { cmd.header with
      hsize := if cmd.header.isFrom = 1 then hsize + UInt16.ofNat (cmd.mFrom.length + 1)
        else hsize } }

def copyFrom (cmd : UniversalCmd) (rawData : Bytes) : Outcome Bytes :=
  if cmd.header.isFrom ≠ 0 then writeBytes rawData UniversalHeader.size (cmd.mFrom ++ [0])
  else return rawData

def copyPayload (cmd : UniversalCmd) (msg rawData : Bytes) : Outcome Bytes :=
  if 0 < cmd.header.payloadSize.toNat then do
    let srcBuf ← readBytes msg 0 cmd.header.payloadSize.toNat
    writeBytes rawData cmd.header.hsize.toNat srcBuf
  else
    return rawData

/-- The copy function that `pack_raw_data` hands to the segment. -/
def copyHook (cmd : UniversalCmd) (msg : Bytes) : Option Bytes → Outcome (Bool × Option Bytes)
  | none => .error .assertion
  | some rawData => do
      let rawData ← writeBytes rawData 0 cmd.header.encode
      let rawData ← cmd.copyFrom rawData
      let rawData ← cmd.copyPayload msg rawData
      return (true, some rawData)

def packRawData (cmd : UniversalCmd) (msg : Bytes) (segment : CRawMessage) (rawSize : Nat) :
    Outcome (Bool × CRawMessage) := do
  assertThat (msg.length + cmd.header.hsize.toNat ≤ rawSize)
  assertThat (cmd.header.flag ≠ 0)
  assertThat (cmd.header.state ≠ 0)
  assertThat (cmd.header.msgId ≠ 0)
  assertThat (cmd.header.payloadSize.toNat = msg.length)
  segment.setMsgHook (cmd.copyHook msg) rawSize

def pack (cmd : UniversalCmd) (now : UInt64) (msg fromFullPath : Bytes) :
    Outcome (Bool × UniversalCmd × List CRawMessage) := do
  let cmd := cmd.setWhen now
  let cmd := if fromFullPath ≠ [] then cmd.setFrom fromFullPath else cmd
  let cmd := (cmd.setLength msg.length).setHeaderSize
  let rawSize := msg.length + cmd.header.hsize.toNat
  let (res, oneSegment) ← cmd.packRawData msg (CRawMessage.init rawSize) rawSize
  assertThat (res = true)
  return (true, cmd, [oneSegment])

/-- `m_from` after the header has been copied: unchanged when the message carries no path. -/
def parseFrom (cmd : UniversalCmd) (header : UniversalHeader) (mem : Bytes) : Outcome Bytes :=
  if header.isFrom ≠ 0 then cString mem UniversalHeader.size else return cmd.mFrom

/-- Header and sender's path of a message; the payload starts at the header's `hsize`. -/
def unpackRawData (cmd : UniversalCmd) (mem : Bytes) (msgSize : Nat) : Outcome UniversalCmd := do
  assertThat (UniversalHeader.size < msgSize)
  let raw ← readBytes mem 0 UniversalHeader.size
  let header := UniversalHeader.decode raw
  let mFrom ← cmd.parseFrom header mem
  assertThat (header.payloadSize.toNat ≤ sizeSub msgSize header.hsize.toNat)
  return { header := header, mFrom := mFrom }

def unpack (cmd : UniversalCmd) (payload : CRawMessage) (mem : Bytes) (msgSize : Nat) :
    Outcome (Bool × UniversalCmd × CRawMessage) := do
  let cmd ← cmd.unpackRawData mem msgSize
  if 0 < cmd.header.payloadSize.toNat then do
    let classifiedData ← readBytes mem cmd.header.hsize.toNat cmd.header.payloadSize.toNat
    let (_, payload) ← payload.setNewMsg classifiedData
    return (true, cmd, payload)
  else
    return (true, cmd, payload)

def cleared : UniversalCmd :=
  { header := { hsize := 0, state := 0, msgId := 0, payloadSize := 0, when_ := 0, flag := 0,
                reserve := 0, isFrom := 0 }
    mFrom := [] }

/-- The class of the command codec. -/
def codec : IProtocolInf UniversalCmd where
  name := "CPUniversalCMD"
  fresh := cleared
  whoIsOwner cmd := cmd.mFrom
  getMsgSize _ _ dataSize := dataSize
  pack cmd now msg _ fromApp := pack cmd now msg fromApp
  unpack := unpack
  cleanHeadTail _ := cleared

/-- The declared header size of a message. -/
def headerSize (mem : Bytes) : Nat := (UniversalHeader.decode mem).hsize.toNat

/-- The declared payload size of a message. -/
def payloadSize (mem : Bytes) : Nat := (UniversalHeader.decode mem).payloadSize.toNat

/-- Whether the message says that it carries a sender's path. -/
def hasFrom (mem : Bytes) : Prop := (UniversalHeader.decode mem).isFrom ≠ 0

instance (mem : Bytes) : Decidable (hasFrom mem) := inferInstanceAs (Decidable (_ ≠ _))

theorem parseFrom_pos {cmd : UniversalCmd} {s mem : Bytes} (h : hasFrom s) :
    cmd.parseFrom (UniversalHeader.decode s) mem = cString mem UniversalHeader.size := if_pos h

theorem parseFrom_neg {cmd : UniversalCmd} {s mem : Bytes} (h : ¬hasFrom s) :
    cmd.parseFrom (UniversalHeader.decode s) mem = .ok cmd.mFrom := if_neg h

/-- Well-formed frames: a complete header, a payload inside the frame and behind the header, and
a terminated path between the two if there is one. -/
structure WellFormed (s : Bytes) : Prop where
  complete : UniversalHeader.size ≤ s.length
  behind : UniversalHeader.size ≤ headerSize s
  inside : headerSize s + payloadSize s ≤ s.length
  path : hasFrom s →
    0 ∈ field s UniversalHeader.size (headerSize s - UniversalHeader.size)

theorem wellFormed_iff (s : Bytes) : WellFormed s ↔
    UniversalHeader.size ≤ s.length ∧ UniversalHeader.size ≤ headerSize s ∧
      headerSize s + payloadSize s ≤ s.length ∧
      (hasFrom s → 0 ∈ field s UniversalHeader.size (headerSize s - UniversalHeader.size)) :=
  ⟨fun h => ⟨h.complete, h.behind, h.inside, h.path⟩,
    fun ⟨hc, hb, hi, hp⟩ => ⟨hc, hb, hi, hp⟩⟩

instance (s : Bytes) : Decidable (WellFormed s) := decidable_of_iff _ (wellFormed_iff s).symm

/-- The path of a well-formed frame: what stands before the first NUL behind the header. -/
def owner (s : Bytes) : Bytes :=
  (field s UniversalHeader.size (headerSize s - UniversalHeader.size)).takeWhile (· != 0)

/-- `s` carries the payload `p` where its own header says, and is longer than a bare header. -/
def CarriesPayload (s p : Bytes) : Prop :=
  UniversalHeader.size < s.length ∧ payloadSize s = p.length ∧
    headerSize s + p.length ≤ s.length ∧ field s (headerSize s) p.length = p

instance (s p : Bytes) : Decidable (CarriesPayload s p) :=
  inferInstanceAs (Decidable (_ ∧ _ ∧ _ ∧ _))

/-- A returning `unpack` returns true: it has no other way to refuse than to fail. -/
theorem unpack_true {cmd cmd' : UniversalCmd} {payload payload' : CRawMessage} {mem : Bytes}
    {msgSize : Nat} {res : Bool}
    (h : cmd.unpack payload mem msgSize = .ok (res, cmd', payload')) : res = true := by
  obtain ⟨parsed, -, h⟩ := bind_eq_ok.mp h
  by_cases hpos : 0 < parsed.header.payloadSize.toNat
  · rw [if_pos hpos] at h
    obtain ⟨data, -, h⟩ := bind_eq_ok.mp h
    obtain ⟨⟨_, _⟩, -, h⟩ := bind_eq_ok.mp h
    simp only [pure_eq_ok, Except.ok.injEq, Prod.mk.injEq] at h
    exact h.1.symm
  · rw [if_neg hpos] at h
    simp only [pure_eq_ok, Except.ok.injEq, Prod.mk.injEq] at h
    exact h.1.symm

/-- A message of at most a bare header trips the first assertion. -/
theorem unpack_of_short (cmd : UniversalCmd) (payload : CRawMessage) (mem : Bytes)
    {msgSize : Nat} (h : msgSize ≤ UniversalHeader.size) :
    cmd.unpack payload mem msgSize = .error .assertion := by
  simp [unpack, unpackRawData, assertThat, Nat.not_lt.mpr h]

/-- What `unpack_raw_data` established when it returned. -/
theorem unpackRawData_eq_ok {cmd cmd' : UniversalCmd} {mem : Bytes} {msgSize : Nat} :
    cmd.unpackRawData mem msgSize = .ok cmd' ↔
      UniversalHeader.size < msgSize ∧ UniversalHeader.size ≤ mem.length ∧
      cmd'.header = UniversalHeader.decode mem ∧
      cmd.parseFrom (UniversalHeader.decode mem) mem = .ok cmd'.mFrom ∧
      payloadSize mem ≤ sizeSub msgSize (headerSize mem) := by
  simp only [unpackRawData, bind_eq_ok, assertThat_eq_ok, readBytes_eq_ok, pure_eq_ok,
    Except.ok.injEq, Nat.zero_add]
  constructor
  · rintro ⟨_, hsize, _, ⟨hmem, rfl⟩, mFrom, hfrom, _, hfit, rfl⟩
    rw [UniversalHeader.decode_field] at hfrom hfit ⊢
    exact ⟨hsize, hmem, rfl, hfrom, hfit⟩
  · rintro ⟨hsize, hmem, hheader, hfrom, hfit⟩
    refine ⟨(), hsize, _, ⟨hmem, rfl⟩, cmd'.mFrom, ?_, (), ?_, ?_⟩
    · rw [UniversalHeader.decode_field]
      exact hfrom
    · rw [UniversalHeader.decode_field]
      exact hfit
    · rw [UniversalHeader.decode_field, ← hheader]

/-- What an `unpack` that passes its checks stores. -/
theorem unpack_of_checks {cmd : UniversalCmd} {payload : CRawMessage} {b mem path : Bytes}
    {msgSize : Nat} (hp : payload.Holds b) (hsize : UniversalHeader.size < msgSize)
    (hmem : UniversalHeader.size ≤ mem.length)
    (hpath : cmd.parseFrom (UniversalHeader.decode mem) mem = .ok path)
    (hfit : payloadSize mem ≤ sizeSub msgSize (headerSize mem))
    (hread : 0 < payloadSize mem → headerSize mem + payloadSize mem ≤ mem.length) :
    ∃ payload', cmd.unpack payload mem msgSize =
        .ok (true, { header := UniversalHeader.decode mem, mFrom := path }, payload') ∧
      (0 < payloadSize mem → payload'.Holds (field mem (headerSize mem) (payloadSize mem))) ∧
      (payloadSize mem = 0 → payload' = payload) := by
  have hraw : cmd.unpackRawData mem msgSize =
      .ok { header := UniversalHeader.decode mem, mFrom := path } :=
    unpackRawData_eq_ok.mpr ⟨hsize, hmem, rfl, hpath, hfit⟩
  by_cases hpos : 0 < payloadSize mem
  · have hlen := length_field (hread hpos)
    obtain ⟨payload', hset, hholds, -⟩ := CRawMessage.setNewMsg_holds hp
      (List.ne_nil_of_length_pos (hlen ▸ hpos))
    refine ⟨payload', ?_, fun _ => hholds, fun h => absurd h hpos.ne'⟩
    have hdata := readBytes_of_le (hread hpos)
    rw [payloadSize] at hpos hset hdata
    rw [headerSize] at hset hdata
    simp [unpack, hraw, hpos, hdata, hset]
  · refine ⟨payload, ?_, fun h => absurd h hpos, fun _ => rfl⟩
    rw [payloadSize] at hpos
    simp [unpack, hraw, hpos]

/-- The checks of an `unpack` that returned, and what it stored. -/
theorem unpack_eq_ok {cmd cmd' : UniversalCmd} {payload payload' : CRawMessage} {b mem : Bytes}
    {msgSize : Nat} {res : Bool} (hp : payload.Holds b)
    (h : cmd.unpack payload mem msgSize = .ok (res, cmd', payload')) :
    UniversalHeader.size < msgSize ∧ UniversalHeader.size ≤ mem.length ∧
      payloadSize mem ≤ sizeSub msgSize (headerSize mem) ∧
      (0 < payloadSize mem → headerSize mem + payloadSize mem ≤ mem.length ∧
        payload'.Holds (field mem (headerSize mem) (payloadSize mem))) ∧
      (payloadSize mem = 0 → payload' = payload) := by
  obtain ⟨parsed, hraw, h⟩ := bind_eq_ok.mp h
  obtain ⟨hsize, hmem, hheader, hpath, hfit⟩ := unpackRawData_eq_ok.mp hraw
  refine ⟨hsize, hmem, hfit, ?_, ?_⟩
  · intro hpos
    have hread : headerSize mem + payloadSize mem ≤ mem.length := by
      by_contra hlong
      rw [payloadSize] at hpos
      rw [payloadSize, headerSize] at hlong
      simp [hheader, hpos, readBytes, definedIf, hlong] at h
    obtain ⟨stored, hstored, hholds, -⟩ :=
      unpack_of_checks hp hsize hmem hpath hfit (fun _ => hread)
    refine ⟨hread, ?_⟩
    have hwhole : cmd.unpack payload mem msgSize = .ok (res, cmd', payload') :=
      bind_eq_ok.mpr ⟨parsed, hraw, h⟩
    rw [hstored] at hwhole
    obtain ⟨-, -, rfl⟩ : true = res ∧ _ ∧ stored = payload' := by simpa using hwhole
    exact hholds hpos
  · intro hzero
    rw [payloadSize] at hzero
    obtain ⟨-, -, rfl⟩ : true = res ∧ parsed = cmd' ∧ payload = payload' := by
      simpa [hheader, hzero] using h
    rfl

theorem headerSize_append {s : Bytes} (hs : UniversalHeader.size ≤ s.length) (tail : Bytes) :
    headerSize (s ++ tail) = headerSize s := by
  rw [headerSize, UniversalHeader.decode_append hs, headerSize]

theorem payloadSize_append {s : Bytes} (hs : UniversalHeader.size ≤ s.length) (tail : Bytes) :
    payloadSize (s ++ tail) = payloadSize s := by
  rw [payloadSize, UniversalHeader.decode_append hs, payloadSize]

private theorem takeWhile_append_of_mem {a b : Bytes} (h : 0 ∈ a) :
    (a ++ b).takeWhile (· != 0) = a.takeWhile (· != 0) := by
  induction a with
  | nil => cases h
  | cons c a ih =>
      by_cases hc : c = 0
      · simp [hc]
      · have ha : 0 ∈ a := by simpa [Ne.symm hc] using h
        simp [hc, ih ha]

/-- The bytes behind the header begin with the bytes up to the declared header size. -/
private theorem drop_header {s : Bytes} (hwf : WellFormed s) (tail : Bytes) :
    ∃ rest, (s ++ tail).drop UniversalHeader.size =
      field s UniversalHeader.size (headerSize s - UniversalHeader.size) ++ rest := by
  refine ⟨(s.drop UniversalHeader.size).drop (headerSize s - UniversalHeader.size) ++ tail, ?_⟩
  rw [List.drop_append_of_le_length hwf.complete, field, ← List.append_assoc,
    List.take_append_drop]

/-- A well-formed frame that is more than a bare header is taken, whatever follows it. -/
theorem unpack_of_wellFormed (cmd : UniversalCmd) {payload : CRawMessage} {b s : Bytes}
    (hp : payload.Holds b) (hwf : WellFormed s) (hlong : UniversalHeader.size < s.length)
    (tail : Bytes) :
    ∃ cmd' payload', cmd.unpack payload (s ++ tail) s.length = .ok (true, cmd', payload') ∧
      cmd'.header = UniversalHeader.decode s ∧
      cmd'.mFrom = (if hasFrom s then owner s else cmd.mFrom) ∧
      (0 < payloadSize s → payload'.Holds (field s (headerSize s) (payloadSize s))) ∧
      (payloadSize s = 0 → payload' = payload) := by
  have hdecode := UniversalHeader.decode_append hwf.complete tail
  have hhs := headerSize_append hwf.complete tail
  have hps := payloadSize_append hwf.complete tail
  have hmem : s.length ≤ (s ++ tail).length := by simp
  have hfit : payloadSize (s ++ tail) ≤ sizeSub s.length (headerSize (s ++ tail)) := by
    have hin := hwf.inside
    rw [hhs, hps, sizeSub_of_le (by omega)]
    omega
  have hread : 0 < payloadSize (s ++ tail) →
      headerSize (s ++ tail) + payloadSize (s ++ tail) ≤ (s ++ tail).length := by
    intro _
    rw [hhs, hps]
    exact hwf.inside.trans hmem
  have hpath : cmd.parseFrom (UniversalHeader.decode (s ++ tail)) (s ++ tail) =
      .ok (if hasFrom s then owner s else cmd.mFrom) := by
    rw [hdecode]
    by_cases hfrom : hasFrom s
    · obtain ⟨rest, hdrop⟩ := drop_header hwf tail
      have hnul := hwf.path hfrom
      rw [if_pos hfrom, parseFrom_pos hfrom, cString, hdrop,
        definedIf_pos (List.mem_append_left _ hnul), takeWhile_append_of_mem hnul]
      rfl
    · rw [if_neg hfrom, parseFrom_neg hfrom]
  obtain ⟨payload', hunpack, hholds, hsame⟩ := unpack_of_checks hp hlong
    (hwf.complete.trans hmem) hpath hfit hread
  refine ⟨_, payload', hunpack, hdecode, rfl, ?_, ?_⟩
  · intro hpos
    have hfield : field (s ++ tail) (headerSize s) (payloadSize s) =
        field s (headerSize s) (payloadSize s) := field_append_left hwf.inside
    have hstored := hholds (by rw [hps]; exact hpos)
    rwa [hhs, hps, hfield] at hstored
  · intro hzero
    exact hsame (by rw [hps]; exact hzero)

/-- A received message, which has a NUL byte behind it, hands out the non-empty payload `p`
exactly when its own header carries `p`. -/
theorem unpack_received_iff (cmd : UniversalCmd) {payload : CRawMessage} {s p : Bytes}
    (hp : payload.Holds []) (hne : p ≠ []) :
    (∃ cmd' payload', cmd.unpack payload (s ++ [0]) s.length = .ok (true, cmd', payload') ∧
      payload'.content = p) ↔ CarriesPayload s p := by
  constructor
  · rintro ⟨cmd', payload', hunpack, hcontent⟩
    obtain ⟨hsize, -, hfit, hholds, hsame⟩ := unpack_eq_ok hp hunpack
    have hhs := headerSize_append hsize.le [0]
    have hps := payloadSize_append hsize.le [0]
    rw [hhs, hps] at hfit hholds
    rw [hps] at hsame
    have hpos : 0 < payloadSize s := by
      by_contra hzero
      rw [hsame (by omega), hp.content_eq] at hcontent
      exact hne hcontent.symm
    obtain ⟨hread, hstored⟩ := hholds hpos
    have hin : headerSize s + payloadSize s ≤ s.length := by
      rw [List.length_append, List.length_singleton] at hread
      by_cases hle : headerSize s ≤ s.length
      · rw [sizeSub_of_le hle] at hfit
        omega
      · omega
    have hfield := hstored.content_eq.symm.trans hcontent
    rw [field_append_left hin] at hfield
    have hlen : payloadSize s = p.length := by rw [← hfield, length_field hin]
    rw [hlen] at hin hfield
    exact ⟨hsize, hlen, hin, hfield⟩
  · rintro ⟨hsize, hlen, hin, hfield⟩
    have hhs := headerSize_append hsize.le [0]
    have hps := payloadSize_append hsize.le [0]
    have hmem : s.length ≤ (s ++ [0]).length := by simp
    obtain ⟨path, hpath⟩ : ∃ path, cmd.parseFrom (UniversalHeader.decode (s ++ [0])) (s ++ [0]) =
        .ok path := by
      by_cases hfrom : hasFrom (s ++ [0])
      · have hnul : 0 ∈ (s ++ [0]).drop UniversalHeader.size := by
          rw [List.drop_append_of_le_length hsize.le]
          simp
        rw [parseFrom_pos hfrom, cString, definedIf_pos hnul]
        exact ⟨_, rfl⟩
      · exact ⟨_, parseFrom_neg hfrom⟩
    obtain ⟨payload', hunpack, hholds, -⟩ := unpack_of_checks hp hsize (hsize.le.trans hmem) hpath
      (by rw [hhs, hps, hlen, sizeSub_of_le (by omega)]; omega)
      (by intro _; rw [hhs, hps, hlen]; exact hin.trans hmem)
    refine ⟨_, payload', hunpack, ?_⟩
    have hstored := hholds (by rw [hps, hlen]; exact List.length_pos_iff.mpr hne)
    rw [hstored.content_eq, hhs, hps, hlen, field_append_left hin, hfield]

/-- The header that `pack` puts before a message of `msgSize` bytes sent under `path`. -/
def frameHeader (cmd : UniversalCmd) (now : UInt64) (msgSize : Nat) (path : Bytes) :
    UniversalHeader :=
  { cmd.header with
    hsize := UInt16.ofNat UniversalHeader.size + UInt16.ofNat (path.length + 1)
    payloadSize := UInt32.ofNat msgSize
    when_ := now
    isFrom := 1 }

/-- The bytes of the segment that carries `msg` sent under `path`. -/
def frame (cmd : UniversalCmd) (now : UInt64) (msg path : Bytes) : Bytes :=
  (cmd.frameHeader now msg.length path).encode ++ (path ++ [0]) ++ msg

/-- What a caller of `pack` has to provide: the three mandatory header fields, a path that the
16-bit header size can express, and a payload that the 32-bit payload size can. -/
structure Packable (cmd : UniversalCmd) (msg path : Bytes) : Prop where
  flag : cmd.header.flag ≠ 0
  state : cmd.header.state ≠ 0
  msgId : cmd.header.msgId ≠ 0
  named : path ≠ []
  pathSize : path.length ≤ 65510
  msgSize : msg.length < 2 ^ 32

theorem frameHeader_hsize {cmd : UniversalCmd} {now : UInt64} {msg path : Bytes}
    (h : Packable cmd msg path) :
    (cmd.frameHeader now msg.length path).hsize.toNat =
      UniversalHeader.size + (path.length + 1) := by
  have hlen := h.pathSize
  rw [frameHeader, UInt16.toNat_add, UInt16.toNat_ofNat', UInt16.toNat_ofNat',
    UniversalHeader.size]
  omega

theorem frameHeader_payloadSize {cmd : UniversalCmd} {msg path : Bytes}
    (h : Packable cmd msg path) (now : UInt64) :
    (cmd.frameHeader now msg.length path).payloadSize.toNat = msg.length := by
  rw [frameHeader, UInt32.toNat_ofNat_of_lt' h.msgSize]

theorem length_frame (cmd : UniversalCmd) (now : UInt64) (msg path : Bytes) :
    (cmd.frame now msg path).length =
      msg.length + (UniversalHeader.size + (path.length + 1)) := by
  simp [frame]
  omega

/-- The copy function fills a block with the frame and leaves the byte behind it. -/
private theorem copyHook_frame {cmd : UniversalCmd} {msg path : Bytes}
    (h : Packable cmd msg path) (now : UInt64) :
    copyHook { header := cmd.frameHeader now msg.length path, mFrom := path } msg
        (some (List.replicate (msg.length + (UniversalHeader.size + (path.length + 1)) + 1) 0)) =
      .ok (true, some (cmd.frame now msg path ++ [0])) := by
  have hhead : writeBytes
      (List.replicate (msg.length + (UniversalHeader.size + (path.length + 1)) + 1) 0) 0
      (cmd.frameHeader now msg.length path).encode =
      .ok ((cmd.frameHeader now msg.length path).encode ++
        List.replicate (path.length + 1 + msg.length + 1) 0) := by
    have hroom : msg.length + (UniversalHeader.size + (path.length + 1)) + 1 -
        UniversalHeader.size = path.length + 1 + msg.length + 1 := by omega
    rw [writeBytes_of_le (by simp; omega)]
    simp [overwrite, hroom]
  have hfrom : copyFrom { header := cmd.frameHeader now msg.length path, mFrom := path }
      ((cmd.frameHeader now msg.length path).encode ++
        List.replicate (path.length + 1 + msg.length + 1) 0) =
      .ok ((cmd.frameHeader now msg.length path).encode ++ (path ++ [0]) ++
        List.replicate (msg.length + 1) 0) := by
    have hset : (cmd.frameHeader now msg.length path).isFrom ≠ 0 :=
      (by decide : (1 : UInt8) ≠ 0)
    have hroom : path.length + 1 + msg.length + 1 - (path ++ [0]).length = msg.length + 1 := by
      simp only [List.length_append, List.length_singleton]
      omega
    rw [copyFrom, if_pos hset, writeBytes_of_le (by simp; omega),
      overwrite_append (by simp), List.drop_replicate, hroom,
      List.append_assoc _ (path ++ [0])]
  have hpayload : copyPayload { header := cmd.frameHeader now msg.length path, mFrom := path } msg
      ((cmd.frameHeader now msg.length path).encode ++ (path ++ [0]) ++
        List.replicate (msg.length + 1) 0) = .ok (cmd.frame now msg path ++ [0]) := by
    rw [copyPayload, frameHeader_payloadSize h now, frameHeader_hsize h]
    by_cases hpos : 0 < msg.length
    · rw [if_pos hpos, readBytes_of_le (by omega), ok_bind]
      have hall : field msg 0 msg.length = msg := by simp [field]
      rw [hall, writeBytes_of_le (by simp; omega), overwrite_append (by simp),
        List.drop_replicate, Nat.add_sub_cancel_left, frame, List.append_assoc _ msg [0]]
      rfl
    · obtain rfl : msg = [] := List.length_eq_zero_iff.mp (by omega)
      rw [if_neg hpos, frame]
      simp
  rw [copyHook, hhead, ok_bind, hfrom, ok_bind, hpayload]
  rfl

/-- A packable message is packed into its frame. -/
theorem pack_of_packable {cmd : UniversalCmd} {msg path : Bytes}
    (h : Packable cmd msg path) (now : UInt64) :
    ∃ segment, cmd.pack now msg path =
        .ok (true, { header := cmd.frameHeader now msg.length path, mFrom := path }, [segment]) ∧
      segment.Holds (cmd.frame now msg path) := by
  have hset : (((cmd.setWhen now).setFrom path).setLength msg.length).setHeaderSize =
      { header := cmd.frameHeader now msg.length path, mFrom := path } := by
    simp [setWhen, setFrom, setLength, setHeaderSize, frameHeader, h.named]
  have hraw : msg.length + (cmd.frameHeader now msg.length path).hsize.toNat =
      msg.length + (UniversalHeader.size + (path.length + 1)) := by rw [frameHeader_hsize h]
  have hcapa : msg.length + (UniversalHeader.size + (path.length + 1)) ≠
      CRawMessage.defCapSize := by
    have h1 := h.msgSize
    have h2 := h.pathSize
    rw [UniversalHeader.size, CRawMessage.defCapSize]
    omega
  have hlen := length_frame cmd now msg path
  have hstore : writeBytes (cmd.frame now msg path ++ [0])
      (msg.length + (UniversalHeader.size + (path.length + 1))) [0] =
      .ok (cmd.frame now msg path ++ [0]) := by
    rw [← hlen, writeBytes_of_le (by simp), overwrite_append rfl]
    simp
  refine ⟨{ CRawMessage.init (msg.length + (UniversalHeader.size + (path.length + 1))) with
    mMsg := some (cmd.frame now msg path ++ [0])
    msgSize := msg.length + (UniversalHeader.size + (path.length + 1)) }, ?_,
    ⟨⟨_, rfl, ?_, ?_, ?_, ?_⟩, ?_⟩⟩
  · have hhook := copyHook_frame h now
    have hbin := frameHeader_payloadSize h now
    have hflag : (cmd.frameHeader now msg.length path).flag ≠ 0 := h.flag
    have hstate : (cmd.frameHeader now msg.length path).state ≠ 0 := h.state
    have hid : (cmd.frameHeader now msg.length path).msgId ≠ 0 := h.msgId
    have hpos : 0 < msg.length + (UniversalHeader.size + (path.length + 1)) := by
      rw [UniversalHeader.size]
      omega
    have hfits : ¬sizeSub (msg.length + (UniversalHeader.size + (path.length + 1)) + 1) 1 <
        msg.length + (UniversalHeader.size + (path.length + 1)) := by
      rw [sizeSub_of_le (by omega)]
      omega
    rw [pack]
    simp only [if_pos h.named, hset, hraw, packRawData, CRawMessage.setMsgHook,
      CRawMessage.init, if_neg hcapa, if_true, assertThat_pos (Nat.le_refl _),
      assertThat_pos hflag, assertThat_pos hstate, assertThat_pos hid, assertThat_pos hbin,
      assertThat_pos hpos, ok_bind, if_neg hfits, hhook, hstore, pure_eq_ok, catching_ok]
    rfl
  · simp [CRawMessage.init, hcapa, hlen]
  · simp [hlen]
  · simp
  · intro _
    simp
  · exact hlen.symm

/-- The frame of a non-empty message carries it where its header says. -/
theorem carriesPayload_frame {cmd : UniversalCmd} {now : UInt64} {msg path : Bytes}
    (h : Packable cmd msg path) : CarriesPayload (cmd.frame now msg path) msg := by
  have hdecode : UniversalHeader.decode (cmd.frame now msg path) =
      cmd.frameHeader now msg.length path := by
    rw [frame, List.append_assoc, UniversalHeader.decode_encode_append]
  have hhs : headerSize (cmd.frame now msg path) = UniversalHeader.size + (path.length + 1) := by
    rw [headerSize, hdecode, frameHeader_hsize h]
  refine ⟨?_, ?_, ?_, ?_⟩
  · rw [length_frame]
    omega
  · rw [payloadSize, hdecode, frameHeader_payloadSize h now]
  · rw [hhs, length_frame]
    omega
  · rw [hhs, frame, field_append_right (by simp)]
    simp [field]

end UniversalCmd

end CommonCommunicator
