import CommonCommunicator.Protocol.CleanData
import CommonCommunicator.Protocol.UniversalRoundTrip

/-!
# Properties on the wire

`set_property` prints a number, and the class reads it again, casts it and puts
it into a field of its header; the header travels with the payload, and the
receiver prints the field. A field that is as wide as the type of its member
loses nothing on this way. The state of a command has a type of 32 bits and a
field of 16.
-/

namespace CommonCommunicator

open Lib CString

namespace UniversalCmd

variable {key : String} {v : Nat}

theorem setterMethod_flag (cmd : UniversalCmd) (hv : v < 2 ^ 63) :
    cmd.setterMethod "flag" (printUnsigned v) = cmd.setFlag (UInt8.ofNat v) := by
  rw [setterMethod, text_printUnsigned, ← uint8_atoi_printUnsigned hv]
  exact if_pos rfl

theorem setterMethod_state (cmd : UniversalCmd) (hv : v < 2 ^ 63) :
    cmd.setterMethod "state" (printUnsigned v) = cmd.setState (UInt32.ofNat v) := by
  rw [setterMethod, text_printUnsigned, ← uint32_atoi_printUnsigned hv]
  exact (if_neg (by decide)).trans (if_pos rfl)

theorem setterMethod_msgId (cmd : UniversalCmd) (hv : v < 2 ^ 63) :
    cmd.setterMethod "msg_id" (printUnsigned v) = cmd.setMsgId (UInt32.ofNat v) := by
  rw [setterMethod, text_printUnsigned, ← uint32_atoi_printUnsigned hv]
  exact (if_neg (by decide)).trans (if_neg (by decide))

/-- A setter of one key leaves what the other keys print. -/
theorem getterMethod_other (printDouble : UInt64 → Bytes) (cmd : UniversalCmd) (value : Bytes)
    {other : String} (hkey : key = "flag" ∨ key = "state" ∨ key = "msg_id") (hother : other ≠ key) :
    getterMethod printDouble (cmd.setterMethod key value) other =
      getterMethod printDouble cmd other := by
  obtain rfl | rfl | rfl := hkey
  · rw [getterMethod, if_neg hother, getterMethod, if_neg hother]
    rfl
  · rw [getterMethod, if_neg hother, getterMethod, if_neg hother]
    rfl
  · rw [getterMethod, if_neg hother, getterMethod, if_neg hother]
    rfl

/-- What a key prints after a number has been set: the state only has 16 bits. -/
theorem getterMethod_set (printDouble : UInt64 → Bytes) (cmd : UniversalCmd)
    (hset : key = "flag" ∧ v < 2 ^ 8 ∨ (key = "state" ∨ key = "msg_id") ∧ v < 2 ^ 32) :
    getterMethod printDouble (cmd.setterMethod key (printUnsigned v)) key =
      printUnsigned (if key = "state" then v % 2 ^ 16 else v) := by
  obtain ⟨rfl, hv⟩ | ⟨rfl | rfl, hv⟩ := hset
  · have hflag : (UInt8.ofNat v).toNat = v := UInt8.toNat_ofNat_of_lt' hv
    rw [setterMethod_flag cmd (by omega), if_neg (by decide), getterMethod, if_pos rfl]
    exact congrArg printUnsigned hflag
  · have hstate : (UInt16.ofNat (UInt32.ofNat v).toNat).toNat = v % 2 ^ 16 := by
      rw [UInt32.toNat_ofNat_of_lt' hv, UInt16.toNat_ofNat']
    rw [setterMethod_state cmd (by omega), if_pos rfl, getterMethod, if_neg (by decide),
      if_pos rfl]
    exact congrArg printUnsigned hstate
  · have hmsgId : (UInt32.ofNat v).toNat = v := UInt32.toNat_ofNat_of_lt' hv
    rw [setterMethod_msgId cmd (by omega), if_neg (by decide), getterMethod, if_neg (by decide),
      if_neg (by decide), if_pos rfl]
    exact congrArg printUnsigned hmsgId

/-- The frame of a command brings its flag, state and message id to a new object. -/
theorem unpack_packed {cmd : UniversalCmd} {msg path : Bytes} (h : Packable cmd msg path)
    (now : UInt64) :
    ∃ sender segment receiver payload, cmd.pack now msg path = .ok (true, sender, [segment]) ∧
      cleared.unpack CRawMessage.init (segment.content ++ [0]) segment.content.length =
        .ok (true, receiver, payload) ∧
      receiver.header.flag = cmd.header.flag ∧ receiver.header.state = cmd.header.state ∧
      receiver.header.msgId = cmd.header.msgId := by
  obtain ⟨segment, hpack, hholds⟩ := pack_of_packable h now
  have hwf := @wellFormed_frame cmd now msg path h []
  rw [List.append_nil] at hwf
  have hlong : UniversalHeader.size < (cmd.frame now msg path).length := by
    rw [length_frame]
    omega
  obtain ⟨receiver, payload, hunpack, hheader, -⟩ := unpack_of_wellFormed cleared
    (CRawMessage.init_holds CRawMessage.defCapSize) hwf hlong [0]
  have hdecode := decode_frame cmd now msg path []
  rw [List.append_nil] at hdecode
  rw [hdecode] at hheader
  refine ⟨_, segment, receiver, payload, hpack, ?_, ?_⟩
  · rw [hholds.content_eq]
    exact hunpack
  · rw [hheader]
    exact ⟨rfl, rfl, rfl⟩

/-- A settable key prints what its field holds. -/
theorem getterMethod_congr (printDouble : UInt64 → Bytes) {cmd cmd' : UniversalCmd}
    (hkey : key = "flag" ∨ key = "state" ∨ key = "msg_id")
    (hflag : cmd'.header.flag = cmd.header.flag) (hstate : cmd'.header.state = cmd.header.state)
    (hmsgId : cmd'.header.msgId = cmd.header.msgId) :
    getterMethod printDouble cmd' key = getterMethod printDouble cmd key := by
  obtain rfl | rfl | rfl := hkey <;> simp [getterMethod, hflag, hstate, hmsgId]

end UniversalCmd

namespace FixedHeader

variable {v : Nat}

theorem setPropertyRaw_msgId (protocol : FixedHeader) (hv : v < 2 ^ 63) :
    protocol.setPropertyRaw "msg_id" (printUnsigned v) =
      (true, { protocol with msgId := UInt32.ofNat v }) := by
  rw [setPropertyRaw, text_printUnsigned, ← uint32_atoi_printUnsigned hv]
  exact if_pos rfl

theorem getProperty_msgId {protocol : FixedHeader} (hid : protocol.msgId = UInt32.ofNat v)
    (hv : v < 2 ^ 32) : protocol.getProperty "msg_id" = printUnsigned v := by
  rw [getProperty, if_pos rfl, hid, UInt32.toNat_ofNat_of_lt' hv]

end FixedHeader

namespace ShippedCodec

/-- The keys of `set_property` that the application may use, and the values of their types. -/
def Settable (codec : ShippedCodec) (key : String) (v : Nat) : Prop :=
  match codec with
  | universalCMD => key = "flag" ∧ 1 ≤ v ∧ v ≤ 255 ∨
      (key = "state" ∨ key = "msg_id") ∧ 1 ≤ v ∧ v < 2 ^ 32
  | _ => key = "msg_id" ∧ v < 2 ^ 32

/-- A message that the codec packs for a sender with this path. -/
def Accepts (codec : ShippedCodec) (head : KeyedHead) (msg path : Bytes) : Prop :=
  match codec with
  | universalCMD => UniversalCmd.Packable head.members.universal msg path
  | _ => msg ≠ [] ∧ msg.length < FixedHeader.segmentByteSize

/-- The object has its methods for the key. -/
def Answers (codec : ShippedCodec) (p : Protocol KeyedHead) (key : String) : Prop :=
  match codec with
  | universalCMD => key ∈ p.head.getter ∧ key ∈ p.head.setter
  | _ => True

/-- A number that is set for a key is taken, printed again, leaves the other keys alone, and
reaches a new object with every message. -/
structure PropertyArrives (printDouble : UInt64 → Bytes) (codec : ShippedCodec)
    (p : Protocol KeyedHead) (key : String) (v : Nat) : Prop where
  taken : (codec.setProperty p key (printUnsigned v)).1 = true
  printed : codec.getProperty printDouble (codec.setProperty p key (printUnsigned v)).2 key =
    .ok (printUnsigned v)
  others : ∀ other, other ≠ key →
    codec.getProperty printDouble (codec.setProperty p key (printUnsigned v)).2 other =
      codec.getProperty printDouble p other
  arrives : ∀ now msg pvd path,
    codec.Accepts (codec.setProperty p key (printUnsigned v)).2.head msg path →
      ∃ sender segment receiver,
        (codec.setProperty p key (printUnsigned v)).2.pack now msg pvd path =
          .ok (true, sender) ∧
        sender.segments = p.segments ++ [segment] ∧
        (Protocol.create codec.keyed).unpack (segment.content ++ [0]) segment.content.length =
          .ok (true, receiver) ∧
        codec.getProperty printDouble receiver key = .ok (printUnsigned v)

variable {codec : ShippedCodec} {order : ByteOrder} {p : Protocol KeyedHead} {key : String}
  {v : Nat}

theorem setProperty_fixed (hcodec : codec.order? = some order) (p : Protocol KeyedHead)
    (key : String) (value : Bytes) :
    codec.setProperty p key value =
      ((p.head.members.fixed.setPropertyRaw key value).1,
        { p with head := p.head.setMembers { p.head.members with
          fixed := (p.head.members.fixed.setPropertyRaw key value).2 } }) := by
  cases codec with
  | bigEndian => rfl
  | littleEndian => rfl
  | universalCMD => cases hcodec

theorem getProperty_fixed (hcodec : codec.order? = some order) (printDouble : UInt64 → Bytes)
    (p : Protocol KeyedHead) (key : String) :
    codec.getProperty printDouble p key = .ok (p.head.members.fixed.getProperty key) := by
  cases codec with
  | bigEndian => rfl
  | littleEndian => rfl
  | universalCMD => cases hcodec

/-- A message id of a fixed-header codec arrives, whatever its value. -/
theorem msgId_arrives (hcodec : codec.order? = some order) (printDouble : UInt64 → Bytes)
    (hcls : p.cls = codec.keyed) (hv : v < 2 ^ 32) :
    PropertyArrives printDouble codec p "msg_id" v := by
  have hset := setProperty_fixed hcodec p "msg_id" (printUnsigned v)
  rw [FixedHeader.setPropertyRaw_msgId p.head.members.fixed (by omega)] at hset
  constructor
  · rw [hset]
  · rw [hset, getProperty_fixed hcodec]
    exact congrArg Except.ok (FixedHeader.getProperty_msgId rfl hv)
  · intro other hother
    rw [hset, getProperty_fixed hcodec, getProperty_fixed hcodec, FixedHeader.getProperty,
      if_neg hother, FixedHeader.getProperty, if_neg hother]
    rfl
  · intro now msg pvd path haccepts
    obtain ⟨hne, hshort⟩ : msg ≠ [] ∧ msg.length < FixedHeader.segmentByteSize := by
      cases codec with
      | bigEndian => exact haccepts
      | littleEndian => exact haccepts
      | universalCMD => cases hcodec
    obtain ⟨segment, hpack, hholds⟩ := FixedHeader.pack_short order
      { p.head.members.fixed with msgId := UInt32.ofNat v } pvd hne hshort
    obtain ⟨payload, hunpack, -⟩ := FixedHeader.unpack_frame order (UInt32.ofNat v)
      (CRawMessage.init_holds CRawMessage.defCapSize) hne hshort [] [0]
    rw [List.nil_append, List.append_nil] at hunpack
    obtain ⟨receiver, hreceived, hid⟩ : ∃ receiver,
        (Protocol.create codec.keyed).unpack (segment.content ++ [0]) segment.content.length =
          .ok (true, receiver) ∧ receiver.head.members.fixed.msgId = UInt32.ofNat v := by
      rw [hholds.content_eq, Protocol.unpack, Protocol.create_cls, unpack_keyed,
        unpack_fixed hcodec, Protocol.create_payload, hunpack]
      exact ⟨_, rfl, rfl⟩
    rw [hset, Protocol.pack]
    simp only [hcls, pack_keyed, pack_fixed hcodec, KeyedHead.setMembers, hpack, Except.map,
      ok_bind, pure_eq_ok]
    refine ⟨_, segment, receiver, rfl, rfl, hreceived, ?_⟩
    rw [getProperty_fixed hcodec]
    exact congrArg Except.ok (FixedHeader.getProperty_msgId hid hv)

/-- A command takes a key that it has a setter for. -/
theorem setProperty_universal (hsetter : key ∈ p.head.setter) (value : Bytes) :
    universalCMD.setProperty p key value =
      (true, { p with head := p.head.setMembers { p.head.members with
        universal := p.head.members.universal.setterMethod key value } }) := if_pos hsetter

theorem getProperty_universal (printDouble : UInt64 → Bytes) (hgetter : key ∈ p.head.getter) :
    universalCMD.getProperty printDouble p key =
      .ok (p.head.members.universal.getterMethod printDouble key) := if_pos hgetter

/-- What a command prints for a key that has been set. -/
theorem getProperty_set_universal (printDouble : UInt64 → Bytes) (hgetter : key ∈ p.head.getter)
    (hsetter : key ∈ p.head.setter) (value : Bytes) :
    universalCMD.getProperty printDouble (universalCMD.setProperty p key value).2 key =
      .ok ((p.head.members.universal.setterMethod key value).getterMethod printDouble key) := by
  rw [setProperty_universal hsetter]
  exact if_pos hgetter

theorem getProperty_universal_other (printDouble : UInt64 → Bytes) (value : Bytes)
    {other : String} (hkey : key = "flag" ∨ key = "state" ∨ key = "msg_id")
    (hother : other ≠ key) :
    universalCMD.getProperty printDouble (universalCMD.setProperty p key value).2 other =
      universalCMD.getProperty printDouble p other := by
  by_cases hsetter : key ∈ p.head.setter
  · have hsame := UniversalCmd.getterMethod_other printDouble p.head.members.universal value hkey
      hother
    rw [setProperty_universal hsetter, getProperty, getProperty, ← hsame]
    rfl
  · rw [setProperty, if_neg hsetter]

/-- An object packs with the command among its members. -/
theorem pack_universal {cmd : UniversalCmd} {now : UInt64} {msg fromApp : Bytes}
    {segment : CRawMessage} {pvd : ProviderType} (hcls : p.cls = universalCMD.keyed)
    (hpack : p.head.members.universal.pack now msg fromApp = .ok (true, cmd, [segment])) :
    ∃ sender, p.pack now msg pvd fromApp = .ok (true, sender) ∧
      sender.segments = p.segments ++ [segment] := by
  have hcodec : UniversalCmd.codec.pack p.head.members.universal now msg pvd fromApp =
      .ok (true, cmd, [segment]) := hpack
  rw [Protocol.pack, hcls, pack_keyed, cls, CPUniversalCMD, IProtocolInf.pack_zoom, hcodec]
  exact ⟨_, rfl, rfl⟩

/-- A new object unpacks into the command among its members, and answers for all keys. -/
theorem unpack_universal {cmd : UniversalCmd} {payload : CRawMessage} {mem : Bytes}
    {msgSize : Nat}
    (hunpack : UniversalCmd.cleared.unpack CRawMessage.init mem msgSize =
      .ok (true, cmd, payload)) :
    ∃ receiver, (Protocol.create universalCMD.keyed).unpack mem msgSize = .ok (true, receiver) ∧
      receiver.head.members.universal = cmd ∧
      receiver.head.getter = ["flag", "state", "msg_id", "from", "when", "length"] := by
  have hcodec : UniversalCmd.codec.unpack
      (Protocol.create universalCMD.keyed).head.members.universal CRawMessage.init mem msgSize =
        .ok (true, cmd, payload) := hunpack
  rw [Protocol.unpack, Protocol.create_cls, unpack_keyed, cls, CPUniversalCMD,
    IProtocolInf.unpack_zoom, Protocol.create_payload, hcodec]
  exact ⟨_, rfl, rfl, rfl⟩

/-- A number set for a key of a command arrives exactly if the object answers for the key and the
16 bits of the state can hold it. -/
theorem command_arrives_iff (printDouble : UInt64 → Bytes) (hcls : p.cls = universalCMD.keyed)
    (hset : universalCMD.Settable key v) :
    PropertyArrives printDouble universalCMD p key v ↔
      universalCMD.Answers p key ∧ (key = "state" → v < 2 ^ 16) := by
  have hkey : key = "flag" ∨ key = "state" ∨ key = "msg_id" := by
    obtain ⟨hflag, -⟩ | ⟨hkey, -⟩ := hset
    · exact .inl hflag
    · exact .inr hkey
  have hstored := UniversalCmd.getterMethod_set printDouble p.head.members.universal
    (show key = "flag" ∧ v < 2 ^ 8 ∨ (key = "state" ∨ key = "msg_id") ∧ v < 2 ^ 32 by
      obtain ⟨hflag, -, hv⟩ | ⟨hother, -, hv⟩ := hset
      · exact .inl ⟨hflag, Nat.lt_succ_of_le hv⟩
      · exact .inr ⟨hother, hv⟩)
  constructor
  · rintro ⟨htaken, hprinted, -, -⟩
    have hsetter : key ∈ p.head.setter := by
      by_contra hnone
      rw [setProperty, if_neg hnone] at htaken
      cases htaken
    have hgetter : key ∈ p.head.getter := by
      by_contra hnone
      rw [setProperty_universal hsetter] at hprinted
      have hthrown := hprinted.symm.trans (if_neg hnone)
      cases hthrown
    refine ⟨⟨hgetter, hsetter⟩, ?_⟩
    intro hstate
    rw [getProperty_set_universal printDouble hgetter hsetter] at hprinted
    have hsame := hstored.symm.trans (Except.ok.inj hprinted)
    rw [if_pos hstate, printUnsigned_inj] at hsame
    omega
  · rintro ⟨⟨hgetter, hsetter⟩, hfits⟩
    have hvalue : (if key = "state" then v % 2 ^ 16 else v) = v := by
      split
      · next hstate => exact Nat.mod_eq_of_lt (hfits hstate)
      · rfl
    rw [hvalue] at hstored
    have hprop := setProperty_universal hsetter (printUnsigned v)
    constructor
    · rw [hprop]
    · rw [getProperty_set_universal printDouble hgetter hsetter, hstored]
    · intro other hother
      exact getProperty_universal_other printDouble _ hkey hother
    · intro now msg pvd path haccepts
      rw [hprop] at haccepts ⊢
      obtain ⟨cmd, segment, arrived, payload, hpack, hunpack, hflag, hstate, hmsgId⟩ :=
        UniversalCmd.unpack_packed haccepts now
      obtain ⟨sender, hsent, hsegments⟩ := @pack_universal
        { p with head := p.head.setMembers { p.head.members with
          universal := p.head.members.universal.setterMethod key (printUnsigned v) } }
        cmd now msg path segment pvd hcls hpack
      obtain ⟨receiver, hreceived, hmember, hanswers⟩ := unpack_universal hunpack
      have hkeys : key ∈ receiver.head.getter := by
        rw [hanswers]
        obtain rfl | rfl | rfl := hkey <;> decide
      refine ⟨sender, segment, receiver, hsent, hsegments, hreceived, ?_⟩
      rw [getProperty_universal printDouble hkeys, hmember,
        UniversalCmd.getterMethod_congr printDouble hkey hflag hstate hmsgId]
      exact congrArg Except.ok hstored

/-- A number set for a key arrives exactly if the object answers for the key, and fits the 16 bits
of the state where it is one. -/
theorem propertyArrives_iff (printDouble : UInt64 → Bytes) (hcls : p.cls = codec.keyed)
    (hset : codec.Settable key v) :
    PropertyArrives printDouble codec p key v ↔
      codec.Answers p key ∧ (codec = .universalCMD → key = "state" → v < 2 ^ 16) := by
  cases codec with
  | bigEndian =>
      obtain ⟨rfl, hv⟩ := hset
      have harrives := @msgId_arrives .bigEndian .big p v rfl printDouble hcls hv
      exact iff_of_true harrives ⟨trivial, by simp⟩
  | littleEndian =>
      obtain ⟨rfl, hv⟩ := hset
      have harrives := @msgId_arrives .littleEndian .little p v rfl printDouble hcls hv
      exact iff_of_true harrives ⟨trivial, by simp⟩
  | universalCMD =>
      rw [command_arrives_iff printDouble hcls hset]
      simp

/-- The largest message id arrives from a new command. -/
theorem largestMsgId_arrives :
    PropertyArrives (fun _ => []) .universalCMD (Protocol.create universalCMD.keyed) "msg_id"
      4294967295 := by
  have hset : ShippedCodec.universalCMD.Settable "msg_id" 4294967295 :=
    Or.inr ⟨Or.inr rfl, by decide, by decide⟩
  exact (propertyArrives_iff _ rfl hset).mpr ⟨⟨by decide, by decide⟩, by decide⟩

/-- The state 65536 is printed as 0. -/
theorem largeState_lost :
    ¬∀ (printDouble : UInt64 → Bytes) (codec : ShippedCodec) (key : String) (v : Nat),
      codec.Settable key v →
        PropertyArrives printDouble codec (Protocol.create codec.keyed) key v := by
  intro hall
  have hset : ShippedCodec.universalCMD.Settable "state" 65536 :=
    Or.inr ⟨Or.inl rfl, by decide, by decide⟩
  have harrives := hall (fun _ => []) .universalCMD "state" 65536 hset
  have hfits := ((command_arrives_iff _ rfl hset).mp harrives).2 rfl
  revert hfits
  decide

end ShippedCodec

end CommonCommunicator
