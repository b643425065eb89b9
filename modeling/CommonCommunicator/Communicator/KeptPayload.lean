import CommonCommunicator.Communicator.SendPayload
import CommonCommunicator.Protocol.PropertyArrival

/-!
# Sending a payload again

With `E_KEEP_PAYLOAD_AFTER_TX` a payload survives `write_payload`, so that the
application can change it and send it once more. Its chain has been through the
packing then: headers are filled, and every element has pushed its segments.
`clean_data` empties the segment lists, and of a header the packing reads
nothing but the properties, so the next send is that of a new chain.
-/

namespace CommonCommunicator

open Lib CString

/-- Flags, states and message ids that agree; the packing fills the other fields. -/
structure UniversalCmd.SameProperties (cmd cmd' : UniversalCmd) : Prop where
  flag : cmd.header.flag = cmd'.header.flag
  state : cmd.header.state = cmd'.header.state
  msgId : cmd.header.msgId = cmd'.header.msgId
  reserve : cmd.header.reserve = cmd'.header.reserve

namespace UniversalCmd

variable {cmd cmd' : UniversalCmd} {path : Bytes}

/-- With a path to put in, commands of the same properties pack alike. -/
theorem pack_congr (h : SameProperties cmd cmd') (hpath : path ≠ []) (now : UInt64) (msg : Bytes) :
    cmd.pack now msg path = cmd'.pack now msg path := by
  have hfilled : (((cmd.setWhen now).setFrom path).setLength msg.length).setHeaderSize =
      (((cmd'.setWhen now).setFrom path).setLength msg.length).setHeaderSize := by
    simp [setWhen, setFrom, setLength, setHeaderSize, hpath, h.flag, h.state, h.msgId, h.reserve]
  simp only [pack, if_pos hpath, hfilled]

/-- The packing keeps the properties. -/
theorem pack_properties {now : UInt64} {msg : Bytes} {res : Bool} {segments : List CRawMessage}
    (hpack : cmd.pack now msg path = .ok (res, cmd', segments)) : SameProperties cmd' cmd := by
  obtain ⟨⟨stored, segment⟩, -, hpack⟩ := bind_eq_ok.mp hpack
  obtain ⟨-, -, hpack⟩ := bind_eq_ok.mp hpack
  cases hpack
  by_cases hpath : path = []
  · rw [if_neg (not_not.mpr hpath)]
    exact ⟨rfl, rfl, rfl, rfl⟩
  · rw [if_pos hpath, setFrom, if_pos hpath]
    exact ⟨rfl, rfl, rfl, rfl⟩

end UniversalCmd

namespace FixedHeader

variable {h h' : FixedHeader}

/-- Only the message id of a header reaches the wire. -/
theorem pack_alike (order : ByteOrder) (hid : h.msgId = h'.msgId) (msg : Bytes)
    (pvd : ProviderType) :
    OutcomeRel (fun packed packed' => packed.1 = packed'.1 ∧
        packed.2.1.msgId = packed'.2.1.msgId ∧ packed.2.2 = packed'.2.2)
      (pack order h msg pvd) (pack order h' msg pvd) := by
  by_cases hne : msg = []
  · subst hne
    exact .ok ⟨rfl, hid, rfl⟩
  · have hraw : ∀ msgSize, packRawData order h msg msgSize = packRawData order h' msg msgSize := by
      intro msgSize
      rw [packRawData, packRawData, hid]
    have hloop : packLoop order msg pvd msg.length msg.length h =
        packLoop order msg pvd msg.length msg.length h' := by
      obtain ⟨k, hk⟩ := Nat.exists_eq_succ_of_ne_zero (List.length_pos_iff.mpr hne).ne'
      generalize msg.length = msgSize at hk ⊢
      subst hk
      simp only [packLoop, if_neg (Nat.succ_ne_zero k), hraw]
    rw [pack, pack, hloop]
    exact OutcomeRel.refl fun _ _ => ⟨rfl, rfl, rfl⟩

/-- Setting both properties to what a header prints gives this header. -/
theorem setPropertyRaw_printed (old header : FixedHeader) :
    ((old.setPropertyRaw "msg_id" (printUnsigned header.msgId.toNat)).2.setPropertyRaw "length"
      (printUnsigned header.length.toNat)).2 = header := by
  have hmsgId := header.msgId.toNat_lt
  have hlength := header.length.toNat_lt
  rw [setPropertyRaw_msgId old (by omega), setPropertyRaw, text_printUnsigned,
    uint32_atoi_printUnsigned (by omega), UInt32.ofNat_toNat, UInt32.ofNat_toNat]
  rfl

end FixedHeader

namespace ShippedCodec

/-- The keys of `set_property`. -/
def setterKeys : ShippedCodec → List String
  | universalCMD => ["flag", "state", "msg_id"]
  | _ => ["msg_id", "length"]

/-- A new element, on which properties and payloads have been set. -/
inductive NewElement (codec : ShippedCodec) : Protocol KeyedHead → Prop
  | create : NewElement codec (Protocol.create codec.keyed)
  | setProperty {p : Protocol KeyedHead} (made : NewElement codec p) (key : String)
      (value : Bytes) : NewElement codec (codec.setProperty p key value).2
  | setPayload {p p' : Protocol KeyedHead} {msg : Bytes} {res : Bool} (made : NewElement codec p)
      (set : p.setPayload msg = .ok (res, p')) : NewElement codec p'

/-- The element `q` has the properties that can be set and the payload of `p`. -/
structure SameData (printDouble : UInt64 → Bytes) (codec : ShippedCodec)
    (p q : Protocol KeyedHead) : Prop where
  properties : ∀ key ∈ codec.setterKeys,
    codec.getProperty printDouble p key = codec.getProperty printDouble q key
  payload : p.payload.content = q.payload.content

/-- The elements of a new chain that has the properties and the payload of another one. -/
def NewChainLike (printDouble : UInt64 → Bytes) (codecs : List ShippedCodec)
    (elements fresh : List (Protocol KeyedHead)) : Prop :=
  List.Forall₂ (fun place q => NewElement place.1 q ∧ SameData printDouble place.1 place.2 q)
    (codecs.zip elements) fresh

/-- What an element owes to its class and its codec's packing never changes. -/
structure Intact (codec : ShippedCodec) (p : Protocol KeyedHead) : Prop where
  cls : p.cls = codec.keyed
  getter : p.head.getter = codec.keyed.fresh.getter
  setter : p.head.setter = codec.keyed.fresh.setter
  reserve : p.head.members.universal.header.reserve = 0
  payload : NewOrSet p.payload

/-- An intact element that has no segments to send. -/
structure Emptied (codec : ShippedCodec) (p : Protocol KeyedHead) : Prop
    extends Intact codec p where
  segments : p.segments = []

/-- Members that the codec packs alike. -/
def SameMembers (codec : ShippedCodec) (members members' : ShippedHead) : Prop :=
  match codec with
  | universalCMD => UniversalCmd.SameProperties members.universal members'.universal
  | _ => members.fixed.msgId = members'.fixed.msgId

/-- Elements of one codec that pack alike. -/
structure Alike (codec : ShippedCodec) (p q : Protocol KeyedHead) : Prop where
  cls : p.cls = codec.keyed
  cls' : q.cls = codec.keyed
  segments : p.segments = q.segments
  members : codec.SameMembers p.head.members q.head.members

variable {codec : ShippedCodec} {codecs : List ShippedCodec} {p p' q : Protocol KeyedHead}
  {elements fresh : List (Protocol KeyedHead)} {now : UInt64} {msg path : Bytes}
  {pvd : ProviderType} {printDouble : UInt64 → Bytes}

/-- An element packs with its members. -/
theorem pack_eq (hcls : p.cls = codec.keyed) (now : UInt64) (msg : Bytes) (pvd : ProviderType)
    (path : Bytes) :
    p.pack now msg pvd path = (codec.cls.pack p.head.members now msg pvd path).map fun packed =>
      (packed.1, { p with
        head := p.head.setMembers packed.2.1
        segments := p.segments ++ packed.2.2 }) := by
  rw [Protocol.pack, hcls, pack_keyed]
  cases codec.cls.pack p.head.members now msg pvd path with
  | error f => rfl
  | ok packed => rfl

theorem pack_universalCMD (members : ShippedHead) (now : UInt64) (msg : Bytes)
    (pvd : ProviderType) (path : Bytes) :
    universalCMD.cls.pack members now msg pvd path =
      (members.universal.pack now msg path).map fun packed =>
        (packed.1, { members with universal := packed.2.1 }, packed.2.2) := by
  rw [cls, CPUniversalCMD, IProtocolInf.pack_zoom]
  rfl

/-- Alike members push the same segments and stay alike. -/
theorem pack_sameMembers {members members' : ShippedHead}
    (h : codec.SameMembers members members') (hpath : path ≠ []) (now : UInt64) (msg : Bytes)
    (pvd : ProviderType) :
    OutcomeRel (fun packed packed' => packed.1 = packed'.1 ∧
        codec.SameMembers packed.2.1 packed'.2.1 ∧ packed.2.2 = packed'.2.2)
      (codec.cls.pack members now msg pvd path) (codec.cls.pack members' now msg pvd path) := by
  cases codec with
  | bigEndian =>
      rw [@pack_fixed bigEndian _ rfl, @pack_fixed bigEndian _ rfl]
      exact (FixedHeader.pack_alike .big h msg pvd).map fun _ _ hpacked => hpacked
  | littleEndian =>
      rw [@pack_fixed littleEndian _ rfl, @pack_fixed littleEndian _ rfl]
      exact (FixedHeader.pack_alike .little h msg pvd).map fun _ _ hpacked => hpacked
  | universalCMD =>
      rw [pack_universalCMD, pack_universalCMD, UniversalCmd.pack_congr h hpath]
      refine OutcomeRel.map (OutcomeRel.refl (R := Eq) fun _ _ => rfl) ?_
      rintro packed _ rfl
      exact ⟨rfl, ⟨rfl, rfl, rfl, rfl⟩, rfl⟩

theorem packsAlike (now : UInt64) (pvd : ProviderType) (hpath : path ≠ []) :
    PacksAlike (fun p q => ∃ codec, Alike codec p q) now pvd path where
  name := by
    rintro p q ⟨codec, h⟩
    rw [h.cls, h.cls']
  segments := by
    rintro p q ⟨codec, h⟩
    exact h.segments
  pack := by
    rintro p q msg ⟨codec, h⟩
    rw [pack_eq h.cls, pack_eq h.cls']
    refine (pack_sameMembers h.members hpath now msg pvd).map ?_
    rintro packed packed' ⟨hres, hmembers, hpushed⟩
    exact ⟨hres, codec, h.cls, h.cls', by rw [h.segments, hpushed], hmembers⟩

theorem emptied_create (codec : ShippedCodec) : Emptied codec (Protocol.create codec.keyed) := by
  refine ⟨⟨rfl, rfl, rfl, ?_, .inl rfl⟩, rfl⟩
  cases codec <;> rfl

/-- A codec's packing leaves the reserved bits. -/
theorem reserve_pack {members members' : ShippedHead} {res : Bool} {pushed : List CRawMessage}
    (hpack : codec.cls.pack members now msg pvd path = .ok (res, members', pushed)) :
    members'.universal.header.reserve = members.universal.header.reserve := by
  by_cases hcodec : codec = .universalCMD
  · subst hcodec
    rw [pack_universalCMD] at hpack
    obtain ⟨packed, hcmd, hpacked⟩ := map_eq_ok.mp hpack
    cases hpacked
    exact (UniversalCmd.pack_properties hcmd).reserve
  · obtain ⟨order, horder⟩ := order?_of_ne hcodec
    rw [pack_fixed horder] at hpack
    obtain ⟨packed, -, hpacked⟩ := map_eq_ok.mp hpack
    cases hpacked
    rfl

theorem intact_keptByPacking : KeptByPacking Intact where
  pack := by
    intro codec p p' now msg pvd path res h hpack
    rw [pack_eq h.cls] at hpack
    obtain ⟨⟨r, members, pushed⟩, hmembers, hpacked⟩ := map_eq_ok.mp hpack
    cases hpacked
    exact ⟨h.cls, h.getter, h.setter, (reserve_pack hmembers).trans h.reserve, h.payload⟩
  drop h := ⟨h.cls, h.getter, h.setter, h.reserve, h.payload⟩

theorem reserve_setterMethod (cmd : UniversalCmd) (key : String) (value : Bytes) :
    (cmd.setterMethod key value).header.reserve = cmd.header.reserve := by
  rw [UniversalCmd.setterMethod]
  split
  · rfl
  · split
    · rfl
    · rfl

theorem Emptied.setProperty (h : Emptied codec p) (key : String) (value : Bytes) :
    Emptied codec (codec.setProperty p key value).2 := by
  cases codec with
  | bigEndian => exact ⟨⟨h.cls, h.getter, h.setter, h.reserve, h.payload⟩, h.segments⟩
  | littleEndian => exact ⟨⟨h.cls, h.getter, h.setter, h.reserve, h.payload⟩, h.segments⟩
  | universalCMD =>
      rw [ShippedCodec.setProperty]
      split
      · have hreserve := reserve_setterMethod p.head.members.universal key value
        exact ⟨⟨h.cls, h.getter, h.setter, hreserve.trans h.reserve, h.payload⟩, h.segments⟩
      · exact h

theorem Emptied.setPayload {res : Bool} (h : Emptied codec p)
    (hset : p.setPayload msg = .ok (res, p')) : Emptied codec p' := by
  obtain rfl | ⟨r, payload, hpayload, rfl⟩ := Protocol.setPayload_cases hset
  · exact h
  · exact ⟨⟨h.cls, h.getter, h.setter, h.reserve, h.payload.setNewMsg hpayload⟩, h.segments⟩

theorem NewElement.emptied (h : NewElement codec p) : Emptied codec p := by
  induction h with
  | create => exact emptied_create codec
  | setProperty _ key value ih => exact ih.setProperty key value
  | setPayload _ hset ih => exact ih.setPayload hset

/-- What is left of the segments after a kept payload has been sent. -/
theorem Intact.cleanData (h : Intact codec p) : Emptied codec (p.cleanData true false) :=
  ⟨⟨h.cls, h.getter, h.setter, h.reserve, h.payload⟩, rfl⟩

/-- What a key of an intact command shows. -/
theorem Intact.getProperty_universal (h : Intact .universalCMD p) {key : String}
    (hkey : key ∈ universalCMD.setterKeys) :
    universalCMD.getProperty printDouble p key =
      .ok (p.head.members.universal.getterMethod printDouble key) := by
  refine ShippedCodec.getProperty_universal printDouble ?_
  rw [h.getter]
  revert hkey key
  decide

/-- The properties that can be set decide how an element packs. -/
theorem SameData.members (hp : Intact codec p) (hq : Intact codec q)
    (h : SameData printDouble codec p q) : codec.SameMembers p.head.members q.head.members := by
  by_cases hcodec : codec = .universalCMD
  · subst hcodec
    have hshown : ∀ key ∈ universalCMD.setterKeys,
        p.head.members.universal.getterMethod printDouble key =
          q.head.members.universal.getterMethod printDouble key := by
      intro key hkey
      have hsame := h.properties key hkey
      rw [hp.getProperty_universal hkey, hq.getProperty_universal hkey] at hsame
      exact Except.ok.inj hsame
    have hflag := printUnsigned_inj.mp (hshown "flag" (by decide))
    have hstate := printUnsigned_inj.mp (hshown "state" (by decide))
    have hmsgId := printUnsigned_inj.mp (hshown "msg_id" (by decide))
    exact ⟨UInt8.toNat_inj.mp hflag, UInt16.toNat_inj.mp hstate, UInt32.toNat_inj.mp hmsgId,
      hp.reserve.trans hq.reserve.symm⟩
  · obtain ⟨order, horder⟩ := order?_of_ne hcodec
    have hkey : "msg_id" ∈ codec.setterKeys := by
      cases codec with
      | bigEndian => decide
      | littleEndian => decide
      | universalCMD => exact absurd rfl hcodec
    have hsame := h.properties "msg_id" hkey
    rw [getProperty_fixed horder, getProperty_fixed horder] at hsame
    have hmsgId := UInt32.toNat_inj.mp (printUnsigned_inj.mp (Except.ok.inj hsame))
    cases codec with
    | bigEndian => exact hmsgId
    | littleEndian => exact hmsgId
    | universalCMD => exact absurd rfl hcodec

/-- A new chain with the same data packs like the old one. -/
theorem NewChainLike.alike (h : List.Forall₂ Emptied codecs elements)
    (hfresh : NewChainLike printDouble codecs elements fresh) :
    List.Forall₂ (fun p q => ∃ codec, Alike codec p q) elements fresh := by
  induction h generalizing fresh with
  | nil =>
      cases hfresh
      exact List.Forall₂.nil
  | @cons codec p codecs elements hp hrest ih =>
      cases hfresh with
      | @cons _ q _ fresh hq hfresh =>
          obtain ⟨hnew, hsame⟩ := hq
          have hmembers := hsame.members hp.toIntact hnew.emptied.toIntact
          refine List.Forall₂.cons ⟨codec, hp.cls, hnew.emptied.cls, ?_, hmembers⟩ (ih hfresh)
          rw [hp.segments, hnew.emptied.segments]

/-- The setters put printed numbers back into a command. -/
theorem setterMethods_printed (cmd : UniversalCmd) (header : UniversalHeader) :
    UniversalCmd.SameProperties
      (((cmd.setterMethod "flag" (printUnsigned header.flag.toNat)).setterMethod "state"
        (printUnsigned header.state.toNat)).setterMethod "msg_id"
          (printUnsigned header.msgId.toNat))
      { header := { header with reserve := cmd.header.reserve }, mFrom := cmd.mFrom } := by
  have hflag := header.flag.toNat_lt
  have hstate := header.state.toNat_lt
  have hmsgId := header.msgId.toNat_lt
  have hword : (UInt32.ofNat header.state.toNat).toNat = header.state.toNat :=
    UInt32.toNat_ofNat_of_lt' (hstate.trans (by decide))
  rw [UniversalCmd.setterMethod_flag cmd (by omega), UniversalCmd.setterMethod_state _ (by omega),
    UniversalCmd.setterMethod_msgId _ (by omega)]
  constructor
  · exact UInt8.ofNat_toNat
  · exact (congrArg UInt16.ofNat hword).trans UInt16.ofNat_toNat
  · exact UInt32.ofNat_toNat
  · rfl

/-- A new command can be given the properties of another one. -/
theorem exists_universal (hp : Intact .universalCMD p) :
    ∃ q, NewElement .universalCMD q ∧ q.payload = CRawMessage.init ∧
      ∀ key ∈ universalCMD.setterKeys, universalCMD.getProperty printDouble p key =
        universalCMD.getProperty printDouble q key := by
  let header := p.head.members.universal.header
  have made := ((@NewElement.create universalCMD).setProperty "flag"
    (printUnsigned header.flag.toNat)).setProperty "state" (printUnsigned header.state.toNat)
    |>.setProperty "msg_id" (printUnsigned header.msgId.toNat)
  have hset := setterMethods_printed UniversalCmd.cleared header
  refine ⟨_, made, rfl, fun key hkey => ?_⟩
  rw [hp.getProperty_universal hkey, made.emptied.toIntact.getProperty_universal hkey]
  apply congrArg Except.ok
  have hkeys : key = "flag" ∨ key = "state" ∨ key = "msg_id" := by simpa [setterKeys] using hkey
  exact UniversalCmd.getterMethod_congr printDouble hkeys hset.flag.symm hset.state.symm
    hset.msgId.symm

/-- A new fixed-header element can be given the properties of another one. -/
theorem exists_fixed (printDouble : UInt64 → Bytes) {order : ByteOrder}
    (hcodec : codec.order? = some order) (p : Protocol KeyedHead) :
    ∃ q, NewElement codec q ∧ q.payload = CRawMessage.init ∧
      ∀ key, codec.getProperty printDouble p key = codec.getProperty printDouble q key := by
  let header := p.head.members.fixed
  have made := ((@NewElement.create codec).setProperty "msg_id"
    (printUnsigned header.msgId.toNat)).setProperty "length" (printUnsigned header.length.toNat)
  refine ⟨_, made, ?_, fun key => ?_⟩
  · rw [setProperty_fixed hcodec, setProperty_fixed hcodec]
    rfl
  · have hset := FixedHeader.setPropertyRaw_printed
      (Protocol.create codec.keyed).head.members.fixed header
    rw [getProperty_fixed hcodec, getProperty_fixed hcodec, setProperty_fixed hcodec,
      setProperty_fixed hcodec]
    exact congrArg (fun header => Except.ok (FixedHeader.getProperty header key)) hset.symm

/-- A new element can be given the payload of another one as well. -/
theorem NewElement.withPayload (h : NewElement codec q) (hinit : q.payload = CRawMessage.init)
    {payload : CRawMessage} (hpayload : NewOrSet payload) :
    ∃ q', NewElement codec q' ∧ q'.head = q.head ∧ payload.content = q'.payload.content := by
  obtain rfl | ⟨b, hne, hholds⟩ := hpayload
  · exact ⟨q, h, rfl, by rw [hinit]⟩
  · obtain ⟨stored, hset, hstored, -⟩ := CRawMessage.setNewMsg_holds
      (CRawMessage.init_holds CRawMessage.defCapSize) hne
    rw [← hinit] at hset
    have hpos : 0 < b.length := List.length_pos_iff.mpr hne
    have hpayload : q.setPayload b = .ok (true, { q with payload := stored }) := by
      simp [Protocol.setPayload, hpos, hset]
    exact ⟨_, h.setPayload hpayload, rfl, hholds.content_eq.trans hstored.content_eq.symm⟩

/-- For every element there is a new one with the same data. -/
theorem exists_newElement (printDouble : UInt64 → Bytes) (hp : Intact codec p) :
    ∃ q, NewElement codec q ∧ SameData printDouble codec p q := by
  obtain ⟨q, hq, hinit, hproperties⟩ : ∃ q, NewElement codec q ∧ q.payload = CRawMessage.init ∧
      ∀ key ∈ codec.setterKeys, codec.getProperty printDouble p key =
        codec.getProperty printDouble q key := by
    by_cases hcodec : codec = .universalCMD
    · subst hcodec
      exact exists_universal hp
    · obtain ⟨order, horder⟩ := order?_of_ne hcodec
      obtain ⟨q, hq, hinit, hproperties⟩ := exists_fixed printDouble horder p
      exact ⟨q, hq, hinit, fun key _ => hproperties key⟩
  obtain ⟨q', hq', hhead, hcontent⟩ := hq.withPayload hinit hp.payload
  refine ⟨q', hq', ⟨fun key hkey => ?_, hcontent⟩⟩
  rw [hproperties key hkey]
  cases codec with
  | bigEndian => simp only [getProperty, hhead]
  | littleEndian => simp only [getProperty, hhead]
  | universalCMD => simp only [getProperty, hhead]

theorem exists_newChainLike (printDouble : UInt64 → Bytes)
    (h : List.Forall₂ Emptied codecs elements) :
    ∃ fresh, NewChainLike printDouble codecs elements fresh := by
  induction h with
  | nil => exact ⟨[], List.Forall₂.nil⟩
  | cons hp hrest ih =>
      obtain ⟨q, hq⟩ := exists_newElement printDouble hp.toIntact
      obtain ⟨fresh, hfresh⟩ := ih
      exact ⟨q :: fresh, List.Forall₂.cons hq hfresh⟩

theorem emptied_newChain (codecs : List ShippedCodec) :
    List.Forall₂ Emptied codecs (newChain codecs) := by
  induction codecs with
  | nil => exact List.Forall₂.nil
  | cons codec codecs ih => exact List.Forall₂.cons (emptied_create codec) ih

end ShippedCodec

/-- What a call of `write_payload` finds besides the payload: a sender whose path has a name, and
what the calls of `write_msg` return. -/
structure KeptSend where
  context : SendContext
  named : context.fromFullPath ≠ []
  results : Nat → Except StdException Bool

/-- The calls of the application on a payload that it keeps. -/
inductive PayloadCall
  | setPayload (msg : Bytes)
  | setProperty (i : Nat) (key : String) (value : Bytes)
  | writePayload (send : KeptSend)

/-- The chain map and the chain of a payload that the application keeps. -/
structure KeptPayload where
  config : CConfigProtocols KeyedHead
  chain : ProtoChain KeyedHead

namespace KeptPayload

open ShippedCodec CHProtoBaseLan ICommunicatorImpl

/-- The element `self` of a chain as a payload with `E_KEEP_PAYLOAD_AFTER_TX`. -/
def payloadAt (chain : ProtoChain KeyedHead) (locked : Bool) (self : Nat) :
    CPayload KeyedHead where
  chain := chain
  locked := locked
  self := self
  msg := (chain.elements[self]?.map fun p => p.payload.content).getD []
  keepPayloadAfterTx := true

/-- The payload of the application. -/
def payload (s : KeptPayload) (self : Nat) : CPayload KeyedHead :=
  payloadAt s.chain (s.chain.name ∈ s.config.protoChainsMap) self

/-- A call that returns, for `write_payload` with true. -/
def Step (codecs : List ShippedCodec) (self : Nat) (s : KeptPayload) (call : PayloadCall)
    (s' : KeptPayload) : Prop :=
  match call with
  | .setPayload msg => ∃ elements,
      next codecs s.chain.elements (.setPayload self msg) = .ok elements ∧
        s' = { s with chain := { s.chain with elements := elements } }
  | .setProperty i key value => ∃ elements,
      next codecs s.chain.elements (.setProperty i key value) = .ok elements ∧
        s' = { s with chain := { s.chain with elements := elements } }
  | .writePayload send => ∃ config elements,
      writePayload s.config (s.payload self) send.context send.results =
          .ok (true, config, elements) ∧
        s' = { config := config, chain := { s.chain with elements := elements } }

/-- What `encapsulation` gives to the loop over the segments. -/
def segments (payload : CPayload KeyedHead) (context : SendContext) :
    Outcome (List CRawMessage) := (encapsulation payload context).map Prod.snd

/-- The next send is that of a new chain: nothing is left in the segment lists, new chains of the
same data exist, and `write_msg` gets, and takes, the segments of each of them. -/
structure SentAsNew (printDouble : UInt64 → Bytes) (codecs : List ShippedCodec) (self : Nat)
    (s : KeptPayload) (send : KeptSend) : Prop where
  emptied : ∀ p ∈ s.chain.elements, p.segments = []
  renewable : ∃ fresh, NewChainLike printDouble codecs s.chain.elements fresh
  sent : ∀ fresh name, NewChainLike printDouble codecs s.chain.elements fresh →
    ∃ sent, segments (s.payload self) send.context = .ok sent ∧
      segments (payloadAt { name := name, elements := fresh } true self) send.context = .ok sent ∧
      ∀ i < sent.length, send.results i = .ok true

variable {printDouble : UInt64 → Bytes} {codecs : List ShippedCodec} {self : Nat}
  {s s' : KeptPayload} {elements fresh : List (Protocol KeyedHead)} {context : SendContext}

/-- A payload with a living chain is packed by its elements. -/
theorem encapsulation_locked {payload : CPayload KeyedHead} {packed : List (Protocol KeyedHead)}
    {sent : List CRawMessage} (hpack : encapsulation payload context = .ok (packed, sent)) :
    payload.locked = true ∧ ProtoChain.packRecursive payload.chain.elements payload.self context.now
      payload.msg context.providerType context.fromFullPath = .ok (packed, sent) := by
  rw [encapsulation] at hpack
  split at hpack
  · next hlocked => exact ⟨hlocked, hpack⟩
  · cases hpack

/-- Cleaning after a send leaves nothing to send again. -/
theorem emptied_cleanData (h : List.Forall₂ Intact codecs elements) :
    List.Forall₂ Emptied codecs (ProtoChain.cleanData elements true false) := by
  induction h with
  | nil => exact List.Forall₂.nil
  | cons hp hrest ih => exact List.Forall₂.cons hp.cleanData ih

/-- Every call leaves the elements intact and without segments. -/
theorem emptied_step {call : PayloadCall} (h : List.Forall₂ Emptied codecs s.chain.elements)
    (hstep : Step codecs self s call s') : List.Forall₂ Emptied codecs s'.chain.elements := by
  cases call with
  | setPayload msg =>
      obtain ⟨elements, hnext, rfl⟩ := hstep
      rw [next] at hnext
      split at hnext
      · next hp =>
          obtain ⟨⟨res, p'⟩, hset, hnext⟩ := bind_eq_ok.mp hnext
          cases hnext
          exact KeptByCalls.set h hp fun codec _ hold => hold.setPayload hset
      · cases hnext
        exact h
  | setProperty i key value =>
      obtain ⟨elements, hnext, rfl⟩ := hstep
      rw [next] at hnext
      split at hnext
      · next hcodec hp =>
          cases hnext
          refine KeptByCalls.set h hp fun codec hcodec' hold => ?_
          rw [hcodec] at hcodec'
          cases hcodec'
          exact hold.setProperty key value
      · cases hnext
        exact h
  | writePayload send =>
      obtain ⟨config, elements, hwrite, rfl⟩ := hstep
      obtain ⟨packed, sent, hpack, -, rfl⟩ := writePayload_kept rfl hwrite
      obtain ⟨-, hpacked⟩ := encapsulation_locked hpack
      have hintact := intact_keptByPacking.packRecursive (h.imp fun _ _ hp => hp.toIntact) hpacked
      exact emptied_cleanData hintact

theorem emptied_reachable {start : KeptPayload}
    (hstart : start.chain.elements = newChain codecs)
    (hreach : Reachable (Step codecs self) start s) :
    List.Forall₂ Emptied codecs s.chain.elements := by
  refine hreach.invariant ?_ fun _ _ _ h _ hstep => emptied_step h hstep
  rw [hstart]
  exact emptied_newChain codecs

theorem segments_eq_nil (h : List.Forall₂ Emptied codecs elements) :
    ∀ p ∈ elements, p.segments = [] := by
  induction h with
  | nil => simp
  | cons hp hrest ih => exact List.forall_mem_cons.mpr ⟨hp.segments, ih⟩

/-- A chain of the same data has the same payload. -/
theorem msg_newChainLike (h : List.Forall₂ Emptied codecs elements)
    (hfresh : NewChainLike printDouble codecs elements fresh) (self : Nat) :
    (elements[self]?.map fun p => p.payload.content) =
      fresh[self]?.map fun p => p.payload.content := by
  induction h generalizing fresh self with
  | nil =>
      cases hfresh
      rfl
  | cons hp hrest ih =>
      cases hfresh with
      | cons hq hfresh =>
          cases self with
          | zero => exact congrArg some hq.2.payload
          | succ self => exact ih hfresh self

/-- Chains of the same data give the loop the same segments. -/
theorem segments_newChainLike {name name' : Nat} (h : List.Forall₂ Emptied codecs elements)
    (hfresh : NewChainLike printDouble codecs elements fresh)
    (hnamed : context.fromFullPath ≠ []) :
    segments (payloadAt { name := name, elements := elements } true self) context =
      segments (payloadAt { name := name', elements := fresh } true self) context := by
  have halike := packsAlike context.now context.providerType hnamed
  rw [segments, segments, encapsulation, encapsulation]
  simp only [payloadAt, if_true, msg_newChainLike h hfresh self, ProtoChain.packRecursive]
  generalize (Option.map (fun p => p.payload.content) fresh[self]?).getD [] = msg
  obtain ⟨hres, hleft⟩ := halike.packElements msg (hfresh.alike h)
  have hpushed := halike.segmentsAt hleft self
  generalize ProtoChain.packElements context.now msg context.providerType context.fromFullPath
    elements = packed at hres hpushed ⊢
  generalize ProtoChain.packElements context.now msg context.providerType context.fromFullPath
    fresh = packed' at hres hpushed ⊢
  obtain ⟨res, elements⟩ := packed
  obtain ⟨res', fresh⟩ := packed'
  obtain rfl : res = res' := hres
  cases res with
  | ok _ => exact congrArg Except.ok hpushed
  | error f =>
      cases f with
      | assertion => rfl
      | undefined => rfl
      | thrown e => simp only [segmentsAt_emptied, Except.map]

/-- However a kept payload has been changed and sent before, `write_payload` sends it like a new
one, and nothing of an earlier send. -/
theorem sent_as_new {start : KeptPayload} {send : KeptSend} (printDouble : UInt64 → Bytes)
    (config₀ : CConfigProtocols KeyedHead) (hlist : config₀.protoList = codecs.map keyed)
    (hcreate : config₀.createProtocolsChain = .ok (start.config, start.chain))
    (hreach : Reachable (Step codecs self) start s)
    (hstep : Step codecs self s (.writePayload send) s') :
    SentAsNew printDouble codecs self s send := by
  have hstart : start.chain.elements = newChain codecs := by
    rw [CConfigProtocols.createProtocolsChain_elements hcreate, hlist, List.map_map]
    rfl
  have hemptied := emptied_reachable hstart hreach
  obtain ⟨config, elements, hwrite, rfl⟩ := hstep
  obtain ⟨packed, sent, hpack, htaken, -⟩ := writePayload_kept rfl hwrite
  obtain ⟨hlocked, -⟩ := encapsulation_locked hpack
  have hpayload : s.payload self = payloadAt s.chain true self := by
    rw [payload] at hlocked ⊢
    rw [show decide (s.chain.name ∈ s.config.protoChainsMap) = true from hlocked]
  have hsent : segments (s.payload self) send.context = .ok sent := by
    rw [segments, hpack]
    rfl
  constructor
  · exact segments_eq_nil hemptied
  · exact exists_newChainLike printDouble hemptied
  · intro fresh name hfresh
    have hsame : segments (payloadAt s.chain true self) send.context =
        segments (payloadAt { name := name, elements := fresh } true self) send.context :=
      segments_newChainLike hemptied hfresh send.named
    refine ⟨sent, hsent, ?_, htaken⟩
    rw [← hsame, ← hpayload, hsent]

/-- A datagram sender of the application `a` with the provider `p`. -/
def fromA : KeptSend where
  context := { now := 0, providerType := .transUDP, fromFullPath := [0x61, 0x2F, 0x70] }
  named := List.cons_ne_nil _ _
  results _ := .ok true

/-- A short payload of a fixed-header codec can be sent, and sent again. -/
theorem exists_writePayload {codec : ShippedCodec} {order : ByteOrder}
    (hcodec : codec.order? = some order) {config : CConfigProtocols KeyedHead} {name : Nat}
    {p : Protocol KeyedHead} {send : KeptSend} (hcls : p.cls = codec.keyed)
    (hne : p.payload.content ≠ []) (hshort : p.payload.content.length < FixedHeader.segmentByteSize)
    (hname : name ∈ config.protoChainsMap) (htaken : ∀ i, send.results i = .ok true) :
    ∃ p', Step [codec] 0 { config := config, chain := { name := name, elements := [p] } }
        (.writePayload send) { config := config, chain := { name := name, elements := [p'] } } ∧
      p'.cls = p.cls ∧ p'.payload = p.payload := by
  obtain ⟨segment, hpack, -⟩ := FixedHeader.pack_short order p.head.members.fixed
    send.context.providerType hne hshort
  obtain ⟨p₁, hp₁, hcls₁, hpayload₁⟩ : ∃ p₁, p.pack send.context.now p.payload.content
      send.context.providerType send.context.fromFullPath = .ok (true, p₁) ∧ p₁.cls = p.cls ∧
        p₁.payload = p.payload := by
    rw [pack_eq hcls, pack_fixed hcodec, hpack]
    exact ⟨_, rfl, rfl, rfl⟩
  have helements : ProtoChain.packElements send.context.now p.payload.content
      send.context.providerType send.context.fromFullPath [p] = (.ok (), [p₁]) := by
    rw [ProtoChain.packElements, hp₁]
    simp only [ProtoChain.packRest]
    split
    · rfl
    · rfl
  have hwritten : ∀ i sent, writeSegments send.results i sent = .ok () := by
    intro i sent
    induction sent generalizing i with
    | nil => rfl
    | cons segment sent ih =>
        rw [writeSegments, htaken]
        exact ih (i + 1)
  refine ⟨p₁.cleanData true false, ⟨config, [p₁.cleanData true false], ?_, rfl⟩, hcls₁, hpayload₁⟩
  simp [writePayload, encapsulation, payload, payloadAt, hname, ProtoChain.packRecursive, helements,
    hwritten, ProtoChain.cleanData]

/-- A kept byte is sent once for each `write_payload`. -/
theorem keptByte_sentAsNew :
    ∃ start s₁ s₂ s₃, CConfigProtocols.createProtocolsChain
          { protoList := [bigEndian.keyed], protoChainsMap := [] } =
        .ok (start.config, start.chain) ∧
      Step [.bigEndian] 0 start (.setPayload [0x41]) s₁ ∧
      Step [.bigEndian] 0 s₁ (.writePayload fromA) s₂ ∧
      Step [.bigEndian] 0 s₂ (.writePayload fromA) s₃ ∧
      SentAsNew (fun _ => []) [.bigEndian] 0 s₂ fromA := by
  let config : CConfigProtocols KeyedHead :=
    { protoList := [bigEndian.keyed], protoChainsMap := [1] }
  let start : KeptPayload :=
    { config := config, chain := { name := 1, elements := [Protocol.create bigEndian.keyed] } }
  obtain ⟨payload, hset, hholds, -⟩ := CRawMessage.setNewMsg_holds
    (CRawMessage.init_holds CRawMessage.defCapSize) (List.cons_ne_nil 0x41 [])
  let p₁ : Protocol KeyedHead := { Protocol.create bigEndian.keyed with payload := payload }
  have hfirst : Step [.bigEndian] 0 start (.setPayload [0x41])
      { config := config, chain := { name := 1, elements := [p₁] } } := by
    refine ⟨[p₁], ?_, rfl⟩
    simp [start, p₁, next, Protocol.setPayload, hset]
  have hcontent : p₁.payload.content = [0x41] := hholds.content_eq
  have htaken : ∀ i, fromA.results i = .ok true := fun _ => rfl
  obtain ⟨p₂, hsecond, hcls₂, hpayload₂⟩ := @exists_writePayload .bigEndian .big rfl config 1 p₁
    fromA rfl (by rw [hcontent]; decide) (by rw [hcontent]; decide) (by decide) htaken
  rw [← hpayload₂] at hcontent
  obtain ⟨p₃, hthird, -, -⟩ := @exists_writePayload .bigEndian .big rfl config 1 p₂
    fromA hcls₂ (by rw [hcontent]; decide) (by rw [hcontent]; decide) (by decide) htaken
  refine ⟨start, _, _, _, rfl, hfirst, hsecond, hthird, ?_⟩
  have hreach : Reachable (Step [.bigEndian] 0) start _ :=
    .next (.next .start trivial hfirst) trivial hsecond
  exact sent_as_new _ { protoList := [bigEndian.keyed], protoChainsMap := [] } rfl rfl hreach hthird

end KeptPayload

end CommonCommunicator
