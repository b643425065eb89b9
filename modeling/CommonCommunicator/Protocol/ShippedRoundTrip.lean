import CommonCommunicator.Protocol.CodecRoundTrip

/-!
# Round trips through the shipped codecs

A chain of shipped codecs and of `none` elements, in any order. The innermost
segment is unpacked once too often by every codec that stands behind the first
one, so the chain gives back all it accepts exactly when no outer codec takes
part; otherwise it loses a payload of one byte.
-/

namespace CommonCommunicator

namespace ProtoChain

/-- The class of a configured protocol: a shipped one, or the base class for `none`. -/
def configured : Option ShippedCodec → IProtocolInf ShippedHead
  | none => IProtocolInf.base ShippedHead.initial
  | some codec => codec.cls

variable {now : UInt64} {pvd : ProviderType} {fromApp b msg msg' wire wire' : Bytes}
  {e : ChainElement ShippedHead} {first : IProtocolInf ShippedHead}
  {inner : List (IProtocolInf ShippedHead)} {outer : List (ChainElement ShippedHead)}
  {received payload : CRawMessage} {codec : ShippedCodec}

theorem configured_none_name : (configured none).name = IProtocolInf.defaultName := rfl

theorem codec_name (codec : ShippedCodec) : codec.cls.name ≠ IProtocolInf.defaultName := by
  cases codec <;> decide

theorem codec_ne_none (codec : ShippedCodec) : codec.cls ≠ configured none :=
  fun hbase => codec_name codec (congrArg IProtocolInf.name hbase)

/-- A shipped class is the command codec or a fixed-header codec. -/
theorem universal_or_fixed (codec : ShippedCodec) :
    codec.cls = CPUniversalCMD ∨ ∃ order, FixedClass codec.cls order := by
  cases codec with
  | bigEndian => exact Or.inr ⟨.big, Or.inl ⟨rfl, rfl⟩⟩
  | littleEndian => exact Or.inr ⟨.little, Or.inr ⟨rfl, rfl⟩⟩
  | universalCMD => exact Or.inl rfl

/-- What the base class packs is the message. -/
theorem base_roundTripsOn_iff (hcls : e.cls = configured none) :
    e.RoundTripsOn now pvd fromApp msg wire ↔ msg ≠ [] ∧ wire = msg := by
  have hpack : e.cls.pack e.head now msg pvd fromApp =
      (assertThat (0 < msg.length) >>= fun _ => CRawMessage.init.setNewMsg msg >>= fun r =>
        .ok (true, e.head, [r.2])) := by
    rw [hcls]
    rfl
  constructor
  · rintro ⟨head, segment, hpacked, hsegment, -⟩
    rw [hpack] at hpacked
    obtain ⟨_, hpos, hpacked⟩ := bind_eq_ok.mp hpacked
    have hne : msg ≠ [] := List.length_pos_iff.mp (assertThat_eq_ok.mp hpos)
    obtain ⟨stored, hset, hholds, -⟩ := CRawMessage.setNewMsg_holds
      (CRawMessage.init_holds CRawMessage.defCapSize) hne
    rw [hset] at hpacked
    obtain ⟨-, rfl⟩ : _ ∧ stored = segment := by simpa using hpacked
    exact ⟨hne, hsegment.content_eq.symm.trans hholds.content_eq⟩
  · rintro ⟨hne, rfl⟩
    obtain ⟨stored, hset, hholds, -⟩ := CRawMessage.setNewMsg_holds
      (CRawMessage.init_holds CRawMessage.defCapSize) hne
    obtain ⟨payload, hdecode, hpayload⟩ :=
      IProtocolInf.decode_base ShippedHead.initial hholds hne
    refine ⟨e.head, stored, ?_, hholds, ?_⟩
    · rw [hpack, assertThat_pos (List.length_pos_iff.mpr hne), hset]
      rfl
    · rw [hcls, configured, hdecode, Option.map_some, hpayload.content_eq]

/-- A shipped codec takes only what is longer than a fixed header. -/
theorem decode_longer (hreceived : received.Holds b)
    (h : codec.cls.decode received = some payload) : FixedHeader.size < b.length := by
  obtain huniversal | ⟨order, hfixed⟩ := universal_or_fixed codec
  · rw [huniversal] at h
    obtain ⟨hlong, -⟩ := decode_universal hreceived h
    exact Nat.lt_trans (by decide) hlong
  · obtain ⟨c, -, hne, hshort, -⟩ := hfixed.decode_shortens hreceived h
    have hpos := List.length_pos_iff.mpr hne
    omega

/-- A configured codec packs into bytes. -/
theorem wire_ne_nil (hcls : ∃ codec, e.cls = configured codec)
    (hround : e.RoundTripsOn now pvd fromApp msg wire) : wire ≠ [] := by
  obtain ⟨codec, hcls⟩ := hcls
  cases codec with
  | none =>
      obtain ⟨hne, rfl⟩ := (base_roundTripsOn_iff hcls).mp hround
      exact hne
  | some codec =>
      obtain ⟨head, segment, -, hsegment, hdecode⟩ := hround
      obtain ⟨payload, hdecode, -⟩ := Option.map_eq_some_iff.mp hdecode
      rw [hcls, configured] at hdecode
      exact List.ne_nil_of_length_pos (Nat.zero_lt_of_lt (decode_longer hsegment hdecode))

/-- A codec that takes a message takes every shorter one, and packs it into fewer bytes. -/
theorem roundTripsOn_shorter (hnamed : fromApp ≠ []) (hpath : fromApp.length ≤ 65510)
    (hcls : ∃ codec, e.cls = configured codec)
    (hround : e.RoundTripsOn now pvd fromApp msg wire) (hne : msg' ≠ [])
    (hle : msg'.length ≤ msg.length) :
    ∃ wire', e.RoundTripsOn now pvd fromApp msg' wire' ∧ wire'.length ≤ wire.length := by
  obtain ⟨codec, hcls⟩ := hcls
  cases codec with
  | none =>
      obtain ⟨-, rfl⟩ := (base_roundTripsOn_iff hcls).mp hround
      exact ⟨msg', (base_roundTripsOn_iff hcls).mpr ⟨hne, rfl⟩, hle⟩
  | some codec =>
      rw [configured] at hcls
      obtain huniversal | ⟨order, hfixed⟩ := universal_or_fixed codec
      · rw [huniversal] at hcls
        obtain ⟨hpackable, rfl⟩ := universal_roundTripsOn_eq hcls hnamed hpath hround
        have hpackable' : UniversalCmd.Packable e.head.universal msg' fromApp :=
          { hpackable with msgSize := Nat.lt_of_le_of_lt hle hpackable.msgSize }
        refine ⟨_, universal_roundTripsOn_frame hcls now pvd hne hpackable', ?_⟩
        rw [UniversalCmd.length_frame, UniversalCmd.length_frame]
        omega
      · rw [← hcls] at hfixed
        obtain ⟨-, hshort, rfl⟩ := hfixed.roundTripsOn_eq hround
        refine ⟨_, hfixed.roundTripsOn_frame now pvd fromApp hne (by omega), ?_⟩
        rw [FixedHeader.length_frame, FixedHeader.length_frame]
        omega

/-- So does a chain. -/
theorem accepts_shorter (hnamed : fromApp ≠ []) (hpath : fromApp.length ≤ 65510)
    (hcls : ∀ e' ∈ outer, ∃ codec, e'.cls = configured codec)
    (haccepts : Accepts now pvd fromApp outer wire) (hne : wire' ≠ [])
    (hle : wire'.length ≤ wire.length) : Accepts now pvd fromApp outer wire' := by
  induction outer generalizing wire wire' with
  | nil => trivial
  | cons e outer ih =>
      obtain ⟨hclass, hrest⟩ := List.forall_mem_cons.mp hcls
      obtain ⟨next, hround, hnext⟩ := haccepts
      obtain ⟨next', hround', hle'⟩ := roundTripsOn_shorter hnamed hpath hclass hround hne hle
      exact ⟨next', hround', ih hrest hnext (wire_ne_nil hclass hround') hle'⟩

/-- A message from which no shipped codec unpacks more than the size of a fixed header. -/
def UnpacksShort (wire : Bytes) : Prop :=
  ∀ (codec : ShippedCodec) (received payload : CRawMessage), received.Holds wire →
    codec.cls.decode received = some payload →
      ∃ c, payload.Holds c ∧ c ≠ [] ∧ c.length ≤ FixedHeader.size

/-- A payload that short is taken by no codec, the first one included. -/
theorem deliveredInward_short (hfirst : first = codec.cls)
    (hinner : ∀ cls ∈ inner, ∃ codec, cls = configured codec) (hreceived : received.Holds b)
    (hne : b ≠ []) (hshort : b.length ≤ FixedHeader.size) :
    deliveredInward first inner received = none := by
  have hrefused (codec : ShippedCodec) : codec.cls.decode received = none := by
    cases hdecode : codec.cls.decode received with
    | none => rfl
    | some payload => exact absurd (decode_longer hreceived hdecode) (Nat.not_lt.mpr hshort)
  induction inner with
  | nil =>
      subst hfirst
      rw [deliveredInward, if_neg (by simp [hreceived.msgSize_ne hne, codec_name]), hrefused]
      rfl
  | cons cls inner ih =>
      obtain ⟨⟨configuration, rfl⟩, hrest⟩ := List.forall_mem_cons.mp hinner
      rw [deliveredInward, if_neg (hreceived.msgSize_ne hne)]
      cases configuration with
      | none =>
          rw [if_pos configured_none_name]
          exact ih hrest
      | some outermost =>
          rw [configured, if_neg (codec_name outermost), hrefused]
          rfl

/-- Behind a codec, a message that unpacks short never reaches the first one. -/
theorem deliveredInward_unpacksShort (hfirst : first = codec.cls)
    (hinner : ∀ cls ∈ inner, ∃ codec, cls = configured codec)
    (htakes : ∃ outermost : ShippedCodec, outermost.cls ∈ inner) (hreceived : received.Holds wire)
    (hne : wire ≠ []) (hshort : UnpacksShort wire) :
    deliveredInward first inner received = none := by
  induction inner with
  | nil =>
      obtain ⟨_, hmem⟩ := htakes
      cases hmem
  | cons cls inner ih =>
      obtain ⟨⟨configuration, rfl⟩, hrest⟩ := List.forall_mem_cons.mp hinner
      rw [deliveredInward, if_neg (hreceived.msgSize_ne hne)]
      cases configuration with
      | none =>
          rw [if_pos configured_none_name]
          obtain ⟨outermost, hmem⟩ := htakes
          exact ih hrest ⟨outermost, (List.mem_cons.mp hmem).resolve_left (codec_ne_none outermost)⟩
      | some outermost =>
          rw [configured, if_neg (codec_name outermost)]
          cases hdecode : outermost.cls.decode received with
          | none => rfl
          | some payload =>
              obtain ⟨c, hc, hcne, hcshort⟩ := hshort outermost received payload hreceived hdecode
              rw [Option.bind_some]
              exact deliveredInward_short hfirst hrest hc hcne hcshort

/-- No codec that takes part lets a message through that unpacks short. -/
theorem delivered_unpacksShort {classes : List (IProtocolInf ShippedHead)}
    (hfirst : first = codec.cls) (hclasses : ∀ cls ∈ classes, ∃ codec, cls = configured codec)
    (htakes : ∃ outermost : ShippedCodec, outermost.cls ∈ classes)
    (hreceived : received.Holds wire) (hne : wire ≠ []) (hshort : UnpacksShort wire) :
    delivered first classes received = none := by
  obtain ⟨outermost, htakes⟩ := htakes
  obtain ⟨last, rest, hmem, hwalk⟩ :=
    delivered_outermost first received (List.ne_nil_of_mem htakes)
  have hrest : ∀ cls ∈ rest, ∃ codec, cls = configured codec :=
    fun cls hcls => hclasses cls ((hmem cls).mpr (Or.inr hcls))
  obtain ⟨configuration, rfl⟩ := hclasses last ((hmem last).mpr (Or.inl rfl))
  rw [hwalk]
  cases configuration with
  | none =>
      have hbehind : outermost.cls ∈ rest :=
        ((hmem _).mp htakes).resolve_left (codec_ne_none outermost)
      obtain ⟨payload, hdecode, hpayload⟩ :=
        IProtocolInf.decode_base ShippedHead.initial hreceived hne
      rw [configured, hdecode, Option.bind_some]
      exact deliveredInward_unpacksShort hfirst hrest ⟨outermost, hbehind⟩ hpayload hne hshort
  | some last =>
      rw [configured]
      cases hdecode : last.cls.decode received with
      | none => rfl
      | some payload =>
          obtain ⟨c, hc, hcne, hcshort⟩ := hshort last received payload hreceived hdecode
          rw [Option.bind_some]
          exact deliveredInward_short hfirst hrest hc hcne hcshort

theorem unpacksShort_frame (order : ByteOrder) (msgId : UInt32) (c : UInt8) :
    UnpacksShort (FixedHeader.frame order msgId [c]) := by
  intro codec received payload hreceived hdecode
  have hlen : (FixedHeader.frame order msgId [c]).length = FixedHeader.size + 1 := by
    rw [FixedHeader.length_frame, List.length_singleton]
  obtain huniversal | ⟨order', hfixed⟩ := universal_or_fixed codec
  · rw [huniversal] at hdecode
    obtain ⟨hlong, -⟩ := decode_universal hreceived hdecode
    rw [hlen] at hlong
    exact absurd hlong (by decide)
  · obtain ⟨c', hc', hne, hshort, -⟩ := hfixed.decode_shortens hreceived hdecode
    refine ⟨c', hc', hne, ?_⟩
    have hpos : 1 ≤ FixedHeader.size := by decide
    omega

/-- To a fixed-header codec the message id of a command is a payload length. -/
theorem payloadLength_universal (order : ByteOrder) {cmd : UniversalCmd}
    (hmsgId : cmd.header.msgId = 0xFFFFFFFF) (rest : Bytes) :
    FixedHeader.payloadLength order (cmd.frame now msg fromApp ++ rest) = 0xFFFFFFFF := by
  have hid : (cmd.frameHeader now msg.length fromApp).msgId = 0xFFFFFFFF := hmsgId
  have hfield : Lib.field (cmd.frame now msg fromApp ++ rest) 4 4 =
      Lib.littleEndian 4 (0xFFFFFFFF : UInt32).toNat := by
    rw [UniversalCmd.frame, List.append_assoc, List.append_assoc, UniversalHeader.encode, hid]
    exact Lib.field_layout (i := 2) _ rfl
  rw [FixedHeader.payloadLength, FixedHeader.decode, hfield]
  change (UInt32.ofNat (order.value (Lib.littleEndian 4 (0xFFFFFFFF : UInt32).toNat))).toNat = _
  cases order <;> decide

/-- With the largest message id a command with one byte of payload unpacks short: to a fixed-header
codec it declares more than it is long. -/
theorem unpacksShort_universal {cmd : UniversalCmd} {c : UInt8}
    (h : UniversalCmd.Packable cmd [c] fromApp) (hmsgId : cmd.header.msgId = 0xFFFFFFFF) :
    UnpacksShort (cmd.frame now [c] fromApp) := by
  intro codec received payload hreceived hdecode
  obtain huniversal | ⟨order, hfixed⟩ := universal_or_fixed codec
  · rw [huniversal] at hdecode
    obtain ⟨payload', hdecode', hpayload⟩ := decode_universal_of_carries hreceived
      (List.cons_ne_nil c []) (UniversalCmd.carriesPayload_frame h)
    obtain rfl : payload' = payload := Option.some.inj (hdecode'.symm.trans hdecode)
    exact ⟨[c], hpayload, List.cons_ne_nil c [], by rw [List.length_singleton]; decide⟩
  · obtain ⟨c', -, -, hshort, hlength⟩ := hfixed.decode_shortens hreceived hdecode
    rw [payloadLength_universal order hmsgId] at hlength
    rw [UniversalCmd.length_frame, List.length_singleton, UniversalHeader.size] at hshort
    have hpath := h.pathSize
    omega

/-- A codec that takes a message also takes, with members that can be set, a byte that unpacks
short. -/
theorem exists_unpacksShort (hnamed : fromApp ≠ []) (hpath : fromApp.length ≤ 65510)
    (hcls : e.cls = codec.cls) (hround : e.RoundTripsOn now pvd fromApp msg wire)
    (hne : msg ≠ []) :
    ∃ head wire', ({ cls := e.cls, head := head } : ChainElement ShippedHead).RoundTripsOn now pvd
        fromApp [0x41] wire' ∧ wire'.length ≤ wire.length ∧ UnpacksShort wire' := by
  have hpos := List.length_pos_iff.mpr hne
  obtain huniversal | ⟨order, hfixed⟩ := universal_or_fixed codec
  · rw [huniversal] at hcls
    obtain ⟨hpackable, rfl⟩ := universal_roundTripsOn_eq hcls hnamed hpath hround
    let head : ShippedHead :=
      { e.head with universal := e.head.universal.setMsgId 0xFFFFFFFF }
    have hpackable' : UniversalCmd.Packable head.universal [0x41] fromApp :=
      { flag := hpackable.flag
        state := hpackable.state
        msgId := (by decide : (0xFFFFFFFF : UInt32) ≠ 0)
        named := hnamed
        pathSize := hpath
        msgSize := by decide }
    refine ⟨head, _, universal_roundTripsOn_frame (e := { cls := e.cls, head := head }) hcls now pvd
      (by decide) hpackable', ?_, unpacksShort_universal hpackable' rfl⟩
    rw [UniversalCmd.length_frame, UniversalCmd.length_frame, List.length_singleton]
    omega
  · rw [← hcls] at hfixed
    obtain ⟨-, -, rfl⟩ := hfixed.roundTripsOn_eq hround
    have hsame : ({ cls := e.cls, head := e.head } : ChainElement ShippedHead) = e := rfl
    refine ⟨e.head, _, hsame ▸ hfixed.roundTripsOn_frame now pvd fromApp (by decide) (by decide),
      ?_, unpacksShort_frame order e.head.fixed.msgId 0x41⟩
    rw [FixedHeader.length_frame, FixedHeader.length_frame, List.length_singleton]
    omega

/-- Where a codec stands behind the first one, a chain that accepts something accepts and loses a
payload of one byte. -/
theorem lost_behind_codec (hnamed : fromApp ≠ []) (hpath : fromApp.length ≤ 65510)
    (hcls : e.cls = codec.cls) (hclasses : ∀ e' ∈ outer, ∃ codec, e'.cls = configured codec)
    (htakes : ∃ outermost : ShippedCodec, outermost.cls ∈ outer.map ChainElement.cls)
    (hne : msg ≠ []) (haccepts : Accepts now pvd fromApp (e :: outer) msg) :
    ∃ head, Accepts now pvd fromApp ({ cls := e.cls, head := head } :: outer) [0x41] ∧
      ¬RoundTrips now pvd fromApp ({ cls := e.cls, head := head } :: outer) [0x41] := by
  obtain ⟨wire, hround, houter⟩ := haccepts
  obtain ⟨head, wire', hround', hle, hshort⟩ := exists_unpacksShort hnamed hpath hcls hround hne
  have hne' := wire_ne_nil (e := { cls := e.cls, head := head }) ⟨some codec, hcls⟩ hround'
  have houter' := accepts_shorter hnamed hpath hclasses houter hne' hle
  refine ⟨head, ⟨wire', hround', houter'⟩, ?_⟩
  intro hreturns
  obtain ⟨segment, hsegment, -, hiff⟩ := roundTrips_iff_delivered hround' houter'
  obtain ⟨-, hdelivered⟩ := hiff.mp hreturns
  have hconfigured : ∀ cls ∈ outer.map ChainElement.cls, ∃ codec, cls = configured codec := by
    intro cls hmem
    obtain ⟨e', he', rfl⟩ := List.mem_map.mp hmem
    exact hclasses e' he'
  have hlost := delivered_unpacksShort hcls hconfigured htakes hsegment hne' hshort
  rw [hlost] at hdelivered
  cases hdelivered

/-- The chain gives back every payload that its elements accept, whatever their members are, when
and over which transport it is sent, and from whom. -/
def GivesBack (classes : List (IProtocolInf ShippedHead)) : Prop :=
  ∀ now pvd fromApp (elements : List (ChainElement ShippedHead)) msg,
    elements.map ChainElement.cls = classes → Accepts now pvd fromApp elements msg →
      RoundTrips now pvd fromApp elements msg

/-- The chain accepts some payload with bytes, under a path that the header size can express. -/
def TakesSome (classes : List (IProtocolInf ShippedHead)) : Prop :=
  ∃ now pvd fromApp, ∃ (elements : List (ChainElement ShippedHead)) (msg : Bytes),
    elements.map ChainElement.cls = classes ∧ fromApp ≠ [] ∧ fromApp.length ≤ 65510 ∧
      msg ≠ [] ∧ Accepts now pvd fromApp elements msg

/-- Among configured codecs it is the `none` elements that take no part. -/
theorem noOuter_configured_iff {codec : Option ShippedCodec} {codecs : List (Option ShippedCodec)} :
    NoOuterTakesPart (configured codec) (codecs.map configured) ↔
      codecs = [] ∨ (codec ≠ none ∧ ∀ outermost ∈ codecs, outermost = none) := by
  have hname : (configured codec).name ≠ IProtocolInf.defaultName ↔ codec ≠ none := by
    cases codec with
    | none => simp [configured_none_name]
    | some codec => simp [configured, codec_name]
  have hbase (c : Option ShippedCodec) :
      (∃ fresh, configured c = IProtocolInf.base fresh) ↔ c = none := by
    cases c with
    | none => exact ⟨fun _ => rfl, fun _ => ⟨_, rfl⟩⟩
    | some c =>
        constructor
        · rintro ⟨fresh, hcls⟩
          exact absurd (congrArg IProtocolInf.name hcls) (codec_name c)
        · intro h
          cases h
  rw [NoOuterTakesPart, hname, List.map_eq_nil_iff, List.forall_mem_map]
  simp only [hbase]

/-- A chain of configured codecs gives back what it accepts if no outer codec takes part. -/
theorem givesBack_of_noOuter {codec : Option ShippedCodec} {codecs : List (Option ShippedCodec)}
    (h : NoOuterTakesPart (configured codec) (codecs.map configured)) :
    GivesBack ((codec :: codecs).map configured) := by
  intro now pvd fromApp elements msg hclasses haccepts
  obtain ⟨e, outer, rfl, hcls, houterClasses⟩ := List.map_eq_cons_iff.mp hclasses
  obtain ⟨wire, hround, houter⟩ := haccepts
  rw [← hcls, ← houterClasses] at h
  exact roundTrips_of_noOuter hround (wire_ne_nil ⟨codec, hcls⟩ hround) houter h

/-- Otherwise some payload that it accepts is lost, if it accepts any with bytes. -/
theorem noOuter_of_givesBack {codec : Option ShippedCodec} {codecs : List (Option ShippedCodec)}
    (hsome : TakesSome ((codec :: codecs).map configured))
    (h : GivesBack ((codec :: codecs).map configured)) :
    NoOuterTakesPart (configured codec) (codecs.map configured) := by
  obtain ⟨now, pvd, fromApp, elements, msg, hclasses, hnamed, hpath, hne, haccepts⟩ := hsome
  obtain ⟨e, outer, rfl, hcls, houterClasses⟩ := List.map_eq_cons_iff.mp hclasses
  obtain ⟨wire, hround, houter⟩ := haccepts
  rw [noOuter_configured_iff]
  by_cases hsingle : codecs = []
  · exact Or.inl hsingle
  · have hheard : codec ≠ none := by
      rintro rfl
      have hreturns := h now pvd fromApp (e :: outer) msg hclasses ⟨wire, hround, houter⟩
      obtain ⟨segment, -, -, hiff⟩ := roundTrips_iff_delivered hround houter
      obtain ⟨-, hdelivered⟩ := hiff.mp hreturns
      rw [hcls, houterClasses] at hdelivered
      exact hne (delivered_unheard configured_none_name (by simpa using hsingle) hdelivered)
    obtain ⟨first, rfl⟩ := Option.ne_none_iff_exists'.mp hheard
    refine Or.inr ⟨hheard, ?_⟩
    intro outermost hmem
    cases outermost with
    | none => rfl
    | some outermost =>
        have hconfigured : ∀ e' ∈ outer, ∃ codec, e'.cls = configured codec := by
          intro e' he'
          have hin : e'.cls ∈ codecs.map configured := houterClasses ▸ List.mem_map_of_mem he'
          obtain ⟨codec, -, hcodec⟩ := List.mem_map.mp hin
          exact ⟨codec, hcodec.symm⟩
        have htakes : outermost.cls ∈ outer.map ChainElement.cls := by
          rw [houterClasses]
          exact List.mem_map_of_mem (f := configured) hmem
        obtain ⟨head, haccepts, hlost⟩ := lost_behind_codec hnamed hpath hcls hconfigured
          ⟨outermost, htakes⟩ hne ⟨wire, hround, houter⟩
        exact absurd
          (h now pvd fromApp ({ cls := e.cls, head := head } :: outer) [0x41] hclasses haccepts)
          hlost

/-- When a message comes back through a chain. A chain of any codecs gives it back if the first
segment is not empty and no outer codec takes part; a chain of shipped codecs and `none` elements
gives back all it accepts only then. Message by message: chains of fixed-header codecs need to
have one element, chains of command codecs need that or a message that is empty or carries
itself. -/
theorem roundTrips_iff (now : UInt64) (pvd : ProviderType) (fromApp msg : Bytes) :
    (∀ (Head : Type) (wire : Bytes) (e : ChainElement Head) (outer : List (ChainElement Head)),
      e.RoundTripsOn now pvd fromApp msg wire → wire ≠ [] → Accepts now pvd fromApp outer wire →
        NoOuterTakesPart e.cls (outer.map ChainElement.cls) →
          RoundTrips now pvd fromApp (e :: outer) msg) ∧
    (∀ (codec : Option ShippedCodec) (codecs : List (Option ShippedCodec)),
      TakesSome ((codec :: codecs).map configured) →
        (GivesBack ((codec :: codecs).map configured) ↔
          codecs = [] ∨ (codec ≠ none ∧ ∀ outermost ∈ codecs, outermost = none))) ∧
    (∀ (e : ChainElement ShippedHead) (outer : List (ChainElement ShippedHead)),
      (∀ e' ∈ e :: outer, ∃ order, FixedClass e'.cls order) →
        Accepts now pvd fromApp (e :: outer) msg →
          (RoundTrips now pvd fromApp (e :: outer) msg ↔ outer = [])) ∧
    ∀ (e : ChainElement ShippedHead) (outer : List (ChainElement ShippedHead)),
      (∀ e' ∈ e :: outer, e'.cls = CPUniversalCMD) →
        Accepts now pvd fromApp (e :: outer) msg →
          (RoundTrips now pvd fromApp (e :: outer) msg ↔
            outer = [] ∨ msg = [] ∨ UniversalCmd.CarriesItself msg) := by
  refine ⟨?_, ?_, ?_, ?_⟩
  · intro Head wire e outer hround hne houter hno
    exact roundTrips_of_noOuter hround hne houter hno
  · intro codec codecs hsome
    rw [← noOuter_configured_iff]
    exact ⟨noOuter_of_givesBack hsome, givesBack_of_noOuter⟩
  · intro e outer hfixed haccepts
    exact fixedHeader_roundTrips_iff hfixed haccepts
  · intro e outer huniversal haccepts
    exact universal_roundTrips_iff huniversal haccepts

/-- A new `CPBigEndian` object. -/
def bigEndianElement : ChainElement ShippedHead := ChainElement.ofClass CPBigEndian

/-- A `CPUniversalCMD` object with its three mandatory members set. -/
def commandElement : ChainElement ShippedHead :=
  { cls := CPUniversalCMD
    head := { ShippedHead.initial with
      universal := ((UniversalCmd.cleared.setFlag 1).setState 2).setMsgId 3 } }

theorem bigEndianElement_accepts (hne : msg ≠ [])
    (hshort : msg.length < FixedHeader.segmentByteSize) :
    bigEndianElement.RoundTripsOn 0 .transTCP fromApp msg (FixedHeader.frame .big 0 msg) :=
  FixedClass.roundTripsOn_frame (e := bigEndianElement) (Or.inl ⟨rfl, rfl⟩) 0 .transTCP fromApp hne
    hshort

theorem commandElement_accepts (hne : msg ≠ []) (hshort : msg.length < 2 ^ 32) :
    commandElement.RoundTripsOn 0 .transTCP [0x61] msg
      (commandElement.head.universal.frame 0 msg [0x61]) := by
  refine universal_roundTripsOn_frame rfl 0 .transTCP hne ?_
  exact
    { flag := by decide
      state := by decide
      msgId := by decide
      named := by decide
      pathSize := by decide
      msgSize := hshort }

/-- A byte comes back through one codec. A command that is packed once more does not, whatever
codec packs it. -/
theorem singleElement_roundTrips :
    RoundTrips 0 .transTCP [] [bigEndianElement] [0x41] ∧
      GivesBack ([some .universalCMD].map configured) ∧
      ¬GivesBack ([some .universalCMD, some .bigEndian].map configured) ∧
      ¬RoundTrips 0 .transTCP [] [bigEndianElement, bigEndianElement] [0x41] ∧
      ¬RoundTrips 0 .transTCP [0x61] [commandElement, commandElement] [0x41] := by
  obtain ⟨hany, hshipped, hfixed, -⟩ := roundTrips_iff 0 .transTCP [] [0x41]
  obtain ⟨-, -, -, huniversal⟩ := roundTrips_iff 0 .transTCP [0x61] [0x41]
  have hbyte : bigEndianElement.RoundTripsOn 0 .transTCP [] [0x41]
      (FixedHeader.frame .big 0 [0x41]) := bigEndianElement_accepts (by decide) (by decide)
  have hcommand : commandElement.RoundTripsOn 0 .transTCP [0x61] [0x41]
      (commandElement.head.universal.frame 0 [0x41] [0x61]) :=
    commandElement_accepts (by decide) (by decide)
  have hlen : (commandElement.head.universal.frame 0 [0x41] [0x61]).length = 27 := by
    rw [UniversalCmd.length_frame]
    rfl
  have hne : commandElement.head.universal.frame 0 [0x41] [0x61] ≠ [] :=
    List.ne_nil_of_length_pos (by rw [hlen]; decide)
  refine ⟨?_, ?_, ?_, ?_, ?_⟩
  · exact hany _ _ _ [] hbyte (by decide) trivial (Or.inl rfl)
  · refine (hshipped (some .universalCMD) [] ?_).mpr (Or.inl rfl)
    exact ⟨0, .transTCP, [0x61], [commandElement], [0x41], rfl, by decide, by decide, by decide,
      _, hcommand, trivial⟩
  · intro hback
    have hsome : TakesSome ([some .universalCMD, some .bigEndian].map configured) :=
      ⟨0, .transTCP, [0x61], [commandElement, bigEndianElement], [0x41], rfl, by decide,
        by decide, by decide, _, hcommand, _,
        bigEndianElement_accepts hne (by rw [hlen]; decide), trivial⟩
    rcases (hshipped _ _ hsome).mp hback with hnone | ⟨-, hnone⟩
    · cases hnone
    · cases hnone _ List.mem_cons_self
  · intro hback
    have hframe : bigEndianElement.RoundTripsOn 0 .transTCP [] (FixedHeader.frame .big 0 [0x41])
        (FixedHeader.frame .big 0 (FixedHeader.frame .big 0 [0x41])) :=
      bigEndianElement_accepts (by decide) (by decide)
    have hclasses : ∀ e' ∈ [bigEndianElement, bigEndianElement],
        ∃ order, FixedClass e'.cls order := by
      intro e' he'
      obtain rfl : e' = bigEndianElement := by simpa using he'
      exact ⟨.big, Or.inl ⟨rfl, rfl⟩⟩
    cases (hfixed _ _ hclasses ⟨_, hbyte, _, hframe, trivial⟩).mp hback
  · intro hback
    have houter := commandElement_accepts hne (by rw [hlen]; decide)
    have hclasses : ∀ e' ∈ [commandElement, commandElement], e'.cls = CPUniversalCMD := by
      intro e' he'
      obtain rfl : e' = commandElement := by simpa using he'
      rfl
    rcases (huniversal _ _ hclasses ⟨_, hcommand, _, houter, trivial⟩).mp hback with
      hnone | hempty | hitself
    · cases hnone
    · cases hempty
    · exact absurd hitself (by decide)

/-- Behind a second `CPBigEndian` a byte is lost, although both codecs accept what they get. -/
theorem bigEndian_twice_fails :
    Accepts 0 .transTCP [] [bigEndianElement, bigEndianElement] [0x41] ∧
      ¬RoundTrips 0 .transTCP [] [bigEndianElement, bigEndianElement] [0x41] := by
  have hbyte : bigEndianElement.RoundTripsOn 0 .transTCP [] [0x41]
      (FixedHeader.frame .big 0 [0x41]) := bigEndianElement_accepts (by decide) (by decide)
  have hframe : bigEndianElement.RoundTripsOn 0 .transTCP [] (FixedHeader.frame .big 0 [0x41])
      (FixedHeader.frame .big 0 (FixedHeader.frame .big 0 [0x41])) :=
    bigEndianElement_accepts (by decide) (by decide)
  have haccepts : Accepts 0 .transTCP [] [bigEndianElement, bigEndianElement] [0x41] :=
    ⟨_, hbyte, _, hframe, trivial⟩
  refine ⟨haccepts, ?_⟩
  intro hback
  have hclasses : ∀ e' ∈ [bigEndianElement, bigEndianElement],
      ∃ order, FixedClass e'.cls order := by
    intro e' he'
    obtain rfl : e' = bigEndianElement := by simpa using he'
    exact ⟨.big, Or.inl ⟨rfl, rfl⟩⟩
  cases (fixedHeader_roundTrips_iff hclasses haccepts).mp hback

end ProtoChain

end CommonCommunicator
