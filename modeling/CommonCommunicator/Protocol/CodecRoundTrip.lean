import CommonCommunicator.Protocol.ChainRoundTrip
import CommonCommunicator.Protocol.Shipped

/-!
# Round trips through one kind of codec

What the fixed-header codecs and the command codec pack, what they unpack, and
which messages come back through a chain of fixed-header codecs or of command
codecs. Every codec takes its own header away, so behind a second one the first
finds a message without a header, unless the payload looks like one.
-/

namespace CommonCommunicator

namespace UniversalCmd

variable {cmd : UniversalCmd} {now : UInt64} {msg path : Bytes}

/-- What `pack` returns for is packable, if the header size can express the path. -/
theorem packable_of_pack {r : Bool × UniversalCmd × List CRawMessage} (hnamed : path ≠ [])
    (hpath : path.length ≤ 65510) (h : cmd.pack now msg path = .ok r) :
    Packable cmd msg path := by
  have hset : (((cmd.setWhen now).setFrom path).setLength msg.length).setHeaderSize =
      { header := cmd.frameHeader now msg.length path, mFrom := path } := by
    simp [setWhen, setFrom, setLength, setHeaderSize, frameHeader, hnamed]
  rw [pack] at h
  simp only [if_pos hnamed, hset] at h
  obtain ⟨_, hraw, -⟩ := bind_eq_ok.mp h
  obtain ⟨_, -, hraw⟩ := bind_eq_ok.mp hraw
  obtain ⟨_, hflag, hraw⟩ := bind_eq_ok.mp hraw
  obtain ⟨_, hstate, hraw⟩ := bind_eq_ok.mp hraw
  obtain ⟨_, hmsgId, hraw⟩ := bind_eq_ok.mp hraw
  obtain ⟨_, hlength, -⟩ := bind_eq_ok.mp hraw
  have hsize : (UInt32.ofNat msg.length).toNat = msg.length := assertThat_eq_ok.mp hlength
  exact
    { flag := assertThat_eq_ok.mp hflag
      state := assertThat_eq_ok.mp hstate
      msgId := assertThat_eq_ok.mp hmsgId
      named := hnamed
      pathSize := hpath
      msgSize := hsize ▸ UInt32.toNat_lt _ }

/-- The message reads as a command without a header, whose payload is all of it. -/
def CarriesItself (s : Bytes) : Prop :=
  UniversalHeader.size < s.length ∧ headerSize s = 0 ∧ payloadSize s = s.length

instance (s : Bytes) : Decidable (CarriesItself s) := inferInstanceAs (Decidable (_ ∧ _ ∧ _))

/-- A payload as long as the message that carries it is that message. -/
theorem carriesItself_of_le {s p : Bytes} (h : CarriesPayload s p) (hle : s.length ≤ p.length) :
    s = p ∧ CarriesItself p := by
  obtain ⟨hlong, hsize, hinside, hfield⟩ := h
  have hzero : headerSize s = 0 := by omega
  have hlen : p.length = s.length := by omega
  obtain rfl : s = p := by
    rw [← hfield, hzero, hlen]
    simp [Lib.field]
  exact ⟨rfl, hlong, hzero, hsize⟩

theorem CarriesItself.carriesPayload {s : Bytes} (h : CarriesItself s) : CarriesPayload s s := by
  obtain ⟨hlong, hzero, hsize⟩ := h
  refine ⟨hlong, hsize, by omega, ?_⟩
  rw [hzero]
  simp [Lib.field]

end UniversalCmd

namespace ProtoChain

variable {now : UInt64} {pvd : ProviderType} {fromApp b msg wire : Bytes}
  {e : ChainElement ShippedHead} {cls first : IProtocolInf ShippedHead}
  {inner : List (IProtocolInf ShippedHead)} {outer : List (ChainElement ShippedHead)}
  {received payload : CRawMessage} {order : ByteOrder}

section FixedHeader

/-- The class of a shipped fixed-header codec. -/
def FixedClass (cls : IProtocolInf ShippedHead) (order : ByteOrder) : Prop :=
  (cls = CPBigEndian ∧ order = .big) ∨ (cls = CPLittleEndian ∧ order = .little)

theorem FixedClass.name_ne (h : FixedClass cls order) : cls.name ≠ IProtocolInf.defaultName := by
  rcases h with ⟨rfl, rfl⟩ | ⟨rfl, rfl⟩ <;> decide

/-- The class is that of a shipped codec with this wire order. -/
theorem FixedClass.codec (h : FixedClass cls order) :
    ∃ codec : ShippedCodec, codec.order? = some order ∧ cls = codec.cls := by
  obtain ⟨rfl, rfl⟩ | ⟨rfl, rfl⟩ := h
  · exact ⟨.bigEndian, rfl, rfl⟩
  · exact ⟨.littleEndian, rfl, rfl⟩

private theorem FixedClass.unpack_eq (h : FixedClass cls order) (mem : Bytes) (n : Nat) :
    (Protocol.create cls).unpack mem n =
      (FixedHeader.unpack order CRawMessage.init mem n >>= fun r =>
        .ok (r.1, { Protocol.create cls with
          head := { (Protocol.create cls).head with fixed := r.2.1 }, payload := r.2.2 })) := by
  obtain ⟨codec, hcodec, rfl⟩ := h.codec
  rw [Protocol.unpack, Protocol.create_cls, ShippedCodec.unpack_fixed hcodec,
    Protocol.create_payload]
  cases FixedHeader.unpack order CRawMessage.init mem n with
  | error f => rfl
  | ok r => rfl

private theorem view_length (h : received.Holds b) :
    received.msgSize ≤ (received.getMsgReadOnly.getD []).length := by
  by_cases hnil : b = []
  · rw [h.size, hnil]
    exact Nat.zero_le _
  · rw [h.size, h.getMsgReadOnly_eq hnil]
    simp

/-- Unpacking takes the header away, and more if the declared length says so. -/
theorem FixedClass.decode_shortens (h : FixedClass cls order) (hreceived : received.Holds b)
    (hdecode : cls.decode received = some payload) :
    ∃ c, payload.Holds c ∧ c ≠ [] ∧ c.length + FixedHeader.size ≤ b.length ∧
      c.length = FixedHeader.payloadLength order (b ++ [0]) := by
  obtain ⟨p, hunpack, rfl⟩ := IProtocolInf.decode_eq_some hdecode
  rw [h.unpack_eq] at hunpack
  have hview := view_length hreceived
  by_cases hacc : FixedHeader.Accepts order (received.getMsgReadOnly.getD []) received.msgSize
  · obtain ⟨stored, hstored, hholds⟩ := FixedHeader.unpack_of_accepts
      (CRawMessage.init_holds CRawMessage.defCapSize) hview hacc
    rw [hstored] at hunpack
    obtain rfl : _ = p := by simpa using hunpack
    obtain ⟨hpos, hfit⟩ := hacc
    have hlen := Lib.length_field (hfit.trans hview)
    have hne : b ≠ [] := by
      rintro rfl
      rw [hreceived.size, List.length_nil] at hfit
      omega
    rw [hreceived.getMsgReadOnly_eq hne, Option.getD_some] at hlen hholds hpos hfit
    refine ⟨_, hholds, List.ne_nil_of_length_pos (by omega), ?_, hlen⟩
    rw [hlen, ← hreceived.size]
    omega
  · rw [FixedHeader.unpack_of_not_accepts _ hview hacc] at hunpack
    cases hunpack

/-- What a fixed-header codec packs into one segment is short, and the segment is its frame. -/
theorem FixedClass.roundTripsOn_eq (h : FixedClass e.cls order)
    (hround : e.RoundTripsOn now pvd fromApp msg wire) :
    msg ≠ [] ∧ msg.length < FixedHeader.segmentByteSize ∧
      wire = FixedHeader.frame order e.head.fixed.msgId msg := by
  obtain ⟨head, segment, hpack, hsegment, -⟩ := hround
  obtain ⟨codec, hcodec, hcls⟩ := h.codec
  rw [hcls, ShippedCodec.pack_fixed hcodec] at hpack
  cases hfixed : FixedHeader.pack order e.head.fixed msg pvd with
  | error f =>
      rw [hfixed] at hpack
      cases hpack
  | ok r =>
      obtain ⟨res, fixed, segments⟩ := r
      rw [hfixed] at hpack
      obtain ⟨-, -, rfl⟩ : res = true ∧ _ ∧ segments = [segment] := by
        simpa [Except.map] using hpack
      obtain ⟨hne, hshort, hholds⟩ := FixedHeader.pack_single hfixed
      exact ⟨hne, hshort, hsegment.content_eq.symm.trans hholds.content_eq⟩

/-- A short message round-trips through one fixed-header codec. -/
theorem FixedClass.roundTripsOn_frame (h : FixedClass e.cls order) (now : UInt64)
    (pvd : ProviderType) (fromApp : Bytes) (hne : msg ≠ [])
    (hshort : msg.length < FixedHeader.segmentByteSize) :
    e.RoundTripsOn now pvd fromApp msg (FixedHeader.frame order e.head.fixed.msgId msg) := by
  obtain ⟨codec, hcodec, hcls⟩ := h.codec
  obtain ⟨segment, hpack, hholds⟩ :=
    FixedHeader.pack_short order e.head.fixed pvd hne hshort
  obtain ⟨payload, hunpack, hpayload⟩ := FixedHeader.unpack_frame order
    e.head.fixed.msgId (CRawMessage.init_holds CRawMessage.defCapSize) hne hshort [] [0]
  rw [List.nil_append, List.append_nil] at hunpack
  have hframe : FixedHeader.frame order e.head.fixed.msgId msg ≠ [] := by
    simp [FixedHeader.frame, hne]
  have hpacked : e.cls.pack e.head now msg pvd fromApp = .ok (true,
      { e.head with fixed := { msgId := e.head.fixed.msgId, length := UInt32.ofNat msg.length } },
      [segment]) := by
    rw [hcls, ShippedCodec.pack_fixed hcodec, hpack]
    rfl
  refine ⟨_, segment, hpacked, hholds, ?_⟩
  rw [IProtocolInf.decode, hholds.getMsgReadOnly_eq hframe, Option.getD_some, hholds.size,
    h.unpack_eq, hunpack]
  simp [hpayload.content_eq]

/-- Through fixed-header codecs alone a message only gets shorter. -/
private theorem deliveredInward_shortens (hfirst : ∃ order, FixedClass first order)
    (hinner : ∀ cls ∈ inner, ∃ order, FixedClass cls order) (hreceived : received.Holds b)
    (hne : b ≠ []) (h : deliveredInward first inner received = some msg) :
    msg.length + FixedHeader.size ≤ b.length := by
  induction inner generalizing received b with
  | nil =>
      obtain ⟨order, hfixed⟩ := hfirst
      rw [deliveredInward, if_neg (by simp [hreceived.msgSize_ne hne, hfixed.name_ne])] at h
      obtain ⟨payload, hdecode, rfl⟩ := Option.map_eq_some_iff.mp h
      obtain ⟨c, hc, -, hshort, -⟩ := hfixed.decode_shortens hreceived hdecode
      rw [hc.content_eq]
      exact hshort
  | cons cls inner ih =>
      obtain ⟨⟨order, hfixed⟩, hrest⟩ := List.forall_mem_cons.mp hinner
      rw [deliveredInward, if_neg (hreceived.msgSize_ne hne), if_neg hfixed.name_ne] at h
      obtain ⟨payload, hdecode, hinward⟩ := Option.bind_eq_some_iff.mp h
      obtain ⟨c, hc, hcne, hshort, -⟩ := hfixed.decode_shortens hreceived hdecode
      have hle := ih hrest hc hcne hinward
      omega

/-- A chain of fixed-header codecs gives a message back only if it has one element. -/
theorem fixedHeader_roundTrips_iff
    (hfixed : ∀ e' ∈ e :: outer, ∃ order, FixedClass e'.cls order)
    (haccepts : Accepts now pvd fromApp (e :: outer) msg) :
    RoundTrips now pvd fromApp (e :: outer) msg ↔ outer = [] := by
  obtain ⟨wire, hround, houter⟩ := haccepts
  obtain ⟨⟨order, hfirst⟩, houterClass⟩ := List.forall_mem_cons.mp hfixed
  obtain ⟨hne, -, hwire⟩ := hfirst.roundTripsOn_eq hround
  have hlen : wire.length = FixedHeader.size + msg.length := by
    rw [hwire, FixedHeader.length_frame]
  have hpos : 0 < FixedHeader.size := by decide
  have hwne : wire ≠ [] := List.ne_nil_of_length_pos (by omega)
  constructor
  · intro hreturns
    by_contra hbehind
    have hne' : outer.map ChainElement.cls ≠ [] := by simpa using hbehind
    obtain ⟨segment, hsegment, -, hiff⟩ := roundTrips_iff_delivered hround houter
    obtain ⟨-, hdelivered⟩ := hiff.mp hreturns
    obtain ⟨last, rest, hmem, hwalk⟩ := delivered_outermost e.cls segment hne'
    have hclass : ∀ cls, cls = last ∨ cls ∈ rest → ∃ order, FixedClass cls order := by
      intro cls hcls
      obtain ⟨e', he', rfl⟩ := List.mem_map.mp ((hmem cls).mpr hcls)
      exact houterClass e' he'
    obtain ⟨order', hlast⟩ := hclass last (Or.inl rfl)
    rw [hwalk] at hdelivered
    obtain ⟨payload, hdecode, hinward⟩ := Option.bind_eq_some_iff.mp hdelivered
    obtain ⟨c, hc, hcne, hshort, -⟩ := hlast.decode_shortens hsegment hdecode
    have hle := deliveredInward_shortens ⟨order, hfirst⟩ (fun cls hcls => hclass cls (Or.inr hcls))
      hc hcne hinward
    omega
  · rintro rfl
    exact roundTrips_of_noOuter hround hwne houter (Or.inl rfl)

end FixedHeader

section Universal

private theorem universal_unpack_eq (mem : Bytes) (n : Nat) :
    (Protocol.create CPUniversalCMD).unpack mem n =
      (UniversalCmd.cleared.unpack CRawMessage.init mem n >>= fun r =>
        .ok (r.1, { Protocol.create CPUniversalCMD with
          head := { ShippedHead.initial with universal := r.2.1 }, payload := r.2.2 })) := by
  rw [Protocol.unpack, Protocol.create_cls, CPUniversalCMD, IProtocolInf.unpack_zoom,
    Protocol.create_payload]
  change ((UniversalCmd.cleared.unpack CRawMessage.init mem n).map _ >>= _) = _
  cases UniversalCmd.cleared.unpack CRawMessage.init mem n with
  | error f => rfl
  | ok r => rfl

/-- `CPUniversalCMD` takes a message that is longer than a header, and the payload that it stores,
if any, is the one that the message carries. -/
theorem decode_universal (hreceived : received.Holds b)
    (h : CPUniversalCMD.decode received = some payload) :
    UniversalHeader.size < b.length ∧
      ∃ c, payload.Holds c ∧ (c = [] ∨ UniversalCmd.CarriesPayload b c) := by
  obtain ⟨p, hunpack, rfl⟩ := IProtocolInf.decode_eq_some h
  rw [universal_unpack_eq] at hunpack
  obtain ⟨⟨res, cmd, stored⟩, hstored, hp⟩ := bind_eq_ok.mp hunpack
  obtain ⟨rfl, rfl⟩ : res = true ∧ _ = p := by simpa using hp
  have hinit := CRawMessage.init_holds CRawMessage.defCapSize
  obtain ⟨hsize, -, -, hholds, hsame⟩ := UniversalCmd.unpack_eq_ok hinit hstored
  rw [hreceived.size] at hsize hstored
  have hne : b ≠ [] := List.ne_nil_of_length_pos (by omega)
  rw [hreceived.getMsgReadOnly_eq hne, Option.getD_some] at hholds hsame hstored
  refine ⟨hsize, ?_⟩
  by_cases hpos : 0 < UniversalCmd.payloadSize (b ++ [0])
  · obtain ⟨hread, hpayload⟩ := hholds hpos
    have hcne : Lib.field (b ++ [0]) (UniversalCmd.headerSize (b ++ [0]))
        (UniversalCmd.payloadSize (b ++ [0])) ≠ [] :=
      List.ne_nil_of_length_pos (by rw [Lib.length_field hread]; exact hpos)
    refine ⟨_, hpayload, Or.inr ?_⟩
    exact (UniversalCmd.unpack_received_iff UniversalCmd.cleared hinit hcne).mp
      ⟨cmd, stored, hstored, hpayload.content_eq⟩
  · refine ⟨[], ?_, Or.inl rfl⟩
    change stored.Holds []
    rw [hsame (by omega)]
    exact hinit

/-- A carried payload is stored. -/
theorem decode_universal_of_carries (hreceived : received.Holds b) (hne : msg ≠ [])
    (h : UniversalCmd.CarriesPayload b msg) :
    ∃ payload, CPUniversalCMD.decode received = some payload ∧ payload.Holds msg := by
  have hinit := CRawMessage.init_holds CRawMessage.defCapSize
  obtain ⟨cmd, stored, hstored, hcontent⟩ :=
    (UniversalCmd.unpack_received_iff UniversalCmd.cleared hinit hne).mpr h
  have hbne : b ≠ [] := by
    obtain ⟨hlong, -⟩ := h
    exact List.ne_nil_of_length_pos (by omega)
  have hdecode : CPUniversalCMD.decode received = some stored := by
    rw [IProtocolInf.decode, hreceived.getMsgReadOnly_eq hbne, hreceived.size, Option.getD_some,
      universal_unpack_eq, hstored]
    rfl
  obtain ⟨-, c, hholds, -⟩ := decode_universal hreceived hdecode
  obtain rfl : c = msg := hholds.content_eq.symm.trans hcontent
  exact ⟨stored, hdecode, hholds⟩

/-- What the command codec packs under a path that its header can express. -/
theorem universal_roundTripsOn_eq (hcls : e.cls = CPUniversalCMD) (hnamed : fromApp ≠ [])
    (hpath : fromApp.length ≤ 65510) (hround : e.RoundTripsOn now pvd fromApp msg wire) :
    UniversalCmd.Packable e.head.universal msg fromApp ∧
      wire = e.head.universal.frame now msg fromApp := by
  obtain ⟨head, segment, hpack, hsegment, -⟩ := hround
  rw [hcls, CPUniversalCMD, IProtocolInf.pack_zoom] at hpack
  change (e.head.universal.pack now msg fromApp).map _ = _ at hpack
  cases huniversal : e.head.universal.pack now msg fromApp with
  | error f =>
      rw [huniversal] at hpack
      cases hpack
  | ok r =>
      have hpackable := UniversalCmd.packable_of_pack hnamed hpath huniversal
      obtain ⟨framed, hframed, hholds⟩ := UniversalCmd.pack_of_packable hpackable now
      rw [hframed] at hpack
      obtain ⟨-, rfl⟩ : _ ∧ framed = segment := by simpa [Except.map] using hpack
      exact ⟨hpackable, hsegment.content_eq.symm.trans hholds.content_eq⟩

/-- A packable message round-trips through the command codec. -/
theorem universal_roundTripsOn_frame (hcls : e.cls = CPUniversalCMD) (now : UInt64)
    (pvd : ProviderType) (hne : msg ≠ [])
    (h : UniversalCmd.Packable e.head.universal msg fromApp) :
    e.RoundTripsOn now pvd fromApp msg (e.head.universal.frame now msg fromApp) := by
  obtain ⟨segment, hpack, hholds⟩ := UniversalCmd.pack_of_packable h now
  obtain ⟨payload, hdecode, hpayload⟩ := decode_universal_of_carries hholds hne
    (UniversalCmd.carriesPayload_frame h)
  have hpacked : e.cls.pack e.head now msg pvd fromApp = .ok (true,
      { e.head with universal :=
        { header := e.head.universal.frameHeader now msg.length fromApp, mFrom := fromApp } },
      [segment]) := by
    rw [hcls, CPUniversalCMD, IProtocolInf.pack_zoom]
    change (e.head.universal.pack now msg fromApp).map _ = _
    rw [hpack]
    rfl
  refine ⟨_, segment, hpacked, hholds, ?_⟩
  rw [hcls, hdecode, Option.map_some, hpayload.content_eq]

private theorem universal_name : CPUniversalCMD.name ≠ IProtocolInf.defaultName := by decide

/-- Command codecs deliver no more than the bytes before them, and as many only if these carry
themselves. -/
private theorem carriesItself_of_delivered (hinner : ∀ cls ∈ inner, cls = CPUniversalCMD)
    (hreceived : received.Holds b) (hne : msg ≠ []) (hle : b.length ≤ msg.length)
    (h : deliveredInward CPUniversalCMD inner received = some msg) :
    b = msg ∧ UniversalCmd.CarriesItself msg := by
  induction inner generalizing received b with
  | nil =>
      have hfull := hreceived.msgSize_ne (received_ne_nil hreceived hne h)
      rw [deliveredInward, if_neg (by simp [hfull, universal_name])] at h
      obtain ⟨payload, hdecode, rfl⟩ := Option.map_eq_some_iff.mp h
      obtain ⟨-, c, hc, hcarries⟩ := decode_universal hreceived hdecode
      rw [hc.content_eq] at hne hle ⊢
      exact UniversalCmd.carriesItself_of_le (hcarries.resolve_left hne) hle
  | cons cls inner ih =>
      obtain ⟨rfl, hrest⟩ := List.forall_mem_cons.mp hinner
      have hfull := hreceived.msgSize_ne (received_ne_nil hreceived hne h)
      rw [deliveredInward, if_neg hfull, if_neg universal_name] at h
      obtain ⟨payload, hdecode, hinward⟩ := Option.bind_eq_some_iff.mp h
      obtain ⟨-, c, hc, hcarries⟩ := decode_universal hreceived hdecode
      have hcarries := hcarries.resolve_left (received_ne_nil hc hne hinward)
      have hinside : c.length ≤ b.length := (Nat.le_add_left _ _).trans hcarries.2.2.1
      obtain ⟨rfl, hitself⟩ := ih hrest hc (hinside.trans hle) hinward
      exact ⟨(UniversalCmd.carriesItself_of_le hcarries hle).1, hitself⟩

/-- Command codecs behind each other hand on what carries itself. -/
private theorem delivered_of_carriesItself (hinner : ∀ cls ∈ inner, cls = CPUniversalCMD)
    (hreceived : received.Holds msg) (h : UniversalCmd.CarriesItself msg) :
    deliveredInward CPUniversalCMD inner received = some msg := by
  have hne : msg ≠ [] := List.ne_nil_of_length_pos (Nat.zero_lt_of_lt h.1)
  have hfull := hreceived.msgSize_ne hne
  obtain ⟨payload, hdecode, hpayload⟩ :=
    decode_universal_of_carries hreceived hne h.carriesPayload
  induction inner generalizing received payload with
  | nil =>
      rw [deliveredInward, if_neg (by simp [hfull, universal_name]), hdecode, Option.map_some,
        hpayload.content_eq]
  | cons cls inner ih =>
      obtain ⟨rfl, hrest⟩ := List.forall_mem_cons.mp hinner
      obtain ⟨payload', hdecode', hpayload'⟩ :=
        decode_universal_of_carries hpayload hne h.carriesPayload
      rw [deliveredInward, if_neg hfull, if_neg universal_name, hdecode, Option.bind_some]
      exact ih hrest hpayload (hpayload.msgSize_ne hne) payload' hdecode' hpayload'

/-- A chain of command codecs gives a message back exactly if it has one element, or the message
is empty, or the message carries itself. -/
theorem universal_roundTrips_iff (huniversal : ∀ e' ∈ e :: outer, e'.cls = CPUniversalCMD)
    (haccepts : Accepts now pvd fromApp (e :: outer) msg) :
    RoundTrips now pvd fromApp (e :: outer) msg ↔
      outer = [] ∨ msg = [] ∨ UniversalCmd.CarriesItself msg := by
  obtain ⟨wire, hround, houter⟩ := haccepts
  obtain ⟨hfirst, houterClass⟩ := List.forall_mem_cons.mp huniversal
  obtain ⟨segment, hsegment, hdecode, hiff⟩ := roundTrips_iff_delivered hround houter
  rw [hfirst] at hdecode hiff
  obtain ⟨payload, hpayload, hcontent⟩ := Option.map_eq_some_iff.mp hdecode
  obtain ⟨hlong, c, hc, -⟩ := decode_universal hsegment hpayload
  obtain rfl : c = msg := hc.content_eq.symm.trans hcontent
  have hwne : wire ≠ [] := List.ne_nil_of_length_pos (Nat.zero_lt_of_lt hlong)
  rw [hiff]
  by_cases hsingle : outer = []
  · subst hsingle
    simp [hsegment.msgSize_ne hwne, hdecode, delivered]
  · have hbehind : outer.map ChainElement.cls ≠ [] := by simpa using hsingle
    obtain ⟨last, rest, hmem, hwalk⟩ := delivered_outermost CPUniversalCMD segment hbehind
    have hclass : ∀ cls, cls = last ∨ cls ∈ rest → cls = CPUniversalCMD := by
      intro cls hcls
      obtain ⟨e', he', rfl⟩ := List.mem_map.mp ((hmem cls).mpr hcls)
      exact houterClass e' he'
    obtain rfl := hclass last (Or.inl rfl)
    have hrest : ∀ cls ∈ rest, cls = CPUniversalCMD := fun cls hcls => hclass cls (Or.inr hcls)
    have hinward : deliveredInward CPUniversalCMD rest payload = some c ↔
        c = [] ∨ UniversalCmd.CarriesItself c := by
      constructor
      · intro hdelivered
        by_cases hempty : c = []
        · exact Or.inl hempty
        · exact Or.inr (carriesItself_of_delivered hrest hc hempty (Nat.le_refl _) hdelivered).2
      · rintro (rfl | hitself)
        · exact deliveredInward_empty hc.size
        · exact delivered_of_carriesItself hrest hc hitself
    simp [hsingle, hsegment.msgSize_ne hwne, hwalk, hpayload, hinward]

end Universal

end ProtoChain

end CommonCommunicator
