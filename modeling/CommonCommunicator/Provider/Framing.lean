import CommonCommunicator.Protocol.MessageJob
import CommonCommunicator.Provider.TcpRead

/-!
# Framing on a TCP stream

A sender writes one segment per payload; the receiver gets the concatenated
bytes in chunks that the network chooses. The receiver takes a message to end
at the first read that does not fill its buffer, and the shipped codecs take
every message to be a single frame. The payloads therefore arrive as sent
exactly when the short reads fall on the frame ends.
-/

namespace CommonCommunicator

open Lib TcpRead

namespace ShippedCodec

/-- An object of the class packs `p` into one segment, whose bytes are `seg`. -/
def PacksInto (codec : ShippedCodec) (p seg : Bytes) : Prop :=
  ∃ head now pvd fromApp head' segment,
    codec.cls.pack head now p pvd fromApp = .ok (true, head', [segment]) ∧
      segment.content = seg

/-- The run of the receiving side on a stream that arrives in `chunks`. -/
def receiverRun (config : CConfigProtocols ShippedHead) (updater : Bool)
    (appPath pvdPath readBuf : Bytes) (chunks : List Bytes) :
    List JobEvent × Outcome (CConfigProtocols ShippedHead) :=
  runRoutin config updater (receiveBuffers appPath pvdPath readBuf chunks)

/-- The message callback is called once for each payload, in order and with this payload, and
the receive job of every buffer returns. -/
def DeliversAll (config : CConfigProtocols ShippedHead) (updater : Bool)
    (appPath pvdPath readBuf : Bytes) (chunks payloads : List Bytes) : Prop :=
  (JobEvent.callbacks (receiverRun config updater appPath pvdPath readBuf chunks).1).map
      MessageCallback.payload = payloads ∧
    ∃ config', (receiverRun config updater appPath pvdPath readBuf chunks).2 = .ok config'

/-- Where the stream has to be cut: for a fixed-header codec behind each segment; for the command
codec so that each part carries its payload where the header at its own start says. -/
def Framed : ShippedCodec → (cuts segs payloads : List Bytes) → Prop
  | bigEndian, cuts, segs, _ => cuts = segs
  | littleEndian, cuts, segs, _ => cuts = segs
  | universalCMD, cuts, _, payloads => List.Forall₂ UniversalCmd.CarriesPayload cuts payloads

private theorem payloads_iff {codec : ShippedCodec} {queue : List CRawMessage}
    {cuts payloads : List Bytes}
    (hqueue : List.Forall₂ (fun msgRaw cut => CRawMessage.Holds msgRaw cut ∧ cut ≠ []) queue cuts) :
    ((codec.deliveries queue).map MessageCallback.payload = payloads ∧
      ∀ msgRaw ∈ queue, codec.decodeOne msgRaw.content ≠ none) ↔
      List.Forall₂ (fun cut p => ∃ owner, codec.decodeOne cut = some (owner, p)) cuts payloads := by
  induction hqueue generalizing payloads with
  | nil =>
      cases payloads with
      | nil => simp [deliveries]
      | cons p payloads => simp [deliveries]
  | @cons msgRaw cut queue cuts hhead _ ih =>
      rw [deliveries, List.forall_mem_cons, hhead.1.content_eq]
      cases hdecode : codec.decodeOne cut with
      | none =>
          cases payloads with
          | nil => simp
          | cons p payloads => simp [hdecode]
      | some decoded =>
          obtain ⟨owner, p'⟩ := decoded
          cases payloads with
          | nil => simp
          | cons p payloads =>
              rw [List.forall₂_cons, ← ih, hdecode]
              simp [callbackOf, and_assoc]

/-- The payloads arrive when each part of the stream decodes to its payload. -/
theorem deliversAll_iff_decodes {codec : ShippedCodec} {config : CConfigProtocols ShippedHead}
    (hc : codec.Configured config) (updater : Bool) (appPath pvdPath readBuf : Bytes)
    {chunks payloads : List Bytes}
    (hchunks : ∀ c ∈ chunks, 0 < c.length ∧ c.length ≤ readBufsize) :
    DeliversAll config updater appPath pvdPath readBuf chunks payloads ↔
      List.Forall₂ (fun cut p => ∃ owner, codec.decodeOne cut = some (owner, p))
        (cutAtShort readBufsize chunks) payloads := by
  have hcuts := receiveBuffers_cuts appPath pvdPath readBuf hchunks
  have hqueue : ∀ msgRaw ∈ receiveBuffers appPath pvdPath readBuf chunks,
      ∃ b, msgRaw.Holds b ∧ b ≠ [] := by
    intro msgRaw hmem
    exact forall₂_partner hcuts msgRaw hmem
  rw [DeliversAll, receiverRun, runRoutin_callbacks hc updater hqueue,
    runRoutin_ends_iff hc updater hqueue, payloads_iff hcuts]

/-- A segment of a fixed-header codec is the frame of its payload. -/
theorem packsInto_fixed {codec : ShippedCodec} {order : ByteOrder}
    (hcodec : codec.order? = some order) {p seg : Bytes} (h : codec.PacksInto p seg) :
    p ≠ [] ∧ p.length < FixedHeader.segmentByteSize ∧
      ∃ msgId, seg = FixedHeader.frame order msgId p := by
  obtain ⟨head, now, pvd, fromApp, head', segment, hpack, rfl⟩ := h
  obtain ⟨res, fixed, hsingle⟩ : ∃ res fixed,
      FixedHeader.pack order head.fixed p pvd = .ok (res, fixed, [segment]) := by
    rw [pack_fixed hcodec] at hpack
    obtain ⟨⟨res, fixed, segments⟩, hpack', hrest⟩ := map_eq_ok.mp hpack
    cases hrest
    exact ⟨true, fixed, hpack'⟩
  obtain ⟨hne, hshort, hholds⟩ := FixedHeader.pack_single hsingle
  exact ⟨hne, hshort, head.fixed.msgId, hholds.content_eq⟩

/-- Every short payload is packed into its frame by some object of the class. -/
theorem packsInto_frame {codec : ShippedCodec} {order : ByteOrder}
    (hcodec : codec.order? = some order) (msgId : UInt32) {p : Bytes} (hne : p ≠ [])
    (hshort : p.length < FixedHeader.segmentByteSize) :
    codec.PacksInto p (FixedHeader.frame order msgId p) := by
  obtain ⟨segment, hpack, hholds⟩ :=
    FixedHeader.pack_short order { msgId := msgId, length := 0 } .transTCP hne hshort
  refine ⟨{ ShippedHead.initial with fixed := { msgId := msgId, length := 0 } }, 0, .transTCP, [],
    { ShippedHead.initial with
      fixed := { msgId := msgId, length := UInt32.ofNat p.length } }, segment, ?_,
    hholds.content_eq⟩
  rw [pack_fixed hcodec, hpack]
  rfl

/-- Every packable command payload is packed into its frame. -/
theorem packsInto_universal {cmd : UniversalCmd} {p path : Bytes} (now : UInt64)
    (h : cmd.Packable p path) : universalCMD.PacksInto p (cmd.frame now p path) := by
  obtain ⟨segment, hpack, hholds⟩ := UniversalCmd.pack_of_packable h now
  refine ⟨{ ShippedHead.initial with universal := cmd }, now, .transTCP, path,
    { ShippedHead.initial with
      universal := { header := cmd.frameHeader now p.length path, mFrom := path } }, segment, ?_,
    hholds.content_eq⟩
  simp [cls, CPUniversalCMD, IProtocolInf.zoom, UniversalCmd.codec, hpack]

/-- A stream of command frames that is cut at the frames is cut as it has to be. -/
theorem framed_of_frames {payloads segs : List Bytes}
    (h : List.Forall₂ (fun p seg => ∃ cmd now path, UniversalCmd.Packable cmd p path ∧
      seg = cmd.frame now p path) payloads segs) : universalCMD.Framed segs segs payloads := by
  apply h.flip.imp
  rintro seg p ⟨cmd, now, path, hpackable, rfl⟩
  exact UniversalCmd.carriesPayload_frame hpackable

/-- A frame decodes to its payload. -/
theorem decodeOne_frame {codec : ShippedCodec} {order : ByteOrder}
    (hcodec : codec.order? = some order) (msgId : UInt32) {p : Bytes} (hne : p ≠ [])
    (hshort : p.length < FixedHeader.segmentByteSize) :
    codec.decodeOne (FixedHeader.frame order msgId p) = some ([], p) := by
  have hlen := FixedHeader.payloadLength_frame order msgId hshort []
  have hfield := FixedHeader.field_frame order msgId p []
  rw [List.append_nil] at hlen hfield
  have hacc : FixedHeader.Accepts order (FixedHeader.frame order msgId p)
      (FixedHeader.frame order msgId p).length := by
    rw [FixedHeader.Accepts, hlen, FixedHeader.length_frame]
    exact ⟨List.length_pos_iff.mpr hne, Nat.le_refl _⟩
  rw [decodeOne_fixed hcodec, if_pos hacc, hlen, hfield]

/-- A part that decodes to a payload is nowhere shorter than the payload's segment. -/
private theorem length_seg_le {codec : ShippedCodec} {order : ByteOrder}
    (hcodec : codec.order? = some order) {cut p seg : Bytes}
    (hdecode : ∃ owner, codec.decodeOne cut = some (owner, p)) (hpack : codec.PacksInto p seg) :
    seg.length ≤ cut.length := by
  obtain ⟨owner, hdecode⟩ := hdecode
  obtain ⟨-, -, msgId, rfl⟩ := packsInto_fixed hcodec hpack
  rw [decodeOne_fixed hcodec] at hdecode
  by_cases hacc : FixedHeader.Accepts order cut cut.length
  · rw [if_pos hacc] at hdecode
    obtain ⟨-, rfl⟩ : [] = owner ∧ field cut FixedHeader.size _ = p := by simpa using hdecode
    rw [FixedHeader.length_frame, length_field hacc.2]
    exact hacc.2
  · rw [if_neg hacc] at hdecode
    cases hdecode

private theorem decodes_iff_fixed {codec : ShippedCodec} {order : ByteOrder}
    (hcodec : codec.order? = some order) {cuts segs payloads : List Bytes}
    (hpack : List.Forall₂ codec.PacksInto payloads segs) (hflat : cuts.flatten = segs.flatten) :
    List.Forall₂ (fun cut p => ∃ owner, codec.decodeOne cut = some (owner, p)) cuts payloads ↔
      cuts = segs := by
  constructor
  · intro hdecodes
    apply eq_of_flatten_eq _ hflat
    refine (forall₂_comp hdecodes hpack).imp ?_
    rintro cut seg ⟨p, hdecode, hpacks⟩
    exact length_seg_le hcodec hdecode hpacks
  · rintro rfl
    apply hpack.flip.imp
    intro seg p hpacks
    obtain ⟨hne, hshort, msgId, rfl⟩ := packsInto_fixed hcodec hpacks
    exact ⟨[], decodeOne_frame hcodec msgId hne hshort⟩

/-- Payloads that were packed into one segment each arrive as sent exactly when the reads cut the
stream at the frames. -/
theorem deliversAll_iff {codec : ShippedCodec} {config : CConfigProtocols ShippedHead}
    (hc : codec.Configured config) (updater : Bool) (appPath pvdPath readBuf : Bytes)
    {payloads segs chunks : List Bytes} (hpayloads : ∀ p ∈ payloads, p ≠ [])
    (hpack : List.Forall₂ codec.PacksInto payloads segs)
    (hchunks : ∀ c ∈ chunks, 0 < c.length ∧ c.length ≤ readBufsize)
    (hstream : chunks.flatten = segs.flatten) :
    DeliversAll config updater appPath pvdPath readBuf chunks payloads ↔
      codec.Framed (cutAtShort readBufsize chunks) segs payloads := by
  have hflat : (cutAtShort readBufsize chunks).flatten = segs.flatten := by
    rw [flatten_cutAtShort, hstream]
  rw [deliversAll_iff_decodes hc updater appPath pvdPath readBuf hchunks]
  cases codec with
  | bigEndian => exact decodes_iff_fixed rfl hpack hflat
  | littleEndian => exact decodes_iff_fixed rfl hpack hflat
  | universalCMD =>
      apply forall₂_congr_right
      intro p hp cut
      exact decodeOne_universal_iff (hpayloads p hp)

/-- Two payloads of one byte. -/
def twoPayloads : List Bytes := [[0x41], [0x42]]

/-- Their big-endian segments, with message ids 1 and 2. -/
def twoSegments : List Bytes :=
  [FixedHeader.frame .big 1 [0x41], FixedHeader.frame .big 2 [0x42]]

theorem twoPayloads_packed : List.Forall₂ bigEndian.PacksInto twoPayloads twoSegments :=
  .cons (packsInto_frame rfl 1 (by decide) (by decide))
    (.cons (packsInto_frame rfl 2 (by decide) (by decide)) .nil)

/-- Read one by one, the two segments arrive as two payloads. -/
theorem deliversAll_one_by_one :
    DeliversAll bigEndianConfig true [] [0x70] [] twoSegments twoPayloads :=
  (deliversAll_iff bigEndianConfig_configured true [] [0x70] [] (by decide) twoPayloads_packed
    (by decide) rfl).mpr (by decide : cutAtShort readBufsize twoSegments = twoSegments)

/-- Read at once, they do not: the second payload is lost. -/
theorem joined_segments_not_delivered :
    (∀ p ∈ twoPayloads, p ≠ []) ∧ List.Forall₂ bigEndian.PacksInto twoPayloads twoSegments ∧
      (∀ c ∈ [twoSegments.flatten], 0 < c.length ∧ c.length ≤ readBufsize) ∧
      [twoSegments.flatten].flatten = twoSegments.flatten ∧
      ¬DeliversAll bigEndianConfig true [] [0x70] [] [twoSegments.flatten] twoPayloads := by
  refine ⟨by decide, twoPayloads_packed, by decide, by simp, ?_⟩
  intro hdelivers
  have hdecodes := (deliversAll_iff_decodes bigEndianConfig_configured true [] [0x70] []
    (by decide)).mp hdelivers
  have hlen := hdecodes.length_eq
  revert hlen
  decide

end ShippedCodec

end CommonCommunicator
