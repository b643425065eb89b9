import CommonCommunicator.Protocol.UniversalCmd

/-!
# The segment of a command

`pack` allocates its segment for the payload and the header size, which has gone
through a 16-bit field; the copy function that fills the segment takes the path
of the sender as it is. The two agree as long as the header size fits its field.
-/

namespace CommonCommunicator

open Lib

namespace UniversalCmd

/-- The writes of the copy function, each an offset and a number of bytes. -/
def hookWrites (cmd : UniversalCmd) : List (Nat × Nat) :=
  (0, UniversalHeader.size) ::
    ((if cmd.header.isFrom ≠ 0 then [(UniversalHeader.size, cmd.mFrom.length + 1)] else []) ++
      if 0 < cmd.header.payloadSize.toNat then
        [(cmd.header.hsize.toNat, cmd.header.payloadSize.toNat)] else [])

/-- All writes lie inside the first `n` bytes. -/
def WritesInside (cmd : UniversalCmd) (n : Nat) : Prop := ∀ w ∈ cmd.hookWrites, w.1 + w.2 ≤ n

/-- The command when `pack` has made it ready for a message of `msgSize` bytes. -/
def packing (cmd : UniversalCmd) (now : UInt64) (msgSize : Nat) (path : Bytes) : UniversalCmd :=
  { header := cmd.frameHeader now msgSize path, mFrom := path }

/-- The size with which `pack` allocates its segment. -/
def rawSize (cmd : UniversalCmd) (now : UInt64) (msgSize : Nat) (path : Bytes) : Nat :=
  msgSize + (cmd.packing now msgSize path).header.hsize.toNat

/-- The copy function writes only inside the segment, and the header on the wire has the size of
the header and the path. -/
structure PacksInside (cmd : UniversalCmd) (now : UInt64) (msg path : Bytes) : Prop where
  inside : (cmd.packing now msg.length path).WritesInside (cmd.rawSize now msg.length path)
  onWire : ∃ segment, cmd.pack now msg path =
      .ok (true, cmd.packing now msg.length path, [segment]) ∧
    headerSize segment.content = UniversalHeader.size + (path.length + 1)

theorem writesInside_iff {cmd : UniversalCmd} {n : Nat} : cmd.WritesInside n ↔
    UniversalHeader.size ≤ n ∧
      (cmd.header.isFrom ≠ 0 → UniversalHeader.size + (cmd.mFrom.length + 1) ≤ n) ∧
      (0 < cmd.header.payloadSize.toNat →
        cmd.header.hsize.toNat + cmd.header.payloadSize.toNat ≤ n) := by
  rw [WritesInside, hookWrites]
  split_ifs <;> simp_all

theorem copyFrom_eq_ok {cmd : UniversalCmd} {rawData rawData' : Bytes}
    (h : cmd.copyFrom rawData = .ok rawData') :
    (cmd.header.isFrom ≠ 0 → UniversalHeader.size + (cmd.mFrom.length + 1) ≤ rawData.length) ∧
      rawData'.length = rawData.length := by
  rw [copyFrom] at h
  split at h
  · obtain ⟨hfits, rfl⟩ := writeBytes_eq_ok.mp h
    have hlength := length_overwrite hfits
    rw [List.length_append, List.length_singleton] at hfits
    exact ⟨fun _ => hfits, hlength⟩
  · next hnone =>
      cases h
      exact ⟨fun hsome => absurd hsome hnone, rfl⟩

theorem copyFrom_returns {cmd : UniversalCmd} {rawData : Bytes}
    (h : cmd.header.isFrom ≠ 0 → UniversalHeader.size + (cmd.mFrom.length + 1) ≤ rawData.length) :
    ∃ rawData', cmd.copyFrom rawData = .ok rawData' := by
  rw [copyFrom]
  split
  · next hsome =>
      have hfits := h hsome
      exact ⟨_, writeBytes_of_le (by rwa [List.length_append, List.length_singleton])⟩
  · exact ⟨_, rfl⟩

theorem copyPayload_eq_ok {cmd : UniversalCmd} {msg rawData rawData' : Bytes}
    (h : cmd.copyPayload msg rawData = .ok rawData') :
    0 < cmd.header.payloadSize.toNat →
      cmd.header.hsize.toNat + cmd.header.payloadSize.toNat ≤ rawData.length := by
  intro hpos
  rw [copyPayload, if_pos hpos] at h
  obtain ⟨srcBuf, hread, hwrite⟩ := bind_eq_ok.mp h
  obtain ⟨hmsg, rfl⟩ := readBytes_eq_ok.mp hread
  have hfits := (writeBytes_eq_ok.mp hwrite).1
  rwa [length_field hmsg] at hfits

theorem copyPayload_returns {cmd : UniversalCmd} {msg rawData : Bytes}
    (hmsg : cmd.header.payloadSize.toNat = msg.length)
    (h : 0 < cmd.header.payloadSize.toNat →
      cmd.header.hsize.toNat + cmd.header.payloadSize.toNat ≤ rawData.length) :
    ∃ rawData', cmd.copyPayload msg rawData = .ok rawData' := by
  rw [copyPayload]
  split
  · next hpos =>
      have hread : 0 + cmd.header.payloadSize.toNat ≤ msg.length := by omega
      rw [readBytes_of_le hread, ok_bind]
      exact ⟨_, writeBytes_of_le (by rw [length_field hread]; exact h hpos)⟩
  · exact ⟨_, rfl⟩

/-- The copy function returns on a block exactly if its writes lie inside the block. -/
theorem copyHook_returns_iff {cmd : UniversalCmd} {msg data : Bytes}
    (hmsg : cmd.header.payloadSize.toNat = msg.length) :
    (∃ res, cmd.copyHook msg (some data) = .ok res) ↔ cmd.WritesInside data.length := by
  rw [writesInside_iff]
  constructor
  · rintro ⟨res, h⟩
    obtain ⟨headed, hhead, h⟩ := bind_eq_ok.mp h
    obtain ⟨named, hfrom, h⟩ := bind_eq_ok.mp h
    obtain ⟨filled, hpayload, -⟩ := bind_eq_ok.mp h
    obtain ⟨hfits, rfl⟩ := writeBytes_eq_ok.mp hhead
    obtain ⟨hpath, hlength⟩ := copyFrom_eq_ok hfrom
    have hbody := copyPayload_eq_ok hpayload
    rw [hlength, length_overwrite hfits] at hbody
    rw [length_overwrite hfits] at hpath
    rw [UniversalHeader.length_encode, Nat.zero_add] at hfits
    exact ⟨hfits, hpath, hbody⟩
  · rintro ⟨hhead, hpath, hbody⟩
    have hfits : 0 + cmd.header.encode.length ≤ data.length := by
      rwa [UniversalHeader.length_encode, Nat.zero_add]
    rw [← length_overwrite hfits] at hpath hbody
    obtain ⟨named, hfrom⟩ := copyFrom_returns hpath
    rw [← (copyFrom_eq_ok hfrom).2] at hbody
    obtain ⟨filled, hpayload⟩ := copyPayload_returns hmsg hbody
    exact ⟨(true, some filled), by
      rw [copyHook, writeBytes_of_le hfits, ok_bind, hfrom, ok_bind, hpayload]; rfl⟩

variable {cmd : UniversalCmd} {msg path : Bytes}

theorem packing_hsize (cmd : UniversalCmd) (now : UInt64) (msgSize : Nat) (path : Bytes) :
    (cmd.packing now msgSize path).header.hsize.toNat =
      (UniversalHeader.size + (path.length + 1)) % 2 ^ 16 := by
  rw [packing, frameHeader, UInt16.toNat_add, UInt16.toNat_ofNat', UInt16.toNat_ofNat',
    UniversalHeader.size]
  omega

theorem packing_payloadSize (cmd : UniversalCmd) (now : UInt64) {msgSize : Nat} (path : Bytes)
    (hmsg : msgSize < 2 ^ 32) :
    (cmd.packing now msgSize path).header.payloadSize.toNat = msgSize := by
  rw [packing, frameHeader, UInt32.toNat_ofNat_of_lt' hmsg]

/-- The writes for a message: the bytes from the start to the end of the path, and the payload
behind the header size. -/
theorem packing_writesInside_iff (cmd : UniversalCmd) (now : UInt64) {msgSize : Nat}
    (path : Bytes) (hmsg : msgSize < 2 ^ 32) (n : Nat) :
    (cmd.packing now msgSize path).WritesInside n ↔
      UniversalHeader.size + (path.length + 1) ≤ n ∧
        (0 < msgSize → cmd.rawSize now msgSize path ≤ n) := by
  rw [writesInside_iff, packing_payloadSize cmd now path hmsg, rawSize]
  have hfrom : (cmd.packing now msgSize path).header.isFrom ≠ 0 := (by decide : (1 : UInt8) ≠ 0)
  have hpath : (cmd.packing now msgSize path).mFrom = path := rfl
  rw [hpath, Nat.add_comm msgSize]
  constructor
  · rintro ⟨-, hnamed, hbody⟩
    exact ⟨hnamed hfrom, hbody⟩
  · rintro ⟨hnamed, hbody⟩
    exact ⟨by omega, fun _ => hnamed, hbody⟩

/-- The block of the segment, with its byte for the NUL behind the message, takes the writes
exactly if the payload makes up for what the header size has lost. -/
theorem blockWrites_inside_iff (cmd : UniversalCmd) (now : UInt64) {msgSize : Nat} (path : Bytes)
    (hmsg : msgSize < 2 ^ 32) :
    (cmd.packing now msgSize path).WritesInside (cmd.rawSize now msgSize path + 1) ↔
      2 ^ 16 * ((UniversalHeader.size + (path.length + 1)) / 2 ^ 16) ≤ msgSize + 1 := by
  rw [packing_writesInside_iff cmd now path hmsg, rawSize, packing_hsize]
  omega

/-- Every write outside a block leaves the defined behaviour. -/
theorem copyHook_undefined {data : Bytes} (hmsg : cmd.header.payloadSize.toNat = msg.length)
    (houtside : ¬cmd.WritesInside data.length) :
    cmd.copyHook msg (some data) = .error .undefined := by
  have hwrite : ∀ (mem src : Bytes) (off : Nat), writeBytes mem off src = .error .undefined ∨
      ∃ mem', writeBytes mem off src = .ok mem' := by
    intro mem src off
    by_cases hfits : off + src.length ≤ mem.length
    · exact .inr ⟨_, writeBytes_of_le hfits⟩
    · exact .inl (by simp [writeBytes, definedIf, hfits])
  have hnot : ∀ res, cmd.copyHook msg (some data) ≠ .ok res := fun res hres =>
    houtside ((copyHook_returns_iff hmsg).mp ⟨res, hres⟩)
  rw [copyHook] at hnot ⊢
  obtain hhead | ⟨headed, hhead⟩ := hwrite data cmd.header.encode 0
  · rw [hhead]
    rfl
  rw [hhead, ok_bind] at hnot ⊢
  obtain hfrom | ⟨named, hfrom⟩ : cmd.copyFrom headed = .error .undefined ∨
      ∃ named, cmd.copyFrom headed = .ok named := by
    rw [copyFrom]
    split
    · exact hwrite _ _ _
    · exact .inr ⟨_, rfl⟩
  · rw [hfrom]
    rfl
  rw [hfrom, ok_bind] at hnot ⊢
  obtain hpayload | ⟨filled, hpayload⟩ : cmd.copyPayload msg named = .error .undefined ∨
      ∃ filled, cmd.copyPayload msg named = .ok filled := by
    rw [copyPayload]
    split
    · rw [readBytes_of_le (by omega), ok_bind]
      exact hwrite _ _ _
    · exact .inr ⟨_, rfl⟩
  · rw [hpayload]
    rfl
  rw [hpayload, ok_bind] at hnot
  exact absurd rfl (hnot _)

theorem pack_packing (cmd : UniversalCmd) (now : UInt64) (msg : Bytes) (hnamed : path ≠ []) :
    cmd.pack now msg path = (do
      let rawSize := cmd.rawSize now msg.length path
      let cmd := cmd.packing now msg.length path
      let (res, oneSegment) ← cmd.packRawData msg (CRawMessage.init rawSize) rawSize
      assertThat (res = true)
      return (true, cmd, [oneSegment])) := by
  have hset : (((cmd.setWhen now).setFrom path).setLength msg.length).setHeaderSize =
      cmd.packing now msg.length path := by
    simp [setWhen, setFrom, setLength, setHeaderSize, packing, frameHeader, hnamed]
  simp only [pack, if_pos hnamed, hset, rawSize]

/-- Where the payload does not make up for the lost part of the header size, `pack` writes behind
its segment. -/
theorem pack_overflows (now : UInt64) (hflag : cmd.header.flag ≠ 0)
    (hstate : cmd.header.state ≠ 0) (hmsgId : cmd.header.msgId ≠ 0) (hnamed : path ≠ [])
    (hmsg : msg.length < 2 ^ 32) (hsome : 0 < cmd.rawSize now msg.length path)
    (hlost : msg.length + 1 <
      2 ^ 16 * ((UniversalHeader.size + (path.length + 1)) / 2 ^ 16)) :
    cmd.pack now msg path = .error .undefined := by
  have hraw : cmd.rawSize now msg.length path < 2 ^ 32 + 2 ^ 16 := by
    have hlt := (cmd.packing now msg.length path).header.hsize.toNat_lt
    rw [rawSize]
    omega
  have hcapa : cmd.rawSize now msg.length path ≠ CRawMessage.defCapSize := by
    rw [CRawMessage.defCapSize]
    omega
  have hpayload := packing_payloadSize cmd now path hmsg
  have hblock : ¬(cmd.packing now msg.length path).WritesInside
      (List.replicate (cmd.rawSize now msg.length path + 1) (0 : UInt8)).length := by
    rw [List.length_replicate, blockWrites_inside_iff cmd now path hmsg]
    omega
  have hhook := copyHook_undefined hpayload hblock
  have hfits : ¬cmd.rawSize now msg.length path + 1 - 1 < cmd.rawSize now msg.length path := by
    omega
  have hle : msg.length + (cmd.packing now msg.length path).header.hsize.toNat ≤
      cmd.rawSize now msg.length path := Nat.le_refl _
  have hflag' : (cmd.packing now msg.length path).header.flag ≠ 0 := hflag
  have hstate' : (cmd.packing now msg.length path).header.state ≠ 0 := hstate
  have hmsgId' : (cmd.packing now msg.length path).header.msgId ≠ 0 := hmsgId
  rw [pack_packing cmd now msg hnamed]
  simp only [packRawData, assertThat_pos hle, assertThat_pos hflag', assertThat_pos hstate',
    assertThat_pos hmsgId', assertThat_pos hpayload, ok_bind, CRawMessage.setMsgHook,
    assertThat_pos hsome, CRawMessage.init, if_neg hcapa, if_true,
    sizeSub_of_le (Nat.le_add_left 1 _), if_neg hfits, pure_eq_ok, hhook, error_bind]
  rfl

/-- A header size that fits its field keeps all writes inside the segment. -/
theorem writesInside_of_fits (cmd : UniversalCmd) (now : UInt64) {msgSize : Nat}
    (hmsg : msgSize < 2 ^ 32) (hpath : UniversalHeader.size + (path.length + 1) < 2 ^ 16) :
    (cmd.packing now msgSize path).WritesInside (cmd.rawSize now msgSize path) := by
  rw [packing_writesInside_iff cmd now path hmsg, rawSize, packing_hsize,
    Nat.mod_eq_of_lt hpath]
  omega

/-- No header size on the wire is larger than its field. -/
theorem headerSize_lt (mem : Bytes) : headerSize mem < 2 ^ 16 :=
  (UniversalHeader.decode mem).hsize.toNat_lt

/-- A command is packed inside its segment exactly if its header size fits the 16-bit field. -/
theorem packsInside_iff (now : UInt64) (hflag : cmd.header.flag ≠ 0) (hstate : cmd.header.state ≠ 0)
    (hmsgId : cmd.header.msgId ≠ 0) (hnamed : path ≠ []) (hmsg : msg.length < 2 ^ 32) :
    cmd.PacksInside now msg path ↔ UniversalHeader.size + (path.length + 1) < 2 ^ 16 := by
  constructor
  · rintro ⟨-, segment, -, hsize⟩
    rw [← hsize]
    exact headerSize_lt segment.content
  · intro hpath
    have hpackable : Packable cmd msg path :=
      { flag := hflag
        state := hstate
        msgId := hmsgId
        named := hnamed
        pathSize := by rw [UniversalHeader.size] at hpath; omega
        msgSize := hmsg }
    obtain ⟨segment, hpack, hholds⟩ := pack_of_packable hpackable now
    refine ⟨writesInside_of_fits cmd now hmsg hpath, segment, hpack, ?_⟩
    have hdecode :
        UniversalHeader.decode segment.content = cmd.frameHeader now msg.length path := by
      rw [hholds.content_eq, frame, List.append_assoc, UniversalHeader.decode_encode_append]
    rw [headerSize, hdecode, frameHeader_hsize hpackable]

/-- A command with the three mandatory fields set. -/
def numbered : UniversalCmd :=
  { header := { cleared.header with flag := 1, state := 1, msgId := 1 }
    mFrom := [] }

/-- The sender `a` packs a byte inside its segment. -/
theorem namedByte_packsInside : numbered.PacksInside 0 [0x41] [0x61] :=
  (packsInside_iff 0 (by decide) (by decide) (by decide) (by decide) (by decide)).mpr (by decide)

/-- A path of 65511 bytes makes the header size 0: the header alone is longer than the segment. -/
theorem longPath_overflows :
    ¬∀ (cmd : UniversalCmd) (now : UInt64) (msg path : Bytes), cmd.header.flag ≠ 0 →
      cmd.header.state ≠ 0 → cmd.header.msgId ≠ 0 → path ≠ [] → msg.length < 2 ^ 32 →
        cmd.PacksInside now msg path := by
  intro hall
  have hnamed : List.replicate 65511 (0x61 : UInt8) ≠ [] :=
    List.ne_nil_of_length_pos (by rw [List.length_replicate]; decide)
  have hinside := (hall numbered 0 [0x41] (List.replicate 65511 0x61) (by decide) (by decide)
    (by decide) hnamed (by decide)).inside
  rw [rawSize, packing_hsize, List.length_replicate] at hinside
  have hheader := hinside (0, UniversalHeader.size) List.mem_cons_self
  revert hheader
  decide

end UniversalCmd

end CommonCommunicator
