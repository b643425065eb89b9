import CommonCommunicator.Protocol.Shipped

/-!
# The receive job

`handle_protocol_chain` queues one job per received buffer: the job creates a
chain, slices the buffer into messages, unpacks each slice, reports the owner
to the peer-alias updater and the message to the application, and frees the
chain. The jobs run in the single worker of the receive pool.
-/

namespace CommonCommunicator

variable {Head : Type}

/-- What the message callback is given: the source of the buffer and what the first element of
the chain holds. -/
structure MessageCallback where
  sourceApp : Bytes
  sourcePvd : Bytes
  owner : Bytes
  payload : Bytes
  deriving DecidableEq, Repr

/-- The calls that a job makes out of the protocol handler. -/
inductive JobEvent
  | updatePeerAlias (fullPath : Bytes)
  | messagePayload (callback : MessageCallback)
  deriving DecidableEq, Repr

namespace JobEvent

def callback? : JobEvent → Option MessageCallback
  | updatePeerAlias _ => none
  | messagePayload callback => some callback

/-- The message callbacks among the calls, in order. -/
def callbacks (events : List JobEvent) : List MessageCallback := events.filterMap callback?

@[simp] theorem callbacks_nil : callbacks [] = [] := rfl

@[simp] theorem callbacks_append (a b : List JobEvent) :
    callbacks (a ++ b) = callbacks a ++ callbacks b := List.filterMap_append

end JobEvent

/-- The result of one job: its calls, the configuration it left, and how it ended. -/
structure JobRun (Head : Type) where
  events : List JobEvent
  config : CConfigProtocols Head
  outcome : Outcome Unit

/-- The calls for one unpacked message. -/
def messageEvents (msgRaw : CRawMessage) (updater : Bool) (protocol : Protocol Head) :
    List JobEvent :=
  (if updater then [.updatePeerAlias protocol.whoIsOwner] else []) ++
    [.messagePayload
      { sourceApp := msgRaw.sourceApp
        sourcePvd := msgRaw.sourcePvd
        owner := protocol.whoIsOwner
        payload := protocol.payload.content }]

/-- The slicing loop on the `dataSize` bytes at the head of `mem`. Every round takes at least one
byte, so as many rounds as there are bytes are enough. -/
def messageLoop (msgRaw : CRawMessage) (updater : Bool) :
    (rounds : Nat) → List (Protocol Head) → (mem : Bytes) → (dataSize : Nat) →
      List JobEvent × Outcome (List (Protocol Head))
  | 0, chain, _, _ => ([], .ok chain)
  | _ + 1, [], _, _ => ([], .error .undefined)
  | rounds + 1, protocol :: rest, mem, dataSize =>
      let msgSize := protocol.cls.getMsgSize protocol.head mem dataSize
      if dataSize = 0 ∨ msgSize = 0 then
        ([], .ok (protocol :: rest))
      else
        match ProtoChain.unpackRecurcive (protocol :: rest) mem msgSize with
        | .error f => ([], .error f)
        | .ok (false, _) => ([], .error .assertion)
        | .ok (true, chain) =>
            let events := (chain.head?.map (messageEvents msgRaw updater)).getD []
            -- the pointer is moved on by `msgSize`, which must stay inside the buffer
            if dataSize < msgSize then
              (events, .error .undefined)
            else
              let (more, res) := messageLoop msgRaw updater rounds (ProtoChain.cleanData chain)
                (mem.drop msgSize) (dataSize - msgSize)
              (events ++ more, res)

/-- The job that `handle_protocol_chain` queues for a buffer. A job that throws leaves its chain
in the map. -/
def messageJob (config : CConfigProtocols Head) (updater : Bool) (msgRaw : CRawMessage) :
    JobRun Head :=
  match msgRaw.getMsgReadOnly with
  | none => { events := [], config := config, outcome := .error .assertion }
  | some data =>
      if msgRaw.msgSize = 0 then
        { events := [], config := config, outcome := .error .assertion }
      else
        match config.createProtocolsChain with
        | .error f => { events := [], config := config, outcome := .error f }
        | .ok (config, chain) =>
            match messageLoop msgRaw updater msgRaw.msgSize chain.elements data msgRaw.msgSize with
            | (events, .error f) => { events := events, config := config, outcome := .error f }
            | (events, .ok _) =>
                { events := events
                  config := config.destroyProtocolsChain chain
                  outcome := .ok () }

/-- The worker of the receive pool on its queued jobs: an exception ends its loop, an abort the
process, and in both cases no later job runs. -/
def runRoutin (config : CConfigProtocols Head) (updater : Bool) :
    List CRawMessage → List JobEvent × Outcome (CConfigProtocols Head)
  | [] => ([], .ok config)
  | msgRaw :: queue =>
      let run := messageJob config updater msgRaw
      match run.outcome with
      | .error f => (run.events, .error f)
      | .ok () =>
          let (more, res) := runRoutin run.config updater queue
          (run.events ++ more, res)

namespace ShippedCodec

/-- What a received message means to a fresh object of a class, if it means anything: the owner
and the payload that the object then holds. A received message has a NUL byte behind it. -/
def decodeOne (codec : ShippedCodec) (b : Bytes) : Option (Bytes × Bytes) :=
  match (Protocol.create codec.cls).unpack (b ++ [0]) b.length with
  | .ok (true, p) => some (p.whoIsOwner, p.payload.content)
  | _ => none

/-- The callback for a buffer that decodes. -/
def callbackOf (msgRaw : CRawMessage) (decoded : Bytes × Bytes) : MessageCallback :=
  { sourceApp := msgRaw.sourceApp
    sourcePvd := msgRaw.sourcePvd
    owner := decoded.1
    payload := decoded.2 }

/-- The callbacks for a queue of buffers: one for each of them up to the first that does not
decode. -/
def deliveries (codec : ShippedCodec) : List CRawMessage → List MessageCallback
  | [] => []
  | msgRaw :: queue =>
      match codec.decodeOne msgRaw.content with
      | none => []
      | some decoded => callbackOf msgRaw decoded :: codec.deliveries queue

/-- A configuration with this one codec and room for a chain. -/
structure Configured (codec : ShippedCodec) (config : CConfigProtocols ShippedHead) : Prop where
  single : config.protoList = [codec.cls]
  room : config.protoChainsMap.length < CConfigProtocols.maxProtocolChainInstances

/-- A library that offers `CPBigEndian`, without live chains. -/
def bigEndianConfig : CConfigProtocols ShippedHead :=
  { protoList := [CPBigEndian], protoChainsMap := [] }

theorem bigEndianConfig_configured : bigEndian.Configured bigEndianConfig :=
  ⟨rfl, by decide⟩

theorem decodeOne_eq_some {codec : ShippedCodec} {b : Bytes} {decoded : Bytes × Bytes}
    (h : codec.decodeOne b = some decoded) :
    ∃ p, (Protocol.create codec.cls).unpack (b ++ [0]) b.length = .ok (true, p) ∧
      decoded = (p.whoIsOwner, p.payload.content) := by
  rw [decodeOne] at h
  split at h
  · next p hunpack =>
      obtain rfl : _ = decoded := by simpa using h
      exact ⟨p, hunpack, rfl⟩
  · cases h

theorem decodeOne_eq_none {codec : ShippedCodec} {b : Bytes} (h : codec.decodeOne b = none) :
    ∀ p, (Protocol.create codec.cls).unpack (b ++ [0]) b.length ≠ .ok (true, p) := by
  intro p hunpack
  rw [decodeOne, hunpack] at h
  cases h

/-- What an object of a fixed-header class makes of a received message. -/
theorem decodeOne_fixed {codec : ShippedCodec} {order : ByteOrder}
    (hcodec : codec.order? = some order) (b : Bytes) :
    codec.decodeOne b =
      if FixedHeader.Accepts order b b.length then
        some ([], Lib.field b FixedHeader.size (FixedHeader.payloadLength order b))
      else none := by
  have hmem : b.length ≤ (b ++ [0]).length := by simp
  have hinit := CRawMessage.init_holds CRawMessage.defCapSize
  have hdecode : FixedHeader.size ≤ b.length →
      FixedHeader.payloadLength order (b ++ [0]) = FixedHeader.payloadLength order b := by
    intro hsize
    rw [FixedHeader.payloadLength, FixedHeader.decode_append hsize, FixedHeader.payloadLength]
  have haccepts : FixedHeader.Accepts order (b ++ [0]) b.length ↔
      FixedHeader.Accepts order b b.length := by
    by_cases hsize : FixedHeader.size ≤ b.length
    · rw [FixedHeader.Accepts, hdecode hsize, FixedHeader.Accepts]
    · rw [FixedHeader.Accepts, FixedHeader.Accepts]
      omega
  by_cases hacc : FixedHeader.Accepts order b b.length
  · obtain ⟨payload, hunpack, hholds⟩ :=
      FixedHeader.unpack_of_accepts hinit hmem (haccepts.mpr hacc)
    have hin := hacc.2
    rw [hdecode (by omega), Lib.field_append_left hin] at hholds
    rw [if_pos hacc, decodeOne, Protocol.unpack, Protocol.create_cls, unpack_fixed hcodec,
      Protocol.create_payload, hunpack]
    simp [Except.map, Protocol.whoIsOwner, whoIsOwner_fixed hcodec, hholds.content_eq]
  · have hunpack := FixedHeader.unpack_of_not_accepts CRawMessage.init hmem
      (mt haccepts.mp hacc)
    rw [if_neg hacc, decodeOne, Protocol.unpack, Protocol.create_cls, unpack_fixed hcodec,
      Protocol.create_payload, hunpack]
    rfl

/-- What a fresh command codec makes of a received message. -/
theorem decodeOne_universal (b : Bytes) :
    universalCMD.decodeOne b =
      match UniversalCmd.cleared.unpack CRawMessage.init (b ++ [0]) b.length with
      | .ok (_, cmd, payload) => some (cmd.mFrom, payload.content)
      | .error _ => none := by
  rw [decodeOne]
  cases hunpack : UniversalCmd.cleared.unpack CRawMessage.init (b ++ [0]) b.length with
  | error f =>
      simp [Protocol.unpack, Protocol.create, cls, CPUniversalCMD, IProtocolInf.zoom,
        UniversalCmd.codec, ShippedHead.initial, hunpack]
  | ok r =>
      obtain ⟨res, cmd, payload⟩ := r
      obtain rfl := UniversalCmd.unpack_true hunpack
      simp [Protocol.unpack, Protocol.create, cls, CPUniversalCMD, IProtocolInf.zoom,
        UniversalCmd.codec, ShippedHead.initial, hunpack, Protocol.whoIsOwner]

/-- A received message hands out the non-empty payload `p` exactly when it carries `p`. -/
theorem decodeOne_universal_iff {b p : Bytes} (hne : p ≠ []) :
    (∃ owner, universalCMD.decodeOne b = some (owner, p)) ↔ UniversalCmd.CarriesPayload b p := by
  rw [← UniversalCmd.unpack_received_iff UniversalCmd.cleared
    (CRawMessage.init_holds CRawMessage.defCapSize) hne, decodeOne_universal]
  cases hunpack : UniversalCmd.cleared.unpack CRawMessage.init (b ++ [0]) b.length with
  | error f => simp
  | ok r =>
      obtain ⟨res, cmd, payload⟩ := r
      obtain rfl := UniversalCmd.unpack_true hunpack
      simp

/-- A job on a buffer that decodes makes its one callback and gives its slot back. -/
theorem messageJob_decodes {codec : ShippedCodec} {config : CConfigProtocols ShippedHead}
    (hc : codec.Configured config) (updater : Bool) {msgRaw : CRawMessage} {b : Bytes}
    (hb : msgRaw.Holds b) (hne : b ≠ []) {decoded : Bytes × Bytes}
    (h : codec.decodeOne b = some decoded) :
    ∃ events, messageJob config updater msgRaw =
        { events := events, config := config, outcome := .ok () } ∧
      JobEvent.callbacks events = [callbackOf msgRaw decoded] := by
  obtain ⟨p, hunpack, rfl⟩ := decodeOne_eq_some h
  have hpos : 0 < b.length := List.length_pos_iff.mpr hne
  obtain ⟨k, hk⟩ : ∃ k, b.length = k + 1 := ⟨b.length - 1, by omega⟩
  have hcreate := CConfigProtocols.create_of_room config (by simp [hc.single]) hc.room
  rw [hc.single] at hcreate
  have hchain := ProtoChain.unpackRecurcive_single hpos hunpack
  have hdone : ∀ (q : Protocol ShippedHead) mem,
      messageLoop msgRaw updater k [q.cleanData] mem 0 = ([], .ok [q.cleanData]) := by
    intro q mem
    cases k <;> simp [messageLoop]
  have hloop : messageLoop msgRaw updater b.length [Protocol.create codec.cls] (b ++ [0])
      b.length = (messageEvents msgRaw updater p, .ok [p.cleanData]) := by
    rw [hk]
    simp only [messageLoop, Protocol.create_cls, getMsgSize_cls]
    rw [← hk, if_neg (by omega), hchain]
    simp [ProtoChain.cleanData, hdone]
  refine ⟨messageEvents msgRaw updater p, ?_, ?_⟩
  · rw [messageJob, hb.getMsgReadOnly_eq hne, hb.size, hcreate]
    have hdestroy := CConfigProtocols.destroy_create config [Protocol.create codec.cls]
    rw [hc.single] at hdestroy
    simp only [if_neg hpos.ne', List.map_cons, List.map_nil, hloop, hdestroy]
  · cases updater <;> rfl

/-- A job on any other buffer makes no callback and does not return. -/
theorem messageJob_fails {codec : ShippedCodec} {config : CConfigProtocols ShippedHead}
    (hc : codec.Configured config) (updater : Bool) {msgRaw : CRawMessage} {b : Bytes}
    (hb : msgRaw.Holds b) (hne : b ≠ []) (h : codec.decodeOne b = none) :
    (messageJob config updater msgRaw).events = [] ∧
      ∃ f, (messageJob config updater msgRaw).outcome = .error f := by
  have hpos : 0 < b.length := List.length_pos_iff.mpr hne
  obtain ⟨k, hk⟩ : ∃ k, b.length = k + 1 := ⟨b.length - 1, by omega⟩
  have hcreate := CConfigProtocols.create_of_room config (by simp [hc.single]) hc.room
  rw [hc.single] at hcreate
  have hfails := ProtoChain.unpackRecurcive_single_fails (decodeOne_eq_none h)
  obtain ⟨f, hloop⟩ : ∃ f, messageLoop msgRaw updater b.length [Protocol.create codec.cls]
      (b ++ [0]) b.length = ([], .error f) := by
    rw [hk]
    simp only [messageLoop, Protocol.create_cls, getMsgSize_cls]
    rw [← hk, if_neg (by omega)]
    split
    · exact ⟨_, rfl⟩
    · exact ⟨_, rfl⟩
    · next chain hchain => exact absurd hchain (hfails chain)
  rw [messageJob, hb.getMsgReadOnly_eq hne, hb.size, hcreate]
  simp only [if_neg hpos.ne', List.map_cons, List.map_nil, hloop]
  exact ⟨trivial, f, rfl⟩

/-- The worker's callbacks on a queue of non-empty buffers are its deliveries. -/
theorem runRoutin_callbacks {codec : ShippedCodec} {config : CConfigProtocols ShippedHead}
    (hc : codec.Configured config) (updater : Bool) {queue : List CRawMessage}
    (hqueue : ∀ msgRaw ∈ queue, ∃ b, msgRaw.Holds b ∧ b ≠ []) :
    JobEvent.callbacks (runRoutin config updater queue).1 = codec.deliveries queue := by
  induction queue with
  | nil => rfl
  | cons msgRaw queue ih =>
      obtain ⟨b, hb, hne⟩ := hqueue msgRaw List.mem_cons_self
      have hrest := ih fun m hm => hqueue m (List.mem_cons_of_mem _ hm)
      rw [runRoutin, deliveries, hb.content_eq]
      cases hdecode : codec.decodeOne b with
      | none =>
          obtain ⟨hevents, f, hout⟩ := messageJob_fails hc updater hb hne hdecode
          simp [hevents, hout]
      | some decoded =>
          obtain ⟨events, hrun, hcalls⟩ := messageJob_decodes hc updater hb hne hdecode
          simp [hrun, hcalls, hrest]

/-- The worker comes to the end of the queue exactly when every buffer decodes. -/
theorem runRoutin_ends_iff {codec : ShippedCodec} {config : CConfigProtocols ShippedHead}
    (hc : codec.Configured config) (updater : Bool) {queue : List CRawMessage}
    (hqueue : ∀ msgRaw ∈ queue, ∃ b, msgRaw.Holds b ∧ b ≠ []) :
    (∃ config', (runRoutin config updater queue).2 = .ok config') ↔
      ∀ msgRaw ∈ queue, codec.decodeOne msgRaw.content ≠ none := by
  induction queue with
  | nil => simp [runRoutin]
  | cons msgRaw queue ih =>
      obtain ⟨b, hb, hne⟩ := hqueue msgRaw List.mem_cons_self
      have hrest := ih fun m hm => hqueue m (List.mem_cons_of_mem _ hm)
      rw [runRoutin, List.forall_mem_cons, hb.content_eq, ← hrest]
      cases hdecode : codec.decodeOne b with
      | none =>
          obtain ⟨-, f, hout⟩ := messageJob_fails hc updater hb hne hdecode
          simp [hout]
      | some decoded =>
          obtain ⟨events, hrun, -⟩ := messageJob_decodes hc updater hb hne hdecode
          simp [hrun]

end ShippedCodec

end CommonCommunicator
