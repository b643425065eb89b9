import CommonCommunicator.Communicator.SendPayload
import CommonCommunicator.Protocol.ChainElements
import CommonCommunicator.Protocol.MessageJob

/-!
# Replying with the received payload

The message callback gets the first element of the receive job's own chain, and
may send it. The job cleans the chain after the callback, for the next message,
and gives its slot back at the end. `write_payload` frees the chain of what it
has sent, unless `E_KEEP_PAYLOAD_AFTER_TX` is set and everything goes well; a
freed chain makes `clean_data` throw, which nothing in the job catches. But it
looks for the chain in the map of the replying communicator's protocol file,
which need not be the one that the chain is in.
-/

namespace CommonCommunicator

variable {Head : Type}

/-- One call of `ICommunicator::send` with the received payload: the communicator, the flag that
the payload has then, and what the calls of `write_msg` return. `otherConfig` is the configuration
of a communicator of another protocol file; one of the same file shares the job's. -/
structure Reply (Head : Type) where
  impl : ICommunicatorImpl
  otherConfig : Option (CConfigProtocols Head)
  keepPayloadAfterTx : Bool
  results : Nat → Except StdException Bool

/-- What a receive job works on: the chain map, the elements of its chain, and how often the chain
has been taken out of the map. -/
structure ChainUse (Head : Type) where
  config : CConfigProtocols Head
  elements : List (Protocol Head)
  freed : Nat

namespace ChainUse

/-- The received payload, as `send` gets it. -/
def payload (use : ChainUse Head) (name : Nat) (keep : Bool) : CPayload Head where
  chain := { name := name, elements := use.elements }
  locked := name ∈ use.config.protoChainsMap
  self := 0
  msg := (use.elements.head?.map fun p => p.payload.content).getD []
  keepPayloadAfterTx := keep

/-- The map and the elements after a call that may have freed the chain. -/
def after (use : ChainUse Head) (name : Nat) (config : CConfigProtocols Head)
    (elements : List (Protocol Head)) : ChainUse Head where
  config := config
  elements := elements
  freed := use.freed +
    if name ∈ use.config.protoChainsMap ∧ name ∉ config.protoChainsMap then 1 else 0

/-- A reply inside the callback. What another communicator's configuration loses by it is not the
job's. -/
def reply (use : ChainUse Head) (name : Nat) (r : Reply Head) : Outcome (ChainUse Head) := do
  let (_, config, elements) ← r.impl.send (r.otherConfig.getD use.config)
    (use.payload name r.keepPayloadAfterTx) r.results
  match r.otherConfig with
  | none => return use.after name config elements
  | some _ => return { use with elements := elements }

/-- The callback with all its replies. -/
def replies (name : Nat) (rs : List (Reply Head)) (use : ChainUse Head) : Outcome (ChainUse Head) :=
  rs.foldlM (fun use r => use.reply name r) use

/-- `clean_data` of the job. `get_proto_chain` throws if the chain has been freed. -/
def cleanData (use : ChainUse Head) (name : Nat) : Outcome (ChainUse Head) :=
  if name ∈ use.config.protoChainsMap then
    return { use with elements := ProtoChain.cleanData use.elements }
  else throwThat .exception

/-- `destroy_proto_chain` at the end of the job. -/
def destroy (use : ChainUse Head) (name : Nat) : ChainUse Head :=
  use.after name
    (use.config.destroyProtocolsChain { name := name, elements := use.elements }) use.elements

end ChainUse

/-- The slicing loop with a callback that replies. `script` tells the replies to each message. -/
def repliedLoop (msgRaw : CRawMessage) (updater : Bool) (name : Nat)
    (script : Nat → List (Reply Head)) :
    (rounds turn : Nat) → ChainUse Head → (mem : Bytes) → (dataSize : Nat) →
      List JobEvent × Outcome (ChainUse Head)
  | 0, _, use, _, _ => ([], .ok use)
  | rounds + 1, turn, use, mem, dataSize =>
      match use.elements with
      | [] => ([], .error .undefined)
      | protocol :: rest =>
          let msgSize := protocol.cls.getMsgSize protocol.head mem dataSize
          if dataSize = 0 ∨ msgSize = 0 then
            ([], .ok use)
          else
            match ProtoChain.unpackRecurcive (protocol :: rest) mem msgSize with
            | .error f => ([], .error f)
            | .ok (false, _) => ([], .error .assertion)
            | .ok (true, chain) =>
                let events := (chain.head?.map (messageEvents msgRaw updater)).getD []
                match ChainUse.replies name (script turn) { use with elements := chain } >>=
                    fun use => use.cleanData name with
                | .error f => (events, .error f)
                | .ok use =>
                    if dataSize < msgSize then
                      (events, .error .undefined)
                    else
                      let (more, res) := repliedLoop msgRaw updater name script rounds (turn + 1)
                        use (mem.drop msgSize) (dataSize - msgSize)
                      (events ++ more, res)

/-- The result of a job with replies: its calls, and what is left at its end. -/
structure RepliedRun (Head : Type) where
  events : List JobEvent
  outcome : Outcome (ChainUse Head)

/-- The job that `handle_protocol_chain` queues for a buffer, with a callback that replies. -/
def repliedJob (config : CConfigProtocols Head) (updater : Bool) (msgRaw : CRawMessage)
    (script : Nat → List (Reply Head)) : RepliedRun Head :=
  match msgRaw.getMsgReadOnly with
  | none => { events := [], outcome := .error .assertion }
  | some data =>
      if msgRaw.msgSize = 0 then
        { events := [], outcome := .error .assertion }
      else
        match config.createProtocolsChain with
        | .error f => { events := [], outcome := .error f }
        | .ok (config, chain) =>
            let (events, outcome) := repliedLoop msgRaw updater chain.name script msgRaw.msgSize 0
              { config := config, elements := chain.elements, freed := 0 } data msgRaw.msgSize
            { events := events, outcome := outcome.map fun use => use.destroy chain.name }

/-- The states that a chain of the configured protocols can be in. -/
inductive UsedChain (protoList : List (IProtocolInf Head)) : List (Protocol Head) → Prop
  | create : UsedChain protoList (protoList.map Protocol.create)
  | unpacked {elements elements' : List (Protocol Head)} {mem : Bytes} {msgSize : Nat}
      (used : UsedChain protoList elements)
      (unpack : ProtoChain.unpackRecurcive elements mem msgSize = .ok (true, elements')) :
      UsedChain protoList elements'
  | packed {elements elements' : List (Protocol Head)} {self : Nat} {now : UInt64}
      {msg fromApp : Bytes} {pvd : ProviderType} {segments : List CRawMessage}
      (used : UsedChain protoList elements)
      (pack : ProtoChain.packRecursive elements self now msg pvd fromApp =
        .ok (elements', segments)) : UsedChain protoList elements'
  | cleaned {elements : List (Protocol Head)} (used : UsedChain protoList elements)
      (txData rxData : Bool) : UsedChain protoList (ProtoChain.cleanData elements txData rxData)

/-- A well-formed message at the head of `n` bytes: whatever a chain has been used for, it finds
the size of the message and unpacks it. -/
structure TakenBy (protoList : List (IProtocolInf Head)) (mem : Bytes) (n size : Nat) : Prop where
  positive : 0 < size
  inside : size ≤ n
  sized : ∀ protocol rest, UsedChain protoList (protocol :: rest) →
    protocol.cls.getMsgSize protocol.head mem n = size
  unpacks : ∀ elements, UsedChain protoList elements →
    ∃ chain, ProtoChain.unpackRecurcive elements mem size = .ok (true, chain)

/-- `n` bytes that are `k` well-formed messages. -/
inductive Messages (protoList : List (IProtocolInf Head)) : (mem : Bytes) → (n k : Nat) → Prop
  | done {mem : Bytes} : Messages protoList mem 0 0
  | next {mem : Bytes} {n k size : Nat} (taken : TakenBy protoList mem n size)
      (rest : Messages protoList (mem.drop size) (n - size) k) : Messages protoList mem n (k + 1)

/-- What every use of an element keeps holds of all elements of a used chain. -/
theorem UsedChain.forall₂ {R : IProtocolInf Head → Protocol Head → Prop}
    {protoList : List (IProtocolInf Head)} {elements : List (Protocol Head)}
    (h : UsedChain protoList elements) (hcalls : KeptByCalls R)
    (hcreate : ∀ cls, R cls (Protocol.create cls))
    (hclean : ∀ cls p txData rxData, R cls p → R cls (p.cleanData txData rxData)) :
    List.Forall₂ R protoList elements := by
  induction h with
  | create =>
      rw [List.forall₂_map_right_iff]
      exact List.forall₂_same.mpr fun cls _ => hcreate cls
  | unpacked _ hunpack ih => exact hcalls.unpackRecurcive ih hunpack
  | packed _ hpack ih => exact hcalls.packRecursive ih hpack
  | cleaned _ txData rxData ih =>
      rw [ProtoChain.cleanData, List.forall₂_map_right_iff]
      exact ih.imp fun cls p hp => hclean cls p txData rxData hp

theorem UsedChain.length_eq {protoList : List (IProtocolInf Head)}
    {elements : List (Protocol Head)} (h : UsedChain protoList elements) :
    protoList.length = elements.length := by
  exact (h.forall₂ .any (fun _ => trivial) fun _ _ _ _ _ => trivial).length_eq

namespace ChainUse

/-- A reply that leaves the chain in the map: nothing is sent before the communicator has its
protocol handler, `write_payload` keeps the chain, or it would free it in another map. -/
def Keeps (use : ChainUse Head) (name : Nat) (r : Reply Head) : Prop :=
  r.impl.mSendPayload = true →
    match r.otherConfig with
    | none =>
        CHProtoBaseLan.KeepsChain (use.payload name r.keepPayloadAfterTx) r.impl.context r.results
    | some _ => CHProtoBaseLan.Packs (use.payload name r.keepPayloadAfterTx) r.impl.context

/-- The replies to one message all leave the chain in the map. -/
def AllKeep (name : Nat) : List (Reply Head) → ChainUse Head → Prop
  | [], _ => True
  | r :: rs, use => use.Keeps name r ∧ ∀ use', use.reply name r = .ok use' → AllKeep name rs use'

/-- The replies to the messages of the buffer all leave the chain in the map. -/
def KeptThroughout (name : Nat) (script : Nat → List (Reply Head)) :
    (rounds turn : Nat) → ChainUse Head → (mem : Bytes) → (dataSize : Nat) → Prop
  | 0, _, _, _, _ => True
  | rounds + 1, turn, use, mem, dataSize =>
      ∀ protocol rest chain, use.elements = protocol :: rest → dataSize ≠ 0 →
        ProtoChain.unpackRecurcive use.elements mem
            (protocol.cls.getMsgSize protocol.head mem dataSize) = .ok (true, chain) →
          AllKeep name (script turn) { use with elements := chain } ∧
            ∀ use', (replies name (script turn) { use with elements := chain } >>=
                fun use => use.cleanData name) = .ok use' →
              KeptThroughout name script rounds (turn + 1) use'
                (mem.drop (protocol.cls.getMsgSize protocol.head mem dataSize))
                (dataSize - protocol.cls.getMsgSize protocol.head mem dataSize)

/-- The chain has a slot of the map, and only one. -/
structure Alive (use : ChainUse Head) (name : Nat) : Prop where
  listed : name ∈ use.config.protoChainsMap
  once : name ∉ use.config.protoChainsMap.erase name

/-- Nothing has become of the chain but uses of its elements. -/
structure Untouched (protoList : List (IProtocolInf Head)) (use use' : ChainUse Head) : Prop where
  config : use'.config = use.config
  freed : use'.freed = use.freed
  used : UsedChain protoList use'.elements

variable {use use' : ChainUse Head} {name : Nat} {r : Reply Head} {rs : List (Reply Head)}
  {protoList : List (IProtocolInf Head)} {script : Nat → List (Reply Head)} {mem : Bytes}
  {n k : Nat}

theorem Untouched.alive (h : Untouched protoList use use') (halive : use.Alive name) :
    use'.Alive name := by
  constructor
  · rw [h.config]
    exact halive.listed
  · rw [h.config]
    exact halive.once

theorem after_same (use : ChainUse Head) (name : Nat) (elements : List (Protocol Head)) :
    use.after name use.config elements = { use with elements := elements } := by
  simp [after]

/-- A communicator that has no protocol handler yet does not touch the payload. -/
theorem reply_silent (use : ChainUse Head) (name : Nat) (hhandler : r.impl.mSendPayload = false) :
    use.reply name r = .ok use := by
  cases hother : r.otherConfig with
  | none => simp [reply, hother, ICommunicatorImpl.send, hhandler, payload, after_same]
  | some other => simp [reply, hother, ICommunicatorImpl.send, hhandler, payload]

/-- The elements of a packed payload are those of a used chain. -/
theorem used_packed {context : SendContext} {keep : Bool} {packed : List (Protocol Head)}
    {sent : List CRawMessage} (hused : UsedChain protoList use.elements)
    (hpack : CHProtoBaseLan.encapsulation (use.payload name keep) context = .ok (packed, sent)) :
    UsedChain protoList packed := by
  rw [CHProtoBaseLan.encapsulation] at hpack
  split at hpack
  · exact hused.packed hpack
  · cases hpack

/-- A reply that keeps the chain is sent with it. -/
theorem reply_keeps (h : use.Keeps name r) (hused : UsedChain protoList use.elements) :
    ∃ use', use.reply name r = .ok use' ∧ Untouched protoList use use' := by
  cases hhandler : r.impl.mSendPayload with
  | false => exact ⟨use, reply_silent use name hhandler, rfl, rfl, hused⟩
  | true =>
      have hkeeps := h hhandler
      cases hother : r.otherConfig with
      | none =>
          rw [hother] at hkeeps
          obtain ⟨packed, sent, hpack, hwrite⟩ :=
            CHProtoBaseLan.writePayload_keeps use.config hkeeps
          refine ⟨{ use with elements := ProtoChain.cleanData packed true false }, ?_, rfl, rfl,
            (used_packed hused hpack).cleaned true false⟩
          simp [reply, hother, ICommunicatorImpl.send, hhandler, hwrite, after_same]
      | some other =>
          rw [hother] at hkeeps
          obtain ⟨packed, sent, hpack⟩ := hkeeps
          obtain ⟨res, config', elements, hwrite, helements⟩ :=
            CHProtoBaseLan.writePayload_packed other r.results hpack
          refine ⟨{ use with elements := elements }, ?_, rfl, rfl, ?_⟩
          · simp [reply, hother, ICommunicatorImpl.send, hhandler, hwrite]
          · obtain rfl | rfl := helements
            · exact used_packed hused hpack
            · exact (used_packed hused hpack).cleaned true false

/-- The packing of a living chain that does not return stops the process. -/
theorem reply_stops (hpacks : ¬CHProtoBaseLan.Packs (use.payload name r.keepPayloadAfterTx)
      r.impl.context) (hlisted : name ∈ use.config.protoChainsMap)
    (hhandler : r.impl.mSendPayload = true) : ∃ f, use.reply name r = .error f := by
  obtain ⟨hdead, -⟩ | ⟨-, ⟨-, hpack⟩ | ⟨_, _, -, hpack⟩ | ⟨f, -, hnot, hpack⟩⟩ :=
    r.impl.encapsulation_cases (use.payload name r.keepPayloadAfterTx)
  · exact absurd hlisted (by simpa [payload] using hdead)
  · exact absurd ⟨_, _, hpack⟩ hpacks
  · exact absurd ⟨_, _, hpack⟩ hpacks
  · refine ⟨f, ?_⟩
    rw [reply, ICommunicatorImpl.send, if_neg (by simp [hhandler]),
      CHProtoBaseLan.writePayload_stops _ _ hpack hnot]
    rfl

/-- Any other reply stops the process or takes the chain out of the map. -/
theorem reply_lost (h : ¬use.Keeps name r) (halive : use.Alive name) :
    (∃ f, use.reply name r = .error f) ∨
      ∃ use', use.reply name r = .ok use' ∧ name ∉ use'.config.protoChainsMap := by
  rw [Keeps, Classical.not_imp] at h
  obtain ⟨hhandler, hkeeps⟩ := h
  cases hother : r.otherConfig with
  | none =>
      rw [hother] at hkeeps
      obtain ⟨f, hwrite⟩ | ⟨res, elements, hwrite⟩ :=
        CHProtoBaseLan.writePayload_destroys use.config hkeeps
      · left
        exact ⟨f, by simp [reply, hother, ICommunicatorImpl.send, hhandler, hwrite]⟩
      · right
        refine ⟨_, by simp [reply, hother, ICommunicatorImpl.send, hhandler, hwrite]; rfl, ?_⟩
        exact halive.once
  | some other =>
      rw [hother] at hkeeps
      left
      exact reply_stops hkeeps halive.listed hhandler

/-- A chain that has been freed stays out of the map. -/
theorem reply_dead (r : Reply Head) (hdead : name ∉ use.config.protoChainsMap) :
    ∃ use', use.reply name r = .ok use' ∧ name ∉ use'.config.protoChainsMap := by
  cases hhandler : r.impl.mSendPayload with
  | false => exact ⟨use, reply_silent use name hhandler, hdead⟩
  | true =>
      have hpack : CHProtoBaseLan.encapsulation (use.payload name r.keepPayloadAfterTx)
          r.impl.context = .error (.thrown .exception) := by
        simp [CHProtoBaseLan.encapsulation, payload, hdead, throwThat]
      cases hother : r.otherConfig with
      | none =>
          refine ⟨use.after name (use.config.destroyProtocolsChain
            { name := name, elements := use.elements }) use.elements, ?_,
            mt List.mem_of_mem_erase hdead⟩
          simp [reply, hother, ICommunicatorImpl.send, hhandler, CHProtoBaseLan.writePayload, hpack]
          rfl
      | some other =>
          refine ⟨use, ?_, hdead⟩
          simp [reply, hother, ICommunicatorImpl.send, hhandler, CHProtoBaseLan.writePayload, hpack]
          rfl

/-- Replies that keep the chain leave it as it was but for its elements. -/
theorem replies_keep (h : AllKeep name rs use) (halive : use.Alive name)
    (hused : UsedChain protoList use.elements) :
    ∃ use', replies name rs use = .ok use' ∧ Untouched protoList use use' := by
  induction rs generalizing use with
  | nil => exact ⟨use, rfl, rfl, rfl, hused⟩
  | cons r rs ih =>
      obtain ⟨mid, hreply, hmid⟩ := reply_keeps h.1 hused
      obtain ⟨use', hrest, huse'⟩ := ih (h.2 mid hreply) (hmid.alive halive) hmid.used
      refine ⟨use', ?_, huse'.config.trans hmid.config, huse'.freed.trans hmid.freed, huse'.used⟩
      rw [replies, List.foldlM_cons, hreply]
      exact hrest

theorem replies_dead (rs : List (Reply Head)) (hdead : name ∉ use.config.protoChainsMap) :
    ∃ use', replies name rs use = .ok use' ∧ name ∉ use'.config.protoChainsMap := by
  induction rs generalizing use with
  | nil => exact ⟨use, rfl, hdead⟩
  | cons r rs ih =>
      obtain ⟨mid, hreply, hmid⟩ := reply_dead r hdead
      obtain ⟨use', hrest, huse'⟩ := ih hmid
      refine ⟨use', ?_, huse'⟩
      rw [replies, List.foldlM_cons, hreply]
      exact hrest

/-- With a reply among them that does not keep the chain, the job does not get over its
`clean_data`. -/
theorem replies_lost (h : ¬AllKeep name rs use) (halive : use.Alive name)
    (hused : UsedChain protoList use.elements) :
    ∃ f, (replies name rs use >>= fun use => use.cleanData name) = .error f := by
  induction rs generalizing use with
  | nil => exact absurd trivial h
  | cons r rs ih =>
      rw [replies, List.foldlM_cons, bind_assoc]
      by_cases hkeeps : use.Keeps name r
      · obtain ⟨mid, hreply, hmid⟩ := reply_keeps hkeeps hused
        rw [hreply]
        refine ih (fun hrest => h ⟨hkeeps, ?_⟩) (hmid.alive halive) hmid.used
        intro use' huse'
        obtain rfl := Except.ok.inj (hreply.symm.trans huse')
        exact hrest
      · obtain ⟨f, hfault⟩ | ⟨mid, hreply, hdead⟩ := reply_lost hkeeps halive
        · exact ⟨f, by rw [hfault]; rfl⟩
        · obtain ⟨use', hrest, hdead'⟩ := replies_dead rs hdead
          rw [replies] at hrest
          rw [hreply, ok_bind, hrest, ok_bind, cleanData, if_neg hdead']
          exact ⟨_, rfl⟩

/-- Behind replies that all keep the chain the job cleans it. -/
theorem replies_cleaned (h : AllKeep name rs use) (halive : use.Alive name)
    (hused : UsedChain protoList use.elements) :
    ∃ use', (replies name rs use >>= fun use => use.cleanData name) = .ok use' ∧
      Untouched protoList use use' := by
  obtain ⟨mid, hreplies, hmid⟩ := replies_keep h halive hused
  refine ⟨{ mid with elements := ProtoChain.cleanData mid.elements }, ?_, hmid.config, hmid.freed,
    hmid.used.cleaned true true⟩
  rw [hreplies, ok_bind, cleanData, if_pos (hmid.alive halive).listed]
  rfl

/-- Behind the last message there is nothing to reply to. -/
theorem keptThroughout_zero {rounds turn : Nat} :
    KeptThroughout name script rounds turn use mem 0 := by
  cases rounds with
  | zero => trivial
  | succ rounds =>
      intro _ _ _ _ hzero
      exact absurd rfl hzero

end ChainUse

section Loop

open ChainUse

variable {use use' : ChainUse Head} {name : Nat} {protoList : List (IProtocolInf Head)}
  {script : Nat → List (Reply Head)} {mem : Bytes} {n k size : Nat} {msgRaw : CRawMessage}
  {updater : Bool}

/-- A chain that takes a message has a first element, before and after unpacking it. -/
theorem TakenBy.exists_first (h : TakenBy protoList mem n size)
    (hused : UsedChain protoList use.elements) :
    ∃ protocol rest unpacked others, use.elements = protocol :: rest ∧
      protocol.cls.getMsgSize protocol.head mem n = size ∧
      ProtoChain.unpackRecurcive use.elements mem size = .ok (true, unpacked :: others) := by
  obtain ⟨chain, hunpack⟩ := h.unpacks _ hused
  have hlength := ProtoChain.length_unpackRecurcive hunpack
  cases helements : use.elements with
  | nil =>
      rw [helements] at hunpack
      obtain ⟨-, reversed, hblock, -⟩ := ProtoChain.unpackRecurcive_eq_true.mp hunpack
      cases hblock
  | cons protocol rest =>
      rw [helements] at hused hunpack hlength
      cases chain with
      | nil => cases hlength
      | cons unpacked others =>
          exact ⟨protocol, rest, unpacked, others, rfl, h.sized protocol rest hused, hunpack⟩

/-- One turn of the loop on a well-formed message. -/
theorem repliedLoop_turn (h : TakenBy protoList mem n size)
    (hused : UsedChain protoList use.elements) (rounds turn : Nat) :
    ∃ unpacked others, UsedChain protoList (unpacked :: others) ∧
      (KeptThroughout name script (rounds + 1) turn use mem n ↔
        AllKeep name (script turn) { use with elements := unpacked :: others } ∧
          ∀ use', (replies name (script turn) { use with elements := unpacked :: others } >>=
              fun use => use.cleanData name) = .ok use' →
            KeptThroughout name script rounds (turn + 1) use' (mem.drop size) (n - size)) ∧
      repliedLoop msgRaw updater name script (rounds + 1) turn use mem n =
        match replies name (script turn) { use with elements := unpacked :: others } >>=
            fun use => use.cleanData name with
        | .error f => (messageEvents msgRaw updater unpacked, .error f)
        | .ok use' =>
            let (more, res) := repliedLoop msgRaw updater name script rounds (turn + 1) use'
              (mem.drop size) (n - size)
            (messageEvents msgRaw updater unpacked ++ more, res) := by
  obtain ⟨protocol, rest, unpacked, others, helements, hsize, hunpack⟩ := h.exists_first hused
  have hpositive := h.positive
  have hinside := h.inside
  refine ⟨unpacked, others, hused.unpacked hunpack, ?_, ?_⟩
  · rw [KeptThroughout]
    constructor
    · intro hkept
      have hturn := hkept protocol rest _ helements (by omega) (by rw [hsize]; exact hunpack)
      rwa [hsize] at hturn
    · intro hturn protocol' rest' chain helements' _ hunpack'
      obtain ⟨rfl, rfl⟩ := List.cons.inj (helements.symm.trans helements')
      rw [hsize] at hunpack' ⊢
      rw [hunpack] at hunpack'
      obtain rfl : unpacked :: others = chain := by simpa using hunpack'
      exact hturn
  · rw [helements] at hunpack
    rw [repliedLoop, helements]
    simp only [hsize, if_neg (show ¬(n = 0 ∨ size = 0) by omega), hunpack,
      if_neg (Nat.not_lt.mpr hinside), List.head?_cons, Option.map_some, Option.getD_some]

theorem callbacks_messageEvents (msgRaw : CRawMessage) (updater : Bool) (protocol : Protocol Head)
    (more : List JobEvent) :
    (JobEvent.callbacks (messageEvents msgRaw updater protocol ++ more)).length =
      (JobEvent.callbacks more).length + 1 := by
  rw [JobEvent.callbacks_append, List.length_append, Nat.add_comm]
  cases updater <;> rfl

/-- If all replies keep the chain, the loop calls the callback for every message and leaves the
chain in its slot. -/
theorem repliedLoop_kept (hmessages : Messages protoList mem n k) (hprotocols : protoList ≠ [])
    {rounds turn : Nat} (hrounds : n ≤ rounds) (halive : use.Alive name)
    (hused : UsedChain protoList use.elements)
    (hkept : KeptThroughout name script rounds turn use mem n) :
    ∃ events use', repliedLoop msgRaw updater name script rounds turn use mem n =
        (events, .ok use') ∧ (JobEvent.callbacks events).length = k ∧
      Untouched protoList use use' := by
  induction hmessages generalizing rounds turn use with
  | done =>
      refine ⟨[], use, ?_, rfl, rfl, rfl, hused⟩
      cases rounds with
      | zero => rfl
      | succ rounds =>
          have hlength := hused.length_eq
          cases helements : use.elements with
          | nil =>
              rw [helements] at hlength
              exact absurd (List.eq_nil_of_length_eq_zero hlength) hprotocols
          | cons protocol rest =>
              rw [repliedLoop, helements]
              exact if_pos (.inl rfl)
  | @next mem n k size htaken _ ih =>
      have hpositive := htaken.positive
      obtain ⟨rounds, rfl⟩ : ∃ k, rounds = k + 1 := ⟨rounds - 1, by have := htaken.inside; omega⟩
      obtain ⟨unpacked, others, hunpacked, hiff, hloop⟩ :=
        @repliedLoop_turn _ use name _ script _ _ _ msgRaw updater htaken hused rounds turn
      obtain ⟨hall, hrest⟩ := hiff.mp hkept
      obtain ⟨mid, hcleaned, hmid⟩ :=
        replies_cleaned hall (show ChainUse.Alive { use with elements := unpacked :: others } name
          from ⟨halive.listed, halive.once⟩) hunpacked
      obtain ⟨events, use', hends, hcalls, huse'⟩ := ih (by omega)
        (hmid.alive ⟨halive.listed, halive.once⟩) hmid.used (hrest mid hcleaned)
      refine ⟨messageEvents msgRaw updater unpacked ++ events, use', ?_, ?_,
        huse'.config.trans hmid.config, huse'.freed.trans hmid.freed, huse'.used⟩
      · rw [hloop, hcleaned]
        simp only [hends]
      · rw [callbacks_messageEvents, hcalls]

/-- Otherwise an exception or an assertion ends the job. -/
theorem repliedLoop_lost (hmessages : Messages protoList mem n k) {rounds turn : Nat}
    (halive : use.Alive name) (hused : UsedChain protoList use.elements)
    (hlost : ¬KeptThroughout name script rounds turn use mem n) :
    ∃ events f, repliedLoop msgRaw updater name script rounds turn use mem n =
      (events, .error f) := by
  induction hmessages generalizing rounds turn use with
  | done => exact absurd keptThroughout_zero hlost
  | @next mem n k size htaken _ ih =>
      cases rounds with
      | zero => exact absurd trivial hlost
      | succ rounds =>
          obtain ⟨unpacked, others, hunpacked, hiff, hloop⟩ :=
            @repliedLoop_turn _ use name _ script _ _ _ msgRaw updater htaken hused rounds turn
          rw [hloop]
          have halive' : ChainUse.Alive { use with elements := unpacked :: others } name :=
            ⟨halive.listed, halive.once⟩
          by_cases hall : AllKeep name (script turn) { use with elements := unpacked :: others }
          · obtain ⟨mid, hcleaned, hmid⟩ := replies_cleaned hall halive' hunpacked
            have hrest : ¬KeptThroughout name script rounds (turn + 1) mid (mem.drop size)
                (n - size) := by
              intro hrest
              refine hlost (hiff.mpr ⟨hall, fun use' huse' => ?_⟩)
              obtain rfl := Except.ok.inj (hcleaned.symm.trans huse')
              exact hrest
            obtain ⟨events, f, hends⟩ := ih (hmid.alive halive') hmid.used hrest
            exact ⟨messageEvents msgRaw updater unpacked ++ events, f, by simp [hcleaned, hends]⟩
          · obtain ⟨f, hfault⟩ := replies_lost hall halive' hunpacked
            exact ⟨messageEvents msgRaw updater unpacked, f, by rw [hfault]⟩

end Loop

/-- Without replies the loop is the one of the receive job. -/
theorem repliedLoop_silent (msgRaw : CRawMessage) (updater : Bool) {use : ChainUse Head}
    {name : Nat} (hlisted : name ∈ use.config.protoChainsMap) (rounds turn : Nat) (mem : Bytes)
    (dataSize : Nat) :
    repliedLoop msgRaw updater name (fun _ => []) rounds turn use mem dataSize =
      ((messageLoop msgRaw updater rounds use.elements mem dataSize).1,
        (messageLoop msgRaw updater rounds use.elements mem dataSize).2.map fun elements =>
          { use with elements := elements }) := by
  induction rounds generalizing turn use mem dataSize with
  | zero => rfl
  | succ rounds ih =>
      obtain ⟨config, elements, freed⟩ := use
      cases elements with
      | nil => rfl
      | cons protocol rest =>
          simp only [repliedLoop, messageLoop]
          generalize ProtoChain.unpackRecurcive (protocol :: rest) mem
            (protocol.cls.getMsgSize protocol.head mem dataSize) = unpacked
          split
          · rfl
          · cases unpacked with
            | error f => rfl
            | ok unpacked =>
                obtain ⟨res, chain⟩ := unpacked
                cases res with
                | false => rfl
                | true =>
                    have hcleaned : (ChainUse.replies name []
                          { config := config, elements := chain, freed := freed } >>=
                        fun use => use.cleanData name) =
                        .ok { config := config, elements := ProtoChain.cleanData chain,
                              freed := freed } := if_pos hlisted
                    simp only [hcleaned]
                    split
                    · rfl
                    · rw [@ih ⟨config, ProtoChain.cleanData chain, freed⟩ hlisted]

/-- Without replies the job is the receive job. -/
theorem repliedJob_silent (config : CConfigProtocols Head) (updater : Bool)
    (msgRaw : CRawMessage) :
    (repliedJob config updater msgRaw fun _ => []).events =
        (messageJob config updater msgRaw).events ∧
      (repliedJob config updater msgRaw fun _ => []).outcome.map (fun use => use.config) =
        (messageJob config updater msgRaw).outcome.map fun _ =>
          (messageJob config updater msgRaw).config := by
  simp only [repliedJob, messageJob]
  generalize msgRaw.getMsgReadOnly = read
  cases read with
  | none => exact ⟨rfl, rfl⟩
  | some data =>
      by_cases hempty : msgRaw.msgSize = 0
      · simp only [if_pos hempty]
        exact ⟨trivial, rfl⟩
      · simp only [if_neg hempty]
        cases hcreate : config.createProtocolsChain with
        | error f => exact ⟨rfl, rfl⟩
        | ok created =>
            obtain ⟨config', chain⟩ := created
            obtain ⟨rfl, -, -⟩ := CConfigProtocols.createProtocolsChain_eq_ok hcreate
            simp only
            rw [repliedLoop_silent msgRaw updater List.mem_cons_self]
            generalize messageLoop msgRaw updater msgRaw.msgSize chain.elements data
              msgRaw.msgSize = looped
            obtain ⟨events, res⟩ := looped
            cases res with
            | error f => exact ⟨rfl, rfl⟩
            | ok elements => exact ⟨rfl, rfl⟩

/-- The callback has been called for every message of the buffer, the job has come to its end, and
it has freed its slot, once. -/
structure RepliedRun.Safe (run : RepliedRun Head) (config : CConfigProtocols Head) (k : Nat) :
    Prop where
  called : (JobEvent.callbacks run.events).length = k
  ended : ∃ use, run.outcome = .ok use ∧ use.freed = 1 ∧ use.config = config

/-- The chain that the job has created. -/
def ChainUse.created (config : CConfigProtocols Head) : ChainUse Head where
  config := { config with
    protoChainsMap := CConfigProtocols.newChainName config.protoChainsMap :: config.protoChainsMap }
  elements := config.protoList.map Protocol.create
  freed := 0

open ChainUse

theorem ChainUse.alive_created (config : CConfigProtocols Head) :
    (created config).Alive (CConfigProtocols.newChainName config.protoChainsMap) := by
  constructor
  · exact List.mem_cons_self
  · rw [created, List.erase_cons_head]
    exact CConfigProtocols.newChainName_fresh _

/-- The end of a job frees a living chain. -/
theorem ChainUse.freed_destroy {use : ChainUse Head} {name : Nat} (halive : use.Alive name) :
    (use.destroy name).freed = use.freed + 1 := by
  rw [destroy, after, CConfigProtocols.destroyProtocolsChain]
  exact congrArg (use.freed + ·) (if_pos ⟨halive.listed, halive.once⟩)

section Job

variable {config : CConfigProtocols Head} {msgRaw : CRawMessage} {b : Bytes} {k : Nat}
  {updater : Bool} {script : Nat → List (Reply Head)}

theorem Messages.protoList_ne_nil (hmessages : Messages config.protoList (b ++ [0]) b.length k)
    (hne : b ≠ []) : config.protoList ≠ [] := by
  intro hnone
  have hpos : 0 < b.length := List.length_pos_iff.mpr hne
  rw [hnone] at hmessages
  generalize b.length = n at hmessages hpos
  cases hmessages with
  | done => cases hpos
  | next taken _ =>
      obtain ⟨chain, hunpack⟩ := taken.unpacks [] .create
      obtain ⟨-, reversed, hblock, -⟩ := ProtoChain.unpackRecurcive_eq_true.mp hunpack
      cases hblock

/-- A job that has got a chain is its loop and the end of the chain. -/
theorem repliedJob_of_room (hb : msgRaw.Holds b) (hne : b ≠ [])
    (hprotocols : config.protoList ≠ [])
    (hroom : config.protoChainsMap.length < CConfigProtocols.maxProtocolChainInstances) :
    repliedJob config updater msgRaw script =
      let name := CConfigProtocols.newChainName config.protoChainsMap
      let (events, outcome) := repliedLoop msgRaw updater name script b.length 0 (created config)
        (b ++ [0]) b.length
      { events := events, outcome := outcome.map fun use => use.destroy name } := by
  have hsize : b.length ≠ 0 := (List.length_pos_iff.mpr hne).ne'
  rw [repliedJob, hb.getMsgReadOnly_eq hne, hb.size]
  simp only [if_neg hsize, CConfigProtocols.create_of_room config hprotocols hroom]
  rfl

theorem repliedJob_safe (hb : msgRaw.Holds b) (hne : b ≠ [])
    (hmessages : Messages config.protoList (b ++ [0]) b.length k)
    (hroom : config.protoChainsMap.length < CConfigProtocols.maxProtocolChainInstances)
    (hkept : KeptThroughout (CConfigProtocols.newChainName config.protoChainsMap) script b.length 0
      (created config) (b ++ [0]) b.length) :
    (repliedJob config updater msgRaw script).Safe config k := by
  have hprotocols := hmessages.protoList_ne_nil hne
  have halive := alive_created config
  obtain ⟨events, use, hloop, hcalls, huse⟩ := @repliedLoop_kept _ _ _ _ _ _ _ _ msgRaw updater
    hmessages hprotocols _ _ (Nat.le_refl _) halive .create hkept
  rw [repliedJob_of_room hb hne hprotocols hroom]
  simp only [hloop]
  refine ⟨hcalls, _, rfl, ?_, ?_⟩
  · rw [freed_destroy (huse.alive halive), huse.freed]
    rfl
  · simp [destroy, after, huse.config, created, CConfigProtocols.destroyProtocolsChain]

theorem repliedJob_unsafe (hb : msgRaw.Holds b) (hne : b ≠ [])
    (hmessages : Messages config.protoList (b ++ [0]) b.length k)
    (hlost : ¬(config.protoChainsMap.length < CConfigProtocols.maxProtocolChainInstances ∧
      KeptThroughout (CConfigProtocols.newChainName config.protoChainsMap) script b.length 0
        (created config) (b ++ [0]) b.length)) :
    ¬(repliedJob config updater msgRaw script).Safe config k := by
  have hprotocols := hmessages.protoList_ne_nil hne
  rintro ⟨-, use, hended, -⟩
  by_cases hroom : config.protoChainsMap.length < CConfigProtocols.maxProtocolChainInstances
  · obtain ⟨events, f, hloop⟩ := @repliedLoop_lost _ _ _ _ _ _ _ _ msgRaw updater hmessages _ _
      (alive_created config) .create fun hkept => hlost ⟨hroom, hkept⟩
    rw [repliedJob_of_room hb hne hprotocols hroom] at hended
    simp only [hloop] at hended
    cases hended
  · have hfull : config.createProtocolsChain = .error (.thrown .exception) := by
      simp [CConfigProtocols.createProtocolsChain, List.length_pos_iff.mpr hprotocols,
        Nat.le_of_not_lt hroom, throwThat]
    have hsize : b.length ≠ 0 := (List.length_pos_iff.mpr hne).ne'
    rw [repliedJob, hb.getMsgReadOnly_eq hne, hb.size] at hended
    simp only [if_neg hsize, hfull] at hended
    cases hended

/-- Replying with the received payload is safe exactly if the job has got a chain, and every reply
leaves it in the map. -/
theorem repliedJob_safe_iff (hb : msgRaw.Holds b) (hne : b ≠ [])
    (hmessages : Messages config.protoList (b ++ [0]) b.length k) (updater : Bool)
    (script : Nat → List (Reply Head)) :
    (repliedJob config updater msgRaw script).Safe config k ↔
      config.protoChainsMap.length < CConfigProtocols.maxProtocolChainInstances ∧
        KeptThroughout (CConfigProtocols.newChainName config.protoChainsMap) script b.length 0
          (created config) (b ++ [0]) b.length := by
  constructor
  · intro hsafe
    by_contra hlost
    exact repliedJob_unsafe hb hne hmessages hlost hsafe
  · rintro ⟨hroom, hkept⟩
    exact repliedJob_safe hb hne hmessages hroom hkept

end Job

namespace ShippedCodec

variable {codec : ShippedCodec} {order : ByteOrder} {msg : Bytes}

/-- A used chain of one fixed-header codec. -/
theorem usedChain_fixed (hcodec : codec.order? = some order)
    {elements : List (Protocol ShippedHead)} (h : UsedChain [codec.cls] elements) :
    ∃ p, elements = [p] ∧ p.cls = codec.cls ∧ ∃ b, p.payload.Holds b := by
  have hcalls : KeptByCalls fun (cls : IProtocolInf ShippedHead) (p : Protocol ShippedHead) =>
      p.cls = cls ∧ (cls = codec.cls → ∃ b, p.payload.Holds b) := by
    constructor
    · intro cls p p' now msg pvd fromApp res hp hpack
      obtain ⟨_, -, hpack⟩ := bind_eq_ok.mp hpack
      cases hpack
      exact hp
    · intro cls p p' mem msgSize res hp hunpack
      obtain ⟨⟨_, head, payload⟩, hcls, hunpack⟩ := bind_eq_ok.mp hunpack
      cases hunpack
      refine ⟨hp.1, fun hfixed => ?_⟩
      obtain ⟨b, hb⟩ := hp.2 hfixed
      rw [hp.1, hfixed, unpack_fixed hcodec] at hcls
      obtain ⟨unpacked, hunpacked, hr⟩ := map_eq_ok.mp hcls
      cases hr
      obtain ⟨protocol, -, hunpacked⟩ := bind_eq_ok.mp hunpacked
      obtain ⟨data, -, hunpacked⟩ := bind_eq_ok.mp hunpacked
      obtain ⟨⟨_, stored⟩, hset, hunpacked⟩ := bind_eq_ok.mp hunpacked
      cases hunpacked
      exact ⟨data, (CRawMessage.setNewMsg_eq_ok hb hset).2⟩
    · intro cls p hp
      exact hp
  have hall := h.forall₂ hcalls
    (fun cls => ⟨rfl, fun _ => ⟨[], CRawMessage.init_holds CRawMessage.defCapSize⟩⟩) ?_
  · cases hall with
    | cons hp hrest =>
        cases hrest
        exact ⟨_, rfl, hp.1, hp.2 rfl⟩
  · intro cls p txData rxData hp
    cases txData <;> cases rxData <;> exact hp

/-- A frame is unpacked into its message, whatever its codec's object has held before. -/
theorem unpackRecurcive_frame (hcodec : codec.order? = some order) (msgId : UInt32)
    (hne : msg ≠ []) (hshort : msg.length < FixedHeader.segmentByteSize)
    {p : Protocol ShippedHead} (hcls : p.cls = codec.cls) {b : Bytes} (hb : p.payload.Holds b) :
    ∃ p', ProtoChain.unpackRecurcive [p] (FixedHeader.frame order msgId msg ++ [0])
        (FixedHeader.frame order msgId msg).length = .ok (true, [p']) ∧
      p'.cls = codec.cls ∧ p'.segments = p.segments ∧ p'.payload.content = msg := by
  obtain ⟨payload, hunpack, hholds⟩ := FixedHeader.unpack_frame order msgId hb hne hshort [] [0]
  rw [List.nil_append, List.append_nil] at hunpack
  obtain ⟨p', hp', hcls', hsegments, hpayload⟩ : ∃ p',
      p.unpack (FixedHeader.frame order msgId msg ++ [0])
        (FixedHeader.frame order msgId msg).length = .ok (true, p') ∧ p'.cls = codec.cls ∧
        p'.segments = p.segments ∧ p'.payload.content = msg := by
    rw [Protocol.unpack, hcls, unpack_fixed hcodec, hunpack]
    exact ⟨_, rfl, rfl, rfl, hholds.content_eq⟩
  refine ⟨p', ProtoChain.unpackRecurcive_single ?_ hp', hcls', hsegments, hpayload⟩
  rw [FixedHeader.length_frame, FixedHeader.size]
  omega

/-- A frame is a buffer of one well-formed message. -/
theorem messages_frame (hcodec : codec.order? = some order) (msgId : UInt32) (hne : msg ≠ [])
    (hshort : msg.length < FixedHeader.segmentByteSize) :
    Messages [codec.cls] (FixedHeader.frame order msgId msg ++ [0])
      (FixedHeader.frame order msgId msg).length 1 := by
  have htaken : TakenBy [codec.cls] (FixedHeader.frame order msgId msg ++ [0])
      (FixedHeader.frame order msgId msg).length (FixedHeader.frame order msgId msg).length := by
    constructor
    · rw [FixedHeader.length_frame, FixedHeader.size]
      omega
    · exact Nat.le_refl _
    · intro protocol rest hused
      obtain ⟨p, hp, hcls, -⟩ := usedChain_fixed hcodec hused
      obtain ⟨rfl, -⟩ := List.cons.inj hp
      rw [hcls, getMsgSize_cls]
    · intro elements hused
      obtain ⟨p, rfl, hcls, b, hb⟩ := usedChain_fixed hcodec hused
      obtain ⟨p', hunpack, -⟩ := unpackRecurcive_frame hcodec msgId hne hshort hcls hb
      exact ⟨[p'], hunpack⟩
  refine .next htaken ?_
  rw [Nat.sub_self]
  exact .done

end ShippedCodec

/-- A buffer that carries one byte for `CPBigEndian`. -/
def receivedByte : CRawMessage := CRawMessage.ofBytes (FixedHeader.frame .big 7 [0x41])

/-- The reply of a running communicator, whose provider takes everything. -/
def replyWith (other : Option (CConfigProtocols ShippedHead)) (keep : Bool) :
    Reply ShippedHead where
  impl :=
    { mSendPayload := true
      context := { now := 0, providerType := .transTCP, fromFullPath := [] } }
  otherConfig := other
  keepPayloadAfterTx := keep
  results _ := .ok true

section Byte

open ShippedCodec

theorem receivedByte_messages :
    Messages bigEndianConfig.protoList (FixedHeader.frame .big 7 [0x41] ++ [0])
      (FixedHeader.frame .big 7 [0x41]).length 1 :=
  @messages_frame .bigEndian .big [0x41] rfl 7 (by decide) (by decide)

theorem receivedByte_ne_nil : FixedHeader.frame .big 7 [0x41] ≠ [] := by decide

/-- The chain of the job when its callback gets the byte. -/
theorem unpackRecurcive_receivedByte :
    ∃ p, ProtoChain.unpackRecurcive [Protocol.create CPBigEndian]
        (FixedHeader.frame .big 7 [0x41] ++ [0]) (FixedHeader.frame .big 7 [0x41]).length =
        .ok (true, [p]) ∧
      p.cls = bigEndian.cls ∧ p.segments = [] ∧ p.payload.content = [0x41] :=
  @unpackRecurcive_frame .bigEndian .big [0x41] rfl 7 (by decide) (by decide)
    (Protocol.create CPBigEndian) rfl [] (CRawMessage.init_holds CRawMessage.defCapSize)

/-- The chain of the job packs the byte that it has got. -/
theorem encapsulation_receivedByte {p : Protocol ShippedHead} (hcls : p.cls = bigEndian.cls)
    (hsegments : p.segments = []) (hcontent : p.payload.content = [0x41])
    (other : Option (CConfigProtocols ShippedHead)) (keep : Bool) :
    CHProtoBaseLan.Packs
      (ChainUse.payload { created bigEndianConfig with elements := [p] }
        (CConfigProtocols.newChainName bigEndianConfig.protoChainsMap) keep)
      (replyWith other keep).impl.context := by
  obtain ⟨-, hshort⟩ := ICommunicatorImpl.packElements_fixedHeader
    (show bigEndian.order? = some .big from rfl) hcls hsegments 0 [0x41] .transTCP []
  obtain ⟨sent, hpack⟩ := ProtoChain.packRecursive_of_done 0 (hshort (by decide)).1
  refine ⟨(ProtoChain.packElements 0 [0x41] .transTCP [] [p]).2, sent, ?_⟩
  rw [CHProtoBaseLan.encapsulation, payload]
  simp only [List.head?_cons, Option.map_some, Option.getD_some, hcontent]
  exact (if_pos (decide_eq_true (alive_created bigEndianConfig).listed)).trans hpack

/-- The job keeps its chain over one reply to the byte that has the flag set, or that goes through
a communicator of another protocol file. -/
theorem keptThroughout_receivedByte {other : Option (CConfigProtocols ShippedHead)} {keep : Bool}
    (h : keep = true ∨ other.isSome) :
    KeptThroughout (CConfigProtocols.newChainName bigEndianConfig.protoChainsMap)
      (fun _ => [replyWith other keep]) (FixedHeader.frame .big 7 [0x41]).length 0
      (created bigEndianConfig) (FixedHeader.frame .big 7 [0x41] ++ [0])
      (FixedHeader.frame .big 7 [0x41]).length := by
  obtain ⟨p, hunpack, hcls, hsegments, hcontent⟩ := unpackRecurcive_receivedByte
  intro protocol rest chain helements _ hchain
  obtain ⟨rfl, rfl⟩ := List.cons.inj helements
  have hsame := hunpack.symm.trans hchain
  obtain rfl : [p] = chain := by simpa using hsame
  refine ⟨⟨fun _ => ?_, fun _ _ => trivial⟩, fun use' _ => keptThroughout_zero⟩
  have hpacks := encapsulation_receivedByte hcls hsegments hcontent other keep
  cases other with
  | none =>
      obtain rfl : keep = true := h.resolve_right Bool.false_ne_true
      obtain ⟨packed, sent, hpack⟩ := hpacks
      exact ⟨rfl, packed, sent, hpack, fun _ _ => rfl⟩
  | some other => exact hpacks

/-- With the flag set, and everything going well, the reply leaves the chain to the job. -/
theorem keptReply_safe :
    (repliedJob bigEndianConfig true receivedByte fun _ => [replyWith none true]).Safe
      bigEndianConfig 1 :=
  (repliedJob_safe_iff (CRawMessage.ofBytes_holds _) receivedByte_ne_nil receivedByte_messages true
    _).mpr ⟨by decide, keptThroughout_receivedByte (.inl rfl)⟩

/-- A communicator of another protocol file does not find the chain that it is to free. -/
theorem otherFile_safe (other : CConfigProtocols ShippedHead) (keep : Bool) :
    (repliedJob bigEndianConfig true receivedByte fun _ => [replyWith (some other) keep]).Safe
      bigEndianConfig 1 :=
  repliedJob_safe (CRawMessage.ofBytes_holds _) receivedByte_ne_nil receivedByte_messages
    (by decide) (keptThroughout_receivedByte (.inr rfl))

/-- Without the flag, the job's own clean-up does not find the chain any more. -/
theorem plainReply_unsafe :
    ¬∀ (config : CConfigProtocols ShippedHead) (msgRaw : CRawMessage) (b : Bytes) (k : Nat)
        (updater : Bool) (script : Nat → List (Reply ShippedHead)), msgRaw.Holds b → b ≠ [] →
      Messages config.protoList (b ++ [0]) b.length k →
      config.protoChainsMap.length < CConfigProtocols.maxProtocolChainInstances →
      (repliedJob config updater msgRaw script).Safe config k := by
  intro hall
  refine repliedJob_unsafe (CRawMessage.ofBytes_holds _) receivedByte_ne_nil receivedByte_messages
    ?_ (hall bigEndianConfig receivedByte _ 1 true (fun _ => [replyWith none false])
      (CRawMessage.ofBytes_holds _) receivedByte_ne_nil receivedByte_messages (by decide))
  rintro ⟨-, hkept⟩
  obtain ⟨p, hunpack, -⟩ := unpackRecurcive_receivedByte
  obtain ⟨⟨hkeeps, -⟩, -⟩ := hkept _ _ [p] rfl (by decide) hunpack
  cases (hkeeps rfl).1

end Byte

end CommonCommunicator
