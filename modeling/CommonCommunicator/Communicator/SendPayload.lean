import CommonCommunicator.Protocol.ChainPacking
import CommonCommunicator.Protocol.Shipped

/-!
# Sending a payload

`ICommunicatorImpl::send` hands a payload to the function that the protocol
handler has installed, `write_payload`: it packs the payload through its chain,
writes the segments one after the other and frees the chain. Every layer reports
failures by an exception or by false, up to `send`, which does not look at the
result.
-/

namespace CommonCommunicator

variable {Head : Type}

/-- A payload of the application: an element of a protocol chain, which may have been destroyed
already. -/
structure CPayload (Head : Type) where
  chain : ProtoChain Head
  locked : Bool
  self : Nat
  msg : Bytes
  keepPayloadAfterTx : Bool

/-- What `write_payload` asks of the clock, the provider and the application. -/
structure SendContext where
  now : UInt64
  providerType : ProviderType
  fromFullPath : Bytes

namespace CHProtoBaseLan

/-- `encapsulation`. A chain that was destroyed makes `get_proto_chain` throw. -/
def encapsulation (payload : CPayload Head) (context : SendContext) :
    Outcome (List (Protocol Head) × List CRawMessage) :=
  if payload.locked then
    ProtoChain.packRecursive payload.chain.elements payload.self context.now payload.msg
      context.providerType context.fromFullPath
  else throwThat .exception

/-- The loop over the segments. `results` are the ends of the `write_msg` calls, which return or
throw. -/
def writeSegments (results : Nat → Except StdException Bool) :
    Nat → List CRawMessage → Outcome Unit
  | _, [] => return ()
  | i, _ :: segments =>
      match results i with
      | .error e => throwThat e
      | .ok false => throwThat .logicError
      | .ok true => writeSegments results (i + 1) segments

/-- `write_payload`: its result, the chain map and the elements of the chain. -/
def writePayload (config : CConfigProtocols Head) (payload : CPayload Head)
    (context : SendContext) (results : Nat → Except StdException Bool) :
    Outcome (Bool × CConfigProtocols Head × List (Protocol Head)) :=
  match encapsulation payload context with
  | .error (.thrown _) =>
      .ok (false, config.destroyProtocolsChain payload.chain, payload.chain.elements)
  | .error f => .error f
  | .ok (elements, segments) =>
      match writeSegments results 0 segments with
      | .error (.thrown _) => .ok (false, config.destroyProtocolsChain payload.chain, elements)
      | .error f => .error f
      | .ok () =>
          if payload.keepPayloadAfterTx = false then
            .ok (true, config.destroyProtocolsChain payload.chain, elements)
          else .ok (true, config, ProtoChain.cleanData elements true false)

/-- The flag asks for the chain to be kept, and nothing happens that makes `write_payload` destroy
it all the same: the packing returns, and `write_msg` takes every segment. -/
def KeepsChain (payload : CPayload Head) (context : SendContext)
    (results : Nat → Except StdException Bool) : Prop :=
  payload.keepPayloadAfterTx = true ∧ ∃ packed sent,
    encapsulation payload context = .ok (packed, sent) ∧ ∀ i < sent.length, results i = .ok true

/-- The packing of the payload returns. -/
def Packs (payload : CPayload Head) (context : SendContext) : Prop :=
  ∃ packed sent, encapsulation payload context = .ok (packed, sent)

section WritePayload

variable {config config' : CConfigProtocols Head} {payload : CPayload Head}
  {context : SendContext} {results : Nat → Except StdException Bool}
  {elements : List (Protocol Head)}

/-- The loop over the segments ends exactly if `write_msg` takes each of them. -/
theorem writeSegments_eq_ok {i : Nat} {sent : List CRawMessage} :
    writeSegments results i sent = .ok () ↔ ∀ j < sent.length, results (i + j) = .ok true := by
  induction sent generalizing i with
  | nil => simp [writeSegments]
  | cons segment sent ih =>
      have hfirst : (∀ j < (segment :: sent).length, results (i + j) = .ok true) ↔
          results i = .ok true ∧ ∀ j < sent.length, results (i + 1 + j) = .ok true := by
        rw [List.length_cons, Nat.forall_lt_succ_left]
        simp only [Nat.add_zero, Nat.add_assoc, Nat.add_comm 1]
      rw [writeSegments, hfirst]
      split
      · next hthrown => simp [hthrown, throwThat]
      · next hrefused => simp [hrefused, throwThat]
      · next htaken => simp [htaken, ih]

/-- The loop returns, or throws. -/
theorem writeSegments_returns (results : Nat → Except StdException Bool) (i : Nat)
    (segments : List CRawMessage) :
    writeSegments results i segments = .ok () ∨
      ∃ e, writeSegments results i segments = .error (.thrown e) := by
  induction segments generalizing i with
  | nil => exact Or.inl rfl
  | cons segment segments ih =>
      rw [writeSegments]
      split
      · exact Or.inr ⟨_, rfl⟩
      · exact Or.inr ⟨_, rfl⟩
      · exact ih (i + 1)

/-- A `write_payload` that returns true has sent the kept payload and emptied its chain. -/
theorem writePayload_kept (hkeep : payload.keepPayloadAfterTx = true)
    (hwrite : writePayload config payload context results = .ok (true, config', elements)) :
    ∃ packed sent, encapsulation payload context = .ok (packed, sent) ∧
      (∀ i < sent.length, results i = .ok true) ∧
      elements = ProtoChain.cleanData packed true false := by
  rw [writePayload] at hwrite
  split at hwrite
  · cases hwrite
  · cases hwrite
  · next packed sent hpack =>
      split at hwrite
      · cases hwrite
      · cases hwrite
      · next htaken =>
          rw [if_neg (by simp [hkeep])] at hwrite
          cases hwrite
          refine ⟨packed, sent, hpack, fun i hi => ?_, rfl⟩
          have hresult := writeSegments_eq_ok.mp htaken i hi
          rwa [Nat.zero_add] at hresult

/-- A chain that `write_payload` keeps stays in the map, emptied. -/
theorem writePayload_keeps (config : CConfigProtocols Head)
    (h : KeepsChain payload context results) :
    ∃ packed sent, encapsulation payload context = .ok (packed, sent) ∧
      writePayload config payload context results =
        .ok (true, config, ProtoChain.cleanData packed true false) := by
  obtain ⟨hkeep, packed, sent, hpack, htaken⟩ := h
  have hwritten : writeSegments results 0 sent = .ok () := by
    refine writeSegments_eq_ok.mpr fun j hj => ?_
    rw [Nat.zero_add]
    exact htaken j hj
  refine ⟨packed, sent, hpack, ?_⟩
  simp [writePayload, hpack, hwritten, hkeep]

/-- Any other call destroys the chain if it returns. -/
theorem writePayload_destroys (config : CConfigProtocols Head)
    (h : ¬KeepsChain payload context results) :
    (∃ f, writePayload config payload context results = .error f) ∨
      ∃ res elements, writePayload config payload context results =
        .ok (res, config.destroyProtocolsChain payload.chain, elements) := by
  rw [writePayload]
  split
  · exact .inr ⟨_, _, rfl⟩
  · exact .inl ⟨_, rfl⟩
  · next packed sent hpack =>
      obtain hwritten | ⟨e, hthrown⟩ := writeSegments_returns results 0 sent
      · have hdestroyed : payload.keepPayloadAfterTx = false := by
          by_contra hkeep
          refine h ⟨by simpa using hkeep, packed, sent, hpack, fun i hi => ?_⟩
          have hresult := writeSegments_eq_ok.mp hwritten i hi
          rwa [Nat.zero_add] at hresult
        simp only [hwritten, hdestroyed, if_true]
        exact .inr ⟨_, _, rfl⟩
      · simp only [hthrown]
        exact .inr ⟨_, _, rfl⟩

/-- A packed payload comes back as its codecs have left it, whatever `write_msg` does. -/
theorem writePayload_packed (config : CConfigProtocols Head)
    (results : Nat → Except StdException Bool) {packed : List (Protocol Head)}
    {sent : List CRawMessage} (hpack : encapsulation payload context = .ok (packed, sent)) :
    ∃ res config' elements, writePayload config payload context results =
        .ok (res, config', elements) ∧
      (elements = packed ∨ elements = ProtoChain.cleanData packed true false) := by
  rw [writePayload, hpack]
  obtain hwritten | ⟨e, hthrown⟩ := writeSegments_returns results 0 sent
  · simp only [hwritten]
    split
    · exact ⟨_, _, _, rfl, .inl rfl⟩
    · exact ⟨_, _, _, rfl, .inr rfl⟩
  · simp only [hthrown]
    exact ⟨_, _, _, rfl, .inl rfl⟩

/-- A packing that stops the process is not caught. -/
theorem writePayload_stops (config : CConfigProtocols Head)
    (results : Nat → Except StdException Bool) {f : Fault}
    (hpack : encapsulation payload context = .error f) (hnot : ∀ e, f ≠ .thrown e) :
    writePayload config payload context results = .error f := by
  rw [writePayload, hpack]
  cases f with
  | thrown e => exact absurd rfl (hnot e)
  | assertion => rfl
  | undefined => rfl

end WritePayload

end CHProtoBaseLan

/-- `ICommunicatorImpl`, as far as `send` uses it: `m_send_payload` is set once the provider has
created its protocol handler. -/
structure ICommunicatorImpl where
  mSendPayload : Bool
  context : SendContext

namespace ICommunicatorImpl

open CHProtoBaseLan

/-- `send`. -/
def send (impl : ICommunicatorImpl) (config : CConfigProtocols Head) (payload : CPayload Head)
    (results : Nat → Except StdException Bool) :
    Outcome (Bool × CConfigProtocols Head × List (Protocol Head)) :=
  if impl.mSendPayload = false then .ok (false, config, payload.chain.elements)
  else do
    let (_, config, elements) ← writePayload config payload impl.context results
    return (true, config, elements)

/-- At least one segment was produced, and `write_msg` returned true for each. -/
def HandedOver (impl : ICommunicatorImpl) (payload : CPayload Head)
    (results : Nat → Except StdException Bool) : Prop :=
  ∃ elements segments, encapsulation payload impl.context = .ok (elements, segments) ∧
    segments ≠ [] ∧ ∀ i < segments.length, results i = .ok true

/-- `send` returns true only if the bytes were handed over. -/
def Truthful (impl : ICommunicatorImpl) (config : CConfigProtocols Head)
    (payload : CPayload Head) (results : Nat → Except StdException Bool) : Prop :=
  ∀ config' elements, impl.send config payload results = .ok (true, config', elements) →
    impl.HandedOver payload results

/-- The codecs of the payload's chain pack the payload and are `elements` then. -/
def Encodes (impl : ICommunicatorImpl) (payload : CPayload Head)
    (elements : List (Protocol Head)) : Prop :=
  ProtoChain.Encodes impl.context.now impl.context.providerType impl.context.fromFullPath
    payload.msg payload.chain.elements elements

/-- A codec of the payload's chain raises an exception. -/
def EncodingRaises (impl : ICommunicatorImpl) (payload : CPayload Head) : Prop :=
  ProtoChain.EncodingRaises impl.context.now impl.context.providerType impl.context.fromFullPath
    payload.msg payload.chain.elements

/-- None of the failures occurs that `send` does not see. -/
structure NothingSwallowed (impl : ICommunicatorImpl) (payload : CPayload Head)
    (results : Nat → Except StdException Bool) : Prop where
  alive : payload.locked = true
  raisesNothing : ¬impl.EncodingRaises payload
  pushes : ∀ elements, impl.Encodes payload elements →
    ProtoChain.segmentsAt elements payload.self ≠ []
  accepted : ∀ elements, impl.Encodes payload elements →
    ∀ i < (ProtoChain.segmentsAt elements payload.self).length, results i = .ok true

/-- The `try` block of `pack_recursive` on the payload. -/
def packed (impl : ICommunicatorImpl) (payload : CPayload Head) :
    Outcome Unit × List (Protocol Head) :=
  ProtoChain.packElements impl.context.now payload.msg impl.context.providerType
    impl.context.fromFullPath payload.chain.elements

/-- The segments that it leaves for the provider. -/
def pushed (impl : ICommunicatorImpl) (payload : CPayload Head) : List CRawMessage :=
  ProtoChain.segmentsAt (impl.packed payload).2 payload.self

variable {impl : ICommunicatorImpl} {config : CConfigProtocols Head} {payload : CPayload Head}
  {results : Nat → Except StdException Bool}

/-- The failures in terms of the packing. -/
theorem nothingSwallowed_iff : impl.NothingSwallowed payload results ↔
    payload.locked = true ∧ (∀ e, (impl.packed payload).1 ≠ .error (.thrown e)) ∧
      ((impl.packed payload).1 = .ok () → impl.pushed payload ≠ [] ∧
        ∀ i < (impl.pushed payload).length, results i = .ok true) := by
  have hencodes : ∀ elements, impl.Encodes payload elements ↔
      impl.packed payload = (.ok (), elements) :=
    fun elements => ProtoChain.packElements_iff.symm
  have hraises : impl.EncodingRaises payload ↔
      ∃ e, (impl.packed payload).1 = .error (.thrown e) :=
    ProtoChain.packElements_thrown_iff.symm
  constructor
  · intro h
    refine ⟨h.alive, ?_, ?_⟩
    · intro e hraised
      exact h.raisesNothing (hraises.mpr ⟨e, hraised⟩)
    · intro hdone
      have hpacked := (hencodes _).mpr (Prod.ext hdone rfl)
      exact ⟨h.pushes _ hpacked, h.accepted _ hpacked⟩
  · rintro ⟨halive, hquiet, hpushed⟩
    have hleft : ∀ elements, impl.Encodes payload elements →
        ProtoChain.segmentsAt elements payload.self = impl.pushed payload ∧
          (impl.packed payload).1 = .ok () := by
      intro elements hpacked
      rw [pushed, (hencodes elements).mp hpacked]
      exact ⟨rfl, rfl⟩
    constructor
    · exact halive
    · rw [hraises]
      rintro ⟨e, hraised⟩
      exact hquiet e hraised
    · intro elements hpacked
      obtain ⟨hsegments, hdone⟩ := hleft elements hpacked
      rw [hsegments]
      exact (hpushed hdone).1
    · intro elements hpacked
      obtain ⟨hsegments, hdone⟩ := hleft elements hpacked
      rw [hsegments]
      exact (hpushed hdone).2

/-- `write_payload` returns unless the packing aborts. -/
theorem writePayload_returns (config : CConfigProtocols Head) (payload : CPayload Head)
    (context : SendContext) (results : Nat → Except StdException Bool) :
    (∃ f, encapsulation payload context = .error f ∧ (∀ e, f ≠ .thrown e) ∧
        writePayload config payload context results = .error f) ∨
      ∃ res config' elements, writePayload config payload context results =
          .ok (res, config', elements) ∧
        (config' = config.destroyProtocolsChain payload.chain ∨
          payload.keepPayloadAfterTx = true) ∧
        ∀ f, encapsulation payload context = .error f → ∃ e, f = .thrown e := by
  rw [writePayload]
  cases hpack : encapsulation payload context with
  | error f =>
      cases f with
      | thrown e => exact Or.inr ⟨_, _, _, rfl, Or.inl rfl, by simp⟩
      | assertion => exact Or.inl ⟨_, rfl, by simp, rfl⟩
      | undefined => exact Or.inl ⟨_, rfl, by simp, rfl⟩
  | ok packed =>
      obtain ⟨elements, segments⟩ := packed
      right
      obtain hwritten | ⟨e, hthrown⟩ := writeSegments_returns results 0 segments
      · simp only [hwritten]
        split
        · exact ⟨_, _, _, rfl, Or.inl rfl, by simp⟩
        · next hkeep => exact ⟨_, _, _, rfl, Or.inr (by simpa using hkeep), by simp⟩
      · simp only [hthrown]
        exact ⟨_, _, _, rfl, Or.inl rfl, by simp⟩

/-- An exception leaves the payload's element without segments. -/
theorem segmentsAt_emptied (elements : List (Protocol Head)) (self : Nat) :
    ProtoChain.segmentsAt (elements.modify self fun p => { p with segments := [] }) self = [] := by
  rw [ProtoChain.segmentsAt, List.getElem?_modify_eq]
  cases elements[self]? with
  | none => rfl
  | some p => rfl

/-- What the packing of a payload comes to. -/
theorem encapsulation_cases (impl : ICommunicatorImpl) (payload : CPayload Head) :
    (payload.locked = false ∧ encapsulation payload impl.context = .error (.thrown .exception)) ∨
      payload.locked = true ∧
        ((impl.packed payload).1 = .ok () ∧ encapsulation payload impl.context =
            .ok ((impl.packed payload).2, impl.pushed payload) ∨
          (∃ e elements, (impl.packed payload).1 = .error (.thrown e) ∧
            encapsulation payload impl.context = .ok (elements, [])) ∨
          ∃ f, (impl.packed payload).1 = .error f ∧ (∀ e, f ≠ .thrown e) ∧
            encapsulation payload impl.context = .error f) := by
  cases hlocked : payload.locked with
  | false =>
      left
      exact ⟨rfl, by simp [encapsulation, hlocked, throwThat]⟩
  | true =>
      right
      refine ⟨rfl, ?_⟩
      have hpacked : impl.packed payload = ProtoChain.packElements impl.context.now payload.msg
          impl.context.providerType impl.context.fromFullPath payload.chain.elements := rfl
      rw [encapsulation, hlocked, if_pos rfl, ProtoChain.packRecursive, ← hpacked, pushed]
      obtain ⟨res, elements⟩ := impl.packed payload
      cases res with
      | ok _ =>
          left
          exact ⟨rfl, rfl⟩
      | error f =>
          right
          cases f with
          | assertion => exact Or.inr ⟨_, rfl, by simp, rfl⟩
          | undefined => exact Or.inr ⟨_, rfl, by simp, rfl⟩
          | thrown e =>
              left
              refine ⟨e, elements.modify payload.self fun p => { p with segments := [] }, rfl, ?_⟩
              simp only [segmentsAt_emptied]

/-- A payload that its codecs pack does not stop the process. -/
theorem encapsulation_of_packed (hdone : (impl.packed payload).1 = .ok ()) :
    ∀ f, encapsulation payload impl.context = .error f → ∃ e, f = .thrown e := by
  intro f hpack
  obtain ⟨-, hthrown⟩ | ⟨-, ⟨-, hok⟩ | ⟨e, elements, hraised, -⟩ | ⟨f', hfault, -⟩⟩ :=
    encapsulation_cases impl payload
  · rw [hthrown] at hpack
    exact ⟨_, (Except.error.inj hpack).symm⟩
  · rw [hok] at hpack
    cases hpack
  · cases hdone.symm.trans hraised
  · cases hdone.symm.trans hfault

/-- An installed handler makes `send` return true, unless the packing stops the process. -/
theorem send_true_iff (config : CConfigProtocols Head) (payload : CPayload Head)
    (results : Nat → Except StdException Bool) (hhandler : impl.mSendPayload = true) :
    (∃ config' elements, impl.send config payload results = .ok (true, config', elements)) ↔
      ∀ f, encapsulation payload impl.context = .error f → ∃ e, f = .thrown e := by
  rw [send, if_neg (by simp [hhandler])]
  obtain ⟨f, hpack, hnot, hwrite⟩ | ⟨res, config', elements, hwrite, -, hcaught⟩ :=
    writePayload_returns config payload impl.context results
  · simp [hwrite, hpack, hnot]
  · simp only [hwrite, ok_bind, pure_eq_ok]
    constructor
    · intro _
      exact hcaught
    · intro _
      exact ⟨config', elements, rfl⟩

/-- A fixed-header object packs with the members of its class. -/
theorem pack_fixedHeader {codec : ShippedCodec} {order : ByteOrder}
    (hcodec : codec.order? = some order) {p : Protocol ShippedHead} (hcls : p.cls = codec.cls)
    (now : UInt64) (msg : Bytes) (pvd : ProviderType) (fromApp : Bytes) :
    p.pack now msg pvd fromApp = (FixedHeader.pack order p.head.fixed msg pvd).map fun r =>
      (r.1, { p with
        head := { p.head with fixed := r.2.1 }
        segments := p.segments ++ r.2.2 }) := by
  rw [Protocol.pack, hcls, ShippedCodec.pack_fixed hcodec]
  cases FixedHeader.pack order p.head.fixed msg pvd with
  | error f => rfl
  | ok r => rfl

/-- A fixed-header codec alone on a payload: a full segment trips its assertion, an empty payload
passes without a segment. -/
theorem packElements_fixedHeader {codec : ShippedCodec} {order : ByteOrder}
    (hcodec : codec.order? = some order) {p : Protocol ShippedHead} (hcls : p.cls = codec.cls)
    (hfresh : p.segments = []) (now : UInt64) (msg : Bytes) (pvd : ProviderType)
    (fromApp : Bytes) :
    (FixedHeader.segmentByteSize ≤ msg.length →
        (ProtoChain.packElements now msg pvd fromApp [p]).1 = .error .assertion) ∧
      (msg.length < FixedHeader.segmentByteSize →
        (ProtoChain.packElements now msg pvd fromApp [p]).1 = .ok () ∧
          (ProtoChain.segmentsAt (ProtoChain.packElements now msg pvd fromApp [p]).2 0).length =
            if msg = [] then 0 else 1) := by
  rw [ProtoChain.packElements, pack_fixedHeader hcodec hcls]
  constructor
  · intro hlong
    rw [FixedHeader.pack_long order p.head.fixed pvd hlong]
    rfl
  · intro hshort
    by_cases hne : msg = []
    · subst hne
      have hpack : FixedHeader.pack order p.head.fixed [] pvd = .ok (true, p.head.fixed, []) := rfl
      simp [hpack, Except.map, ProtoChain.packRest, ProtoChain.segmentsAt, hfresh]
    · obtain ⟨segment, hpack, -⟩ := FixedHeader.pack_short order p.head.fixed pvd hne hshort
      simp [hpack, Except.map, ProtoChain.packRest, ProtoChain.segmentsAt, hfresh, hne]

/-- With a fixed-header codec the unseen failures are a dead chain, an empty payload and a
`write_msg` that does not return true. -/
theorem nothingSwallowed_fixedHeader {codec : ShippedCodec} {order : ByteOrder}
    (hcodec : codec.order? = some order) {p : Protocol ShippedHead} (hcls : p.cls = codec.cls)
    (hfresh : p.segments = []) (impl : ICommunicatorImpl) {payload : CPayload ShippedHead}
    (hself : payload.self = 0) (hchain : payload.chain.elements = [p])
    (results : Nat → Except StdException Bool) :
    impl.NothingSwallowed payload results ↔
      payload.locked = true ∧ payload.msg ≠ [] ∧
        (payload.msg.length < FixedHeader.segmentByteSize → results 0 = .ok true) := by
  have hpushed : ProtoChain.segmentsAt (impl.packed payload).2 0 = impl.pushed payload := by
    rw [pushed, hself]
  obtain ⟨hlong, hshort⟩ := packElements_fixedHeader hcodec hcls hfresh impl.context.now
    payload.msg impl.context.providerType impl.context.fromFullPath
  rw [← hchain, ← packed] at hlong hshort
  rw [hpushed] at hshort
  rw [nothingSwallowed_iff]
  by_cases hfits : payload.msg.length < FixedHeader.segmentByteSize
  · obtain ⟨hdone, hcount⟩ := hshort hfits
    constructor
    · rintro ⟨halive, -, hleft⟩
      obtain ⟨hpushes, haccepted⟩ := hleft hdone
      have hne : payload.msg ≠ [] := by
        intro hempty
        rw [if_pos hempty] at hcount
        exact hpushes (List.eq_nil_of_length_eq_zero hcount)
      rw [if_neg hne] at hcount
      exact ⟨halive, hne, fun _ => haccepted 0 (by omega)⟩
    · rintro ⟨halive, hne, haccepted⟩
      rw [if_neg hne] at hcount
      refine ⟨halive, by simp [hdone], fun _ => ⟨?_, ?_⟩⟩
      · exact List.ne_nil_of_length_pos (by omega)
      · intro i hi
        obtain rfl : i = 0 := by omega
        exact haccepted hfits
  · have hstop := hlong (Nat.le_of_not_lt hfits)
    constructor
    · rintro ⟨halive, -, -⟩
      refine ⟨halive, ?_, fun hfits' => absurd hfits' hfits⟩
      intro hempty
      exact hfits (by rw [hempty]; decide)
    · rintro ⟨halive, -, -⟩
      exact ⟨halive, by simp [hstop], by simp [hstop]⟩

/-- With an installed handler, what counts is whether the bytes are handed over once the packing
does not stop the process. -/
theorem truthful_installed (hhandler : impl.mSendPayload = true) :
    impl.Truthful config payload results ↔
      ((∀ f, encapsulation payload impl.context = .error f → ∃ e, f = .thrown e) →
        impl.HandedOver payload results) := by
  rw [← send_true_iff config payload results hhandler]
  constructor
  · rintro h ⟨config', elements, htrue⟩
    exact h config' elements htrue
  · intro h config' elements htrue
    exact h ⟨config', elements, htrue⟩

/-- `send` is truthful exactly when no handler is installed, or nothing that it ignores goes
wrong. -/
theorem truthful_iff (impl : ICommunicatorImpl) (config : CConfigProtocols Head)
    (payload : CPayload Head) (results : Nat → Except StdException Bool) :
    impl.Truthful config payload results ↔
      (impl.mSendPayload = true → impl.NothingSwallowed payload results) := by
  cases hhandler : impl.mSendPayload with
  | false => simp [Truthful, send, hhandler]
  | true =>
      rw [truthful_installed hhandler, nothingSwallowed_iff]
      simp only [forall_const]
      obtain ⟨hdead, hpack⟩ | ⟨hlocked, ⟨hdone, hpack⟩ | ⟨e, elements, hraised, hpack⟩ |
        ⟨f, hfault, hnot, hpack⟩⟩ := encapsulation_cases impl payload
      · have hlost : ¬impl.HandedOver payload results := by simp [HandedOver, hpack]
        constructor
        · intro h
          exact absurd (h (by simp [hpack])) hlost
        · rintro ⟨halive, -, -⟩
          rw [hdead] at halive
          cases halive
      · have hover : impl.HandedOver payload results ↔ impl.pushed payload ≠ [] ∧
            ∀ i < (impl.pushed payload).length, results i = .ok true := by
          simp [HandedOver, hpack]
        rw [hover]
        constructor
        · intro h
          exact ⟨hlocked, by simp [hdone], fun _ => h (by simp [hpack])⟩
        · rintro ⟨-, -, hpushed⟩ _
          exact hpushed hdone
      · have hlost : ¬impl.HandedOver payload results := by simp [HandedOver, hpack]
        constructor
        · intro h
          exact absurd (h (by simp [hpack])) hlost
        · rintro ⟨-, hquiet, -⟩
          exact absurd hraised (hquiet e)
      · constructor
        · intro _
          exact ⟨hlocked, by simpa [hfault] using hnot, by simp [hfault]⟩
        · intro _ hthrown
          obtain ⟨e, he⟩ := hthrown f hpack
          exact absurd he (hnot e)

/-- A TCP communicator whose provider runs. -/
def tcpStarted : ICommunicatorImpl :=
  { mSendPayload := true
    context := { now := 0, providerType := .transTCP, fromFullPath := [] } }

/-- A byte for `CPBigEndian`, in a chain of its own. -/
def oneByte : CPayload ShippedHead :=
  { chain := { name := 1, elements := [Protocol.create CPBigEndian] }
    locked := true
    self := 0
    msg := [0x41]
    keepPayloadAfterTx := false }

/-- `send` reports success although `write_msg` has refused the only segment. -/
theorem refusedWrite_not_truthful :
    ¬tcpStarted.Truthful { protoList := [CPBigEndian], protoChainsMap := [1] } oneByte
      (fun _ => .ok false) := by
  intro htruthful
  obtain ⟨-, hshort⟩ := packElements_fixedHeader (show ShippedCodec.bigEndian.order? = some .big
    from rfl) (p := Protocol.create CPBigEndian) rfl rfl 0 [0x41] .transTCP []
  have hdone : (tcpStarted.packed oneByte).1 = .ok () := (hshort (by decide)).1
  obtain ⟨config', elements', hsend⟩ := (send_true_iff _ oneByte _ rfl).mpr
    (encapsulation_of_packed hdone)
  obtain ⟨elements, segments, -, hsome, hwritten⟩ := htruthful config' elements' hsend
  have hfirst := hwritten 0 (List.length_pos_iff.mpr hsome)
  cases hfirst

end ICommunicatorImpl

end CommonCommunicator
