import CommonCommunicator.Protocol.Chain

/-!
# Round trips through a protocol chain

The sender's chain nests its codecs: each element packs the segment of the
element before it. What `pack_recursive` returns are the segments of the object
it was called on, which is the first element, so the wire carries the innermost
segment while the receiver unpacks from the outermost codec inwards. A payload
comes back when no outer codec takes part in the unpacking.
-/

namespace CommonCommunicator

variable {Head : Type}

namespace IProtocolInf

/-- The payload that a fresh object of the class holds after it has unpacked a message, if it
returns true. -/
def decode (cls : IProtocolInf Head) (msg : CRawMessage) : Option CRawMessage :=
  match (Protocol.create cls).unpack (msg.getMsgReadOnly.getD []) msg.msgSize with
  | .ok (true, p) => some p.payload
  | _ => none

theorem decode_eq_some {cls : IProtocolInf Head} {msg payload : CRawMessage}
    (h : cls.decode msg = some payload) :
    ∃ p, (Protocol.create cls).unpack (msg.getMsgReadOnly.getD []) msg.msgSize = .ok (true, p) ∧
      p.payload = payload := by
  rw [decode] at h
  split at h
  · next p hunpack =>
      obtain rfl : p.payload = payload := by simpa using h
      exact ⟨p, hunpack, rfl⟩
  · cases h

theorem decode_eq_none {cls : IProtocolInf Head} {msg : CRawMessage} (h : cls.decode msg = none) :
    ∀ p, (Protocol.create cls).unpack (msg.getMsgReadOnly.getD []) msg.msgSize ≠
      .ok (true, p) := by
  intro p hunpack
  rw [decode, hunpack] at h
  cases h

/-- A class sees nothing of a message but its bytes. -/
theorem decode_congr (cls : IProtocolInf Head) {received received' : CRawMessage} {b : Bytes}
    (h : received.Holds b) (h' : received'.Holds b) (hne : b ≠ []) :
    cls.decode received = cls.decode received' := by
  rw [decode, decode, h.getMsgReadOnly_eq hne, h'.getMsgReadOnly_eq hne, h.size, h'.size]

/-- The base class hands a message on as it is. -/
theorem decode_base (fresh : Head) {received : CRawMessage} {b : Bytes} (h : received.Holds b)
    (hne : b ≠ []) : ∃ payload, (base fresh).decode received = some payload ∧ payload.Holds b := by
  have hpos : 0 < b.length := List.length_pos_iff.mpr hne
  have hread : readBytes (b ++ [0]) 0 b.length = .ok b := by
    rw [readBytes_of_le (by simp)]
    simp [Lib.field]
  obtain ⟨payload, hset, hholds, -⟩ := CRawMessage.setNewMsg_holds
    (CRawMessage.init_holds CRawMessage.defCapSize) hne
  refine ⟨payload, ?_, hholds⟩
  rw [decode, h.getMsgReadOnly_eq hne, h.size]
  simp [Protocol.unpack, Protocol.create, base, hpos, hread, hset]

end IProtocolInf

/-- An element of a sending chain: a newly created object whose members may have been set since. -/
structure ChainElement (Head : Type) where
  cls : IProtocolInf Head
  head : Head

namespace ChainElement

def object (e : ChainElement Head) : Protocol Head :=
  { Protocol.create e.cls with head := e.head }

/-- An element whose members nobody has set. -/
def ofClass (cls : IProtocolInf Head) : ChainElement Head := { cls := cls, head := cls.fresh }

/-- The element packs `msg` into one segment, which holds `wire`, and a fresh object of its class
unpacks `msg` from there. -/
def RoundTripsOn (e : ChainElement Head) (now : UInt64) (pvd : ProviderType)
    (fromApp msg wire : Bytes) : Prop :=
  ∃ head segment, e.cls.pack e.head now msg pvd fromApp = .ok (true, head, [segment]) ∧
    segment.Holds wire ∧ (e.cls.decode segment).map CRawMessage.content = some msg

end ChainElement

namespace ProtoChain

/-- Fresh objects of the classes of a chain. -/
def fresh (classes : List (IProtocolInf Head)) : List (Protocol Head) :=
  classes.map Protocol.create

/-- Each element accepts what the element before it has packed, the first one `msg`, and round-trips
on it. -/
def Accepts (now : UInt64) (pvd : ProviderType) (fromApp : Bytes) :
    List (ChainElement Head) → Bytes → Prop
  | [], _ => True
  | e :: rest, msg => ∃ wire, e.RoundTripsOn now pvd fromApp msg wire ∧
      Accepts now pvd fromApp rest wire

/-- `pack_recursive` on the first element of the chain returns segments, and each of them,
unpacked by a fresh chain of the same classes, leaves `msg` in the first element. -/
def RoundTrips (now : UInt64) (pvd : ProviderType) (fromApp : Bytes)
    (elements : List (ChainElement Head)) (msg : Bytes) : Prop :=
  ∃ sender segments,
    packRecursive (elements.map ChainElement.object) 0 now msg pvd fromApp =
        .ok (sender, segments) ∧
    segments ≠ [] ∧ ∀ segment ∈ segments, ∃ receiver,
      unpackRecurcive (fresh (elements.map ChainElement.cls)) (segment.getMsgReadOnly.getD [])
          segment.msgSize = .ok (true, receiver) ∧
      receiver.head?.map (fun p => p.payload.content) = some msg

/-- No outer codec takes part in the unpacking: there is none, or every other element is of the
base class and the first one is not passed over as if it were. -/
def NoOuterTakesPart (first : IProtocolInf Head) (outer : List (IProtocolInf Head)) : Prop :=
  outer = [] ∨ (first.name ≠ IProtocolInf.defaultName ∧
    ∀ cls ∈ outer, ∃ fresh, cls = IProtocolInf.base fresh)

/-- What the first codec ends up holding when the remaining codecs, nearest to the wire first,
are about to see `payload`: nothing new if they come to an empty payload or if the first codec is
passed over. -/
def deliveredInward (first : IProtocolInf Head) :
    List (IProtocolInf Head) → CRawMessage → Option Bytes
  | [], payload =>
      if payload.msgSize = 0 ∨ first.name = IProtocolInf.defaultName then some []
      else (first.decode payload).map CRawMessage.content
  | cls :: rest, payload =>
      if payload.msgSize = 0 then some []
      else if cls.name = IProtocolInf.defaultName then deliveredInward first rest payload
      else (cls.decode payload).bind (deliveredInward first rest)

/-- What the first codec of a chain ends up holding when the codecs behind it, at least one,
receive `segment`. -/
def delivered (first : IProtocolInf Head) (outer : List (IProtocolInf Head))
    (segment : CRawMessage) : Option Bytes :=
  match outer.reverse with
  | [] => (first.decode segment).map CRawMessage.content
  | last :: rest => (last.decode segment).bind (deliveredInward first rest)

variable {now : UInt64} {pvd : ProviderType} {fromApp msg wire : Bytes}
  {first : IProtocolInf Head} {e : ChainElement Head} {outer : List (ChainElement Head)}

section Packing

theorem packSegments_single {segment segment' : CRawMessage} {head : Head}
    (h : e.cls.pack e.head now segment.content pvd fromApp = .ok (true, head, [segment'])) :
    ∃ p, packSegments now pvd fromApp e.object [segment] = (.ok (), p) ∧
      p.segments = [segment'] := by
  refine ⟨{ e.object with head := head, segments := [segment'] }, ?_, rfl⟩
  have hobject : e.object.pack now segment.content pvd fromApp =
      .ok (true, { e.object with head := head, segments := [segment'] }) := by
    simp [Protocol.pack, ChainElement.object, h]
  rw [packSegments, hobject]
  rfl

/-- Nested codecs pack through without a fault. -/
theorem packRest_of_accepts {segment : CRawMessage} (hsegment : segment.Holds wire)
    (h : Accepts now pvd fromApp outer wire) :
    ∃ rest, packRest now pvd fromApp [segment] (outer.map ChainElement.object) =
      (.ok (), rest) := by
  induction outer generalizing segment wire with
  | nil => exact ⟨[], rfl⟩
  | cons e outer ih =>
      obtain ⟨wire', ⟨head, segment', hpack, hsegment', -⟩, hrest⟩ := h
      rw [← hsegment.content_eq] at hpack
      obtain ⟨p, hp, hsegments⟩ := packSegments_single hpack
      obtain ⟨rest, hrest⟩ := ih hsegment' hrest
      refine ⟨p :: rest, ?_⟩
      rw [List.map_cons, packRest, hp]
      simp only [hsegments]
      rw [hrest]

/-- The segments that come back are the one of the first element. -/
theorem packRecursive_first {segment : CRawMessage} {head : Head}
    (hpack : e.cls.pack e.head now msg pvd fromApp = .ok (true, head, [segment]))
    (hsegment : segment.Holds wire) (houter : Accepts now pvd fromApp outer wire) :
    ∃ sender, packRecursive ((e :: outer).map ChainElement.object) 0 now msg pvd fromApp =
      .ok (sender, [segment]) := by
  obtain ⟨rest, hrest⟩ := packRest_of_accepts hsegment houter
  have hobject : e.object.pack now msg pvd fromApp =
      .ok (true, { e.object with head := head, segments := [segment] }) := by
    simp [Protocol.pack, ChainElement.object, hpack]
  have hcls : e.object.cls = e.cls := rfl
  by_cases hname : e.cls.name = IProtocolInf.defaultName
  · refine ⟨{ e.object with head := head, segments := [segment] } ::
      outer.map ChainElement.object, ?_⟩
    simp [packRecursive, packElements, hobject, hcls, hname, segmentsAt]
  · refine ⟨{ e.object with head := head, segments := [segment] } :: rest, ?_⟩
    simp [packRecursive, packElements, hobject, hcls, hname, hrest, segmentsAt]

end Packing

section Unpacking

/-- The elements that unpacked end with one that holds `msg`. -/
private def Leaves (res : Outcome (List (Protocol Head))) (msg : Bytes) : Prop :=
  ∃ done, res = .ok done ∧ done.getLast?.map (fun p => p.payload.content) = some msg

private theorem leaves_cons {pre q : Protocol Head} {elements : List (Protocol Head)}
    (hne : elements ≠ []) {msg : Bytes} :
    Leaves (unpackLoop pre elements >>= fun rest => .ok (q :: rest)) msg ↔
      Leaves (unpackLoop pre elements) msg := by
  cases hloop : unpackLoop pre elements with
  | error f => simp [Leaves]
  | ok done =>
      have hlen := length_unpackLoop hloop
      cases done with
      | nil => exact absurd (List.length_eq_zero_iff.mp hlen.symm) hne
      | cons p done => simp [Leaves]

private theorem leaves_iff_deliveredInward {first : IProtocolInf Head}
    (inner : List (IProtocolInf Head)) (pre : Protocol Head) {msg : Bytes} :
    Leaves (unpackLoop pre (fresh (inner ++ [first]))) msg ↔
      deliveredInward first inner pre.payload = some msg := by
  induction inner generalizing pre with
  | nil =>
      rw [List.nil_append, fresh, List.map_singleton, deliveredInward]
      by_cases hempty : pre.payload.msgSize = 0
      · rw [unpackLoop_empty hempty, if_pos (Or.inl hempty)]
        simp [Leaves, eq_comm]
      · by_cases hname : first.name = IProtocolInf.defaultName
        · rw [unpackLoop_passed hempty hname, if_pos (Or.inr hname)]
          simp [Leaves, unpackLoop, eq_comm]
        · rw [if_neg (by simp [hempty, hname])]
          cases hdecode : first.decode pre.payload with
          | none =>
              have hrefused := unpackLoop_refused [] hempty hname
                (IProtocolInf.decode_eq_none hdecode)
              simp [Leaves, hrefused]
          | some payload =>
              obtain ⟨p, hunpack, rfl⟩ := IProtocolInf.decode_eq_some hdecode
              rw [unpackLoop_taken hempty hname hunpack]
              simp [Leaves, unpackLoop]
  | cons cls inner ih =>
      have hne : fresh (inner ++ [first]) ≠ [] := by simp [fresh]
      have hcons : fresh (cls :: inner ++ [first]) =
          Protocol.create cls :: fresh (inner ++ [first]) := rfl
      rw [hcons, deliveredInward]
      by_cases hempty : pre.payload.msgSize = 0
      · have hlast : (Protocol.create cls :: fresh (inner ++ [first])).getLast? =
            some (Protocol.create first) := by
          rw [fresh, List.map_append, List.map_singleton, ← List.cons_append,
            List.getLast?_concat]
        rw [unpackLoop_empty hempty, if_pos hempty]
        simp [Leaves, hlast, eq_comm]
      · rw [if_neg hempty]
        by_cases hname : cls.name = IProtocolInf.defaultName
        · rw [unpackLoop_passed hempty hname, if_pos hname, leaves_cons hne]
          exact ih pre
        · rw [if_neg hname]
          cases hdecode : cls.decode pre.payload with
          | none =>
              have hrefused := unpackLoop_refused (fresh (inner ++ [first])) hempty hname
                (IProtocolInf.decode_eq_none hdecode)
              simp [Leaves, hrefused]
          | some payload =>
              obtain ⟨p, hunpack, rfl⟩ := IProtocolInf.decode_eq_some hdecode
              rw [unpackLoop_taken hempty hname hunpack, leaves_cons hne]
              exact ih p

private theorem leaves_iff_delivered (first : IProtocolInf Head)
    (outer : List (IProtocolInf Head)) (segment : CRawMessage) {msg : Bytes} :
    Leaves (unpackReversed (segment.getMsgReadOnly.getD []) segment.msgSize
        (fresh (first :: outer)).reverse) msg ↔ delivered first outer segment = some msg := by
  have hreverse : (fresh (first :: outer)).reverse = fresh (outer.reverse ++ [first]) := by
    simp [fresh]
  rw [hreverse, delivered]
  cases hlast : outer.reverse with
  | nil =>
      rw [List.nil_append, fresh, List.map_singleton]
      cases hdecode : first.decode segment with
      | none =>
          have hrefused := unpackReversed_refused []
            (IProtocolInf.decode_eq_none hdecode)
          simp [Leaves, hrefused]
      | some payload =>
          obtain ⟨p, hunpack, rfl⟩ := IProtocolInf.decode_eq_some hdecode
          simp [Leaves, unpackReversed, hunpack, unpackLoop]
  | cons last inner =>
      have hne : fresh (inner ++ [first]) ≠ [] := by simp [fresh]
      have hcons : fresh (last :: inner ++ [first]) =
          Protocol.create last :: fresh (inner ++ [first]) := rfl
      rw [hcons]
      change _ ↔ (last.decode segment).bind (deliveredInward first inner) = some msg
      cases hdecode : last.decode segment with
      | none =>
          have hrefused := unpackReversed_refused (fresh (inner ++ [first]))
            (IProtocolInf.decode_eq_none hdecode)
          simp [Leaves, hrefused]
      | some payload =>
          obtain ⟨p, hunpack, rfl⟩ := IProtocolInf.decode_eq_some hdecode
          have hblock : unpackReversed (segment.getMsgReadOnly.getD []) segment.msgSize
              (Protocol.create last :: fresh (inner ++ [first])) =
              (unpackLoop p (fresh (inner ++ [first])) >>= fun rest => .ok (p :: rest)) := by
            simp [unpackReversed, hunpack]
          rw [hblock, leaves_cons hne]
          exact leaves_iff_deliveredInward inner p

/-- What a receiving chain ends up with is what the abstract walk delivers. -/
theorem unpackRecurcive_delivers_iff (first : IProtocolInf Head)
    (outer : List (IProtocolInf Head)) (segment : CRawMessage) {msg : Bytes} :
    (∃ receiver, unpackRecurcive (fresh (first :: outer)) (segment.getMsgReadOnly.getD [])
        segment.msgSize = .ok (true, receiver) ∧
      receiver.head?.map (fun p => p.payload.content) = some msg) ↔
      segment.msgSize ≠ 0 ∧ delivered first outer segment = some msg := by
  rw [← leaves_iff_delivered]
  constructor
  · rintro ⟨receiver, hunpack, hhead⟩
    obtain ⟨hsize, done, hdone, rfl⟩ := unpackRecurcive_eq_true.mp hunpack
    rw [List.head?_reverse] at hhead
    exact ⟨hsize, done, hdone, hhead⟩
  · rintro ⟨hsize, done, hdone, hlast⟩
    refine ⟨done.reverse, unpackRecurcive_eq_true.mpr ⟨hsize, done, hdone, rfl⟩, ?_⟩
    rw [List.head?_reverse]
    exact hlast

end Unpacking

/-- A message comes back through nesting codecs when the segment of the first one delivers it. -/
theorem roundTrips_iff_delivered (hfirst : e.RoundTripsOn now pvd fromApp msg wire)
    (houter : Accepts now pvd fromApp outer wire) :
    ∃ segment : CRawMessage, segment.Holds wire ∧
      (e.cls.decode segment).map CRawMessage.content = some msg ∧
      (RoundTrips now pvd fromApp (e :: outer) msg ↔
        segment.msgSize ≠ 0 ∧
          delivered e.cls (outer.map ChainElement.cls) segment = some msg) := by
  obtain ⟨head, segment, hpack, hsegment, hdecode⟩ := hfirst
  obtain ⟨sender, hpacked⟩ := packRecursive_first hpack hsegment houter
  refine ⟨segment, hsegment, hdecode, ?_⟩
  rw [← unpackRecurcive_delivers_iff]
  constructor
  · rintro ⟨sender', segments, hsegments, -, hall⟩
    rw [hpacked] at hsegments
    obtain ⟨-, rfl⟩ : sender = sender' ∧ [segment] = segments := by simpa using hsegments
    exact hall segment List.mem_cons_self
  · intro hreceiver
    refine ⟨sender, [segment], hpacked, by simp, ?_⟩
    intro segment' hmem
    obtain rfl := List.mem_singleton.mp hmem
    exact hreceiver

section NoOuter

variable {classes : List (IProtocolInf Head)} {received : CRawMessage}

theorem deliveredInward_empty (hempty : received.msgSize = 0) :
    deliveredInward first classes received = some [] := by
  cases classes with
  | nil => rw [deliveredInward, if_pos (Or.inl hempty)]
  | cons cls classes => rw [deliveredInward, if_pos hempty]

/-- Only a message with bytes delivers one with bytes. -/
theorem received_ne_nil (hreceived : received.Holds wire) (hne : msg ≠ [])
    (h : deliveredInward first classes received = some msg) : wire ≠ [] := by
  rintro rfl
  rw [deliveredInward_empty hreceived.size] at h
  exact hne (Option.some.inj h).symm

/-- Elements that are passed over leave the payload to the first codec. -/
theorem deliveredInward_passed (hpassed : ∀ cls ∈ classes, cls.name = IProtocolInf.defaultName)
    (hfull : received.msgSize ≠ 0) (hfirst : first.name ≠ IProtocolInf.defaultName) :
    deliveredInward first classes received =
      (first.decode received).map CRawMessage.content := by
  induction classes with
  | nil => rw [deliveredInward, if_neg (by simp [hfull, hfirst])]
  | cons cls classes ih =>
      obtain ⟨hcls, hrest⟩ := List.forall_mem_cons.mp hpassed
      rw [deliveredInward, if_neg hfull, if_pos hcls]
      exact ih hrest

/-- A first codec that is passed over ends up with nothing. -/
theorem deliveredInward_unheard (hfirst : first.name = IProtocolInf.defaultName)
    (h : deliveredInward first classes received = some msg) : msg = [] := by
  induction classes generalizing received with
  | nil =>
      rw [deliveredInward, if_pos (Or.inr hfirst)] at h
      exact (Option.some.inj h).symm
  | cons cls classes ih =>
      rw [deliveredInward] at h
      split at h
      · exact (Option.some.inj h).symm
      · split at h
        · exact ih h
        · obtain ⟨payload, -, hinward⟩ := Option.bind_eq_some_iff.mp h
          exact ih hinward

/-- Behind at least one codec, the outermost of them unpacks first. -/
theorem delivered_outermost (first : IProtocolInf Head) (received : CRawMessage)
    (hne : classes ≠ []) :
    ∃ last rest, (∀ cls, cls ∈ classes ↔ cls = last ∨ cls ∈ rest) ∧
      delivered first classes received =
        (last.decode received).bind (deliveredInward first rest) := by
  cases hreverse : classes.reverse with
  | nil => exact absurd (List.reverse_eq_nil_iff.mp hreverse) hne
  | cons last rest =>
      refine ⟨last, rest, ?_, ?_⟩
      · intro cls
        rw [← List.mem_reverse, hreverse, List.mem_cons]
      · rw [delivered, hreverse]

/-- A first codec that is passed over behind others holds nothing in the end. -/
theorem delivered_unheard (hfirst : first.name = IProtocolInf.defaultName) (hne : classes ≠ [])
    (h : delivered first classes received = some msg) : msg = [] := by
  obtain ⟨last, rest, -, hdelivered⟩ := delivered_outermost first received hne
  rw [hdelivered] at h
  obtain ⟨payload, -, hinward⟩ := Option.bind_eq_some_iff.mp h
  exact deliveredInward_unheard hfirst hinward

/-- If no outer codec takes part, the receiver has what the first codec makes of its segment. -/
theorem delivered_of_noOuter (hreceived : received.Holds wire) (hne : wire ≠ [])
    (h : NoOuterTakesPart first classes) :
    delivered first classes received = (first.decode received).map CRawMessage.content := by
  by_cases hsingle : classes = []
  · rw [hsingle]
    rfl
  · obtain ⟨hfirst, hbase⟩ := h.resolve_left hsingle
    obtain ⟨last, rest, hmem, hdelivered⟩ := delivered_outermost first received hsingle
    obtain ⟨fresh, rfl⟩ := hbase last ((hmem last).mpr (Or.inl rfl))
    obtain ⟨payload, hdecode, hpayload⟩ := IProtocolInf.decode_base fresh hreceived hne
    have hpassed : ∀ cls ∈ rest, cls.name = IProtocolInf.defaultName := by
      intro cls hcls
      obtain ⟨fresh', rfl⟩ := hbase cls ((hmem cls).mpr (Or.inr hcls))
      rfl
    rw [hdelivered, hdecode, Option.bind_some,
      deliveredInward_passed hpassed (hpayload.msgSize_ne hne) hfirst,
      first.decode_congr hpayload hreceived hne]

/-- Where no outer codec takes part, a chain of any codecs gives back what it accepts. -/
theorem roundTrips_of_noOuter (hfirst : e.RoundTripsOn now pvd fromApp msg wire)
    (hne : wire ≠ []) (houter : Accepts now pvd fromApp outer wire)
    (h : NoOuterTakesPart e.cls (outer.map ChainElement.cls)) :
    RoundTrips now pvd fromApp (e :: outer) msg := by
  obtain ⟨segment, hsegment, hdecode, hiff⟩ := roundTrips_iff_delivered hfirst houter
  refine hiff.mpr ⟨hsegment.msgSize_ne hne, ?_⟩
  rw [delivered_of_noOuter hsegment hne h, hdecode]

end NoOuter

end ProtoChain

end CommonCommunicator
