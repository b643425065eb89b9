import CommonCommunicator.Base.CString
import CommonCommunicator.Lib.GuardedRun
import CommonCommunicator.Protocol.ChainElements
import CommonCommunicator.Protocol.Shipped

/-!
# clean_data

The receive loop uses one chain for all messages of a buffer and re-initializes
it with `clean_data` between two of them. For each element that empties the
segment list and calls `clean_head_tail`; of the payload it resets a copy of the
pointer. The command codec finds the keys of `get_property` and `set_property` in
two tables of methods, which its constructor fills and its `clean_head_tail`
empties.

A cleaned chain is like a new one exactly if it has no command codec and no
payload.
-/

namespace CommonCommunicator

open Lib

/-- The members of the shipped classes, with the keys that the tables `m_getter` and `m_setter` of
a command codec hold. -/
structure KeyedHead where
  members : ShippedHead
  getter : List String
  setter : List String
  deriving DecidableEq, Repr

namespace KeyedHead

def initial : KeyedHead := { members := ShippedHead.initial, getter := [], setter := [] }

def setMembers (head : KeyedHead) (members : ShippedHead) : KeyedHead :=
  { head with members := members }

def setGetterMethods (head : KeyedHead) : KeyedHead :=
  { head with getter := ["flag", "state", "msg_id", "from", "when", "length"] }

def setSetterMethods (head : KeyedHead) : KeyedHead :=
  { head with setter := ["flag", "state", "msg_id"] }

def removeMethods (head : KeyedHead) : KeyedHead := { head with getter := [], setter := [] }

end KeyedHead

/-- A shipped class over the members with the tables, which it leaves alone. -/
def IProtocolInf.keyed (cls : IProtocolInf ShippedHead) : IProtocolInf KeyedHead :=
  cls.zoom KeyedHead.members KeyedHead.setMembers KeyedHead.initial

namespace FixedHeader

/-- `get_property`. A key that is not known has the empty text. -/
def getProperty (protocol : FixedHeader) (key : String) : Bytes :=
  if key = "msg_id" then CString.printUnsigned protocol.msgId.toNat
  else if key = "length" then CString.printUnsigned protocol.length.toNat
  else []

/-- `set_property_raw`. -/
def setPropertyRaw (protocol : FixedHeader) (key : String) (value : Bytes) : Bool × FixedHeader :=
  let number := UInt32.ofInt (CString.atoi (CString.text value))
  if key = "msg_id" then (true, { protocol with msgId := number })
  else if key = "length" then (true, { protocol with length := number })
  else (false, protocol)

end FixedHeader

namespace UniversalCmd

/-- The methods of `m_getter`. `printDouble` is `std::to_string` of a double. -/
def getterMethod (printDouble : UInt64 → Bytes) (cmd : UniversalCmd) (key : String) : Bytes :=
  if key = "flag" then CString.printUnsigned cmd.header.flag.toNat
  else if key = "state" then CString.printUnsigned cmd.header.state.toNat
  else if key = "msg_id" then CString.printUnsigned cmd.header.msgId.toNat
  else if key = "from" then CString.text cmd.mFrom
  else if key = "when" then printDouble cmd.header.when_
  else CString.printUnsigned cmd.header.payloadSize.toNat

/-- The methods of `m_setter`. -/
def setterMethod (cmd : UniversalCmd) (key : String) (value : Bytes) : UniversalCmd :=
  let number := CString.atoi (CString.text value)
  if key = "flag" then cmd.setFlag (UInt8.ofInt number)
  else if key = "state" then cmd.setState (UInt32.ofInt number)
  else cmd.setMsgId (UInt32.ofInt number)

end UniversalCmd

/-- `set_payload` of a message. -/
def Protocol.setPayload {Head : Type} (p : Protocol Head) (msg : Bytes) :
    Outcome (Bool × Protocol Head) :=
  catching (do
      assertThat (0 < msg.length)
      let (_, payload) ← p.payload.setNewMsg msg
      return (true, { p with payload := payload }))
    (fun _ => .ok (false, p))

/-- `set_payload` leaves the object as it is, or stores the message. -/
theorem Protocol.setPayload_cases {Head : Type} {p p' : Protocol Head} {msg : Bytes} {res : Bool}
    (hset : p.setPayload msg = .ok (res, p')) :
    p' = p ∨ ∃ r payload, p.payload.setNewMsg msg = .ok (r, payload) ∧
      p' = { p with payload := payload } := by
  cases hblock : (do
      assertThat (0 < msg.length)
      let (_, payload) ← p.payload.setNewMsg msg
      return (true, { p with payload := payload }) : Outcome (Bool × Protocol Head)) with
  | ok r =>
      rw [Protocol.setPayload, hblock] at hset
      cases hset
      obtain ⟨-, -, hblock⟩ := bind_eq_ok.mp hblock
      obtain ⟨⟨r, payload⟩, hpayload, hblock⟩ := bind_eq_ok.mp hblock
      cases hblock
      exact .inr ⟨r, payload, hpayload, rfl⟩
  | error f =>
      rw [Protocol.setPayload, hblock] at hset
      cases f with
      | assertion => cases hset
      | undefined => cases hset
      | thrown e =>
          cases hset
          exact .inl rfl

namespace ShippedCodec

/-- `create_instance`, with the tables of the command codec. -/
def keyed : ShippedCodec → IProtocolInf KeyedHead
  | bigEndian => CPBigEndian.keyed
  | littleEndian => CPLittleEndian.keyed
  | universalCMD =>
      { CPUniversalCMD.keyed with
        fresh := CPUniversalCMD.keyed.fresh.removeMethods.setGetterMethods.setSetterMethods
        cleanHeadTail := fun head => (CPUniversalCMD.keyed.cleanHeadTail head).removeMethods }

def getProperty (printDouble : UInt64 → Bytes) (codec : ShippedCodec) (p : Protocol KeyedHead)
    (key : String) : Outcome Bytes :=
  match codec with
  | universalCMD =>
      if key ∈ p.head.getter then
        return p.head.members.universal.getterMethod printDouble key
      else
        throwThat .outOfRange
  | _ => return p.head.members.fixed.getProperty key

def setProperty (codec : ShippedCodec) (p : Protocol KeyedHead) (key : String) (value : Bytes) :
    Bool × Protocol KeyedHead :=
  match codec with
  | universalCMD =>
      if key ∈ p.head.setter then
        (true, { p with head := p.head.setMembers { p.head.members with
          universal := p.head.members.universal.setterMethod key value } })
      else
        (false, p)
  | _ =>
      let (res, fixed) := p.head.members.fixed.setPropertyRaw key value
      (res, { p with head := p.head.setMembers { p.head.members with fixed := fixed } })

/-- The elements of a new chain. -/
def newChain (codecs : List ShippedCodec) : List (Protocol KeyedHead) :=
  codecs.map fun codec => Protocol.create codec.keyed

end ShippedCodec

/-- The calls on a chain between two calls of `clean_data`. An element is called at its place, the
chain through the element `self`. -/
inductive ChainCall
  | setProperty (i : Nat) (key : String) (value : Bytes)
  | setPayload (i : Nat) (msg : Bytes)
  | packRecursive (self : Nat) (now : UInt64) (msg : Bytes) (pvd : ProviderType) (fromApp : Bytes)
  | unpackRecurcive (mem : Bytes) (msgSize : Nat)
  deriving DecidableEq, Repr

namespace ShippedCodec

/-- A call on a chain of the codecs. There is no element behind the last one to call. -/
def next (codecs : List ShippedCodec) (elements : List (Protocol KeyedHead)) :
    ChainCall → Outcome (List (Protocol KeyedHead))
  | .setProperty i key value =>
      match codecs[i]?, elements[i]? with
      | some codec, some p => return elements.set i (codec.setProperty p key value).2
      | _, _ => return elements
  | .setPayload i msg =>
      match elements[i]? with
      | some p => do
          let (_, p) ← p.setPayload msg
          return elements.set i p
      | none => return elements
  | .packRecursive self now msg pvd fromApp => do
      let (elements, _) ← ProtoChain.packRecursive elements self now msg pvd fromApp
      return elements
  | .unpackRecurcive mem msgSize => do
      let (_, elements) ← ProtoChain.unpackRecurcive elements mem msgSize
      return elements

/-- A call that returns. -/
abbrev Step (codecs : List ShippedCodec) (elements : List (Protocol KeyedHead)) (call : ChainCall)
    (elements' : List (Protocol KeyedHead)) : Prop := next codecs elements call = .ok elements'

/-- An element shows nothing of what has been done with it: it has no payload and no segments,
the header and the owner of a new one, and answers for the same keys as a new one. -/
structure LikeNew (printDouble : UInt64 → Bytes) (codec : ShippedCodec)
    (p : Protocol KeyedHead) : Prop where
  payload : p.isEmpty = true
  segments : p.segments = []
  members : p.head.members = codec.keyed.fresh.members
  owner : p.whoIsOwner = (Protocol.create codec.keyed).whoIsOwner
  getProperty : ∀ key, codec.getProperty printDouble p key =
    codec.getProperty printDouble (Protocol.create codec.keyed) key
  setProperty : ∀ key value, (codec.setProperty p key value).1 =
    (codec.setProperty (Protocol.create codec.keyed) key value).1

/-- What the receive loop and the application see of an unpacked chain. -/
def observe (unpacked : Bool × List (Protocol KeyedHead)) :
    Bool × List (Bytes × ShippedHead × Bytes) :=
  (unpacked.1, unpacked.2.map fun p => (p.payload.content, p.head.members, p.whoIsOwner))

/-- All elements are like new ones, and the chain unpacks every frame like a new chain. -/
structure ChainLikeNew (printDouble : UInt64 → Bytes) (codecs : List ShippedCodec)
    (elements : List (Protocol KeyedHead)) : Prop where
  eachNew : List.Forall₂ (LikeNew printDouble) codecs elements
  unpacks : ∀ mem msgSize, (ProtoChain.unpackRecurcive elements mem msgSize).map observe =
    (ProtoChain.unpackRecurcive (newChain codecs) mem msgSize).map observe

/-- The payload of the constructor, or one that has been set. -/
def NewOrSet (payload : CRawMessage) : Prop :=
  payload = CRawMessage.init ∨ ∃ b, b ≠ [] ∧ payload.Holds b

theorem NewOrSet.setNewMsg {payload payload' : CRawMessage} {buf : Bytes} {res : Bool}
    (h : NewOrSet payload) (hset : payload.setNewMsg buf = .ok (res, payload')) :
    NewOrSet payload' := by
  obtain ⟨b, hb⟩ : ∃ b, payload.Holds b := by
    obtain rfl | ⟨b, -, hb⟩ := h
    · exact ⟨[], CRawMessage.init_holds _⟩
    · exact ⟨b, hb⟩
  obtain ⟨hne, hholds⟩ := CRawMessage.setNewMsg_eq_ok hb hset
  exact .inr ⟨buf, hne, hholds⟩

/-- A payload that has been set is not empty any more. -/
theorem NewOrSet.eq_init {payload : CRawMessage} (h : NewOrSet payload)
    (hempty : payload.msgSize = 0) : payload = CRawMessage.init := by
  obtain hinit | ⟨b, hne, hb⟩ := h
  · exact hinit
  · rw [hb.size] at hempty
    exact absurd (List.eq_nil_of_length_eq_zero hempty) hne

/-- What the calls keep of an element: but for its payload, cleaning brings a fixed-header codec
back to its beginnings. -/
structure Cleanable (codec : ShippedCodec) (p : Protocol KeyedHead) : Prop where
  cls : p.cls = codec.keyed
  payload : codec ≠ .universalCMD → NewOrSet p.payload
  head : codec ≠ .universalCMD → codec.keyed.cleanHeadTail p.head = codec.keyed.fresh

variable {codec : ShippedCodec} {p p' : Protocol KeyedHead} {codecs : List ShippedCodec}
  {elements elements' : List (Protocol KeyedHead)}

theorem order?_of_ne (hcodec : codec ≠ .universalCMD) : ∃ order, codec.order? = some order := by
  cases codec with
  | bigEndian => exact ⟨.big, rfl⟩
  | littleEndian => exact ⟨.little, rfl⟩
  | universalCMD => exact absurd rfl hcodec

/-- Cleaning a fixed-header codec clears its header and leaves everything else. -/
theorem cleanHeadTail_keyed (hcodec : codec ≠ .universalCMD) (head : KeyedHead) :
    codec.keyed.cleanHeadTail head =
      head.setMembers { head.members with fixed := FixedHeader.cleared } := by
  cases codec with
  | bigEndian => rfl
  | littleEndian => rfl
  | universalCMD => exact absurd rfl hcodec

/-- A command codec has no tables after cleaning. -/
theorem getter_cleanHeadTail (head : KeyedHead) :
    (universalCMD.keyed.cleanHeadTail head).getter = [] := rfl

theorem cleanable_create (codec : ShippedCodec) :
    Cleanable codec (Protocol.create codec.keyed) := by
  refine ⟨rfl, fun _ => .inl rfl, fun hcodec => ?_⟩
  cases codec with
  | bigEndian => rfl
  | littleEndian => rfl
  | universalCMD => exact absurd rfl hcodec

/-- Packing leaves the tables and packs with the members. -/
theorem pack_keyed (codec : ShippedCodec) (head : KeyedHead) (now : UInt64) (msg : Bytes)
    (pvd : ProviderType) (fromApp : Bytes) :
    codec.keyed.pack head now msg pvd fromApp =
      (codec.cls.pack head.members now msg pvd fromApp).map fun r =>
        (r.1, head.setMembers r.2.1, r.2.2) := by
  have hzoom := fun cls : IProtocolInf ShippedHead =>
    cls.pack_zoom KeyedHead.members KeyedHead.setMembers KeyedHead.initial head now msg pvd
      fromApp
  cases codec with
  | bigEndian => exact hzoom CPBigEndian
  | littleEndian => exact hzoom CPLittleEndian
  | universalCMD => exact hzoom CPUniversalCMD

theorem unpack_keyed (codec : ShippedCodec) (head : KeyedHead) (payload : CRawMessage)
    (mem : Bytes) (msgSize : Nat) :
    codec.keyed.unpack head payload mem msgSize =
      (codec.cls.unpack head.members payload mem msgSize).map fun r =>
        (r.1, head.setMembers r.2.1, r.2.2) := by
  have hzoom := fun cls : IProtocolInf ShippedHead =>
    cls.unpack_zoom KeyedHead.members KeyedHead.setMembers KeyedHead.initial head payload mem
      msgSize
  cases codec with
  | bigEndian => exact hzoom CPBigEndian
  | littleEndian => exact hzoom CPLittleEndian
  | universalCMD => exact hzoom CPUniversalCMD

/-- After a change of the header alone, cleaning gives what it gave before. -/
theorem Cleanable.setFixed (h : Cleanable codec p) (fixed : FixedHeader)
    (hcodec : codec ≠ .universalCMD) :
    codec.keyed.cleanHeadTail (p.head.setMembers { p.head.members with fixed := fixed }) =
      codec.keyed.fresh := by
  rw [← h.head hcodec, cleanHeadTail_keyed hcodec, cleanHeadTail_keyed hcodec]
  rfl

theorem Cleanable.pack {now : UInt64} {msg fromApp : Bytes} {pvd : ProviderType} {res : Bool}
    (h : Cleanable codec p) (hpack : p.pack now msg pvd fromApp = .ok (res, p')) :
    Cleanable codec p' := by
  obtain ⟨⟨res, head, pushed⟩, hpacked, hp'⟩ := bind_eq_ok.mp hpack
  cases hp'
  refine ⟨h.cls, h.payload, fun hcodec => ?_⟩
  obtain ⟨order, horder⟩ := order?_of_ne hcodec
  rw [h.cls, pack_keyed, pack_fixed horder] at hpacked
  obtain ⟨r, hr, hhead⟩ := map_eq_ok.mp hpacked
  obtain ⟨packed, -, rfl⟩ := map_eq_ok.mp hr
  cases hhead
  exact h.setFixed _ hcodec

theorem Cleanable.unpack {mem : Bytes} {msgSize : Nat} {res : Bool} (h : Cleanable codec p)
    (hunpack : p.unpack mem msgSize = .ok (res, p')) : Cleanable codec p' := by
  obtain ⟨⟨res, head, payload⟩, hunpacked, hp'⟩ := bind_eq_ok.mp hunpack
  cases hp'
  by_cases hcodec : codec = .universalCMD
  · exact ⟨h.cls, fun hne => absurd hcodec hne, fun hne => absurd hcodec hne⟩
  obtain ⟨order, horder⟩ := order?_of_ne hcodec
  rw [h.cls, unpack_keyed, unpack_fixed horder] at hunpacked
  obtain ⟨r, hr, hhead⟩ := map_eq_ok.mp hunpacked
  obtain ⟨unpacked, hfixed, rfl⟩ := map_eq_ok.mp hr
  cases hhead
  refine ⟨h.cls, fun _ => ?_, fun _ => h.setFixed _ hcodec⟩
  obtain ⟨protocol, -, hfixed⟩ := bind_eq_ok.mp hfixed
  obtain ⟨data, -, hfixed⟩ := bind_eq_ok.mp hfixed
  obtain ⟨⟨_, stored⟩, hset, hfixed⟩ := bind_eq_ok.mp hfixed
  cases hfixed
  exact (h.payload hcodec).setNewMsg hset

theorem cleanable_keptByCalls : KeptByCalls Cleanable where
  pack h hpack := h.pack hpack
  unpack h hunpack := h.unpack hunpack
  drop h := ⟨h.cls, h.payload, h.head⟩

theorem Cleanable.setProperty (h : Cleanable codec p) (key : String) (value : Bytes) :
    Cleanable codec (codec.setProperty p key value).2 := by
  cases codec with
  | bigEndian => exact ⟨h.cls, h.payload, h.setFixed _⟩
  | littleEndian => exact ⟨h.cls, h.payload, h.setFixed _⟩
  | universalCMD =>
      rw [ShippedCodec.setProperty]
      split
      · exact ⟨h.cls, fun hne => absurd rfl hne, fun hne => absurd rfl hne⟩
      · exact h

theorem Cleanable.setPayload {msg : Bytes} {res : Bool} (h : Cleanable codec p)
    (hset : p.setPayload msg = .ok (res, p')) : Cleanable codec p' := by
  obtain rfl | ⟨r, payload, hpayload, rfl⟩ := Protocol.setPayload_cases hset
  · exact h
  · exact ⟨h.cls, fun hcodec => (h.payload hcodec).setNewMsg hpayload, h.head⟩

/-- Every call keeps all elements cleanable. -/
theorem cleanable_next {call : ChainCall} (h : List.Forall₂ Cleanable codecs elements)
    (hstep : Step codecs elements call elements') : List.Forall₂ Cleanable codecs elements' := by
  cases call with
  | setProperty i key value =>
      rw [Step, next] at hstep
      split at hstep
      · next hcodec hp =>
          cases hstep
          refine KeptByCalls.set h hp fun codec hcodec' hold => ?_
          rw [hcodec] at hcodec'
          cases hcodec'
          exact hold.setProperty key value
      · cases hstep
        exact h
  | setPayload i msg =>
      rw [Step, next] at hstep
      split at hstep
      · next hp =>
          obtain ⟨⟨_, p'⟩, hset, hstep⟩ := bind_eq_ok.mp hstep
          cases hstep
          exact KeptByCalls.set h hp fun codec _ hold => hold.setPayload hset
      · cases hstep
        exact h
  | packRecursive self now msg pvd fromApp =>
      obtain ⟨⟨packed, _⟩, hpack, hstep⟩ := bind_eq_ok.mp hstep
      cases hstep
      exact cleanable_keptByCalls.packRecursive h hpack
  | unpackRecurcive mem msgSize =>
      obtain ⟨⟨_, unpacked⟩, hunpack, hstep⟩ := bind_eq_ok.mp hstep
      cases hstep
      exact cleanable_keptByCalls.unpackRecurcive h hunpack

theorem cleanable_newChain (codecs : List ShippedCodec) :
    List.Forall₂ Cleanable codecs (newChain codecs) := by
  induction codecs with
  | nil => exact List.Forall₂.nil
  | cons codec codecs ih => exact List.Forall₂.cons (cleanable_create codec) ih

theorem cleanable_reachable (hreach : Reachable (Step codecs) (newChain codecs) elements) :
    List.Forall₂ Cleanable codecs elements :=
  hreach.invariant (cleanable_newChain codecs) fun _ _ _ h _ hstep => cleanable_next h hstep

/-- Without a payload, cleaning makes a new element of a fixed-header codec. -/
theorem Cleanable.cleanData (h : Cleanable codec p) (hcodec : codec ≠ .universalCMD)
    (hempty : p.isEmpty = true) : p.cleanData = Protocol.create codec.keyed := by
  have hpayload : p.payload = CRawMessage.init :=
    (h.payload hcodec).eq_init (by simpa [Protocol.isEmpty] using hempty)
  have hhead := h.head hcodec
  obtain ⟨cls, head, payload, segments⟩ := p
  obtain rfl : cls = codec.keyed := h.cls
  subst hpayload
  simp only [Protocol.cleanData, if_true, Protocol.create]
  rw [hhead]

theorem cleanData_eq_newChain (h : List.Forall₂ Cleanable codecs elements)
    (hcodecs : ∀ codec ∈ codecs, codec ≠ .universalCMD)
    (hempty : ∀ p ∈ elements, p.isEmpty = true) :
    ProtoChain.cleanData elements = newChain codecs := by
  induction h with
  | nil => rfl
  | cons hp hrest ih =>
      rw [List.forall_mem_cons] at hcodecs hempty
      have htail := ih hcodecs.2 hempty.2
      rw [ProtoChain.cleanData, List.map_cons, hp.cleanData hcodecs.1 hempty.1]
      rw [ProtoChain.cleanData] at htail
      rw [htail]
      rfl

theorem newChain_likeNew (printDouble : UInt64 → Bytes) (codecs : List ShippedCodec) :
    ChainLikeNew printDouble codecs (newChain codecs) := by
  refine ⟨?_, fun _ _ => rfl⟩
  induction codecs with
  | nil => exact List.Forall₂.nil
  | cons codec codecs ih =>
      exact List.Forall₂.cons ⟨rfl, rfl, rfl, rfl, fun _ => rfl, fun _ _ => rfl⟩ ih

/-- After cleaning, a command codec has no key that it answers for. -/
theorem not_likeNew_universalCMD (printDouble : UInt64 → Bytes) (h : p.cls = universalCMD.keyed) :
    ¬LikeNew printDouble .universalCMD p.cleanData := by
  intro hnew
  have hflag := hnew.getProperty "flag"
  have hgetter : p.cleanData.head.getter = [] := by
    simp only [Protocol.cleanData, if_true, h]
    exact getter_cleanHeadTail p.head
  rw [ShippedCodec.getProperty, hgetter] at hflag
  cases hflag

theorem likeNew_cleanData (printDouble : UInt64 → Bytes)
    (h : List.Forall₂ Cleanable codecs elements)
    (hnew : List.Forall₂ (LikeNew printDouble) codecs (ProtoChain.cleanData elements)) :
    (∀ codec ∈ codecs, codec ≠ .universalCMD) ∧ ∀ p ∈ elements, p.isEmpty = true := by
  induction h with
  | nil => simp
  | cons hp hrest ih =>
      rw [ProtoChain.cleanData, List.map_cons, List.forall₂_cons] at hnew
      obtain ⟨hhead, htail⟩ := hnew
      obtain ⟨hcodecs, hempty⟩ := ih htail
      rw [List.forall_mem_cons, List.forall_mem_cons]
      refine ⟨⟨?_, hcodecs⟩, ⟨hhead.payload, hempty⟩⟩
      rintro rfl
      exact not_likeNew_universalCMD printDouble hp.cls hhead

/-- Whatever has been done with a chain, cleaning makes it like a new one exactly if none of its
elements is a command codec and no element has a payload. -/
theorem cleaned_likeNew_iff (printDouble : UInt64 → Bytes)
    (hreach : Reachable (Step codecs) (newChain codecs) elements) :
    ChainLikeNew printDouble codecs (ProtoChain.cleanData elements true true) ↔
      (∀ codec ∈ codecs, codec ≠ .universalCMD) ∧ ∀ p ∈ elements, p.isEmpty = true := by
  have hcleanable := cleanable_reachable hreach
  constructor
  · intro hnew
    exact likeNew_cleanData printDouble hcleanable hnew.eachNew
  · rintro ⟨hcodecs, hempty⟩
    rw [cleanData_eq_newChain hcleanable hcodecs hempty]
    exact newChain_likeNew printDouble codecs

/-- A chain whose message id has been set is like a new one after cleaning. -/
theorem numbered_likeNew :
    ∃ elements, Reachable (Step [.bigEndian, .littleEndian]) (newChain [.bigEndian, .littleEndian])
        elements ∧
      elements.map (fun p => p.head.members.fixed.msgId) = [7, 0] ∧
      ChainLikeNew (fun _ => []) [.bigEndian, .littleEndian]
        (ProtoChain.cleanData elements true true) := by
  have hreach : Reachable (Step [.bigEndian, .littleEndian])
      (newChain [.bigEndian, .littleEndian]) _ :=
    .next .start trivial (a := .setProperty 0 "msg_id" [0x37]) rfl
  refine ⟨_, hreach, by decide, (cleaned_likeNew_iff _ hreach).mpr ⟨by decide, ?_⟩⟩
  intro p hp
  obtain rfl | hp := List.mem_cons.mp hp
  · rfl
  · obtain rfl := List.mem_singleton.mp hp
    rfl

/-- A payload outlives cleaning. -/
theorem payload_not_cleaned :
    ¬∀ (printDouble : UInt64 → Bytes) (codecs : List ShippedCodec)
        (elements : List (Protocol KeyedHead)),
      Reachable (Step codecs) (newChain codecs) elements →
        ChainLikeNew printDouble codecs (ProtoChain.cleanData elements true true) := by
  intro hall
  obtain ⟨payload, hset, hholds, -⟩ := CRawMessage.setNewMsg_holds
    (CRawMessage.init_holds CRawMessage.defCapSize) (List.cons_ne_nil 0x41 [])
  have hstep : Step [.bigEndian] (newChain [.bigEndian]) (.setPayload 0 [0x41])
      [{ Protocol.create bigEndian.keyed with payload := payload }] := by
    simp [Step, next, newChain, Protocol.setPayload, hset]
  have hreach : Reachable (Step [.bigEndian]) (newChain [.bigEndian]) _ :=
    .next .start trivial hstep
  have hnew := (hall (fun _ => []) [.bigEndian] _ hreach).eachNew
  have hempty := (likeNew_cleanData _ (cleanable_reachable hreach) hnew).2 _
    (List.mem_singleton.mpr rfl)
  simp [Protocol.isEmpty, hholds.size] at hempty

end ShippedCodec

end CommonCommunicator
