import CommonCommunicator.Base.RawMessage

/-!
# IProtocolInf

A protocol class as the chain sees it: its name and its virtual functions over
its own state (header fields, owner name). Every object also has the payload
and the segment list of the base class. One state type serves all classes of a
chain; `zoom` places a class with a smaller state into it.
-/

namespace CommonCommunicator

/-- `enum_c::ProviderType`. -/
inductive ProviderType
  | notDefine
  | transTCP
  | transUDP
  | transUdsTCP
  | transUdsUDP
  | serviceVsomeip
  | rscIotivity
  deriving DecidableEq, Repr

/-- A protocol class over the state type `Head`. Packing reads the clock once and returns the
segments that it pushes; unpacking sees the memory from the message pointer on. -/
structure IProtocolInf (Head : Type) where
  name : String
  fresh : Head
  whoIsOwner : Head → Bytes
  getMsgSize : Head → Bytes → Nat → Nat
  pack : Head → (now : UInt64) → (msg : Bytes) → ProviderType → (fromApp : Bytes) →
    Outcome (Bool × Head × List CRawMessage)
  unpack : Head → (payload : CRawMessage) → (mem : Bytes) → (msgSize : Nat) →
    Outcome (Bool × Head × CRawMessage)
  cleanHeadTail : Head → Head

namespace IProtocolInf

variable {Head Whole : Type}

/-- `CPayload::Default_Name`. -/
def defaultName : String := "none"

/-- The base class itself, configured as protocol `none`: bytes pass through unchanged. -/
def base (fresh : Head) : IProtocolInf Head where
  name := defaultName
  fresh := fresh
  whoIsOwner _ := []
  getMsgSize _ _ dataSize := dataSize
  pack head _ msg _ _ := do
    assertThat (0 < msg.length)
    let (_, oneSegment) ← CRawMessage.init.setNewMsg msg
    return (true, head, [oneSegment])
  unpack head payload mem msgSize := do
    assertThat (0 < msgSize)
    let data ← readBytes mem 0 msgSize
    let (_, payload) ← payload.setNewMsg data
    return (true, head, payload)
  cleanHeadTail head := head

/-- A class over a part of a larger state. -/
def zoom (cls : IProtocolInf Head) (get : Whole → Head) (set : Whole → Head → Whole)
    (init : Whole) : IProtocolInf Whole where
  name := cls.name
  fresh := set init cls.fresh
  whoIsOwner whole := cls.whoIsOwner (get whole)
  getMsgSize whole := cls.getMsgSize (get whole)
  pack whole now msg pvd fromApp := do
    let (res, head, segments) ← cls.pack (get whole) now msg pvd fromApp
    return (res, set whole head, segments)
  unpack whole payload mem msgSize := do
    let (res, head, payload) ← cls.unpack (get whole) payload mem msgSize
    return (res, set whole head, payload)
  cleanHeadTail whole := set whole (cls.cleanHeadTail (get whole))

section Zoom

variable (cls : IProtocolInf Head) (get : Whole → Head) (set : Whole → Head → Whole)
  (init whole : Whole)

/-- A class over a part packs with that part. -/
theorem pack_zoom (now : UInt64) (msg : Bytes) (pvd : ProviderType) (fromApp : Bytes) :
    (cls.zoom get set init).pack whole now msg pvd fromApp =
      (cls.pack (get whole) now msg pvd fromApp).map fun r => (r.1, set whole r.2.1, r.2.2) := by
  simp only [zoom]
  cases cls.pack (get whole) now msg pvd fromApp with
  | error f => rfl
  | ok r => rfl

/-- A class over a part unpacks into that part. -/
theorem unpack_zoom (payload : CRawMessage) (mem : Bytes) (msgSize : Nat) :
    (cls.zoom get set init).unpack whole payload mem msgSize =
      (cls.unpack (get whole) payload mem msgSize).map fun r => (r.1, set whole r.2.1, r.2.2) := by
  simp only [zoom]
  cases cls.unpack (get whole) payload mem msgSize with
  | error f => rfl
  | ok r => rfl

end Zoom

end IProtocolInf

/-- A protocol object. -/
structure Protocol (Head : Type) where
  cls : IProtocolInf Head
  head : Head
  payload : CRawMessage
  segments : List CRawMessage

namespace Protocol

variable {Head : Type}

/-- A newly constructed object of a class. -/
def create (cls : IProtocolInf Head) : Protocol Head :=
  { cls := cls, head := cls.fresh, payload := CRawMessage.init, segments := [] }

def whoIsOwner (p : Protocol Head) : Bytes := p.cls.whoIsOwner p.head

def isEmpty (p : Protocol Head) : Bool := p.payload.msgSize = 0

def pack (p : Protocol Head) (now : UInt64) (msg : Bytes) (pvd : ProviderType)
    (fromApp : Bytes) : Outcome (Bool × Protocol Head) := do
  let (res, head, pushed) ← p.cls.pack p.head now msg pvd fromApp
  return (res, { p with head := head, segments := p.segments ++ pushed })

def unpack (p : Protocol Head) (mem : Bytes) (msgSize : Nat) :
    Outcome (Bool × Protocol Head) := do
  let (res, head, payload) ← p.cls.unpack p.head p.payload mem msgSize
  return (res, { p with head := head, payload := payload })

/-- What `clean_data` does to one element. For received data it resets a copy of the payload
pointer, so the payload itself stays. -/
def cleanData (p : Protocol Head) (txData : Bool := true) (rxData : Bool := true) :
    Protocol Head :=
  let p := if txData then { p with segments := [] } else p
  if rxData then { p with head := p.cls.cleanHeadTail p.head } else p

@[simp] theorem create_cls (cls : IProtocolInf Head) : (create cls).cls = cls := rfl

@[simp] theorem create_head (cls : IProtocolInf Head) : (create cls).head = cls.fresh := rfl

@[simp] theorem create_payload (cls : IProtocolInf Head) :
    (create cls).payload = CRawMessage.init := rfl

@[simp] theorem create_segments (cls : IProtocolInf Head) : (create cls).segments = [] := rfl

end Protocol

end CommonCommunicator
