import CommonCommunicator.Base.Outcome

/-!
# CRawMessage

The byte container behind every message, payload and segment: a heap block of
`capacity` bytes of which the first `msg_size` are the message, followed by a
NUL byte. An allocation may fail; the flag `allocated` of an operation says
whether the `new` in it succeeds.

`Holds m b` is the abstract view: `m` has storage and its message is `b`.
-/

namespace CommonCommunicator

open Lib

/-- A message buffer. `mMsg` is the heap block, `none` for a null pointer; the last two members
are the part of the source record that message handling reads. -/
structure CRawMessage where
  capacity : Nat
  msgSize : Nat
  mMsg : Option Bytes
  sourceApp : Bytes
  sourcePvd : Bytes
  deriving DecidableEq, Repr

namespace CRawMessage

def defCapSize : Nat := 0xFFFFFFFFFFFFFFFF

def capacityBin : Nat := 1024

/-- The constructor: `clear` followed by `init`. -/
def init (capa : Nat := defCapSize) (allocated : Bool := true) : CRawMessage :=
  let capa := if capa = defCapSize then 2 * capacityBin else capa
  { capacity := capa + 1
    msgSize := 0
    mMsg := if allocated then some (List.replicate (capa + 1) 0) else none
    sourceApp := []
    sourcePvd := [] }

def destroy (msg : CRawMessage) : CRawMessage :=
  { msg with mMsg := none, msgSize := 0, capacity := 0 }

/-- The bytes that `get_msg` copies out. -/
def content (msg : CRawMessage) : Bytes := (msg.mMsg.getD []).take msg.msgSize

/-- The block behind `get_msg_read_only`, as far as it has been written: the message and the
NUL byte after it. -/
def getMsgReadOnly (msg : CRawMessage) : Option Bytes :=
  msg.mMsg.map (List.take (msg.msgSize + 1))

def extendCapacity (msg : CRawMessage) (appendCapacity : Nat) (allocated : Bool := true) :
    Outcome (Bool × CRawMessage) := do
  assertThat (0 < appendCapacity)
  if allocated then
    let data := (msg.mMsg.getD []).take msg.msgSize
    let room := msg.capacity + appendCapacity
    return (true, { msg with
      capacity := room
      mMsg := some (data ++ List.replicate (room - data.length) 0) })
  else
    return (false, msg)

/-- `std::copy` behind the present message, the new size, and the NUL byte. -/
def copyBehind (msg : CRawMessage) (buf : Bytes) : Outcome CRawMessage :=
  match msg.mMsg with
  | none => .error .undefined
  | some data => do
      let data ← writeBytes data msg.msgSize (buf ++ [0])
      return { msg with mMsg := some data, msgSize := msg.msgSize + buf.length }

def setNewMsg (msg : CRawMessage) (buf : Bytes) (allocated : Bool := true) :
    Outcome (Bool × CRawMessage) := do
  assertThat (0 < buf.length)
  if 0 < msg.msgSize then assertThat (msg.mMsg.isSome = true)
  let msg := { msg with msgSize := 0 }
  let msg ←
    if sizeSub msg.capacity 1 < buf.length then do
      let (res, msg) ← msg.extendCapacity (buf.length + capacityBin) allocated
      assertThat (res = true)
      pure msg
    else pure msg
  let msg ← msg.copyBehind buf
  return (true, msg)

def appendMsg (msg : CRawMessage) (buf : Bytes) (allocated : Bool := true) :
    Outcome (Bool × CRawMessage) := do
  assertThat (0 < buf.length)
  let msg ←
    if sizeSub msg.capacity 1 < msg.msgSize + buf.length then do
      let (res, msg) ← msg.extendCapacity (buf.length + capacityBin) allocated
      assertThat (res = true)
      pure msg
    else pure msg
  let msg ← msg.copyBehind buf
  return (true, msg)

/-- `func` sees the block and may write into it; its result is the result of the call. -/
def setMsgHook (msg : CRawMessage) (func : Option Bytes → Outcome (Bool × Option Bytes))
    (msize : Nat) : Outcome (Bool × CRawMessage) := do
  assertThat (0 < msize)
  catching (do
      if sizeSub msg.capacity 1 < msize then throwThat .overflowError
      let (res, data) ← func msg.mMsg
      if res then
        match data with
        | none => .error .undefined
        | some data => do
            let data ← writeBytes data msize [0]
            return (true, { msg with mMsg := some data, msgSize := msize })
      else
        return (false, { msg with mMsg := data }))
    (fun _ => .ok (false, msg))

/-- `set_source` with the alias's parent path and name. -/
def setSource (msg : CRawMessage) (appPath pvdPath : Bytes) : CRawMessage :=
  { msg with sourceApp := appPath, sourcePvd := pvdPath }

/-- `msg` has storage and its message is `b`. -/
structure Holds (msg : CRawMessage) (b : Bytes) : Prop where
  intro ::
  stored : ∃ data, msg.mMsg = some data ∧ data.length = msg.capacity ∧
    b.length < data.length ∧ data.take b.length = b ∧ (b ≠ [] → data[b.length]? = some 0)
  size : msg.msgSize = b.length

theorem init_holds (capa : Nat) : (init capa).Holds [] := by
  refine ⟨⟨_, rfl, ?_, ?_, ?_, ?_⟩, rfl⟩ <;> simp [init]

@[simp] theorem init_content (capa : Nat) (allocated : Bool) :
    (init capa allocated).content = [] := by
  simp [init, content]

/-- A message with storage of its own size. -/
def ofBytes (b : Bytes) : CRawMessage :=
  { capacity := b.length + 1
    msgSize := b.length
    mMsg := some (b ++ [0])
    sourceApp := []
    sourcePvd := [] }

theorem ofBytes_holds (b : Bytes) : (ofBytes b).Holds b := by
  refine ⟨⟨_, rfl, ?_, ?_, ?_, ?_⟩, rfl⟩ <;> simp [ofBytes]

theorem setSource_holds {msg : CRawMessage} {b : Bytes} (h : msg.Holds b) (app pvd : Bytes) :
    (msg.setSource app pvd).Holds b := ⟨h.stored, h.size⟩

theorem Holds.content_eq {msg : CRawMessage} {b : Bytes} (h : msg.Holds b) :
    msg.content = b := by
  obtain ⟨⟨data, hdata, -, -, htake, -⟩, hsize⟩ := h
  rw [content, hdata, hsize]
  exact htake

/-- The readable block of a non-empty message is the message and its NUL byte. -/
theorem Holds.getMsgReadOnly_eq {msg : CRawMessage} {b : Bytes} (h : msg.Holds b)
    (hne : b ≠ []) : msg.getMsgReadOnly = some (b ++ [0]) := by
  obtain ⟨⟨data, hdata, -, hroom, htake, hnul⟩, hsize⟩ := h
  rw [getMsgReadOnly, hdata, hsize, Option.map_some, List.take_add_one, htake, hnul hne]
  rfl

theorem Holds.msgSize_ne {msg : CRawMessage} {b : Bytes} (h : msg.Holds b) (hne : b ≠ []) :
    msg.msgSize ≠ 0 := by
  rw [h.size]
  exact Nat.ne_of_gt (List.length_pos_iff.mpr hne)

/-- The message is `b`, in storage of the present capacity if there is any. -/
structure Keeps (msg : CRawMessage) (b : Bytes) : Prop where
  size : msg.msgSize = b.length
  kept : (msg.mMsg.getD []).take b.length = b
  block : ∀ data, msg.mMsg = some data → data.length = msg.capacity

theorem Holds.keeps {msg : CRawMessage} {b : Bytes} (h : msg.Holds b) : msg.Keeps b := by
  obtain ⟨⟨data, hdata, hlen, -, htake, -⟩, hsize⟩ := h
  refine ⟨hsize, ?_, ?_⟩
  · rw [hdata]
    exact htake
  · intro data' hdata'
    cases hdata.symm.trans hdata'
    exact hlen

theorem Holds.isSome {msg : CRawMessage} {b : Bytes} (h : msg.Holds b) :
    msg.mMsg.isSome = true := by
  obtain ⟨⟨data, hdata, -⟩, -⟩ := h
  rw [hdata]
  rfl

theorem Holds.length_lt {msg : CRawMessage} {b : Bytes} (h : msg.Holds b) :
    b.length < msg.capacity := by
  obtain ⟨⟨data, -, hlen, hroom, -⟩, -⟩ := h
  exact hlen ▸ hroom

theorem Keeps.length_le {msg : CRawMessage} {b : Bytes} (h : msg.Keeps b) :
    b.length ≤ msg.capacity := by
  have hkept := h.kept
  cases hblock : msg.mMsg with
  | none =>
      rw [hblock] at hkept
      rw [← hkept]
      simp
  | some data =>
      rw [hblock] at hkept
      rw [← hkept, ← h.block data hblock]
      exact List.length_take_le' _ _

/-- A message with bytes has storage. -/
theorem Keeps.stored {msg : CRawMessage} {b : Bytes} (h : msg.Keeps b) (hpos : 0 < msg.msgSize) :
    msg.mMsg.isSome = true := by
  cases hblock : msg.mMsg with
  | some data => rfl
  | none =>
      have hkept := h.kept
      rw [hblock] at hkept
      have hlen : b.length = 0 := by
        rw [← hkept]
        simp
      have hsize := h.size
      omega

/-- A message without bytes may forget the ones that are left in its storage. -/
theorem Keeps.cleared {msg : CRawMessage} {b : Bytes} (h : msg.Keeps b) :
    { msg with msgSize := 0 : CRawMessage }.Keeps [] :=
  ⟨rfl, rfl, h.block⟩

/-- Copying behind a message with room for it appends. -/
theorem Keeps.copyBehind {msg : CRawMessage} {b : Bytes} (h : msg.Keeps b) (buf : Bytes)
    (hstored : msg.mMsg.isSome = true) (hroom : b.length + buf.length < msg.capacity) :
    ∃ msg', msg.copyBehind buf = .ok msg' ∧ msg'.Holds (b ++ buf) ∧
      msg'.capacity = msg.capacity ∧
      msg'.sourceApp = msg.sourceApp ∧ msg'.sourcePvd = msg.sourcePvd := by
  obtain ⟨data, hdata⟩ := Option.isSome_iff_exists.mp hstored
  have hlen : data.length = msg.capacity := h.block data hdata
  have htake : data.take b.length = b := by
    have hkept := h.kept
    rwa [hdata] at hkept
  have hfits : msg.msgSize + (buf ++ [0]).length ≤ data.length := by
    rw [h.size, List.length_append, List.length_singleton]
    omega
  refine ⟨{ msg with mMsg := some (overwrite data msg.msgSize (buf ++ [0]))
                     msgSize := msg.msgSize + buf.length }, ?_, ⟨⟨_, rfl, ?_, ?_, ?_, ?_⟩, ?_⟩,
    rfl, rfl, rfl⟩
  · simp only [CRawMessage.copyBehind, hdata]
    rw [writeBytes_of_le hfits]
    rfl
  · rw [length_overwrite hfits, hlen]
  · rw [length_overwrite hfits, List.length_append, hlen]
    exact hroom
  · have hfront : overwrite data msg.msgSize (buf ++ [0]) =
        (b ++ buf) ++ 0 :: data.drop (msg.msgSize + (buf ++ [0]).length) := by
      simp [overwrite, h.size, htake]
    rw [hfront, List.take_left]
  · intro _
    simp [overwrite, h.size, htake]
  · rw [List.length_append, ← h.size]

/-- The message in a new block that is larger by `n`. -/
def moved (msg : CRawMessage) (n : Nat) : CRawMessage :=
  let data := (msg.mMsg.getD []).take msg.msgSize
  { msg with
    capacity := msg.capacity + n
    mMsg := some (data ++ List.replicate (msg.capacity + n - data.length) 0) }

theorem extendCapacity_moved (msg : CRawMessage) {n : Nat} (hn : 0 < n) :
    msg.extendCapacity n true = .ok (true, msg.moved n) := by
  simp [extendCapacity, moved, hn]

theorem extendCapacity_refused (msg : CRawMessage) {n : Nat} (hn : 0 < n) :
    msg.extendCapacity n false = .ok (false, msg) := by
  simp [extendCapacity, hn]

theorem Keeps.moved {msg : CRawMessage} {b : Bytes} (h : msg.Keeps b) (n : Nat) :
    (msg.moved n).Keeps b := by
  have hdata : (msg.mMsg.getD []).take msg.msgSize = b := by
    rw [h.size]
    exact h.kept
  have hle : b.length ≤ msg.capacity := h.length_le
  refine ⟨h.size, ?_, ?_⟩
  · simp [CRawMessage.moved, hdata]
  · intro data hblock
    simp only [CRawMessage.moved, hdata, Option.some.injEq] at hblock
    have hgrown : (msg.moved n).capacity = msg.capacity + n := rfl
    rw [← hblock, List.length_append, List.length_replicate, hgrown]
    omega

/-- The capacity with which `size` more bytes are put behind the message. -/
def grownCapacity (msg : CRawMessage) (size : Nat) : Nat :=
  if sizeSub msg.capacity 1 < msg.msgSize + size then msg.capacity + (size + capacityBin)
  else msg.capacity

/-- A new message is put behind no message. -/
theorem setNewMsg_eq_appendMsg {msg : CRawMessage} (buf : Bytes) (allocated : Bool)
    (hstored : 0 < msg.msgSize → msg.mMsg.isSome = true) :
    msg.setNewMsg buf allocated =
      { msg with msgSize := 0 : CRawMessage }.appendMsg buf allocated := by
  by_cases hsize : 0 < msg.msgSize
  · simp [setNewMsg, appendMsg, hsize, hstored hsize]
  · simp [setNewMsg, appendMsg, hsize]

/-- The two steps of `append_msg`. -/
theorem appendMsg_eq {msg : CRawMessage} {buf : Bytes} (hne : buf ≠ []) (allocated : Bool) :
    msg.appendMsg buf allocated =
      (if sizeSub msg.capacity 1 < msg.msgSize + buf.length then
        if allocated then (msg.moved (buf.length + capacityBin)).copyBehind buf
        else .error .assertion
      else msg.copyBehind buf).map (fun msg => (true, msg)) := by
  have hpos : 0 < buf.length := List.length_pos_iff.mpr hne
  have hbin : 0 < buf.length + capacityBin := by omega
  by_cases hfit : sizeSub msg.capacity 1 < msg.msgSize + buf.length
  · cases allocated with
    | false => simp [appendMsg, hpos, hfit, extendCapacity_refused msg hbin, assertThat, Except.map]
    | true =>
        simp only [appendMsg, hpos, assertThat_pos, hfit, if_true, extendCapacity_moved msg hbin,
          ok_bind, pure_eq_ok]
        cases (msg.moved (buf.length + capacityBin)).copyBehind buf <;> rfl
  · simp only [appendMsg, hpos, assertThat_pos, hfit, if_false, ok_bind, pure_eq_ok]
    cases msg.copyBehind buf <;> rfl

/-- `append_msg` finds room for the bytes, or allocates it. -/
theorem Keeps.appendMsg {msg : CRawMessage} {b buf : Bytes} (h : msg.Keeps b) (hne : buf ≠ [])
    {allocated : Bool} (hcap : 1 ≤ msg.capacity)
    (hstored : msg.mMsg.isSome = true ∨ sizeSub msg.capacity 1 < msg.msgSize + buf.length)
    (halloc : sizeSub msg.capacity 1 < msg.msgSize + buf.length → allocated = true) :
    ∃ msg', msg.appendMsg buf allocated = .ok (true, msg') ∧ msg'.Holds (b ++ buf) ∧
      msg'.capacity = msg.grownCapacity buf.length ∧
      msg'.sourceApp = msg.sourceApp ∧ msg'.sourcePvd = msg.sourcePvd := by
  rw [appendMsg_eq hne, grownCapacity]
  by_cases hfit : sizeSub msg.capacity 1 < msg.msgSize + buf.length
  · rw [if_pos hfit, if_pos hfit, if_pos (halloc hfit)]
    have hle : b.length ≤ msg.capacity := h.length_le
    obtain ⟨msg', hcopy, hholds, hgrown, hsrc⟩ :=
      (h.moved (buf.length + capacityBin)).copyBehind buf rfl
        (by simp only [CRawMessage.moved, capacityBin]; omega)
    exact ⟨msg', by rw [hcopy]; rfl, hholds, hgrown, hsrc⟩
  · rw [if_neg hfit, if_neg hfit]
    have hroom : b.length + buf.length < msg.capacity := by
      rw [sizeSub_of_le hcap, h.size] at hfit
      omega
    obtain ⟨msg', hcopy, hholds, hgrown, hsrc⟩ :=
      h.copyBehind buf (hstored.resolve_right hfit) hroom
    exact ⟨msg', by rw [hcopy]; rfl, hholds, hgrown, hsrc⟩

theorem appendMsg_holds {msg : CRawMessage} {b buf : Bytes} (h : msg.Holds b) (hne : buf ≠ []) :
    ∃ msg', msg.appendMsg buf = .ok (true, msg') ∧ msg'.Holds (b ++ buf) ∧
      msg'.sourceApp = msg.sourceApp ∧ msg'.sourcePvd = msg.sourcePvd := by
  have hcap : 1 ≤ msg.capacity := Nat.lt_of_le_of_lt (Nat.zero_le _) h.length_lt
  obtain ⟨msg', happend, hholds, -, hsrc⟩ :=
    h.keeps.appendMsg hne hcap (.inl h.isSome) (fun _ => rfl)
  exact ⟨msg', happend, hholds, hsrc⟩

theorem setNewMsg_holds {msg : CRawMessage} {b buf : Bytes} (h : msg.Holds b) (hne : buf ≠ []) :
    ∃ msg', msg.setNewMsg buf = .ok (true, msg') ∧ msg'.Holds buf ∧
      msg'.sourceApp = msg.sourceApp ∧ msg'.sourcePvd = msg.sourcePvd := by
  have hcap : 1 ≤ msg.capacity := Nat.lt_of_le_of_lt (Nat.zero_le _) h.length_lt
  obtain ⟨msg', happend, hholds, -, hsrc⟩ :=
    h.keeps.cleared.appendMsg hne hcap (.inl h.isSome) (fun _ => rfl)
  refine ⟨msg', ?_, hholds, hsrc⟩
  rw [setNewMsg_eq_appendMsg buf true (fun _ => h.isSome), happend]

theorem setNewMsg_nil (msg : CRawMessage) (allocated : Bool) :
    msg.setNewMsg [] allocated = .error .assertion := by
  simp [setNewMsg, assertThat]

/-- A new message that could be set holds it. -/
theorem setNewMsg_eq_ok {msg msg' : CRawMessage} {b buf : Bytes} {res : Bool} (h : msg.Holds b)
    (hset : msg.setNewMsg buf = .ok (res, msg')) : buf ≠ [] ∧ msg'.Holds buf := by
  have hne : buf ≠ [] := by
    rintro rfl
    rw [setNewMsg_nil] at hset
    cases hset
  obtain ⟨stored, hstored, hholds, -⟩ := setNewMsg_holds h hne
  rw [hstored] at hset
  cases hset
  exact ⟨hne, hholds⟩

end CRawMessage

end CommonCommunicator
