import CommonCommunicator.Base.RawMessage
import CommonCommunicator.Lib.GuardedRun

/-!
# Writing into a message

The three writers of a message, as calls that can be put in any order, and what
they are for: `ByteString` is a byte string with room to grow, which `set_new_msg`
replaces, `append_msg` extends and a `set_msg_hook` within the room replaces.
A run of calls and a run over the byte string are kept side by side by
`Represents`.

The sizes of the code are `size_t`; `WriteCall.SumsFit` says that the sums a call
computes stay below `2 ^ 64`.
-/

namespace CommonCommunicator

open Lib

/-- What the hook of `set_msg_hook` does with the block: it fills it with bytes and returns
`true`, or leaves it and returns `false`. -/
inductive MsgHook
  | fills (bytes : Bytes)
  | refuses
  deriving DecidableEq, Repr

def MsgHook.func : MsgHook → Option Bytes → Outcome (Bool × Option Bytes)
  | .fills bytes, none => do
      definedIf (bytes = [])
      return (true, none)
  | .fills bytes, some data => do
      let data ← writeBytes data 0 bytes
      return (true, some data)
  | .refuses, block => return (false, block)

/-- A call of one of the three writers. -/
inductive WriteCall
  | setNewMsg (buf : Bytes)
  | appendMsg (buf : Bytes)
  | setMsgHook (hook : MsgHook) (msize : Nat)
  deriving DecidableEq, Repr

namespace WriteCall

/-- `allocated` says whether the allocation that the call may ask for succeeds. -/
def perform (msg : CRawMessage) (allocated : Bool) : WriteCall → Outcome (Bool × CRawMessage)
  | setNewMsg buf => msg.setNewMsg buf allocated
  | appendMsg buf => msg.appendMsg buf allocated
  | setMsgHook hook msize => msg.setMsgHook hook.func msize

def msize : WriteCall → Nat
  | setNewMsg buf => buf.length
  | appendMsg buf => buf.length
  | setMsgHook _ msize => msize

/-- The number of bytes that the call tests against `capacity - 1`. -/
def needed (msg : CRawMessage) : WriteCall → Nat
  | appendMsg buf => msg.msgSize + buf.length
  | call => call.msize

/-- The caller passes at least one byte, and a hook that returns `true` has filled its size. -/
def WellFormed : WriteCall → Prop
  | setMsgHook (.fills bytes) msize => 0 < msize ∧ bytes.length = msize
  | call => 0 < call.msize

/-- The capacity after a call that finds its memory. -/
def grownCapacity (msg : CRawMessage) : WriteCall → Nat
  | setNewMsg buf => { msg with msgSize := 0 : CRawMessage }.grownCapacity buf.length
  | appendMsg buf => msg.grownCapacity buf.length
  | setMsgHook _ _ => msg.capacity

/-- The bytes that a list of calls passes. -/
def totalSize : (calls : List WriteCall) → Nat
  | [] => 0
  | call :: calls => call.msize + totalSize calls

/-- The sums that the call computes in `size_t` do not wrap: the size it tests, and the new
capacity when it extends the old one. -/
def SumsFit (msg : CRawMessage) (call : WriteCall) : Prop :=
  call.needed msg < 2 ^ 64 ∧
    (call.grownCapacity msg ≠ msg.capacity → call.grownCapacity msg < 2 ^ 64)

instance (msg : CRawMessage) : DecidablePred (SumsFit msg) := fun call => by
  unfold SumsFit; infer_instance

end WriteCall

namespace CRawMessage

/-- `get_msg` into a buffer of `cap` bytes: the bytes it copies, none when it fails. -/
def getMsg (msg : CRawMessage) (cap : Nat) : Outcome Bytes :=
  catching (do
      if cap < msg.msgSize then throwThat .invalidArgument
      match msg.mMsg with
      | none => do
          definedIf (msg.msgSize = 0)
          return []
      | some data => readBytes data 0 msg.msgSize)
    (fun _ => .ok [])

/-- The results of a list of calls, and the message after them. -/
def writes (msg : CRawMessage) : List WriteCall → Outcome (List Bool × CRawMessage)
  | [] => return ([], msg)
  | call :: calls => do
      let (res, msg) ← call.perform msg true
      let (ress, msg) ← msg.writes calls
      return (res :: ress, msg)

end CRawMessage

/-- A byte string that fits into its room. -/
structure ByteString where
  room : Nat
  text : Bytes
  fits : text.length ≤ room

namespace ByteString

def empty (room : Nat) : ByteString := ⟨room, [], Nat.zero_le _⟩

/-- Too little room grows by the size of the new bytes and one bin. -/
def grown (room needed size : Nat) : Nat :=
  if room < needed then room + (size + CRawMessage.capacityBin) else room

def replace (s : ByteString) (buf : Bytes) : ByteString where
  room := grown s.room buf.length buf.length
  text := buf
  fits := by unfold grown; split <;> omega

def concatenate (s : ByteString) (buf : Bytes) : ByteString where
  room := grown s.room (s.text.length + buf.length) buf.length
  text := s.text ++ buf
  fits := by
    have hfits := s.fits
    rw [List.length_append]
    unfold grown
    split <;> omega

/-- What a call returns and leaves. -/
def write (s : ByteString) : WriteCall → Bool × ByteString
  | .setNewMsg buf => (true, s.replace buf)
  | .appendMsg buf => (true, s.concatenate buf)
  | .setMsgHook (.fills bytes) _ =>
      if h : bytes.length ≤ s.room then (true, ⟨s.room, bytes, h⟩) else (false, s)
  | .setMsgHook .refuses _ => (false, s)

def writes (s : ByteString) : List WriteCall → List Bool × ByteString
  | [] => ([], s)
  | call :: calls =>
      let (res, s) := s.write call
      let (ress, s) := s.writes calls
      (res :: ress, s)

variable {s : ByteString}

theorem write_fills {bytes : Bytes} (msize : Nat) (h : bytes.length ≤ s.room) :
    s.write (.setMsgHook (.fills bytes) msize) = (true, ⟨s.room, bytes, h⟩) := dif_pos h

theorem write_overflow {bytes : Bytes} (msize : Nat) (h : ¬bytes.length ≤ s.room) :
    s.write (.setMsgHook (.fills bytes) msize) = (false, s) := dif_neg h

/-- A call adds no more than the bytes it passes. -/
theorem length_write_le {call : WriteCall} (hwf : call.WellFormed) :
    (s.write call).2.text.length ≤ s.text.length + call.msize := by
  cases call with
  | setNewMsg buf => exact Nat.le_add_left _ _
  | appendMsg buf => exact Nat.le_of_eq List.length_append
  | setMsgHook hook msize =>
      cases hook with
      | refuses => exact Nat.le_add_right _ _
      | fills bytes =>
          have hlen : bytes.length = msize := hwf.2
          by_cases hfit : bytes.length ≤ s.room
          · rw [write_fills msize hfit, ← hlen]
            exact Nat.le_add_left _ _
          · rw [write_overflow msize hfit]
            exact Nat.le_add_right _ _

/-- After a call that returns `true` the string is not empty, and a call that returns `false`
does not make it empty. -/
theorem write_text_ne {call : WriteCall} (hwf : call.WellFormed)
    (h : (s.write call).1 = true ∨ s.text ≠ []) : (s.write call).2.text ≠ [] := by
  cases call with
  | setNewMsg buf => exact List.length_pos_iff.mp hwf
  | appendMsg buf => exact List.append_ne_nil_of_right_ne_nil _ (List.length_pos_iff.mp hwf)
  | setMsgHook hook msize =>
      cases hook with
      | refuses => exact h.resolve_left Bool.false_ne_true
      | fills bytes =>
          have hne : bytes ≠ [] := List.length_pos_iff.mp (hwf.2 ▸ hwf.1)
          by_cases hfit : bytes.length ≤ s.room
          · rw [write_fills msize hfit]
            exact hne
          · rw [write_overflow msize hfit] at h ⊢
            exact h.resolve_left Bool.false_ne_true

theorem writes_text_ne {calls : List WriteCall} (hwf : ∀ call ∈ calls, call.WellFormed)
    (h : true ∈ (s.writes calls).1 ∨ s.text ≠ []) : (s.writes calls).2.text ≠ [] := by
  induction calls generalizing s with
  | nil => exact h.resolve_left List.not_mem_nil
  | cons call calls ih =>
      have hcall := write_text_ne (s := s) (hwf call List.mem_cons_self)
      apply ih (fun call hmem => hwf call (List.mem_cons_of_mem _ hmem))
      rcases h with hmem | hne
      · rcases List.mem_cons.mp hmem with htrue | hmem
        · exact .inr (hcall (.inl htrue.symm))
        · exact .inl hmem
      · exact .inr (hcall (.inr hne))

end ByteString

namespace CRawMessage

/-- The message has the bytes of `s`, and room for as many as `s` and for the NUL byte. -/
structure Represents (msg : CRawMessage) (s : ByteString) : Prop where
  holds : msg.Holds s.text
  room : msg.capacity = s.room + 1

variable {msg : CRawMessage} {s : ByteString}

/-- The room of a new message. -/
def firstRoom (capa : Nat) : Nat := if capa = defCapSize then 2 * capacityBin else capa

theorem init_represents (capa : Nat) : (init capa).Represents (.empty (firstRoom capa)) :=
  ⟨init_holds capa, rfl⟩

/-- A message that is extended grows as the byte string does. -/
theorem grownCapacity_eq (h : msg.capacity = s.room + 1) (size : Nat) :
    msg.grownCapacity size = ByteString.grown s.room (msg.msgSize + size) size + 1 := by
  have hsub : sizeSub msg.capacity 1 = s.room := by
    rw [h]
    exact sizeSub_of_le (by omega)
  rw [grownCapacity, ByteString.grown, hsub]
  split
  · rw [h]
    omega
  · exact h

theorem Represents.capacity_pos (h : msg.Represents s) : 1 ≤ msg.capacity := by
  rw [h.room]
  omega

theorem Represents.appendMsg (h : msg.Represents s) {buf : Bytes} (hne : buf ≠ []) :
    ∃ msg', msg.appendMsg buf = .ok (true, msg') ∧ msg'.Represents (s.concatenate buf) ∧
      msg'.capacity = msg.grownCapacity buf.length := by
  obtain ⟨msg', happend, hholds, hcap, -⟩ :=
    h.holds.keeps.appendMsg hne h.capacity_pos (.inl h.holds.isSome) (fun _ => rfl)
  refine ⟨msg', happend, ⟨hholds, ?_⟩, hcap⟩
  rw [hcap, grownCapacity_eq h.room, h.holds.size]
  rfl

theorem Represents.setNewMsg (h : msg.Represents s) {buf : Bytes} (hne : buf ≠ []) :
    ∃ msg', msg.setNewMsg buf = .ok (true, msg') ∧ msg'.Represents (s.replace buf) ∧
      msg'.capacity = { msg with msgSize := 0 : CRawMessage }.grownCapacity buf.length := by
  obtain ⟨msg', happend, hholds, hcap, -⟩ :=
    h.holds.keeps.cleared.appendMsg hne h.capacity_pos (.inl h.holds.isSome) (fun _ => rfl)
  refine ⟨msg', ?_, ⟨hholds, ?_⟩, hcap⟩
  · rw [setNewMsg_eq_appendMsg buf true (fun _ => h.holds.isSome), happend]
  · have hgrown := @grownCapacity_eq { msg with msgSize := 0 } s h.room buf.length
    rw [Nat.zero_add] at hgrown
    exact hcap.trans hgrown

/-- A hook that fills a part of its size, within the capacity, makes a message that starts with
its bytes. -/
theorem Keeps.setMsgHook_fills {b bytes : Bytes} {msize : Nat} (h : msg.Keeps b)
    (hstored : msg.mMsg.isSome = true) (hpos : 0 < msize) (hlen : bytes.length ≤ msize)
    (hfit : msize < msg.capacity) :
    ∃ msg' text, msg.setMsgHook (MsgHook.fills bytes).func msize = .ok (true, msg') ∧
      msg'.Holds text ∧ text.length = msize ∧ text.take bytes.length = bytes ∧
      msg'.capacity = msg.capacity := by
  obtain ⟨block, hblock⟩ := Option.isSome_iff_exists.mp hstored
  have hblocklen : block.length = msg.capacity := h.block block hblock
  have hfilled : 0 + bytes.length ≤ block.length := by omega
  have hnul : msize + ([0] : Bytes).length ≤ (overwrite block 0 bytes).length := by
    rw [length_overwrite hfilled, List.length_singleton]
    omega
  have hmsize : msize ≤ (overwrite block 0 bytes).length := by
    rw [length_overwrite hfilled]
    omega
  have hdata : (overwrite (overwrite block 0 bytes) msize [0]).length = msg.capacity := by
    rw [length_overwrite hnul, length_overwrite hfilled, hblocklen]
  have htext : ((overwrite (overwrite block 0 bytes) msize [0]).take msize).length = msize :=
    List.length_take_of_le (by omega)
  refine ⟨{ msg with mMsg := some (overwrite (overwrite block 0 bytes) msize [0])
                     msgSize := msize }, _, ?_, ⟨⟨_, rfl, hdata, ?_, ?_, ?_⟩, htext.symm⟩, htext,
    ?_, rfl⟩
  · have hcap : 1 ≤ msg.capacity := by omega
    have hover : ¬msg.capacity - 1 < msize := by omega
    simp [CRawMessage.setMsgHook, hpos, hover, hcap, MsgHook.func, hblock,
      writeBytes_of_le hfilled, writeBytes_of_le hnul]
  · omega
  · rw [htext]
  · intro _
    rw [htext]
    exact getElem?_overwrite 0 hmsize
  · rw [List.take_take, Nat.min_eq_left hlen, take_overwrite [0] hlen hmsize]
    exact take_overwrite_zero block bytes

/-- A hook that does not find its size in the capacity is not called. -/
theorem setMsgHook_overflow (func : Option Bytes → Outcome (Bool × Option Bytes)) {msize : Nat}
    (hpos : 0 < msize) (hover : sizeSub msg.capacity 1 < msize) :
    msg.setMsgHook func msize = .ok (false, msg) := by
  simp [CRawMessage.setMsgHook, hpos, hover, throwThat, catching]

theorem setMsgHook_refuses {msize : Nat} (hpos : 0 < msize) :
    msg.setMsgHook MsgHook.refuses.func msize = .ok (false, msg) := by
  by_cases hover : sizeSub msg.capacity 1 < msize
  · exact setMsgHook_overflow MsgHook.refuses.func hpos hover
  · simp [CRawMessage.setMsgHook, hpos, hover, MsgHook.func]

theorem Represents.setMsgHook (h : msg.Represents s) {hook : MsgHook} {msize : Nat}
    (hwf : (WriteCall.setMsgHook hook msize).WellFormed) :
    ∃ msg', msg.setMsgHook hook.func msize =
        .ok ((s.write (.setMsgHook hook msize)).1, msg') ∧
      msg'.Represents (s.write (.setMsgHook hook msize)).2 ∧ msg'.capacity = msg.capacity := by
  cases hook with
  | refuses => exact ⟨msg, setMsgHook_refuses hwf, h, rfl⟩
  | fills bytes =>
      obtain ⟨hpos, rfl⟩ := hwf
      by_cases hfit : bytes.length ≤ s.room
      · have hlt : bytes.length < msg.capacity := by
          rw [h.room]
          omega
        obtain ⟨msg', text, hset, hholds, hlen, htake, hcap⟩ :=
          h.holds.keeps.setMsgHook_fills h.holds.isSome hpos (Nat.le_refl _) hlt
        have htext : text = bytes := by
          rw [← hlen, List.take_length] at htake
          exact htake
        rw [ByteString.write_fills _ hfit]
        exact ⟨msg', hset, ⟨htext ▸ hholds, hcap.trans h.room⟩, hcap⟩
      · have hover : sizeSub msg.capacity 1 < bytes.length := by
          rw [sizeSub_of_le h.capacity_pos, h.room]
          omega
        rw [ByteString.write_overflow _ hfit]
        exact ⟨msg, setMsgHook_overflow _ hpos hover, h, rfl⟩

/-- Every call returns what it returns for the byte string, and leaves what it leaves there. -/
theorem Represents.perform (h : msg.Represents s) {call : WriteCall} (hwf : call.WellFormed) :
    ∃ msg', call.perform msg true = .ok ((s.write call).1, msg') ∧
      msg'.Represents (s.write call).2 ∧ msg'.capacity = call.grownCapacity msg := by
  cases call with
  | setNewMsg buf => exact h.setNewMsg (List.length_pos_iff.mp hwf)
  | appendMsg buf => exact h.appendMsg (List.length_pos_iff.mp hwf)
  | setMsgHook hook msize => exact h.setMsgHook hwf

theorem Represents.writes (h : msg.Represents s) {calls : List WriteCall}
    (hwf : ∀ call ∈ calls, call.WellFormed) :
    ∃ msg', msg.writes calls = .ok ((s.writes calls).1, msg') ∧
      msg'.Represents (s.writes calls).2 := by
  induction calls generalizing msg s with
  | nil => exact ⟨msg, rfl, h⟩
  | cons call calls ih =>
      obtain ⟨mid, hperform, hmid, -⟩ := h.perform (hwf call List.mem_cons_self)
      obtain ⟨msg', hwrites, hmsg'⟩ :=
        ih hmid (fun call hmem => hwf call (List.mem_cons_of_mem _ hmem))
      refine ⟨msg', ?_, hmsg'⟩
      rw [CRawMessage.writes, hperform, ok_bind]
      dsimp only
      rw [hwrites]
      rfl

/-- What a message may have grown to, when its calls have passed `spent` bytes. -/
structure Budget (first spent : Nat) (msg : CRawMessage) : Prop where
  size : msg.msgSize ≤ spent
  grown : msg.capacity = first ∨ first ≤ spent ∧ msg.capacity ≤ first + 1025 * spent

theorem Budget.grownCapacity {first spent size : Nat} (h : Budget first spent msg)
    (hpos : 0 < size) (hcap : 1 ≤ msg.capacity) :
    msg.grownCapacity size = first ∨
      first ≤ spent + size ∧ msg.grownCapacity size ≤ first + 1025 * (spent + size) := by
  have hsize := h.size
  have hgrown := h.grown
  rw [CRawMessage.grownCapacity, capacityBin, sizeSub_of_le hcap]
  split <;> omega

/-- A call stays within the budget. -/
theorem Budget.perform {first spent : Nat} (h : Budget first spent msg)
    (hrep : msg.Represents s) {call : WriteCall} (hwf : call.WellFormed) {res : Bool}
    {msg' : CRawMessage} (hcall : call.perform msg true = .ok (res, msg')) :
    Budget first (spent + call.msize) msg' := by
  obtain ⟨done, hdone, hrep', hcap⟩ := hrep.perform hwf
  rw [hcall] at hdone
  cases hdone
  refine ⟨?_, ?_⟩
  · have hlen := ByteString.length_write_le (s := s) hwf
    have hsize := h.size
    rw [hrep'.holds.size]
    rw [hrep.holds.size] at hsize
    omega
  · rw [hcap]
    cases call with
    | setNewMsg buf =>
        exact Budget.grownCapacity ⟨Nat.zero_le _, h.grown⟩ hwf hrep.capacity_pos
    | appendMsg buf => exact h.grownCapacity hwf hrep.capacity_pos
    | setMsgHook hook msize =>
        have hgrown := h.grown
        simp only [WriteCall.grownCapacity, WriteCall.msize]
        omega

/-- Within the budget no sum reaches `2 ^ 64`. The block can only be close to that size when it
is the first one: an extension asks for a message as long as the capacity. -/
theorem Budget.sumsFit {first spent : Nat} (h : Budget first spent msg) (hcap : 1 ≤ msg.capacity)
    {call : WriteCall} (htotal : spent + call.msize < 2 ^ 63)
    (hroom : first + (spent + call.msize) + capacityBin < 2 ^ 64) : call.SumsFit msg := by
  have hsize := h.size
  have hgrown := h.grown
  rw [capacityBin] at hroom
  unfold WriteCall.SumsFit
  cases call with
  | setNewMsg buf =>
      simp only [WriteCall.msize] at htotal hroom
      simp only [WriteCall.needed, WriteCall.msize, WriteCall.grownCapacity,
        CRawMessage.grownCapacity, capacityBin, sizeSub_of_le hcap]
      split <;> omega
  | appendMsg buf =>
      simp only [WriteCall.msize] at htotal hroom
      simp only [WriteCall.needed, WriteCall.grownCapacity,
        CRawMessage.grownCapacity, capacityBin, sizeSub_of_le hcap]
      split <;> omega
  | setMsgHook hook msize =>
      simp only [WriteCall.msize] at htotal hroom
      simp only [WriteCall.needed, WriteCall.msize, WriteCall.grownCapacity]
      omega

/-- Within the budget of all calls, no sum of any of them wraps. -/
theorem Budget.writes_sumsFit {first spent : Nat} (h : Budget first spent msg)
    (hrep : msg.Represents s) {done rest : List WriteCall} {call : WriteCall}
    (hwf : ∀ call' ∈ done ++ call :: rest, call'.WellFormed)
    (htotal : spent + WriteCall.totalSize (done ++ call :: rest) < 2 ^ 63)
    (hroom : first + (spent + WriteCall.totalSize (done ++ call :: rest)) + capacityBin < 2 ^ 64)
    {ress : List Bool} {mid : CRawMessage} (hdone : msg.writes done = .ok (ress, mid)) :
    call.SumsFit mid := by
  induction done generalizing msg s spent ress with
  | nil =>
      cases hdone
      rw [List.nil_append, WriteCall.totalSize] at htotal hroom
      exact h.sumsFit hrep.capacity_pos (by omega) (by omega)
  | cons call' done ih =>
      have hcall' : call'.WellFormed := hwf call' List.mem_cons_self
      obtain ⟨next, hperform, hnext, -⟩ := hrep.perform hcall'
      rw [writes, hperform, ok_bind] at hdone
      obtain ⟨⟨ress', mid'⟩, hrest, heq⟩ := bind_eq_ok.mp hdone
      cases heq
      rw [List.cons_append, WriteCall.totalSize] at htotal hroom
      apply ih (h.perform hrep hcall' hperform) hnext
        (fun call hmem => hwf call (List.mem_cons_of_mem _ hmem)) _ _ hrest
      · omega
      · omega

theorem Holds.getMsg {b : Bytes} (h : msg.Holds b) {cap : Nat} (hcap : b.length ≤ cap) :
    msg.getMsg cap = .ok b := by
  obtain ⟨⟨data, hdata, -, hlt, htake, -⟩, hsize⟩ := h
  have henough : ¬cap < b.length := Nat.not_lt.mpr hcap
  have hread : readBytes data 0 b.length = .ok b := by
    rw [readBytes_of_le (by omega), field, List.drop_zero, htake]
  simp [CRawMessage.getMsg, hsize, hdata, henough, hread]

/-- A message is a byte string: whatever calls write into it, each returns and leaves what it
does for the byte string. Every write lies in the block, which is as long as the capacity says,
and no size wraps. -/
theorem writes_refine_byteString (capa : Nat) (calls : List WriteCall)
    (hwf : ∀ call ∈ calls, call.WellFormed) (htotal : WriteCall.totalSize calls < 2 ^ 63)
    (hroom : (init capa).capacity + WriteCall.totalSize calls + capacityBin < 2 ^ 64) :
    let written := (ByteString.empty (firstRoom capa)).writes calls
    ∃ msg data, (init capa).writes calls = .ok (written.1, msg) ∧
      (∀ cap, written.2.text.length ≤ cap → msg.getMsg cap = .ok written.2.text) ∧
      msg.mMsg = some data ∧ data.length = msg.capacity ∧
      msg.msgSize = written.2.text.length ∧ msg.msgSize + 1 ≤ msg.capacity ∧
      (true ∈ written.1 → data[msg.msgSize]? = some 0) ∧
      ∀ done call rest ress mid, calls = done ++ call :: rest →
        (init capa).writes done = .ok (ress, mid) → call.SumsFit mid := by
  intro written
  have hinit : (init capa).Represents (.empty (firstRoom capa)) := init_represents capa
  obtain ⟨msg, hwrites, hmsg⟩ := hinit.writes hwf
  obtain ⟨⟨data, hdata, hlen, hlt, -, hnul⟩, hsize⟩ := hmsg.holds
  refine ⟨msg, data, hwrites, fun _ hcap => hmsg.holds.getMsg hcap, hdata, hlen, hsize, ?_, ?_, ?_⟩
  · have hholds := hmsg.holds.length_lt
    omega
  · intro hmem
    rw [hsize]
    exact hnul (ByteString.writes_text_ne hwf (.inl hmem))
  · rintro done call rest ress mid rfl hdone
    have hbudget : Budget (init capa).capacity 0 (init capa) := ⟨Nat.le_refl _, .inl rfl⟩
    apply hbudget.writes_sumsFit hinit hwf _ _ hdone
    · rwa [Nat.zero_add]
    · rwa [Nat.zero_add]

/-- Two bytes, a hook that does not fit, one that does, and one that refuses. -/
theorem writes_refine_byteString_hooks :
    ∃ msg data, (init 3).writes [.appendMsg [1, 2], .setMsgHook (.fills [1, 2, 3, 4]) 4,
          .setMsgHook (.fills [7, 8, 9]) 3, .setMsgHook .refuses 2] =
        .ok ([true, false, true, false], msg) ∧
      (∀ cap, 3 ≤ cap → msg.getMsg cap = .ok [7, 8, 9]) ∧
      msg.mMsg = some data ∧ data.length = msg.capacity ∧ data[msg.msgSize]? = some 0 := by
  obtain ⟨msg, data, hwrites, hget, hdata, hlen, -, -, hnul, -⟩ :=
    writes_refine_byteString 3 [.appendMsg [1, 2], .setMsgHook (.fills [1, 2, 3, 4]) 4,
      .setMsgHook (.fills [7, 8, 9]) 3, .setMsgHook .refuses 2]
      (by simp [WriteCall.WellFormed, WriteCall.msize]) (by decide) (by decide)
  exact ⟨msg, data, hwrites, hget, hdata, hlen, hnul (by decide)⟩

end CRawMessage

end CommonCommunicator
