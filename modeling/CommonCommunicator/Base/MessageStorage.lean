import CommonCommunicator.Base.MessageWrites

/-!
# Messages without storage

A message loses its storage in `destroy`, and has none when the allocation of its
constructor fails. `capacity` is 0 after the first and the capacity asked for after
the second, so that the writers' test against `capacity - 1` wraps in the one case
and finds room that is not there in the other. A hook gets the block, or the null
pointer, and does with it what it likes. `Ready` is the condition under which a call
is safe, and a lifecycle is safe exactly if all its calls meet it.
-/

namespace CommonCommunicator

open Lib

/-- Any hook of `set_msg_hook`. It gets the block or a null pointer, and writes inside of the
block. One that throws behind its writes counts as one that returns `false`, which is what
`set_msg_hook` makes of it. -/
structure HookFunc where
  func : Option Bytes → Outcome (Bool × Option Bytes)
  inside : ∀ block res block', func block = .ok (res, block') →
    block'.map List.length = block.map List.length

/-- A call in the life of a message; `allocated` says whether the allocation that it may ask for
succeeds. -/
inductive LifeCall
  | setNewMsg (buf : Bytes) (allocated : Bool)
  | appendMsg (buf : Bytes) (allocated : Bool)
  | setMsgHook (hook : HookFunc) (msize : Nat)
  | destroy

namespace CRawMessage

variable {msg msg' : CRawMessage} {b buf : Bytes} {allocated : Bool}

/-- What the writers return. -/
def lifeCall (msg : CRawMessage) : LifeCall → Outcome (Bool × CRawMessage)
  | .setNewMsg buf allocated => msg.setNewMsg buf allocated
  | .appendMsg buf allocated => msg.appendMsg buf allocated
  | .setMsgHook hook msize => msg.setMsgHook hook.func msize
  | .destroy => .ok (true, msg.destroy)

/-- The message after a call that returns. -/
def life (msg : CRawMessage) (call : LifeCall) : Option CRawMessage :=
  match msg.lifeCall call with
  | .ok (_, msg) => some msg
  | .error _ => none

/-- The sums that a call computes in `size_t` do not wrap. -/
def LifeFits (msg : CRawMessage) : LifeCall → Prop
  | .setNewMsg buf _ => (WriteCall.setNewMsg buf).SumsFit msg
  | .appendMsg buf _ => (WriteCall.appendMsg buf).SumsFit msg
  | .setMsgHook _ msize => msize < 2 ^ 64
  | .destroy => True

/-- The message is in storage that is large enough for it and for the NUL byte. -/
def Large (msg : CRawMessage) : Prop :=
  ∃ data, msg.mMsg = some data ∧ data.length = msg.capacity ∧ msg.msgSize < msg.capacity

/-- The message has the bytes that it had. -/
def Unchanged (msg msg' : CRawMessage) : Prop :=
  msg'.msgSize = msg.msgSize ∧ msg'.capacity = msg.capacity ∧ msg'.content = msg.content

/-- What a writer has to have done when it returns. -/
def Done (msg : CRawMessage) (res : Bool) (msg' : CRawMessage) : Prop :=
  if res then msg'.Large else msg.Unchanged msg'

/-- The call computes its sizes without wrapping, and it returns `false` and leaves the message,
or returns `true` and has the message in storage that is large enough. -/
def Safe (msg : CRawMessage) : LifeCall → Prop
  | .destroy => True
  | call => 1 ≤ msg.capacity ∧ msg.LifeFits call ∧
      ∃ res msg', msg.lifeCall call = .ok (res, msg') ∧ msg.Done res msg'

end CRawMessage

/-- The hook returns `true` for a block only, leaves the bytes of the message if it returns `false`
or throws, and does not stop the process. -/
def HookFunc.Behaves (hook : HookFunc) (msg : CRawMessage) : Prop :=
  match hook.func msg.mMsg with
  | .ok (true, _) => msg.mMsg.isSome = true
  | .ok (false, block) => (block.getD []).take msg.msgSize = msg.content
  | .error (.thrown _) => True
  | .error _ => False

namespace CRawMessage

variable {msg msg' : CRawMessage} {b buf : Bytes} {allocated : Bool}

/-- The call passes bytes, finds the storage it writes to, or asks for it and gets it; a hook that
is called behaves. -/
def Served (msg : CRawMessage) : LifeCall → Prop
  | .setNewMsg buf allocated => buf ≠ [] ∧
      (msg.mMsg.isSome = true ∨ msg.capacity - 1 < buf.length) ∧
        (msg.capacity - 1 < buf.length → allocated = true)
  | .appendMsg buf allocated => buf ≠ [] ∧
      (msg.mMsg.isSome = true ∨ msg.capacity - 1 < msg.msgSize + buf.length) ∧
        (msg.capacity - 1 < msg.msgSize + buf.length → allocated = true)
  | .setMsgHook hook msize => 0 < msize ∧ (msg.capacity - 1 < msize ∨ hook.Behaves msg)
  | .destroy => True

/-- There is a capacity to test against, no sum wraps, and the call is served. -/
def Ready (msg : CRawMessage) : LifeCall → Prop
  | .destroy => True
  | call => 1 ≤ msg.capacity ∧ msg.LifeFits call ∧ msg.Served call

theorem Holds.large (h : msg.Holds b) : msg.Large := by
  obtain ⟨data, hdata⟩ := Option.isSome_iff_exists.mp h.isSome
  refine ⟨data, hdata, h.keeps.block data hdata, ?_⟩
  rw [h.size]
  exact h.length_lt

/-- Bytes are copied into storage that has room for them and for the NUL byte. -/
theorem Keeps.of_copyBehind (h : msg.Keeps b) (hcopy : msg.copyBehind buf = .ok msg') :
    msg.mMsg.isSome = true ∧ msg'.Holds (b ++ buf) := by
  cases hblock : msg.mMsg with
  | none =>
      rw [CRawMessage.copyBehind, hblock] at hcopy
      cases hcopy
  | some data =>
      have hwritten := hcopy
      rw [CRawMessage.copyBehind, hblock] at hwritten
      obtain ⟨data', hwrite, -⟩ := bind_eq_ok.mp hwritten
      have hfits := (writeBytes_eq_ok.mp hwrite).1
      rw [h.block data hblock, h.size, List.length_append, List.length_singleton] at hfits
      obtain ⟨stored, hstored, hholds, -⟩ :=
        h.copyBehind buf (by rw [hblock]; rfl) (Nat.lt_of_succ_le hfits)
      cases hcopy.symm.trans hstored
      exact ⟨rfl, hholds⟩

/-- `append_msg` only returns when it finds or gets its storage. -/
theorem Keeps.of_appendMsg (h : msg.Keeps b) (hne : buf ≠ []) {res : Bool}
    (happend : msg.appendMsg buf allocated = .ok (res, msg')) :
    res = true ∧ msg'.Holds (b ++ buf) ∧
      (msg.mMsg.isSome = true ∨ sizeSub msg.capacity 1 < msg.msgSize + buf.length) ∧
      (sizeSub msg.capacity 1 < msg.msgSize + buf.length → allocated = true) := by
  rw [appendMsg_eq hne] at happend
  obtain ⟨mid, hcopy, heq⟩ := map_eq_ok.mp happend
  cases heq
  split at hcopy
  · next hlt =>
    split at hcopy
    · next halloc =>
      exact ⟨rfl, ((h.moved _).of_copyBehind hcopy).2, .inr hlt, fun _ => halloc⟩
    · cases hcopy
  · next hge =>
    obtain ⟨hstored, hholds⟩ := h.of_copyBehind hcopy
    exact ⟨rfl, hholds, .inl hstored, fun hlt => absurd hlt hge⟩

theorem ne_nil_of_appendMsg {res : Bool} (happend : msg.appendMsg buf allocated = .ok (res, msg')) :
    buf ≠ [] := by
  rintro rfl
  simp [CRawMessage.appendMsg, assertThat] at happend

theorem Keeps.setNewMsg_eq (h : msg.Keeps b) (buf : Bytes) (allocated : Bool) :
    msg.setNewMsg buf allocated =
      { msg with msgSize := 0 : CRawMessage }.appendMsg buf allocated :=
  setNewMsg_eq_appendMsg buf allocated h.stored

/-- What holds of a message all its life: its storage is as long as its capacity says and larger
than the message, or it has neither. -/
def Sound (msg : CRawMessage) : Prop := msg.Large ∨ msg.mMsg = none ∧ msg.msgSize = 0

theorem init_sound (capa : Nat) (built : Bool) : (init capa built).Sound := by
  cases built with
  | true => exact .inl (init_holds capa).large
  | false => exact .inr ⟨rfl, rfl⟩

theorem Sound.keeps (h : msg.Sound) : msg.Keeps msg.content := by
  rcases h with ⟨data, hdata, hlen, hlt⟩ | ⟨hblock, hsize⟩
  · have hsize : (data.take msg.msgSize).length = msg.msgSize :=
      List.length_take_of_le (hlen ▸ Nat.le_of_lt hlt)
    refine ⟨?_, ?_, ?_⟩
    · rw [content, hdata]
      exact hsize.symm
    · rw [content, hdata, Option.getD_some, hsize]
    · intro data' hdata'
      cases hdata.symm.trans hdata'
      exact hlen
  · refine ⟨?_, ?_, ?_⟩
    · simp [content, hblock, hsize]
    · simp [content, hblock]
    · intro data hdata
      rw [hblock] at hdata
      cases hdata

/-- A hook that finds room is called, and decides what becomes of the message. -/
theorem setMsgHook_called (func : Option Bytes → Outcome (Bool × Option Bytes)) {msize : Nat}
    (hpos : 0 < msize) (hfit : ¬sizeSub msg.capacity 1 < msize) :
    msg.setMsgHook func msize =
      match func msg.mMsg with
      | .ok (true, some data) =>
          if msize < data.length then
            .ok (true, { msg with mMsg := some (overwrite data msize [0]), msgSize := msize })
          else .error .undefined
      | .ok (true, none) => .error .undefined
      | .ok (false, block) => .ok (false, { msg with mMsg := block })
      | .error (.thrown _) => .ok (false, msg)
      | .error f => .error f := by
  rw [CRawMessage.setMsgHook, assertThat_pos hpos, ok_bind, if_neg hfit]
  cases hfunc : func msg.mMsg with
  | error f =>
      cases f with
      | assertion | undefined | thrown => rfl
  | ok called =>
      obtain ⟨res, block⟩ := called
      cases res with
      | false => rfl
      | true =>
          cases block with
          | none => rfl
          | some data =>
              by_cases hlt : msize < data.length
              · have hwrite : writeBytes data msize [0] = .ok (overwrite data msize [0]) :=
                  writeBytes_of_le (Nat.succ_le_of_lt hlt)
                simp [hwrite, hlt, catching]
              · have hwrite : writeBytes data msize [0] = .error .undefined := by
                  have hover : ¬msize + 1 ≤ data.length := hlt
                  simp [writeBytes, definedIf, hover]
                simp [hwrite, hlt, catching]

theorem Unchanged.refl (msg : CRawMessage) : msg.Unchanged msg := ⟨rfl, rfl, rfl⟩

/-- A hook that is called may leave less of a message than there was, but no message that is larger
than its storage. -/
theorem Sound.setMsgHook (h : msg.Sound) {hook : HookFunc} {msize : Nat} {res : Bool}
    (hset : msg.setMsgHook hook.func msize = .ok (res, msg')) : msg'.Sound := by
  have hpos : 0 < msize := by
    obtain ⟨⟨⟩, hassert, -⟩ := bind_eq_ok.mp hset
    exact assertThat_eq_ok.mp hassert
  by_cases hover : sizeSub msg.capacity 1 < msize
  · rw [setMsgHook_overflow _ hpos hover] at hset
    cases hset
    exact h
  · rw [setMsgHook_called _ hpos hover] at hset
    cases hfunc : hook.func msg.mMsg with
    | error f =>
        rw [hfunc] at hset
        cases f with
        | assertion | undefined => cases hset
        | thrown e =>
            cases hset
            exact h
    | ok called =>
        obtain ⟨res', block⟩ := called
        have hinside := hook.inside _ res' block hfunc
        rw [hfunc] at hset
        rcases h with ⟨data, hdata, hlen, hlt⟩ | ⟨hblock, hsize⟩
        · rw [hdata] at hinside
          obtain ⟨data', rfl, hlen'⟩ := Option.map_eq_some_iff.mp hinside
          cases res' with
          | false =>
              cases hset
              exact .inl ⟨data', rfl, hlen'.trans hlen, hlt⟩
          | true =>
              dsimp only at hset
              split at hset
              · next hroom =>
                  cases hset
                  refine .inl ⟨_, rfl, ?_, ?_⟩
                  · rw [length_overwrite (Nat.succ_le_of_lt hroom)]
                    exact hlen'.trans hlen
                  · rw [← hlen, ← hlen']
                    exact hroom
              · cases hset
        · rw [hblock] at hinside
          obtain rfl := Option.map_eq_none_iff.mp hinside
          cases res' with
          | false =>
              cases hset
              exact .inr ⟨rfl, hsize⟩
          | true => cases hset

/-- `set_msg_hook` has done what it has to exactly if the hook was not called or behaves. -/
theorem Sound.setMsgHook_iff (h : msg.Sound) (hcap : 1 ≤ msg.capacity) (hook : HookFunc)
    (msize : Nat) :
    (∃ res msg', msg.setMsgHook hook.func msize = .ok (res, msg') ∧ msg.Done res msg') ↔
      0 < msize ∧ (msg.capacity - 1 < msize ∨ hook.Behaves msg) := by
  by_cases hpos : 0 < msize
  · rw [and_iff_right hpos, ← sizeSub_of_le hcap]
    by_cases hover : sizeSub msg.capacity 1 < msize
    · refine iff_of_true ⟨false, msg, setMsgHook_overflow _ hpos hover, .refl msg⟩ (.inl hover)
    · rw [or_iff_right hover, setMsgHook_called _ hpos hover, HookFunc.Behaves]
      cases hfunc : hook.func msg.mMsg with
      | error f =>
          cases f with
          | assertion | undefined => simp
          | thrown e => exact iff_of_true ⟨false, msg, rfl, .refl msg⟩ trivial
      | ok called =>
          obtain ⟨res, block⟩ := called
          cases res with
          | false =>
              constructor
              · rintro ⟨res, msg', hcall, hdone⟩
                cases hcall
                exact hdone.2.2
              · intro hkept
                exact ⟨false, _, rfl, rfl, rfl, hkept⟩
          | true =>
              have hinside := (hook.inside _ true block hfunc).symm
              cases block with
              | none => simp [Option.map_eq_none_iff.mp hinside]
              | some data =>
                  obtain ⟨before, hbefore, hlen⟩ := Option.map_eq_some_iff.mp hinside
                  have hcapacity : before.length = msg.capacity := h.keeps.block before hbefore
                  have hroom : msize < data.length := by
                    rw [sizeSub_of_le hcap] at hover
                    omega
                  have hdone : ({ msg with
                      mMsg := some (overwrite data msize [0]), msgSize := msize } :
                        CRawMessage).Large := by
                    refine ⟨_, rfl, ?_, ?_⟩
                    · rw [length_overwrite (Nat.succ_le_of_lt hroom)]
                      exact hlen.symm.trans hcapacity
                    · dsimp only
                      omega
                  refine iff_of_true ⟨true, _, if_pos hroom, hdone⟩ ?_
                  rw [hbefore]
                  rfl
  · rw [CRawMessage.setMsgHook, assertThat, if_neg hpos]
    simp [hpos]

/-- A writer that returns from passing bytes found or got its storage, and has made a message. -/
theorem Sound.appendMsg_iff (h : msg.Sound) (hcap : 1 ≤ msg.capacity) (buf : Bytes)
    (allocated : Bool) :
    (∃ res msg', msg.appendMsg buf allocated = .ok (res, msg') ∧ msg.Done res msg') ↔
      msg.Served (.appendMsg buf allocated) := by
  rw [Served, ← sizeSub_of_le hcap]
  by_cases hne : buf = []
  · subst hne
    simp [CRawMessage.appendMsg, assertThat]
  · rw [and_iff_right hne]
    constructor
    · rintro ⟨res, msg', happend, -⟩
      exact (h.keeps.of_appendMsg hne happend).2.2
    · rintro ⟨hstored, halloc⟩
      obtain ⟨msg', happend, hholds, -⟩ := h.keeps.appendMsg hne hcap hstored halloc
      exact ⟨true, msg', happend, hholds.large⟩

/-- The same of `set_new_msg`, which forgets the message there was first. -/
theorem Sound.setNewMsg_iff (h : msg.Sound) (hcap : 1 ≤ msg.capacity) (buf : Bytes)
    (allocated : Bool) :
    (∃ res msg', msg.setNewMsg buf allocated = .ok (res, msg') ∧ msg.Done res msg') ↔
      msg.Served (.setNewMsg buf allocated) := by
  rw [Served, ← sizeSub_of_le hcap, h.keeps.setNewMsg_eq]
  by_cases hne : buf = []
  · subst hne
    simp [CRawMessage.appendMsg, assertThat]
  · rw [and_iff_right hne]
    constructor
    · rintro ⟨res, msg', happend, -⟩
      have hserved := (h.keeps.cleared.of_appendMsg hne happend).2.2
      rwa [Nat.zero_add] at hserved
    · rintro ⟨hstored, halloc⟩
      obtain ⟨msg', happend, hholds, -⟩ := h.keeps.cleared.appendMsg hne hcap
        (by rwa [Nat.zero_add]) (by rwa [Nat.zero_add])
      exact ⟨true, msg', happend, hholds.large⟩

/-- A call of a sound message is safe exactly if it is ready. -/
theorem Sound.safe_iff_ready (h : msg.Sound) (call : LifeCall) :
    msg.Safe call ↔ msg.Ready call := by
  cases call with
  | setNewMsg buf allocated =>
      exact and_congr_right fun hcap => and_congr_right fun _ => h.setNewMsg_iff hcap buf allocated
  | appendMsg buf allocated =>
      exact and_congr_right fun hcap => and_congr_right fun _ => h.appendMsg_iff hcap buf allocated
  | setMsgHook hook msize =>
      exact and_congr_right fun hcap => and_congr_right fun _ => h.setMsgHook_iff hcap hook msize
  | destroy => exact Iff.rfl

/-- What a call that returns preserves. -/
theorem Sound.life (h : msg.Sound) {call : LifeCall} (hlife : msg.life call = some msg') :
    msg'.Sound := by
  rw [CRawMessage.life] at hlife
  split at hlife
  · next res last hcall =>
      cases hlife
      cases call with
      | setNewMsg buf allocated =>
          rw [lifeCall, h.keeps.setNewMsg_eq] at hcall
          exact .inl (h.keeps.cleared.of_appendMsg (ne_nil_of_appendMsg hcall) hcall).2.1.large
      | appendMsg buf allocated =>
          exact .inl (h.keeps.of_appendMsg (ne_nil_of_appendMsg hcall) hcall).2.1.large
      | setMsgHook hook msize => exact h.setMsgHook hcall
      | destroy =>
          cases hcall
          exact .inr ⟨rfl, rfl⟩
  · cases hlife

/-- Every call in the life of a message is safe if and only if every call is ready for it. -/
theorem life_safe_iff_ready (capa : Nat) (built : Bool) (calls : List LifeCall) :
    Meets life Safe (init capa built) calls ↔ Meets life Ready (init capa built) calls :=
  meets_congr Sound (fun _ => True) (fun _ _ _ h _ => h.life)
    (fun _ call h _ => h.safe_iff_ready call) (init_sound capa built) fun _ _ => trivial

/-- After `destroy`, and after a construction without storage, one byte is written through a null
pointer. In the first case the capacity has wrapped before. -/
theorem life_destroyed_not_safe :
    ¬Meets life Safe (init 4) [.destroy, .setNewMsg [1] true] ∧
      ¬Meets life Safe (init 4 false) [.setNewMsg [1] true] ∧
      sizeSub (init 4).destroy.capacity 1 = 2 ^ 64 - 1 ∧
      (init 4).destroy.setNewMsg [1] = .error .undefined ∧
      (init 4 false).setNewMsg [1] = .error .undefined := by
  have hdestroyed : (init 4).destroy.setNewMsg [1] = .error .undefined := by decide
  have hunbuilt : (init 4 false).setNewMsg [1] = .error .undefined := by decide
  refine ⟨?_, ?_, by decide, hdestroyed, hunbuilt⟩
  · rintro ⟨-, ⟨hcap, -⟩, -⟩
    exact absurd hcap (by decide)
  · rintro ⟨⟨-, -, res, msg', hcall, -⟩, -⟩
    cases hunbuilt.symm.trans hcall

end CRawMessage

end CommonCommunicator
