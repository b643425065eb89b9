import CommonCommunicator.Lib.GuardedRun
import CommonCommunicator.Protocol.ChainElements
import CommonCommunicator.Protocol.MessageJob

/-!
# The slices of a buffer

The receive loop asks the plug-in for the size of the next message, unpacks that
many bytes and moves on behind them; the number of bytes that are left is a
`size_t`. The loop does not compare the two numbers.
-/

namespace CommonCommunicator

open Lib

variable {Head : Type}

/-- The variables of the receive loop: the chain, how far `data` has moved into the buffer, and
`data_size`. -/
structure LoopState (Head : Type) where
  chain : List (Protocol Head)
  offset : Nat
  dataSize : Nat

/-- Bytes of the buffer that are handed to `unpack_recurcive`. -/
structure MessageSlice where
  offset : Nat
  size : Nat
  deriving DecidableEq, Repr

namespace LoopState

/-- `msg_size`, where 0 ends the loop. The plug-in is not asked when nothing is left. -/
def msgSize (mem : Bytes) (s : LoopState Head) : Nat :=
  match s.chain with
  | [] => 0
  | protocol :: _ =>
      if s.dataSize = 0 then 0
      else protocol.cls.getMsgSize protocol.head (mem.drop s.offset) s.dataSize

/-- One turn of the loop, up to the next evaluation of its condition. The assertion on the result
of `unpack_recurcive` may stop it. -/
def turn (mem : Bytes) (s : LoopState Head) : Option (LoopState Head) :=
  if s.msgSize mem = 0 then none
  else
    match ProtoChain.unpackRecurcive s.chain (mem.drop s.offset) (s.msgSize mem) with
    | .ok (true, chain) => some
        { chain := ProtoChain.cleanData chain
          offset := s.offset + s.msgSize mem
          dataSize := sizeSub s.dataSize (s.msgSize mem) }
    | _ => none

/-- The states that the loop comes to. -/
abbrev Reached (mem : Bytes) (start s : LoopState Head) : Prop :=
  Reachable (fun s (_ : Unit) s' => turn mem s = some s') start s

/-- The loop ends, and these are the slices that it has handed over. -/
inductive Slices (mem : Bytes) : LoopState Head → List MessageSlice → Prop
  | done {s : LoopState Head} (hend : s.msgSize mem = 0) : Slices mem s []
  | turn {s s' : LoopState Head} {slices : List MessageSlice} (hturn : s.turn mem = some s')
      (rest : Slices mem s' slices) :
      Slices mem s ({ offset := s.offset, size := s.msgSize mem } :: slices)

/-- Each slice begins where the one before it ends, the first one at `offset`. -/
def Consecutive : (offset : Nat) → List MessageSlice → Prop
  | _, [] => True
  | offset, slice :: slices => slice.offset = offset ∧ Consecutive (offset + slice.size) slices

/-- The loop ends, and its slices are consecutive, not empty, and inside the first `n` bytes. -/
def SlicesInside (mem : Bytes) (n : Nat) (s : LoopState Head) : Prop :=
  ∃ slices, Slices mem s slices ∧ Consecutive s.offset slices ∧
    ∀ slice ∈ slices, 0 < slice.size ∧ slice.offset + slice.size ≤ n

/-- Whatever the loop hands over is unpacked. -/
def Unpacks (mem : Bytes) (start : LoopState Head) : Prop :=
  ∀ s, Reached mem start s → s.msgSize mem ≠ 0 →
    ∃ chain, ProtoChain.unpackRecurcive s.chain (mem.drop s.offset) (s.msgSize mem) =
      .ok (true, chain)

/-- The loop on a received buffer of `n` bytes. -/
def begin (elements : List (Protocol Head)) (n : Nat) : LoopState Head :=
  { chain := elements, offset := 0, dataSize := n }

variable {mem : Bytes} {n : Nat} {start s s' : LoopState Head} {slices : List MessageSlice}

theorem turn_eq_some (h : s.turn mem = some s') :
    s.msgSize mem ≠ 0 ∧ s'.offset = s.offset + s.msgSize mem ∧
      s'.dataSize = sizeSub s.dataSize (s.msgSize mem) := by
  rw [turn] at h
  split at h
  · cases h
  · next hsome =>
      split at h
      · cases h
        exact ⟨hsome, rfl, rfl⟩
      · cases h

/-- Where the slice is unpacked, the loop goes on. -/
theorem turn_of_unpacks {chain : List (Protocol Head)} (hsome : s.msgSize mem ≠ 0)
    (hunpack : ProtoChain.unpackRecurcive s.chain (mem.drop s.offset) (s.msgSize mem) =
      .ok (true, chain)) :
    s.turn mem = some
      { chain := ProtoChain.cleanData chain
        offset := s.offset + s.msgSize mem
        dataSize := sizeSub s.dataSize (s.msgSize mem) } := by
  rw [turn, if_neg hsome, hunpack]

theorem msgSize_cons {protocol : Protocol Head} {rest : List (Protocol Head)}
    (hchain : s.chain = protocol :: rest) : s.msgSize mem =
      if s.dataSize = 0 then 0
      else protocol.cls.getMsgSize protocol.head (mem.drop s.offset) s.dataSize := by
  rw [msgSize, hchain]

/-- The plug-in is only asked while bytes are left. -/
theorem dataSize_pos (hsome : s.msgSize mem ≠ 0) : 0 < s.dataSize := by
  apply Nat.pos_of_ne_zero
  intro hzero
  apply hsome
  rw [msgSize]
  split
  · rfl
  · rw [if_pos hzero]

/-- One turn of a loop whose message fits leaves the end of the buffer where it is. -/
theorem turn_end (hturn : s.turn mem = some s') (hfits : s.msgSize mem ≤ s.dataSize) :
    s'.offset + s'.dataSize = s.offset + s.dataSize ∧ s'.dataSize < s.dataSize := by
  obtain ⟨hsome, hoffset, hsize⟩ := turn_eq_some hturn
  rw [hoffset, hsize, sizeSub_of_le hfits]
  omega

theorem consecutive_of_slices (h : Slices mem s slices) : Consecutive s.offset slices := by
  induction h with
  | done => trivial
  | turn hturn _ ih =>
      refine ⟨rfl, ?_⟩
      rw [← (turn_eq_some hturn).2.1]
      exact ih

/-- A state that the loop comes to has the slices that are still to come, at the same end of the
buffer, if no slice lies outside. -/
theorem slices_from_reached (hslices : Slices mem start slices)
    (hinside : ∀ slice ∈ slices, slice.offset + slice.size ≤ start.offset + start.dataSize)
    (hreached : Reached mem start s) :
    ∃ rest, Slices mem s rest ∧ rest ⊆ slices ∧
      s.offset + s.dataSize = start.offset + start.dataSize := by
  induction hreached with
  | start => exact ⟨slices, hslices, List.Subset.refl _, rfl⟩
  | next _ _ hturn ih =>
      obtain ⟨rest, hrest, hsub, hend⟩ := ih
      cases hrest with
      | done hzero => exact absurd hzero (turn_eq_some hturn).1
      | turn hturn' hrest' =>
          cases hturn.symm.trans hturn'
          rw [List.cons_subset] at hsub
          have hslice := hinside _ hsub.1
          rw [← hend, Nat.add_le_add_iff_left] at hslice
          exact ⟨_, hrest', hsub.2, (turn_end hturn hslice).1.trans hend⟩

/-- If the messages fit, the loop ends within its buffer. -/
theorem slices_of_fits (hunpacks : Unpacks mem start)
    (hfits : ∀ s, Reached mem start s → s.msgSize mem ≤ s.dataSize)
    (hreached : Reached mem start s) :
    ∃ slices, Slices mem s slices ∧
      ∀ slice ∈ slices, 0 < slice.size ∧ slice.offset + slice.size ≤ s.offset + s.dataSize := by
  -- the bytes that are left get fewer with every turn
  induction hleft : s.dataSize using Nat.strong_induction_on generalizing s with
  | _ left ih =>
      subst hleft
      by_cases hend : s.msgSize mem = 0
      · exact ⟨[], .done hend, by simp⟩
      · obtain ⟨chain, hunpack⟩ := hunpacks s hreached hend
        have hturn := turn_of_unpacks hend hunpack
        have hfit := hfits s hreached
        obtain ⟨hsame, hless⟩ := turn_end hturn hfit
        obtain ⟨slices, hslices, hinside⟩ :=
          ih _ hless (hreached.next (a := ()) trivial hturn) rfl
        refine ⟨_, .turn hturn hslices, ?_⟩
        rw [List.forall_mem_cons]
        refine ⟨⟨Nat.pos_of_ne_zero hend, Nat.add_le_add_left hfit _⟩, ?_⟩
        rw [← hsame]
        exact hinside

/-- The loop on a buffer stays inside it and ends exactly if, at every turn, the plug-in asks for
no more bytes than are left. -/
theorem slicesInside_iff (elements : List (Protocol Head)) (mem : Bytes) (n : Nat)
    (hunpacks : Unpacks mem (begin elements n)) :
    SlicesInside mem n (begin elements n) ↔
      ∀ s, Reached mem (begin elements n) s → s.msgSize mem ≤ s.dataSize := by
  have hwhole : (begin elements n).offset + (begin elements n).dataSize = n := Nat.zero_add n
  constructor
  · rintro ⟨slices, hslices, -, hinside⟩ s hreached
    have hbounds : ∀ slice ∈ slices, slice.offset + slice.size ≤
        (begin elements n).offset + (begin elements n).dataSize := by
      intro slice hslice
      rw [hwhole]
      exact (hinside slice hslice).2
    obtain ⟨rest, hrest, hsub, hend⟩ := slices_from_reached hslices hbounds hreached
    cases hrest with
    | done hzero => omega
    | turn hturn hrest' =>
        have hslice := hbounds _ (hsub List.mem_cons_self)
        rwa [← hend, Nat.add_le_add_iff_left] at hslice
  · intro hfits
    obtain ⟨slices, hslices, hinside⟩ := slices_of_fits hunpacks hfits .start
    rw [hwhole] at hinside
    exact ⟨slices, hslices, consecutive_of_slices hslices, hinside⟩

/-- The job of a loop that stays inside its buffer returns, with one callback for each slice. -/
theorem messageLoop_of_slices (msgRaw : CRawMessage) (updater : Bool) {rounds : Nat}
    (hslices : Slices mem s slices)
    (hinside : ∀ slice ∈ slices, slice.offset + slice.size ≤ s.offset + s.dataSize)
    (hchain : s.chain ≠ []) (hrounds : s.dataSize ≤ rounds) :
    ∃ events chain, messageLoop msgRaw updater rounds s.chain (mem.drop s.offset) s.dataSize =
        (events, .ok chain) ∧ (JobEvent.callbacks events).length = slices.length := by
  induction hslices generalizing rounds with
  | @done s hend =>
      obtain ⟨protocol, rest, hcons⟩ := List.exists_cons_of_ne_nil hchain
      cases rounds with
      | zero => exact ⟨[], _, rfl, rfl⟩
      | succ rounds =>
          rw [msgSize_cons hcons] at hend
          rw [hcons, messageLoop]
          refine ⟨[], protocol :: rest, if_pos ?_, rfl⟩
          by_cases hzero : s.dataSize = 0
          · exact .inl hzero
          · rw [if_neg hzero] at hend
            exact .inr hend
  | @turn s s' slices hturn _ ih =>
      obtain ⟨hsome, hoffset, hsize⟩ := turn_eq_some hturn
      have hpos := dataSize_pos hsome
      rw [List.forall_mem_cons] at hinside
      have hfit : s.msgSize mem ≤ s.dataSize := Nat.le_of_add_le_add_left hinside.1
      obtain ⟨hsame, hless⟩ := turn_end hturn hfit
      obtain ⟨protocol, rest, hcons⟩ := List.exists_cons_of_ne_nil hchain
      obtain ⟨rounds, rfl⟩ : ∃ k, rounds = k + 1 := ⟨rounds - 1, by omega⟩
      have hask : protocol.cls.getMsgSize protocol.head (mem.drop s.offset) s.dataSize =
          s.msgSize mem := by
        rw [msgSize_cons hcons, if_neg hpos.ne']
      rw [turn, if_neg hsome] at hturn
      split at hturn
      · next chain hunpack =>
          cases hturn
          have hlength := ProtoChain.length_unpackRecurcive hunpack
          have hchain' : chain ≠ [] := by
            rintro rfl
            rw [List.length_nil, hcons, List.length_cons] at hlength
            omega
          obtain ⟨first, others, rfl⟩ := List.exists_cons_of_ne_nil hchain'
          rw [hsame] at ih
          obtain ⟨events, done, hloop, hcount⟩ := ih hinside.2
            (by simp [ProtoChain.cleanData]) (show sizeSub s.dataSize (s.msgSize mem) ≤ rounds by
              rw [sizeSub_of_le hfit]
              omega)
          simp only [sizeSub_of_le hfit] at hloop
          refine ⟨messageEvents msgRaw updater first ++ events, done, ?_, ?_⟩
          · rw [hcons] at hunpack ⊢
            rw [messageLoop, hask, if_neg (by omega), hunpack]
            simp only [if_neg (Nat.not_lt.mpr hfit), List.head?_cons, Option.map_some,
              Option.getD_some, List.drop_drop, hloop]
          · rw [JobEvent.callbacks_append, List.length_append, hcount, List.length_cons,
              Nat.add_comm]
            cases updater <;> rfl
      · cases hturn

/-- A plug-in whose messages begin with a byte that declares their size. -/
def sizePrefixed : IProtocolInf Unit :=
  { IProtocolInf.base () with
    name := "sizePrefixed"
    getMsgSize := fun _ mem _ => (mem.head?.map UInt8.toNat).getD 0
    unpack := fun _ payload _ _ => .ok (true, (), payload) }

/-- Its object is always like a new one. -/
theorem sizePrefixed_chain {s : LoopState Unit}
    (hreached : Reached mem (begin [Protocol.create sizePrefixed] n) s) :
    s.chain = [Protocol.create sizePrefixed] := by
  induction hreached with
  | start => rfl
  | @next mid s' _ _ _ hturn ih =>
      have hsome := (turn_eq_some hturn).1
      have hunpack := @ProtoChain.unpackRecurcive_single _ (Protocol.create sizePrefixed)
        (Protocol.create sizePrefixed) (mem.drop mid.offset) (mid.msgSize mem)
        (Nat.pos_of_ne_zero hsome) rfl
      rw [← ih] at hunpack
      rw [turn_of_unpacks hsome hunpack] at hturn
      cases hturn
      rw [ih]
      rfl

/-- A chain of the plug-in unpacks whatever it is given. -/
theorem sizePrefixed_unpacks (mem : Bytes) (n : Nat) :
    Unpacks mem (begin [Protocol.create sizePrefixed] n) := by
  intro s hreached hsome
  rw [sizePrefixed_chain hreached]
  exact ⟨_, ProtoChain.unpackRecurcive_single (Nat.pos_of_ne_zero hsome) rfl⟩

/-- Two messages of two bytes fill a buffer of four. -/
theorem twoMessages_inside :
    SlicesInside [2, 7, 2, 8, 0] 4 (begin [Protocol.create sizePrefixed] 4) := by
  refine (slicesInside_iff _ _ _ (sizePrefixed_unpacks _ _)).mpr ?_
  have hask : ∀ s, Reached [2, 7, 2, 8, 0] (begin [Protocol.create sizePrefixed] 4) s →
      s.msgSize [2, 7, 2, 8, 0] = if s.dataSize = 0 then 0
        else ((List.drop s.offset [2, 7, 2, 8, 0]).head?.map UInt8.toNat).getD 0 := by
    intro s hreached
    exact msgSize_cons (sizePrefixed_chain hreached)
  have hplaces : ∀ s, Reached [2, 7, 2, 8, 0] (begin [Protocol.create sizePrefixed] 4) s →
      s.offset = 0 ∧ s.dataSize = 4 ∨ s.offset = 2 ∧ s.dataSize = 2 ∨
        s.offset = 4 ∧ s.dataSize = 0 := by
    intro s hreached
    induction hreached with
    | start => exact .inl ⟨rfl, rfl⟩
    | next hreached _ hturn ih =>
        obtain ⟨hsome, hoffset, hsize⟩ := turn_eq_some hturn
        rw [hask _ hreached] at hsome hoffset hsize
        obtain ⟨ho, hd⟩ | ⟨ho, hd⟩ | ⟨ho, hd⟩ := ih
        · rw [ho, hd] at hoffset hsize
          exact .inr (.inl ⟨hoffset, hsize⟩)
        · rw [ho, hd] at hoffset hsize
          exact .inr (.inr ⟨hoffset, hsize⟩)
        · exact absurd (if_pos hd) hsome
  intro s hreached
  rw [hask s hreached]
  obtain ⟨ho, hd⟩ | ⟨ho, hd⟩ | ⟨ho, hd⟩ := hplaces s hreached
  · rw [ho, hd]
    decide
  · rw [ho, hd]
    decide
  · rw [ho, hd]
    decide

/-- A message of two bytes of which one has arrived. -/
theorem halfMessage_outside :
    ¬∀ (elements : List (Protocol Unit)) (mem : Bytes) (n : Nat), 1 ≤ n →
      Unpacks mem (begin elements n) → SlicesInside mem n (begin elements n) := by
  intro hall
  obtain ⟨slices, hslices, -, hinside⟩ := hall [Protocol.create sizePrefixed] [2, 0] 1
    (by decide) (sizePrefixed_unpacks _ _)
  cases hslices with
  | done hend => cases hend
  | turn _ _ =>
      have hslice := (hinside _ List.mem_cons_self).2
      revert hslice
      decide

end LoopState

end CommonCommunicator
