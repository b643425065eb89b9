import CommonCommunicator.Base.Outcome
import Mathlib.Algebra.BigOperators.Group.Finset.Basic
import Mathlib.Algebra.Order.BigOperators.Group.Finset

/-!
# The write loop of CPVD_UDP

`write_msg` calls `sendto` until nothing of the message is left. The loop keeps
the result in a `size_t`, and the assertion behind the call lets every result
but zero pass: the error result, which is the largest `size_t`, makes the rest
of the message one byte longer and moves the buffer one byte back. The loop does
what it is meant to do exactly as long as no call fails.
-/

namespace CommonCommunicator

/-- A signed result in a `size_t`. -/
def sizeOfInt (r : Int) : Nat := (r % 2 ^ 64).toNat

theorem sizeOfInt_of_pos {r : Int} (h : 0 ≤ r) (hlt : r < 2 ^ 64) : sizeOfInt r = r.toNat := by
  rw [sizeOfInt, Int.emod_eq_of_lt h hlt]

/-- The variables of the loop: how far `buffer` is behind the start of the message, and
`msg_size`. -/
structure WriteLoop where
  buffer : Nat
  msgSize : Nat
  deriving DecidableEq, Repr

namespace WriteLoop

/-- The loop is entered with the whole message. -/
def start (n : Nat) : WriteLoop := { buffer := 0, msgSize := n }

/-- One turn of the loop with the result of `sendto`. -/
def next (loop : WriteLoop) (result : Int) : Outcome WriteLoop := do
  let writtenSize := sizeOfInt result
  assertThat (0 < writtenSize)
  return {
    buffer := (loop.buffer + writtenSize) % 2 ^ 64
    msgSize := sizeSub loop.msgSize writtenSize }

/-- The loop after `k` turns, or where it ended before; the calls of `sendto` have these results. -/
def after (n : Nat) (results : Nat → Int) : Nat → Outcome WriteLoop
  | 0 => return start n
  | k + 1 => do
      let loop ← after n results k
      if loop.msgSize = 0 then return loop else loop.next (results k)

/-- What `write_msg` returns if its loop ends within `k` turns. -/
def writeMsg (n : Nat) (results : Nat → Int) (k : Nat) : Outcome (Option Bool) :=
  catching (do
      let loop ← after n results k
      return if loop.msgSize = 0 then some true else none)
    fun _ => return some false

/-- The loop calls `sendto` a `k`-th time, with this range of the message. -/
def Calls (n : Nat) (results : Nat → Int) (k : Nat) (loop : WriteLoop) : Prop :=
  after n results k = .ok loop ∧ 0 < loop.msgSize

/-- `sendto` fails or accepts between one byte and what it was asked to send. -/
def Sendto (n : Nat) (results : Nat → Int) : Prop :=
  ∀ k loop, Calls n results k loop →
    results k = -1 ∨ 1 ≤ results k ∧ results k ≤ loop.msgSize

/-- The ranges that the first `k` calls have accepted. -/
def accepted (n : Nat) (results : Nat → Int) : Nat → List (Nat × Nat)
  | 0 => []
  | k + 1 =>
      match after n results k with
      | .ok loop =>
          if 0 < loop.msgSize ∧ 0 < results k then
            accepted n results k ++ [(loop.buffer, (results k).toNat)]
          else accepted n results k
      | .error _ => accepted n results k

/-- Where ranges end that begin at zero and follow each other without a gap. -/
def reach (ranges : List (Nat × Nat)) : Option Nat :=
  ranges.foldlM (fun position range =>
    if range.1 = position then some (position + range.2) else none) 0

/-- What the loop is meant to do: it hands out ranges of the message only, stops with false behind
an error, and returns true when the accepted ranges make up the message. -/
structure StaysInside (n : Nat) (results : Nat → Int) : Prop where
  inside : ∀ k loop, Calls n results k loop → loop.buffer + loop.msgSize ≤ n
  stops : ∀ k loop, Calls n results k loop → results k = -1 →
    ∃ m, writeMsg n results m = .ok (some false)
  covers : ∀ k, writeMsg n results k = .ok (some true) ↔ reach (accepted n results k) = some n

theorem reach_snoc (ranges : List (Nat × Nat)) (range : Nat × Nat) :
    reach (ranges ++ [range]) = (reach ranges).bind fun position =>
      if range.1 = position then some (position + range.2) else none := by
  rw [reach, List.foldlM_append]
  cases h : reach ranges with
  | none =>
      rw [reach] at h
      rw [h]
      rfl
  | some position =>
      rw [reach] at h
      rw [h]
      simp

variable {n k : Nat} {results : Nat → Int} {loop : WriteLoop}

/-- A call that accepts bytes of a range inside the message moves the range on. -/
theorem next_accepted {r : Int} (hr : 1 ≤ r) (hle : r ≤ loop.msgSize)
    (hinside : loop.buffer + loop.msgSize < 2 ^ 64) :
    loop.next r = .ok {
      buffer := loop.buffer + r.toNat
      msgSize := loop.msgSize - r.toNat } := by
  have hwritten : sizeOfInt r = r.toNat := sizeOfInt_of_pos (by omega) (by omega)
  rw [next, hwritten, assertThat_pos (by omega), ok_bind, sizeSub_of_le (by omega),
    Nat.mod_eq_of_lt (by omega)]
  rfl

/-- Nothing in the loop throws. -/
theorem after_not_thrown (e : StdException) : after n results k ≠ .error (.thrown e) := by
  induction k with
  | zero => simp [after]
  | succ k ih =>
      rw [after]
      cases hloop : after n results k with
      | error fault =>
          rw [hloop] at ih
          simpa using ih
      | ok loop =>
          rw [ok_bind]
          by_cases hsize : loop.msgSize = 0
          · simp [hsize]
          · rw [if_neg hsize, next, assertThat]
            by_cases hwritten : 0 < sizeOfInt (results k)
            · simp [hwritten]
            · simp [hwritten]

/-- The handler of `write_msg` has nothing to do. -/
theorem writeMsg_eq : writeMsg n results k =
    (after n results k).map fun loop => if loop.msgSize = 0 then some true else none := by
  rw [writeMsg]
  cases hloop : after n results k with
  | error fault =>
      cases fault with
      | thrown e => exact absurd hloop (after_not_thrown e)
      | assertion => rfl
      | undefined => rfl
  | ok loop => rfl

/-- `write_msg` never returns false. -/
theorem writeMsg_ne_false : writeMsg n results k ≠ .ok (some false) := by
  intro h
  rw [writeMsg_eq] at h
  obtain ⟨loop, -, hfalse⟩ := map_eq_ok.mp h
  split at hfalse
  · cases hfalse
  · cases hfalse

theorem writeMsg_eq_true :
    writeMsg n results k = .ok (some true) ↔ ∃ loop, after n results k = .ok loop ∧
      loop.msgSize = 0 := by
  rw [writeMsg_eq, map_eq_ok]
  simp

/-- The bytes that the first `k` results have accepted. -/
def sent (results : Nat → Int) (k : Nat) : Int := ∑ i ∈ Finset.range k, results i

/-- Without a failed call the loop stands behind what was accepted, and the rest is left. -/
theorem after_of_no_error (hn : n < 2 ^ 64) (hsendto : Sendto n results)
    (hok : ∀ i < k, results i ≠ -1) (hleft : ∀ i < k, sent results i < n) :
    ∃ loop, after n results k = .ok loop ∧ loop.buffer + loop.msgSize = n ∧
      (loop.buffer : Int) = sent results k ∧ k ≤ loop.buffer ∧
      reach (accepted n results k) = some loop.buffer := by
  induction k with
  | zero => exact ⟨start n, rfl, by simp [start], by simp [start, sent], by simp, rfl⟩
  | succ k ih =>
      obtain ⟨loop, hloop, htotal, hsent, hk, hreach⟩ :=
        ih (fun i hi => hok i (by omega)) (fun i hi => hleft i (by omega))
      have hopen : 0 < loop.msgSize := by
        have := hleft k (by omega)
        omega
      obtain herror | ⟨hpos, hle⟩ := hsendto k loop ⟨hloop, hopen⟩
      · exact absurd herror (hok k (by omega))
      · have hnext := next_accepted hpos hle (by omega)
        refine ⟨{ buffer := loop.buffer + (results k).toNat
                  msgSize := loop.msgSize - (results k).toNat }, ?_, ?_, ?_, ?_, ?_⟩
        · rw [after, hloop, ok_bind, if_neg (by omega), hnext]
        · dsimp only
          omega
        · rw [sent, Finset.sum_range_succ, ← sent, ← hsent]
          dsimp only
          omega
        · dsimp only
          omega
        · have haccepted : accepted n results (k + 1) =
              accepted n results k ++ [(loop.buffer, (results k).toNat)] := by
            simp only [accepted, hloop]
            rw [if_pos ⟨hopen, by omega⟩]
          rw [haccepted, reach_snoc, hreach]
          simp

/-- Until the message is complete, the accepted bytes are fewer. -/
theorem sent_lt {m : Nat} (hn : n < 2 ^ 64) (hsendto : Sendto n results)
    (hok : ∀ i < m, results i ≠ -1) (hne : ∀ i < m, sent results i ≠ n) :
    ∀ i < m, sent results i < n := by
  intro i
  induction i using Nat.strong_induction_on with
  | _ i ih =>
      intro hi
      obtain ⟨loop, -, htotal, hsent, -, -⟩ := after_of_no_error hn hsendto
        (fun j hj => hok j (by omega)) (fun j hj => ih j hj (by omega))
      have := hne i hi
      omega

/-- The loop stays where it has ended. -/
theorem after_ended {m : Nat} (hloop : after n results m = .ok loop) (hsize : loop.msgSize = 0)
    (hk : m ≤ k) :
    after n results k = .ok loop ∧ accepted n results k = accepted n results m := by
  induction k, hk using Nat.le_induction with
  | base => exact ⟨hloop, rfl⟩
  | succ k hk ih =>
      obtain ⟨hafter, haccepted⟩ := ih
      constructor
      · rw [after, hafter, ok_bind, if_pos hsize]
        rfl
      · simp only [accepted, hafter]
        rw [if_neg (by omega), haccepted]

/-- A message that is accepted before any call fails is handed out range by range. -/
theorem staysInside_of_complete {m : Nat} (hn : n < 2 ^ 64) (hsendto : Sendto n results)
    (hok : ∀ i < m, results i ≠ -1) (hleft : ∀ i < m, sent results i < n)
    (hcomplete : sent results m = n) : StaysInside n results := by
  obtain ⟨last, hlast, htotal, hsent, -, hreach⟩ := after_of_no_error hn hsendto hok hleft
  have hended : last.msgSize = 0 := by omega
  have hbefore : ∀ k < m, ∃ loop, after n results k = .ok loop ∧ 0 < loop.msgSize ∧
      loop.buffer + loop.msgSize = n ∧ reach (accepted n results k) = some loop.buffer := by
    intro k hk
    obtain ⟨loop, hloop, htotal', hsent', -, hreach'⟩ := after_of_no_error hn hsendto
      (fun i hi => hok i (by omega)) (fun i hi => hleft i (Nat.lt_trans hi hk))
    have := hleft k hk
    exact ⟨loop, hloop, by omega, htotal', hreach'⟩
  have hcalls : ∀ k loop, Calls n results k loop → k < m := by
    rintro k loop ⟨hloop, hopen⟩
    by_contra hk
    rw [(after_ended hlast hended (Nat.le_of_not_lt hk)).1] at hloop
    cases hloop
    omega
  constructor
  · intro k loop hcall
    obtain ⟨loop', hloop', -, htotal', -⟩ := hbefore k (hcalls k loop hcall)
    obtain rfl : loop = loop' := Except.ok.inj (hcall.1.symm.trans hloop')
    exact Nat.le_of_eq htotal'
  · intro k loop hcall herror
    exact absurd herror (hok k (hcalls k loop hcall))
  · intro k
    rw [writeMsg_eq_true]
    by_cases hk : k < m
    · obtain ⟨loop, hloop, hopen, htotal', hreach'⟩ := hbefore k hk
      rw [hreach']
      constructor
      · rintro ⟨loop', hloop', hsize⟩
        obtain rfl : loop = loop' := Except.ok.inj (hloop.symm.trans hloop')
        omega
      · intro hend
        have := Option.some.inj hend
        omega
    · obtain ⟨hafter, haccepted⟩ := after_ended hlast hended (Nat.le_of_not_lt hk)
      rw [haccepted, hreach]
      constructor
      · intro _
        congr 1
        omega
      · intro _
        exact ⟨last, hafter, hended⟩

/-- The loop keeps to the message, and is ended by a failed call, exactly when no call fails before
the message is accepted. -/
theorem staysInside_iff {n : Nat} {results : Nat → Int} (hn : n < 2 ^ 64)
    (hsendto : Sendto n results) :
    StaysInside n results ↔ ∃ m, (∀ i < m, results i ≠ -1) ∧ sent results m = n := by
  constructor
  · intro hinside
    by_contra hnever
    have hcall : ∀ k, (∀ i < k, results i ≠ -1) ∧ ∀ i < k, sent results i < n := by
      intro k
      induction k with
      | zero => simp
      | succ k ih =>
          obtain ⟨loop, hloop, htotal, hsent, -, -⟩ := after_of_no_error hn hsendto ih.1 ih.2
          have hne : sent results k ≠ n := fun heq => hnever ⟨k, ih.1, heq⟩
          have hopen : 0 < loop.msgSize := by omega
          have hok : results k ≠ -1 := by
            intro herror
            obtain ⟨m, hm⟩ := hinside.stops k loop ⟨hloop, hopen⟩ herror
            exact absurd hm writeMsg_ne_false
          constructor
          · intro i hi
            obtain hi | rfl := Nat.lt_succ_iff_lt_or_eq.mp hi
            · exact ih.1 i hi
            · exact hok
          · intro i hi
            obtain hi | rfl := Nat.lt_succ_iff_lt_or_eq.mp hi
            · exact ih.2 i hi
            · omega
    obtain ⟨loop, -, htotal, hsent, hlength, -⟩ :=
      after_of_no_error hn hsendto (hcall n).1 (hcall n).2
    exact hnever ⟨n, (hcall n).1, by omega⟩
  · intro hcomplete
    classical
    obtain ⟨hok, hsum⟩ := Nat.find_spec hcomplete
    have hfirst : ∀ i < Nat.find hcomplete, sent results i ≠ n := by
      intro i hi heq
      exact Nat.find_min hcomplete hi ⟨fun j hj => hok j (Nat.lt_trans hj hi), heq⟩
    exact staysInside_of_complete hn hsendto hok (sent_lt hn hsendto hok hfirst) hsum

/-- Two calls that accept a message of three bytes. -/
theorem threeBytes_staysInside :
    StaysInside 3 fun k => if k = 0 then 2 else 1 := by
  have hsendto : Sendto 3 fun k => if k = 0 then 2 else 1 := by
    rintro k loop ⟨hloop, hopen⟩
    match k with
    | 0 =>
        obtain rfl : start 3 = loop := by simpa [after] using hloop
        simp [start]
    | k + 1 =>
        right
        simp only [Nat.add_eq_zero_iff, one_ne_zero, and_false, if_false]
        omega
  rw [staysInside_iff (by decide) hsendto]
  exact ⟨2, by decide, by decide⟩

/-- The first call for a message of one byte fails: the next one is asked for two bytes, the first
of them before the message. -/
theorem failedCall_not_staysInside :
    (Sendto 1 fun k => if k = 0 then -1 else 1) ∧
      ¬StaysInside 1 fun k => if k = 0 then -1 else 1 := by
  constructor
  · rintro k loop ⟨hloop, hopen⟩
    match k with
    | 0 => simp
    | k + 1 =>
        right
        simp only [Nat.add_eq_zero_iff, one_ne_zero, and_false, if_false]
        omega
  · intro hinside
    have hcall : Calls 1 (fun k => if k = 0 then -1 else 1) 1
        { buffer := 2 ^ 64 - 1, msgSize := 2 } := ⟨rfl, by decide⟩
    have hrange := hinside.inside 1 _ hcall
    dsimp only at hrange
    omega

end WriteLoop

end CommonCommunicator
