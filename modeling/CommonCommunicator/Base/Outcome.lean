import CommonCommunicator.Lib.ByteBuffer
import Mathlib.Algebra.Group.Nat.Defs

/-!
# Outcomes of the C++ code

A C++ call returns, throws, aborts on a failed assertion (no build defines
`NDEBUG`), or leaves the defined behaviour by touching memory that is not
there. Every modelled function returns an `Outcome`, so that these ends stay
apart.
-/

namespace CommonCommunicator

/-- The exception classes that the code throws or tells apart. `exception` is what is left of
an object after `throw e` copied it as a `std::exception`. -/
inductive StdException
  | lengthError
  | outOfRange
  | invalidArgument
  | rangeError
  | runtimeError
  | logicError
  | overflowError
  | exception
  deriving DecidableEq, Repr

/-- How a call can fail to return. -/
inductive Fault
  | assertion
  | undefined
  | thrown (e : StdException)
  deriving DecidableEq, Repr

/-- The result of a call, or the fault that ended it. -/
abbrev Outcome (α : Type) := Except Fault α

variable {α β : Type}

/-- `assert(c)`. -/
def assertThat (c : Prop) [Decidable c] : Outcome Unit :=
  if c then .ok () else .error .assertion

/-- Behaviour is defined only under `c`: a pointer is valid, a range lies inside its object. -/
def definedIf (c : Prop) [Decidable c] : Outcome Unit :=
  if c then .ok () else .error .undefined

/-- `throw e`. -/
def throwThat (e : StdException) : Outcome α := .error (.thrown e)

/-- `try { x } catch( const std::exception &e ) { handler }`; aborts are not caught. -/
def catching (x : Outcome α) (handler : StdException → Outcome α) : Outcome α :=
  match x with
  | .error (.thrown e) => handler e
  | .error f => .error f
  | .ok a => .ok a

@[simp] theorem ok_bind (a : α) (f : α → Outcome β) : (Except.ok a >>= f) = f a := rfl

@[simp] theorem error_bind (e : Fault) (f : α → Outcome β) :
    ((Except.error e : Outcome α) >>= f) = .error e := rfl

@[simp] theorem pure_eq_ok (a : α) : (pure a : Outcome α) = .ok a := rfl

/-- Two calls return related results, or end in the same fault. -/
inductive OutcomeRel (R : α → β → Prop) : Outcome α → Outcome β → Prop
  | ok {a : α} {b : β} (related : R a b) : OutcomeRel R (.ok a) (.ok b)
  | error (f : Fault) : OutcomeRel R (.error f) (.error f)

/-- A call is related to itself if its results are. -/
theorem OutcomeRel.refl {R : α → α → Prop} {x : Outcome α} (h : ∀ a, x = .ok a → R a a) :
    OutcomeRel R x x := by
  cases x with
  | error f => exact .error f
  | ok a => exact .ok (h a rfl)

/-- Related results of two calls are passed on. -/
theorem OutcomeRel.map {R : α → β → Prop} {γ δ : Type} {S : γ → δ → Prop} {x : Outcome α}
    {y : Outcome β} {f : α → γ} {g : β → δ} (h : OutcomeRel R x y)
    (hmap : ∀ a b, R a b → S (f a) (g b)) : OutcomeRel S (x.map f) (y.map g) := by
  cases h with
  | ok related => exact .ok (hmap _ _ related)
  | error f => exact .error f

/-- A sequence of two calls returns when both do. -/
theorem bind_eq_ok {x : Outcome α} {f : α → Outcome β} {b : β} :
    (x >>= f) = .ok b ↔ ∃ a, x = .ok a ∧ f a = .ok b := by
  cases x with
  | error e => simp
  | ok a => simp

/-- What is left of a call that returns a pair, or another part of a result. -/
theorem map_eq_ok {x : Outcome α} {f : α → β} {b : β} :
    x.map f = .ok b ↔ ∃ a, x = .ok a ∧ f a = b := by
  cases x with
  | error e => simp [Except.map]
  | ok a => simp [Except.map]

/-- What every turn of a loop keeps, the loop keeps. -/
theorem foldlM_keeps {σ : Type} {f : σ → α → Outcome σ} {P : σ → Prop}
    (hstep : ∀ s a s', P s → f s a = .ok s' → P s') {as : List α} {s s' : σ} (hs : P s)
    (hrun : as.foldlM f s = .ok s') : P s' := by
  induction as generalizing s with
  | nil =>
      cases hrun
      exact hs
  | cons a as ih =>
      rw [List.foldlM_cons] at hrun
      obtain ⟨mid, hmid, hrest⟩ := bind_eq_ok.mp hrun
      exact ih (hstep s a mid hs hmid) hrest

@[simp] theorem assertThat_eq_ok {c : Prop} [Decidable c] {u : Unit} :
    assertThat c = .ok u ↔ c := by
  by_cases h : c <;> simp [assertThat, h]

@[simp] theorem assertThat_pos {c : Prop} [Decidable c] (h : c) : assertThat c = .ok () := by
  simp [h]

@[simp] theorem definedIf_eq_ok {c : Prop} [Decidable c] {u : Unit} :
    definedIf c = .ok u ↔ c := by
  by_cases h : c <;> simp [definedIf, h]

@[simp] theorem definedIf_pos {c : Prop} [Decidable c] (h : c) : definedIf c = .ok () := by
  simp [h]

@[simp] theorem catching_ok (a : α) (handler : StdException → Outcome α) :
    catching (.ok a) handler = .ok a := rfl

/-- `a - b` on `size_t`: the difference wraps when `b` is larger. -/
def sizeSub (a b : Nat) : Nat := if b ≤ a then a - b else 2 ^ 64 + a - b

@[simp] theorem sizeSub_of_le {a b : Nat} (h : b ≤ a) : sizeSub a b = a - b := by
  simp [sizeSub, h]

/-- Read `len` bytes at offset `off` of a memory block. -/
def readBytes (mem : Bytes) (off len : Nat) : Outcome Bytes := do
  definedIf (off + len ≤ mem.length)
  return Lib.field mem off len

theorem readBytes_of_le {mem : Bytes} {off len : Nat} (h : off + len ≤ mem.length) :
    readBytes mem off len = .ok (Lib.field mem off len) := by
  simp [readBytes, h]

theorem readBytes_eq_ok {mem b : Bytes} {off len : Nat} :
    readBytes mem off len = .ok b ↔ off + len ≤ mem.length ∧ Lib.field mem off len = b := by
  simp [readBytes, bind_eq_ok]

/-- Write bytes at offset `off` of a memory block. -/
def writeBytes (mem : Bytes) (off : Nat) (src : Bytes) : Outcome Bytes := do
  definedIf (off + src.length ≤ mem.length)
  return Lib.overwrite mem off src

theorem writeBytes_of_le {mem src : Bytes} {off : Nat} (h : off + src.length ≤ mem.length) :
    writeBytes mem off src = .ok (Lib.overwrite mem off src) := by
  simp [writeBytes, h]

theorem writeBytes_eq_ok {mem mem' src : Bytes} {off : Nat} :
    writeBytes mem off src = .ok mem' ↔
      off + src.length ≤ mem.length ∧ Lib.overwrite mem off src = mem' := by
  simp [writeBytes, bind_eq_ok]

end CommonCommunicator
