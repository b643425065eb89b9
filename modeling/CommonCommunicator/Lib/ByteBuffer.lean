import Mathlib.Data.List.Basic

/-!
# Byte strings as memory

Byte strings read and written at an offset. `field` is the part of a string
from an offset on, `overwrite` puts one string over a part of another.
-/

namespace CommonCommunicator

/-- Byte strings: message contents, and `std::string` values. -/
abbrev Bytes := List UInt8

namespace Lib

/-- The bytes of `b` from offset `off`, `len` of them. -/
def field (b : Bytes) (off len : Nat) : Bytes := (b.drop off).take len

theorem length_field {b : Bytes} {off len : Nat} (h : off + len ≤ b.length) :
    (field b off len).length = len := by
  simp only [field, List.length_take, List.length_drop]
  omega

/-- A field inside the first part of a concatenation does not see the second part. -/
theorem field_append_left {a b : Bytes} {off len : Nat} (h : off + len ≤ a.length) :
    field (a ++ b) off len = field a off len := by
  simp only [field, List.drop_append, List.take_append, List.length_drop]
  have hzero : len - (a.length - off) = 0 := by omega
  simp [hzero]

/-- A field behind the first part is a field of the second part. -/
theorem field_append_right {a b : Bytes} {off len : Nat} (h : a.length ≤ off) :
    field (a ++ b) off len = field b (off - a.length) len := by
  simp [field, List.drop_append, List.drop_eq_nil_of_le h]

/-- The first part of a concatenation is its leading field. -/
theorem field_zero_append {a b : Bytes} {len : Nat} (h : len = a.length) :
    field (a ++ b) 0 len = a := by
  subst h; simp [field]

/-- A field of a prefix that is long enough is a field of the whole. -/
theorem field_take {b : Bytes} {off len n : Nat} (h : off + len ≤ n) :
    field (b.take n) off len = field b off len := by
  rw [field, List.drop_take, List.take_take, field, Nat.min_eq_left (by omega)]

/-- `b` with `src` written over its bytes from offset `off` on. -/
def overwrite (b : Bytes) (off : Nat) (src : Bytes) : Bytes :=
  b.take off ++ src ++ b.drop (off + src.length)

theorem length_overwrite {b src : Bytes} {off : Nat} (h : off + src.length ≤ b.length) :
    (overwrite b off src).length = b.length := by
  simp only [overwrite, List.length_append, List.length_take, List.length_drop]
  omega

/-- Writing behind a first part leaves it alone. -/
theorem overwrite_append {a b src : Bytes} {off : Nat} (h : off = a.length) :
    overwrite (a ++ b) off src = a ++ (src ++ b.drop src.length) := by
  subst h
  rw [overwrite, List.take_left, List.drop_append]
  simp

/-- Writing at the start puts the new bytes first. -/
theorem take_overwrite_zero (b src : Bytes) :
    (overwrite b 0 src).take src.length = src := by
  simp [overwrite]

/-- Writing leaves what stands before it. -/
theorem take_overwrite {b : Bytes} {off n : Nat} (src : Bytes) (hn : n ≤ off)
    (hoff : off ≤ b.length) : (overwrite b off src).take n = b.take n := by
  have hlen : (b.take off).length = off := List.length_take_of_le hoff
  rw [overwrite, List.append_assoc, List.take_append_of_le_length (by omega), List.take_take,
    Nat.min_eq_left hn]

/-- A byte that is written is read back. -/
theorem getElem?_overwrite {b : Bytes} {off : Nat} (x : UInt8) (hoff : off ≤ b.length) :
    (overwrite b off [x])[off]? = some x := by
  have hlen : (b.take off).length = off := List.length_take_of_le hoff
  rw [overwrite, List.append_assoc, List.getElem?_append_right (by omega), hlen, Nat.sub_self]
  rfl

end Lib

end CommonCommunicator
