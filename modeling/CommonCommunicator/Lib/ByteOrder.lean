import CommonCommunicator.Lib.ByteBuffer
import Mathlib.Data.Nat.Digits.Defs
import Mathlib.Tactic.Ring

/-!
# Fixed-width byte orders

A natural number written into a fixed number of bytes, least or most
significant byte first, and the value of a byte string read back. The value
side is Mathlib's `Nat.ofDigits` in base 256.
-/

namespace CommonCommunicator.Lib

/-- The `w` low bytes of `n`, least significant first. -/
def littleEndian : Nat → Nat → Bytes
  | 0, _ => []
  | w + 1, n => UInt8.ofNat n :: littleEndian w (n / 256)

/-- The `w` low bytes of `n`, most significant first. -/
def bigEndian (w n : Nat) : Bytes := (littleEndian w n).reverse

/-- The number whose bytes, least significant first, are given. -/
def valueLE (b : Bytes) : Nat := Nat.ofDigits 256 (b.map UInt8.toNat)

/-- The number whose bytes, most significant first, are given. -/
def valueBE (b : Bytes) : Nat := valueLE b.reverse

@[simp] theorem length_littleEndian (w n : Nat) : (littleEndian w n).length = w := by
  induction w generalizing n with
  | zero => rfl
  | succ w ih => simp [littleEndian, ih]

@[simp] theorem length_bigEndian (w n : Nat) : (bigEndian w n).length = w := by
  simp [bigEndian]

/-- Reading back keeps the number modulo the width. -/
theorem valueLE_littleEndian (w n : Nat) : valueLE (littleEndian w n) = n % 256 ^ w := by
  induction w generalizing n with
  | zero => simp [littleEndian, valueLE, Nat.mod_one]
  | succ w ih =>
      have htail : Nat.ofDigits 256 ((littleEndian w (n / 256)).map UInt8.toNat) =
          n / 256 % 256 ^ w := ih (n / 256)
      have hhead : (UInt8.ofNat n).toNat = n % 256 := by simp
      rw [littleEndian, valueLE, List.map_cons, Nat.ofDigits_cons, htail, hhead, pow_succ',
        Nat.mod_mul]

theorem valueBE_bigEndian (w n : Nat) : valueBE (bigEndian w n) = n % 256 ^ w := by
  rw [valueBE, bigEndian, List.reverse_reverse, valueLE_littleEndian]

/-- Numbers of given widths one behind the other, each least significant byte first. -/
def layout (fields : List (Nat × Nat)) : Bytes := fields.flatMap fun f => littleEndian f.1 f.2

theorem length_layout (fields : List (Nat × Nat)) :
    (layout fields).length = (fields.map Prod.fst).sum := by
  simp [layout, List.length_flatMap]

/-- A number of a layout stands at the offset that the widths before it add up to. -/
theorem field_layout {fields : List (Nat × Nat)} {i w n : Nat} (rest : Bytes)
    (hi : fields[i]? = some (w, n)) :
    field (layout fields ++ rest) ((fields.take i).map Prod.fst).sum w = littleEndian w n := by
  obtain ⟨hlt, hget⟩ := List.getElem?_eq_some_iff.mp hi
  have hsplit : layout fields = layout (fields.take i) ++
      (littleEndian w n ++ layout (fields.drop (i + 1))) := by
    conv_lhs => rw [← List.take_append_drop i fields, List.drop_eq_getElem_cons hlt, hget]
    simp [layout]
  rw [hsplit, List.append_assoc, List.append_assoc, ← length_layout,
    field_append_right (Nat.le_refl _), Nat.sub_self, field_zero_append (by simp)]

/-- It is read back there. -/
theorem valueLE_field_layout {fields : List (Nat × Nat)} {i w n : Nat} {rest : Bytes}
    (hi : fields[i]? = some (w, n)) (hn : n < 256 ^ w) :
    valueLE (field (layout fields ++ rest) ((fields.take i).map Prod.fst).sum w) = n := by
  rw [field_layout rest hi, valueLE_littleEndian, Nat.mod_eq_of_lt hn]

end CommonCommunicator.Lib
