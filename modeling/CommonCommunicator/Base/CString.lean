import CommonCommunicator.Base.Outcome
import Mathlib.Data.List.TakeWhile
import Mathlib.Data.UInt

/-!
# C strings

The functions of the C library on strings that the code relies on. A C string
is what stands before the first NUL of a field; a field without one is read
beyond its end. Lengths are those of the text, without the NUL.
-/

namespace CommonCommunicator

open Lib

namespace CString

/-- What stands before the first NUL of a field. -/
def text (field : Bytes) : Bytes := field.takeWhile (· != 0)

/-- The C string of a field. -/
def read (field : Bytes) : Outcome Bytes := do
  definedIf (0 ∈ field)
  return text field

/-- `strrchr(s, c) + 1`: what stands behind the last `c`, if there is one. -/
def behindLast (c : UInt8) : (s : Bytes) → Option Bytes
  | [] => none
  | b :: rest =>
      match behindLast c rest with
      | some behind => some behind
      | none => if b = c then some rest else none

/-- `strtok_r(s, d, &rest)`: what is left in the buffer, and where `rest` points. Delimiters in
front of the token stay in the buffer. -/
def strtok (d : UInt8) (s : Bytes) : Bytes × Bytes :=
  let fromToken := s.dropWhile (· == d)
  (s.takeWhile (· == d) ++ fromToken.takeWhile (· != d), (fromToken.dropWhile (· != d)).tail)

/-- `isspace`. -/
def isSpace (b : UInt8) : Bool := b == 0x20 || (0x09 ≤ b && b ≤ 0x0D)

/-- `isdigit`. -/
def isDigit (b : UInt8) : Bool := 0x30 ≤ b && b ≤ 0x39

/-- The number that the leading digits of a text stand for. -/
def digitsValue (s : Bytes) : Nat :=
  (s.takeWhile isDigit).foldl (fun sofar b => 10 * sofar + (b.toNat - 0x30)) 0

/-- `strtol(s, NULL, 10)`, which stays within 64 bits. -/
def strtol (s : Bytes) : Int :=
  match s.dropWhile isSpace with
  | 0x2D :: rest => max (-2 ^ 63) (-(digitsValue rest : Int))
  | 0x2B :: rest => min (2 ^ 63 - 1) (digitsValue rest : Int)
  | rest => min (2 ^ 63 - 1) (digitsValue rest : Int)

/-- `atoi`: the lower 32 bits of `strtol`. -/
def atoi (s : Bytes) : Int := (strtol s).bmod (2 ^ 32)

/-- The format `%u`. -/
def printUnsigned (n : Nat) : Bytes := (Nat.toDigits 10 n).map fun c => UInt8.ofNat c.toNat

/-- `snprintf(field, size, ..)` of the text `s`. -/
def snprintf (field : Bytes) (size : Nat) (s : Bytes) : Bytes :=
  overwrite field 0 (s.take (size - 1) ++ [0])

theorem read_eq_ok {field s : Bytes} : read field = .ok s ↔ 0 ∈ field ∧ text field = s := by
  simp [read, bind_eq_ok]

theorem text_of_notMem {s : Bytes} (h : 0 ∉ s) : text s = s := by
  apply List.takeWhile_eq_self_iff.mpr
  intro b hb
  simpa using ne_of_mem_of_not_mem hb h

/-- A text without NUL ends at the NUL behind it. -/
theorem text_append {s rest : Bytes} (h : 0 ∉ s) : text (s ++ 0 :: rest) = s := by
  have hpos : ∀ b ∈ s, (b != 0) = true := by
    intro b hb
    simpa using ne_of_mem_of_not_mem hb h
  simp [text, List.takeWhile_append_of_pos hpos]

theorem notMem_text (field : Bytes) : 0 ∉ text field := by
  intro hmem
  have hne := List.mem_takeWhile_imp hmem
  exact absurd hne (by decide)

theorem text_length_le (field : Bytes) : (text field).length ≤ field.length :=
  (List.takeWhile_sublist _).length_le

theorem length_snprintf {field s : Bytes} {size : Nat} (hsize : 0 < size)
    (hfits : size ≤ field.length) : (snprintf field size s).length = field.length := by
  apply length_overwrite
  rw [List.length_append, List.length_take, List.length_singleton]
  omega

/-- A text without NUL is printed up to the size of the field, and can be read again. -/
theorem read_snprintf {field s : Bytes} {size : Nat} (h : 0 ∉ s) :
    read (snprintf field size s) = .ok (s.take (size - 1)) := by
  have hnot : 0 ∉ s.take (size - 1) := fun hmem => h (List.mem_of_mem_take hmem)
  have hfield : snprintf field size s = s.take (size - 1) ++ 0 ::
      field.drop (s.take (size - 1) ++ [0]).length := by simp [snprintf, overwrite]
  rw [hfield, read, definedIf_pos (by simp), text_append hnot]
  rfl

theorem behindLast_eq_none_iff {c : UInt8} {s : Bytes} : behindLast c s = none ↔ c ∉ s := by
  induction s with
  | nil => simp [behindLast]
  | cons b rest ih =>
      rw [behindLast, List.mem_cons, not_or, ← ih]
      cases behindLast c rest with
      | some behind => simp
      | none =>
          by_cases hb : b = c
          · simp [hb]
          · simp [hb, Ne.symm hb]

/-- A `c` with no other behind it is the last one. -/
theorem behindLast_append {c : UInt8} (s : Bytes) {behind : Bytes} (h : c ∉ behind) :
    behindLast c (s ++ c :: behind) = some behind := by
  induction s with
  | nil => simp [behindLast, behindLast_eq_none_iff.mpr h]
  | cons b s ih => rw [List.cons_append, behindLast, ih]

theorem behindLast_eq_some {c : UInt8} {s behind : Bytes} (h : behindLast c s = some behind) :
    ∃ before, s = before ++ c :: behind ∧ c ∉ behind := by
  induction s with
  | nil => cases h
  | cons b rest ih =>
      rw [behindLast] at h
      cases hrest : behindLast c rest with
      | some behind' =>
          rw [hrest] at h
          obtain rfl := Option.some.inj h
          obtain ⟨before, hsplit, hnot⟩ := ih hrest
          exact ⟨b :: before, by rw [hsplit, List.cons_append], hnot⟩
      | none =>
          rw [hrest] at h
          by_cases hb : b = c
          · obtain rfl : rest = behind := by simpa [hb] using h
            exact ⟨[], by rw [hb, List.nil_append], behindLast_eq_none_iff.mp hrest⟩
          · simp [hb] at h

/-- Nothing stands behind a `c` that ends the text. -/
theorem behindLast_eq_nil_iff {c : UInt8} {s : Bytes} :
    behindLast c s = some [] ↔ s.getLast? = some c := by
  constructor
  · intro h
    obtain ⟨before, rfl, -⟩ := behindLast_eq_some h
    simp
  · intro h
    obtain ⟨before, rfl⟩ := List.getLast?_eq_some_iff.mp h
    exact behindLast_append before List.not_mem_nil

/-- The token ends at the next delimiter, and the rest stands behind it. -/
theorem strtok_append {d : UInt8} {s : Bytes} (rest : Bytes) (htoken : s.dropWhile (· == d) ≠ [])
    (hnot : d ∉ s.dropWhile (· == d)) : strtok d (s ++ d :: rest) = (s, rest) := by
  have hempty : (s.dropWhile (· == d)).isEmpty = false := by simpa using htoken
  have hlead : (s ++ d :: rest).takeWhile (· == d) = s.takeWhile (· == d) := by
    rw [List.takeWhile_append, if_neg]
    intro hall
    apply htoken
    have hparts := congrArg List.length (s.takeWhile_append_dropWhile (p := (· == d)))
    rw [List.length_append] at hparts
    apply List.eq_nil_of_length_eq_zero
    omega
  have htail : (s ++ d :: rest).dropWhile (· == d) = s.dropWhile (· == d) ++ d :: rest := by
    rw [List.dropWhile_append, hempty, if_neg Bool.false_ne_true]
  have hpos : ∀ b ∈ s.dropWhile (· == d), (b != d) = true := by
    intro b hb
    simpa using ne_of_mem_of_not_mem hb hnot
  rw [strtok, hlead, htail, List.takeWhile_append_of_pos hpos, List.dropWhile_append_of_pos hpos]
  simp

/-- A text of delimiters runs on into the token behind it. -/
theorem strtok_append_of_all {d : UInt8} {s : Bytes} {token : Bytes} (hall : ∀ b ∈ s, b = d)
    (hnot : d ∉ token) : strtok d (s ++ token) = (s ++ token, []) := by
  have hlead : ∀ b ∈ s, (b == d) = true := fun b hb => by simpa using hall b hb
  have htoken : ∀ b ∈ token, (b != d) = true := by
    intro b hb
    simpa using ne_of_mem_of_not_mem hb hnot
  have hfront : token.takeWhile (· == d) = [] := by
    cases token with
    | nil => rfl
    | cons b token => simpa using htoken b (List.mem_cons_self ..)
  have hwhole : token.dropWhile (· == d) = token := by
    have hparts := token.takeWhile_append_dropWhile (p := (· == d))
    rwa [hfront, List.nil_append] at hparts
  rw [strtok, List.takeWhile_append_of_pos hlead, List.dropWhile_append_of_pos hlead, hfront,
    hwhole, List.takeWhile_eq_self_iff.mpr htoken, List.dropWhile_eq_nil_iff.mpr htoken]
  simp

theorem strtok_prefix (d : UInt8) (s : Bytes) : (strtok d s).1 <+: s := by
  refine ⟨(s.dropWhile (· == d)).dropWhile (· != d), ?_⟩
  rw [strtok, List.append_assoc, List.takeWhile_append_dropWhile, List.takeWhile_append_dropWhile]

/-- A delimiter behind the beginning of the token cuts the text. -/
theorem strtok_length_lt {d : UInt8} {s : Bytes} (rest : Bytes)
    (h : d ∈ s.dropWhile (· == d)) : (strtok d (s ++ rest)).1.length < s.length := by
  have hne : s.dropWhile (· == d) ≠ [] := List.ne_nil_of_mem h
  have hempty : (s.dropWhile (· == d)).isEmpty = false := by simpa using hne
  have hparts := congrArg List.length (s.takeWhile_append_dropWhile (p := (· == d)))
  have hpos := List.length_pos_of_ne_nil hne
  rw [List.length_append] at hparts
  have hlead : (s ++ rest).takeWhile (· == d) = s.takeWhile (· == d) := by
    rw [List.takeWhile_append, if_neg (by omega)]
  have htail : (s ++ rest).dropWhile (· == d) = s.dropWhile (· == d) ++ rest := by
    rw [List.dropWhile_append, hempty, if_neg Bool.false_ne_true]
  obtain ⟨before, behind, hsplit, hnot⟩ := List.eq_append_cons_of_mem h
  have hpos : ∀ b ∈ before, (b != d) = true := by
    intro b hb
    simpa using ne_of_mem_of_not_mem hb hnot
  have htoken : (s.dropWhile (· == d) ++ rest).takeWhile (· != d) = before := by
    rw [hsplit, List.append_assoc, List.takeWhile_append_of_pos hpos]
    simp
  rw [strtok, hlead, htail, htoken, List.length_append]
  rw [hsplit, List.length_append, List.length_cons] at hparts
  omega

theorem toNat_of_mem_toDigits {n : Nat} {c : Char} (h : c ∈ Nat.toDigits 10 n) :
    48 ≤ c.toNat ∧ c.toNat ≤ 57 := by
  have hdigit := Nat.isDigit_of_mem_toDigits (by decide) (by decide) h
  simpa [Char.isDigit, UInt32.le_iff_toNat_le] using hdigit

theorem isDigit_of_mem_printUnsigned {n : Nat} {b : UInt8} (h : b ∈ printUnsigned n) :
    isDigit b = true := by
  obtain ⟨c, hc, rfl⟩ := List.mem_map.mp h
  obtain ⟨hlow, hhigh⟩ := toNat_of_mem_toDigits hc
  simp only [isDigit, UInt8.le_iff_toNat_le, UInt8.toNat_ofNat', Bool.and_eq_true,
    decide_eq_true_eq]
  rw [Nat.mod_eq_of_lt (by omega)]
  exact ⟨hlow, hhigh⟩

/-- A printed number has none of the characters that are no digits. -/
theorem notMem_printUnsigned {b : UInt8} (n : Nat) (h : isDigit b = false) :
    b ∉ printUnsigned n := by
  intro hmem
  rw [isDigit_of_mem_printUnsigned hmem] at h
  cases h

theorem printUnsigned_ne_nil (n : Nat) : printUnsigned n ≠ [] := by
  simp [printUnsigned, Nat.toDigits_ne_nil]

/-- Bytes and characters make the same number of their digits. -/
theorem foldl_digits {cs : List Char} (sofar : Nat) (h : ∀ c ∈ cs, c.toNat < 256) :
    (cs.map fun c => UInt8.ofNat c.toNat).foldl (fun sofar b => 10 * sofar + (b.toNat - 0x30))
      sofar = Nat.ofDigitChars 10 cs sofar := by
  induction cs generalizing sofar with
  | nil => rfl
  | cons c cs ih =>
      have hc : (UInt8.ofNat c.toNat).toNat = c.toNat := by
        rw [UInt8.toNat_ofNat', Nat.mod_eq_of_lt (h c (List.mem_cons_self ..))]
      rw [List.map_cons, List.foldl_cons, Nat.ofDigitChars_cons, hc]
      exact ih _ fun c' hc' => h c' (List.mem_cons_of_mem c hc')

/-- The value of a printed number is the number. -/
theorem digitsValue_printUnsigned (n : Nat) : digitsValue (printUnsigned n) = n := by
  have hall : (printUnsigned n).takeWhile isDigit = printUnsigned n :=
    List.takeWhile_eq_self_iff.mpr fun b hb => isDigit_of_mem_printUnsigned hb
  have hsmall : ∀ c ∈ Nat.toDigits 10 n, c.toNat < 256 := by
    intro c hc
    have hdigit := toNat_of_mem_toDigits hc
    omega
  rw [digitsValue, hall, printUnsigned, foldl_digits 0 hsmall, Nat.ofDigitChars_ten_toDigits]

/-- A printed number starts with a digit: there is no white space and no sign. -/
theorem strtol_printUnsigned (n : Nat) :
    strtol (printUnsigned n) = min (2 ^ 63 - 1) (n : Int) := by
  have hvalue := digitsValue_printUnsigned n
  have hdigits := fun b => isDigit_of_mem_printUnsigned (n := n) (b := b)
  cases hprinted : printUnsigned n with
  | nil => exact absurd hprinted (printUnsigned_ne_nil n)
  | cons b rest =>
      rw [hprinted] at hvalue hdigits
      have hdigit : isDigit b = true := hdigits b (List.mem_cons_self ..)
      have hspace : isSpace b = false := by
        simp only [isDigit, isSpace, UInt8.le_iff_toNat_le, Bool.and_eq_true, decide_eq_true_eq,
          Bool.or_eq_false_iff, Bool.and_eq_false_iff, decide_eq_false_iff_not, beq_eq_false_iff_ne,
          ne_eq, ← UInt8.toNat_inj] at hdigit ⊢
        simp at hdigit ⊢
        omega
      rw [strtol, List.dropWhile_cons_of_neg (by simp [hspace])]
      split
      · next hsign =>
          obtain ⟨rfl, -⟩ := List.cons.inj hsign
          exact absurd hdigit (by decide)
      · next hsign =>
          obtain ⟨rfl, -⟩ := List.cons.inj hsign
          exact absurd hdigit (by decide)
      · rw [hvalue]

theorem atoi_nil : atoi [] = 0 := by decide

theorem length_printUnsigned_le_iff {n k : Nat} (hk : 0 < k) :
    (printUnsigned n).length ≤ k ↔ n < 10 ^ k := by
  rw [printUnsigned, List.length_map]
  exact Nat.length_toDigits_le_iff (by decide) hk

theorem length_printUnsigned_le {n k : Nat} (hk : 0 < k) (h : n < 10 ^ k) :
    (printUnsigned n).length ≤ k := (length_printUnsigned_le_iff hk).mpr h

theorem atoi_printUnsigned {n : Nat} (h : n < 2 ^ 31) : atoi (printUnsigned n) = n := by
  rw [atoi, strtol_printUnsigned, min_eq_right (by omega), Int.bmod_eq_of_le]
  all_goals omega

/-- Reading a printed number keeps its lower bits, up to 32 of them. -/
theorem atoi_printUnsigned_emod {n k : Nat} (h : n < 2 ^ 63) (hk : k ∣ 2 ^ 32) :
    atoi (printUnsigned n) % k = ((n % k : Nat) : Int) := by
  have hdvd : (k : Int) ∣ ((2 ^ 32 : Nat) : Int) := Int.natCast_dvd_natCast.mpr hk
  rw [atoi, strtol_printUnsigned, min_eq_right (by omega), ← Int.emod_emod_of_dvd _ hdvd,
    Int.bmod_emod, Int.emod_emod_of_dvd _ hdvd, Int.natCast_emod]

theorem uint32_atoi_printUnsigned {n : Nat} (h : n < 2 ^ 63) :
    UInt32.ofInt (atoi (printUnsigned n)) = UInt32.ofNat n := by
  have hmod := @atoi_printUnsigned_emod n (2 ^ 32) h (by decide)
  apply UInt32.toNat_inj.mp
  rw [UInt32.ofInt, UInt32.toNat_ofNat', UInt32.toNat_ofNat']
  omega

theorem uint8_atoi_printUnsigned {n : Nat} (h : n < 2 ^ 63) :
    UInt8.ofInt (atoi (printUnsigned n)) = UInt8.ofNat n := by
  have hmod := @atoi_printUnsigned_emod n (2 ^ 8) h (by decide)
  apply UInt8.toNat_inj.mp
  rw [UInt8.ofInt, UInt8.toNat_ofNat', UInt8.toNat_ofNat']
  omega

theorem printUnsigned_inj {n k : Nat} : printUnsigned n = printUnsigned k ↔ n = k := by
  constructor
  · intro h
    rw [← digitsValue_printUnsigned n, h, digitsValue_printUnsigned]
  · rintro rfl
    rfl

/-- A printed number has no NUL. -/
theorem text_printUnsigned (n : Nat) : text (printUnsigned n) = printUnsigned n :=
  text_of_notMem (notMem_printUnsigned n (by decide))

end CString

end CommonCommunicator
