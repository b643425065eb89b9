import CommonCommunicator.Base.CString

/-!
# The JSON documents of the alias manager

A parsed document, and the functions of `CMjson` that read it. Names and
strings keep their bytes, which may include a NUL; the code reads them through
`GetString` as C strings, and finds a member by its whole name.
-/

namespace CommonCommunicator

/-- A parsed value. Only strings and objects are read. -/
inductive Json
  | string (data : Bytes)
  | object (members : List (Bytes × Json))
  | other

/-- `CMjson`: the members of a parsed object, in the order of the document. -/
abbrev CMjson := List (Bytes × Json)

/-- A string literal of the code. -/
def literal (s : String) : Bytes := s.toUTF8.data.toList

namespace CString

/-- `isxdigit`. -/
def isHexDigit (b : UInt8) : Bool :=
  isDigit b || (0x41 ≤ b && b ≤ 0x46) || (0x61 ≤ b && b ≤ 0x66)

/-- The value of a hexadecimal digit. -/
def hexDigitValue (b : UInt8) : Nat :=
  if isDigit b then b.toNat - 0x30 else (b.toNat ||| 0x20) - 0x61 + 10

/-- The sign in front of a number, and what stands behind it. -/
def splitSign : (s : Bytes) → Bool × Bytes
  | 0x2D :: rest => (true, rest)
  | 0x2B :: rest => (false, rest)
  | rest => (false, rest)

/-- `std::stoul(s, nullptr, 10)`. A minus sign negates within 64 bits. -/
def stoul (s : Bytes) : Outcome Nat :=
  let (minus, rest) := splitSign (s.dropWhile isSpace)
  if rest.takeWhile isDigit = [] then throwThat .invalidArgument
  else if 2 ^ 64 ≤ digitsValue rest then throwThat .outOfRange
  else .ok (if minus then (2 ^ 64 - digitsValue rest) % 2 ^ 64 else digitsValue rest)

/-- `convert >> std::hex >> result` for a `uint32_t`: zero without a digit, the largest number where
the text has a larger one. -/
def extractHex (s : Bytes) : Nat :=
  let (minus, rest) := splitSign (s.dropWhile isSpace)
  let digits := match rest with
    | 0x30 :: 0x78 :: behind => behind
    | 0x30 :: 0x58 :: behind => behind
    | _ => rest
  let value := (digits.takeWhile isHexDigit).foldl
    (fun sofar b => 16 * sofar + hexDigitValue b) 0
  if 2 ^ 32 ≤ value then 2 ^ 32 - 1
  else if minus then (2 ^ 32 - value) % 2 ^ 32 else value

end CString

namespace CMjson

/-- `get_first`. -/
def getFirst (member : Bytes × Json) : Bytes := CString.text member.1

/-- `get_second`: the C string of a string. -/
def getSecond : (value : Json) → Outcome Bytes
  | .string data => .ok (CString.text data)
  | _ => throwThat .exception

/-- `get_second<uint32_t>`. -/
def getSecondUint32 (value : Json) : Outcome Nat := do
  let number ← CString.stoul (← getSecond value)
  return number % 2 ^ 32

/-- `get_second_hex<uint32_t>`. -/
def getSecondHex (value : Json) : Outcome Nat := do
  let text ← getSecond value
  assertThat (text ≠ [])
  return CString.extractHex text

/-- `get_second<std::shared_ptr<CMjson>>`: `GetObject` asserts that the value is an object. -/
def getSecondObject : (value : Json) → Outcome CMjson
  | .object members => .ok members
  | _ => .error .assertion

/-- `validation_check` and `FindMember`: the first member of the name. -/
def findMember (obj : CMjson) (key : Bytes) : Outcome Json :=
  match obj.find? fun member => member.1 = key with
  | some member => .ok member.2
  | none => throwThat .exception

/-- `get_member`. -/
def getMember (obj : CMjson) (key : Bytes) : Outcome Bytes := do
  getSecond (← findMember obj key)

/-- `get_member<std::shared_ptr<CMjson>>`. -/
def getMemberObject (obj : CMjson) (key : Bytes) : Outcome CMjson := do
  getSecondObject (← findMember obj key)

/-- `get_member_hex<uint32_t>`. -/
def getMemberHex (obj : CMjson) (key : Bytes) : Outcome Nat := do
  getSecondHex (← findMember obj key)

end CMjson

end CommonCommunicator
