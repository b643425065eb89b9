import CommonCommunicator.Alias.AliasJson

/-!
# Reading a parsed JSON document

A `CMjson` wraps the members of a rapidjson object, and reading a sub-document
makes another one from `GetObject()`. Its constructor makes a value of the
object, which moves the members there: the place they are read from is an empty
object afterwards. A text is only copied.
-/

namespace CommonCommunicator

/-- A rapidjson value, as far as `CMjson` tells the types apart. -/
inductive JsonValue
  | string (data : Bytes)
  | object (members : List (Bytes × JsonValue))
  | array (elements : List JsonValue)
  | other

/-- The object of a `CMjson`: names and values in the order of the document. -/
abbrev JsonMembers := List (Bytes × JsonValue)

/-- What `get_second`, `get_member`, `get_second_array` and `get_array_member` are asked for: a
`std::string` or a `CMjson`, or a list of them. -/
inductive ReadType
  | string
  | object
  | strings
  | objects
  deriving DecidableEq, Repr

/-- What a read returns. -/
inductive JsonAnswer
  | flag (there : Bool)
  | name (first : Option Bytes)
  | text (data : Bytes)
  | document (members : JsonMembers)
  | texts (list : List Bytes)
  | documents (list : List JsonMembers)

namespace JsonValue

/-- `get_second<std::string>`, and `get<std::string>` of an element. -/
def getSecond : (value : JsonValue) → Outcome Bytes
  | .string data => .ok (CString.text data)
  | _ => throwThat .exception

/-- `get_second<std::shared_ptr<CMjson>>`: the members of the new `CMjson`, and what is left of the
value. `GetObject` asserts that the value is an object. -/
def getSecondObject : (value : JsonValue) → Outcome JsonMembers × JsonValue
  | .object members => (.ok members, .object [])
  | value => (.error .assertion, value)

/-- `get_second_array<std::string>`. -/
def getSecondArray : (value : JsonValue) → Outcome (List Bytes)
  | .array elements => elements.mapM getSecond
  | _ => throwThat .exception

/-- The loop of `get_second_array<CMjson>`, with the elements that it leaves. One that is no object
throws, when those before it are empty already. -/
def takeElements : (elements : List JsonValue) → Outcome (List JsonMembers) × List JsonValue
  | [] => (.ok [], [])
  | .object members :: elements =>
      let (taken, left) := takeElements elements
      (taken.map (members :: ·), .object [] :: left)
  | elements => (throwThat .exception, elements)

/-- `get_second_array<CMjson>`, with what is left of the value. -/
def getSecondObjectArray : (value : JsonValue) → Outcome (List JsonMembers) × JsonValue
  | .array elements =>
      let (taken, left) := takeElements elements
      (taken, .array left)
  | value => (throwThat .exception, value)

/-- The read of a value, and what is left of it. -/
def read (value : JsonValue) : (type : ReadType) → Outcome JsonAnswer × JsonValue
  | .string => (value.getSecond.map .text, value)
  | .object =>
      let (made, left) := value.getSecondObject
      (made.map .document, left)
  | .strings => (value.getSecondArray.map .texts, value)
  | .objects =>
      let (made, left) := value.getSecondObjectArray
      (made.map .documents, left)

end JsonValue

/-- A member of a `CMjson`: by its name in `get_member` and `get_array_member`, by an iterator in
`get_second` and `get_second_array`. -/
inductive MemberName
  | key (key : Bytes)
  | itor (i : Nat)

/-- A read on a `CMjson`: `has_member`, a turn of an iteration with its `get_first`, or the value
of a member. -/
inductive JsonRead
  | hasMember (key : Bytes)
  | iterate (i : Nat)
  | value (name : MemberName) (type : ReadType)

namespace JsonMembers

/-- The member that a read is about: `validation_check` and `FindMember`, or an iterator, which
`MemberEnd` must not be. -/
def member (members : JsonMembers) : (name : MemberName) → Outcome Nat
  | .key key => do
      assertThat (key ≠ [])
      match members.findIdx? fun member => member.1 = CString.text key with
      | some i => return i
      | none => throwThat .exception
  | .itor i => do
      definedIf (i < members.length)
      return i

/-- A read on a `CMjson`, and the members that it leaves. -/
def read (members : JsonMembers) : (question : JsonRead) → Outcome JsonAnswer × JsonMembers
  | .hasMember key =>
      (.ok (.flag (members.any fun member => member.1 = CString.text key)), members)
  | .iterate i =>
      if i = members.length then (.ok (.name none), members)
      else match members[i]? with
        | some (first, _) => (.ok (.name (some (CString.text first))), members)
        | none => (.error .undefined, members)
  | .value name type =>
      match members.member name with
      | .error fault => (.error fault, members)
      | .ok i =>
          match members[i]? with
          | some (first, value) =>
              ((value.read type).1, members.set i (first, (value.read type).2))
          | none => (.error .undefined, members)

end JsonMembers

/-- The `CMjson` objects that an answer makes. -/
def JsonAnswer.made : (answer : Outcome JsonAnswer) → List JsonMembers
  | .ok (.document members) => [members]
  | .ok (.documents list) => list
  | _ => []

/-- An abort or undefined behaviour ends the program, an exception does not. -/
def JsonAnswer.ends : (answer : Outcome JsonAnswer) → Bool
  | .error (.thrown _) => false
  | .error _ => true
  | .ok _ => false

/-- The `CMjson` objects that were made so far; the parsed document comes first. -/
structure JsonObjects where
  objects : List JsonMembers

namespace JsonObjects

/-- After `parse`. -/
def parsed (document : JsonMembers) : JsonObjects := { objects := [document] }

/-- A read on one of the objects. -/
def read (s : JsonObjects) (question : Nat × JsonRead) : Outcome JsonAnswer × JsonObjects :=
  match s.objects[question.1]? with
  | some members =>
      let (answer, left) := members.read question.2
      (answer, { objects := s.objects.set question.1 left ++ JsonAnswer.made answer })
  | none => (.error .undefined, s)

end JsonObjects

end CommonCommunicator
