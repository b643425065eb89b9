import CommonCommunicator.Json.MovingReads
import CommonCommunicator.Lib.AnsweredRun

/-!
# Reading a sub-document twice

A parsed text never changes, and what a read of it returns depends on the text
only. The reads of `CMjson` return the same as long as no sub-document is read
twice from the same place: the second read finds an empty object there.
-/

namespace CommonCommunicator

open Lib

namespace JsonValue

/-- `IsObject`. -/
def isObject : (value : JsonValue) → Bool
  | .object _ => true
  | _ => false

/-- An object with members. -/
def hasMembers : (value : JsonValue) → Bool
  | .object (_ :: _) => true
  | _ => false

/-- The members of an element of a list of sub-documents. -/
def element : (value : JsonValue) → Outcome JsonMembers
  | .object members => .ok members
  | _ => throwThat .exception

/-- What the text has at a value, read as this type. -/
def content (value : JsonValue) : (type : ReadType) → Outcome JsonAnswer
  | .string => value.getSecond.map .text
  | .object =>
      match value with
      | .object members => .ok (.document members)
      | _ => .error .assertion
  | .strings => value.getSecondArray.map .texts
  | .objects =>
      match value with
      | .array elements => (elements.mapM element).map .documents
      | _ => throwThat .exception

/-- The read of a value moves something out of it. -/
def takenBy : (value : JsonValue) → (type : ReadType) → Bool
  | .object _, .object => true
  | .array _, .objects => true
  | _, _ => false

/-- The leading objects of an array without their members. -/
def emptyElements : (elements : List JsonValue) → List JsonValue
  | .object _ :: elements => .object [] :: emptyElements elements
  | elements => elements

/-- The value after something was moved out of it. -/
def emptied : (value : JsonValue) → JsonValue
  | .object _ => .object []
  | .array elements => .array (emptyElements elements)
  | value => value

/-- What was moved out is missed when it is asked for again: an object had members, or a list
consists of objects and one of them had members. -/
def loses : (value : JsonValue) → Bool
  | .array elements => elements.all isObject && elements.any hasMembers
  | value => value.hasMembers

theorem takeElements_eq (elements : List JsonValue) :
    takeElements elements = (elements.mapM element, emptyElements elements) := by
  induction elements with
  | nil => rfl
  | cons value elements ih =>
      cases value with
      | object members =>
          rw [takeElements, ih, List.mapM_cons]
          cases elements.mapM element with
          | error fault => rfl
          | ok list => rfl
      | string data => rfl
      | array inner => rfl
      | other => rfl

/-- A read returns what the value has, and empties it if it moves something. -/
theorem read_eq (value : JsonValue) (type : ReadType) :
    value.read type =
      (value.content type, if value.takenBy type then value.emptied else value) := by
  cases value with
  | array elements =>
      cases type with
      | objects =>
          rw [read, getSecondObjectArray, takeElements_eq]
          rfl
      | string => rfl
      | object => rfl
      | strings => rfl
  | string data => cases type <;> rfl
  | object members => cases type <;> rfl
  | other => cases type <;> rfl

theorem emptyElements_emptyElements (elements : List JsonValue) :
    emptyElements (emptyElements elements) = emptyElements elements := by
  induction elements with
  | nil => rfl
  | cons value elements ih =>
      cases value with
      | object members => rw [emptyElements, emptyElements, ih]
      | string data => rfl
      | array inner => rfl
      | other => rfl

@[simp] theorem emptied_emptied (value : JsonValue) : value.emptied.emptied = value.emptied := by
  cases value with
  | array elements => exact congrArg array (emptyElements_emptyElements elements)
  | string data => rfl
  | object members => rfl
  | other => rfl

@[simp] theorem takenBy_emptied (value : JsonValue) (type : ReadType) :
    value.emptied.takenBy type = value.takenBy type := by
  cases value <;> cases type <;> rfl

/-- A read that moves nothing does not notice what was moved: texts end at the first object. -/
theorem content_emptied_of_not_taken {value : JsonValue} {type : ReadType}
    (h : value.takenBy type = false) : value.emptied.content type = value.content type := by
  cases value with
  | array elements =>
      cases type with
      | objects => cases h
      | string => rfl
      | object => rfl
      | strings =>
          cases elements with
          | nil => rfl
          | cons first rest => cases first <;> rfl
  | object members => cases type <;> first | rfl | cases h
  | string data => rfl
  | other => rfl

/-- The members of an object. -/
def membersOf : (value : JsonValue) → JsonMembers
  | .object members => members
  | _ => []

theorem mapM_element (elements : List JsonValue) :
    elements.mapM element =
      if elements.all isObject then .ok (elements.map membersOf) else throwThat .exception := by
  induction elements with
  | nil => rfl
  | cons value elements ih =>
      rw [List.mapM_cons, ih]
      cases value with
      | object members =>
          by_cases hall : elements.all isObject = true
          · simp [hall, element, isObject, membersOf]
          · simp [hall, element, isObject, throwThat]
      | string data => rfl
      | array inner => rfl
      | other => rfl

theorem all_isObject_emptyElements (elements : List JsonValue) :
    (emptyElements elements).all isObject = elements.all isObject := by
  induction elements with
  | nil => rfl
  | cons value elements ih =>
      cases value with
      | object members => rw [emptyElements, List.all_cons, List.all_cons, ih]; rfl
      | string data => rfl
      | array inner => rfl
      | other => rfl

/-- Objects without their members are the same objects exactly if they had none. -/
theorem map_membersOf_emptyElements {elements : List JsonValue} (h : elements.all isObject = true) :
    (emptyElements elements).map membersOf = elements.map membersOf ↔
      elements.any hasMembers = false := by
  induction elements with
  | nil => exact iff_of_true rfl rfl
  | cons value elements ih =>
      cases value with
      | object members =>
          have hrest := ih h
          cases members with
          | nil => simp [emptyElements, membersOf, hasMembers, hrest]
          | cons member rest => simp [emptyElements, membersOf, hasMembers]
      | string data => cases h
      | array inner => cases h
      | other => cases h

/-- A second read that moves something returns the same exactly if nothing is missed. -/
theorem content_emptied_iff {value : JsonValue} {type : ReadType}
    (h : value.takenBy type = true) :
    value.emptied.content type = value.content type ↔ value.loses = false := by
  cases value with
  | object members =>
      cases type with
      | object => cases members <;> simp [emptied, content, loses, hasMembers]
      | string => cases h
      | strings => cases h
      | objects => cases h
  | array elements =>
      cases type with
      | objects =>
          rw [emptied, content, content, mapM_element, mapM_element, all_isObject_emptyElements,
            loses]
          by_cases hall : elements.all isObject = true
          · rw [if_pos hall, if_pos hall, hall, Bool.true_and,
              ← map_membersOf_emptyElements hall]
            constructor
            · intro hsame
              exact JsonAnswer.documents.inj (Except.ok.inj hsame)
            · intro hsame
              rw [hsame]
          · rw [if_neg hall, if_neg hall]
            exact iff_of_true rfl (by simp [hall])
      | string => cases h
      | object => cases h
      | strings => cases h
  | string data => cases h
  | other => cases h

/-- The documents that a read makes are the value, or the elements of its list. -/
theorem mem_made {value : JsonValue} {type : ReadType} {inner : JsonMembers}
    (h : inner ∈ JsonAnswer.made (value.content type)) :
    value = .object inner ∨ ∃ elements, value = .array elements ∧ .object inner ∈ elements := by
  cases type with
  | string => cases value <;> cases h
  | strings =>
      rw [content] at h
      cases hlist : value.getSecondArray with
      | error fault =>
          rw [hlist] at h
          cases h
      | ok list =>
          rw [hlist] at h
          cases h
  | object =>
      cases value with
      | object members =>
          rw [List.mem_singleton.mp h]
          exact .inl rfl
      | string data => cases h
      | array elements => cases h
      | other => cases h
  | objects =>
      cases value with
      | array elements =>
          rw [content, mapM_element] at h
          split at h
          · next hall =>
              obtain ⟨value, hmem, rfl⟩ := List.mem_map.mp h
              have hobject := List.all_eq_true.mp hall value hmem
              cases value with
              | object members => exact .inr ⟨elements, rfl, hmem⟩
              | string data => cases hobject
              | array inner => cases hobject
              | other => cases hobject
          · cases h
      | string data => cases h
      | object members => cases h
      | other => cases h

end JsonValue

namespace JsonMembers

/-- The member that a read names, with its value. -/
def valueAt (members : JsonMembers) (name : MemberName) : Outcome (Nat × JsonValue) := do
  let i ← members.member name
  match members[i]? with
  | some (_, value) => return (i, value)
  | none => .error .undefined

/-- What the text of a document has at the place of a read. -/
def answer (members : JsonMembers) : (question : JsonRead) → Outcome JsonAnswer
  | .hasMember key => .ok (.flag (members.any fun member => member.1 = CString.text key))
  | .iterate i =>
      if i = members.length then .ok (.name none)
      else match members[i]? with
        | some (first, _) => .ok (.name (some (CString.text first)))
        | none => .error .undefined
  | .value name type => do
      let (_, value) ← members.valueAt name
      value.content type

/-- The member that a read moves something out of. -/
def taken (members : JsonMembers) : (question : JsonRead) → Option (Nat × JsonValue)
  | .hasMember _ => none
  | .iterate _ => none
  | .value name type =>
      match members.valueAt name with
      | .ok (i, value) => if value.takenBy type then some (i, value) else none
      | .error _ => none

/-- The members after something was moved out of these. -/
def mark (members : JsonMembers) (moved : Nat → Bool) : JsonMembers :=
  members.mapIdx fun i member => (member.1, if moved i then member.2.emptied else member.2)

variable {members : JsonMembers} {moved : Nat → Bool}

theorem getElem?_mark (members : JsonMembers) (moved : Nat → Bool) (i : Nat) :
    (members.mark moved)[i]? =
      members[i]?.map fun member => (member.1, if moved i then member.2.emptied else member.2) :=
  List.getElem?_mapIdx

@[simp] theorem length_mark (members : JsonMembers) (moved : Nat → Bool) :
    (members.mark moved).length = members.length := List.length_mapIdx

theorem mark_none (members : JsonMembers) : members.mark (fun _ => false) = members := by
  ext1 i
  rw [getElem?_mark]
  simp

/-- Moving out of the members twice. -/
theorem mark_mark (members : JsonMembers) (moved moved' : Nat → Bool) :
    (members.mark moved).mark moved' = members.mark fun i => moved i || moved' i := by
  ext1 i
  simp only [getElem?_mark, Option.map_map]
  congr 1
  ext1 member
  cases moved i <;> cases moved' i <;> simp

theorem map_fst_mark (members : JsonMembers) (moved : Nat → Bool) :
    (members.mark moved).map Prod.fst = members.map Prod.fst := by
  ext1 i
  simp [getElem?_mark, Function.comp_def]

/-- What was moved out of the members, they keep their names and places. -/
theorem member_mark (members : JsonMembers) (moved : Nat → Bool) (name : MemberName) :
    (members.mark moved).member name = members.member name := by
  cases name with
  | itor i => rw [member, member, length_mark]
  | key key =>
      have hfind : ∀ list : JsonMembers,
          list.findIdx? (fun member => member.1 = CString.text key) =
            (list.map Prod.fst).findIdx? fun name => name = CString.text key := by
        intro list
        rw [List.findIdx?_map]
        rfl
      rw [member, member, hfind, hfind, map_fst_mark]

theorem valueAt_mark (members : JsonMembers) (moved : Nat → Bool) (name : MemberName) :
    (members.mark moved).valueAt name = (members.valueAt name).map fun found =>
      (found.1, if moved found.1 then found.2.emptied else found.2) := by
  rw [valueAt, valueAt, member_mark]
  cases members.member name with
  | error fault => rfl
  | ok i =>
      rw [ok_bind, ok_bind, getElem?_mark]
      cases members[i]? <;> rfl

/-- A value is replaced by what is left of it. -/
theorem set_left {i : Nat} {first : Bytes} {value : JsonValue}
    (h : members[i]? = some (first, value)) (moves : Bool) :
    members.set i (first, if moves then value.emptied else value) =
      members.mark fun j => moves && j == i := by
  ext1 j
  rw [getElem?_mark, List.getElem?_set]
  by_cases hij : i = j
  · subst hij
    have hlt : i < members.length := (List.getElem?_eq_some_iff.mp h).1
    rw [if_pos rfl, if_pos hlt, h]
    simp
  · have hji : (j == i) = false := beq_false_of_ne (Ne.symm hij)
    simp [hij, hji]

/-- A read returns what the members have, and empties the one that it moves something out of. -/
theorem read_eq (members : JsonMembers) (question : JsonRead) :
    members.read question = (members.answer question,
      members.mark fun i => (members.taken question).any fun place => i == place.1) := by
  cases question with
  | hasMember key =>
      rw [taken]
      exact congrArg _ (mark_none members).symm
  | iterate i =>
      rw [read, answer, taken]
      simp only [Option.any_none, mark_none]
      split
      · rfl
      · cases members[i]? <;> rfl
  | value name type =>
      rw [read, answer, taken, valueAt]
      cases members.member name with
      | error fault => exact congrArg _ (mark_none members).symm
      | ok i =>
          cases hvalue : members[i]? with
          | none => simp [hvalue, mark_none]
          | some member =>
              obtain ⟨first, value⟩ := member
              simp only [ok_bind, hvalue, pure_eq_ok, JsonValue.read_eq, set_left hvalue]
              cases value.takenBy type <;> simp

/-- The members whose text was moved out are taken from the same places. -/
theorem taken_mark (members : JsonMembers) (moved : Nat → Bool) (question : JsonRead) :
    (members.mark moved).taken question = (members.taken question).map fun place =>
      (place.1, if moved place.1 then place.2.emptied else place.2) := by
  cases question with
  | hasMember key => rfl
  | iterate i => rfl
  | value name type =>
      rw [taken, taken, valueAt_mark]
      cases members.valueAt name with
      | error fault => rfl
      | ok found =>
          obtain ⟨i, value⟩ := found
          cases hmoved : moved i <;> cases htaken : value.takenBy type <;>
            simp [Except.map, hmoved, htaken]

/-- A read of members that something was moved out of returns what the text has, exactly if
nothing is missed. -/
theorem answer_mark_iff (members : JsonMembers) (moved : Nat → Bool) (question : JsonRead) :
    (members.mark moved).answer question = members.answer question ↔
      ∀ place, members.taken question = some place → moved place.1 = true →
        place.2.loses = false := by
  cases question with
  | hasMember key =>
      refine iff_of_true ?_ (fun place hplace => by cases hplace)
      have hany : ∀ list : JsonMembers,
          (list.any fun member => member.1 = CString.text key) =
            (list.map Prod.fst).any fun name => name = CString.text key := by
        intro list
        rw [List.any_map]
        rfl
      rw [answer, answer, hany, hany, map_fst_mark]
  | iterate i =>
      refine iff_of_true ?_ (fun place hplace => by cases hplace)
      rw [answer, answer, length_mark, getElem?_mark]
      cases members[i]? <;> rfl
  | value name type =>
      rw [answer, answer, taken, valueAt_mark]
      cases members.valueAt name with
      | error fault => exact iff_of_true rfl (fun place hplace => by cases hplace)
      | ok found =>
          obtain ⟨i, value⟩ := found
          have hplaces : (∀ place, (if value.takenBy type = true then some (i, value) else none) =
              some place → moved place.1 = true → place.2.loses = false) ↔
                (value.takenBy type = true → moved i = true → value.loses = false) := by
            cases value.takenBy type <;> simp
          refine Iff.trans ?_ hplaces.symm
          change (if moved i then value.emptied else value).content type = value.content type ↔ _
          cases moved i with
          | false => simp
          | true =>
              rw [if_pos rfl]
              cases htaken : value.takenBy type with
              | false => simp [JsonValue.content_emptied_of_not_taken htaken]
              | true => simp [JsonValue.content_emptied_iff htaken]

/-- A document inside a text: the whole, or a member or an element of a list of one that is. -/
inductive Within (text : JsonMembers) : JsonMembers → Prop
  | whole : Within text text
  | member {members inner : JsonMembers} {first : Bytes} (outer : Within text members)
      (mem : (first, JsonValue.object inner) ∈ members) : Within text inner
  | element {members inner : JsonMembers} {first : Bytes} {elements : List JsonValue}
      (outer : Within text members) (mem : (first, JsonValue.array elements) ∈ members)
      (elem : JsonValue.object inner ∈ elements) : Within text inner

/-- A named value is one of the members. -/
theorem mem_of_valueAt {members : JsonMembers} {name : MemberName} {i : Nat} {value : JsonValue}
    (h : members.valueAt name = .ok (i, value)) : ∃ first, (first, value) ∈ members := by
  obtain ⟨j, -, h⟩ := bind_eq_ok.mp h
  cases hvalue : members[j]? with
  | none =>
      rw [hvalue] at h
      cases h
  | some member =>
      rw [hvalue] at h
      cases h
      exact ⟨member.1, List.mem_of_getElem? hvalue⟩

/-- The documents that a read of a document of the text makes are in the text. -/
theorem Within.made {text members : JsonMembers} (h : Within text members)
    (question : JsonRead) {inner : JsonMembers}
    (hinner : inner ∈ JsonAnswer.made (members.answer question)) : Within text inner := by
  cases question with
  | hasMember key => cases hinner
  | iterate i =>
      rw [answer] at hinner
      split at hinner
      · cases hinner
      · cases hvalue : members[i]? with
        | none =>
            rw [hvalue] at hinner
            cases hinner
        | some member =>
            rw [hvalue] at hinner
            cases hinner
  | value name type =>
      rw [answer] at hinner
      cases hfound : members.valueAt name with
      | error fault =>
          rw [hfound] at hinner
          cases hinner
      | ok found =>
          obtain ⟨i, value⟩ := found
          rw [hfound, ok_bind] at hinner
          obtain ⟨first, hmem⟩ := mem_of_valueAt hfound
          obtain rfl | ⟨elements, rfl, helem⟩ := JsonValue.mem_made hinner
          · exact h.member hmem
          · exact h.element hmem helem

end JsonMembers

/-- A parsed text as its reads see it: the documents that were read from it, and the members that
something was moved out of, which the text does not notice. -/
structure ParsedText where
  documents : List JsonMembers
  taken : List (Nat × Nat)

namespace ParsedText

/-- After `parse`. -/
def parsed (document : JsonMembers) : ParsedText := { documents := [document], taken := [] }

/-- A read returns what the text has at its place. -/
def read (t : ParsedText) (question : Nat × JsonRead) : Outcome JsonAnswer × ParsedText :=
  match t.documents[question.1]? with
  | some members =>
      (members.answer question.2,
        { documents := t.documents ++ JsonAnswer.made (members.answer question.2)
          taken := ((members.taken question.2).map fun place => (question.1, place.1)).toList ++
            t.taken })
  | none => (.error .undefined, t)

/-- The read moves nothing that was moved before, or nothing is missed. -/
def ReadsOnce (t : ParsedText) (question : Nat × JsonRead) : Prop :=
  ∀ members, t.documents[question.1]? = some members →
    ∀ place, members.taken question.2 = some place → (question.1, place.1) ∈ t.taken →
      place.2.loses = false

/-- The objects after something was moved out of them. -/
def current (t : ParsedText) : List JsonMembers :=
  t.documents.mapIdx fun object members => members.mark fun i => (object, i) ∈ t.taken

/-- The documents are those of the parsed text. -/
def InText (document : JsonMembers) (t : ParsedText) : Prop :=
  ∀ members ∈ t.documents, document.Within members

/-- Whatever is read, it is read from documents of the parsed text. -/
theorem inText_of_run {document : JsonMembers} {t : ParsedText}
    (run : Reachable (fun t question t' => continues read JsonAnswer.ends t question = some t')
      (parsed document) t) : InText document t := by
  have hparsed : InText document (parsed document) := by
    intro members hmem
    rw [List.mem_singleton.mp hmem]
    exact .whole
  refine run.invariant hparsed ?_
  intro t question t' hold _ hstep
  rw [continues] at hstep
  split at hstep
  · cases hstep
  · obtain rfl := Option.some.inj hstep
    rw [read]
    cases hmembers : t.documents[question.1]? with
    | none => exact hold
    | some members =>
        intro inner hmem
        rcases List.mem_append.mp hmem with hmem | hmem
        · exact hold inner hmem
        · exact (hold members (List.mem_of_getElem? hmembers)).made question.2 hmem

variable {s : JsonObjects} {t : ParsedText}

/-- The objects of a run, and the text that they were read from. -/
structure Holds (t : ParsedText) (s : JsonObjects) : Prop where
  objects : s.objects = t.current
  taken_lt : ∀ place ∈ t.taken, place.1 < t.documents.length

theorem holds_parsed (document : JsonMembers) : (parsed document).Holds (.parsed document) where
  objects := by
    simp [JsonObjects.parsed, parsed, current, JsonMembers.mark_none]
  taken_lt _ hmem := absurd hmem List.not_mem_nil

/-- The object that a read is about. -/
theorem Holds.getElem? (h : t.Holds s) (object : Nat) :
    s.objects[object]? = t.documents[object]?.map fun members =>
      members.mark fun i => (object, i) ∈ t.taken := by
  rw [h.objects, current, List.getElem?_mapIdx]

/-- A read returns what the text has exactly if nothing is missed. -/
theorem Holds.answer_iff (h : t.Holds s) (question : Nat × JsonRead) :
    (s.read question).1 = (t.read question).1 ↔ t.ReadsOnce question := by
  rw [JsonObjects.read, ParsedText.read, ReadsOnce, h.getElem?]
  cases t.documents[question.1]? with
  | none => simp
  | some members =>
      simp only [Option.map_some, JsonMembers.read_eq, JsonMembers.answer_mark_iff]
      simp

/-- What is noted as moved after a read. -/
theorem mem_taken_iff {members : JsonMembers} (question : Nat × JsonRead) (object i : Nat) :
    (object, i) ∈ ((members.taken question.2).map fun place => (question.1, place.1)).toList ++
        t.taken ↔
      (object, i) ∈ t.taken ∨ question.1 = object ∧
        ((members.taken question.2).any fun place => i == place.1) = true := by
  rw [List.mem_append, or_comm]
  cases members.taken question.2 with
  | none => simp
  | some place =>
      rw [Option.map_some, Option.toList_some, List.mem_singleton, Prod.mk.injEq, Option.any_some,
        beq_iff_eq, @eq_comm _ object]

/-- A read moves what it takes out of its object, and no other. -/
theorem Holds.set_objects (h : t.Holds s) {question : Nat × JsonRead} {members : JsonMembers}
    (hmembers : t.documents[question.1]? = some members) :
    s.objects.set question.1 ((members.mark fun i => (question.1, i) ∈ t.taken).mark fun i =>
        (members.taken question.2).any fun place => i == place.1) =
      t.documents.mapIdx fun object members' => members'.mark fun i =>
        (object, i) ∈ ((members.taken question.2).map fun place => (question.1, place.1)).toList ++
          t.taken := by
  ext1 object
  rw [List.getElem?_set, List.getElem?_mapIdx]
  simp only [mem_taken_iff]
  by_cases hobject : question.1 = object
  · subst hobject
    have hlt : question.1 < s.objects.length := by
      rw [h.objects, current, List.length_mapIdx]
      exact (List.getElem?_eq_some_iff.mp hmembers).1
    rw [if_pos rfl, if_pos hlt, hmembers, JsonMembers.mark_mark]
    simp
  · rw [if_neg hobject, h.getElem?]
    simp [hobject]

/-- As long as nothing is missed the objects stay those of the text. -/
theorem Holds.read (h : t.Holds s) {question : Nat × JsonRead} (honce : t.ReadsOnce question) :
    (t.read question).2.Holds (s.read question).2 := by
  have hanswer := (h.answer_iff question).mpr honce
  rw [JsonObjects.read, ParsedText.read] at hanswer ⊢
  rw [h.getElem?] at hanswer ⊢
  cases hmembers : t.documents[question.1]? with
  | none => exact h
  | some members =>
      rw [hmembers] at hanswer
      simp only [Option.map_some, JsonMembers.read_eq, JsonMembers.taken_mark, Option.any_map]
        at hanswer ⊢
      have hold : ∀ place ∈ ((members.taken question.2).map fun place =>
          (question.1, place.1)).toList ++ t.taken, place.1 < t.documents.length := by
        rintro ⟨object, i⟩ hmem
        rcases (mem_taken_iff question object i).mp hmem with hmem | ⟨rfl, -⟩
        · exact h.taken_lt _ hmem
        · exact (List.getElem?_eq_some_iff.mp hmembers).1
      constructor
      · dsimp only [current]
        rw [List.mapIdx_append, hanswer]
        congr 1
        · exact h.set_objects hmembers
        · ext1 k
          rw [List.getElem?_mapIdx]
          have hnew : ∀ i, (k + t.documents.length, i) ∉
              ((members.taken question.2).map fun place => (question.1, place.1)).toList ++
                t.taken := by
            intro i hmem
            have hlt := hold _ hmem
            omega
          simp [hnew, JsonMembers.mark_none]
      · intro place hmem
        have hlt := hold place hmem
        rw [List.length_append]
        omega

/-- Every read returns what the parsed text has at its place if and only if no read moves something
that was moved before and is missed. -/
theorem reads_unchanged_iff (document : JsonMembers) (questions : List (Nat × JsonRead)) :
    answers JsonObjects.read JsonAnswer.ends (.parsed document) questions =
        answers ParsedText.read JsonAnswer.ends (.parsed document) questions ↔
      Meets (continues ParsedText.read JsonAnswer.ends) ReadsOnce (.parsed document) questions := by
  apply answers_eq_iff (fun s t => t.Holds s) _ _ (holds_parsed document)
  · intro s t question h honce
    exact ⟨(h.answer_iff question).mpr honce, h.read honce⟩
  · intro s t question h honce hsame
    exact honce ((h.answer_iff question).mp hsame)

/-- The text `{"a": {"b": "c"}}`, as its members. -/
def nested : JsonMembers := [(literal "a", .object [(literal "b", .string (literal "c"))])]

/-- The sub-document is read once, and its text as often as one likes. -/
example :
    let once : List (Nat × JsonRead) :=
      [(0, .value (.key (literal "a")) .object), (1, .value (.key (literal "b")) .string),
        (1, .value (.itor 0) .string), (0, .hasMember (literal "a"))]
    answers JsonObjects.read JsonAnswer.ends (.parsed nested) once =
      answers ParsedText.read JsonAnswer.ends (.parsed nested) once := rfl

/-- `get_member` of `a`, twice, returns an empty object for the second time. -/
theorem nested_read_twice :
    let twice : List (Nat × JsonRead) :=
      [(0, .value (.key (literal "a")) .object), (0, .value (.key (literal "a")) .object)]
    answers JsonObjects.read JsonAnswer.ends (.parsed nested) twice =
        [.ok (.document [(literal "b", .string (literal "c"))]), .ok (.document [])] ∧
      answers JsonObjects.read JsonAnswer.ends (.parsed nested) twice ≠
        answers ParsedText.read JsonAnswer.ends (.parsed nested) twice := by
  intro twice
  have hmoved : answers JsonObjects.read JsonAnswer.ends (.parsed nested) twice =
      [.ok (.document [(literal "b", .string (literal "c"))]), .ok (.document [])] := rfl
  refine ⟨hmoved, ?_⟩
  rw [hmoved]
  intro hsame
  cases hsame

end ParsedText

mutual

/-- A value as the alias manager sees it, which reads no arrays. -/
def JsonValue.toJson : (value : JsonValue) → Json
  | .string data => .string data
  | .object members => .object (JsonMembers.toCMjson members)
  | .array _ => .other
  | .other => .other

/-- The members of a document as the alias manager sees them. -/
def JsonMembers.toCMjson : (members : List (Bytes × JsonValue)) → CMjson
  | [] => []
  | (first, value) :: members => (first, value.toJson) :: JsonMembers.toCMjson members

end

namespace JsonMembers

theorem toCMjson_eq_map (members : JsonMembers) :
    toCMjson members = members.map fun member => (member.1, member.2.toJson) := by
  induction members with
  | nil => rfl
  | cons member members ih => rw [toCMjson, ih, List.map_cons]

/-- `FindMember` of the alias manager finds the member that the text has. -/
theorem findMember_toCMjson (members : JsonMembers) {key : Bytes} (hkey : key ≠ [])
    (hnul : 0 ∉ key) :
    (toCMjson members).findMember key =
      (members.valueAt (.key key)).map fun found => found.2.toJson := by
  rw [CMjson.findMember, toCMjson_eq_map, List.find?_map, List.find?_eq_bind_findIdx?_getElem?,
    valueAt, member, assertThat_pos hkey, ok_bind, CString.text_of_notMem hnul]
  have hcomp : ((fun member : Bytes × Json => decide (member.1 = key)) ∘
      fun member : Bytes × JsonValue => (member.1, member.2.toJson)) =
        fun member => decide (member.1 = key) := rfl
  rw [hcomp]
  cases hfind : members.findIdx? fun member => decide (member.1 = key) with
  | none => rfl
  | some i =>
      obtain ⟨hlt, -⟩ := List.findIdx?_eq_some_iff_getElem.mp hfind
      simp [hlt, Except.map]

/-- A string that the alias manager reads is the one of the text. -/
theorem getMember_toCMjson (members : JsonMembers) {key : Bytes} (hkey : key ≠ [])
    (hnul : 0 ∉ key) :
    members.answer (.value (.key key) .string) =
      ((toCMjson members).getMember key).map .text := by
  rw [CMjson.getMember, findMember_toCMjson members hkey hnul, answer]
  cases members.valueAt (.key key) with
  | error fault => rfl
  | ok found =>
      obtain ⟨i, value⟩ := found
      cases value <;> rfl

/-- A document that the alias manager reads is the one of the text. -/
theorem getMemberObject_toCMjson (members : JsonMembers) {key : Bytes} (hkey : key ≠ [])
    (hnul : 0 ∉ key) :
    OutcomeRel (fun answer obj => ∃ inner, answer = .document inner ∧ obj = toCMjson inner)
      (members.answer (.value (.key key) .object)) ((toCMjson members).getMemberObject key) := by
  rw [CMjson.getMemberObject, findMember_toCMjson members hkey hnul, answer]
  cases members.valueAt (.key key) with
  | error fault => exact .error fault
  | ok found =>
      obtain ⟨i, value⟩ := found
      cases value with
      | object inner => exact .ok ⟨inner, rfl, rfl⟩
      | string data => exact .error .assertion
      | array elements => exact .error .assertion
      | other => exact .error .assertion

end JsonMembers

end CommonCommunicator
