import CommonCommunicator.Json.MovingReads

/-!
# Members that are read by their names

The three ways in which a document is read by the names of its members: a text,
an object that is moved out, and a list of texts. Each of them is what the first
member of the name says, and the object that is left has an empty object there.
-/

namespace CommonCommunicator

namespace JsonMembers

/-- `validation_check` and `FindMember`: the position of the member, and the member. -/
def found (members : JsonMembers) (key : Bytes) : Outcome (Nat × Bytes × JsonValue) := do
  let i ← members.member (.key key)
  match members[i]? with
  | some member => return (i, member)
  | none => .error .undefined

/-- `get_member<std::string>`. -/
def getMember (members : JsonMembers) (key : Bytes) : Outcome Bytes := do
  let (_, _, value) ← members.found key
  value.getSecond

/-- `get_member< std::shared_ptr<CMjson> >`, and the members that it leaves. -/
def getMemberObject (members : JsonMembers) (key : Bytes) :
    Outcome (JsonMembers × JsonMembers) := do
  let (i, first, value) ← members.found key
  let made ← value.getSecondObject.1
  return (made, members.set i (first, value.getSecondObject.2))

/-- `get_array_member<std::string>`. -/
def getArrayMember (members : JsonMembers) (key : Bytes) : Outcome (List Bytes) := do
  let (_, _, value) ← members.found key
  value.getSecondArray

/-- The first member of this name has this value. -/
def Has (members : JsonMembers) (key : Bytes) (value : JsonValue) : Prop :=
  key ≠ [] ∧ ∃ first, members.find? (fun member => member.1 = CString.text key) =
    some (first, value)

/-- The first member of this name is a string that reads as this text. -/
def HasText (members : JsonMembers) (key text : Bytes) : Prop :=
  ∃ data, members.Has key (.string data) ∧ CString.text data = text

/-- The first member of this name is an array of strings that read as these texts. -/
def HasTexts (members : JsonMembers) (key : Bytes) (texts : List Bytes) : Prop :=
  ∃ elements, members.Has key (.array elements) ∧
    List.Forall₂ (fun element text => ∃ data, element = .string data ∧ CString.text data = text)
      elements texts

/-- The members with an empty object as the first one of this name. -/
def emptiedAt (key : Bytes) : (members : JsonMembers) → JsonMembers
  | [] => []
  | (first, value) :: members =>
      if first = CString.text key then (first, .object []) :: members
      else (first, value) :: emptiedAt key members

variable {members : JsonMembers} {key key' : Bytes} {value value' : JsonValue}

/-- A name has one value. -/
theorem Has.unique (h : members.Has key value) (h' : members.Has key value') : value = value' := by
  obtain ⟨-, first, hfind⟩ := h
  obtain ⟨-, first', hfind'⟩ := h'
  rw [hfind] at hfind'
  exact (Prod.mk.inj (Option.some.inj hfind')).2

/-- The position of the first member of a name: what is there, and what is left when it was
moved out. -/
theorem findIdx_cases (members : JsonMembers) (key : Bytes) :
    (∃ i first value, members.findIdx? (fun member => member.1 = CString.text key) = some i ∧
      members[i]? = some (first, value) ∧
      members.find? (fun member => member.1 = CString.text key) = some (first, value) ∧
      members.set i (first, .object []) = members.emptiedAt key) ∨
    members.findIdx? (fun member => member.1 = CString.text key) = none ∧
      members.find? (fun member => member.1 = CString.text key) = none := by
  induction members with
  | nil => exact .inr ⟨rfl, rfl⟩
  | cons member members ih =>
      obtain ⟨first, value⟩ := member
      rw [List.findIdx?_cons, List.find?_cons, emptiedAt]
      by_cases hfirst : first = CString.text key
      · rw [if_pos hfirst]
        exact .inl ⟨0, first, value, by simp [hfirst], rfl, by simp [hfirst], rfl⟩
      · rw [if_neg hfirst]
        simp only [hfirst, decide_false, Bool.false_eq_true, if_false]
        obtain ⟨i, first', value', hindex, hthere, hfind, hset⟩ | ⟨hindex, hfind⟩ := ih
        · refine .inl ⟨i + 1, first', value', ?_, hthere, hfind, ?_⟩
          · rw [hindex, Option.map_some]
          · rw [List.set_cons_succ, hset]
        · refine .inr ⟨?_, hfind⟩
          rw [hindex, Option.map_none]

/-- A search by name that returns has found what the first member of the name says. -/
theorem has_of_found {i : Nat} {first : Bytes} (h : members.found key = .ok (i, first, value)) :
    members.Has key value ∧ members.set i (first, .object []) = members.emptiedAt key := by
  obtain ⟨j, hmember, h⟩ := bind_eq_ok.mp h
  obtain ⟨⟨⟩, hkey, hmember⟩ := bind_eq_ok.mp hmember
  obtain ⟨j', first', value', hindex, hthere, hfind, hset⟩ | ⟨hindex, -⟩ :=
    findIdx_cases members key
  · rw [hindex] at hmember
    obtain rfl : j' = j := Except.ok.inj hmember
    rw [hthere] at h
    cases h
    exact ⟨⟨assertThat_eq_ok.mp hkey, first, hfind⟩, hset⟩
  · rw [hindex] at hmember
    cases hmember

/-- A member that is there is found. -/
theorem Has.found (h : members.Has key value) :
    ∃ i first, members.found key = .ok (i, first, value) := by
  obtain ⟨hkey, first, hfirst⟩ := h
  obtain ⟨i, first', value', hindex, hthere, hfind, -⟩ | ⟨-, hfind⟩ := findIdx_cases members key
  · obtain ⟨rfl, rfl⟩ := Prod.mk.inj (Option.some.inj (hfind.symm.trans hfirst))
    refine ⟨i, first', ?_⟩
    rw [JsonMembers.found, member, assertThat_pos hkey, ok_bind, hindex]
    simp only [pure_eq_ok, ok_bind, hthere]
  · rw [hfind] at hfirst
    cases hfirst

/-- A read by name is a read of what the first member of the name says. -/
theorem found_bind_eq_ok {α : Type} {f : Nat × Bytes × JsonValue → Outcome α} {a : α} :
    (members.found key >>= f) = .ok a ↔
      ∃ i first value, members.found key = .ok (i, first, value) ∧ f (i, first, value) = .ok a := by
  rw [bind_eq_ok]
  constructor
  · rintro ⟨⟨i, first, value⟩, hfound, h⟩
    exact ⟨i, first, value, hfound, h⟩
  · rintro ⟨i, first, value, hfound, h⟩
    exact ⟨_, hfound, h⟩

theorem getSecond_eq_ok {text : Bytes} :
    value.getSecond = .ok text ↔ ∃ data, value = .string data ∧ CString.text data = text := by
  cases value with
  | string data =>
      constructor
      · intro h
        exact ⟨data, rfl, Except.ok.inj h⟩
      · rintro ⟨_, ⟨⟩, rfl⟩
        rfl
  | object _ => exact iff_of_false (fun h => by cases h) (by rintro ⟨_, ⟨⟩, -⟩)
  | array _ => exact iff_of_false (fun h => by cases h) (by rintro ⟨_, ⟨⟩, -⟩)
  | other => exact iff_of_false (fun h => by cases h) (by rintro ⟨_, ⟨⟩, -⟩)

/-- `get_member` returns the text of the first member of the name. -/
theorem getMember_eq_ok {text : Bytes} :
    members.getMember key = .ok text ↔ members.HasText key text := by
  rw [getMember, found_bind_eq_ok]
  constructor
  · rintro ⟨i, first, value, hfound, h⟩
    obtain ⟨data, rfl, htext⟩ := getSecond_eq_ok.mp h
    exact ⟨data, (has_of_found hfound).1, htext⟩
  · rintro ⟨data, hhas, htext⟩
    obtain ⟨i, first, hfound⟩ := hhas.found
    exact ⟨i, first, _, hfound, getSecond_eq_ok.mpr ⟨data, rfl, htext⟩⟩

/-- `get_member` of an object returns the members of the first member of the name, and takes
them. -/
theorem getMemberObject_eq_ok {made left : JsonMembers} :
    members.getMemberObject key = .ok (made, left) ↔
      members.Has key (.object made) ∧ left = members.emptiedAt key := by
  rw [getMemberObject, found_bind_eq_ok]
  constructor
  · rintro ⟨i, first, value, hfound, h⟩
    obtain ⟨hhas, hset⟩ := has_of_found hfound
    cases value with
    | object inner =>
        cases h
        exact ⟨hhas, hset⟩
    | string _ => cases h
    | array _ => cases h
    | other => cases h
  · rintro ⟨hhas, rfl⟩
    obtain ⟨i, first, hfound⟩ := hhas.found
    refine ⟨i, first, _, hfound, ?_⟩
    rw [← (has_of_found hfound).2]
    rfl

/-- `get_array_member` returns the texts of the first member of the name. -/
theorem getArrayMember_eq_ok {texts : List Bytes} :
    members.getArrayMember key = .ok texts ↔ members.HasTexts key texts := by
  have hmap : ∀ elements : List JsonValue, elements.mapM JsonValue.getSecond = .ok texts ↔
      List.Forall₂ (fun element text => ∃ data, element = .string data ∧ CString.text data = text)
        elements texts := by
    intro elements
    induction elements generalizing texts with
    | nil =>
        constructor
        · intro h
          cases h
          exact .nil
        · rintro ⟨⟩
          rfl
    | cons element elements ih =>
        rw [List.mapM_cons]
        constructor
        · intro h
          obtain ⟨text, hfirst, h⟩ := bind_eq_ok.mp h
          obtain ⟨rest, hrest, h⟩ := bind_eq_ok.mp h
          cases h
          exact .cons (getSecond_eq_ok.mp hfirst) (ih.mp hrest)
        · rintro ⟨⟩
          next text rest hfirst hrest =>
            rw [getSecond_eq_ok.mpr hfirst, ok_bind, ih.mpr hrest]
            rfl
  rw [getArrayMember, found_bind_eq_ok]
  constructor
  · rintro ⟨i, first, value, hfound, h⟩
    cases value with
    | array elements => exact ⟨elements, (has_of_found hfound).1, (hmap elements).mp h⟩
    | string _ => cases h
    | object _ => cases h
    | other => cases h
  · rintro ⟨elements, hhas, htexts⟩
    obtain ⟨i, first, hfound⟩ := hhas.found
    exact ⟨i, first, _, hfound, (hmap elements).mpr htexts⟩

/-- What was moved out is an empty object. -/
theorem Has.emptiedAt (h : members.Has key value) :
    (members.emptiedAt key).Has key (.object []) := by
  obtain ⟨hkey, first, hfirst⟩ := h
  refine ⟨hkey, ?_⟩
  induction members with
  | nil => cases hfirst
  | cons member members ih =>
      obtain ⟨name, inner⟩ := member
      rw [JsonMembers.emptiedAt]
      by_cases hname : name = CString.text key
      · exact ⟨name, by simp [hname]⟩
      · rw [List.find?_cons_of_neg (by simpa using hname)] at hfirst
        obtain ⟨first', hthere⟩ := ih hfirst
        refine ⟨first', ?_⟩
        rw [if_neg hname, List.find?_cons_of_neg (by simpa using hname), hthere]

/-- Taking an object leaves the members of other names. -/
theorem has_emptiedAt_of_ne (h : CString.text key' ≠ CString.text key) :
    (members.emptiedAt key).Has key' value ↔ members.Has key' value := by
  suffices hfind : (members.emptiedAt key).find? (fun member => member.1 = CString.text key') =
      members.find? (fun member => member.1 = CString.text key') by rw [Has, Has, hfind]
  induction members with
  | nil => rfl
  | cons member members ih =>
      obtain ⟨name, inner⟩ := member
      rw [JsonMembers.emptiedAt]
      by_cases hname : name = CString.text key
      · have hother : name ≠ CString.text key' := fun hsame => h (hsame.symm.trans hname)
        rw [if_pos hname, List.find?_cons_of_neg (by simpa using hother),
          List.find?_cons_of_neg (by simpa using hother)]
      · rw [if_neg hname, List.find?_cons, List.find?_cons, ih]

end JsonMembers

end CommonCommunicator
