import CommonCommunicator.Alias.AliasTree

/-!
# What an alias document says

A document describes a forest of applications: a single application has
providers, a multiple one has applications, of which its properties name one as
its own. Which members of the document say so, and which texts are valid there,
is a relation between the two; the paths, the providers in document order and
the chain of own applications are read off the forest.
-/

namespace CommonCommunicator

open Lib

/-- A provider that a document describes. -/
structure PvdLeaf where
  name : Bytes
  type : ProviderType
  convertible : IAliasPVD.Convertible type
  data : PvdData

mutual

/-- An application that a document describes. -/
inductive AppTree
  | single (where_ : Bytes) (pvds : List PvdLeaf)
  | multi (selfName : Bytes) (apps : AppForest)

/-- Applications with their names, in document order. -/
inductive AppForest
  | nil
  | cons (name : Bytes) (app : AppTree) (rest : AppForest)

end

/-- The names of the applications. -/
def AppForest.names : AppForest → List Bytes
  | .nil => []
  | .cons name _ rest => name :: rest.names

/-- The applications with their names. -/
def AppForest.entries : AppForest → List (Bytes × AppTree)
  | .nil => []
  | .cons name app rest => (name, app) :: rest.entries

/-! ## Paths -/

/-- A name that can be a part of a path. -/
def IsKey (name : Bytes) : Prop := name ≠ [] ∧ IAliasPVD.slash ∉ name

/-- The names from the root, with `/` between them. -/
def joined (path : List Bytes) : Bytes := [IAliasPVD.slash].intercalate path

theorem joined_eq_nil {path : List Bytes} (hkeys : ∀ name ∈ path, IsKey name) :
    joined path = [] ↔ path = [] := by
  constructor
  · intro h
    cases path with
    | nil => rfl
    | cons name rest =>
        have hname := (hkeys name (List.mem_cons_self ..)).1
        cases rest with
        | nil => exact absurd (by simpa [joined] using h) hname
        | cons next rest =>
            rw [joined, List.intercalate_cons_cons] at h
            simp at h
  · rintro rfl
    rfl

theorem joined_snoc_of_ne_nil {path : List Bytes} (h : path ≠ []) (name : Bytes) :
    joined (path ++ [name]) = joined path ++ IAliasPVD.slash :: name := by
  induction path with
  | nil => exact absurd rfl h
  | cons first rest ih =>
      cases rest with
      | nil => simp [joined]
      | cons next rest =>
          have hrest := ih (List.cons_ne_nil next rest)
          rw [joined, joined, List.cons_append] at hrest
          rw [joined, joined, List.cons_append, List.cons_append, List.intercalate_cons_cons, hrest,
            List.intercalate_cons_cons]
          simp only [List.append_assoc, List.cons_append]

/-- A path goes on as `make_full_path` says. -/
theorem joined_snoc {path : List Bytes} (hkeys : ∀ name ∈ path, IsKey name) (name : Bytes) :
    joined (path ++ [name]) = IAliasPVD.makeFullPath (joined path) name := by
  rw [IAliasPVD.makeFullPath]
  by_cases hnil : path = []
  · subst hnil
    simp [joined]
  · rw [if_pos ((joined_eq_nil hkeys).not.mpr hnil), joined_snoc_of_ne_nil hnil]

/-- Names without `/` can be read off the path. -/
theorem joined_inj {path path' : List Bytes} (hkeys : ∀ name ∈ path, IsKey name)
    (hkeys' : ∀ name ∈ path', IsKey name) : joined path = joined path' ↔ path = path' := by
  constructor
  · intro h
    by_cases hnil : path = []
    · have hnil' : joined path' = [] := by
        rw [← h, hnil]
        rfl
      rw [hnil, (joined_eq_nil hkeys').mp hnil']
    · have hnil' : path' ≠ [] := by
        rintro rfl
        exact hnil ((joined_eq_nil hkeys).mp h)
      calc
        path = (joined path).splitOn IAliasPVD.slash :=
          (List.splitOn_intercalate _ (fun name hname => (hkeys name hname).2) hnil).symm
        _ = (joined path').splitOn IAliasPVD.slash := by rw [h]
        _ = path' := List.splitOn_intercalate _ (fun name hname => (hkeys' name hname).2) hnil'
  · rintro rfl
    rfl

/-! ## What the forest says -/

mutual

/-- The providers of an application in document order, each with the path of its application. -/
def AppTree.leaves : AppTree → (path : List Bytes) → List (List Bytes × PvdLeaf)
  | .single _ pvds, path => pvds.map fun pvd => (path, pvd)
  | .multi _ apps, path => apps.leaves path

/-- The providers of the applications under a path. -/
def AppForest.leaves : AppForest → (path : List Bytes) → List (List Bytes × PvdLeaf)
  | .nil, _ => []
  | .cons name app rest, path => app.leaves (path ++ [name]) ++ rest.leaves path

end

mutual

/-- The single application that the chain of own applications reaches: the names on the way to it,
and where it is. -/
def AppTree.chain : AppTree → Option (List Bytes × Bytes)
  | .single where_ _ => some ([], where_)
  | .multi selfName apps => apps.chain selfName

/-- The chain through the application of this name. -/
def AppForest.chain : AppForest → (selfName : Bytes) → Option (List Bytes × Bytes)
  | .nil, _ => none
  | .cons name app rest, selfName =>
      if selfName = name then app.chain.map fun found => (name :: found.1, found.2)
      else rest.chain selfName

end

mutual

/-- All names are parts of paths, and siblings have different ones. -/
def AppTree.WellNamed : AppTree → Prop
  | .single _ pvds => (∀ pvd ∈ pvds, IsKey pvd.name) ∧ (pvds.map PvdLeaf.name).Nodup
  | .multi _ apps => apps.WellNamed

/-- All names are parts of paths, and siblings have different ones. -/
def AppForest.WellNamed : AppForest → Prop
  | .nil => True
  | .cons name app rest =>
      IsKey name ∧ name ∉ rest.names ∧ app.WellNamed ∧ rest.WellNamed

end

mutual

theorem AppTree.prefix_of_mem_leaves : (app : AppTree) → {path : List Bytes} →
    {leaf : List Bytes × PvdLeaf} → leaf ∈ app.leaves path → path <+: leaf.1
  | .single _ pvds, path, leaf, h => by
      rw [AppTree.leaves, List.mem_map] at h
      obtain ⟨pvd, -, rfl⟩ := h
      exact List.prefix_refl path
  | .multi _ apps, path, leaf, h => by
      rw [AppTree.leaves] at h
      obtain ⟨name, -, hfront⟩ := apps.prefix_of_mem_leaves h
      exact (List.prefix_append path [name]).trans hfront

/-- A provider stands under the path and the name of one of the applications. -/
theorem AppForest.prefix_of_mem_leaves : (apps : AppForest) → {path : List Bytes} →
    {leaf : List Bytes × PvdLeaf} → leaf ∈ apps.leaves path →
    ∃ name ∈ apps.names, path ++ [name] <+: leaf.1
  | .nil, _, _, h => by cases h
  | .cons name app rest, path, leaf, h => by
      rw [AppForest.leaves, List.mem_append] at h
      obtain happ | hrest := h
      · exact ⟨name, List.mem_cons_self .., app.prefix_of_mem_leaves happ⟩
      · obtain ⟨other, hmem, hfront⟩ := rest.prefix_of_mem_leaves hrest
        exact ⟨other, List.mem_cons_of_mem _ hmem, hfront⟩

end

mutual

theorem AppTree.isKey_of_mem_leaves : (app : AppTree) → {path : List Bytes} →
    {leaf : List Bytes × PvdLeaf} → app.WellNamed → (∀ name ∈ path, IsKey name) →
    leaf ∈ app.leaves path → ∀ name ∈ leaf.1, IsKey name
  | .single _ pvds, path, leaf, _, hpath, h => by
      rw [AppTree.leaves, List.mem_map] at h
      obtain ⟨pvd, -, rfl⟩ := h
      exact hpath
  | .multi _ apps, path, leaf, hnamed, hpath, h => by
      rw [AppTree.leaves] at h
      rw [AppTree.WellNamed] at hnamed
      exact apps.isKey_of_mem_leaves hnamed hpath h

/-- The paths of the providers consist of names. -/
theorem AppForest.isKey_of_mem_leaves : (apps : AppForest) → {path : List Bytes} →
    {leaf : List Bytes × PvdLeaf} → apps.WellNamed → (∀ name ∈ path, IsKey name) →
    leaf ∈ apps.leaves path → ∀ name ∈ leaf.1, IsKey name
  | .nil, _, _, _, _, h => by cases h
  | .cons name app rest, path, leaf, hnamed, hpath, h => by
      rw [AppForest.WellNamed] at hnamed
      obtain ⟨hname, -, happ, hrest⟩ := hnamed
      rw [AppForest.leaves, List.mem_append] at h
      obtain h | h := h
      · refine app.isKey_of_mem_leaves happ ?_ h
        intro part hpart
        rw [List.mem_append, List.mem_singleton] at hpart
        obtain hpart | rfl := hpart
        · exact hpath part hpart
        · exact hname
      · exact rest.isKey_of_mem_leaves hrest hpath h

end

/-- A name that no application has does not lead on. -/
theorem AppForest.chain_of_notMem : (apps : AppForest) → {selfName : Bytes} →
    selfName ∉ apps.names → apps.chain selfName = none
  | .nil, _, _ => rfl
  | .cons name app rest, selfName, h => by
      rw [AppForest.names, List.mem_cons, not_or] at h
      rw [AppForest.chain, if_neg h.1]
      exact rest.chain_of_notMem h.2

/-- The application and the name of a provider. -/
def leafName (leaf : List Bytes × PvdLeaf) : List Bytes × Bytes := (leaf.1, leaf.2.name)

mutual

theorem AppTree.nodup_leaves : (app : AppTree) → {path : List Bytes} → app.WellNamed →
    ((app.leaves path).map leafName).Nodup
  | .single _ pvds, path, hnamed => by
      rw [AppTree.WellNamed] at hnamed
      have hnames : (pvds.map fun pvd => leafName (path, pvd)) =
          (pvds.map PvdLeaf.name).map fun name => (path, name) := by
        rw [List.map_map]
        rfl
      rw [AppTree.leaves, List.map_map]
      exact hnames ▸ hnamed.2.map fun _ _ h => (Prod.mk.inj h).2
  | .multi _ apps, path, hnamed => by
      rw [AppTree.WellNamed] at hnamed
      rw [AppTree.leaves]
      exact apps.nodup_leaves hnamed

/-- No two providers have the same application and name. -/
theorem AppForest.nodup_leaves : (apps : AppForest) → {path : List Bytes} → apps.WellNamed →
    ((apps.leaves path).map leafName).Nodup
  | .nil, _, _ => List.nodup_nil
  | .cons name app rest, path, hnamed => by
      rw [AppForest.WellNamed] at hnamed
      obtain ⟨-, hother, happ, hrest⟩ := hnamed
      rw [AppForest.leaves, List.map_append, List.nodup_append]
      refine ⟨app.nodup_leaves happ, rest.nodup_leaves hrest, ?_⟩
      rintro _ hleft _ hright rfl
      obtain ⟨leaf, hleaf, hname⟩ := List.mem_map.mp hleft
      obtain ⟨leaf', hleaf', hname'⟩ := List.mem_map.mp hright
      obtain ⟨other, hmem, hfront'⟩ := rest.prefix_of_mem_leaves hleaf'
      have hfront := app.prefix_of_mem_leaves hleaf
      have hpath : leaf'.1 = leaf.1 := (Prod.mk.inj (hname'.trans hname.symm)).1
      rw [hpath] at hfront'
      -- both are the prefix of one length
      have hsame := (List.prefix_of_prefix_length_le hfront hfront' (by simp)).eq_of_length
        (by simp)
      obtain rfl : name = other := by simpa using hsame
      exact hother hmem

end

/-! ## Documents that describe a forest -/

namespace CMjson

/-- The first member of this name. -/
def Has (obj : CMjson) (key : String) (value : Json) : Prop :=
  obj.findMember (literal key) = .ok value

/-- A member that is a string, which reads as this text. -/
def HasText (obj : CMjson) (key : String) (text : Bytes) : Prop :=
  ∃ data, obj.Has key (.string data) ∧ CString.text data = text

/-- A member that is an object. -/
def HasObject (obj : CMjson) (key : String) (members : CMjson) : Prop :=
  obj.Has key (.object members)

/-- A member that is a hexadecimal number other than zero. -/
def HasId (obj : CMjson) (key : String) (id : Nat) : Prop :=
  ∃ text, obj.HasText key text ∧ text ≠ [] ∧ CString.extractHex text = id ∧ id ≠ 0

theorem HasText.getMember {obj : CMjson} {key : String} {text : Bytes}
    (h : obj.HasText key text) : obj.getMember (literal key) = .ok text := by
  obtain ⟨data, hfind, rfl⟩ := h
  rw [CMjson.getMember, hfind, ok_bind, getSecond]

theorem HasObject.getMemberObject {obj members : CMjson} {key : String}
    (h : obj.HasObject key members) : obj.getMemberObject (literal key) = .ok members := by
  rw [CMjson.getMemberObject, h, ok_bind, getSecondObject]

theorem HasId.getMemberHex {obj : CMjson} {key : String} {id : Nat} (h : obj.HasId key id) :
    obj.getMemberHex (literal key) = .ok id := by
  obtain ⟨_, ⟨data, hfind, rfl⟩, hne, rfl, -⟩ := h
  rw [CMjson.getMemberHex, hfind, ok_bind, getSecondHex, getSecond, ok_bind, assertThat_pos hne,
    ok_bind]
  rfl

end CMjson

/-- The address of a provider over a socket, member by member: an `ip`, and a `port` and a `mask`
that are decimal numbers. -/
inductive TransAddress : (before : CAliasTrans) → CMjson → (after : CAliasTrans) → Prop
  | nil {trans : CAliasTrans} : TransAddress trans [] trans
  | ip {trans after : CAliasTrans} {name data : Bytes} {rest : CMjson}
      (hname : CString.text name = literal "ip")
      (hrest : TransAddress { trans with ip := CString.text data } rest after) :
      TransAddress trans ((name, .string data) :: rest) after
  | port {trans after : CAliasTrans} {name data : Bytes} {rest : CMjson} {number : Nat}
      (hname : CString.text name = literal "port")
      (hnumber : CString.stoul (CString.text data) = .ok number)
      (hrest : TransAddress { trans with portNum := number % 2 ^ 32 } rest after) :
      TransAddress trans ((name, .string data) :: rest) after
  | mask {trans after : CAliasTrans} {name data : Bytes} {rest : CMjson} {number : Nat}
      (hname : CString.text name = literal "mask")
      (hnumber : CString.stoul (CString.text data) = .ok number)
      (hrest : TransAddress { trans with mask := number % 2 ^ 32 } rest after) :
      TransAddress trans ((name, .string data) :: rest) after

/-- The address of a service, member by member: texts for the identifiers of the service and of the
instance. -/
inductive ServiceAddress : (before : CAliasService) → CMjson → (after : CAliasService) → Prop
  | nil {service : CAliasService} : ServiceAddress service [] service
  | svcId {service after : CAliasService} {name data : Bytes} {rest : CMjson}
      (hname : CString.text name = literal "service-id") (htext : CString.text data ≠ [])
      (hrest : ServiceAddress
        { service with svcId := CString.extractHex (CString.text data) } rest after) :
      ServiceAddress service ((name, .string data) :: rest) after
  | instId {service after : CAliasService} {name data : Bytes} {rest : CMjson}
      (hname : CString.text name = literal "instance-id") (htext : CString.text data ≠ [])
      (hrest : ServiceAddress
        { service with instId := CString.extractHex (CString.text data) } rest after) :
      ServiceAddress service ((name, .string data) :: rest) after

/-- The functions of one kind, each a name of its own over an object that `Entry` reads. -/
inductive Functions {Id : Type} (Entry : CMjson → Id → Prop) :
    (before : PartialMap Bytes Id) → CMjson → (after : PartialMap Bytes Id) → Prop
  | nil {ids : PartialMap Bytes Id} : Functions Entry ids [] ids
  | cons {ids after : PartialMap Bytes Id} {name : Bytes} {obj rest : CMjson} {id : Id}
      (hname : CString.text name ≠ []) (hnew : ids (CString.text name) = none)
      (hentry : Entry obj id)
      (hrest : Functions Entry (ids.insert (CString.text name) id) rest after) :
      Functions Entry ids ((name, .object obj) :: rest) after

/-- What a document says of a service: its address and its functions. -/
def ServiceReadFrom (obj addr : CMjson) (service : CAliasService) : Prop :=
  ∃ addressed functions reqresp reqNoresp pubsub,
    ServiceAddress .cleared addr addressed ∧
    obj.HasObject "functions" functions ∧
    functions.HasObject "reqresp" reqresp ∧
    functions.HasObject "req_noresp" reqNoresp ∧
    functions.HasObject "pubsub" pubsub ∧
    Functions (fun sub id => sub.HasId "id" id) .empty reqresp service.mmReqResp ∧
    Functions (fun sub id => sub.HasId "id" id) .empty reqNoresp service.mmReqNoresp ∧
    Functions (fun sub (ids : Nat × Nat) => sub.HasId "id" ids.1 ∧ sub.HasId "grp-id" ids.2)
      .empty pubsub service.mmPubSub ∧
    service.svcId = addressed.svcId ∧ service.instId = addressed.instId

/-- `IAliasPVD::convert` of a type. -/
def IAliasPVD.typeName : (type : ProviderType) → String
  | .transUDP => "udp"
  | .transUdsUDP => "udp_uds"
  | .transTCP => "tcp"
  | .transUdsTCP => "tcp_uds"
  | .serviceVsomeip => "vsomeip"
  | _ => ""

/-- A member that describes a provider, with a valid address for its type. -/
def PvdLeaf.ReadFrom (pvd : PvdLeaf) (member : Bytes × Json) : Prop :=
  CMjson.getFirst member = pvd.name ∧ ∃ obj addr : CMjson,
    member.2 = .object obj ∧
    obj.HasText "provider-type" (literal (IAliasPVD.typeName pvd.type)) ∧
    obj.HasObject "address" addr ∧
    match pvd.data with
    | .trans data => pvd.type ≠ .serviceVsomeip ∧ TransAddress .cleared addr data
    | .service data => pvd.type = .serviceVsomeip ∧ ServiceReadFrom obj addr data

mutual

/-- An object that describes an application, with valid properties. -/
def AppTree.ReadFrom : AppTree → CMjson → Prop
  | .single where_ pvds, obj =>
      ∃ properties name members, obj.HasObject "properties" properties ∧
        properties.HasText "type" (literal "single") ∧ properties.HasText "name" name ∧
        properties.HasText "where" where_ ∧ where_ ≠ [] ∧
        obj.HasObject "svc-pvd" members ∧ List.Forall₂ PvdLeaf.ReadFrom pvds members
  | .multi selfName apps, obj =>
      ∃ properties where_ members, obj.HasObject "properties" properties ∧
        properties.HasText "type" (literal "multi") ∧ properties.HasText "name" selfName ∧
        properties.HasText "where" where_ ∧ selfName ≠ [] ∧
        obj.HasObject "app" members ∧ apps.ReadFrom members

/-- Members that describe applications, in their order. -/
def AppForest.ReadFrom : AppForest → CMjson → Prop
  | .nil, members => members = []
  | .cons name app rest, members =>
      ∃ key obj more, members = (key, .object obj) :: more ∧ CString.text key = name ∧
        app.ReadFrom obj ∧ rest.ReadFrom more

end

/-- A document that describes the resources. -/
def AppForest.DescribedBy (resources : AppForest) (document : Json) : Prop :=
  ∃ root members : CMjson, document = .object root ∧ root.HasObject "aliases" members ∧
    resources.ReadFrom members

end CommonCommunicator
