import CommonCommunicator.Json.MemberReads
import CommonCommunicator.Lib.PartialMap
import CommonCommunicator.Protocol.Shipped

/-!
# The protocol description

`CConfigProtocols` reads a document that names a library and lists protocols.
Each protocol of the list has a description, whose `index` must be the position
in the list, and reading a description takes it out of the document. Then the
library is loaded and asked whether it has the protocols.
-/

namespace CommonCommunicator

open Lib

/-- `protocol_t`, with the `index` of its `meta`. -/
structure ProtocolT where
  name : Bytes
  index : Int
  properties : PartialMap Bytes Bytes

/-- `E_LANGUAGE`. -/
inductive ELanguage
  | c
  | cpp
  deriving DecidableEq, Repr

/-- `cpp_protocol_lib_t`. The object that `create_instance` makes is given by its class. -/
structure ProtoModule (Head : Type) where
  language : ELanguage
  getAvailableProtocols : List Bytes
  createInstance : Bytes → Outcome (IProtocolInf Head)

/-- `pt_module_t`, with what its `open` makes of `proto_h`. -/
structure PtModule (Head : Type) where
  tag : UInt32
  id : Bytes
  opened : Option (ProtoModule Head)

/-- `PROTOCOL_MODULE_TAG`. -/
def protocolModuleTag : UInt32 := 0x50544D54

/-- What `dlopen` finds at a path: nothing, or a library with or without the symbol `PMI`. -/
abbrev Libraries (Head : Type) := Bytes → Option (Option (List (PtModule Head)))

variable {Head : Type}

/-- `pt_get_module`, `none` where its status is not zero. Where no module has the id, the message
about it reads the id of a null pointer. -/
def ptGetModule (dlopen : Libraries Head) (id path : Bytes) : Outcome (Option (PtModule Head)) :=
  match dlopen path with
  | none => .ok none
  | some none => .ok none
  | some (some modules) =>
      match modules.find? fun pmi => pmi.id = id with
      | some pmi => .ok (some pmi)
      | none => .error .undefined

/-- `CConfigProtocols` with what it has read. -/
structure LoadedProtocols (Head : Type) where
  libPath : Bytes
  libId : Bytes
  protoH : Option (ProtoModule Head)
  protoSt : PartialMap Bytes ProtocolT
  protoList : List Bytes
  protoChainsMap : List Nat

/-- A property in `biuld_protocol_struct`. -/
def setProperty (propertyMap : PartialMap Bytes Bytes) (member : Bytes × JsonValue) :
    Outcome (PartialMap Bytes Bytes) := do
  let value ← member.2.getSecond
  return propertyMap.insert (CString.text member.1) value

/-- `biuld_protocol_struct`, with the descriptions that are left. -/
def biuldProtocolStruct (ptDesp : JsonMembers) (name : Bytes) (protoIndex : Nat) :
    Outcome (ProtocolT × JsonMembers) := do
  let (objMembers, ptDesp) ← ptDesp.getMemberObject name
  let index ← objMembers.getMember (literal "index")
  let (properties, _) ← objMembers.getMemberObject (literal "properties")
  assertThat (CString.atoi index = protoIndex)
  let propertyMap ← properties.foldlM setProperty .empty
  return ({ name := name, index := CString.atoi index, properties := propertyMap }, ptDesp)

namespace LoadedProtocols

/-- The loop of `init` over the names. -/
def initLoop (objects : JsonMembers) (protoIndex : Nat) (s : LoadedProtocols Head) :
    (protoNames : List Bytes) → Outcome (LoadedProtocols Head)
  | [] => .ok s
  | protoName :: protoNames => do
      let (protocol, objects) ← biuldProtocolStruct objects protoName protoIndex
      initLoop objects (protoIndex + 1)
        { s with
          protoSt := s.protoSt.insert protoName protocol
          protoList := s.protoList ++ [protoName] } protoNames

/-- `init` behind `parse`. -/
def init (document : JsonMembers) : Outcome (LoadedProtocols Head) := do
  let libPath ← document.getMember (literal "protocol-libpath")
  let libId ← document.getMember (literal "protocol-id")
  let protoNames ← document.getArrayMember (literal "protocol-list")
  let (objects, _) ← document.getMemberObject (literal "protocol-desp")
  initLoop objects 0
    { libPath := libPath
      libId := libId
      protoH := none
      protoSt := .empty
      protoList := []
      protoChainsMap := [] } protoNames

/-- `dynamic_lib_load`. -/
def dynamicLibLoad (dlopen : Libraries Head) (id path : Bytes) : Outcome (ProtoModule Head) := do
  assertThat (id ≠ [] ∧ path ≠ [])
  match ← ptGetModule dlopen id path with
  | none => .error .assertion
  | some pModule => do
      assertThat (pModule.tag = protocolModuleTag)
      match pModule.opened with
      | none => .error .assertion
      | some protoH => do
          assertThat (protoH.language = .cpp)
          return protoH

/-- The loop of `check_available`; `res` is false before its first turn. -/
def checkAvailable (protoLib : ProtoModule Head) (res : Bool) : (protoNames : List Bytes) → Bool
  | [] => res
  | name :: protoNames =>
      if name ∈ protoLib.getAvailableProtocols then checkAvailable protoLib true protoNames
      else false

/-- The constructor; `none` is a null path. -/
def construct (dlopen : Libraries Head) : (document : Option JsonMembers) →
    Outcome (LoadedProtocols Head)
  | none =>
      .ok
        { libPath := []
          libId := []
          protoH := none
          protoSt := .empty
          protoList := [literal IProtocolInf.defaultName]
          protoChainsMap := [] }
  | some document => do
      let s : LoadedProtocols Head ← init document
      let protoH ← dynamicLibLoad dlopen s.libId s.libPath
      assertThat (checkAvailable protoH false s.protoList = true)
      return { s with protoH := some protoH }

/-- `create_inst`. -/
def createInst (fresh : Head) (config : LoadedProtocols Head) (protocolName : Bytes) :
    Outcome (IProtocolInf Head) :=
  if protocolName = literal IProtocolInf.defaultName then .ok (IProtocolInf.base fresh)
  else match config.protoH with
    | some protoH => protoH.createInstance protocolName
    | none => .error .undefined

/-- `create_protocols_chain`. -/
def createProtocolsChain (fresh : Head) (config : LoadedProtocols Head) :
    Outcome (LoadedProtocols Head × ProtoChain Head) := do
  assertThat (0 < config.protoList.length)
  let chainName := CConfigProtocols.newChainName config.protoChainsMap
  let classes ← config.protoList.mapM (config.createInst fresh)
  if CConfigProtocols.maxProtocolChainInstances ≤ config.protoChainsMap.length then
    throwThat .exception
  else
    return ({ config with protoChainsMap := chainName :: config.protoChainsMap },
      { name := chainName, elements := classes.map Protocol.create })

/-- `destroy_protocols_chain`. -/
def destroyProtocolsChain (config : LoadedProtocols Head) (chain : ProtoChain Head) :
    LoadedProtocols Head :=
  { config with protoChainsMap := config.protoChainsMap.erase chain.name }

end LoadedProtocols

/-! ## What a document describes -/

namespace JsonMembers

/-- The text of the last member of this name. -/
def lastText (members : JsonMembers) (key : Bytes) : Option Bytes :=
  match members.reverse.find? fun member => CString.text member.1 = key with
  | some (_, .string data) => some (CString.text data)
  | _ => none

/-- The members are strings, and the map has the last one of each name. -/
def PropertiesAre (members : JsonMembers) (properties : PartialMap Bytes Bytes) : Prop :=
  (∀ member ∈ members, ∃ data, member.2 = .string data) ∧
    ∀ key, properties key = members.lastText key

/-- The first member of the protocol's name describes it, and says that this is its position. -/
def Describes (ptDesp : JsonMembers) (position : Nat) (protocol : ProtocolT) : Prop :=
  ∃ (members properties : JsonMembers) (index : Bytes),
    ptDesp.Has protocol.name (.object members) ∧
      members.HasText (literal "index") index ∧ CString.atoi index = position ∧
      protocol.index = position ∧
      members.Has (literal "properties") (.object properties) ∧
      properties.PropertiesAre protocol.properties

variable {ptDesp members : JsonMembers} {protocol protocol' : ProtocolT} {i j : Nat}

theorem lastText_append (members : JsonMembers) (name data key : Bytes) :
    lastText (members ++ [(name, .string data)]) key =
      if key = CString.text name then some (CString.text data) else members.lastText key := by
  rw [lastText, List.reverse_append, List.reverse_singleton, List.singleton_append]
  by_cases hkey : key = CString.text name
  · rw [if_pos hkey, List.find?_cons_of_pos (by simp [hkey])]
  · rw [if_neg hkey, List.find?_cons_of_neg (by simpa using Ne.symm hkey), lastText]

/-- The loop over the properties. -/
theorem foldlM_setProperty_eq_ok {properties : PartialMap Bytes Bytes} :
    members.foldlM setProperty .empty = .ok properties ↔ members.PropertiesAre properties := by
  induction members using List.reverseRecOn generalizing properties with
  | nil =>
      constructor
      · intro h
        cases h
        exact ⟨fun _ hmem => absurd hmem List.not_mem_nil, fun _ => rfl⟩
      · intro h
        rw [show properties = .empty from funext h.2]
        rfl
  | append_singleton members member ih =>
      obtain ⟨name, value⟩ := member
      rw [List.foldlM_append]
      constructor
      · intro h
        obtain ⟨before, hbefore, h⟩ := bind_eq_ok.mp h
        simp only [List.foldlM_cons, List.foldlM_nil, bind_pure] at h
        obtain ⟨text, hvalue, h⟩ := bind_eq_ok.mp h
        cases h
        obtain ⟨data, rfl, rfl⟩ := getSecond_eq_ok.mp hvalue
        obtain ⟨hstrings, htexts⟩ := ih.mp hbefore
        refine ⟨?_, ?_⟩
        · intro member hmem
          obtain hmem | hmem := List.mem_append.mp hmem
          · exact hstrings member hmem
          · rw [List.mem_singleton.mp hmem]
            exact ⟨data, rfl⟩
        · intro key
          rw [PartialMap.insert_apply, lastText_append, htexts]
      · rintro ⟨hstrings, htexts⟩
        obtain ⟨data, hdata⟩ := hstrings (name, value) (List.mem_append_right _ (.head _))
        obtain rfl : value = .string data := hdata
        have hbefore : members.foldlM setProperty .empty = .ok (lastText members) :=
          ih.mpr ⟨fun member hmem => hstrings member (List.mem_append_left _ hmem), fun _ => rfl⟩
        simp only [hbefore, ok_bind, List.foldlM_cons, List.foldlM_nil, bind_pure]
        have hlast : PartialMap.insert (lastText members) (CString.text name) (CString.text data) =
            properties := by
          funext key
          rw [PartialMap.insert_apply, htexts, lastText_append]
        rw [← hlast]
        rfl

/-- A description that is read fits the position, and is taken out. -/
theorem biuldProtocolStruct_eq_ok {name : Bytes} {left : JsonMembers} :
    biuldProtocolStruct ptDesp name i = .ok (protocol, left) ↔
      protocol.name = name ∧ ptDesp.Describes i protocol ∧ left = ptDesp.emptiedAt name := by
  constructor
  · intro h
    obtain ⟨⟨members, left'⟩, hmembers, h⟩ := bind_eq_ok.mp h
    obtain ⟨index, hindex, h⟩ := bind_eq_ok.mp h
    obtain ⟨⟨properties, _⟩, hproperties, h⟩ := bind_eq_ok.mp h
    obtain ⟨⟨⟩, hposition, h⟩ := bind_eq_ok.mp h
    obtain ⟨propertyMap, hmap, h⟩ := bind_eq_ok.mp h
    cases h
    obtain ⟨hhas, hleft⟩ := getMemberObject_eq_ok.mp hmembers
    have hat := assertThat_eq_ok.mp hposition
    exact ⟨rfl, ⟨members, properties, index, hhas, getMember_eq_ok.mp hindex, hat, hat,
      (getMemberObject_eq_ok.mp hproperties).1, foldlM_setProperty_eq_ok.mp hmap⟩, hleft⟩
  · rintro ⟨rfl, ⟨members, properties, index, hhas, hindex, hat, hposition, hproperties, hmap⟩, rfl⟩
    have hmembers := getMemberObject_eq_ok.mpr ⟨hhas, rfl⟩
    have hinner := getMemberObject_eq_ok.mpr ⟨hproperties, rfl⟩
    simp only [biuldProtocolStruct, hmembers, getMember_eq_ok.mpr hindex, hinner,
      assertThat_pos hat, foldlM_setProperty_eq_ok.mpr hmap, ok_bind, pure_eq_ok]
    rw [hat, ← hposition]

/-- A name has one description, which has one index. -/
theorem Describes.position_unique (h : ptDesp.Describes i protocol)
    (h' : ptDesp.Describes j protocol')
    (hname : CString.text protocol.name = CString.text protocol'.name) : i = j := by
  obtain ⟨members, -, index, ⟨-, first, hfirst⟩, ⟨data, hdata, htext⟩, hat, -⟩ := h
  obtain ⟨members', -, index', ⟨-, first', hfirst'⟩, ⟨data', hdata', htext'⟩, hat', -⟩ := h'
  rw [hname, hfirst'] at hfirst
  cases hfirst
  cases hdata.unique hdata'
  rw [← htext] at hat
  rw [← htext', hat] at hat'
  exact Int.ofNat_inj.mp hat'

/-- When the description at one position is taken, those at the other positions stay. -/
theorem Describes.emptiedAt_iff (h : ptDesp.Describes i protocol) (hij : i ≠ j) :
    (ptDesp.emptiedAt protocol.name).Describes j protocol' ↔ ptDesp.Describes j protocol' := by
  have hothers : CString.text protocol'.name ≠ CString.text protocol.name →
      ((ptDesp.emptiedAt protocol.name).Describes j protocol' ↔ ptDesp.Describes j protocol') := by
    intro hname
    rw [Describes, Describes]
    simp only [has_emptiedAt_of_ne hname]
  by_cases hname : CString.text protocol'.name = CString.text protocol.name
  · refine iff_of_false ?_ fun h' => hij (h.position_unique h' hname.symm)
    -- an object without members has no index
    rintro ⟨members, -, index, ⟨-, first', hfirst'⟩, ⟨data, ⟨-, hdata⟩, -⟩, -⟩
    obtain ⟨members', -, -, hhas, -⟩ := h
    obtain ⟨-, first, hfirst⟩ := hhas.emptiedAt
    rw [hname, hfirst] at hfirst'
    cases hfirst'
    obtain ⟨_, hnone⟩ := hdata
    cases hnone
  · exact hothers hname

/-- The descriptions of protocols that stand one after the other from a position on. -/
def DescribesAll (ptDesp : JsonMembers) (position : Nat) (protocols : List ProtocolT) : Prop :=
  ∀ i protocol, protocols[i]? = some protocol → ptDesp.Describes (position + i) protocol

theorem describesAll_nil (ptDesp : JsonMembers) (position : Nat) :
    ptDesp.DescribesAll position [] := fun _ _ h => by cases h

/-- The first protocol is described, and the others by what is left. -/
theorem describesAll_cons_iff {protocols : List ProtocolT} :
    ptDesp.DescribesAll i (protocol :: protocols) ↔
      ptDesp.Describes i protocol ∧
        (ptDesp.emptiedAt protocol.name).DescribesAll (i + 1) protocols := by
  constructor
  · intro h
    have hfirst : ptDesp.Describes i protocol := h 0 protocol rfl
    refine ⟨hfirst, ?_⟩
    intro n other hother
    rw [hfirst.emptiedAt_iff (by omega), Nat.add_assoc, Nat.add_comm 1 n]
    exact h (n + 1) other hother
  · rintro ⟨hfirst, hrest⟩ n other hother
    cases n with
    | zero =>
        cases hother
        exact hfirst
    | succ n =>
        have hleft := hrest n other hother
        rwa [hfirst.emptiedAt_iff (by omega), Nat.add_assoc, Nat.add_comm 1 n] at hleft

/-- Protocols that are described at different positions have different names. -/
theorem DescribesAll.nodup {protocols : List ProtocolT} (h : ptDesp.DescribesAll i protocols) :
    (protocols.map ProtocolT.name).Nodup := by
  rw [List.nodup_iff_injective_getElem]
  rintro ⟨n, hn⟩ ⟨n', hn'⟩ hsame
  rw [List.length_map] at hn hn'
  have hsame' : protocols[n].name = protocols[n'].name := by simpa using hsame
  have hposition := (h n _ (List.getElem?_eq_getElem hn)).position_unique
    (h n' _ (List.getElem?_eq_getElem hn')) (by rw [hsame'])
  exact Fin.ext (by simpa using hposition)

end JsonMembers

namespace LoadedProtocols

/-- The map that the protocols are put into one after the other. -/
def storeProtocols (protoSt : PartialMap Bytes ProtocolT) (protocols : List ProtocolT) :
    PartialMap Bytes ProtocolT :=
  protocols.foldl (fun stored protocol => stored.insert protocol.name protocol) protoSt

/-- The loop of `init` goes through exactly the protocols that are described. -/
theorem initLoop_eq_ok {objects : JsonMembers} {position : Nat} {s s' : LoadedProtocols Head}
    {protoNames : List Bytes} :
    initLoop objects position s protoNames = .ok s' ↔
      ∃ protocols, protocols.map ProtocolT.name = protoNames ∧
        objects.DescribesAll position protocols ∧
        s' = { s with
          protoSt := storeProtocols s.protoSt protocols
          protoList := s.protoList ++ protoNames } := by
  induction protoNames generalizing objects position s with
  | nil =>
      constructor
      · intro h
        cases h
        exact ⟨[], rfl, objects.describesAll_nil position, by simp [storeProtocols]⟩
      · rintro ⟨protocols, hnames, -, rfl⟩
        rw [List.map_eq_nil_iff.mp hnames]
        simp [initLoop, storeProtocols]
  | cons protoName protoNames ih =>
      constructor
      · intro h
        obtain ⟨⟨protocol, left⟩, hread, h⟩ := bind_eq_ok.mp h
        obtain ⟨rfl, hdescribes, rfl⟩ := JsonMembers.biuldProtocolStruct_eq_ok.mp hread
        obtain ⟨protocols, rfl, hall, rfl⟩ := ih.mp h
        refine ⟨protocol :: protocols, rfl,
          JsonMembers.describesAll_cons_iff.mpr ⟨hdescribes, hall⟩, ?_⟩
        simp [storeProtocols]
      · rintro ⟨protocols, hnames, hall, rfl⟩
        cases protocols with
        | nil => cases hnames
        | cons protocol protocols =>
            obtain ⟨rfl, rfl⟩ := List.cons.inj hnames
            obtain ⟨hdescribes, hall⟩ := JsonMembers.describesAll_cons_iff.mp hall
            have hread := JsonMembers.biuldProtocolStruct_eq_ok.mpr ⟨rfl, hdescribes, rfl⟩
            simp only [initLoop, hread, ok_bind]
            refine ih.mpr ⟨protocols, rfl, hall, ?_⟩
            simp [storeProtocols]

/-- A configuration that has read these protocols from a document. -/
structure ReadFrom (config : LoadedProtocols Head) (document : JsonMembers)
    (protocols : List ProtocolT) : Prop where
  libPath : document.HasText (literal "protocol-libpath") config.libPath
  libId : document.HasText (literal "protocol-id") config.libId
  listed : document.HasTexts (literal "protocol-list") (protocols.map ProtocolT.name)
  described : ∃ objects : JsonMembers, document.Has (literal "protocol-desp") (.object objects) ∧
    objects.DescribesAll 0 protocols
  protoSt : ∀ name, config.protoSt name = protocols.find? fun protocol => protocol.name = name
  protoList : config.protoList = protocols.map ProtocolT.name

/-- A library at the path of the configuration, with a module of its id, offers the protocols. -/
structure OfferedBy (config : LoadedProtocols Head) (dlopen : Libraries Head)
    (protoH : ProtoModule Head) : Prop where
  named : config.libId ≠ [] ∧ config.libPath ≠ []
  opened : ∃ modules pModule, dlopen config.libPath = some (some modules) ∧
    modules.find? (fun pmi => pmi.id = config.libId) = some pModule ∧
    pModule.tag = protocolModuleTag ∧ pModule.opened = some protoH
  language : protoH.language = .cpp
  offered : ∀ name ∈ config.protoList, name ∈ protoH.getAvailableProtocols

variable {dlopen : Libraries Head} {config : LoadedProtocols Head} {document : JsonMembers}

/-- Where the names are different, the map has each protocol under its name. -/
theorem storeProtocols_apply {protocols : List ProtocolT}
    (hnodup : (protocols.map ProtocolT.name).Nodup) (name : Bytes) :
    storeProtocols .empty protocols name =
      protocols.find? fun protocol => protocol.name = name := by
  induction protocols using List.reverseRecOn with
  | nil => rfl
  | append_singleton protocols protocol ih =>
      rw [List.map_append, List.nodup_append] at hnodup
      obtain ⟨hbefore, -, hother⟩ := hnodup
      rw [storeProtocols, List.foldl_append, List.foldl_cons, List.foldl_nil,
        PartialMap.insert_apply, List.find?_append]
      by_cases hname : name = protocol.name
      · have hnone : protocols.find? (fun protocol => protocol.name = name) = none := by
          rw [List.find?_eq_none]
          intro other hmem hsame
          exact hother other.name (List.mem_map_of_mem hmem) protocol.name
            (List.mem_singleton.mpr rfl) ((of_decide_eq_true hsame).trans hname)
        rw [if_pos hname, hnone, Option.none_or, List.find?_cons_of_pos (by simp [hname])]
      · rw [if_neg hname, List.find?_cons_of_neg (by simpa using Ne.symm hname), List.find?_nil,
          Option.or_none]
        exact ih hbefore

/-- `init` returns what the document describes. -/
theorem init_eq_ok {s : LoadedProtocols Head} :
    init document = .ok s ↔
      (∃ protocols, s.ReadFrom document protocols) ∧ s.protoH = none ∧ s.protoChainsMap = [] := by
  constructor
  · intro h
    obtain ⟨libPath, hpath, h⟩ := bind_eq_ok.mp h
    obtain ⟨libId, hid, h⟩ := bind_eq_ok.mp h
    obtain ⟨protoNames, hnames, h⟩ := bind_eq_ok.mp h
    obtain ⟨⟨objects, _⟩, hobjects, h⟩ := bind_eq_ok.mp h
    obtain ⟨protocols, rfl, hall, rfl⟩ := initLoop_eq_ok.mp h
    refine ⟨⟨protocols, ?_⟩, rfl, rfl⟩
    exact
      { libPath := JsonMembers.getMember_eq_ok.mp hpath
        libId := JsonMembers.getMember_eq_ok.mp hid
        listed := JsonMembers.getArrayMember_eq_ok.mp hnames
        described := ⟨objects, (JsonMembers.getMemberObject_eq_ok.mp hobjects).1, hall⟩
        protoSt := storeProtocols_apply hall.nodup
        protoList := rfl }
  · rintro ⟨⟨protocols, hread⟩, hnone, hmap⟩
    obtain ⟨objects, hobjects, hall⟩ := hread.described
    have hdesp := JsonMembers.getMemberObject_eq_ok.mpr ⟨hobjects, rfl⟩
    simp only [init, JsonMembers.getMember_eq_ok.mpr hread.libPath, ok_bind,
      JsonMembers.getMember_eq_ok.mpr hread.libId,
      JsonMembers.getArrayMember_eq_ok.mpr hread.listed, hdesp]
    refine initLoop_eq_ok.mpr ⟨protocols, rfl, hall, ?_⟩
    obtain ⟨libPath, libId, protoH, protoSt, protoList, protoChainsMap⟩ := s
    obtain rfl : protoH = none := hnone
    obtain rfl : protoChainsMap = [] := hmap
    obtain rfl : protoList = protocols.map ProtocolT.name := hread.protoList
    obtain rfl : protoSt = storeProtocols .empty protocols :=
      funext fun name => (hread.protoSt name).trans (storeProtocols_apply hall.nodup name).symm
    rfl

/-- `dynamic_lib_load` returns what the module of this id opens. -/
theorem dynamicLibLoad_eq_ok {id path : Bytes} {protoH : ProtoModule Head} :
    dynamicLibLoad dlopen id path = .ok protoH ↔
      (id ≠ [] ∧ path ≠ []) ∧
        (∃ modules pModule, dlopen path = some (some modules) ∧
          modules.find? (fun pmi => pmi.id = id) = some pModule ∧
          pModule.tag = protocolModuleTag ∧ pModule.opened = some protoH) ∧
        protoH.language = .cpp := by
  constructor
  · intro h
    obtain ⟨⟨⟩, hnamed, h⟩ := bind_eq_ok.mp h
    obtain ⟨found, hfound, h⟩ := bind_eq_ok.mp h
    cases found with
    | none => cases h
    | some pModule =>
        obtain ⟨⟨⟩, htag, h⟩ := bind_eq_ok.mp h
        obtain ⟨modules, hlib, hmodule⟩ : ∃ modules, dlopen path = some (some modules) ∧
            modules.find? (fun pmi => pmi.id = id) = some pModule := by
          rw [ptGetModule] at hfound
          split at hfound
          · cases hfound
          · cases hfound
          · next modules hlib =>
              split at hfound
              · next pmi hpmi =>
                  cases hfound
                  exact ⟨modules, hlib, hpmi⟩
              · cases hfound
        cases hopened : pModule.opened with
        | none =>
            rw [hopened] at h
            cases h
        | some opened =>
            rw [hopened] at h
            obtain ⟨⟨⟩, hlanguage, h⟩ := bind_eq_ok.mp h
            cases h
            exact ⟨assertThat_eq_ok.mp hnamed, ⟨modules, pModule, hlib, hmodule,
              assertThat_eq_ok.mp htag, hopened⟩, assertThat_eq_ok.mp hlanguage⟩
  · rintro ⟨hnamed, ⟨modules, pModule, hlib, hmodule, htag, hopened⟩, hlanguage⟩
    simp only [dynamicLibLoad, ptGetModule, assertThat_pos hnamed, hlib, hmodule, ok_bind,
      assertThat_pos htag, hopened, assertThat_pos hlanguage, pure_eq_ok]

/-- `check_available` says that there are names, and that the library has them. -/
theorem checkAvailable_iff {protoLib : ProtoModule Head} {res : Bool} {protoNames : List Bytes} :
    checkAvailable protoLib res protoNames = true ↔
      (res = true ∨ protoNames ≠ []) ∧
        ∀ name ∈ protoNames, name ∈ protoLib.getAvailableProtocols := by
  induction protoNames generalizing res with
  | nil => simp [checkAvailable]
  | cons name protoNames ih =>
      rw [checkAvailable, List.forall_mem_cons]
      by_cases hname : name ∈ protoLib.getAvailableProtocols
      · rw [if_pos hname, ih]
        simp [hname]
      · rw [if_neg hname]
        simp [hname]

/-- What was read does not depend on the library. -/
theorem ReadFrom.withModule {protocols : List ProtocolT} (h : config.ReadFrom document protocols)
    (protoH : Option (ProtoModule Head)) :
    { config with protoH := protoH }.ReadFrom document protocols :=
  ⟨h.libPath, h.libId, h.listed, h.described, h.protoSt, h.protoList⟩

/-- A configuration that the constructor makes has read the document, and has the library. -/
theorem of_construct (h : construct dlopen (some document) = .ok config) :
    ∃ protocols protoH, config.ReadFrom document protocols ∧ protocols ≠ [] ∧
      config.OfferedBy dlopen protoH ∧ config.protoH = some protoH ∧
      config.protoChainsMap = [] := by
  obtain ⟨s, hinit, h⟩ := bind_eq_ok.mp h
  obtain ⟨protoH, hload, h⟩ := bind_eq_ok.mp h
  obtain ⟨⟨⟩, hcheck, h⟩ := bind_eq_ok.mp h
  cases h
  obtain ⟨⟨protocols, hfrom⟩, -, hmap⟩ := init_eq_ok.mp hinit
  obtain ⟨hnamed, hopened, hlanguage⟩ := dynamicLibLoad_eq_ok.mp hload
  obtain ⟨hsome, hoffered⟩ := checkAvailable_iff.mp (assertThat_eq_ok.mp hcheck)
  refine ⟨protocols, protoH, hfrom.withModule _, ?_, ⟨hnamed, hopened, hlanguage, hoffered⟩, rfl,
    hmap⟩
  rintro rfl
  obtain h | h := hsome
  · cases h
  · exact h hfrom.protoList

/-- The names that were read are different ones. -/
theorem ReadFrom.nodup {protocols : List ProtocolT} (h : config.ReadFrom document protocols) :
    config.protoList.Nodup := by
  obtain ⟨objects, -, hall⟩ := h.described
  rw [h.protoList]
  exact hall.nodup

/-- A protocol stands in the list at the position that its entry of `proto_st` has as its index. -/
theorem ReadFrom.position_iff {protocols : List ProtocolT}
    (h : config.ReadFrom document protocols) (position : Nat) (name : Bytes) :
    config.protoList[position]? = some name ↔
      ∃ protocol, config.protoSt name = some protocol ∧ protocol.index = position := by
  obtain ⟨objects, -, hall⟩ := h.described
  have hindex : ∀ (i : Nat) (protocol : ProtocolT),
      protocols[i]? = some protocol → protocol.index = i := by
    intro i protocol hthere
    obtain ⟨-, -, -, -, -, -, hindex, -⟩ := hall i protocol hthere
    rwa [Nat.zero_add] at hindex
  rw [h.protoList, List.getElem?_map, h.protoSt]
  constructor
  · intro hposition
    obtain ⟨protocol, hthere, rfl⟩ := Option.map_eq_some_iff.mp hposition
    have hfirst : protocols.find? (fun other => other.name = protocol.name) = some protocol := by
      rw [List.find?_eq_some_iff_getElem]
      obtain ⟨hlt, hget⟩ := List.getElem?_eq_some_iff.mp hthere
      refine ⟨by simp, position, hlt, hget, ?_⟩
      intro j hj
      have hne := (List.nodup_iff_pairwise_ne.mp hall.nodup)
      rw [List.pairwise_iff_getElem] at hne
      have hother := hne j position (by rw [List.length_map]; omega)
        (by rw [List.length_map]; exact hlt) hj
      rw [List.getElem_map, List.getElem_map, hget] at hother
      simpa using hother
    exact ⟨protocol, hfirst, hindex position protocol hthere⟩
  · rintro ⟨protocol, hfind, hposition⟩
    obtain ⟨i, hthere⟩ := List.getElem?_of_mem (List.mem_of_find?_eq_some hfind)
    have hi : i = position := by
      have hat := hindex i protocol hthere
      rw [hposition] at hat
      exact Int.ofNat_inj.mp hat.symm
    have hname : protocol.name = name := by simpa using List.find?_some hfind
    rw [← hi, hthere, Option.map_some, hname]

/-- The constructor accepts exactly the documents that list at least one protocol and describe each
of them at its position in the list, with a library that offers them. It has then read each
protocol into the place of its index. -/
theorem construct_eq_ok_iff (dlopen : Libraries Head) (document : JsonMembers)
    (config : LoadedProtocols Head) :
    (construct dlopen (some document) = .ok config ↔
      ∃ protocols protoH, config.ReadFrom document protocols ∧ protocols ≠ [] ∧
        config.OfferedBy dlopen protoH ∧ config.protoH = some protoH ∧
        config.protoChainsMap = []) ∧
      (construct dlopen (some document) = .ok config → ∀ (position : Nat) (name : Bytes),
        config.protoList[position]? = some name ↔
          ∃ protocol, config.protoSt name = some protocol ∧ protocol.index = position) := by
  refine ⟨⟨of_construct, ?_⟩, ?_⟩
  · rintro ⟨protocols, protoH, hfrom, hne, hoffer, hsome, hmap⟩
    obtain ⟨libPath, libId, protoH', protoSt, protoList, protoChainsMap⟩ := config
    obtain rfl : protoH' = some protoH := hsome
    have hinit : init document = .ok
        (⟨libPath, libId, none, protoSt, protoList, protoChainsMap⟩ : LoadedProtocols Head) :=
      init_eq_ok.mpr ⟨⟨protocols, hfrom.withModule none⟩, rfl, hmap⟩
    have hload := dynamicLibLoad_eq_ok.mpr ⟨hoffer.named, hoffer.opened, hoffer.language⟩
    have hlist : protoList ≠ [] := by
      intro hnil
      have hnames : protoList = protocols.map ProtocolT.name := hfrom.protoList
      rw [hnil] at hnames
      exact hne (List.map_eq_nil_iff.mp hnames.symm)
    have hcheck : checkAvailable protoH false protoList = true :=
      checkAvailable_iff.mpr ⟨.inr hlist, hoffer.offered⟩
    simp only [construct, hinit, ok_bind]
    simp only [hload, ok_bind, assertThat_pos hcheck, pure_eq_ok]
  · intro h
    obtain ⟨protocols, -, hfrom, -⟩ := of_construct h
    exact hfrom.position_iff

end LoadedProtocols

end CommonCommunicator
