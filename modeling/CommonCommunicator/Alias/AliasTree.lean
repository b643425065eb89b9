import CommonCommunicator.Alias.AliasJson
import CommonCommunicator.Alias.ProviderRegistry

/-!
# Loading the alias tree

`CConfigAliases::init` walks through the resources of the document. A single
application lists its providers, a multiple one its applications, and every
provider that is made is listed at once.
-/

namespace CommonCommunicator

open Lib

mutual

/-- How deep the objects of a document are nested. -/
def Json.depth : Json → Nat
  | .object members => Json.depthOfMembers members + 1
  | _ => 0

/-- How deep the deepest of the members is nested. -/
def Json.depthOfMembers : (members : List (Bytes × Json)) → Nat
  | [] => 0
  | (_, value) :: rest => max value.depth (Json.depthOfMembers rest)

end

theorem Json.depth_le_of_mem {members : List (Bytes × Json)} {key : Bytes} {value : Json}
    (h : (key, value) ∈ members) : value.depth ≤ Json.depthOfMembers members := by
  induction members with
  | nil => cases h
  | cons member rest ih =>
      rw [Json.depthOfMembers]
      cases h with
      | head => exact Nat.le_max_left ..
      | tail _ h => exact (ih h).trans (Nat.le_max_right ..)

/-- The members of a member are nested less deeply. -/
theorem Json.depthOfMembers_lt_of_find {obj members : CMjson} {key : Bytes}
    (h : obj.findMember key = .ok (.object members)) :
    Json.depthOfMembers members < Json.depthOfMembers obj := by
  rw [CMjson.findMember] at h
  split at h
  · next member hfind =>
      have hmem : (member.1, Json.object members) ∈ obj := by
        rw [← Except.ok.inj h]
        exact List.mem_of_find?_eq_some hfind
      have hle := Json.depth_le_of_mem hmem
      rwa [Json.depth] at hle
  · cases h

/-- `AppType`, without the value of an application that is not yet defined. -/
inductive AppType
  | single
  | multiple
  deriving DecidableEq, Repr

/-- `Sproperties`. -/
structure Sproperties where
  type : Bytes
  name : Bytes
  where_ : Bytes

/-- What a `CAliasTrans` adds to the alias. -/
structure CAliasTrans where
  ip : Bytes
  mask : Nat
  portNum : Nat

/-- What a `CAliasService` adds to the alias. -/
structure CAliasService where
  svcId : Nat
  instId : Nat
  mmReqResp : PartialMap Bytes Nat
  mmReqNoresp : PartialMap Bytes Nat
  mmPubSub : PartialMap Bytes (Nat × Nat)

/-- The class of a provider alias. -/
inductive PvdData
  | trans (data : CAliasTrans)
  | service (data : CAliasService)

/-- A reference to an application alias. -/
abbrev AppRef := Nat

/-- What an application has under a name. -/
inductive AliasNode
  | app (ref : AppRef)
  | pvd (ref : AliasRef)
  deriving DecidableEq, Repr

/-- `CAliasAPP`. -/
structure CAliasAPP where
  pathParent : Bytes
  name : Bytes
  type : AppType
  where_ : Bytes
  mmAlias : PartialMap Bytes AliasNode

namespace CAliasAPP

/-- `IAlias::path` of an application. -/
def path (app : CAliasAPP) : Bytes := IAliasPVD.makeFullPath app.pathParent app.name

/-- `CAliasAPP::convert`. -/
def convert (type : Bytes) : Outcome AppType := do
  assertThat (type ≠ [])
  if type = literal "single" then return .single
  else if type = literal "multi" then return .multiple
  else throwThat .exception

end CAliasAPP

/-- `IAliasPVD::convert` of a name. -/
def IAliasPVD.convert (pvdType : Bytes) :
    Outcome { type : ProviderType // IAliasPVD.Convertible type } := do
  assertThat (pvdType ≠ [])
  if pvdType = literal "udp" then return ⟨.transUDP, by decide⟩
  else if pvdType = literal "udp_uds" then return ⟨.transUdsUDP, by decide⟩
  else if pvdType = literal "tcp" then return ⟨.transTCP, by decide⟩
  else if pvdType = literal "tcp_uds" then return ⟨.transUdsTCP, by decide⟩
  else if pvdType = literal "vsomeip" then return ⟨.serviceVsomeip, by decide⟩
  else throwThat .exception

namespace CAliasTrans

/-- After `clear`. -/
def cleared : CAliasTrans := { ip := [], mask := 0, portNum := 0 }

/-- One turn of the loop of `make_pvd_trans`. -/
def setMember (trans : CAliasTrans) (member : Bytes × Json) : Outcome CAliasTrans := do
  let key := CMjson.getFirst member
  assertThat (key ≠ [])
  if key = literal "ip" then return { trans with ip := ← CMjson.getSecond member.2 }
  else if key = literal "port" then
    return { trans with portNum := ← CMjson.getSecondUint32 member.2 }
  else if key = literal "mask" then
    return { trans with mask := ← CMjson.getSecondUint32 member.2 }
  else throwThat .exception

end CAliasTrans

namespace CAliasService

/-- After `clear`. -/
def cleared : CAliasService :=
  { svcId := 0, instId := 0, mmReqResp := .empty, mmReqNoresp := .empty, mmPubSub := .empty }

/-- One turn of the loop of `make_pvd_service`. -/
def setMember (service : CAliasService) (member : Bytes × Json) : Outcome CAliasService := do
  let key := CMjson.getFirst member
  assertThat (key ≠ [])
  if key = literal "service-id" then
    return { service with svcId := ← CMjson.getSecondHex member.2 }
  else if key = literal "instance-id" then
    return { service with instId := ← CMjson.getSecondHex member.2 }
  else throwThat .exception

/-- `push_reqresp_id`. -/
def pushReqrespId (service : CAliasService) (name : Bytes) (id : Nat) :
    Outcome CAliasService :=
  if name = [] ∨ id = 0 ∨ service.mmReqResp name ≠ none then throwThat .exception
  else .ok { service with mmReqResp := service.mmReqResp.insert name id }

/-- `push_reqNOresp_id`. -/
def pushReqNOrespId (service : CAliasService) (name : Bytes) (id : Nat) :
    Outcome CAliasService :=
  if name = [] ∨ id = 0 ∨ service.mmReqNoresp name ≠ none then throwThat .exception
  else .ok { service with mmReqNoresp := service.mmReqNoresp.insert name id }

/-- `push_pubsub_id`. -/
def pushPubsubId (service : CAliasService) (name : Bytes) (id grpId : Nat) :
    Outcome CAliasService :=
  if name = [] ∨ id = 0 ∨ grpId = 0 ∨ service.mmPubSub name ≠ none then throwThat .exception
  else .ok { service with mmPubSub := service.mmPubSub.insert name (id, grpId) }

/-- One turn of the loop of `lamda_parsing_functions`. -/
def parseFunction (cbSubRoutine : CAliasService → Bytes → CMjson → Outcome CAliasService)
    (service : CAliasService) (member : Bytes × Json) : Outcome CAliasService := do
  let subObj ← CMjson.getSecondObject member.2
  if CMjson.getFirst member = [] then throwThat .exception
  else cbSubRoutine service (CMjson.getFirst member) subObj

/-- `lamda_parsing_functions`. -/
def parsingFunctions (obj : CMjson) (funcKey : Bytes)
    (cbSubRoutine : CAliasService → Bytes → CMjson → Outcome CAliasService)
    (service : CAliasService) : Outcome CAliasService := do
  let value ← obj.getMemberObject funcKey
  value.foldlM (parseFunction cbSubRoutine) service

/-- `set_pvd_service_with_function`. -/
def setPvdServiceWithFunction (service : CAliasService) (obj : CMjson) :
    Outcome CAliasService := do
  let service ← parsingFunctions obj (literal "reqresp") (fun service name subObj => do
    service.pushReqrespId name (← subObj.getMemberHex (literal "id"))) service
  let service ← parsingFunctions obj (literal "req_noresp") (fun service name subObj => do
    service.pushReqNOrespId name (← subObj.getMemberHex (literal "id"))) service
  parsingFunctions obj (literal "pubsub") (fun service name subObj => do
    let id ← subObj.getMemberHex (literal "id")
    service.pushPubsubId name id (← subObj.getMemberHex (literal "grp-id"))) service

end CAliasService

/-- The alias manager while it loads a document, and the objects that it makes. -/
structure AliasTree where
  config : CConfigAliases
  heap : AliasHeap
  pvdData : AliasRef → PvdData
  apps : AppRef → CAliasAPP
  nextApp : AppRef
  mmRscs : PartialMap Bytes (AppRef × AppRef)

namespace AliasTree

/-- `make_shared` of a provider alias. -/
def makePvd (s : AliasTree) (pvd : IAliasPVD) (data : PvdData) : AliasTree :=
  { s with
    heap := s.heap.make pvd
    pvdData := Function.update s.pvdData s.heap.nextRef data }

/-- `make_shared` of an application alias. -/
def makeApp (s : AliasTree) (app : CAliasAPP) : AliasTree :=
  { s with apps := Function.update s.apps s.nextApp app, nextApp := s.nextApp + 1 }

/-- `CAliasAPP::set`, which leaves a name that is taken as it is. -/
def setAlias (s : AliasTree) (app : AppRef) (alias_ : Bytes) (context : AliasNode) :
    Outcome AliasTree :=
  if alias_ = [] then throwThat .exception
  else if (s.apps app).mmAlias alias_ ≠ none then .ok s
  else .ok { s with
    apps := Function.update s.apps app
      { s.apps app with mmAlias := (s.apps app).mmAlias.insert alias_ context } }

/-- `make_pvd_alias`, with `make_pvd_trans` and `make_pvd_service`: the type and the class of the
provider. -/
def makePvdAlias (alias_ : Bytes) (obj : CMjson) :
    Outcome ({ type : ProviderType // IAliasPVD.Convertible type } × PvdData) := do
  assertThat (alias_ ≠ [])
  let pvdType ← obj.getMember (literal "provider-type")
  let addr ← obj.getMemberObject (literal "address")
  if pvdType = literal "udp" ∨ pvdType = literal "udp_uds" ∨ pvdType = literal "tcp" ∨
      pvdType = literal "tcp_uds" then
    let type ← IAliasPVD.convert pvdType
    let trans ← addr.foldlM CAliasTrans.setMember .cleared
    return (type, .trans trans)
  else if pvdType = literal "vsomeip" then
    let type ← IAliasPVD.convert pvdType
    let service ← addr.foldlM CAliasService.setMember .cleared
    let functions ← obj.getMemberObject (literal "functions")
    let service ← service.setPvdServiceWithFunction functions
    return (type, .service service)
  else throwThat .exception

/-- `append_pvd_alias`. -/
def appendPvdAlias (app : AppRef) (s : AliasTree) (member : Bytes × Json) :
    Outcome AliasTree := do
  let pvdAlias := CMjson.getFirst member
  let obj ← CMjson.getSecondObject member.2
  if pvdAlias = [] then throwThat .exception
  else
    let (pvdType, data) ← makePvdAlias pvdAlias obj
    let context := s.heap.nextRef
    let s := s.makePvd
      { pathParent := (s.apps app).path, name := pvdAlias, type := pvdType.1,
        convertible := pvdType.2 } data
    let s ← s.setAlias app pvdAlias (.pvd context)
    return { s with
      config := s.config.appendPvdContext s.heap (s.apps app).path pvdType.1 context }

/-- `get_property`. -/
def getProperty (obj : CMjson) : Outcome Sproperties := do
  let sub ← obj.getMemberObject (literal "properties")
  let type ← sub.getMember (literal "type")
  let name ← sub.getMember (literal "name")
  let where_ ← sub.getMember (literal "where")
  if type = literal "single" ∧ where_ = [] then throwThat .exception
  else if type = literal "multi" ∧ name = [] then throwThat .exception
  else return { type := type, name := name, where_ := where_ }

/-- One turn of the loop of `make_app_alias` over the applications of `app`. Only the one that
`properties/name` names gets hold of `self_`. -/
def appendSubApp
    (make : AliasTree → Bytes → CMjson → Option AppRef →
      Outcome (AppRef × Option AppRef × AliasTree))
    (app : AppRef) (propertyName : Bytes) (acc : Option AppRef × AliasTree)
    (member : Bytes × Json) : Outcome (Option AppRef × AliasTree) := do
  let (self_, s) := acc
  let name := CMjson.getFirst member
  let obj ← CMjson.getSecondObject member.2
  if propertyName = name then
    let (subApp, self_, s) ← make s name obj self_
    return (self_, ← s.setAlias app name (.app subApp))
  else
    let (subApp, _, s) ← make s name obj none
    return (self_, ← s.setAlias app name (.app subApp))

/-- `make_app_alias`: the application, what `self_` is on return, and the tree. The recursion
follows the nesting of the document, whose depth is the first argument. -/
def makeAppAlias : (depth : Nat) → (s : AliasTree) → (name : Bytes) → (obj : CMjson) →
    (self_ : Option AppRef) → (parent : Option AppRef) →
    Outcome (AppRef × Option AppRef × AliasTree)
  | 0, _, _, _, _, _ => .error .undefined
  | depth + 1, s, name, obj, self_, parent => do
      if name = [] then throwThat .exception
      else
        let property ← getProperty obj
        let type ← CAliasAPP.convert property.type
        let app := s.nextApp
        let made : CAliasAPP :=
          { pathParent := (parent.map fun ref => (s.apps ref).path).getD []
            name := name, type := type, where_ := [], mmAlias := .empty }
        match type with
        | .single =>
            let s := s.makeApp { made with where_ := property.where_ }
            let pvds ← obj.getMemberObject (literal "svc-pvd")
            let s ← pvds.foldlM (appendPvdAlias app) s
            return (app, some app, s)
        | .multiple =>
            let s := s.makeApp made
            let apps ← obj.getMemberObject (literal "app")
            let (self_, s) ← apps.foldlM (appendSubApp
              (fun s name obj self_ => makeAppAlias depth s name obj self_ (some app))
              app property.name) (self_, s)
            return (app, self_, s)

/-- `append_rsc_alias`. -/
def appendRscAlias (depth : Nat) (s : AliasTree) (member : Bytes × Json) : Outcome AliasTree := do
  let rscName := CMjson.getFirst member
  let obj ← CMjson.getSecondObject member.2
  if rscName = [] then throwThat .exception
  else
    let (app, selfApp, s) ← makeAppAlias depth s rscName obj none none
    match selfApp with
    | none => .error .assertion
    | some selfApp => return { s with mmRscs := s.mmRscs.insert rscName (app, selfApp) }

/-- `CConfigAliases::init` with a parsed document. -/
def init (s : AliasTree) (document : Json) : Outcome AliasTree := do
  let root ← CMjson.getSecondObject document
  let resources ← root.getMemberObject (literal "aliases")
  resources.foldlM (appendRscAlias document.depth) s

/-- A manager without aliases, beside the alias objects of others. -/
def empty (heap : AliasHeap) : AliasTree :=
  { config := .empty
    heap := heap
    pvdData := fun _ => .trans .cleared
    apps := fun _ =>
      { pathParent := [], name := [], type := .single, where_ := [], mmAlias := .empty }
    nextApp := 0
    mmRscs := .empty }

/-- The constructor of `CConfigAliases`; there is no document for a null path. -/
def construct (heap : AliasHeap) : (document : Option Json) → Outcome AliasTree
  | none => .ok (empty heap)
  | some document => (empty heap).init document

/-! ## Every provider that a load makes is listed -/

variable {s s' : AliasTree} {first : AliasRef}

/-- The lists hold the providers made since `first` was the next reference. -/
def Listed (first : AliasRef) (s : AliasTree) : Prop :=
  first ≤ s.heap.nextRef ∧
    s.config.Holds s.heap (List.range' first (s.heap.nextRef - first))

theorem listed_empty (heap : AliasHeap) : (empty heap).Listed heap.nextRef := by
  refine ⟨Nat.le_refl _, ?_⟩
  rw [empty, Nat.sub_self]
  exact .empty heap

/-- `CAliasAPP::set` changes no more than the names under the application. -/
theorem setAlias_ok {app : AppRef} {alias_ : Bytes} {context : AliasNode}
    (h : s.setAlias app alias_ context = .ok s') :
    s'.config = s.config ∧ s'.heap = s.heap ∧ s'.pvdData = s.pvdData ∧ s'.mmRscs = s.mmRscs ∧
      s'.nextApp = s.nextApp ∧ (∀ ref, ref ≠ app → s'.apps ref = s.apps ref) ∧
      s'.apps app = { s.apps app with mmAlias := (s'.apps app).mmAlias } ∧
      ((s.apps app).mmAlias alias_ = none →
        (s'.apps app).mmAlias = (s.apps app).mmAlias.insert alias_ context) := by
  rw [setAlias] at h
  split at h
  · cases h
  · split at h
    · next htaken =>
        cases h
        exact ⟨rfl, rfl, rfl, rfl, rfl, fun _ _ => rfl, rfl, fun hfree => absurd hfree htaken⟩
    · cases h
      refine ⟨rfl, rfl, rfl, rfl, rfl, fun ref hne => Function.update_of_ne hne .., ?_, ?_⟩
      · simp only [Function.update_self]
      · simp only [Function.update_self, implies_true]

/-- `append_pvd_alias` makes one provider of the application and lists it. -/
theorem appendPvdAlias_ok {app : AppRef} {member : Bytes × Json}
    (h : appendPvdAlias app s member = .ok s') :
    ∃ pvd : IAliasPVD, pvd.pathParent = (s.apps app).path ∧ s'.heap = s.heap.make pvd ∧
      s'.config = s.config.appendPvdContext s'.heap pvd.pathParent pvd.type s.heap.nextRef := by
  obtain ⟨obj, -, h⟩ := bind_eq_ok.mp h
  split at h
  · cases h
  · obtain ⟨⟨pvdType, data⟩, -, h⟩ := bind_eq_ok.mp h
    obtain ⟨t, ht, h⟩ := bind_eq_ok.mp h
    obtain ⟨hconfig, hheap, -, -, -, -, happ, -⟩ := setAlias_ok ht
    cases h
    refine ⟨_, rfl, hheap, ?_⟩
    dsimp only
    rw [hconfig, happ]
    rfl

theorem Listed.appendPvdAlias {app : AppRef} {member : Bytes × Json} (h : s.Listed first)
    (hstep : appendPvdAlias app s member = .ok s') : s'.Listed first := by
  obtain ⟨pvd, -, hheap, hconfig⟩ := appendPvdAlias_ok hstep
  have hfirst := h.1
  have hmade : s'.heap.objects s.heap.nextRef = pvd := by
    rw [hheap, AliasHeap.make_objects_nextRef]
  have hnext : s'.heap.nextRef = s.heap.nextRef + 1 := by
    rw [hheap]
    rfl
  have hold : s.config.Holds s'.heap (List.range' first (s.heap.nextRef - first)) := by
    apply h.2.congr
    intro ref hmem
    have hlt := (List.mem_range'_1.mp hmem).2
    rw [Nat.add_sub_cancel' hfirst] at hlt
    rw [hheap, AliasHeap.make_objects_of_lt pvd hlt]
  refine ⟨hnext ▸ Nat.le_succ_of_le hfirst, ?_⟩
  rw [hnext, Nat.succ_sub hfirst, List.range'_1_concat, Nat.add_sub_cancel' hfirst, hconfig,
    ← hmade]
  exact hold.appendPvdContext s.heap.nextRef

theorem Listed.setAlias {app : AppRef} {alias_ : Bytes} {context : AliasNode}
    (h : s.Listed first) (hstep : s.setAlias app alias_ context = .ok s') : s'.Listed first := by
  obtain ⟨hconfig, hheap, -⟩ := setAlias_ok hstep
  rw [Listed, hconfig, hheap]
  exact h

theorem Listed.appendSubApp
    {make : AliasTree → Bytes → CMjson → Option AppRef →
      Outcome (AppRef × Option AppRef × AliasTree)}
    (hmake : ∀ {s name obj self_ sub self_' s'}, s.Listed first →
      make s name obj self_ = .ok (sub, self_', s') → s'.Listed first)
    {app : AppRef} {propertyName : Bytes} {acc acc' : Option AppRef × AliasTree}
    {member : Bytes × Json} (h : acc.2.Listed first)
    (hstep : appendSubApp make app propertyName acc member = .ok acc') :
    acc'.2.Listed first := by
  obtain ⟨obj, -, hstep⟩ := bind_eq_ok.mp hstep
  split at hstep
  · obtain ⟨⟨sub, self_, t⟩, hmade, hstep⟩ := bind_eq_ok.mp hstep
    obtain ⟨t', hset, hstep⟩ := bind_eq_ok.mp hstep
    cases hstep
    exact (hmake h hmade).setAlias hset
  · obtain ⟨⟨sub, self_, t⟩, hmade, hstep⟩ := bind_eq_ok.mp hstep
    obtain ⟨t', hset, hstep⟩ := bind_eq_ok.mp hstep
    cases hstep
    exact (hmake h hmade).setAlias hset

theorem Listed.makeAppAlias {depth : Nat} {name : Bytes} {obj : CMjson}
    {self_ self_' parent : Option AppRef} {app : AppRef} (h : s.Listed first)
    (hmade : makeAppAlias depth s name obj self_ parent = .ok (app, self_', s')) :
    s'.Listed first := by
  induction depth generalizing s name obj self_ self_' parent app s' with
  | zero => cases hmade
  | succ depth ih =>
      rw [AliasTree.makeAppAlias] at hmade
      split at hmade
      · cases hmade
      · obtain ⟨property, -, hmade⟩ := bind_eq_ok.mp hmade
        obtain ⟨type, -, hmade⟩ := bind_eq_ok.mp hmade
        split at hmade
        · obtain ⟨pvds, -, hmade⟩ := bind_eq_ok.mp hmade
          obtain ⟨t, hloop, hmade⟩ := bind_eq_ok.mp hmade
          cases hmade
          exact foldlM_keeps (P := Listed first) (fun _ _ _ hs hstep => hs.appendPvdAlias hstep)
            (show (s.makeApp _).Listed first from h) hloop
        · obtain ⟨apps, -, hmade⟩ := bind_eq_ok.mp hmade
          obtain ⟨acc, hloop, hmade⟩ := bind_eq_ok.mp hmade
          cases hmade
          exact foldlM_keeps (P := fun acc => acc.2.Listed first)
            (fun _ _ _ hs hstep => hs.appendSubApp (fun hs hmade => ih hs hmade) hstep) h hloop

theorem Listed.appendRscAlias {depth : Nat} {member : Bytes × Json} (h : s.Listed first)
    (hstep : appendRscAlias depth s member = .ok s') : s'.Listed first := by
  obtain ⟨obj, -, hstep⟩ := bind_eq_ok.mp hstep
  split at hstep
  · cases hstep
  · obtain ⟨⟨app, self_, t⟩, hmade, hstep⟩ := bind_eq_ok.mp hstep
    cases self_ with
    | none => cases hstep
    | some self_ =>
        cases hstep
        have ht : t.Listed first := h.makeAppAlias hmade
        exact ht

/-- After any load, the lists hold the providers that it made. -/
theorem listed_of_construct {heap : AliasHeap} {document : Option Json}
    (h : construct heap document = .ok s) : s.Listed heap.nextRef := by
  cases document with
  | none =>
      cases h
      exact listed_empty heap
  | some document =>
      obtain ⟨root, -, h⟩ := bind_eq_ok.mp h
      obtain ⟨resources, -, h⟩ := bind_eq_ok.mp h
      exact foldlM_keeps (fun _ _ _ hs hstep => hs.appendRscAlias hstep) (listed_empty heap) h

end AliasTree

end CommonCommunicator
