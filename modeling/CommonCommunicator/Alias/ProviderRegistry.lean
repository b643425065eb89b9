import CommonCommunicator.Alias.ConfigAliases
import CommonCommunicator.Lib.FirstByKey

/-!
# The registry of provider aliases

`CConfigAliases` keeps the provider aliases twice: by type, and by application
and type. Both lists grow in `append_pvd_context` only, whose duplicate test
looks into the list of the application. Read as a store, the lists hold the
first alias of each name that was registered.
-/

namespace CommonCommunicator

open Lib

namespace IAliasPVD

/-- A full path has one name behind the path of a given application. -/
theorem makeFullPath_inj {appPath name name' : Bytes} :
    makeFullPath appPath name = makeFullPath appPath name' ↔ name = name' := by
  rw [makeFullPath, makeFullPath]
  split
  · rw [List.append_cancel_left_eq, List.cons_inj_right]
  · exact Iff.rfl

end IAliasPVD

namespace CConfigAliases

/-- `_ma_pvd_types_`. -/
def maPvdTypes : List ProviderType :=
  [.transUDP, .transUdsUDP, .transTCP, .transUdsTCP, .serviceVsomeip]

/-- `get_providers` for an application and a type. The `CException` for an application without
lists is `none`. -/
def getProviders (config : CConfigAliases) (appPath : Bytes) (pvdType : ProviderType) :
    Outcome (Option (List AliasRef)) :=
  if IAliasPVD.Convertible pvdType then
    .ok ((config.mmPvdsMap appPath).map fun lists => lists pvdType)
  else throwThat .outOfRange

/-- `get_provider` for an application, a name and a type, which catches the `CException`. -/
def getProvider (config : CConfigAliases) (heap : AliasHeap) (appPath pvdId : Bytes)
    (pvdType : ProviderType) : Outcome (Option AliasRef) := do
  match ← config.getProviders appPath pvdType with
  | none => return none
  | some pvdsList => return pvdsList.find? fun ref => (heap.objects ref).name = pvdId

/-- The loop of `get_provider` over the types. -/
def getProviderLoop (config : CConfigAliases) (heap : AliasHeap) (appPath pvdId : Bytes) :
    (types : List ProviderType) → Outcome (Option AliasRef)
  | [] => .ok none
  | pvdType :: types => do
      match ← config.getProvider heap appPath pvdId pvdType with
      | some ref => return some ref
      | none => config.getProviderLoop heap appPath pvdId types

/-- `get_provider` for an application and a name. -/
def getProviderOfApp (config : CConfigAliases) (heap : AliasHeap) (appPath pvdId : Bytes) :
    Outcome (Option AliasRef) :=
  config.getProviderLoop heap appPath pvdId maPvdTypes

theorem convertible_of_mem_maPvdTypes {pvdType : ProviderType} (h : pvdType ∈ maPvdTypes) :
    IAliasPVD.Convertible pvdType := by
  revert pvdType
  decide

theorem mem_maPvdTypes {pvdType : ProviderType} (h : IAliasPVD.Convertible pvdType) :
    pvdType ∈ maPvdTypes := by
  cases pvdType with
  | notDefine => exact absurd rfl h.1
  | rscIotivity => exact absurd rfl h.2
  | _ => decide

/-- `get_provider` of a type searches the list of the application. -/
theorem getProvider_eq (config : CConfigAliases) (heap : AliasHeap) (appPath pvdId : Bytes)
    {pvdType : ProviderType} (h : IAliasPVD.Convertible pvdType) :
    config.getProvider heap appPath pvdId pvdType =
      .ok ((config.listing appPath pvdType).find? fun ref =>
        (heap.objects ref).name = pvdId) := by
  rw [getProvider, getProviders, if_pos h, listing]
  cases config.mmPvdsMap appPath with
  | none => rfl
  | some lists => rfl

theorem getProviderLoop_eq (config : CConfigAliases) (heap : AliasHeap) (appPath pvdId : Bytes)
    {types : List ProviderType} (h : ∀ pvdType ∈ types, IAliasPVD.Convertible pvdType) :
    config.getProviderLoop heap appPath pvdId types =
      .ok (types.findSome? fun pvdType => (config.listing appPath pvdType).find? fun ref =>
        (heap.objects ref).name = pvdId) := by
  induction types with
  | nil => rfl
  | cons pvdType types ih =>
      rw [getProviderLoop, getProvider_eq config heap appPath pvdId (h pvdType (by simp)), ok_bind,
        List.findSome?_cons]
      cases (config.listing appPath pvdType).find? fun ref => (heap.objects ref).name = pvdId with
      | none => exact ih fun t ht => h t (List.mem_cons_of_mem _ ht)
      | some ref => rfl

/-- `get_provider` searches the lists of the application, one type after the other. -/
theorem getProviderOfApp_eq (config : CConfigAliases) (heap : AliasHeap) (appPath pvdId : Bytes) :
    config.getProviderOfApp heap appPath pvdId =
      .ok (maPvdTypes.findSome? fun pvdType => (config.listing appPath pvdType).find? fun ref =>
        (heap.objects ref).name = pvdId) :=
  config.getProviderLoop_eq heap appPath pvdId fun _ => convertible_of_mem_maPvdTypes

/-! ## What one registration does -/

/-- The application and the name of an alias object. -/
def nameOf (heap : AliasHeap) (ref : AliasRef) : Bytes × Bytes :=
  ((heap.objects ref).pathParent, (heap.objects ref).name)

/-- The lists hold the first of `refs` of each name: by type, and of these the application's. -/
structure Holds (config : CConfigAliases) (heap : AliasHeap) (refs : List AliasRef) : Prop where
  pvds : ∀ pvdType, config.mmPvds pvdType =
    firsts (nameOf heap) (refs.filter fun ref => (heap.objects ref).type = pvdType)
  listed : ∀ appPath pvdType, config.listing appPath pvdType =
    (config.mmPvds pvdType).filter fun ref => (heap.objects ref).pathParent = appPath

namespace Holds

variable {config : CConfigAliases} {heap heap' : AliasHeap} {refs : List AliasRef}

theorem empty (heap : AliasHeap) : CConfigAliases.empty.Holds heap [] :=
  ⟨fun _ => rfl, fun _ _ => rfl⟩

theorem mem_listing (h : config.Holds heap refs) {appPath : Bytes} {pvdType : ProviderType}
    {ref : AliasRef} : ref ∈ config.listing appPath pvdType ↔
      ref ∈ config.mmPvds pvdType ∧ (heap.objects ref).pathParent = appPath := by
  rw [h.listed, List.mem_filter, decide_eq_true_iff]

/-- A name is listed if an alias of it was registered. -/
theorem mem_names (h : config.Holds heap refs) {pvdType : ProviderType} {k : Bytes × Bytes} :
    k ∈ (config.mmPvds pvdType).map (nameOf heap) ↔
      ∃ ref ∈ refs, (heap.objects ref).type = pvdType ∧ nameOf heap ref = k := by
  rw [h.pvds, mem_map_firsts]
  simp [and_assoc]

/-- The duplicate test of `append_pvd_context` compares names, since all that it looks at are of
one application. -/
theorem listed_iff (h : config.Holds heap refs) (context : AliasRef) (pvdType : ProviderType) :
    (∃ ref ∈ config.listing (heap.objects context).pathParent pvdType,
        heap.path ref = heap.path context) ↔
      nameOf heap context ∈ (config.mmPvds pvdType).map (nameOf heap) := by
  rw [List.mem_map]
  constructor
  · rintro ⟨ref, hmem, hpath⟩
    obtain ⟨hpvds, happ⟩ := h.mem_listing.mp hmem
    rw [AliasHeap.path, AliasHeap.path, IAliasPVD.path, IAliasPVD.path, happ,
      IAliasPVD.makeFullPath_inj] at hpath
    exact ⟨ref, hpvds, Prod.ext happ hpath⟩
  · rintro ⟨ref, hpvds, hname⟩
    obtain ⟨happ, hname⟩ := Prod.mk.inj hname
    refine ⟨ref, h.mem_listing.mpr ⟨hpvds, happ⟩, ?_⟩
    rw [AliasHeap.path, AliasHeap.path, IAliasPVD.path, IAliasPVD.path, happ, hname]

/-- A registration adds its alias to what the lists hold. -/
theorem appendPvdContext (h : config.Holds heap refs) (context : AliasRef) :
    (config.appendPvdContext heap (heap.objects context).pathParent (heap.objects context).type
      context).Holds heap (refs ++ [context]) := by
  have hfirsts : ∀ pvdType,
      firsts (nameOf heap) ((refs ++ [context]).filter fun ref =>
          (heap.objects ref).type = pvdType) =
        if (heap.objects context).type = pvdType ∧
            nameOf heap context ∉ (config.mmPvds pvdType).map (nameOf heap)
        then config.mmPvds pvdType ++ [context] else config.mmPvds pvdType := by
    intro pvdType
    rw [List.filter_append, h.pvds pvdType]
    by_cases htype : (heap.objects context).type = pvdType
    · have hsame : nameOf heap context ∈ (firsts (nameOf heap) (refs.filter fun ref =>
            (heap.objects ref).type = pvdType)).map (nameOf heap) ↔
          nameOf heap context ∈ (refs.filter fun ref =>
            (heap.objects ref).type = pvdType).map (nameOf heap) := mem_map_firsts _
      rw [List.filter_singleton, decide_eq_true htype, cond_true, firsts_snoc]
      by_cases hlisted : nameOf heap context ∈
          (refs.filter fun ref => (heap.objects ref).type = pvdType).map (nameOf heap)
      · rw [if_pos hlisted, List.append_nil, if_neg fun hboth => hboth.2 (hsame.mpr hlisted)]
      · rw [if_neg hlisted, if_pos ⟨htype, fun hold => hlisted (hsame.mp hold)⟩]
    · rw [List.filter_singleton, decide_eq_false htype, cond_false, List.append_nil,
        if_neg fun hboth => htype hboth.1]
  by_cases hlisted : nameOf heap context ∈
      (config.mmPvds (heap.objects context).type).map (nameOf heap)
  · rw [appendPvdContext_of_listed ((h.listed_iff context _).mpr hlisted)]
    refine ⟨fun pvdType => ?_, h.listed⟩
    rw [hfirsts, if_neg]
    rintro ⟨rfl, hnew⟩
    exact hnew hlisted
  · have habsent : ∀ ref ∈ config.listing (heap.objects context).pathParent
        (heap.objects context).type, heap.path ref ≠ heap.path context :=
      fun ref hmem hpath => hlisted ((h.listed_iff context _).mp ⟨ref, hmem, hpath⟩)
    obtain ⟨hpvds, hlisting, -⟩ := appendPvdContext_of_absent habsent
    refine ⟨fun pvdType => ?_, fun appPath pvdType => ?_⟩
    · rw [hpvds, hfirsts]
      by_cases htype : (heap.objects context).type = pvdType
      · subst htype
        rw [Function.update_self, if_pos ⟨rfl, hlisted⟩]
      · rw [Function.update_of_ne (Ne.symm htype), if_neg fun hboth => htype hboth.1]
    · rw [hpvds, hlisting]
      by_cases htype : pvdType = (heap.objects context).type
      · subst htype
        rw [Function.update_self, List.filter_append, ← h.listed]
        by_cases happ : appPath = (heap.objects context).pathParent
        · subst happ
          rw [Function.update_self, Function.update_self, List.filter_singleton,
            decide_eq_true rfl, cond_true]
        · rw [Function.update_of_ne happ, List.filter_singleton,
            decide_eq_false (Ne.symm happ), cond_false, List.append_nil]
      · rw [Function.update_of_ne htype, ← h.listed]
        by_cases happ : appPath = (heap.objects context).pathParent
        · subst happ
          rw [Function.update_self, Function.update_of_ne htype]
        · rw [Function.update_of_ne happ]

/-- Only the objects of registered aliases matter. -/
theorem congr (h : config.Holds heap refs)
    (hsame : ∀ ref ∈ refs, heap'.objects ref = heap.objects ref) : config.Holds heap' refs := by
  have hpvds : ∀ pvdType, config.mmPvds pvdType =
      firsts (nameOf heap') (refs.filter fun ref => (heap'.objects ref).type = pvdType) := by
    intro pvdType
    have hfilter : (refs.filter fun ref => (heap'.objects ref).type = pvdType) =
        refs.filter fun ref => (heap.objects ref).type = pvdType := by
      apply List.filter_congr
      intro ref hmem
      rw [hsame ref hmem]
    rw [hfilter, h.pvds]
    apply firsts_congr
    intro ref hmem
    rw [nameOf, nameOf, hsame ref (List.mem_of_mem_filter hmem)]
  refine ⟨hpvds, fun appPath pvdType => ?_⟩
  rw [h.listed]
  apply List.filter_congr
  intro ref hmem
  rw [hpvds] at hmem
  rw [hsame ref (List.mem_of_mem_filter ((firsts_sublist _).subset hmem))]

/-- A lookup finds the first alias of the name that was registered. -/
theorem listing_find? (h : config.Holds heap refs) (appPath pvdId : Bytes)
    (pvdType : ProviderType) :
    ((config.listing appPath pvdType).find? fun ref => (heap.objects ref).name = pvdId) =
      refs.find? fun ref => (heap.objects ref).type = pvdType ∧
        nameOf heap ref = (appPath, pvdId) := by
  calc
    _ = (config.mmPvds pvdType).find? fun ref => nameOf heap ref = (appPath, pvdId) := by
      rw [h.listed, List.find?_filter]
      simp only [nameOf, Prod.mk.injEq, Bool.decide_and, decide_eq_true_eq]
    _ = _ := by
      rw [h.pvds, find?_firsts, List.find?_filter]
      simp only [Bool.decide_and, decide_eq_true_eq]

/-- Where every name is registered once, one type has it. -/
theorem getProviderOfApp (h : config.Holds heap refs)
    (hnodup : (refs.map (nameOf heap)).Nodup) (appPath pvdId : Bytes) :
    config.getProviderOfApp heap appPath pvdId =
      .ok (refs.find? fun ref => nameOf heap ref = (appPath, pvdId)) := by
  rw [getProviderOfApp_eq]
  simp only [h.listing_find?]
  cases hfind : refs.find? fun ref => nameOf heap ref = (appPath, pvdId) with
  | none =>
      have hnone := List.find?_eq_none.mp hfind
      have hall : ∀ pvdType ∈ maPvdTypes, (refs.find? fun ref =>
          (heap.objects ref).type = pvdType ∧ nameOf heap ref = (appPath, pvdId)) = none := by
        intro pvdType _
        rw [List.find?_eq_none]
        intro ref hmem hboth
        exact hnone ref hmem (by simpa using (of_decide_eq_true hboth).2)
      rw [List.findSome?_eq_none_iff.mpr hall]
  | some first =>
      have hmem := List.mem_of_find?_eq_some hfind
      have hname : nameOf heap first = (appPath, pvdId) := by simpa using List.find?_some hfind
      have hsome : (maPvdTypes.findSome? fun pvdType => refs.find? fun ref =>
          (heap.objects ref).type = pvdType ∧ nameOf heap ref = (appPath, pvdId)).isSome := by
        rw [List.findSome?_isSome_iff]
        refine ⟨(heap.objects first).type, mem_maPvdTypes (heap.objects first).convertible, ?_⟩
        rw [List.find?_isSome]
        exact ⟨first, hmem, by simp [hname]⟩
      obtain ⟨found, hfound⟩ := Option.isSome_iff_exists.mp hsome
      obtain ⟨pvdType, -, hof⟩ := List.exists_of_findSome?_eq_some hfound
      have hboth := List.find?_some hof
      have hsame : nameOf heap found = (appPath, pvdId) := (of_decide_eq_true hboth).2
      have heq := List.inj_on_of_nodup_map hnodup (List.mem_of_find?_eq_some hof) hmem
        (hsame.trans hname.symm)
      rw [hfound, heq]

/-- A name that was registered is not taken again. -/
theorem registProvider_again (h : config.Holds heap refs) {context : AliasRef}
    (hold : ∃ ref ∈ refs, (heap.objects ref).type = (heap.objects context).type ∧
      nameOf heap ref = nameOf heap context) :
    config.registProvider heap context = .ok config := by
  rw [registProvider_eq,
    appendPvdContext_of_listed ((h.listed_iff context _).mpr (h.mem_names.mpr hold))]

end Holds

end CConfigAliases

end CommonCommunicator
