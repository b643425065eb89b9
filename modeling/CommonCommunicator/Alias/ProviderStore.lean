import CommonCommunicator.Alias.AliasTree

/-!
# The provider registry as a store

Providers register aliases beside those that a document lists. The lists of
the manager then hold the first alias of each application, name and type, in
the order of the first registrations.
-/

namespace CommonCommunicator

open Lib

namespace CConfigAliases

/-- A run that registers aliases after a load: the manager, the alias objects and all aliases that
were registered, in that order. Between two calls, aliases that are not registered may be made or
renamed. -/
inductive Registrations : (config : CConfigAliases) → (heap : AliasHeap) →
    (refs : List AliasRef) → Prop
  | loaded {heap : AliasHeap} {document : Option Json} {s : AliasTree}
      (hload : AliasTree.construct heap document = .ok s) :
      Registrations s.config s.heap
        (List.range' heap.nextRef (s.heap.nextRef - heap.nextRef))
  | elsewhere {config : CConfigAliases} {heap heap' : AliasHeap} {refs : List AliasRef}
      (hrun : Registrations config heap refs)
      (hsame : ∀ ref ∈ refs, heap'.objects ref = heap.objects ref) :
      Registrations config heap' refs
  | regist {config config' : CConfigAliases} {heap : AliasHeap} {refs : List AliasRef}
      {context : AliasRef} (hrun : Registrations config heap refs)
      (hcall : config.registProvider heap context = .ok config') :
      Registrations config' heap (refs ++ [context])

variable {config : CConfigAliases} {heap : AliasHeap} {refs : List AliasRef}

theorem Registrations.holds (h : Registrations config heap refs) : config.Holds heap refs := by
  induction h with
  | loaded hload => exact (AliasTree.listed_of_construct hload).2
  | elsewhere hrun hsame ih => exact ih.congr hsame
  | regist hrun hcall ih =>
      rw [registProvider_eq] at hcall
      cases hcall
      exact ih.appendPvdContext _

/-- The alias of this name and type that was registered first. -/
def firstRegistered (heap : AliasHeap) (refs : List AliasRef) (appPath name : Bytes)
    (pvdType : ProviderType) : Option AliasRef :=
  refs.find? fun ref => (heap.objects ref).type = pvdType ∧ nameOf heap ref = (appPath, name)

theorem Holds.getProvider (h : config.Holds heap refs) (appPath name : Bytes)
    {pvdType : ProviderType} (htype : IAliasPVD.Convertible pvdType) :
    config.getProvider heap appPath name pvdType =
      .ok (firstRegistered heap refs appPath name pvdType) := by
  rw [getProvider_eq config heap appPath name htype, h.listing_find?, firstRegistered]

/-- The first alias of a name is listed, and no other of that name is. -/
theorem Holds.firstRegistered_mem (h : config.Holds heap refs) {appPath name : Bytes}
    {pvdType : ProviderType} {first : AliasRef}
    (hfirst : firstRegistered heap refs appPath name pvdType = some first) :
    first ∈ config.mmPvds pvdType ∧ ∀ ref ∈ config.mmPvds pvdType,
      nameOf heap ref = (appPath, name) → ref = first := by
  have hfound : (config.mmPvds pvdType).find? (fun ref => nameOf heap ref = (appPath, name)) =
      some first := by
    rw [h.pvds, find?_firsts, List.find?_filter, ← hfirst, firstRegistered]
    simp only [Bool.decide_and, decide_eq_true_eq]
  have hmem := List.mem_of_find?_eq_some hfound
  have hname : nameOf heap first = (appPath, name) := by
    simpa using List.find?_some hfound
  have hnodup : ((config.mmPvds pvdType).map (nameOf heap)).Nodup := by
    rw [h.pvds]
    exact nodup_map_firsts _
  exact ⟨hmem, fun ref href hsame =>
    List.inj_on_of_nodup_map hnodup href hmem (hsame.trans hname.symm)⟩

/-- After any run, the lists of a type hold the first alias of each name in the order in which the
names first came, the lists of an application are what they hold of it, lookups find these aliases,
and a name that was registered before changes nothing. -/
theorem registrations_store (h : Registrations config heap refs) :
    (∀ pvdType, config.mmPvds pvdType =
      firsts (nameOf heap) (refs.filter fun ref => (heap.objects ref).type = pvdType)) ∧
    (∀ appPath pvdType, config.listing appPath pvdType =
      (config.mmPvds pvdType).filter fun ref => (heap.objects ref).pathParent = appPath) ∧
    (∀ ref ∈ refs, ∃ first,
      firstRegistered heap refs (heap.objects ref).pathParent (heap.objects ref).name
          (heap.objects ref).type = some first ∧
        config.getProvider heap (heap.objects ref).pathParent (heap.objects ref).name
          (heap.objects ref).type = .ok (some first) ∧
        first ∈ config.mmPvds (heap.objects ref).type ∧
        ∀ other ∈ config.mmPvds (heap.objects ref).type,
          nameOf heap other = nameOf heap ref → other = first) ∧
    (∀ context, ∃ config', config.registProvider heap context = .ok config' ∧
      ((∃ ref ∈ refs, (heap.objects ref).type = (heap.objects context).type ∧
        nameOf heap ref = nameOf heap context) → config' = config)) := by
  have hholds := h.holds
  refine ⟨hholds.pvds, hholds.listed, ?_, ?_⟩
  · intro ref hmem
    have hfound : (firstRegistered heap refs (heap.objects ref).pathParent
        (heap.objects ref).name (heap.objects ref).type).isSome := by
      rw [firstRegistered, List.find?_isSome]
      exact ⟨ref, hmem, by simp [nameOf]⟩
    obtain ⟨first, hfirst⟩ := Option.isSome_iff_exists.mp hfound
    refine ⟨first, hfirst, ?_, hholds.firstRegistered_mem hfirst⟩
    rw [hholds.getProvider _ _ (heap.objects ref).convertible, hfirst]
  · intro context
    refine ⟨_, registProvider_eq config heap context, ?_⟩
    intro hold
    have hagain := hholds.registProvider_again hold
    rw [registProvider_eq] at hagain
    exact Except.ok.inj hagain

/-- Two aliases of one name and one of an application without a path. -/
def namesakes : AliasHeap :=
  { objects := fun ref =>
      if ref = 2 then ⟨[], [0x61, 0x2F, 0x62], .transUDP, IAliasPVD.convertible_transUDP⟩
      else ⟨[0x61], [0x62], .transUDP, IAliasPVD.convertible_transUDP⟩
    nextRef := 3 }

/-- The aliases `a` + `b` and `a/b` share a full path and are both kept, the namesake is not. -/
theorem namesakes_store :
    ∃ config, Registrations config namesakes [0, 1, 2] ∧
      config.mmPvds .transUDP = [0, 2] ∧
      config.getProvider namesakes [0x61] [0x62] .transUDP = .ok (some 0) := by
  have hload : Registrations CConfigAliases.empty namesakes [] :=
    .loaded (s := AliasTree.empty namesakes)
      (show AliasTree.construct namesakes none = .ok (AliasTree.empty namesakes) from rfl)
  have hrun := ((hload.regist (registProvider_eq _ namesakes 0)).regist
    (registProvider_eq _ namesakes 1)).regist (registProvider_eq _ namesakes 2)
  obtain ⟨hpvds, -, hfound, -⟩ := registrations_store hrun
  refine ⟨_, hrun, ?_, ?_⟩
  · rw [hpvds]
    decide
  · obtain ⟨first, hfirst, hget, -⟩ := hfound 0 (by decide)
    have hzero : firstRegistered namesakes [0, 1, 2] [0x61] [0x62] .transUDP = some 0 := by decide
    obtain rfl : 0 = first := Option.some.inj (hzero.symm.trans hfirst)
    exact hget

end CConfigAliases

end CommonCommunicator
