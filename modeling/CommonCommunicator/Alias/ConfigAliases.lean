import CommonCommunicator.Alias.Alias
import CommonCommunicator.Lib.PartialMap

/-!
# CConfigAliases

The alias manager that the providers share: the provider aliases of every type,
the same aliases by application, and for each connected peer the own providers
that it is connected to.
-/

namespace CommonCommunicator

open Lib

/-- `CConfigAliases`, as far as the providers use it. -/
structure CConfigAliases where
  mmPvds : ProviderType → List AliasRef
  mmPvdsMap : PartialMap Bytes (ProviderType → List AliasRef)
  mmConnectedPeers : PartialMap Bytes (List AliasRef)

namespace CConfigAliases

/-- An alias manager without aliases. -/
def empty : CConfigAliases :=
  { mmPvds := fun _ => [], mmPvdsMap := .empty, mmConnectedPeers := .empty }

/-- Store `lists` for an application and provider type. -/
def setPvds (config : CConfigAliases) (appPath : Bytes) (lists : ProviderType → List AliasRef) :
    CConfigAliases := { config with mmPvdsMap := config.mmPvdsMap.insert appPath lists }

/-- `isthere_pvd_context`: the application has an alias of this type with the same path. -/
def istherePvdContext (config : CConfigAliases) (heap : AliasHeap) (appPath : Bytes)
    (pvdType : ProviderType) (context : AliasRef) : Bool :=
  match config.mmPvdsMap appPath with
  | none => false
  | some lists => (lists pvdType).any fun ref => heap.path ref = heap.path context

/-- `append_pvd_context`. -/
def appendPvdContext (config : CConfigAliases) (heap : AliasHeap) (appPath : Bytes)
    (pvdType : ProviderType) (context : AliasRef) : CConfigAliases :=
  let config := match config.mmPvdsMap appPath with
    | none => config.setPvds appPath fun _ => []
    | some _ => config
  if config.istherePvdContext heap appPath pvdType context then config
  else
    let lists := (config.mmPvdsMap appPath).getD fun _ => []
    { config.setPvds appPath
        (Function.update lists pvdType (lists pvdType ++ [context])) with
      mmPvds := Function.update config.mmPvds pvdType (config.mmPvds pvdType ++ [context]) }

/-- `regist_provider`. The exception of `convert` arrives as a `std::exception`. -/
def registProvider (config : CConfigAliases) (heap : AliasHeap) (context : AliasRef) :
    Outcome CConfigAliases :=
  let pvd := heap.objects context
  if IAliasPVD.Convertible pvd.type then
    .ok (config.appendPvdContext heap pvd.pathParent pvd.type context)
  else throwThat .exception

/-- `regist_connected_peer`: the peer's list gets `myPvd`, unless it has an alias of that path. -/
def registConnectedPeer (config : CConfigAliases) (heap : AliasHeap) (peerPvd myPvd : AliasRef) :
    Outcome (Bool × CConfigAliases) := do
  let config ← config.registProvider heap peerPvd
  let mine := (config.mmConnectedPeers (heap.path peerPvd)).getD []
  if mine.any fun ref => heap.path ref = heap.path myPvd then
    return (true, config)
  else
    return (true, { config with
      mmConnectedPeers := config.mmConnectedPeers.insert (heap.path peerPvd) (mine ++ [myPvd]) })

/-- `unregist_connected_peer`: the first alias of this path leaves the peer's list, and an empty
list leaves the map. -/
def unregistConnectedPeer (config : CConfigAliases) (heap : AliasHeap)
    (peerFullPath myPvdFullPath : Bytes) : Outcome CConfigAliases :=
  if peerFullPath = [] ∨ myPvdFullPath = [] then throwThat .exception
  else
    match config.mmConnectedPeers peerFullPath with
    | none => .ok config
    | some mine =>
        let mine := mine.eraseP fun ref => heap.path ref = myPvdFullPath
        .ok { config with
          mmConnectedPeers :=
            if mine = [] then config.mmConnectedPeers.erase peerFullPath
            else config.mmConnectedPeers.insert peerFullPath mine }

/-- The aliases of a type that are listed for an application. -/
def listing (config : CConfigAliases) (appPath : Bytes) (pvdType : ProviderType) :
    List AliasRef :=
  match config.mmPvdsMap appPath with
  | none => []
  | some lists => lists pvdType

theorem listing_of_map {config : CConfigAliases} {appPath : Bytes}
    {lists : ProviderType → List AliasRef} (h : config.mmPvdsMap appPath = some lists) :
    config.listing appPath = lists := by
  funext pvdType
  simp [listing, h]

theorem istherePvdContext_iff {config : CConfigAliases} {heap : AliasHeap} {appPath : Bytes}
    {pvdType : ProviderType} {context : AliasRef} :
    config.istherePvdContext heap appPath pvdType context = true ↔
      ∃ ref ∈ config.listing appPath pvdType, heap.path ref = heap.path context := by
  rw [istherePvdContext, listing]
  split <;> simp

/-- `append_pvd_context` does not take an alias whose path the application has. -/
theorem appendPvdContext_of_listed {config : CConfigAliases} {heap : AliasHeap} {appPath : Bytes}
    {pvdType : ProviderType} {context : AliasRef}
    (h : ∃ ref ∈ config.listing appPath pvdType, heap.path ref = heap.path context) :
    config.appendPvdContext heap appPath pvdType context = config := by
  have hthere := istherePvdContext_iff.mpr h
  cases hlists : config.mmPvdsMap appPath with
  | none =>
      obtain ⟨ref, hmem, -⟩ := h
      rw [listing, hlists] at hmem
      cases hmem
  | some lists => simp [appendPvdContext, hlists, hthere]

/-- `append_pvd_context` adds an alias of a new path to both lists. -/
theorem appendPvdContext_of_absent {config : CConfigAliases} {heap : AliasHeap} {appPath : Bytes}
    {pvdType : ProviderType} {context : AliasRef}
    (h : ∀ ref ∈ config.listing appPath pvdType, heap.path ref ≠ heap.path context) :
    (config.appendPvdContext heap appPath pvdType context).mmPvds =
        Function.update config.mmPvds pvdType (config.mmPvds pvdType ++ [context]) ∧
      (config.appendPvdContext heap appPath pvdType context).listing =
        Function.update config.listing appPath (Function.update (config.listing appPath) pvdType
          (config.listing appPath pvdType ++ [context])) ∧
      (config.appendPvdContext heap appPath pvdType context).mmConnectedPeers =
        config.mmConnectedPeers := by
  cases hlists : config.mmPvdsMap appPath with
  | none =>
      have hnil : config.listing appPath = fun _ => [] := by
        funext t
        simp [listing, hlists]
      refine ⟨?_, ?_, ?_⟩
      · simp [appendPvdContext, hlists, istherePvdContext, setPvds]
      · funext app t
        by_cases happ : app = appPath
        · subst happ
          simp only [Function.update_self, hnil]
          simp [appendPvdContext, hlists, istherePvdContext, setPvds, listing]
        · simp [appendPvdContext, hlists, istherePvdContext, setPvds, listing, happ]
      · simp [appendPvdContext, hlists, istherePvdContext, setPvds]
  | some lists =>
      have hmap := listing_of_map hlists
      have hthere : ¬ config.istherePvdContext heap appPath pvdType context = true := by
        rw [istherePvdContext_iff]
        rintro ⟨ref, hmem, heq⟩
        exact h ref hmem heq
      refine ⟨?_, ?_, ?_⟩
      · simp [appendPvdContext, hlists, hthere, setPvds]
      · funext app t
        by_cases happ : app = appPath
        · subst happ
          simp only [Function.update_self, hmap]
          simp [appendPvdContext, hlists, hthere, setPvds, listing]
        · simp [appendPvdContext, hlists, hthere, setPvds, listing, happ]
      · simp [appendPvdContext, hlists, hthere, setPvds]

/-- `append_pvd_context` adds an alias to both lists, unless one of its path is listed for the
application. -/
theorem appendPvdContext_cases (config : CConfigAliases) (heap : AliasHeap) (appPath : Bytes)
    (pvdType : ProviderType) (context : AliasRef) :
    (config.appendPvdContext heap appPath pvdType context).mmConnectedPeers =
        config.mmConnectedPeers ∧
      (config.appendPvdContext heap appPath pvdType context = config ∨
        (∀ ref ∈ config.listing appPath pvdType, heap.path ref ≠ heap.path context) ∧
        (config.appendPvdContext heap appPath pvdType context).mmPvds =
          Function.update config.mmPvds pvdType (config.mmPvds pvdType ++ [context]) ∧
        (config.appendPvdContext heap appPath pvdType context).listing =
          Function.update config.listing appPath (Function.update (config.listing appPath) pvdType
            (config.listing appPath pvdType ++ [context]))) := by
  by_cases hlisted : ∃ ref ∈ config.listing appPath pvdType, heap.path ref = heap.path context
  · have hsame := appendPvdContext_of_listed hlisted
    exact ⟨by rw [hsame], Or.inl hsame⟩
  · have habsent : ∀ ref ∈ config.listing appPath pvdType, heap.path ref ≠ heap.path context :=
      fun ref hmem heq => hlisted ⟨ref, hmem, heq⟩
    obtain ⟨hpvds, hlisting, hpeers⟩ := appendPvdContext_of_absent habsent
    exact ⟨hpeers, Or.inr ⟨habsent, hpvds, hlisting⟩⟩

/-- `regist_provider` does not throw. -/
theorem registProvider_eq (config : CConfigAliases) (heap : AliasHeap) (context : AliasRef) :
    config.registProvider heap context =
      .ok (config.appendPvdContext heap (heap.objects context).pathParent
        (heap.objects context).type context) := if_pos (heap.objects context).convertible

theorem registConnectedPeer_ok (config : CConfigAliases) (heap : AliasHeap)
    (peerPvd myPvd : AliasRef) :
    ∃ config', config.registConnectedPeer heap peerPvd myPvd = .ok (true, config') := by
  simp only [registConnectedPeer, registProvider_eq, ok_bind]
  split
  · exact ⟨_, rfl⟩
  · exact ⟨_, rfl⟩

/-- `regist_connected_peer` changes the list of its own peer only. -/
theorem registConnectedPeer_peers {config config' : CConfigAliases} {heap : AliasHeap}
    {peerPvd myPvd : AliasRef} {res : Bool} {path : Bytes}
    (h : config.registConnectedPeer heap peerPvd myPvd = .ok (res, config'))
    (hne : path ≠ heap.path peerPvd) :
    config'.mmConnectedPeers path = config.mmConnectedPeers path := by
  rw [registConnectedPeer, registProvider_eq, ok_bind] at h
  have hpeers := (appendPvdContext_cases config heap (heap.objects peerPvd).pathParent
    (heap.objects peerPvd).type peerPvd).1
  dsimp only at h
  split at h
  · cases h
    rw [hpeers]
  · cases h
    dsimp only
    rw [PartialMap.insert_of_ne _ hne, hpeers]

/-- `unregist_connected_peer` changes the list of its own peer only. -/
theorem unregistConnectedPeer_peers {config config' : CConfigAliases} {heap : AliasHeap}
    {peerFullPath myPvdFullPath path : Bytes}
    (h : config.unregistConnectedPeer heap peerFullPath myPvdFullPath = .ok config')
    (hne : path ≠ peerFullPath) :
    config'.mmConnectedPeers path = config.mmConnectedPeers path := by
  rw [unregistConnectedPeer] at h
  split at h
  · cases h
  · split at h
    · cases h
      rfl
    · cases h
      dsimp only
      split
      · rw [PartialMap.erase_of_ne hne]
      · rw [PartialMap.insert_of_ne _ hne]

/-- Every alias is listed under the parent path that it has now, and once. -/
structure Coherent (config : CConfigAliases) (heap : AliasHeap) : Prop where
  parent : ∀ appPath pvdType ref, ref ∈ config.listing appPath pvdType →
    (heap.objects ref).pathParent = appPath
  nodup : ∀ pvdType, (config.mmPvds pvdType).Nodup
  listed : ∀ pvdType ref, ref ∈ config.mmPvds pvdType →
    ref ∈ config.listing (heap.objects ref).pathParent pvdType
  made : ∀ appPath pvdType ref, ref ∈ config.listing appPath pvdType → ref < heap.nextRef

namespace Coherent

variable {config config' : CConfigAliases} {heap heap' : AliasHeap}

theorem empty (heap : AliasHeap) : CConfigAliases.empty.Coherent heap := by
  refine ⟨?_, ?_, ?_, ?_⟩
  · intro appPath pvdType ref hmem
    cases hmem
  · intro pvdType
    exact List.nodup_nil
  · intro pvdType ref hmem
    cases hmem
  · intro appPath pvdType ref hmem
    cases hmem

/-- Only the lists and the names of listed aliases matter. -/
theorem congr (h : config.Coherent heap) (hpvds : config'.mmPvds = config.mmPvds)
    (hlisting : config'.listing = config.listing)
    (hobjects : ∀ ref, ref < heap.nextRef → heap'.objects ref = heap.objects ref)
    (hnext : heap.nextRef ≤ heap'.nextRef) : config'.Coherent heap' := by
  have hnames : ∀ appPath pvdType ref, ref ∈ config.listing appPath pvdType →
      heap'.objects ref = heap.objects ref :=
    fun appPath pvdType ref hmem => hobjects ref (h.made appPath pvdType ref hmem)
  refine ⟨?_, ?_, ?_, ?_⟩
  · rw [hlisting]
    intro appPath pvdType ref hmem
    rw [hnames appPath pvdType ref hmem]
    exact h.parent appPath pvdType ref hmem
  · rw [hpvds]
    exact h.nodup
  · rw [hlisting, hpvds]
    intro pvdType ref hmem
    have hlisted := h.listed pvdType ref hmem
    rw [hnames _ _ _ hlisted]
    exact hlisted
  · rw [hlisting]
    intro appPath pvdType ref hmem
    exact Nat.lt_of_lt_of_le (h.made appPath pvdType ref hmem) hnext

/-- An alias is listed under its own parent path, and not a second time. -/
theorem appendPvdContext (h : config.Coherent heap) (pvdType : ProviderType) {context : AliasRef}
    (hcontext : context < heap.nextRef) :
    (config.appendPvdContext heap (heap.objects context).pathParent pvdType context).Coherent
      heap := by
  obtain ⟨-, hsame | ⟨habsent, hpvds, hlisting⟩⟩ :=
    appendPvdContext_cases config heap (heap.objects context).pathParent pvdType context
  · rw [hsame]
    exact h
  · have hmem : ∀ appPath t ref, ref ∈ (config.appendPvdContext heap
          (heap.objects context).pathParent pvdType context).listing appPath t ↔
        ref ∈ config.listing appPath t ∨
          appPath = (heap.objects context).pathParent ∧ t = pvdType ∧ ref = context := by
      intro appPath t ref
      rw [hlisting]
      by_cases happ : appPath = (heap.objects context).pathParent
      · subst happ
        by_cases ht : t = pvdType
        · subst ht
          simp
        · simp [ht]
      · simp [happ]
    refine ⟨?_, ?_, ?_, ?_⟩
    · intro appPath t ref hin
      obtain hold | ⟨rfl, -, rfl⟩ := (hmem appPath t ref).mp hin
      · exact h.parent appPath t ref hold
      · rfl
    · intro t
      rw [hpvds]
      by_cases ht : t = pvdType
      · subst ht
        rw [Function.update_self]
        refine List.nodup_append.mpr ⟨h.nodup t, by simp, ?_⟩
        rintro ref hin _ hsingle rfl
        rw [List.mem_singleton.mp hsingle] at hin
        exact habsent context (h.listed t context hin) rfl
      · rw [Function.update_of_ne ht]
        exact h.nodup t
    · intro t ref hin
      rw [hmem]
      rw [hpvds] at hin
      by_cases ht : t = pvdType
      · subst ht
        rw [Function.update_self, List.mem_append, List.mem_singleton] at hin
        obtain hold | rfl := hin
        · exact Or.inl (h.listed t ref hold)
        · exact Or.inr ⟨rfl, rfl, rfl⟩
      · rw [Function.update_of_ne ht] at hin
        exact Or.inl (h.listed t ref hin)
    · intro appPath t ref hin
      obtain hold | ⟨-, -, rfl⟩ := (hmem appPath t ref).mp hin
      · exact h.made appPath t ref hold
      · exact hcontext

theorem registProvider (h : config.Coherent heap) {context : AliasRef}
    (hcontext : context < heap.nextRef) (hstep : config.registProvider heap context = .ok config') :
    config'.Coherent heap := by
  rw [registProvider_eq] at hstep
  cases hstep
  exact h.appendPvdContext _ hcontext

theorem registConnectedPeer (h : config.Coherent heap) {peerPvd myPvd : AliasRef} {res : Bool}
    (hpeer : peerPvd < heap.nextRef)
    (hstep : config.registConnectedPeer heap peerPvd myPvd = .ok (res, config')) :
    config'.Coherent heap := by
  obtain ⟨mid, hmid, hrest⟩ := bind_eq_ok.mp hstep
  have hcoherent := h.registProvider hpeer hmid
  dsimp only at hrest
  split at hrest
  · cases hrest
    exact hcoherent
  · cases hrest
    exact hcoherent.congr rfl rfl (fun _ _ => rfl) (Nat.le_refl _)

theorem unregistConnectedPeer (h : config.Coherent heap) {peerFullPath myPvdFullPath : Bytes}
    (hstep : config.unregistConnectedPeer heap peerFullPath myPvdFullPath = .ok config') :
    config'.Coherent heap := by
  rw [CConfigAliases.unregistConnectedPeer] at hstep
  split at hstep
  · cases hstep
  · split at hstep
    · cases hstep
      exact h
    · cases hstep
      exact h.congr rfl rfl (fun _ _ => rfl) (Nat.le_refl _)

end Coherent

end CConfigAliases

end CommonCommunicator
