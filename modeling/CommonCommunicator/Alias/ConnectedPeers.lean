import CommonCommunicator.Alias.ConfigAliases
import CommonCommunicator.Lib.OrderedRelation

/-!
# The connected peers

Providers tell the alias manager which of them a peer is connected to, and
applications ask it through which providers a peer can be reached. The manager
keeps a list of own providers under each peer's path. What it answers is a
relation between paths: the own providers registered for the peer and not
unregistered since, in the order in which they became present.
-/

namespace CommonCommunicator

open Lib

/-- A call that changes the connected peers. -/
inductive PeerCall
  | registConnectedPeer (peerPvd myPvd : AliasRef)
  | unregistConnectedPeer (peerFullPath myPvdFullPath : Bytes)

namespace PeerCall

/-- The arguments that `unregist_connected_peer` does not refuse. -/
def Valid : PeerCall → Prop
  | .registConnectedPeer _ _ => True
  | .unregistConnectedPeer peerFullPath myPvdFullPath => peerFullPath ≠ [] ∧ myPvdFullPath ≠ []

/-- What the call means for the relation between peers and own providers. -/
def change (heap : AliasHeap) : PeerCall → Change (Bytes × Bytes)
  | .registConnectedPeer peerPvd myPvd => .add (heap.path peerPvd, heap.path myPvd)
  | .unregistConnectedPeer peerFullPath myPvdFullPath => .drop (peerFullPath, myPvdFullPath)

/-- The call as the alias manager makes it. -/
def run (heap : AliasHeap) (config : CConfigAliases) : PeerCall → Outcome CConfigAliases
  | .registConnectedPeer peerPvd myPvd => do
      let (_, config) ← config.registConnectedPeer heap peerPvd myPvd
      return config
  | .unregistConnectedPeer peerFullPath myPvdFullPath =>
      config.unregistConnectedPeer heap peerFullPath myPvdFullPath

end PeerCall

namespace CConfigAliases

/-- `get_connected_provider_to_peer`. A peer without a list has no providers. -/
def getConnectedProviderToPeer (config : CConfigAliases) (peerApp peerPvd : Bytes) :
    List AliasRef :=
  match config.mmConnectedPeers (IAliasPVD.makeFullPath peerApp peerPvd) with
  | none => []
  | some mine => mine

/-- The alias manager after these calls, if none of them throws. -/
def afterCalls (heap : AliasHeap) (config : CConfigAliases) (calls : List PeerCall) :
    Outcome CConfigAliases := calls.foldlM (PeerCall.run heap) config

theorem afterCalls_snoc {heap : AliasHeap} {config mid : CConfigAliases} {calls : List PeerCall}
    (h : config.afterCalls heap calls = .ok mid) (call : PeerCall) :
    config.afterCalls heap (calls ++ [call]) = call.run heap mid := by
  rw [afterCalls, List.foldlM_append]
  change (config.afterCalls heap calls >>= _) = _
  rw [h, ok_bind]
  exact bind_pure _

section Store

variable {config config' : CConfigAliases} {heap : AliasHeap} {pairs : List (Bytes × Bytes)}

/-- `regist_connected_peer` returns true and adds the pair. -/
theorem registConnectedPeer_stores
    (h : StoresRelation config.mmConnectedPeers heap.path pairs) (peerPvd myPvd : AliasRef) :
    ∃ config', config.registConnectedPeer heap peerPvd myPvd = .ok (true, config') ∧
      StoresRelation config'.mmConnectedPeers heap.path
        (Change.apply pairs (.add (heap.path peerPvd, heap.path myPvd))) := by
  have hpeers := (appendPvdContext_cases config heap (heap.objects peerPvd).pathParent
    (heap.objects peerPvd).type peerPvd).1
  rw [registConnectedPeer, registProvider_eq, ok_bind]
  dsimp only
  rw [hpeers]
  by_cases hthere : (heap.path peerPvd, heap.path myPvd) ∈ pairs
  · rw [if_pos ((h.any_iff _ _).mpr hthere), Change.apply, if_pos hthere]
    refine ⟨_, rfl, ?_⟩
    rw [hpeers]
    exact h
  · rw [if_neg (mt (h.any_iff _ _).mp hthere)]
    exact ⟨_, rfl, h.add hthere⟩

/-- `unregist_connected_peer` drops the pair. -/
theorem unregistConnectedPeer_stores
    (h : StoresRelation config.mmConnectedPeers heap.path pairs) (hnodup : pairs.Nodup)
    {peerFullPath myPvdFullPath : Bytes} (hpeer : peerFullPath ≠ []) (hmine : myPvdFullPath ≠ []) :
    ∃ config', config.unregistConnectedPeer heap peerFullPath myPvdFullPath = .ok config' ∧
      StoresRelation config'.mmConnectedPeers heap.path
        (Change.apply pairs (.drop (peerFullPath, myPvdFullPath))) := by
  rw [unregistConnectedPeer, if_neg (by simp [hpeer, hmine])]
  cases hlist : config.mmConnectedPeers peerFullPath with
  | none =>
      refine ⟨config, rfl, ?_⟩
      have habsent : (peerFullPath, myPvdFullPath) ∉ pairs := by
        rw [← h.any_iff]
        simp [hlist]
      rw [Change.apply, List.filter_eq_self.mpr]
      · exact h
      · intro pair hpair
        have hne : pair ≠ (peerFullPath, myPvdFullPath) := by
          rintro rfl
          exact habsent hpair
        simpa using hne
  | some mine => exact ⟨_, rfl, h.drop hnodup hlist myPvdFullPath⟩

/-- Unregistering an absent pair leaves the alias manager as it is. -/
theorem unregistConnectedPeer_absent
    (h : StoresRelation config.mmConnectedPeers heap.path pairs)
    {peerFullPath myPvdFullPath : Bytes} (hpeer : peerFullPath ≠ []) (hmine : myPvdFullPath ≠ [])
    (habsent : (peerFullPath, myPvdFullPath) ∉ pairs) :
    config.unregistConnectedPeer heap peerFullPath myPvdFullPath = .ok config := by
  rw [unregistConnectedPeer, if_neg (by simp [hpeer, hmine])]
  cases hlist : config.mmConnectedPeers peerFullPath with
  | none => rfl
  | some mine =>
      have hnone : ∀ ref ∈ mine, heap.path ref ≠ myPvdFullPath := by
        intro ref hmem heq
        apply habsent
        rw [← h.any_iff, hlist]
        exact List.any_eq_true.mpr ⟨ref, hmem, by simpa using heq⟩
      have hsame : mine.eraseP (fun ref => heap.path ref = myPvdFullPath) = mine :=
        List.eraseP_of_forall_not (by simpa using hnone)
      have hne : mine ≠ [] := fun hnil => h.filled peerFullPath (by rw [hlist, hnil])
      dsimp only
      rw [hsame, if_neg hne, PartialMap.insert, ← hlist, Function.update_eq_self]

/-- An alias in a peer's list was there before or is the registered one. -/
theorem mem_of_registConnectedPeer {peerPvd myPvd ref : AliasRef} {res : Bool}
    {peerFullPath : Bytes} (h : config.registConnectedPeer heap peerPvd myPvd = .ok (res, config'))
    (hmem : ref ∈ (config'.mmConnectedPeers peerFullPath).getD []) :
    ref ∈ (config.mmConnectedPeers peerFullPath).getD [] ∨
      peerFullPath = heap.path peerPvd ∧ ref = myPvd := by
  by_cases hpeer : peerFullPath = heap.path peerPvd
  · rw [registConnectedPeer, registProvider_eq, ok_bind] at h
    dsimp only at h
    rw [(appendPvdContext_cases config heap (heap.objects peerPvd).pathParent
      (heap.objects peerPvd).type peerPvd).1] at h
    split at h
    · cases h
      rw [(appendPvdContext_cases config heap (heap.objects peerPvd).pathParent
        (heap.objects peerPvd).type peerPvd).1] at hmem
      exact Or.inl hmem
    · cases h
      dsimp only at hmem
      rw [hpeer, PartialMap.insert_self, Option.getD_some, List.mem_append,
        List.mem_singleton] at hmem
      rw [hpeer]
      exact hmem.imp_right fun heq => ⟨rfl, heq⟩
  · rw [registConnectedPeer_peers h hpeer] at hmem
    exact Or.inl hmem

theorem mem_of_unregistConnectedPeer {ref : AliasRef} {peer mine peerFullPath : Bytes}
    (h : config.unregistConnectedPeer heap peer mine = .ok config')
    (hmem : ref ∈ (config'.mmConnectedPeers peerFullPath).getD []) :
    ref ∈ (config.mmConnectedPeers peerFullPath).getD [] := by
  by_cases hpeer : peerFullPath = peer
  · subst hpeer
    rw [unregistConnectedPeer] at h
    split at h
    · cases h
    · split at h
      · cases h
        exact hmem
      · next list hlist =>
          cases h
          rw [hlist]
          dsimp only at hmem
          split at hmem
          · simp at hmem
          · rw [PartialMap.insert_self] at hmem
            exact List.mem_of_mem_eraseP hmem
  · rw [unregistConnectedPeer_peers h hpeer] at hmem
    exact hmem

end Store

/-- The manager stores the relation that the calls describe, by aliases that they passed. -/
structure Tracks (config : CConfigAliases) (heap : AliasHeap) (calls : List PeerCall) : Prop where
  stores : StoresRelation config.mmConnectedPeers heap.path
    (Change.members (calls.map (PeerCall.change heap)))
  passed : ∀ peerFullPath ref, ref ∈ (config.mmConnectedPeers peerFullPath).getD [] →
    ∃ peerPvd, heap.path peerPvd = peerFullPath ∧ .registConnectedPeer peerPvd ref ∈ calls

namespace Tracks

variable {config config' : CConfigAliases} {heap : AliasHeap} {calls : List PeerCall}

theorem start (heap : AliasHeap) (h : config.mmConnectedPeers = .empty) :
    config.Tracks heap [] := by
  constructor
  · rw [h]
    exact StoresRelation.empty
  · simp [h]

/-- A valid call succeeds and the manager keeps track of it. -/
theorem call (h : config.Tracks heap calls) {call : PeerCall} (hvalid : call.Valid) :
    ∃ config', call.run heap config = .ok config' ∧ config'.Tracks heap (calls ++ [call]) := by
  have hmembers : Change.members ((calls ++ [call]).map (PeerCall.change heap)) =
      Change.apply (Change.members (calls.map (PeerCall.change heap))) (call.change heap) := by
    rw [List.map_append]
    exact Change.members_snoc
  cases call with
  | registConnectedPeer peerPvd myPvd =>
      obtain ⟨config', hrun, hstores⟩ := registConnectedPeer_stores h.stores peerPvd myPvd
      refine ⟨config', by rw [PeerCall.run, hrun]; rfl, ?_, ?_⟩
      · rw [hmembers]
        exact hstores
      · intro peerFullPath ref hmem
        obtain hold | ⟨rfl, rfl⟩ := mem_of_registConnectedPeer hrun hmem
        · obtain ⟨peer, hpath, hcall⟩ := h.passed peerFullPath ref hold
          exact ⟨peer, hpath, List.mem_append_left _ hcall⟩
        · exact ⟨peerPvd, rfl, by simp⟩
  | unregistConnectedPeer peer mine =>
      obtain ⟨config', hrun, hstores⟩ := unregistConnectedPeer_stores h.stores
        ((Change.members_pairwise _).imp Change.Precedes.ne) hvalid.1 hvalid.2
      refine ⟨config', hrun, ?_, ?_⟩
      · rw [hmembers]
        exact hstores
      · intro peerFullPath ref hmem
        obtain ⟨peer, hpath, hcall⟩ :=
          h.passed peerFullPath ref (mem_of_unregistConnectedPeer hrun hmem)
        exact ⟨peer, hpath, List.mem_append_left _ hcall⟩

/-- Valid calls all succeed, and the manager keeps track of them. -/
theorem afterCalls (heap : AliasHeap) (hempty : config.mmConnectedPeers = .empty)
    (hvalid : ∀ call ∈ calls, call.Valid) :
    ∃ config', config.afterCalls heap calls = .ok config' ∧ config'.Tracks heap calls := by
  induction calls using List.reverseRecOn with
  | nil => exact ⟨config, rfl, start heap hempty⟩
  | append_singleton calls call ih =>
      obtain ⟨mid, hmid, htracks⟩ := ih fun c hc => hvalid c (List.mem_append_left _ hc)
      obtain ⟨config', hrun, htracks'⟩ := htracks.call (hvalid call (by simp))
      exact ⟨config', (afterCalls_snoc hmid call).trans hrun, htracks'⟩

end Tracks

/-- The manager answers for the relation between peers and own providers that the calls describe:
each peer's own providers once and in the order in which they became present. -/
structure AnswersFor (config : CConfigAliases) (heap : AliasHeap) (calls : List PeerCall) :
    Prop where
  exactly : ∀ peerApp peerPvd myFullPath,
    myFullPath ∈ (config.getConnectedProviderToPeer peerApp peerPvd).map heap.path ↔
      Change.Present (calls.map (PeerCall.change heap))
        (IAliasPVD.makeFullPath peerApp peerPvd, myFullPath)
  once : ∀ peerApp peerPvd,
    ((config.getConnectedProviderToPeer peerApp peerPvd).map heap.path).Nodup
  ordered : ∀ peerApp peerPvd,
    ((config.getConnectedProviderToPeer peerApp peerPvd).map heap.path).Pairwise fun mine mine' =>
      Change.Precedes (calls.map (PeerCall.change heap))
        (IAliasPVD.makeFullPath peerApp peerPvd, mine)
        (IAliasPVD.makeFullPath peerApp peerPvd, mine')
  passed : ∀ peerApp peerPvd, ∀ ref ∈ config.getConnectedProviderToPeer peerApp peerPvd,
    ∃ peer, heap.path peer = IAliasPVD.makeFullPath peerApp peerPvd ∧
      .registConnectedPeer peer ref ∈ calls
  filled : ∀ peerFullPath, config.mmConnectedPeers peerFullPath ≠ some []
  regists : ∀ peerPvd myPvd,
    ∃ config', config.registConnectedPeer heap peerPvd myPvd = .ok (true, config')
  absent : ∀ peerFullPath myPvdFullPath, peerFullPath ≠ [] → myPvdFullPath ≠ [] →
    ¬Change.Present (calls.map (PeerCall.change heap)) (peerFullPath, myPvdFullPath) →
      config.unregistConnectedPeer heap peerFullPath myPvdFullPath = .ok config

theorem getConnectedProviderToPeer_eq (config : CConfigAliases) (peerApp peerPvd : Bytes) :
    config.getConnectedProviderToPeer peerApp peerPvd =
      (config.mmConnectedPeers (IAliasPVD.makeFullPath peerApp peerPvd)).getD [] := by
  rw [getConnectedProviderToPeer]
  split
  · next hnone => simp [hnone]
  · next hsome => simp [hsome]

theorem Tracks.answersFor {config : CConfigAliases} {heap : AliasHeap} {calls : List PeerCall}
    (h : config.Tracks heap calls) : config.AnswersFor heap calls := by
  have himage : ∀ peerApp peerPvd,
      (config.getConnectedProviderToPeer peerApp peerPvd).map heap.path =
        image (Change.members (calls.map (PeerCall.change heap)))
          (IAliasPVD.makeFullPath peerApp peerPvd) := by
    intro peerApp peerPvd
    rw [getConnectedProviderToPeer_eq]
    exact h.stores.lists _
  have hordered := image_pairwise (Change.members_pairwise (calls.map (PeerCall.change heap)))
  constructor
  · intro peerApp peerPvd myFullPath
    rw [himage, mem_image, Change.mem_members]
  · intro peerApp peerPvd
    rw [himage]
    exact (hordered _).imp fun hprecedes heq => hprecedes.ne (by rw [heq])
  · intro peerApp peerPvd
    rw [himage]
    exact hordered _
  · intro peerApp peerPvd ref hmem
    rw [getConnectedProviderToPeer_eq] at hmem
    exact h.passed _ ref hmem
  · exact h.stores.filled
  · intro peerPvd myPvd
    exact registConnectedPeer_ok config heap peerPvd myPvd
  · intro peerFullPath myPvdFullPath hpeer hmine habsent
    apply unregistConnectedPeer_absent h.stores hpeer hmine
    rw [Change.mem_members]
    exact habsent

/-- After any valid calls the connected peers are the relation that the calls describe. -/
theorem connectedPeers_relation {config : CConfigAliases} (heap : AliasHeap)
    (hempty : config.mmConnectedPeers = .empty) (calls : List PeerCall)
    (hvalid : ∀ call ∈ calls, call.Valid) :
    ∃ config', config.afterCalls heap calls = .ok config' ∧ config'.AnswersFor heap calls := by
  obtain ⟨config', hcalls, htracks⟩ := Tracks.afterCalls heap hempty hvalid
  exact ⟨config', hcalls, htracks.answersFor⟩

/-- A peer and two own providers. -/
def twoProviders : AliasHeap :=
  { objects := fun ref => {
      pathParent := [0x61]
      name := [UInt8.ofNat ref]
      type := .transUDP
      convertible := IAliasPVD.convertible_transUDP }
    nextRef := 3 }

/-- The peer registers the second own provider, the first, and the second again; then the second
is unregistered twice. -/
def repeatedCalls : List PeerCall :=
  [.registConnectedPeer 0 2, .registConnectedPeer 0 1, .registConnectedPeer 0 2,
    .unregistConnectedPeer [0x61, 0x2F, 0] [0x61, 0x2F, 2],
    .unregistConnectedPeer [0x61, 0x2F, 0] [0x61, 0x2F, 2]]

theorem repeatedCalls_relation :
    ∃ config', CConfigAliases.empty.afterCalls twoProviders repeatedCalls = .ok config' ∧
      config'.AnswersFor twoProviders repeatedCalls ∧
      config'.getConnectedProviderToPeer [0x61] [0] = [1] := by
  obtain ⟨config', hcalls, hanswers⟩ := @connectedPeers_relation .empty twoProviders rfl
    repeatedCalls (by simp [repeatedCalls, PeerCall.Valid])
  refine ⟨config', hcalls, hanswers, ?_⟩
  cases hcalls
  rfl

end CConfigAliases

end CommonCommunicator
