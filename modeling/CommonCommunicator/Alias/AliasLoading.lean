import CommonCommunicator.Alias.AliasDocument

/-!
# A load makes what the document says

The builder is followed over the forest: every application makes the providers
below it, in their order, touches no application made before it, and hands
`self_` through the one branch that the properties name.
-/

namespace CommonCommunicator

open Lib

/-! ## Providers -/

theorem IAliasPVD.convert_typeName {type : ProviderType} (h : IAliasPVD.Convertible type) :
    IAliasPVD.convert (literal (IAliasPVD.typeName type)) = .ok ⟨type, h⟩ := by
  cases type with
  | notDefine => exact absurd rfl h.1
  | rscIotivity => exact absurd rfl h.2
  | _ => rfl

theorem CMjson.getSecondUint32_of_stoul {data : Bytes} {number : Nat}
    (h : CString.stoul (CString.text data) = .ok number) :
    CMjson.getSecondUint32 (.string data) = .ok (number % 2 ^ 32) := by
  rw [getSecondUint32, getSecond, ok_bind, h, ok_bind]
  rfl

theorem CMjson.getSecondHex_of_text {data : Bytes} (h : CString.text data ≠ []) :
    CMjson.getSecondHex (.string data) = .ok (CString.extractHex (CString.text data)) := by
  rw [getSecondHex, getSecond, ok_bind, assertThat_pos h, ok_bind]
  rfl

/-- `make_pvd_trans` reads a valid address. -/
theorem TransAddress.foldlM {before after : CAliasTrans} {members : CMjson}
    (h : TransAddress before members after) :
    members.foldlM CAliasTrans.setMember before = .ok after := by
  induction h with
  | nil => rfl
  | @ip trans after name data rest hname hrest ih =>
      have hset : CAliasTrans.setMember trans (name, .string data) =
          .ok { trans with ip := CString.text data } := by
        simp only [CAliasTrans.setMember, CMjson.getFirst, hname]
        rfl
      rw [List.foldlM_cons, hset, ok_bind, ih]
  | @port trans after name data rest number hname hnumber hrest ih =>
      have hset : CAliasTrans.setMember trans (name, .string data) =
          .ok { trans with portNum := number % 2 ^ 32 } := by
        simp only [CAliasTrans.setMember, CMjson.getFirst, hname,
          CMjson.getSecondUint32_of_stoul hnumber]
        rfl
      rw [List.foldlM_cons, hset, ok_bind, ih]
  | @mask trans after name data rest number hname hnumber hrest ih =>
      have hset : CAliasTrans.setMember trans (name, .string data) =
          .ok { trans with mask := number % 2 ^ 32 } := by
        simp only [CAliasTrans.setMember, CMjson.getFirst, hname,
          CMjson.getSecondUint32_of_stoul hnumber]
        rfl
      rw [List.foldlM_cons, hset, ok_bind, ih]

/-- `make_pvd_service` reads a valid address, and leaves the functions alone. -/
theorem ServiceAddress.foldlM {before after : CAliasService} {members : CMjson}
    (h : ServiceAddress before members after) :
    members.foldlM CAliasService.setMember before = .ok after ∧
      after = { before with svcId := after.svcId, instId := after.instId } := by
  induction h with
  | nil => exact ⟨rfl, rfl⟩
  | @svcId service after name data rest hname htext hrest ih =>
      have hset : CAliasService.setMember service (name, .string data) =
          .ok { service with svcId := CString.extractHex (CString.text data) } := by
        simp only [CAliasService.setMember, CMjson.getFirst, hname,
          CMjson.getSecondHex_of_text htext]
        rfl
      rw [List.foldlM_cons, hset, ok_bind]
      exact ih
  | @instId service after name data rest hname htext hrest ih =>
      have hset : CAliasService.setMember service (name, .string data) =
          .ok { service with instId := CString.extractHex (CString.text data) } := by
        simp only [CAliasService.setMember, CMjson.getFirst, hname,
          CMjson.getSecondHex_of_text htext]
        rfl
      rw [List.foldlM_cons, hset, ok_bind]
      exact ih

/-- A loop over functions stores them all, where `put` is the service around its table of them. -/
theorem Functions.foldlM {Id : Type} {Entry : CMjson → Id → Prop}
    (cbSubRoutine : CAliasService → Bytes → CMjson → Outcome CAliasService)
    (put : PartialMap Bytes Id → CAliasService)
    (hpush : ∀ ids name obj id, name ≠ [] → ids name = none → Entry obj id →
      cbSubRoutine (put ids) name obj = .ok (put (ids.insert name id)))
    {ids after : PartialMap Bytes Id} {members : CMjson}
    (h : Functions Entry ids members after) :
    members.foldlM (CAliasService.parseFunction cbSubRoutine) (put ids) = .ok (put after) := by
  induction h with
  | nil => rfl
  | @cons ids after name obj rest id hname hnew hentry hrest ih =>
      have hfirst : CMjson.getFirst (name, .object obj) ≠ [] := hname
      have hturn : CAliasService.parseFunction cbSubRoutine (put ids) (name, .object obj) =
          .ok (put (ids.insert (CString.text name) id)) := by
        rw [CAliasService.parseFunction, CMjson.getSecondObject, ok_bind, if_neg hfirst]
        exact hpush ids _ obj id hname hnew hentry
      rw [List.foldlM_cons, hturn, ok_bind, ih]

/-- `lamda_parsing_functions` reads the functions under one key. -/
theorem Functions.parsingFunctions {Id : Type} {Entry : CMjson → Id → Prop}
    (cbSubRoutine : CAliasService → Bytes → CMjson → Outcome CAliasService)
    (put : PartialMap Bytes Id → CAliasService)
    (hpush : ∀ ids name obj id, name ≠ [] → ids name = none → Entry obj id →
      cbSubRoutine (put ids) name obj = .ok (put (ids.insert name id)))
    {ids after : PartialMap Bytes Id} {obj members : CMjson} {funcKey : String}
    (hkey : obj.HasObject funcKey members) (h : Functions Entry ids members after) :
    CAliasService.parsingFunctions obj (literal funcKey) cbSubRoutine (put ids) =
      .ok (put after) := by
  rw [CAliasService.parsingFunctions, hkey.getMemberObject, ok_bind,
    h.foldlM cbSubRoutine put hpush]

theorem CMjson.HasId.ne_zero {obj : CMjson} {key : String} {id : Nat} (h : obj.HasId key id) :
    id ≠ 0 := by
  obtain ⟨_, -, -, -, hne⟩ := h
  exact hne

/-- `set_pvd_service_with_function` fills the tables of a service that has none. -/
theorem setPvdServiceWithFunction_of_functions {service : CAliasService}
    {obj reqresp reqNoresp pubsub : CMjson} {reqrespIds reqNorespIds : PartialMap Bytes Nat}
    {pubsubIds : PartialMap Bytes (Nat × Nat)}
    (hempty : service.mmReqResp = .empty ∧ service.mmReqNoresp = .empty ∧
      service.mmPubSub = .empty)
    (hreq : obj.HasObject "reqresp" reqresp) (hno : obj.HasObject "req_noresp" reqNoresp)
    (hpub : obj.HasObject "pubsub" pubsub)
    (hreqresp : Functions (fun sub id => sub.HasId "id" id) .empty reqresp reqrespIds)
    (hreqNoresp : Functions (fun sub id => sub.HasId "id" id) .empty reqNoresp reqNorespIds)
    (hpubsub : Functions (fun sub (ids : Nat × Nat) =>
      sub.HasId "id" ids.1 ∧ sub.HasId "grp-id" ids.2) .empty pubsub pubsubIds) :
    service.setPvdServiceWithFunction obj = .ok { service with
      mmReqResp := reqrespIds, mmReqNoresp := reqNorespIds, mmPubSub := pubsubIds } := by
  obtain ⟨svcId, instId, _, _, _⟩ := service
  obtain ⟨rfl, rfl, rfl⟩ := hempty
  have hfirst := hreqresp.parsingFunctions
    (fun service name subObj => do
      service.pushReqrespId name (← subObj.getMemberHex (literal "id")))
    (fun ids => ⟨svcId, instId, ids, .empty, .empty⟩)
    (fun ids name sub id hname hnew hid => by
      rw [hid.getMemberHex, ok_bind, CAliasService.pushReqrespId, if_neg]
      simp [hname, hid.ne_zero, hnew]) hreq
  have hsecond := hreqNoresp.parsingFunctions
    (fun service name subObj => do
      service.pushReqNOrespId name (← subObj.getMemberHex (literal "id")))
    (fun ids => ⟨svcId, instId, reqrespIds, ids, .empty⟩)
    (fun ids name sub id hname hnew hid => by
      rw [hid.getMemberHex, ok_bind, CAliasService.pushReqNOrespId, if_neg]
      simp [hname, hid.ne_zero, hnew]) hno
  have hthird := hpubsub.parsingFunctions
    (fun service name subObj => do
      let id ← subObj.getMemberHex (literal "id")
      service.pushPubsubId name id (← subObj.getMemberHex (literal "grp-id")))
    (fun ids => ⟨svcId, instId, reqrespIds, reqNorespIds, ids⟩)
    (fun ids name sub id hname hnew hid => by
      rw [hid.1.getMemberHex, ok_bind, hid.2.getMemberHex, ok_bind, CAliasService.pushPubsubId,
        if_neg]
      simp [hname, hid.1.ne_zero, hid.2.ne_zero, hnew]) hpub
  rw [CAliasService.setPvdServiceWithFunction, hfirst, ok_bind, hsecond, ok_bind, hthird]

/-- `make_pvd_alias` reads a provider with a valid address. -/
theorem PvdLeaf.ReadFrom.makePvdAlias {pvd : PvdLeaf} {member : Bytes × Json}
    (h : pvd.ReadFrom member) (hname : pvd.name ≠ []) :
    ∃ obj, member.2 = .object obj ∧ CMjson.getFirst member = pvd.name ∧
      AliasTree.makePvdAlias pvd.name obj = .ok (⟨pvd.type, pvd.convertible⟩, pvd.data) := by
  obtain ⟨name, type, hconvertible, data⟩ := pvd
  obtain ⟨hfirst, obj, addr, hobj, htype, haddr, hdata⟩ := h
  refine ⟨obj, hobj, hfirst, ?_⟩
  rw [AliasTree.makePvdAlias, assertThat_pos hname, ok_bind, htype.getMember, ok_bind,
    haddr.getMemberObject, ok_bind]
  dsimp only at htype hdata ⊢
  cases data with
  | trans data =>
      obtain ⟨hnot, hmembers⟩ := hdata
      have hsocket : literal (IAliasPVD.typeName type) = literal "udp" ∨
          literal (IAliasPVD.typeName type) = literal "udp_uds" ∨
          literal (IAliasPVD.typeName type) = literal "tcp" ∨
          literal (IAliasPVD.typeName type) = literal "tcp_uds" := by
        cases type with
        | notDefine => exact absurd rfl hconvertible.1
        | rscIotivity => exact absurd rfl hconvertible.2
        | serviceVsomeip => exact absurd rfl hnot
        | _ => simp [IAliasPVD.typeName]
      rw [if_pos hsocket, IAliasPVD.convert_typeName hconvertible, ok_bind, hmembers.foldlM,
        ok_bind]
      rfl
  | service data =>
      obtain ⟨rfl, addressed, functions, reqresp, reqNoresp, pubsub, haddress, hfunctions, hreq,
        hno, hpub, hreqresp, hreqNoresp, hpubsub, hsvc, hinst⟩ := hdata
      obtain ⟨hfold, hsame⟩ := haddress.foldlM
      have hempty : addressed.mmReqResp = .empty ∧ addressed.mmReqNoresp = .empty ∧
          addressed.mmPubSub = .empty := by
        rw [hsame]
        exact ⟨rfl, rfl, rfl⟩
      have hparsed := setPvdServiceWithFunction_of_functions hempty hreq hno hpub hreqresp
        hreqNoresp hpubsub
      have hservice : data = { addressed with
          mmReqResp := data.mmReqResp, mmReqNoresp := data.mmReqNoresp,
          mmPubSub := data.mmPubSub } := by
        rw [← hsvc, ← hinst]
      have hnot : ¬ (literal (IAliasPVD.typeName .serviceVsomeip) = literal "udp" ∨
          literal (IAliasPVD.typeName .serviceVsomeip) = literal "udp_uds" ∨
          literal (IAliasPVD.typeName .serviceVsomeip) = literal "tcp" ∨
          literal (IAliasPVD.typeName .serviceVsomeip) = literal "tcp_uds") := by decide
      have hvsomeip : literal (IAliasPVD.typeName .serviceVsomeip) = literal "vsomeip" := rfl
      rw [if_neg hnot, if_pos hvsomeip, IAliasPVD.convert_typeName hconvertible, ok_bind, hfold,
        ok_bind, hfunctions.getMemberObject, ok_bind, hparsed, ok_bind, hservice]
      rfl

/-! ## Applications -/

namespace AliasTree

/-- A provider alias as it can be read off the tables: the path of its application, and itself. -/
def view (s : AliasTree) (ref : AliasRef) : Bytes × PvdLeaf :=
  ((s.heap.objects ref).pathParent,
    { name := (s.heap.objects ref).name
      type := (s.heap.objects ref).type
      convertible := (s.heap.objects ref).convertible
      data := s.pvdData ref })

theorem view_congr {s s' : AliasTree} {ref : AliasRef}
    (hobjects : s'.heap.objects ref = s.heap.objects ref)
    (hdata : s'.pvdData ref = s.pvdData ref) : s'.view ref = s.view ref := by
  simp only [view, hobjects, hdata]

/-- The providers that are made on the way from `s` to `s'`; all others stay as they are. -/
structure Makes (s s' : AliasTree) (made : List (Bytes × PvdLeaf)) : Prop where
  count : s'.heap.nextRef = s.heap.nextRef + made.length
  views : (List.range' s.heap.nextRef made.length).map s'.view = made
  kept : ∀ ref < s.heap.nextRef, s'.view ref = s.view ref

namespace Makes

variable {s s' s'' : AliasTree} {made made' : List (Bytes × PvdLeaf)}

theorem of_same (hheap : s'.heap = s.heap) (hdata : s'.pvdData = s.pvdData) : Makes s s' [] := by
  refine ⟨by rw [hheap]; rfl, rfl, fun ref _ => ?_⟩
  exact view_congr (by rw [hheap]) (by rw [hdata])

theorem trans (h : Makes s s' made) (h' : Makes s' s'' made') :
    Makes s s'' (made ++ made') := by
  refine ⟨?_, ?_, fun ref hlt => ?_⟩
  · rw [h'.count, h.count, List.length_append, Nat.add_assoc]
  · have hkept : (List.range' s.heap.nextRef made.length).map s''.view =
        (List.range' s.heap.nextRef made.length).map s'.view := by
      apply List.map_congr_left
      intro ref hmem
      apply h'.kept
      rw [h.count]
      exact (List.mem_range'_1.mp hmem).2
    rw [List.length_append, ← List.range'_append_1, List.map_append, hkept, h.views, ← h.count,
      h'.views]
  · have hlt' : ref < s'.heap.nextRef := by
      rw [h.count]
      exact Nat.lt_add_right _ hlt
    rw [h'.kept ref hlt', h.kept ref hlt]

end Makes

/-- What a builder may do to applications that are there: give `app` further names. -/
structure Leaves (s s' : AliasTree) (app : AppRef) : Prop where
  next : s.nextApp ≤ s'.nextApp
  others : ∀ ref < s.nextApp, ref ≠ app → s'.apps ref = s.apps ref
  own : s'.apps app = { s.apps app with mmAlias := (s'.apps app).mmAlias }
  rscs : s'.mmRscs = s.mmRscs

namespace Leaves

variable {s s' s'' : AliasTree} {app : AppRef}

theorem refl (s : AliasTree) (app : AppRef) : Leaves s s app :=
  ⟨Nat.le_refl _, fun _ _ _ => rfl, rfl, rfl⟩

theorem trans (h : Leaves s s' app) (h' : Leaves s' s'' app) : Leaves s s'' app := by
  refine ⟨h.next.trans h'.next, fun ref hlt hne => ?_, ?_, h'.rscs.trans h.rscs⟩
  · rw [h'.others ref (Nat.lt_of_lt_of_le hlt h.next) hne, h.others ref hlt hne]
  · rw [h'.own, h.own]

theorem path_eq (h : Leaves s s' app) : (s'.apps app).path = (s.apps app).path := by
  rw [h.own]
  rfl

/-- The applications that were there before `app` was made are the same. -/
theorem kept_of_makeApp {made : CAliasAPP} (h : Leaves (s.makeApp made) s' s.nextApp) :
    ∀ ref < s.nextApp, s'.apps ref = s.apps ref := by
  intro ref hlt
  rw [h.others ref (Nat.lt_succ_of_lt hlt) (Nat.ne_of_lt hlt)]
  exact Function.update_of_ne (Nat.ne_of_lt hlt) ..

theorem of_setAlias {alias_ : Bytes} {context : AliasNode}
    (h : s.setAlias app alias_ context = .ok s') : Leaves s s' app := by
  obtain ⟨-, -, -, hrscs, hnext, hothers, hown, -⟩ := setAlias_ok h
  exact ⟨Nat.le_of_eq hnext.symm, fun ref _ hne => hothers ref hne, hown, hrscs⟩

end Leaves

theorem setAlias_of_ne_nil (s : AliasTree) (app : AppRef) {alias_ : Bytes} (context : AliasNode)
    (h : alias_ ≠ []) : ∃ s', s.setAlias app alias_ context = .ok s' := by
  rw [setAlias, if_neg h]
  split
  · exact ⟨_, rfl⟩
  · exact ⟨_, rfl⟩

/-- `append_pvd_alias` makes the provider that the member describes. -/
theorem appendPvdAlias_of_readFrom (s : AliasTree) (app : AppRef) {pvd : PvdLeaf}
    {member : Bytes × Json} (hread : pvd.ReadFrom member) (hname : pvd.name ≠ []) :
    ∃ s', appendPvdAlias app s member = .ok s' ∧ Makes s s' [((s.apps app).path, pvd)] ∧
      Leaves s s' app ∧ s'.nextApp = s.nextApp := by
  obtain ⟨obj, hobj, hfirst, hmake⟩ := hread.makePvdAlias hname
  obtain ⟨t, ht⟩ := setAlias_of_ne_nil
    (s.makePvd ⟨(s.apps app).path, pvd.name, pvd.type, pvd.convertible⟩ pvd.data) app
    (.pvd s.heap.nextRef) hname
  obtain ⟨-, hheap, hdata, hrscs, hnext, hothers, hown, -⟩ := setAlias_ok ht
  let config := t.config.appendPvdContext t.heap (t.apps app).path pvd.type s.heap.nextRef
  refine ⟨{ t with config := config }, ?_, ?_, ?_, hnext⟩
  · rw [appendPvdAlias, hobj, CMjson.getSecondObject, ok_bind, hfirst, if_neg hname, hmake, ok_bind]
    dsimp only
    rw [ht]
    rfl
  · refine ⟨?_, ?_, fun ref hlt => view_congr ?_ ?_⟩
    · rw [hheap]
      rfl
    · simp [view, hheap, hdata, makePvd, AliasHeap.make]
    · rw [hheap]
      exact AliasHeap.make_objects_of_lt _ hlt
    · rw [hdata]
      exact Function.update_of_ne (Nat.ne_of_lt hlt) ..
  · exact ⟨Nat.le_of_eq hnext.symm, fun ref _ hne => hothers ref hne, hown, hrscs⟩

/-- The loop over the providers of a single application. -/
theorem appendPvdAliases_of_readFrom {pvds : List PvdLeaf} {members : CMjson}
    (hread : List.Forall₂ PvdLeaf.ReadFrom pvds members) (hnames : ∀ pvd ∈ pvds, pvd.name ≠ [])
    (app : AppRef) (s : AliasTree) :
    ∃ s', members.foldlM (appendPvdAlias app) s = .ok s' ∧
      Makes s s' (pvds.map fun pvd => ((s.apps app).path, pvd)) ∧ Leaves s s' app ∧
      s'.nextApp = s.nextApp := by
  induction hread generalizing s with
  | nil => exact ⟨s, rfl, .of_same rfl rfl, .refl s app, rfl⟩
  | @cons pvd member pvds members hpvd hpvds ih =>
      obtain ⟨t, ht, hmade, hleaves, hnext⟩ :=
        appendPvdAlias_of_readFrom s app hpvd (hnames pvd (List.mem_cons_self ..))
      obtain ⟨s', hs', hmade', hleaves', hnext'⟩ :=
        ih (fun other hmem => hnames other (List.mem_cons_of_mem _ hmem)) t
      refine ⟨s', ?_, ?_, hleaves.trans hleaves', hnext'.trans hnext⟩
      · rw [List.foldlM_cons, ht, ok_bind, hs']
      · rw [hleaves.path_eq] at hmade'
        exact hmade.trans hmade'

/-- `get_property` of valid properties. -/
theorem getProperty_of_hasText {obj properties : CMjson} {type name where_ : Bytes}
    (hproperties : obj.HasObject "properties" properties) (htype : properties.HasText "type" type)
    (hname : properties.HasText "name" name) (hwhere : properties.HasText "where" where_)
    (hsingle : type = literal "single" → where_ ≠ [])
    (hmulti : type = literal "multi" → name ≠ []) :
    getProperty obj = .ok { type := type, name := name, where_ := where_ } := by
  rw [getProperty, hproperties.getMemberObject, ok_bind, htype.getMember, ok_bind, hname.getMember,
    ok_bind, hwhere.getMember, ok_bind, if_neg fun h => hsingle h.1 h.2,
    if_neg fun h => hmulti h.1 h.2]
  rfl

/-- The names lead from one application to a single one, through applications from `low` on. -/
inductive Leads (s : AliasTree) (low : AppRef) (where_ : Bytes) (self : AppRef) :
    (path : List Bytes) → (app : AppRef) → (names : List Bytes) → Prop
  | here {path : List Bytes} (hlow : low ≤ self) (hmade : self < s.nextApp)
      (htype : (s.apps self).type = .single) (hwhere : (s.apps self).where_ = where_)
      (hpath : (s.apps self).path = joined path) : Leads s low where_ self path self []
  | step {path : List Bytes} {app sub : AppRef} {name : Bytes} {names : List Bytes}
      (hlow : low ≤ app) (hmade : app < s.nextApp)
      (hsub : (s.apps app).mmAlias name = some (.app sub))
      (hrest : Leads s low where_ self (path ++ [name]) sub names) :
      Leads s low where_ self path app (name :: names)

/-- Only the applications on the way matter. -/
theorem Leads.congr {s s' : AliasTree} {low low' : AppRef} {where_ : Bytes} {self app : AppRef}
    {path names : List Bytes} (h : Leads s low where_ self path app names) (hlow' : low' ≤ low)
    (hnext : s.nextApp ≤ s'.nextApp)
    (hsame : ∀ ref, low ≤ ref → ref < s.nextApp → s'.apps ref = s.apps ref) :
    Leads s' low' where_ self path app names := by
  induction h with
  | here hlow hmade htype hwhere hpath =>
      have hself := hsame self hlow hmade
      exact .here (hlow'.trans hlow) (Nat.lt_of_lt_of_le hmade hnext) (hself ▸ htype)
        (hself ▸ hwhere) (hself ▸ hpath)
  | @step path app sub name names hlow hmade hsub hrest ih =>
      exact .step (hlow'.trans hlow) (Nat.lt_of_lt_of_le hmade hnext)
        (hsame app hlow hmade ▸ hsub) ih

/-- What `self_` is after an application was made: the end of the chain, if it has one. -/
def SelfAfter (s : AliasTree) (low app : AppRef) (path : List Bytes)
    (self_ self_' : Option AppRef) : (chain : Option (List Bytes × Bytes)) → Prop
  | none => self_' = self_
  | some (names, where_) => ∃ self, self_' = some self ∧ Leads s low where_ self path app names

/-- What `self_` is after the applications of `app` were made. -/
def SelfAfterApps (s : AliasTree) (low app : AppRef) (path : List Bytes)
    (self_ self_' : Option AppRef) : (chain : Option (List Bytes × Bytes)) → Prop
  | none => self_' = self_
  | some (names, where_) => ∃ name rest sub self, names = name :: rest ∧ self_' = some self ∧
      (s.apps app).mmAlias name = some (.app sub) ∧
      Leads s low where_ self (path ++ [name]) sub rest

theorem SelfAfterApps.mono {s : AliasTree} {low low' app : AppRef} {path : List Bytes}
    {self_ self_' : Option AppRef} {chain : Option (List Bytes × Bytes)}
    (h : SelfAfterApps s low app path self_ self_' chain) (hlow : low' ≤ low) :
    SelfAfterApps s low' app path self_ self_' chain := by
  cases chain with
  | none => exact h
  | some found =>
      obtain ⟨name, rest, sub, self, hnames, hself, hsub, hleads⟩ := h
      exact ⟨name, rest, sub, self, hnames, hself, hsub,
        hleads.congr hlow (Nat.le_refl _) fun _ _ _ => rfl⟩

/-- The applications of `app` are made, and so is `app`. -/
theorem SelfAfterApps.selfAfter {s : AliasTree} {low app : AppRef} {path : List Bytes}
    {self_ self_' : Option AppRef} {chain : Option (List Bytes × Bytes)}
    (h : SelfAfterApps s low app path self_ self_' chain) (hlow : app ≤ low)
    (hmade : app < s.nextApp) : SelfAfter s app app path self_ self_' chain := by
  cases chain with
  | none => exact h
  | some found =>
      obtain ⟨first, rest, sub, self, hnames, hself, hsub, hleads⟩ := h
      refine ⟨self, hself, ?_⟩
      rw [hnames]
      exact .step (Nat.le_refl _) hmade hsub
        (hleads.congr hlow (Nat.le_refl _) fun _ _ _ => rfl)

/-- An application that was made has got its name under `app`. -/
theorem SelfAfter.named {s s' : AliasTree} {low app sub : AppRef} {path : List Bytes}
    {name : Bytes} {self_ self_' : Option AppRef} {chain : Option (List Bytes × Bytes)}
    (h : SelfAfter s low sub (path ++ [name]) self_ self_' chain)
    (hsub : (s'.apps app).mmAlias name = some (.app sub)) (hnext : s.nextApp ≤ s'.nextApp)
    (hsame : ∀ ref, low ≤ ref → ref < s.nextApp → s'.apps ref = s.apps ref) :
    SelfAfterApps s' low app path self_ self_'
      (chain.map fun found => (name :: found.1, found.2)) := by
  cases chain with
  | none => exact h
  | some found =>
      obtain ⟨self, hself, hleads⟩ := h
      exact ⟨name, found.1, sub, self, rfl, hself, hsub,
        hleads.congr (Nat.le_refl _) hnext hsame⟩

/-- The path of an application that is made under `parent`. -/
def parentPath (s : AliasTree) (parent : Option AppRef) : Bytes :=
  (parent.map fun ref => (s.apps ref).path).getD []

/-- `make_app_alias` of a single application. -/
theorem makeAppAlias_single {depth : Nat} {s s' : AliasTree} {name selfName where_ : Bytes}
    {obj members : CMjson} {self_ parent : Option AppRef} (hname : name ≠ [])
    (hproperty : getProperty obj = .ok ⟨literal "single", selfName, where_⟩)
    (hmembers : obj.HasObject "svc-pvd" members)
    (hloop : members.foldlM (appendPvdAlias s.nextApp)
      (s.makeApp ⟨s.parentPath parent, name, .single, where_, .empty⟩) = .ok s') :
    makeAppAlias (depth + 1) s name obj self_ parent =
      .ok (s.nextApp, some s.nextApp, s') := by
  have hconvert : CAliasAPP.convert (literal "single") = .ok .single := rfl
  rw [parentPath] at hloop
  rw [makeAppAlias, if_neg hname, hproperty, ok_bind, hconvert, ok_bind]
  dsimp only
  rw [hmembers.getMemberObject, ok_bind, hloop]
  rfl

/-- `make_app_alias` of a multiple application. -/
theorem makeAppAlias_multi {depth : Nat} {s s' : AliasTree} {name selfName where_ : Bytes}
    {obj members : CMjson} {self_ self_' parent : Option AppRef} (hname : name ≠ [])
    (hproperty : getProperty obj = .ok ⟨literal "multi", selfName, where_⟩)
    (hmembers : obj.HasObject "app" members)
    (hloop : members.foldlM (appendSubApp
        (fun t name obj self_ => makeAppAlias depth t name obj self_ (some s.nextApp)) s.nextApp
        selfName)
      (self_, s.makeApp ⟨s.parentPath parent, name, .multiple, [], .empty⟩) = .ok (self_', s')) :
    makeAppAlias (depth + 1) s name obj self_ parent = .ok (s.nextApp, self_', s') := by
  have hconvert : CAliasAPP.convert (literal "multi") = .ok .multiple := rfl
  rw [parentPath] at hloop
  rw [makeAppAlias, if_neg hname, hproperty, ok_bind, hconvert, ok_bind]
  dsimp only
  rw [hmembers.getMemberObject, ok_bind, hloop]
  rfl

/-- One turn of the loop over applications, which hands `self_` to the named one only. -/
theorem appendSubApp_ok
    {make : AliasTree → Bytes → CMjson → Option AppRef →
      Outcome (AppRef × Option AppRef × AliasTree)}
    {s s₁ s₂ : AliasTree} {app sub : AppRef} {self_ self₁ : Option AppRef}
    {propertyName key : Bytes} {obj : CMjson}
    (hmake : make s (CString.text key) obj
      (if propertyName = CString.text key then self_ else none) = .ok (sub, self₁, s₁))
    (hset : s₁.setAlias app (CString.text key) (.app sub) = .ok s₂) :
    appendSubApp make app propertyName (self_, s) (key, .object obj) =
      .ok (if propertyName = CString.text key then self₁ else self_, s₂) := by
  rw [appendSubApp, CMjson.getSecondObject, ok_bind, CMjson.getFirst]
  split at hmake
  · next hname =>
      rw [if_pos hname, hmake, ok_bind, if_pos hname]
      dsimp only
      rw [hset]
      rfl
  · next hname =>
      rw [if_neg hname, hmake, ok_bind, if_neg hname]
      dsimp only
      rw [hset]
      rfl

mutual

/-- `make_app_alias` makes the application that an object describes. -/
theorem makeAppAlias_of_readFrom : (tree : AppTree) → {depth : Nat} → (s : AliasTree) →
    {name : Bytes} → {obj : CMjson} → (self_ parent : Option AppRef) → {path : List Bytes} →
    tree.WellNamed → tree.ReadFrom obj → Json.depthOfMembers obj < depth → IsKey name →
    (∀ part ∈ path, IsKey part) → s.parentPath parent = joined path →
    ∃ s' self_', makeAppAlias depth s name obj self_ parent = .ok (s.nextApp, self_', s') ∧
      Makes s s' ((tree.leaves (path ++ [name])).map fun leaf => (joined leaf.1, leaf.2)) ∧
      s.nextApp < s'.nextApp ∧ (∀ ref < s.nextApp, s'.apps ref = s.apps ref) ∧
      s'.mmRscs = s.mmRscs ∧
      SelfAfter s' s.nextApp s.nextApp (path ++ [name]) self_ self_' tree.chain
  | .single where_ pvds, depth + 1, s, name, obj, self_, parent, path, hnamed, hread, hdepth, hname,
      hpath, hparent => by
      rw [AppTree.WellNamed] at hnamed
      rw [AppTree.ReadFrom] at hread
      obtain ⟨properties, selfName, members, hproperties, htype, hself, hwhere, hne, hmembers,
        hpvds⟩ := hread
      have hproperty := getProperty_of_hasText hproperties htype hself hwhere (fun _ => hne)
        (fun h => absurd h (by decide))
      let made : CAliasAPP :=
        { pathParent := s.parentPath parent, name := name, type := .single, where_ := where_
          mmAlias := .empty }
      have happ : (s.makeApp made).apps s.nextApp = made := Function.update_self ..
      have hmadePath : made.path = joined (path ++ [name]) := by
        rw [joined_snoc hpath, ← hparent]
        rfl
      obtain ⟨s', hs', hmakes, hleaves, hnext⟩ := appendPvdAliases_of_readFrom hpvds
        (fun pvd hmem => (hnamed.1 pvd hmem).1) s.nextApp (s.makeApp made)
      have hnext' : s'.nextApp = s.nextApp + 1 := hnext
      have hown := hleaves.own
      rw [happ] at hmakes hown
      refine ⟨s', some s.nextApp, ?_, ?_, hnext' ▸ Nat.lt_succ_self _, hleaves.kept_of_makeApp,
        hleaves.rscs, s.nextApp, rfl, ?_⟩
      · exact makeAppAlias_single hname.1 hproperty hmembers hs'
      · rw [AppTree.leaves, List.map_map]
        rw [hmadePath] at hmakes
        exact ⟨hmakes.count, hmakes.views, hmakes.kept⟩
      · refine .here (Nat.le_refl _) (hnext' ▸ Nat.lt_succ_self _) ?_ ?_ ?_
        · rw [hown]
        · rw [hown]
        · rw [hown]
          exact hmadePath
  | .multi selfName apps, depth + 1, s, name, obj, self_, parent, path, hnamed, hread, hdepth,
      hname, hpath, hparent => by
      rw [AppTree.WellNamed] at hnamed
      rw [AppTree.ReadFrom] at hread
      obtain ⟨properties, where_, members, hproperties, htype, hself, hwhere, hne, hmembers,
        happs⟩ := hread
      have hproperty := getProperty_of_hasText hproperties htype hself hwhere
        (fun h => absurd h (by decide)) (fun _ => hne)
      let made : CAliasAPP :=
        { pathParent := s.parentPath parent, name := name, type := .multiple, where_ := []
          mmAlias := .empty }
      have happ : (s.makeApp made).apps s.nextApp = made := Function.update_self ..
      have hmadePath : made.path = joined (path ++ [name]) := by
        rw [joined_snoc hpath, ← hparent]
        rfl
      have hkeys : ∀ part ∈ path ++ [name], IsKey part := by
        intro part hpart
        rw [List.mem_append, List.mem_singleton] at hpart
        obtain hpart | rfl := hpart
        · exact hpath part hpart
        · exact hname
      have happPath : ((s.makeApp made).apps s.nextApp).path = joined (path ++ [name]) := by
        rw [happ]
        exact hmadePath
      have hfree : ∀ other ∈ apps.names,
          ((s.makeApp made).apps s.nextApp).mmAlias other = none := by
        intro other _
        rw [happ]
        rfl
      have hless := Json.depthOfMembers_lt_of_find hmembers
      obtain ⟨s', self_', hs', hmakes, hleaves, -, hafter⟩ := appendSubApps_of_readFrom apps
        (s.makeApp made) self_ s.nextApp selfName hnamed happs
        (Nat.le_of_lt_succ (hless.trans hdepth)) (Nat.lt_succ_self _) hkeys happPath hfree
      refine ⟨s', self_', makeAppAlias_multi hname.1 hproperty hmembers hs',
        ⟨hmakes.count, hmakes.views, hmakes.kept⟩, hleaves.next, hleaves.kept_of_makeApp,
        hleaves.rscs, ?_⟩
      rw [AppTree.chain]
      exact hafter.selfAfter (Nat.le_succ _) hleaves.next

/-- The loop over the applications of a multiple application makes what their members describe. -/
theorem appendSubApps_of_readFrom : (apps : AppForest) → {depth : Nat} → (s : AliasTree) →
    {members : CMjson} → (self_ : Option AppRef) → (app : AppRef) → (propertyName : Bytes) →
    {path : List Bytes} → apps.WellNamed → apps.ReadFrom members →
    Json.depthOfMembers members ≤ depth → app < s.nextApp →
    (∀ part ∈ path, IsKey part) → (s.apps app).path = joined path →
    (∀ name ∈ apps.names, (s.apps app).mmAlias name = none) →
    ∃ s' self_', members.foldlM (appendSubApp
        (fun s name obj self_ => makeAppAlias depth s name obj self_ (some app)) app propertyName)
        (self_, s) = .ok (self_', s') ∧
      Makes s s' ((apps.leaves path).map fun leaf => (joined leaf.1, leaf.2)) ∧
      Leaves s s' app ∧
      (∀ name ∉ apps.names, (s'.apps app).mmAlias name = (s.apps app).mmAlias name) ∧
      SelfAfterApps s' s.nextApp app path self_ self_' (apps.chain propertyName)
  | .nil, depth, s, members, self_, app, propertyName, path, hnamed, hread, hdepth, happ, hpath,
      hparent, hfree => by
      rw [AppForest.ReadFrom] at hread
      subst hread
      exact ⟨s, self_, rfl, .of_same rfl rfl, .refl s app, fun _ _ => rfl, rfl⟩
  | .cons name tree rest, depth, s, members, self_, app, propertyName, path, hnamed, hread, hdepth,
      happ, hpath, hparent, hfree => by
      rw [AppForest.WellNamed] at hnamed
      rw [AppForest.ReadFrom] at hread
      obtain ⟨hname, hother, htree, hrest⟩ := hnamed
      obtain ⟨key, obj, more, rfl, rfl, hreadTree, hreadRest⟩ := hread
      rw [Json.depthOfMembers, Json.depth, Nat.max_le] at hdepth
      -- the application itself
      obtain ⟨s₁, self₁, hmake, hmakes₁, hnext₁, hkept₁, hrscs₁, hafter₁⟩ :=
        makeAppAlias_of_readFrom tree s
          (if propertyName = CString.text key then self_ else none) (some app) htree hreadTree
          hdepth.1 hname hpath hparent
      -- its name under `app`
      obtain ⟨s₂, hset⟩ := setAlias_of_ne_nil s₁ app (.app s.nextApp) hname.1
      obtain ⟨-, hheap, hdata, hrscs, hnext, hothers, hown, hinsert⟩ := setAlias_ok hset
      have hsame₁ := hkept₁ app happ
      have hleaves₁ : Leaves s s₁ app :=
        ⟨Nat.le_of_lt hnext₁, fun ref hlt _ => hkept₁ ref hlt, by rw [hsame₁], hrscs₁⟩
      have hleaves₂ := hleaves₁.trans (Leaves.of_setAlias hset)
      have hmakes₂ := hmakes₁.trans (Makes.of_same hheap hdata)
      have hnames₂ : (s₂.apps app).mmAlias =
          (s.apps app).mmAlias.insert (CString.text key) (.app s.nextApp) := by
        have hnew := hfree (CString.text key) (List.mem_cons_self ..)
        rw [← hsame₁] at hnew
        rw [hinsert hnew, hsame₁]
      have hfree₂ : ∀ name ∈ rest.names, (s₂.apps app).mmAlias name = none := by
        intro name hmem
        have hne : name ≠ CString.text key := fun heq => hother (heq ▸ hmem)
        rw [hnames₂, PartialMap.insert_of_ne _ hne]
        exact hfree name (List.mem_cons_of_mem _ hmem)
      -- the applications behind it
      obtain ⟨s', self', hloop, hmakes', hleaves', hnames', hafter'⟩ :=
        appendSubApps_of_readFrom rest s₂
          (if propertyName = CString.text key then self₁ else self_) app propertyName hrest
          hreadRest hdepth.2 (Nat.lt_of_lt_of_le happ hleaves₂.next) hpath
          (hleaves₂.path_eq.trans hparent) hfree₂
      refine ⟨s', self', ?_, ?_, hleaves₂.trans hleaves', ?_, ?_⟩
      · rw [List.foldlM_cons, appendSubApp_ok hmake hset, ok_bind]
        exact hloop
      · rw [AppForest.leaves, List.map_append]
        rw [List.append_nil] at hmakes₂
        exact hmakes₂.trans hmakes'
      · intro name hnot
        rw [AppForest.names, List.mem_cons, not_or] at hnot
        rw [hnames' name hnot.2, hnames₂, PartialMap.insert_of_ne _ hnot.1]
      · rw [AppForest.chain]
        by_cases hsel : propertyName = CString.text key
        · -- this is the own application of `app`, and no other is
          rw [if_pos hsel] at hafter₁ hafter' ⊢
          rw [rest.chain_of_notMem (hsel ▸ hother)] at hafter'
          obtain rfl : self' = self₁ := hafter'
          apply hafter₁.named
          · rw [hnames' _ hother, hnames₂, PartialMap.insert_self]
          · rw [← hnext]
            exact hleaves'.next
          · intro ref hlow hlt
            have hne : ref ≠ app := (Nat.ne_of_lt (Nat.lt_of_lt_of_le happ hlow)).symm
            rw [hleaves'.others ref (hnext.symm ▸ hlt) hne, hothers ref hne]
        · rw [if_neg hsel] at hafter' ⊢
          exact hafter'.mono hleaves₂.next

end

/-- `append_rsc_alias` of an application whose chain ends. -/
theorem appendRscAlias_ok {depth : Nat} {s s' : AliasTree} {key : Bytes} {obj : CMjson}
    {app self : AppRef} (hname : CString.text key ≠ [])
    (hmake : makeAppAlias depth s (CString.text key) obj none none = .ok (app, some self, s')) :
    appendRscAlias depth s (key, .object obj) =
      .ok { s' with mmRscs := s'.mmRscs.insert (CString.text key) (app, self) } := by
  have hfirst : CMjson.getFirst (key, .object obj) ≠ [] := hname
  rw [appendRscAlias, CMjson.getSecondObject, ok_bind, if_neg hfirst, CMjson.getFirst, hmake]
  rfl

/-- The loop over the resources. -/
theorem appendRscAliases_of_readFrom : (resources : AppForest) → {depth : Nat} →
    (s : AliasTree) → {members : CMjson} → resources.WellNamed → resources.ReadFrom members →
    Json.depthOfMembers members ≤ depth → (∀ entry ∈ resources.entries, entry.2.chain ≠ none) →
    ∃ s', members.foldlM (appendRscAlias depth) s = .ok s' ∧
      Makes s s' ((resources.leaves []).map fun leaf => (joined leaf.1, leaf.2)) ∧
      s.nextApp ≤ s'.nextApp ∧ (∀ ref < s.nextApp, s'.apps ref = s.apps ref) ∧
      (∀ name ∉ resources.names, s'.mmRscs name = s.mmRscs name) ∧
      ∀ entry ∈ resources.entries, ∃ names where_ rsc self,
        entry.2.chain = some (names, where_) ∧ s'.mmRscs entry.1 = some (rsc, self) ∧
        Leads s' s.nextApp where_ self [entry.1] rsc names
  | .nil, depth, s, members, hnamed, hread, hdepth, hchain => by
      rw [AppForest.ReadFrom] at hread
      subst hread
      exact ⟨s, rfl, .of_same rfl rfl, Nat.le_refl _, fun _ _ => rfl, fun _ _ => rfl,
        fun entry hmem => by cases hmem⟩
  | .cons name tree rest, depth, s, members, hnamed, hread, hdepth, hchain => by
      rw [AppForest.WellNamed] at hnamed
      rw [AppForest.ReadFrom] at hread
      obtain ⟨hname, hother, htree, hrest⟩ := hnamed
      obtain ⟨key, obj, more, rfl, rfl, hreadTree, hreadRest⟩ := hread
      rw [Json.depthOfMembers, Json.depth, Nat.max_le] at hdepth
      rw [AppForest.entries] at hchain
      have hroot : s.parentPath none = joined [] := rfl
      obtain ⟨s₁, self₁, hmake, hmakes₁, hnext₁, hkept₁, hrscs₁, hafter₁⟩ :=
        makeAppAlias_of_readFrom tree s none none htree hreadTree hdepth.1 hname
          (fun part hpart => by cases hpart) hroot
      have hends := hchain _ (List.mem_cons_self ..)
      obtain ⟨found, hfound⟩ := Option.ne_none_iff_exists'.mp hends
      dsimp only at hfound
      rw [hfound] at hafter₁
      obtain ⟨self, rfl, hleads⟩ := hafter₁
      -- the resource is entered
      let s₂ : AliasTree :=
        { s₁ with mmRscs := s₁.mmRscs.insert (CString.text key) (s.nextApp, self) }
      obtain ⟨s', hloop, hmakes', hnext', hkept', hrscs', hself'⟩ :=
        appendRscAliases_of_readFrom rest s₂ hrest hreadRest hdepth.2
          (fun entry hmem => hchain entry (List.mem_cons_of_mem _ hmem))
      have hkept : ∀ ref < s₁.nextApp, s'.apps ref = s₁.apps ref := hkept'
      have hrscs₂ : s₂.mmRscs = s.mmRscs.insert (CString.text key) (s.nextApp, self) :=
        hrscs₁ ▸ rfl
      have hmakes₂ : Makes s s₂ _ := ⟨hmakes₁.count, hmakes₁.views, hmakes₁.kept⟩
      refine ⟨s', ?_, ?_, (Nat.le_of_lt hnext₁).trans hnext', ?_, ?_, ?_⟩
      · rw [List.foldlM_cons, appendRscAlias_ok hname.1 hmake, ok_bind]
        exact hloop
      · rw [AppForest.leaves, List.map_append]
        exact hmakes₂.trans hmakes'
      · intro ref hlt
        rw [hkept ref (hlt.trans hnext₁), hkept₁ ref hlt]
      · intro other hnot
        rw [AppForest.names, List.mem_cons, not_or] at hnot
        rw [hrscs' other hnot.2, hrscs₂, PartialMap.insert_of_ne _ hnot.1]
      · intro entry hmem
        rw [AppForest.entries, List.mem_cons] at hmem
        obtain rfl | hmem := hmem
        · refine ⟨found.1, found.2, s.nextApp, self, hfound, ?_, ?_⟩
          · rw [hrscs' _ hother, hrscs₂, PartialMap.insert_self]
          · exact hleads.congr (Nat.le_refl _) hnext' fun ref _ hlt => hkept ref hlt
        · obtain ⟨names, where_, rsc, own, hends', hrsc, hleads'⟩ := hself' entry hmem
          exact ⟨names, where_, rsc, own, hends', hrsc,
            hleads'.congr (Nat.le_of_lt hnext₁) (Nat.le_refl _) fun _ _ _ => rfl⟩

/-- The application that `CAliasAPP::get` finds under the names, one after the other. -/
def follow (s : AliasTree) : (app : AppRef) → (names : List Bytes) → Option AppRef
  | app, [] => some app
  | app, name :: rest =>
      match (s.apps app).mmAlias name with
      | some (.app sub) => s.follow sub rest
      | _ => none

theorem Leads.follow {s : AliasTree} {low : AppRef} {where_ : Bytes} {self app : AppRef}
    {path names : List Bytes} (h : Leads s low where_ self path app names) :
    s.follow app names = some self ∧ (s.apps self).type = .single ∧
      (s.apps self).where_ = where_ ∧ (s.apps self).path = joined (path ++ names) := by
  induction h with
  | here hlow hmade htype hwhere hpath =>
      rw [List.append_nil]
      exact ⟨rfl, htype, hwhere, hpath⟩
  | @step path app sub name names hlow hmade hsub hrest ih =>
      rw [AliasTree.follow, hsub, List.append_cons]
      exact ih

end AliasTree

/-- The providers that a forest describes in document order, each with the path of its
application. -/
def AppForest.providers (resources : AppForest) : List (Bytes × PvdLeaf) :=
  (resources.leaves []).map fun leaf => (joined leaf.1, leaf.2)

/-- No two of them have the same application and name. -/
theorem AppForest.nodup_providers {resources : AppForest} (hnamed : resources.WellNamed) :
    (resources.providers.map fun provider => (provider.1, provider.2.name)).Nodup := by
  have hkeys : ∀ leaf ∈ resources.leaves [], ∀ name ∈ leaf.1, IsKey name :=
    fun leaf hmem => resources.isKey_of_mem_leaves hnamed (fun _ h => by cases h) hmem
  have hsame : (resources.providers.map fun provider => (provider.1, provider.2.name)) =
      ((resources.leaves []).map leafName).map fun k => (joined k.1, k.2) := by
    rw [AppForest.providers, List.map_map, List.map_map]
    rfl
  rw [hsame]
  apply List.Nodup.map_on _ (resources.nodup_leaves hnamed)
  intro k hk k' hk' heq
  obtain ⟨leaf, hleaf, rfl⟩ := List.mem_map.mp hk
  obtain ⟨leaf', hleaf', rfl⟩ := List.mem_map.mp hk'
  obtain ⟨hpath, hname⟩ := Prod.mk.inj heq
  exact Prod.ext ((joined_inj (hkeys leaf hleaf) (hkeys leaf' hleaf')).mp hpath) hname

namespace AliasTree

/-- A load of a described document succeeds. It lists the providers of the document by type and by
application, a lookup finds the one provider of this application and name, and every resource has
the application at the end of its chain as its own. -/
theorem init_described (heap : AliasHeap) {document : Json} {resources : AppForest}
    (hread : resources.DescribedBy document) (hnamed : resources.WellNamed)
    (hchain : ∀ entry ∈ resources.entries, entry.2.chain ≠ none) :
    ∃ s, (empty heap).init document = .ok s ∧
      (∀ pvdType, (s.config.mmPvds pvdType).map s.view =
        resources.providers.filter fun provider => provider.2.type = pvdType) ∧
      (∀ appPath pvdType, (s.config.listing appPath pvdType).map s.view =
        resources.providers.filter fun provider =>
          provider.2.type = pvdType ∧ provider.1 = appPath) ∧
      (∀ appPath pvdId, ∃ found, s.config.getProviderOfApp s.heap appPath pvdId = .ok found ∧
        found.map s.view = resources.providers.find? fun provider =>
          provider.1 = appPath ∧ provider.2.name = pvdId) ∧
      ∀ entry ∈ resources.entries, ∃ names where_ rsc self,
        entry.2.chain = some (names, where_) ∧ s.mmRscs entry.1 = some (rsc, self) ∧
        s.follow rsc names = some self ∧ (s.apps self).type = .single ∧
        (s.apps self).where_ = where_ ∧ (s.apps self).path = joined (entry.1 :: names) := by
  obtain ⟨root, members, rfl, haliases, hmembers⟩ := hread
  have hdepth : Json.depthOfMembers members ≤ (Json.object root).depth := by
    rw [Json.depth]
    exact Nat.le_succ_of_le (Nat.le_of_lt (Json.depthOfMembers_lt_of_find haliases))
  obtain ⟨s, hloop, hmakes, -, -, -, hself⟩ :=
    appendRscAliases_of_readFrom resources (empty heap) hnamed hmembers hdepth hchain
  have hinit : (empty heap).init (.object root) = .ok s := by
    rw [init, CMjson.getSecondObject, ok_bind, haliases.getMemberObject, ok_bind, hloop]
  -- what was made is what is listed
  obtain ⟨-, hholds⟩ := listed_of_construct
    (show construct heap (some (.object root)) = .ok s from hinit)
  have hcount : s.heap.nextRef - heap.nextRef = resources.providers.length := by
    rw [hmakes.count]
    exact Nat.add_sub_cancel_left ..
  rw [hcount] at hholds
  have hviews : (List.range' heap.nextRef resources.providers.length).map s.view =
      resources.providers := hmakes.views
  generalize List.range' heap.nextRef resources.providers.length = refs at hholds hviews
  have hnodup : (refs.map (CConfigAliases.nameOf s.heap)).Nodup := by
    have hsame : refs.map (CConfigAliases.nameOf s.heap) =
        resources.providers.map fun provider => (provider.1, provider.2.name) := by
      rw [← hviews, List.map_map]
      rfl
    rw [hsame]
    exact AppForest.nodup_providers hnamed
  have hpvds : ∀ pvdType, s.config.mmPvds pvdType =
      refs.filter fun ref => (s.heap.objects ref).type = pvdType := by
    intro pvdType
    rw [hholds.pvds]
    exact firsts_of_nodup (hnodup.sublist (List.filter_sublist.map _))
  refine ⟨s, hinit, ?_, ?_, ?_, ?_⟩
  · intro pvdType
    rw [hpvds, ← hviews, List.filter_map]
    rfl
  · intro appPath pvdType
    rw [hholds.listed, hpvds, List.filter_filter, ← hviews, List.filter_map]
    congr 1
    apply List.filter_congr
    intro ref _
    rw [Bool.eq_iff_iff, Bool.and_eq_true, decide_eq_true_iff, decide_eq_true_iff, and_comm]
    exact decide_eq_true_iff.symm
  · intro appPath pvdId
    refine ⟨_, hholds.getProviderOfApp hnodup appPath pvdId, ?_⟩
    rw [← hviews, List.find?_map]
    have hsame : ∀ ref, decide (CConfigAliases.nameOf s.heap ref = (appPath, pvdId)) =
        decide ((s.view ref).1 = appPath ∧ (s.view ref).2.name = pvdId) := by
      intro ref
      rw [decide_eq_decide]
      exact Prod.mk.injEq .. ▸ Iff.rfl
    simp only [hsame]
    rfl
  · intro entry hmem
    obtain ⟨names, where_, rsc, self, hends, hrsc, hleads⟩ := hself entry hmem
    exact ⟨names, where_, rsc, self, hends, hrsc, hleads.follow⟩

/-- A resource with an application `b`, which is its own and has a provider `p` at port 12. -/
def houseDocument : Json :=
  let text (s : String) : Json := .string (literal s)
  .object [(literal "aliases", .object [(literal "A", .object
    [(literal "properties", .object
      [(literal "type", text "multi"), (literal "name", text "b"), (literal "where", text "")]),
     (literal "app", .object [(literal "b", .object
      [(literal "properties", .object
        [(literal "type", text "single"), (literal "name", text "self"),
         (literal "where", text "here")]),
       (literal "svc-pvd", .object [(literal "p", .object
        [(literal "provider-type", text "udp"),
         (literal "address", .object [(literal "port", text "12")])])])])])])])]

/-- What it describes. -/
def house : AppForest :=
  .cons (literal "A") (.multi (literal "b") (.cons (literal "b") (.single (literal "here")
    [⟨literal "p", .transUDP, IAliasPVD.convertible_transUDP, .trans ⟨[], 0, 12⟩⟩]) .nil)) .nil

theorem house_describedBy : house.DescribedBy houseDocument := by
  have hport : TransAddress .cleared [(literal "port", .string (literal "12"))] ⟨[], 0, 12⟩ :=
    .port rfl rfl .nil
  refine ⟨_, _, rfl, rfl, _, _, _, rfl, rfl, ?_, rfl⟩
  refine ⟨_, literal "", _, rfl, ⟨_, rfl, rfl⟩, ⟨_, rfl, rfl⟩, ⟨_, rfl, rfl⟩, by decide, rfl, ?_⟩
  refine ⟨_, _, _, rfl, rfl, ?_, rfl⟩
  refine ⟨_, literal "self", _, rfl, ⟨_, rfl, rfl⟩, ⟨_, rfl, rfl⟩, ⟨_, rfl, rfl⟩, by decide, rfl,
    .cons ?_ .nil⟩
  exact ⟨rfl, _, _, rfl, ⟨_, rfl, rfl⟩, rfl, by decide, hport⟩

theorem isKey_of_house : IsKey (literal "A") ∧ IsKey (literal "b") ∧ IsKey (literal "p") := by
  unfold IsKey
  decide

theorem house_wellNamed : house.WellNamed := by
  obtain ⟨hA, hb, hp⟩ := isKey_of_house
  have hpvds : (AppTree.single (literal "here") [⟨literal "p", .transUDP,
      IAliasPVD.convertible_transUDP, .trans ⟨[], 0, 12⟩⟩]).WellNamed := by
    refine ⟨?_, List.nodup_singleton _⟩
    intro pvd hmem
    rw [List.mem_singleton.mp hmem]
    exact hp
  have hnone : ∀ name, name ∉ AppForest.names .nil := fun name hmem => by cases hmem
  exact ⟨hA, hnone _, ⟨hb, hnone _, hpvds, trivial⟩, trivial⟩

/-- No alias objects. -/
def noAliases : AliasHeap :=
  { objects := fun _ => ⟨[], [], .transUDP, IAliasPVD.convertible_transUDP⟩, nextRef := 0 }

/-- The application `A/b` has its provider, and is the own application of the resource. -/
theorem house_loaded : ∃ s, (empty noAliases).init houseDocument = .ok s ∧
    (∃ ref, s.config.getProviderOfApp s.heap (literal "A/b") (literal "p") = .ok (some ref)) ∧
    ∃ rsc self, s.mmRscs (literal "A") = some (rsc, self) ∧
      (s.apps self).path = literal "A/b" := by
  have hchain : ∀ entry ∈ house.entries, entry.2.chain ≠ none := by
    intro entry hmem
    rw [show house.entries = [(literal "A", _)] from rfl, List.mem_singleton] at hmem
    subst hmem
    exact Option.some_ne_none _
  obtain ⟨s, hinit, -, -, hfound, hself⟩ :=
    init_described noAliases house_describedBy house_wellNamed hchain
  refine ⟨s, hinit, ?_, ?_⟩
  · obtain ⟨found, hget, hview⟩ := hfound (literal "A/b") (literal "p")
    have hsome : (house.providers.find? fun provider =>
        provider.1 = literal "A/b" ∧ provider.2.name = literal "p").isSome := by decide
    rw [← hview, Option.isSome_map] at hsome
    obtain ⟨ref, rfl⟩ := Option.isSome_iff_exists.mp hsome
    exact ⟨ref, hget⟩
  · obtain ⟨names, where_, rsc, self, hends, hrsc, -, -, -, hpath⟩ :=
      hself _ (List.mem_cons_self ..)
    obtain ⟨rfl, -⟩ := Prod.mk.inj (Option.some.inj hends)
    exact ⟨rsc, self, hrsc, hpath⟩

end AliasTree

end CommonCommunicator
