import CommonCommunicator.Protocol.Chain
import Mathlib.Data.List.Forall2

/-!
# The elements of a chain, one by one

Packing and unpacking call `pack` and `unpack` of single elements; nothing else
happens to an element. A relation between the places of a chain and the elements
in them is kept by the chain if it is kept by these calls.
-/

namespace CommonCommunicator

variable {α Head : Type}

/-- Packing through a chain keeps the relation. An exception of `pack_recursive` drops the element's
segments. -/
structure KeptByPacking (R : α → Protocol Head → Prop) : Prop where
  pack : ∀ {a p p' now msg pvd fromApp res}, R a p →
    p.pack now msg pvd fromApp = .ok (res, p') → R a p'
  drop : ∀ {a p}, R a p → R a { p with segments := [] }

/-- Related elements pack every message alike: they push the same segments and stay related, or end
in the same fault. -/
structure PacksAlike (R : Protocol Head → Protocol Head → Prop) (now : UInt64) (pvd : ProviderType)
    (fromApp : Bytes) : Prop where
  name : ∀ {p q}, R p q → p.cls.name = q.cls.name
  segments : ∀ {p q}, R p q → p.segments = q.segments
  pack : ∀ {p q} msg, R p q → OutcomeRel (fun packed packed' => packed.1 = packed'.1 ∧
    R packed.2 packed'.2) (p.pack now msg pvd fromApp) (q.pack now msg pvd fromApp)

/-- The calls of a chain on one of its elements keep the relation. An exception of `pack_recursive`
drops the element's segments. -/
structure KeptByCalls (R : α → Protocol Head → Prop) : Prop where
  pack : ∀ {a p p' now msg pvd fromApp res}, R a p →
    p.pack now msg pvd fromApp = .ok (res, p') → R a p'
  unpack : ∀ {a p p' mem msgSize res}, R a p → p.unpack mem msgSize = .ok (res, p') → R a p'
  drop : ∀ {a p}, R a p → R a { p with segments := [] }

section Elements

open ProtoChain

variable {R : α → Protocol Head → Prop} {places : List α}
  {elements elements' : List (Protocol Head)} {now : UInt64} {msg fromApp mem : Bytes}
  {pvd : ProviderType} {msgSize : Nat}

/-- What holds of everything is kept. -/
theorem KeptByCalls.any : KeptByCalls fun (_ : α) (_ : Protocol Head) => True where
  pack := fun _ _ => trivial
  unpack := fun _ _ => trivial
  drop := fun _ => trivial

theorem KeptByCalls.keptByPacking (h : KeptByCalls R) : KeptByPacking R := ⟨h.pack, h.drop⟩

/-- Changing one element in a way that keeps the relation keeps it for all. -/
theorem KeptByCalls.modify {f : Protocol Head → Protocol Head} (hf : ∀ a p, R a p → R a (f p))
    (helements : List.Forall₂ R places elements) (i : Nat) :
    List.Forall₂ R places (elements.modify i f) := by
  induction helements generalizing i with
  | nil =>
      rw [List.modify_nil]
      exact List.Forall₂.nil
  | cons hp hrest ih =>
      cases i with
      | zero => exact List.Forall₂.cons (hf _ _ hp) hrest
      | succ i => exact List.Forall₂.cons hp (ih i)

/-- Putting another element in a place keeps the relation if it does so there. -/
theorem KeptByCalls.set {p p' : Protocol Head} {i : Nat}
    (helements : List.Forall₂ R places elements)
    (hp : elements[i]? = some p) (hset : ∀ a, places[i]? = some a → R a p → R a p') :
    List.Forall₂ R places (elements.set i p') := by
  induction helements generalizing i with
  | nil => exact List.Forall₂.nil
  | cons hfirst hrest ih =>
      cases i with
      | zero =>
          obtain rfl := Option.some.inj hp
          exact List.Forall₂.cons (hset _ rfl hfirst) hrest
      | succ i => exact List.Forall₂.cons hfirst (ih hp hset)

namespace KeptByPacking

theorem packSegments (h : KeptByPacking R) {a : α} {p : Protocol Head} (hp : R a p)
    (segments : List CRawMessage) : R a (packSegments now pvd fromApp p segments).2 := by
  induction segments generalizing p with
  | nil => exact hp
  | cons segment segments ih =>
      rw [ProtoChain.packSegments]
      split
      · exact hp
      · next hpack => exact h.pack hp hpack
      · next hpack => exact ih (h.pack hp hpack)

theorem packRest (h : KeptByPacking R) (helements : List.Forall₂ R places elements)
    (segments : List CRawMessage) :
    List.Forall₂ R places (packRest now pvd fromApp segments elements).2 := by
  induction helements generalizing segments with
  | nil => exact List.Forall₂.nil
  | cons hp hrest ih =>
      have hpacked := @h.packSegments _ _ _ now fromApp pvd _ _ hp segments
      rw [ProtoChain.packRest]
      split
      · next hresult =>
          rw [hresult] at hpacked
          exact List.Forall₂.cons hpacked hrest
      · next hresult =>
          rw [hresult] at hpacked
          exact List.Forall₂.cons hpacked (ih _)

theorem packElements (h : KeptByPacking R) (helements : List.Forall₂ R places elements) :
    List.Forall₂ R places (packElements now msg pvd fromApp elements).2 := by
  cases helements with
  | nil => exact List.Forall₂.nil
  | cons hp hrest =>
      rw [ProtoChain.packElements]
      split
      · exact List.Forall₂.cons hp hrest
      · next hpack => exact List.Forall₂.cons (h.pack hp hpack) hrest
      · next hpack =>
          split
          · exact List.Forall₂.cons (h.pack hp hpack) (h.packRest hrest _)
          · exact List.Forall₂.cons (h.pack hp hpack) hrest

theorem packRecursive (h : KeptByPacking R) (helements : List.Forall₂ R places elements)
    {self : Nat} {segments : List CRawMessage}
    (hpack : packRecursive elements self now msg pvd fromApp = .ok (elements', segments)) :
    List.Forall₂ R places elements' := by
  have hpacked := @h.packElements _ _ _ _ _ now msg fromApp pvd helements
  rw [ProtoChain.packRecursive] at hpack
  split at hpack
  · next hresult =>
      cases hpack
      rwa [hresult] at hpacked
  · next hresult =>
      cases hpack
      rw [hresult] at hpacked
      exact KeptByCalls.modify (fun _ _ => h.drop) hpacked self
  · cases hpack

end KeptByPacking

namespace PacksAlike

variable {R : Protocol Head → Protocol Head → Prop} {ps qs : List (Protocol Head)}

theorem packSegments (h : PacksAlike R now pvd fromApp) {p q : Protocol Head} (hpq : R p q)
    (segments : List CRawMessage) :
    (packSegments now pvd fromApp p segments).1 = (packSegments now pvd fromApp q segments).1 ∧
      R (packSegments now pvd fromApp p segments).2
        (packSegments now pvd fromApp q segments).2 := by
  induction segments generalizing p q with
  | nil => exact ⟨rfl, hpq⟩
  | cons segment segments ih =>
      have hpack := h.pack segment.content hpq
      rw [ProtoChain.packSegments, ProtoChain.packSegments]
      generalize p.pack now segment.content pvd fromApp = x at hpack ⊢
      generalize q.pack now segment.content pvd fromApp = y at hpack ⊢
      cases hpack with
      | error f => exact ⟨rfl, hpq⟩
      | @ok packed packed' related =>
          obtain ⟨res, p'⟩ := packed
          obtain ⟨res', q'⟩ := packed'
          obtain ⟨rfl, hpq'⟩ : res = res' ∧ R p' q' := related
          cases res with
          | false => exact ⟨rfl, hpq'⟩
          | true => exact ih hpq'

theorem packRest (h : PacksAlike R now pvd fromApp) (hall : List.Forall₂ R ps qs)
    (segments : List CRawMessage) :
    (packRest now pvd fromApp segments ps).1 = (packRest now pvd fromApp segments qs).1 ∧
      List.Forall₂ R (packRest now pvd fromApp segments ps).2
        (packRest now pvd fromApp segments qs).2 := by
  induction hall generalizing segments with
  | nil => exact ⟨rfl, List.Forall₂.nil⟩
  | @cons p q ps qs hpq hrest ih =>
      have hpacked := h.packSegments hpq segments
      rw [ProtoChain.packRest, ProtoChain.packRest]
      generalize ProtoChain.packSegments now pvd fromApp p segments = x at hpacked ⊢
      generalize ProtoChain.packSegments now pvd fromApp q segments = y at hpacked ⊢
      obtain ⟨res, p'⟩ := x
      obtain ⟨res', q'⟩ := y
      obtain ⟨rfl, hpq'⟩ : res = res' ∧ R p' q' := hpacked
      cases res with
      | error f => exact ⟨rfl, List.Forall₂.cons hpq' hrest⟩
      | ok _ =>
          obtain ⟨hres, hall⟩ := ih q'.segments
          simp only [h.segments hpq']
          exact ⟨hres, List.Forall₂.cons hpq' hall⟩

theorem packElements (h : PacksAlike R now pvd fromApp) (msg : Bytes)
    (hall : List.Forall₂ R ps qs) :
    (packElements now msg pvd fromApp ps).1 = (packElements now msg pvd fromApp qs).1 ∧
      List.Forall₂ R (packElements now msg pvd fromApp ps).2
        (packElements now msg pvd fromApp qs).2 := by
  cases hall with
  | nil => exact ⟨rfl, List.Forall₂.nil⟩
  | @cons p q ps qs hpq hrest =>
      have hpack := h.pack msg hpq
      rw [ProtoChain.packElements, ProtoChain.packElements]
      generalize p.pack now msg pvd fromApp = x at hpack ⊢
      generalize q.pack now msg pvd fromApp = y at hpack ⊢
      cases hpack with
      | error f => exact ⟨rfl, List.Forall₂.cons hpq hrest⟩
      | @ok packed packed' related =>
          obtain ⟨res, p'⟩ := packed
          obtain ⟨res', q'⟩ := packed'
          obtain ⟨rfl, hpq'⟩ : res = res' ∧ R p' q' := related
          cases res with
          | false => exact ⟨rfl, List.Forall₂.cons hpq' hrest⟩
          | true =>
              obtain ⟨hres, hall⟩ := h.packRest hrest q'.segments
              simp only [h.name hpq', h.segments hpq']
              split
              · exact ⟨hres, List.Forall₂.cons hpq' hall⟩
              · exact ⟨rfl, List.Forall₂.cons hpq' hrest⟩

/-- The elements of two such chains have pushed the same segments. -/
theorem segmentsAt (h : PacksAlike R now pvd fromApp) (hall : List.Forall₂ R ps qs) (self : Nat) :
    segmentsAt ps self = segmentsAt qs self := by
  induction hall generalizing self with
  | nil => rfl
  | cons hpq hrest ih =>
      cases self with
      | zero => exact h.segments hpq
      | succ self => exact ih self

end PacksAlike

namespace KeptByCalls

theorem packRecursive (h : KeptByCalls R) (helements : List.Forall₂ R places elements)
    {self : Nat} {segments : List CRawMessage}
    (hpack : packRecursive elements self now msg pvd fromApp = .ok (elements', segments)) :
    List.Forall₂ R places elements' := h.keptByPacking.packRecursive helements hpack

theorem unpackLoop (h : KeptByCalls R) {pre : Protocol Head}
    (helements : List.Forall₂ R places elements)
    (hunpack : unpackLoop pre elements = .ok elements') : List.Forall₂ R places elements' := by
  induction helements generalizing pre elements' with
  | nil =>
      cases hunpack
      exact List.Forall₂.nil
  | cons hp hrest ih =>
      rw [ProtoChain.unpackLoop] at hunpack
      split at hunpack
      · cases hunpack
        exact List.Forall₂.cons hp hrest
      · split at hunpack
        · obtain ⟨⟨res, p'⟩, helement, hunpack⟩ := bind_eq_ok.mp hunpack
          cases res with
          | false => cases hunpack
          | true =>
              obtain ⟨rest, hloop, hunpack⟩ := bind_eq_ok.mp hunpack
              cases hunpack
              exact List.Forall₂.cons (h.unpack hp helement) (ih hloop)
        · obtain ⟨rest, hloop, hunpack⟩ := bind_eq_ok.mp hunpack
          cases hunpack
          exact List.Forall₂.cons hp (ih hloop)

theorem unpackReversed (h : KeptByCalls R) (helements : List.Forall₂ R places elements)
    (hunpack : unpackReversed mem msgSize elements = .ok elements') :
    List.Forall₂ R places elements' := by
  cases helements with
  | nil => cases hunpack
  | cons hp hrest =>
      obtain ⟨⟨res, p'⟩, helement, hunpack⟩ := bind_eq_ok.mp hunpack
      cases res with
      | false => cases hunpack
      | true =>
          obtain ⟨rest, hloop, hunpack⟩ := bind_eq_ok.mp hunpack
          cases hunpack
          exact List.Forall₂.cons (h.unpack hp helement) (h.unpackLoop hrest hloop)

theorem unpackRecurcive (h : KeptByCalls R) (helements : List.Forall₂ R places elements)
    {res : Bool} (hunpack : unpackRecurcive elements mem msgSize = .ok (res, elements')) :
    List.Forall₂ R places elements' := by
  cases res with
  | true =>
      obtain ⟨-, reversed, hblock, rfl⟩ := unpackRecurcive_eq_true.mp hunpack
      have hreversed := h.unpackReversed (List.forall₂_reverse_iff.mpr helements) hblock
      rw [← List.reverse_reverse places]
      exact List.forall₂_reverse_iff.mpr hreversed
  | false =>
      rw [unpackRecurcive_eq_false hunpack]
      exact helements

end KeptByCalls

/-- Unpacking keeps the number of elements. -/
theorem ProtoChain.length_unpackRecurcive {chain : List (Protocol Head)} {res : Bool}
    (h : unpackRecurcive elements mem msgSize = .ok (res, chain)) :
    chain.length = elements.length := by
  have hplaces : List.Forall₂ (fun (_ : Unit) (_ : Protocol Head) => True)
      (elements.map fun _ => ()) elements := by
    rw [List.forall₂_map_left_iff]
    exact List.forall₂_same.mpr fun _ _ => trivial
  rw [← (KeptByCalls.any.unpackRecurcive hplaces h).length_eq, List.length_map]

end Elements

end CommonCommunicator
