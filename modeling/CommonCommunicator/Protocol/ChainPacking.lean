import CommonCommunicator.Protocol.Chain

/-!
# What a chain makes of a message

The packing of a chain said without its loops, in terms of the calls of `pack`
that its codecs answer: the first element packs the message, and the others pass
on what the element before them has pushed. One of these calls may also raise an
exception, which ends the packing.
-/

namespace CommonCommunicator

variable {Head : Type}

namespace ProtoChain

section Calls

variable (now : UInt64) (pvd : ProviderType) (fromApp : Bytes)

/-- An element packs these segments one after the other. -/
inductive Packs : Protocol Head → List CRawMessage → Protocol Head → Prop
  | nil (p : Protocol Head) : Packs p [] p
  | cons {p p' done : Protocol Head} {segment : CRawMessage} {segments : List CRawMessage}
      (packed : p.pack now segment.content pvd fromApp = .ok (true, p'))
      (rest : Packs p' segments done) : Packs p (segment :: segments) done

/-- The element raises an exception on one of these segments. -/
inductive Raises : Protocol Head → List CRawMessage → Prop
  | here {p : Protocol Head} {segment : CRawMessage} {segments : List CRawMessage}
      {e : StdException}
      (raised : p.pack now segment.content pvd fromApp = .error (.thrown e)) :
      Raises p (segment :: segments)
  | later {p p' : Protocol Head} {segment : CRawMessage} {segments : List CRawMessage}
      (packed : p.pack now segment.content pvd fromApp = .ok (true, p'))
      (raises : Raises p' segments) : Raises p (segment :: segments)

/-- The elements pass these segments on: each packs what the one before it has pushed. -/
inductive PassesOn : List CRawMessage → List (Protocol Head) → List (Protocol Head) → Prop
  | nil (segments : List CRawMessage) : PassesOn segments [] []
  | cons {segments : List CRawMessage} {p p' : Protocol Head} {rest rest' : List (Protocol Head)}
      (packs : Packs now pvd fromApp p segments p')
      (passes : PassesOn p'.segments rest rest') : PassesOn segments (p :: rest) (p' :: rest')

/-- One of the elements raises an exception while they pass these segments on. -/
inductive RaisesBehind : List CRawMessage → List (Protocol Head) → Prop
  | here {segments : List CRawMessage} {p : Protocol Head} {rest : List (Protocol Head)}
      (raises : Raises now pvd fromApp p segments) : RaisesBehind segments (p :: rest)
  | later {segments : List CRawMessage} {p p' : Protocol Head} {rest : List (Protocol Head)}
      (packs : Packs now pvd fromApp p segments p')
      (raises : RaisesBehind p'.segments rest) : RaisesBehind segments (p :: rest)

/-- The chain packs the message: the first element packs it, and the others pass it on unless the
first one is `none`. -/
inductive Encodes (msg : Bytes) : List (Protocol Head) → List (Protocol Head) → Prop
  | alone {first first' : Protocol Head} {rest : List (Protocol Head)}
      (name : first'.cls.name = IProtocolInf.defaultName)
      (packed : first.pack now msg pvd fromApp = .ok (true, first')) :
      Encodes msg (first :: rest) (first' :: rest)
  | passed {first first' : Protocol Head} {rest rest' : List (Protocol Head)}
      (name : first'.cls.name ≠ IProtocolInf.defaultName)
      (packed : first.pack now msg pvd fromApp = .ok (true, first'))
      (passes : PassesOn now pvd fromApp first'.segments rest rest') :
      Encodes msg (first :: rest) (first' :: rest')

/-- One of the elements raises an exception on the message, or on what it has become. -/
inductive EncodingRaises (msg : Bytes) : List (Protocol Head) → Prop
  | here {first : Protocol Head} {rest : List (Protocol Head)} {e : StdException}
      (raised : first.pack now msg pvd fromApp = .error (.thrown e)) :
      EncodingRaises msg (first :: rest)
  | behind {first first' : Protocol Head} {rest : List (Protocol Head)}
      (name : first'.cls.name ≠ IProtocolInf.defaultName)
      (packed : first.pack now msg pvd fromApp = .ok (true, first'))
      (raises : RaisesBehind now pvd fromApp first'.segments rest) :
      EncodingRaises msg (first :: rest)

end Calls

variable {now : UInt64} {pvd : ProviderType} {fromApp msg : Bytes} {p p' : Protocol Head}
  {segments : List CRawMessage} {elements elements' rest rest' : List (Protocol Head)}

theorem packSegments_iff : packSegments now pvd fromApp p segments = (.ok (), p') ↔
    Packs now pvd fromApp p segments p' := by
  constructor
  · intro h
    induction segments generalizing p with
    | nil =>
        obtain ⟨-, rfl⟩ := Prod.mk.inj h
        exact .nil p
    | cons segment segments ih =>
        rw [packSegments] at h
        split at h
        · cases h
        · cases h
        · next packed => exact .cons packed (ih h)
  · intro h
    induction h with
    | nil p => rfl
    | cons packed _ ih =>
        rw [packSegments, packed]
        exact ih

theorem packSegments_thrown_iff :
    (∃ e, (packSegments now pvd fromApp p segments).1 = .error (.thrown e)) ↔
      Raises now pvd fromApp p segments := by
  constructor
  · rintro ⟨e, h⟩
    induction segments generalizing p with
    | nil => cases h
    | cons segment segments ih =>
        rw [packSegments] at h
        split at h
        · next raised =>
            cases h
            exact .here raised
        · cases h
        · next packed => exact .later packed (ih h)
  · intro h
    induction h with
    | here raised =>
        rw [packSegments, raised]
        exact ⟨_, rfl⟩
    | later packed _ ih =>
        rw [packSegments, packed]
        exact ih

theorem packRest_iff : packRest now pvd fromApp segments rest = (.ok (), rest') ↔
    PassesOn now pvd fromApp segments rest rest' := by
  constructor
  · intro h
    induction rest generalizing segments rest' with
    | nil =>
        obtain ⟨-, rfl⟩ := Prod.mk.inj h
        exact .nil segments
    | cons p rest ih =>
        rw [packRest] at h
        split at h
        · cases h
        · next p' hpack =>
            obtain ⟨hdone, rfl⟩ := Prod.mk.inj h
            exact .cons (packSegments_iff.mp hpack) (ih (Prod.ext hdone rfl))
  · intro h
    induction h with
    | nil segments => rfl
    | cons packs _ ih =>
        rw [packRest, packSegments_iff.mpr packs]
        simp only [ih]

theorem packRest_thrown_iff :
    (∃ e, (packRest now pvd fromApp segments rest).1 = .error (.thrown e)) ↔
      RaisesBehind now pvd fromApp segments rest := by
  constructor
  · rintro ⟨e, h⟩
    induction rest generalizing segments with
    | nil => cases h
    | cons p rest ih =>
        rw [packRest] at h
        split at h
        · next f p' hpack =>
            obtain rfl : f = .thrown e := Except.error.inj h
            exact .here (packSegments_thrown_iff.mp ⟨e, by rw [hpack]⟩)
        · next p' hpack => exact .later (packSegments_iff.mp hpack) (ih h)
  · intro h
    induction h with
    | here raises =>
        obtain ⟨e, hraised⟩ := packSegments_thrown_iff.mpr raises
        refine ⟨e, ?_⟩
        rw [packRest]
        split
        · next hpack =>
            rw [hpack] at hraised
            exact hraised
        · next hpack =>
            rw [hpack] at hraised
            cases hraised
    | later packs _ ih =>
        rw [packRest, packSegments_iff.mpr packs]
        exact ih

/-- The `try` block of `pack_recursive` comes to its end when the chain packs the message. -/
theorem packElements_iff : packElements now msg pvd fromApp elements = (.ok (), elements') ↔
    Encodes now pvd fromApp msg elements elements' := by
  constructor
  · intro h
    cases elements with
    | nil => cases h
    | cons first rest =>
        rw [packElements] at h
        split at h
        · cases h
        · cases h
        · next first' packed =>
            split at h
            · next hname =>
                obtain ⟨hdone, rfl⟩ := Prod.mk.inj h
                exact .passed hname packed (packRest_iff.mp (Prod.ext hdone rfl))
            · next hname =>
                obtain ⟨-, rfl⟩ := Prod.mk.inj h
                exact .alone (not_not.mp hname) packed
  · intro h
    cases h with
    | alone name packed =>
        rw [packElements, packed]
        simp only [if_neg (not_not.mpr name)]
    | passed name packed passes =>
        rw [packElements, packed]
        simp only [if_pos name, packRest_iff.mpr passes]

/-- It is left by an exception when one of the elements raises one. -/
theorem packElements_thrown_iff :
    (∃ e, (packElements now msg pvd fromApp elements).1 = .error (.thrown e)) ↔
      EncodingRaises now pvd fromApp msg elements := by
  constructor
  · rintro ⟨e, h⟩
    cases elements with
    | nil => cases h
    | cons first rest =>
        rw [packElements] at h
        split at h
        · next f raised =>
            obtain rfl : f = .thrown e := Except.error.inj h
            exact .here raised
        · cases h
        · next first' packed =>
            split at h
            · next hname => exact .behind hname packed (packRest_thrown_iff.mp ⟨e, h⟩)
            · cases h
  · intro h
    cases h with
    | here raised =>
        rw [packElements, raised]
        exact ⟨_, rfl⟩
    | behind name packed raises =>
        obtain ⟨e, hraised⟩ := packRest_thrown_iff.mpr raises
        refine ⟨e, ?_⟩
        rw [packElements, packed]
        simp only [if_pos name]
        exact hraised

end ProtoChain

end CommonCommunicator
