import CommonCommunicator.Protocol.Interface

/-!
# Protocol chains

`CConfigProtocols` creates one chain of fresh protocol objects per message and
keeps at most 2048 of them in a map. `pack_recursive` runs a payload through
the chain from the first element to the last, `unpack_recurcive` runs received
bytes back from the last element to the first.
-/

namespace CommonCommunicator

variable {Head : Type}

/-- A chain instance: its name in the chain map and its elements in configuration order. -/
structure ProtoChain (Head : Type) where
  name : Nat
  elements : List (Protocol Head)

/-- The configured protocols and the names of the chain instances in `proto_chains_map`. -/
structure CConfigProtocols (Head : Type) where
  protoList : List (IProtocolInf Head)
  protoChainsMap : List Nat

namespace CConfigProtocols

def maxProtocolChainInstances : Nat := 2048

/-- The name of a new chain: its address, which no chain in the map has. -/
def newChainName (names : List Nat) : Nat := names.foldr max 0 + 1

def createProtocolsChain (config : CConfigProtocols Head) :
    Outcome (CConfigProtocols Head × ProtoChain Head) := do
  assertThat (0 < config.protoList.length)
  let chainName := newChainName config.protoChainsMap
  let elements := config.protoList.map Protocol.create
  if maxProtocolChainInstances ≤ config.protoChainsMap.length then
    throwThat .exception
  else
    return ({ config with protoChainsMap := chainName :: config.protoChainsMap },
      { name := chainName, elements := elements })

def destroyProtocolsChain (config : CConfigProtocols Head) (chain : ProtoChain Head) :
    CConfigProtocols Head :=
  { config with protoChainsMap := config.protoChainsMap.erase chain.name }

theorem create_of_room (config : CConfigProtocols Head) (hlist : config.protoList ≠ [])
    (hroom : config.protoChainsMap.length < maxProtocolChainInstances) :
    config.createProtocolsChain =
      .ok ({ config with
              protoChainsMap := newChainName config.protoChainsMap :: config.protoChainsMap },
        { name := newChainName config.protoChainsMap
          elements := config.protoList.map Protocol.create }) := by
  simp [createProtocolsChain, List.length_pos_iff.mpr hlist, Nat.not_le.mpr hroom]

/-- Destroying the chain that was created last frees its slot. -/
theorem destroy_create (config : CConfigProtocols Head) (elements : List (Protocol Head)) :
    destroyProtocolsChain
      { config with
        protoChainsMap := newChainName config.protoChainsMap :: config.protoChainsMap }
      { name := newChainName config.protoChainsMap, elements := elements } = config := by
  simp [destroyProtocolsChain]

theorem le_foldr_max {names : List Nat} {name : Nat} (h : name ∈ names) :
    name ≤ names.foldr max 0 := by
  induction names with
  | nil => cases h
  | cons first names ih =>
      rw [List.foldr_cons]
      cases h with
      | head => exact Nat.le_max_left _ _
      | tail _ h => exact Nat.le_trans (ih h) (Nat.le_max_right _ _)

/-- No chain in the map has the address of a new one. -/
theorem newChainName_fresh (names : List Nat) : newChainName names ∉ names := by
  intro h
  have hle := le_foldr_max h
  rw [newChainName] at hle
  omega

/-- A chain that was created has a slot under a new name. -/
theorem createProtocolsChain_eq_ok {config config' : CConfigProtocols Head}
    {chain : ProtoChain Head} (h : config.createProtocolsChain = .ok (config', chain)) :
    config' = { config with protoChainsMap := chain.name :: config.protoChainsMap } ∧
      chain.name = newChainName config.protoChainsMap ∧
      config.protoChainsMap.length < maxProtocolChainInstances := by
  obtain ⟨_, -, h⟩ := bind_eq_ok.mp h
  split at h
  · cases h
  · next hroom =>
      obtain ⟨rfl, rfl⟩ : _ = config' ∧ _ = chain := by simpa using h
      exact ⟨rfl, rfl, Nat.lt_of_not_le hroom⟩

/-- A chain that was created has new elements of the configured classes. -/
theorem createProtocolsChain_elements {config config' : CConfigProtocols Head}
    {chain : ProtoChain Head} (h : config.createProtocolsChain = .ok (config', chain)) :
    chain.elements = config.protoList.map Protocol.create := by
  obtain ⟨_, -, h⟩ := bind_eq_ok.mp h
  split at h
  · cases h
  · obtain ⟨rfl, rfl⟩ : _ = config' ∧ _ = chain := by simpa using h
    rfl

end CConfigProtocols

namespace ProtoChain

/-- One element packs the segments of the element before it, one after the other. An assertion
stops the process when a codec reports failure. -/
def packSegments (now : UInt64) (pvd : ProviderType) (fromApp : Bytes) (p : Protocol Head) :
    List CRawMessage → Outcome Unit × Protocol Head
  | [] => (.ok (), p)
  | segment :: segments =>
      match p.pack now segment.content pvd fromApp with
      | .error f => (.error f, p)
      | .ok (false, p) => (.error .assertion, p)
      | .ok (true, p) => packSegments now pvd fromApp p segments

/-- The elements behind the first one, each packing what the one before it has pushed. -/
def packRest (now : UInt64) (pvd : ProviderType) (fromApp : Bytes) :
    (segments : List CRawMessage) → List (Protocol Head) → Outcome Unit × List (Protocol Head)
  | _, [] => (.ok (), [])
  | segments, p :: rest =>
      match packSegments now pvd fromApp p segments with
      | (.error f, p) => (.error f, p :: rest)
      | (.ok (), p) =>
          let (res, rest) := packRest now pvd fromApp p.segments rest
          (res, p :: rest)

def packElements (now : UInt64) (msg : Bytes) (pvd : ProviderType) (fromApp : Bytes) :
    List (Protocol Head) → Outcome Unit × List (Protocol Head)
  | [] => (.error .assertion, [])
  | first :: rest =>
      match first.pack now msg pvd fromApp with
      | .error f => (.error f, first :: rest)
      | .ok (false, first) => (.error .assertion, first :: rest)
      | .ok (true, first) =>
          if first.cls.name ≠ IProtocolInf.defaultName then
            let (res, rest) := packRest now pvd fromApp first.segments rest
            (res, first :: rest)
          else
            (.ok (), first :: rest)

/-- The segments of the element at a position. -/
def segmentsAt (elements : List (Protocol Head)) (self : Nat) : List CRawMessage :=
  (elements[self]?.map Protocol.segments).getD []

/-- `pack_recursive` of the element at position `self`: the segments that it returns are those of
this element. An exception empties them. -/
def packRecursive (elements : List (Protocol Head)) (self : Nat) (now : UInt64) (msg : Bytes)
    (pvd : ProviderType) (fromApp : Bytes) :
    Outcome (List (Protocol Head) × List CRawMessage) :=
  match packElements now msg pvd fromApp elements with
  | (.ok (), elements) => .ok (elements, segmentsAt elements self)
  | (.error (.thrown _), elements) =>
      let elements := elements.modify self fun p => { p with segments := [] }
      .ok (elements, segmentsAt elements self)
  | (.error f, _) => .error f

/-- A packing that is done returns the segments of the element. -/
theorem packRecursive_of_done {elements : List (Protocol Head)} (self : Nat) {now : UInt64}
    {msg fromApp : Bytes} {pvd : ProviderType}
    (h : (packElements now msg pvd fromApp elements).1 = .ok ()) :
    ∃ sent, packRecursive elements self now msg pvd fromApp =
      .ok ((packElements now msg pvd fromApp elements).2, sent) := by
  rw [packRecursive]
  generalize packElements now msg pvd fromApp elements = packed at h ⊢
  obtain ⟨res, elements⟩ := packed
  obtain rfl : res = .ok () := h
  exact ⟨_, rfl⟩

/-- The loop of `unpack_recurcive` towards the front. `pre` is the element that unpacked last; an
element called `none` is passed over, and an empty payload ends the loop. -/
def unpackLoop (pre : Protocol Head) : List (Protocol Head) → Outcome (List (Protocol Head))
  | [] => return []
  | p :: rest =>
      if pre.isEmpty then
        return p :: rest
      else if p.cls.name ≠ IProtocolInf.defaultName then do
        let (res, p) ← p.unpack (pre.payload.getMsgReadOnly.getD []) pre.payload.msgSize
        if res then do
          let rest ← unpackLoop p rest
          return p :: rest
        else
          throwThat .runtimeError
      else do
        let rest ← unpackLoop pre rest
        return p :: rest

/-- The `try` block of `unpack_recurcive`, on the elements from the last to the first. -/
def unpackReversed (mem : Bytes) (msgSize : Nat) :
    List (Protocol Head) → Outcome (List (Protocol Head))
  | [] => throwThat .runtimeError
  | last :: rest => do
      let (res, last) ← last.unpack mem msgSize
      if res then do
        let rest ← unpackLoop last rest
        return last :: rest
      else
        throwThat .runtimeError

/-- `unpack_recurcive`: three exception classes pass through, every other one is turned into the
result false. No caller uses the chain after that, so its state is not tracked there. -/
def unpackRecurcive (elements : List (Protocol Head)) (mem : Bytes) (msgSize : Nat) :
    Outcome (Bool × List (Protocol Head)) :=
  catching (do
      if msgSize = 0 then throwThat .invalidArgument
      let reversed ← unpackReversed mem msgSize elements.reverse
      return (true, reversed.reverse))
    fun e =>
      match e with
      | .lengthError => throwThat .lengthError
      | .outOfRange => throwThat .outOfRange
      | .invalidArgument => throwThat .invalidArgument
      | _ => .ok (false, elements)

/-- `clean_data` of the whole chain. -/
def cleanData (elements : List (Protocol Head)) (txData : Bool := true) (rxData : Bool := true) :
    List (Protocol Head) := elements.map fun p => p.cleanData txData rxData

theorem unpackLoop_empty {pre p : Protocol Head} {rest : List (Protocol Head)}
    (hempty : pre.payload.msgSize = 0) : unpackLoop pre (p :: rest) = .ok (p :: rest) := by
  simp [unpackLoop, Protocol.isEmpty, hempty]

theorem unpackLoop_passed {pre p : Protocol Head} {rest : List (Protocol Head)}
    (hfull : pre.payload.msgSize ≠ 0) (hname : p.cls.name = IProtocolInf.defaultName) :
    unpackLoop pre (p :: rest) = (unpackLoop pre rest >>= fun rest => .ok (p :: rest)) := by
  simp [unpackLoop, Protocol.isEmpty, hfull, hname]

theorem unpackLoop_taken {pre p p' : Protocol Head} {rest : List (Protocol Head)}
    (hfull : pre.payload.msgSize ≠ 0) (hname : p.cls.name ≠ IProtocolInf.defaultName)
    (h : p.unpack (pre.payload.getMsgReadOnly.getD []) pre.payload.msgSize = .ok (true, p')) :
    unpackLoop pre (p :: rest) = (unpackLoop p' rest >>= fun rest => .ok (p' :: rest)) := by
  simp [unpackLoop, Protocol.isEmpty, hfull, hname, h]

theorem unpackLoop_refused {pre p : Protocol Head} (rest : List (Protocol Head))
    (hfull : pre.payload.msgSize ≠ 0) (hname : p.cls.name ≠ IProtocolInf.defaultName)
    (h : ∀ p', p.unpack (pre.payload.getMsgReadOnly.getD []) pre.payload.msgSize ≠
      .ok (true, p')) :
    ∀ done, unpackLoop pre (p :: rest) ≠ .ok done := by
  intro done hdone
  have hempty : ¬pre.isEmpty = true := by simpa [Protocol.isEmpty] using hfull
  rw [unpackLoop, if_neg hempty, if_pos hname] at hdone
  obtain ⟨⟨res, p'⟩, hunpack, hrest⟩ := bind_eq_ok.mp hdone
  cases res with
  | true => exact h p' hunpack
  | false => cases hrest

/-- A chain whose last element does not return true delivers nothing. -/
theorem unpackReversed_refused {p : Protocol Head} (rest : List (Protocol Head)) {mem : Bytes}
    {msgSize : Nat} (h : ∀ p', p.unpack mem msgSize ≠ .ok (true, p')) :
    ∀ done, unpackReversed mem msgSize (p :: rest) ≠ .ok done := by
  intro done hdone
  obtain ⟨⟨res, p'⟩, hunpack, hrest⟩ := bind_eq_ok.mp hdone
  cases res with
  | true => exact h p' hunpack
  | false => cases hrest

/-- The loop changes elements and keeps their number. -/
theorem length_unpackLoop {pre : Protocol Head} {elements done : List (Protocol Head)}
    (h : unpackLoop pre elements = .ok done) : done.length = elements.length := by
  induction elements generalizing pre done with
  | nil =>
      obtain rfl : [] = done := by simpa [unpackLoop] using h
      rfl
  | cons p rest ih =>
      by_cases hfull : pre.payload.msgSize = 0
      · rw [unpackLoop_empty hfull] at h
        obtain rfl : p :: rest = done := by simpa using h
        rfl
      · by_cases hname : p.cls.name = IProtocolInf.defaultName
        · rw [unpackLoop_passed hfull hname] at h
          obtain ⟨tail, htail, hdone⟩ := bind_eq_ok.mp h
          obtain rfl : p :: tail = done := by simpa using hdone
          rw [List.length_cons, ih htail, List.length_cons]
        · by_cases htaken : ∃ p', p.unpack (pre.payload.getMsgReadOnly.getD [])
              pre.payload.msgSize = .ok (true, p')
          · obtain ⟨p', hunpack⟩ := htaken
            rw [unpackLoop_taken hfull hname hunpack] at h
            obtain ⟨tail, htail, hdone⟩ := bind_eq_ok.mp h
            obtain rfl : p' :: tail = done := by simpa using hdone
            rw [List.length_cons, ih htail, List.length_cons]
          · exact absurd h
              (unpackLoop_refused rest hfull hname (fun p' hp' => htaken ⟨p', hp'⟩) done)

/-- Only the `try` block itself makes `unpack_recurcive` return true. -/
theorem unpackRecurcive_eq_true {elements chain : List (Protocol Head)} {mem : Bytes}
    {msgSize : Nat} : unpackRecurcive elements mem msgSize = .ok (true, chain) ↔
      msgSize ≠ 0 ∧ ∃ reversed, unpackReversed mem msgSize elements.reverse = .ok reversed ∧
        reversed.reverse = chain := by
  by_cases hsize : msgSize = 0
  · subst hsize
    constructor
    · intro h
      cases h
    · rintro ⟨h, -⟩
      exact absurd rfl h
  · cases hblock : unpackReversed mem msgSize elements.reverse with
    | ok reversed => simp [unpackRecurcive, hsize, hblock]
    | error f =>
        simp only [unpackRecurcive, if_neg hsize, hblock, error_bind, reduceCtorEq, false_and,
          exists_false, and_false, iff_false]
        cases f with
        | assertion => simp [catching]
        | undefined => simp [catching]
        | thrown e => cases e <;> simp [catching, throwThat]

/-- A chain that returns false is left as it is. -/
theorem unpackRecurcive_eq_false {elements chain : List (Protocol Head)} {mem : Bytes}
    {msgSize : Nat} (h : unpackRecurcive elements mem msgSize = .ok (false, chain)) :
    chain = elements := by
  by_cases hsize : msgSize = 0
  · subst hsize
    cases h
  · cases hblock : unpackReversed mem msgSize elements.reverse with
    | ok reversed => simp [unpackRecurcive, hsize, hblock] at h
    | error f =>
        rw [unpackRecurcive, if_neg hsize, hblock] at h
        cases f with
        | assertion => cases h
        | undefined => cases h
        | thrown e => cases e <;> cases h <;> rfl

/-- A chain of one element unpacks with it alone. -/
theorem unpackRecurcive_single {p p' : Protocol Head} {mem : Bytes} {msgSize : Nat}
    (hsize : 0 < msgSize) (h : p.unpack mem msgSize = .ok (true, p')) :
    unpackRecurcive [p] mem msgSize = .ok (true, [p']) := by
  refine unpackRecurcive_eq_true.mpr ⟨Nat.ne_of_gt hsize, [p'], ?_, rfl⟩
  simp [unpackReversed, h, unpackLoop]

/-- When its element does not return true, a chain of one element does not either. -/
theorem unpackRecurcive_single_fails {p : Protocol Head} {mem : Bytes} {msgSize : Nat}
    (h : ∀ p', p.unpack mem msgSize ≠ .ok (true, p')) :
    ∀ chain, unpackRecurcive [p] mem msgSize ≠ .ok (true, chain) := by
  intro chain hchain
  obtain ⟨-, reversed, hblock, -⟩ := unpackRecurcive_eq_true.mp hchain
  exact unpackReversed_refused [] h reversed hblock

end ProtoChain

end CommonCommunicator
