import CommonCommunicator.Lib.GuardedRun
import CommonCommunicator.Protocol.Description

/-!
# The chains of a loaded description

`create_protocols_chain` asks the library for an object of each protocol that
the document lists. With the shipped library these are objects of its three
classes, and the runs of creations and destructions are those of the
configuration that has the classes themselves.
-/

namespace CommonCommunicator

open Lib

namespace ShippedCodec

/-- `Protocol_NAME`. -/
def protocolName (codec : ShippedCodec) : Bytes := literal codec.cls.name

/-- `sample_get_available_protocols`. -/
def sampleGetAvailableProtocols : List Bytes :=
  [bigEndian.protocolName, littleEndian.protocolName, universalCMD.protocolName]

/-- `sample_create_instance`. -/
def sampleCreateInstance (protocolName : Bytes) : Outcome (IProtocolInf ShippedHead) := do
  assertThat (protocolName ≠ [])
  if protocolName = bigEndian.protocolName then return CPBigEndian
  else if protocolName = littleEndian.protocolName then return CPLittleEndian
  else if protocolName = universalCMD.protocolName then return CPUniversalCMD
  else throwThat .exception

/-- The module of the shipped library; `sample_open` fills in the rest. -/
def sampleModule : PtModule ShippedHead where
  tag := protocolModuleTag
  id := literal "SAMPLE_PROTOCOLS"
  opened := some
    { language := .cpp
      getAvailableProtocols := sampleGetAvailableProtocols
      createInstance := sampleCreateInstance }

/-- The library makes an object of the class that has the name. -/
theorem sampleCreateInstance_protocolName (codec : ShippedCodec) :
    sampleCreateInstance codec.protocolName = .ok codec.cls := by
  cases codec with
  | bigEndian => rfl
  | littleEndian => rfl
  | universalCMD => rfl

theorem protocolName_ne_default (codec : ShippedCodec) :
    codec.protocolName ≠ literal IProtocolInf.defaultName := by
  cases codec <;> decide

/-- Names that the library offers are names of its classes. -/
theorem exists_codecs {names : List Bytes}
    (h : ∀ name ∈ names, name ∈ sampleGetAvailableProtocols) :
    ∃ codecs : List ShippedCodec, names = codecs.map protocolName := by
  induction names with
  | nil => exact ⟨[], rfl⟩
  | cons name names ih =>
      obtain ⟨hname, hrest⟩ := List.forall_mem_cons.mp h
      obtain ⟨codecs, rfl⟩ := ih hrest
      obtain ⟨codec, rfl⟩ : ∃ codec : ShippedCodec, name = codec.protocolName := by
        simp only [sampleGetAvailableProtocols, List.mem_cons, List.not_mem_nil, or_false] at hname
        obtain h | h | h := hname
        · exact ⟨_, h⟩
        · exact ⟨_, h⟩
        · exact ⟨_, h⟩
      exact ⟨codec :: codecs, rfl⟩

end ShippedCodec

/-- A call on the chains of a configuration. -/
inductive ConfigCall (Head : Type)
  | create
  | destroy (chain : ProtoChain Head)

variable {Head : Type}

namespace CConfigProtocols

/-- A call that returns. -/
def Call (config : CConfigProtocols Head) :
    (call : ConfigCall Head) → (config' : CConfigProtocols Head) → Prop
  | .create, config' => ∃ chain, config.createProtocolsChain = .ok (config', chain)
  | .destroy chain, config' => config' = config.destroyProtocolsChain chain

variable {config s : CConfigProtocols Head}

/-- The chains of a run have different names, and there are at most 2048 of them. -/
theorem chains_of_run (hrun : Reachable Call config s) (hnone : config.protoChainsMap = []) :
    s.protoChainsMap.Nodup ∧ s.protoChainsMap.length ≤ maxProtocolChainInstances := by
  apply hrun.invariant
  · rw [hnone]
    exact ⟨List.nodup_nil, Nat.zero_le _⟩
  · rintro s call s' ⟨hnodup, hroom⟩ - hcall
    cases call with
    | create =>
        obtain ⟨chain, hcreated⟩ := hcall
        obtain ⟨rfl, hname, hfree⟩ := createProtocolsChain_eq_ok hcreated
        refine ⟨List.nodup_cons.mpr ⟨?_, hnodup⟩, hfree⟩
        rw [hname]
        exact newChainName_fresh _
    | destroy chain =>
        obtain rfl : s' = s.destroyProtocolsChain chain := hcall
        exact ⟨hnodup.erase _, List.length_erase_le.trans hroom⟩

end CConfigProtocols

namespace LoadedProtocols

/-- A call that returns. -/
def Call (fresh : Head) (config : LoadedProtocols Head) :
    (call : ConfigCall Head) → (config' : LoadedProtocols Head) → Prop
  | .create, config' => ∃ chain, config.createProtocolsChain fresh = .ok (config', chain)
  | .destroy chain, config' => config' = config.destroyProtocolsChain chain

/-- The configuration with the classes of its protocols instead of their names. -/
def resolved (config : LoadedProtocols Head) (classes : List (IProtocolInf Head)) :
    CConfigProtocols Head where
  protoList := classes
  protoChainsMap := config.protoChainsMap

variable {fresh : Head} {config s : LoadedProtocols Head} {classes : List (IProtocolInf Head)}

/-- The library makes objects of these classes for the names of the list. -/
def Resolves (fresh : Head) (config : LoadedProtocols Head) (classes : List (IProtocolInf Head)) :
    Prop :=
  List.Forall₂ (fun name cls => config.createInst fresh name = .ok cls) config.protoList classes

theorem Resolves.mapM (h : config.Resolves fresh classes) :
    config.protoList.mapM (config.createInst fresh) = .ok classes := by
  rw [Resolves] at h
  generalize config.protoList = names at h ⊢
  induction h with
  | nil => rfl
  | cons hfirst _ ih =>
      rw [List.mapM_cons, hfirst, ok_bind, ih]
      rfl

/-- A chain that is created consists of new objects of the classes. -/
theorem Resolves.createProtocolsChain (h : config.Resolves fresh classes) :
    (config.createProtocolsChain fresh).map (fun made => (made.1.resolved classes, made.2)) =
      (config.resolved classes).createProtocolsChain := by
  have hlength : config.protoList.length = classes.length := h.length_eq
  rw [LoadedProtocols.createProtocolsChain, CConfigProtocols.createProtocolsChain, h.mapM, hlength,
    ok_bind]
  by_cases hsome : 0 < classes.length
  · rw [assertThat_pos hsome, assertThat_pos (show 0 < (config.resolved classes).protoList.length
      from hsome), ok_bind, ok_bind]
    by_cases hfull : CConfigProtocols.maxProtocolChainInstances ≤ config.protoChainsMap.length
    · rw [if_pos hfull, if_pos (show CConfigProtocols.maxProtocolChainInstances ≤
        (config.resolved classes).protoChainsMap.length from hfull)]
      rfl
    · rw [if_neg hfull, if_neg (show ¬CConfigProtocols.maxProtocolChainInstances ≤
        (config.resolved classes).protoChainsMap.length from hfull)]
      rfl
  · rw [assertThat, assertThat, if_neg hsome, if_neg (show
      ¬0 < (config.resolved classes).protoList.length from hsome)]
    rfl

/-- Calls change nothing but the chains. -/
theorem call_keeps {call : ConfigCall Head} {s' : LoadedProtocols Head} (h : s.Call fresh call s') :
    s' = { s with protoChainsMap := s'.protoChainsMap } := by
  cases call with
  | create =>
      obtain ⟨chain, h⟩ := h
      obtain ⟨⟨⟩, -, h⟩ := bind_eq_ok.mp h
      obtain ⟨made, -, h⟩ := bind_eq_ok.mp h
      split at h
      · cases h
      · cases h
        rfl
  | destroy chain =>
      obtain rfl : s' = s.destroyProtocolsChain chain := h
      rfl

/-- The names resolve to the same classes along a run, which is a run on the classes. -/
theorem run_refines (h : config.Resolves fresh classes)
    (hrun : Reachable (Call fresh) config s) :
    s.Resolves fresh classes ∧
      Reachable CConfigProtocols.Call (config.resolved classes) (s.resolved classes) := by
  apply hrun.invariant
  · exact ⟨h, .start⟩
  · rintro s call s' ⟨hresolves, hclasses⟩ - hcall
    refine ⟨?_, ?_⟩
    · rw [call_keeps hcall]
      exact hresolves
    · refine hclasses.next (a := call) trivial ?_
      cases call with
      | create =>
          obtain ⟨chain, hcreated⟩ := hcall
          have hsame := hresolves.createProtocolsChain
          rw [hcreated] at hsame
          exact ⟨chain, hsame.symm⟩
      | destroy chain =>
          obtain rfl : s' = s.destroyProtocolsChain chain := hcall
          exact rfl

/-- A configuration that was loaded from a document with the shipped library lists different
classes of it. Every run of creations and destructions of chains is a run of the configuration with
these classes in the order of the document: a chain consists of one new object of each, no two
chains have one name, and there are at most 2048. -/
theorem loaded_run_refines {dlopen : Libraries ShippedHead} {document : JsonMembers}
    {config : LoadedProtocols ShippedHead} (hload : construct dlopen (some document) = .ok config)
    (hlib : dlopen config.libPath = some (some [ShippedCodec.sampleModule])) :
    ∃ codecs : List ShippedCodec, codecs ≠ [] ∧ codecs.Nodup ∧
      config.protoList = codecs.map ShippedCodec.protocolName ∧
      ∀ s, Reachable (Call ShippedHead.initial) config s →
        Reachable CConfigProtocols.Call
            { protoList := codecs.map ShippedCodec.cls, protoChainsMap := [] }
            (s.resolved (codecs.map ShippedCodec.cls)) ∧
          (s.createProtocolsChain ShippedHead.initial).map
              (fun made => (made.1.resolved (codecs.map ShippedCodec.cls), made.2)) =
            (s.resolved (codecs.map ShippedCodec.cls)).createProtocolsChain ∧
          s.protoChainsMap.Nodup ∧
          s.protoChainsMap.length ≤ CConfigProtocols.maxProtocolChainInstances := by
  obtain ⟨protocols, protoH, hfrom, hne, hoffer, hsome, hmap⟩ := of_construct hload
  obtain ⟨modules, pModule, hthere, hmodule, -, hopened⟩ := hoffer.opened
  obtain rfl : [ShippedCodec.sampleModule] = modules := by
    rw [hlib] at hthere
    exact Option.some.inj (Option.some.inj hthere)
  obtain rfl : pModule = ShippedCodec.sampleModule :=
    List.mem_singleton.mp (List.mem_of_find?_eq_some hmodule)
  obtain rfl : _ = protoH := Option.some.inj hopened
  obtain ⟨codecs, hcodecs⟩ := ShippedCodec.exists_codecs hoffer.offered
  have hresolves : config.Resolves ShippedHead.initial (codecs.map ShippedCodec.cls) := by
    rw [Resolves, hcodecs, List.forall₂_map_left_iff, List.forall₂_map_right_iff,
      List.forall₂_same]
    intro codec _
    rw [createInst, if_neg codec.protocolName_ne_default, hsome]
    exact ShippedCodec.sampleCreateInstance_protocolName codec
  refine ⟨codecs, ?_, ?_, hcodecs, ?_⟩
  · rintro rfl
    rw [hfrom.protoList] at hcodecs
    exact hne (List.map_eq_nil_iff.mp hcodecs)
  · exact List.Nodup.of_map _ (hcodecs ▸ hfrom.nodup)
  · intro s hrun
    obtain ⟨hstill, hclasses⟩ := run_refines hresolves hrun
    have hapart := CConfigProtocols.chains_of_run hclasses hmap
    rw [resolved, hmap] at hclasses
    exact ⟨hclasses, hstill.createProtocolsChain, hapart⟩

/-- The document lists the command codec and the big-endian one. -/
def twoProtocolsDocument : JsonMembers :=
  [(literal "protocol-libpath", .string (literal "libproto.so")),
    (literal "protocol-id", .string (literal "SAMPLE_PROTOCOLS")),
    (literal "protocol-list", .array
      [.string (literal "CPUniversalCMD"), .string (literal "CPBigEndian")]),
    (literal "protocol-desp", .object
      [(literal "CPBigEndian", .object
          [(literal "index", .string (literal "1")),
            (literal "properties", .object [(literal "length", .string (literal "none"))])]),
        (literal "CPUniversalCMD", .object
          [(literal "index", .string (literal "0")), (literal "properties", .object [])])])]

/-- The shipped library at its path. -/
def shippedLibrary : Libraries ShippedHead := fun path =>
  if path = literal "libproto.so" then some (some [ShippedCodec.sampleModule]) else none

theorem twoProtocolsDocument_loads :
    (construct shippedLibrary (some twoProtocolsDocument)).map
      (fun config => (config.libPath, config.protoList)) =
    .ok (literal "libproto.so",
      [ShippedCodec.universalCMD, ShippedCodec.bigEndian].map ShippedCodec.protocolName) := by
  decide +kernel

/-- Chains of the command codec and the big-endian one. -/
theorem loaded_run_refines_twoProtocols :
    ∃ config, construct shippedLibrary (some twoProtocolsDocument) = .ok config ∧
      ∃ codecs : List ShippedCodec,
        codecs.map ShippedCodec.protocolName =
          [ShippedCodec.universalCMD, ShippedCodec.bigEndian].map ShippedCodec.protocolName ∧
        (config.createProtocolsChain ShippedHead.initial).map
            (fun made => (made.1.resolved (codecs.map ShippedCodec.cls), made.2)) =
          (config.resolved (codecs.map ShippedCodec.cls)).createProtocolsChain := by
  obtain ⟨config, hload, hread⟩ := map_eq_ok.mp twoProtocolsDocument_loads
  obtain ⟨hpath, hlist⟩ := Prod.mk.inj hread
  have hlib : shippedLibrary config.libPath = some (some [ShippedCodec.sampleModule]) := by
    rw [hpath, shippedLibrary, if_pos rfl]
  obtain ⟨codecs, -, -, hcodecs, hruns⟩ := loaded_run_refines hload hlib
  exact ⟨config, hload, codecs, hcodecs.symm.trans hlist, (hruns config .start).2.1⟩

end LoadedProtocols

end CommonCommunicator
