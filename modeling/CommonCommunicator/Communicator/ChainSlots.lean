import CommonCommunicator.Communicator.SendPayload
import CommonCommunicator.Lib.GuardedRun
import CommonCommunicator.Protocol.MessageJob
import Mathlib.Data.List.Perm.Basic

/-!
# The slots of the chain map

`ICommunicator::send` of raw bytes and the receive job each create a chain, work
with it for some time and give its slot back. Sends of several communicators and
receive jobs overlap, so an operation is two steps of a run. `send` returns
early while no provider has been started, and an exception takes the job past
its end: there the slot stays occupied.
-/

namespace CommonCommunicator

variable {Head : Type}

/-- `ICommunicator::send` of raw bytes: a chain is created for them, and its first element sends
them. -/
def ICommunicator.send (impl : ICommunicatorImpl) (config : CConfigProtocols Head) (msg : Bytes)
    (results : Nat → Except StdException Bool) : Outcome (Bool × CConfigProtocols Head) := do
  let (config, chain) ← config.createProtocolsChain
  assertThat (msg ≠ [])
  let (res, config, _) ← impl.send config
    { chain := chain, locked := true, self := 0, msg := msg, keepPayloadAfterTx := false } results
  return (res, config)

/-- A slice of the received bytes makes `unpack_recurcive` raise an exception. -/
inductive UnpackRaises : List (Protocol Head) → (mem : Bytes) → (dataSize : Nat) → Prop
  | here {protocol : Protocol Head} {rest : List (Protocol Head)} {mem : Bytes}
      {dataSize : Nat} {e : StdException}
      (more : ¬(dataSize = 0 ∨ protocol.cls.getMsgSize protocol.head mem dataSize = 0))
      (raised : ProtoChain.unpackRecurcive (protocol :: rest) mem
        (protocol.cls.getMsgSize protocol.head mem dataSize) = .error (.thrown e)) :
      UnpackRaises (protocol :: rest) mem dataSize
  | later {protocol : Protocol Head} {rest chain : List (Protocol Head)} {mem : Bytes}
      {dataSize : Nat}
      (more : ¬(dataSize = 0 ∨ protocol.cls.getMsgSize protocol.head mem dataSize = 0))
      (unpacked : ProtoChain.unpackRecurcive (protocol :: rest) mem
        (protocol.cls.getMsgSize protocol.head mem dataSize) = .ok (true, chain))
      (inside : ¬dataSize < protocol.cls.getMsgSize protocol.head mem dataSize)
      (raises : UnpackRaises (ProtoChain.cleanData chain)
        (mem.drop (protocol.cls.getMsgSize protocol.head mem dataSize))
        (dataSize - protocol.cls.getMsgSize protocol.head mem dataSize)) :
      UnpackRaises (protocol :: rest) mem dataSize

/-- Only `unpack_recurcive` makes the slicing loop throw. -/
theorem unpackRaises_of_thrown {msgRaw : CRawMessage} {updater : Bool} {rounds : Nat}
    {chain : List (Protocol Head)} {mem : Bytes} {dataSize : Nat} {e : StdException}
    (h : (messageLoop msgRaw updater rounds chain mem dataSize).2 = .error (.thrown e)) :
    UnpackRaises chain mem dataSize := by
  induction rounds generalizing chain mem dataSize with
  | zero => cases h
  | succ rounds ih =>
      cases chain with
      | nil => cases h
      | cons protocol rest =>
          rw [messageLoop] at h
          split at h
          · cases h
          · next hmore =>
              cases hunpack : ProtoChain.unpackRecurcive (protocol :: rest) mem
                  (protocol.cls.getMsgSize protocol.head mem dataSize) with
              | error f =>
                  rw [hunpack] at h
                  obtain rfl : f = .thrown e := by simpa using h
                  exact .here hmore hunpack
              | ok unpacked =>
                  obtain ⟨res, chain⟩ := unpacked
                  rw [hunpack] at h
                  cases res with
                  | false => cases h
                  | true =>
                      simp only at h
                      split at h
                      · cases h
                      · next hinside => exact .later hmore hunpack hinside (ih h)

/-- With enough rounds the loop comes to the exception. -/
theorem thrown_of_unpackRaises (msgRaw : CRawMessage) (updater : Bool) {rounds : Nat}
    {chain : List (Protocol Head)} {mem : Bytes} {dataSize : Nat}
    (hraises : UnpackRaises chain mem dataSize) (hrounds : dataSize ≤ rounds) :
    ∃ e, (messageLoop msgRaw updater rounds chain mem dataSize).2 = .error (.thrown e) := by
  induction hraises generalizing rounds with
  | here hmore hraised =>
      obtain ⟨k, rfl⟩ : ∃ k, rounds = k + 1 := ⟨rounds - 1, by omega⟩
      simp only [messageLoop, if_neg hmore, hraised]
      exact ⟨_, rfl⟩
  | later hmore hunpacked hinside hraises ih =>
      obtain ⟨k, rfl⟩ : ∃ k, rounds = k + 1 := ⟨rounds - 1, by omega⟩
      simp only [messageLoop, if_neg hmore, hunpacked, if_neg hinside]
      exact ih (by omega)

namespace ChainSlots

/-- A send or a receive job that has its chain. -/
inductive Operation (Head : Type)
  | send (communicator : Nat) (msg : Bytes) (chain : ProtoChain Head)
  | job (updater : Bool) (msgRaw : CRawMessage) (chain : ProtoChain Head)

def Operation.chain : Operation Head → ProtoChain Head
  | send _ _ chain => chain
  | job _ _ chain => chain

/-- The library: its chain map, which communicators have a send function, and the operations that
have begun. -/
structure State (Head : Type) where
  config : CConfigProtocols Head
  installed : Nat → Bool
  inFlight : List (Operation Head)

/-- What happens to the library; an operation that ends is given by its place. -/
inductive Action
  | start (communicator : Nat)
  | beginSend (communicator : Nat) (msg : Bytes)
  | endSend (i : Nat) (context : SendContext) (results : Nat → Except StdException Bool)
  | beginJob (updater : Bool) (msgRaw : CRawMessage)
  | endJob (i : Nat)

/-- The place of the operation that an action ends. -/
def Action.ended : Action → Option Nat
  | endSend i _ _ => some i
  | endJob i => some i
  | _ => none

/-- An operation creates its chain and goes on to its first assertion. When the map is full, it
ends with the exception of `create_protocols_chain`. -/
def begin (s : State Head) (operation : ProtoChain Head → Option (Operation Head)) :
    Option (State Head) :=
  match s.config.createProtocolsChain with
  | .ok (config, chain) =>
      (operation chain).map fun operation =>
        { s with config := config, inFlight := operation :: s.inFlight }
  | .error (.thrown _) => some s
  | .error _ => none

/-- The payload of a send: a chain that is no longer in the map is dead. -/
def payloadOf (s : State Head) (msg : Bytes) (chain : ProtoChain Head) : CPayload Head :=
  { chain := chain
    locked := chain.name ∈ s.config.protoChainsMap
    self := 0
    msg := msg
    keepPayloadAfterTx := false }

/-- One step of the library; none where it aborts. -/
def step (s : State Head) : Action → Option (State Head)
  | .start communicator =>
      some { s with installed := Function.update s.installed communicator true }
  | .beginSend communicator msg =>
      begin s fun chain => if msg = [] then none else some (.send communicator msg chain)
  | .endSend i context results =>
      match s.inFlight[i]? with
      | some (.send communicator msg chain) =>
          let impl : ICommunicatorImpl :=
            { mSendPayload := s.installed communicator, context := context }
          match impl.send s.config (payloadOf s msg chain) results with
          | .ok (_, config, _) =>
              some { s with config := config, inFlight := s.inFlight.eraseIdx i }
          | .error (.thrown _) => some { s with inFlight := s.inFlight.eraseIdx i }
          | .error _ => none
      | _ => none
  | .beginJob updater msgRaw =>
      if msgRaw.getMsgReadOnly = none ∨ msgRaw.msgSize = 0 then none
      else begin s fun chain => some (.job updater msgRaw chain)
  | .endJob i =>
      match s.inFlight[i]? with
      | some (.job updater msgRaw chain) =>
          match (messageLoop msgRaw updater msgRaw.msgSize chain.elements
            (msgRaw.getMsgReadOnly.getD []) msgRaw.msgSize).2 with
          | .ok _ =>
              some { s with
                config := s.config.destroyProtocolsChain chain
                inFlight := s.inFlight.eraseIdx i }
          | .error (.thrown _) => some { s with inFlight := s.inFlight.eraseIdx i }
          | .error _ => none
      | _ => none

/-- A send ends with its provider started, and a job without an exception. -/
def Releases (s : State Head) : Action → Prop
  | .endSend i _ _ => ∀ communicator msg chain,
      s.inFlight[i]? = some (.send communicator msg chain) → s.installed communicator = true
  | .endJob i => ∀ updater msgRaw chain,
      s.inFlight[i]? = some (.job updater msgRaw chain) →
        ¬UnpackRaises chain.elements (msgRaw.getMsgReadOnly.getD []) msgRaw.msgSize
  | _ => True

/-- The names of the operations' chains. -/
def names (operations : List (Operation Head)) : List Nat :=
  operations.map fun operation => operation.chain.name

/-- The slots in use beyond those of the start are those of the operations that have begun and
not ended. -/
structure Accounted (start s : State Head) : Prop where
  occupied : s.config.protoChainsMap.Perm (names s.inFlight ++ start.config.protoChainsMap)
  distinct : s.config.protoChainsMap.Nodup

/-- Runs of the library. -/
abbrev Run (guard : State Head → Action → Prop) (start s : State Head) : Prop :=
  Lib.GuardedRun (fun s a s' => step s a = some s') guard start s

variable {start s s' : State Head} {a : Action}

/-- An operation that begins takes a free slot under a new name, or is refused. -/
theorem begin_cases {operation : ProtoChain Head → Option (Operation Head)}
    (hchain : ∀ chain op, operation chain = some op → op.chain = chain)
    (h : begin s operation = some s') :
    s' = s ∨ ∃ op : Operation Head, op.chain.name ∉ s.config.protoChainsMap ∧
      s.config.protoChainsMap.length < CConfigProtocols.maxProtocolChainInstances ∧
      s' = { s with
        config := { s.config with
          protoChainsMap := op.chain.name :: s.config.protoChainsMap }
        inFlight := op :: s.inFlight } := by
  rw [begin] at h
  split at h
  · next config chain hcreate =>
      obtain ⟨rfl, hname, hroom⟩ := CConfigProtocols.createProtocolsChain_eq_ok hcreate
      obtain ⟨op, hop, rfl⟩ := Option.map_eq_some_iff.mp h
      obtain rfl := hchain chain op hop
      right
      refine ⟨op, ?_, hroom, rfl⟩
      rw [hname]
      exact CConfigProtocols.newChainName_fresh _
  · left
    exact (Option.some.inj h).symm
  · cases h

/-- What an ending send does to the map. -/
theorem send_config {impl : ICommunicatorImpl} {config config' : CConfigProtocols Head}
    {payload : CPayload Head} {results : Nat → Except StdException Bool} {res : Bool}
    {elements : List (Protocol Head)} (hkeep : payload.keepPayloadAfterTx = false)
    (h : impl.send config payload results = .ok (res, config', elements)) :
    config' = if impl.mSendPayload then config.destroyProtocolsChain payload.chain else config := by
  cases hhandler : impl.mSendPayload with
  | false =>
      rw [ICommunicatorImpl.send, if_pos hhandler] at h
      obtain ⟨-, rfl, -⟩ : false = res ∧ config = config' ∧ _ := by simpa using h
      rfl
  | true =>
      rw [ICommunicatorImpl.send, if_neg (by simp [hhandler])] at h
      obtain ⟨f, -, -, hwrite⟩ | ⟨r, config'', elements', hwrite, hdestroyed, -⟩ :=
        ICommunicatorImpl.writePayload_returns config payload impl.context results
      · rw [hwrite] at h
        cases h
      · rw [hwrite] at h
        obtain ⟨-, rfl, -⟩ : true = res ∧ config'' = config' ∧ _ := by simpa using h
        obtain hdestroyed | hkept := hdestroyed
        · exact hdestroyed
        · rw [hkeep] at hkept
          cases hkept

/-- `send` does not raise exceptions. -/
theorem send_not_thrown (impl : ICommunicatorImpl) (config : CConfigProtocols Head)
    (payload : CPayload Head) (results : Nat → Except StdException Bool) (e : StdException) :
    impl.send config payload results ≠ .error (.thrown e) := by
  intro h
  rw [ICommunicatorImpl.send] at h
  split at h
  · cases h
  · obtain ⟨f, -, hnot, hwrite⟩ | ⟨r, config', elements, hwrite, -⟩ :=
      ICommunicatorImpl.writePayload_returns config payload impl.context results
    · rw [hwrite] at h
      obtain rfl : f = .thrown e := by simpa using h
      exact hnot e rfl
    · rw [hwrite] at h
      cases h

/-- What the end of an operation does: it gives the slot back exactly if the step meets the
condition. -/
def EndsAt (s : State Head) (a : Action) (i : Nat) (s' : State Head) : Prop :=
  ∃ op, s.inFlight[i]? = some op ∧ s'.inFlight = s.inFlight.eraseIdx i ∧
    (Releases s a ∧ s'.config = s.config.destroyProtocolsChain op.chain ∨
      ¬Releases s a ∧ s'.config = s.config)

/-- A send gives its slot back if its communicator has a send function. -/
theorem endSend_ends {i : Nat} {context : SendContext}
    {results : Nat → Except StdException Bool}
    (h : step s (.endSend i context results) = some s') :
    EndsAt s (.endSend i context results) i s' := by
  rw [step] at h
  split at h
  · next communicator msg chain hop =>
      have hreleases : Releases s (.endSend i context results) ↔
          s.installed communicator = true := by
        constructor
        · intro hmet
          exact hmet communicator msg chain hop
        · intro hinstalled communicator' msg' chain' hop'
          obtain ⟨rfl, -, -⟩ : communicator = communicator' ∧ msg = msg' ∧ chain = chain' := by
            simpa using hop.symm.trans hop'
          exact hinstalled
      simp only at h
      split at h
      · next res config elements hsend =>
          obtain rfl := Option.some.inj h
          refine ⟨_, hop, rfl, ?_⟩
          have hconfig := send_config rfl hsend
          simp only at hconfig
          rw [hreleases]
          by_cases hinstalled : s.installed communicator = true
          · rw [if_pos hinstalled] at hconfig
            exact Or.inl ⟨hinstalled, hconfig⟩
          · rw [if_neg hinstalled] at hconfig
            exact Or.inr ⟨hinstalled, hconfig⟩
      · next e hsend => exact absurd hsend (send_not_thrown _ _ _ _ e)
      · cases h
  · cases h

/-- A job gives its slot back if nothing raises an exception. -/
theorem endJob_ends {i : Nat} (h : step s (.endJob i) = some s') :
    EndsAt s (.endJob i) i s' := by
  rw [step] at h
  split at h
  · next updater msgRaw chain hop =>
      have hreleases : Releases s (.endJob i) ↔
          ¬UnpackRaises chain.elements (msgRaw.getMsgReadOnly.getD []) msgRaw.msgSize := by
        constructor
        · intro hmet
          exact hmet updater msgRaw chain hop
        · intro hquiet updater' msgRaw' chain' hop'
          obtain ⟨-, rfl, rfl⟩ : updater = updater' ∧ msgRaw = msgRaw' ∧ chain = chain' := by
            simpa using hop.symm.trans hop'
          exact hquiet
      split at h
      · next hloop =>
          obtain rfl := Option.some.inj h
          refine ⟨_, hop, rfl, Or.inl ⟨hreleases.mpr ?_, rfl⟩⟩
          intro hraises
          obtain ⟨e, hthrown⟩ := thrown_of_unpackRaises msgRaw updater hraises (Nat.le_refl _)
          rw [hloop] at hthrown
          cases hthrown
      · next e hloop =>
          obtain rfl := Option.some.inj h
          refine ⟨_, hop, rfl, Or.inr ⟨?_, rfl⟩⟩
          rw [hreleases, not_not]
          exact unpackRaises_of_thrown hloop
      · cases h
  · cases h

/-- What one step can do: a provider starts, an operation is refused, it takes a new slot, or it
ends. -/
theorem step_cases (h : step s a = some s') :
    (a.ended = none ∧ s'.config = s.config ∧ s'.inFlight = s.inFlight) ∨
      (a.ended = none ∧ ∃ op : Operation Head, op.chain.name ∉ s.config.protoChainsMap ∧
        s.config.protoChainsMap.length < CConfigProtocols.maxProtocolChainInstances ∧
        s' = { s with
          config := { s.config with
            protoChainsMap := op.chain.name :: s.config.protoChainsMap }
          inFlight := op :: s.inFlight }) ∨
      ∃ i, a.ended = some i ∧ EndsAt s a i s' := by
  cases a with
  | start communicator =>
      left
      obtain rfl := Option.some.inj h
      exact ⟨rfl, rfl, rfl⟩
  | beginSend communicator msg =>
      have hchain : ∀ chain op, (if msg = [] then none
          else some (Operation.send communicator msg chain)) = some op →
          op.chain = (chain : ProtoChain Head) := by
        intro chain op hop
        split at hop
        · cases hop
        · obtain rfl := Option.some.inj hop
          rfl
      obtain rfl | hbegun := begin_cases hchain h
      · exact Or.inl ⟨rfl, rfl, rfl⟩
      · exact Or.inr (Or.inl ⟨rfl, hbegun⟩)
  | beginJob updater msgRaw =>
      rw [step] at h
      split at h
      · cases h
      · have hchain : ∀ chain op, some (Operation.job updater msgRaw chain) = some op →
            op.chain = (chain : ProtoChain Head) := by
          intro chain op hop
          obtain rfl := Option.some.inj hop
          rfl
        obtain rfl | hbegun := begin_cases hchain h
        · exact Or.inl ⟨rfl, rfl, rfl⟩
        · exact Or.inr (Or.inl ⟨rfl, hbegun⟩)
  | endSend i context results => exact Or.inr (Or.inr ⟨i, rfl, endSend_ends h⟩)
  | endJob i => exact Or.inr (Or.inr ⟨i, rfl, endJob_ends h⟩)

/-- A send that nothing overlaps is `ICommunicator::send`. -/
theorem execute_send (communicator : Nat) {msg : Bytes} {context : SendContext}
    {results : Nat → Except StdException Bool} {res : Bool} {config' : CConfigProtocols Head}
    (h : ICommunicator.send
      { mSendPayload := s.installed communicator, context := context } s.config msg results =
        .ok (res, config')) :
    Lib.execute step s [.beginSend communicator msg, .endSend 0 context results] =
      some { s with config := config' } := by
  obtain ⟨⟨config, chain⟩, hcreate, h⟩ := bind_eq_ok.mp h
  obtain ⟨u, hmsg, h⟩ := bind_eq_ok.mp h
  have hne : msg ≠ [] := assertThat_eq_ok.mp hmsg
  obtain ⟨⟨r, config'', elements⟩, hsend, h⟩ := bind_eq_ok.mp h
  obtain ⟨rfl, rfl⟩ : r = res ∧ config'' = config' := by simpa using h
  have hbegin : step s (.beginSend communicator msg) =
      some { s with config := config, inFlight := .send communicator msg chain :: s.inFlight } := by
    simp [step, begin, hcreate, hne]
  have hlocked : chain.name ∈ config.protoChainsMap := by
    obtain ⟨rfl, -, -⟩ := CConfigProtocols.createProtocolsChain_eq_ok hcreate
    exact List.mem_cons_self
  have hend : step
      { s with config := config, inFlight := .send communicator msg chain :: s.inFlight }
      (.endSend 0 context results) = some { s with config := config'' } := by
    simp [step, payloadOf, hlocked, hsend]
  simp only [Lib.execute, hbegin, hend]

/-- What `handle_protocol_chain` queues, when nothing overlaps it: refused or begun and ended. -/
theorem execute_job {updater : Bool} {msgRaw : CRawMessage} {run : JobRun Head}
    (hrun : messageJob s.config updater msgRaw = run)
    (hends : run.outcome = .ok () ∨ ∃ e, run.outcome = .error (.thrown e)) :
    Lib.execute step s [.beginJob updater msgRaw] = some { s with config := run.config } ∨
      Lib.execute step s [.beginJob updater msgRaw, .endJob 0] =
        some { s with config := run.config } := by
  rw [messageJob] at hrun
  split at hrun
  · subst hrun
    obtain hends | ⟨e, hends⟩ := hends <;> cases hends
  · next data hdata =>
      split at hrun
      · subst hrun
        obtain hends | ⟨e, hends⟩ := hends <;> cases hends
      · next hsize =>
          have hready : ¬(msgRaw.getMsgReadOnly = none ∨ msgRaw.msgSize = 0) := by
            simp [hdata, hsize]
          cases hcreate : s.config.createProtocolsChain with
          | error f =>
              left
              rw [hcreate] at hrun
              subst hrun
              obtain hends | ⟨e, hends⟩ := hends
              · cases hends
              · obtain rfl : f = .thrown e := by simpa using hends
                simp [Lib.execute, step, hready, begin, hcreate]
          | ok created =>
              right
              obtain ⟨config, chain⟩ := created
              rw [hcreate] at hrun
              have hbegin : step s (.beginJob updater msgRaw) = some
                  { s with
                    config := config
                    inFlight := .job updater msgRaw chain :: s.inFlight } := by
                simp [step, hready, begin, hcreate]
              have hend : step
                  { s with
                    config := config
                    inFlight := .job updater msgRaw chain :: s.inFlight }
                  (.endJob 0) = some { s with config := run.config } := by
                simp only at hrun
                cases hloop : messageLoop msgRaw updater msgRaw.msgSize chain.elements data
                    msgRaw.msgSize with
                | mk events res =>
                    rw [hloop] at hrun
                    cases res with
                    | ok elements =>
                        subst hrun
                        simp [step, hdata, hloop]
                    | error f =>
                        subst hrun
                        obtain hends | ⟨e, hends⟩ := hends
                        · cases hends
                        · obtain rfl : f = .thrown e := by simpa using hends
                          simp [step, hdata, hloop]
              simp only [Lib.execute, hbegin, hend]

theorem names_eraseIdx {operations : List (Operation Head)} {i : Nat} {op : Operation Head}
    (hop : operations[i]? = some op) :
    (names operations).Perm (op.chain.name :: names (operations.eraseIdx i)) := by
  obtain ⟨hi, rfl⟩ := List.getElem?_eq_some_iff.mp hop
  exact ((List.getElem_cons_eraseIdx_perm hi).map _).symm

/-- A step that meets the condition keeps the account, and an operation that it ends has its chain
no longer in the map. -/
theorem Accounted.keep (hacc : Accounted start s) (hreleases : Releases s a)
    (h : step s a = some s') :
    Accounted start s' ∧ ∀ i op, a.ended = some i → s.inFlight[i]? = some op →
      op.chain.name ∉ s'.config.protoChainsMap := by
  obtain ⟨hended, hconfig, hflight⟩ | ⟨hended, op, hfresh, -, rfl⟩ |
    ⟨i, hended, op, hop, hflight, hconfig⟩ := step_cases h
  · refine ⟨⟨?_, ?_⟩, by simp [hended]⟩
    · rw [hconfig, hflight]
      exact hacc.occupied
    · rw [hconfig]
      exact hacc.distinct
  · refine ⟨⟨?_, ?_⟩, by simp [hended]⟩
    · exact hacc.occupied.cons _
    · exact List.nodup_cons.mpr ⟨hfresh, hacc.distinct⟩
  · have hfreed : s'.config.protoChainsMap = s.config.protoChainsMap.erase op.chain.name := by
      obtain ⟨-, hdestroyed⟩ | ⟨hnot, -⟩ := hconfig
      · rw [hdestroyed, CConfigProtocols.destroyProtocolsChain]
      · exact absurd hreleases hnot
    have hgone : op.chain.name ∉ s'.config.protoChainsMap := by
      rw [hfreed]
      exact fun hmem => hacc.distinct.not_mem_erase hmem
    refine ⟨⟨?_, ?_⟩, ?_⟩
    · have hboth := hacc.occupied.trans ((names_eraseIdx hop).append_right _)
      rw [hfreed, hflight]
      have herased := hboth.erase op.chain.name
      rwa [List.cons_append, List.erase_cons_head] at herased
    · rw [hfreed]
      exact hacc.distinct.erase _
    · intro j op' hj hop'
      obtain rfl : i = j := Option.some.inj (hended.symm.trans hj)
      obtain rfl : op = op' := Option.some.inj (hop.symm.trans hop')
      exact hgone

/-- A step that does not meet the condition leaves a slot occupied for good. -/
theorem Accounted.leak (hacc : Accounted start s) (hnot : ¬Releases s a)
    (h : step s a = some s') :
    s'.config.protoChainsMap.length =
      start.config.protoChainsMap.length + s'.inFlight.length + 1 := by
  have hlength := hacc.occupied.length_eq
  rw [List.length_append, names, List.length_map] at hlength
  obtain ⟨hended, -, -⟩ | ⟨hended, -⟩ | ⟨i, -, op, hop, hflight, hconfig⟩ := step_cases h
  · cases a <;> first | exact absurd trivial hnot | cases hended
  · cases a <;> first | exact absurd trivial hnot | cases hended
  · obtain ⟨hreleases, -⟩ | ⟨-, hkept⟩ := hconfig
    · exact absurd hreleases hnot
    · obtain ⟨hi, -⟩ := List.getElem?_eq_some_iff.mp hop
      rw [hkept, hlength, hflight, List.length_eraseIdx_of_lt hi]
      omega

/-- No run occupies more slots than there are, or than were occupied at its start. -/
theorem slots_capped {guard : State Head → Action → Prop} (run : Run guard start s) :
    s.config.protoChainsMap.length ≤
      max start.config.protoChainsMap.length CConfigProtocols.maxProtocolChainInstances := by
  apply run.invariant
  · exact Nat.le_max_left _ _
  · intro s a s' hcapped _ h
    obtain ⟨-, hconfig, -⟩ | ⟨-, op, -, hroom, rfl⟩ | ⟨i, -, op, -, -, hconfig⟩ := step_cases h
    · rw [hconfig]
      exact hcapped
    · exact (Nat.succ_le_of_lt hroom).trans (Nat.le_max_right _ _)
    · obtain ⟨-, hdestroyed⟩ | ⟨-, hkept⟩ := hconfig
      · rw [hdestroyed, CConfigProtocols.destroyProtocolsChain]
        exact List.length_erase_le.trans hcapped
      · rw [hkept]
        exact hcapped

/-- In every run whose sends end with the provider started and whose jobs meet no exception, an
operation that ends gives its slot back: those in use are the ones of the start and of the
operations that are on their way. -/
theorem slots_released (hidle : start.inFlight = [])
    (hdistinct : start.config.protoChainsMap.Nodup) (run : Run Releases start s) :
    Accounted start s ∧
      s.config.protoChainsMap.length =
        start.config.protoChainsMap.length + s.inFlight.length ∧
      ∀ a s', Releases s a → step s a = some s' → ∀ i op, a.ended = some i →
        s.inFlight[i]? = some op → op.chain.name ∉ s'.config.protoChainsMap := by
  have hacc : Accounted start s := by
    apply run.invariant
    · exact ⟨by simp [hidle, names], hdistinct⟩
    · intro s a s' hacc hreleases h
      exact (hacc.keep hreleases h).1
  refine ⟨hacc, ?_, ?_⟩
  · rw [hacc.occupied.length_eq, List.length_append, names, List.length_map, Nat.add_comm]
  · intro a s' hreleases h
    exact (hacc.keep hreleases h).2

/-- A library that offers `CPBigEndian`, before anything happens. -/
def idle : State ShippedHead :=
  { config := ShippedCodec.bigEndianConfig
    installed := fun _ => false
    inFlight := [] }

/-- A byte that is sent through a started provider leaves no slot occupied. -/
theorem sentByte_released :
    ∃ s, Run Releases idle s ∧ s.inFlight = [] ∧ s.config.protoChainsMap.length = 0 := by
  obtain ⟨-, hshort⟩ := ICommunicatorImpl.packElements_fixedHeader
    (show ShippedCodec.bigEndian.order? = some .big from rfl) (p := Protocol.create CPBigEndian)
    rfl rfl 0 [0x41] .transTCP []
  have hdone : (ICommunicatorImpl.tcpStarted.packed ICommunicatorImpl.oneByte).1 = .ok () :=
    (hshort (by decide)).1
  obtain ⟨config, elements, hsend⟩ := (ICommunicatorImpl.send_true_iff
    { protoList := [CPBigEndian], protoChainsMap := [1] } ICommunicatorImpl.oneByte
    (fun _ => .ok true) rfl).mpr (ICommunicatorImpl.encapsulation_of_packed hdone)
  have hcall : ICommunicator.send ICommunicatorImpl.tcpStarted ShippedCodec.bigEndianConfig
      [0x41] (fun _ => .ok true) = .ok (true, config) := by
    have hcreate : ShippedCodec.bigEndianConfig.createProtocolsChain =
        .ok ({ protoList := [CPBigEndian], protoChainsMap := [1] },
          ICommunicatorImpl.oneByte.chain) := rfl
    have hmsg : assertThat (([0x41] : Bytes) ≠ []) = .ok () := assertThat_pos (by decide)
    exact bind_eq_ok.mpr ⟨_, hcreate, bind_eq_ok.mpr ⟨(), hmsg, bind_eq_ok.mpr ⟨_, hsend, rfl⟩⟩⟩
  have hstart : Run Releases idle
      { idle with installed := Function.update idle.installed 0 true } :=
    .next (a := .start 0) .start trivial rfl
  have hrun := hstart.execute (execute_send 0 hcall) ?_
  · have hslots := (slots_released rfl (by decide) hrun).2.1
    exact ⟨_, hrun, rfl, hslots⟩
  · refine ⟨trivial, ?_, ?_⟩
    · intro communicator msg chain hop
      cases hop
      rfl
    · split
      · trivial
      · trivial

/-- A byte that is sent before the provider is started leaves its slot occupied. -/
theorem earlySend_leaks :
    ¬∀ s, Run (fun _ _ => True) idle s → Accounted idle s := by
  intro haccounted
  have hrun : Lib.execute step idle
      [.beginSend 0 [0x41],
        .endSend 0 { now := 0, providerType := .transTCP, fromFullPath := [] } fun _ => .ok true] =
      some { idle with config := { ShippedCodec.bigEndianConfig with protoChainsMap := [1] } } :=
    rfl
  have hleft := (haccounted _ (Lib.reachable_of_execute hrun)).occupied.length_eq
  cases hleft

end ChainSlots

end CommonCommunicator
