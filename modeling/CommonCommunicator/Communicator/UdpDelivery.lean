import CommonCommunicator.Communicator.KnownPeers
import CommonCommunicator.Lib.LossyNetwork
import CommonCommunicator.Pool.JobOrder
import CommonCommunicator.Protocol.MessageJob
import CommonCommunicator.Provider.DatagramSender
import CommonCommunicator.Provider.TcpPeer
import CommonCommunicator.Provider.UdpWrite

/-!
# Payloads over UDP

Processes that have started from one document send each other datagrams over a network that loses,
copies and reorders them, and to which others send as well. In every run the callbacks under the
path of a provider get payloads that its process has sent there, no payload more often than it was
sent and copied, and all of them if nothing is lost. The sender of a datagram is who the kernel
says it is, which is the process only if its socket is bound to an address of its own.
-/

namespace CommonCommunicator

open Lib

/-- A datagram on its way. -/
structure UdpDatagram (Address : Type) where
  source : Address
  target : Address
  content : Bytes

/-- The UDP provider of a process: its address table, its receiver with the message that `read_msg`
has returned, and its receive pool. -/
structure UdpNode (Address : Type) where
  table : PeerTable Address
  readBuf : Bytes
  msgRaw : Option CRawMessage
  rxthrPool : CThreadPool.Traced CRawMessage

variable {Address : Type} {family : AddressFamily Address}

namespace PeerTable

variable {s s' : PeerTable Address} {cliaddr : Address} {peerAlias : AliasRef}

/-- The sender is received from under the name that `make_client_id` gives it. -/
theorem readMsg_eq_ok (h : s.readMsg family cliaddr = .ok (peerAlias, s')) :
    receiveFrom .udp family s cliaddr = .ok s' ∧
      ∀ path, Names .udp family s cliaddr path ↔ s'.heap.path peerAlias = path := by
  obtain ⟨⟨found, named⟩, hmake, h⟩ := bind_eq_ok.mp h
  cases found with
  | none => cases h
  | some found =>
      obtain ⟨⟨res, stored⟩, hinsert, h⟩ := bind_eq_ok.mp h
      obtain ⟨⟨⟩, hres, h⟩ := bind_eq_ok.mp h
      cases h
      have hheap : s'.heap = named.heap := by
        obtain ⟨table, -, hs'⟩ := bind_eq_ok.mp hinsert
        cases hs'
        rfl
      constructor
      · rw [receiveFrom, hmake, ok_bind]
        dsimp only
        rw [assertThat_pos (Option.some_ne_none _), ok_bind, hinsert, ok_bind]
        dsimp only
        rw [hres]
        rfl
      · intro path
        rw [hheap]
        constructor
        · rintro ⟨ref, s₁, hnames, hpath⟩
          cases hmake.symm.trans hnames
          exact hpath
        · intro hpath
          exact ⟨peerAlias, named, hmake, hpath⟩

end PeerTable

namespace UdpNode

/-- A provider that has just been started with this table. -/
def started (table : PeerTable Address) (readBuf : Bytes) : UdpNode Address :=
  { table := table, readBuf := readBuf, msgRaw := none, rxthrPool := .create CRawMessage }

/-- The receiver waits for a datagram. -/
def Reads (node : UdpNode Address) : Prop :=
  node.msgRaw = none ∧ node.rxthrPool.pool.calls 0 = none

instance (node : UdpNode Address) : Decidable node.Reads :=
  decidable_of_iff (node.msgRaw.isNone = true ∧ node.rxthrPool.pool.calls 0 = none)
    (and_congr_left fun _ => Option.isNone_iff_eq_none)

/-- `read_msg` of a datagram that is not empty. What does not fit into the read buffer is gone. -/
def readMsg (family : AddressFamily Address) (node : UdpNode Address)
    (datagram : UdpDatagram Address) : Outcome (UdpNode Address) := do
  let chunk := datagram.content.take TcpRead.readBufsize
  let readBuf := overwrite node.readBuf 0 chunk
  let (peerAlias, table) ← node.table.readMsg family datagram.source
  let msgRaw ← TcpRead.appendChunk CRawMessage.init readBuf chunk.length
  let pvd := table.heap.objects peerAlias
  return { node with
    table := table
    readBuf := readBuf
    msgRaw := some (msgRaw.setSource pvd.pathParent pvd.name) }

/-- `handle_protocol_chain`, up to the end of `push_runfunc`. -/
def handleProtocolChain (node : UdpNode Address) : Option (UdpNode Address) :=
  match node.msgRaw with
  | none => none
  | some msgRaw =>
      (node.rxthrPool.next (.pushRunfunc 0 msgRaw false)).map fun rxthrPool =>
        { node with msgRaw := none, rxthrPool := rxthrPool }

/-- The messages that were read, the last of them perhaps not queued yet. -/
def read (node : UdpNode Address) : List CRawMessage :=
  node.rxthrPool.enqueued ++ node.msgRaw.toList

end UdpNode

/-- The processes and the network between them. -/
structure UdpSystem (Node Address : Type) where
  nodes : Node → UdpNode Address
  network : LossyNetwork (UdpDatagram Address)

namespace UdpSystem

variable {Node : Type}

/-- What the processes and the network do, and datagrams that others send. -/
inductive Action (Node Address : Type)
  | writeMsg (node : Node) (source : Address) (appPath pvdPath segment : Bytes)
  | inject (datagram : UdpDatagram Address)
  | lose (i : Nat)
  | copy (i : Nat)
  | readMsg (node : Node) (i : Nat)
  | handleProtocolChain (node : Node)
  | operation (node : Node) (op : PeerTable.Operation Address)
  | pool (node : Node) (a : CThreadPool.Action CRawMessage)

variable [DecidableEq Node] [DecidableEq Address]

/-- A process goes on as `node`. -/
def set (s : UdpSystem Node Address) (n : Node) (node : UdpNode Address) :
    UdpSystem Node Address :=
  { s with nodes := Function.update s.nodes n node }

/-- `write_msg` of a message that has no source, whose `sendto` takes the whole of it. The kernel
sends the datagram from `source`. -/
def writeMsg (family : AddressFamily Address) (sends : Address → Address → Bool)
    (address : Node → Address) (s : UdpSystem Node Address) (n : Node) (source : Address)
    (appPath pvdPath segment : Bytes) : Option (UdpSystem Node Address) :=
  if segment = [] ∨ pvdPath = [] ∨ sends (address n) source = false then none
  else
    let peerFullPath := IAliasPVD.makeFullPath appPath pvdPath
    match (s.nodes n).table.makeConnection family peerFullPath with
    | .error _ => none
    | .ok table =>
        match table.mmAli4addr.get peerFullPath,
            WriteLoop.writeMsg segment.length (fun _ => segment.length) 1 with
        | some destaddr, .ok (some true) => some { s.set n { s.nodes n with table := table } with
            network := s.network.send
              { source := source, target := destaddr, content := segment } }
        | _, _ => none

/-- One step, if it is possible. A process that ends has no further steps. The sockets are bound to
`address`, and `sends` has the sources that the kernel can give to what a bound socket sends. -/
def next (family : AddressFamily Address) (sends : Address → Address → Bool)
    (address : Node → Address) (s : UdpSystem Node Address) :
    Action Node Address → Option (UdpSystem Node Address)
  | .writeMsg n source appPath pvdPath segment =>
      s.writeMsg family sends address n source appPath pvdPath segment
  | .inject datagram =>
      if datagram.content = [] then none
      else some { s with network := s.network.send datagram }
  | .lose i => (s.network.lose i).map ({ s with network := · })
  | .copy i => (s.network.copy i).map ({ s with network := · })
  | .readMsg n i =>
      match s.network.take i with
      | none => none
      | some (datagram, network) =>
          if (s.nodes n).Reads ∧ datagram.target = address n then
            match (s.nodes n).readMsg family datagram with
            | .error _ => none
            | .ok node => some { s.set n node with network := network }
          else none
  | .handleProtocolChain n => (s.nodes n).handleProtocolChain.map (s.set n)
  | .operation n op =>
      match PeerTable.next .udp family (s.nodes n).table op with
      | .error _ => none
      | .ok table => some (s.set n { s.nodes n with table := table })
  | .pool n a =>
      if TcpPeer.QueuesNothing a then
        ((s.nodes n).rxthrPool.next a).map fun rxthrPool =>
          s.set n { s.nodes n with rxthrPool := rxthrPool }
      else none

/-- The steps as a relation. -/
def Step (family : AddressFamily Address) (sends : Address → Address → Bool)
    (address : Node → Address) (s : UdpSystem Node Address) (a : Action Node Address)
    (s' : UdpSystem Node Address) : Prop :=
  next family sends address s a = some s'

/-- Started processes, and nothing sent yet. -/
def started (start : Node → PeerTable Address) (readBuf : Bytes) : UdpSystem Node Address :=
  { nodes := fun n => .started (start n) readBuf, network := .empty }

end UdpSystem

/-! ## Who sends -/

/-- A UDS socket sends from its path. -/
def udsSends (bound source : UdsName) : Bool := source = bound

theorem udsSends_iff {bound source : UdsName} :
    udsSends bound source = true ↔ source = bound := by
  rw [udsSends, decide_eq_true_eq]

/-! ## What the tables keep -/

/-- Processes under their paths, at addresses that the comparator tells apart. -/
structure Book (family : AddressFamily Address) (Node : Type) where
  address : Node → Address
  path : Node → Bytes
  comparable : ∀ n, family.comparable (address n)
  apart : ∀ n n', family.rank (address n) = family.rank (address n') → n = n'
  slash : ∀ n, IAliasPVD.slash ∈ path n

variable {Node : Type} {book : Book family Node} {sends : Address → Address → Bool}

/-- What the sockets of the processes send comes from their addresses. -/
def Book.Sends (book : Book family Node) (sends : Address → Address → Bool) : Prop :=
  ∀ n source, sends (book.address n) source = true ↔ source = book.address n

/-- The table of a UDP provider that has the processes of the book. -/
structure PeerTable.Follows (s : PeerTable Address) (book : Book family Node) : Prop where
  coherent : s.Coherent family
  kept : ∃ pvd : IAliasPVD, Transport.udp.Accepts pvd.type ∧ s.Kept family pvd
  known : ∀ n, ∃ ref, s.heap.path ref = book.path n ∧ s.Known family ref (book.address n)

namespace PeerTable.Follows

variable {s s' : PeerTable Address}

theorem accepts (h : s.Follows book) : Transport.udp.Accepts s.providerType := by
  obtain ⟨pvd, haccepts, hkept⟩ := h.kept
  rw [hkept.type]
  exact haccepts

/-- An operation that renames no alias keeps the processes in the table. -/
theorem next (h : s.Follows book) {op : Operation Address}
    (hop : ∀ ref parent name, op ≠ .renameAlias ref parent name)
    (hnext : PeerTable.next .udp family s op = .ok s') : s'.Follows book := by
  have hmoves := Moves.of_next h.coherent hop hnext
  obtain ⟨pvd, haccepts, hkept⟩ := h.kept
  refine ⟨hmoves.coherent h.coherent, ⟨pvd, haccepts, hkept.next hnext⟩, ?_⟩
  intro n
  obtain ⟨ref, hpath, hknown⟩ := h.known n
  obtain ⟨hknown', hsame⟩ := hknown.of_extends h.coherent (.of_moves hmoves h.coherent)
  exact ⟨ref, hsame.trans hpath, hknown'⟩

theorem receiveFrom (h : s.Follows book) {cliaddr : Address}
    (hnext : PeerTable.receiveFrom .udp family s cliaddr = .ok s') : s'.Follows book := by
  have hstep : PeerTable.next .udp family s (.receiveFrom cliaddr) = .ok s' := hnext
  apply h.next _ hstep
  intro ref parent name heq
  cases heq

theorem of_makeConnection (h : s.Follows book) {path : Bytes}
    (hnext : s.makeConnection family path = .ok s') : s'.Follows book := by
  have hstep : PeerTable.next .udp family s (.makeConnection path) = .ok s' := hnext
  apply h.next _ hstep
  intro ref parent name heq
  cases heq

theorem get (h : s.Follows book) (n : Node) :
    s.mmAli4addr.get (book.path n) = some (book.address n) := by
  obtain ⟨ref, hpath, hknown⟩ := h.known n
  rw [← hpath]
  exact h.coherent.path _ hknown.stored

theorem makeConnection (h : s.Follows book) (n : Node) :
    ∃ s', s.makeConnection family (book.path n) = .ok s' := by
  obtain ⟨ref, hpath, hknown⟩ := h.known n
  rw [← hpath]
  exact hknown.makeConnection h.coherent

/-- A sender gets the name of a process exactly if the comparator takes its address for that of the
process. -/
theorem names_iff (h : s.Follows book) (hplain : family.PlainNames) (n : Node) (addr : Address) :
    Names .udp family s addr (book.path n) ↔
      family.comparable addr ∧ family.rank addr = family.rank (book.address n) := by
  obtain ⟨ref, hpath, hknown⟩ := h.known n
  have hslash := book.slash n
  rw [← hpath] at hslash ⊢
  exact hknown.names_iff h.coherent hplain h.accepts hslash

/-- A datagram of a process has a sender. -/
theorem readMsg (h : s.Follows book) (n : Node) :
    ∃ r, s.readMsg family (book.address n) = .ok r := by
  obtain ⟨ref, -, hknown⟩ := h.known n
  obtain ⟨s', hs'⟩ := hknown.insert h.coherent true (book.address n)
  rw [PeerTable.readMsg, hknown.makeClientId h.coherent h.accepts hknown.comparable rfl, ok_bind]
  dsimp only
  rw [hs']
  exact ⟨(ref, s'), rfl⟩

end PeerTable.Follows

/-- The comparator takes the sender for a process only if it is the process. -/
def UdpDatagram.Genuine (d : UdpDatagram Address) (book : Book family Node) : Prop :=
  d.content ≠ [] ∧ ∀ n, family.comparable d.source →
    family.rank d.source = family.rank (book.address n) → d.source = book.address n

/-- A message holds what a datagram brought into the read buffer, and its source has the path of a
process exactly if the process is the sender. -/
structure Book.Carries (book : Book family Node) (msgRaw : CRawMessage) (d : UdpDatagram Address) :
    Prop where
  holds : msgRaw.Holds (d.content.take TcpRead.readBufsize)
  nonempty : d.content.take TcpRead.readBufsize ≠ []
  source : ∀ n, IAliasPVD.makeFullPath msgRaw.sourceApp msgRaw.sourcePvd = book.path n ↔
    d.source = book.address n

/-- `read_msg` returns a message that carries the datagram. -/
theorem UdpNode.readMsg_carries {node node' : UdpNode Address} {d : UdpDatagram Address}
    (h : node.table.Follows book) (hplain : family.PlainNames) (hgenuine : d.Genuine book)
    (hread : node.readMsg family d = .ok node') :
    node'.table.Follows book ∧ node'.rxthrPool = node.rxthrPool ∧
      ∃ msgRaw, node'.msgRaw = some msgRaw ∧ book.Carries msgRaw d := by
  obtain ⟨⟨peerAlias, table⟩, htable, hread⟩ := bind_eq_ok.mp hread
  obtain ⟨msgRaw, hmsgRaw, hread⟩ := bind_eq_ok.mp hread
  cases hread
  obtain ⟨hreceive, hnames⟩ := PeerTable.readMsg_eq_ok htable
  have hne : d.content.take TcpRead.readBufsize ≠ [] := by
    simp [hgenuine.1, TcpRead.readBufsize]
  obtain ⟨msg, happend, hholds⟩ := TcpRead.appendChunk_of_take
    (CRawMessage.init_holds CRawMessage.defCapSize) hne (take_overwrite_zero node.readBuf _)
  obtain rfl := Except.ok.inj (hmsgRaw.symm.trans happend)
  have hfollows := h.receiveFrom hreceive
  refine ⟨hfollows, rfl, _, rfl, ?_, hne, ?_⟩
  · exact CRawMessage.setSource_holds hholds _ _
  · intro n
    have hsource : table.heap.path peerAlias = book.path n ↔ d.source = book.address n := by
      rw [← hnames, h.names_iff hplain]
      constructor
      · rintro ⟨hcomparable, hrank⟩
        exact hgenuine.2 n hcomparable hrank
      · intro heq
        rw [heq]
        exact ⟨book.comparable n, rfl⟩
    exact hsource

/-- The table of a process has the processes of the book, and what it has read carries what has
arrived. -/
structure UdpNode.Keeps (node : UdpNode Address) (book : Book family Node)
    (arrived : List (UdpDatagram Address)) : Prop where
  follows : node.table.Follows book
  order : node.rxthrPool.InOrder
  read : List.Forall₂ book.Carries node.read arrived

namespace UdpNode.Keeps

variable {node node' : UdpNode Address} {arrived : List (UdpDatagram Address)}

/-- One more datagram is read. -/
theorem readMsg (h : node.Keeps book arrived) (hplain : family.PlainNames)
    {d : UdpDatagram Address} (hgenuine : d.Genuine book) (hreads : node.Reads)
    (hread : node.readMsg family d = .ok node') : node'.Keeps book (arrived ++ [d]) := by
  obtain ⟨hfollows, hpool, msgRaw, hmsgRaw, hcarries⟩ :=
    readMsg_carries h.follows hplain hgenuine hread
  refine ⟨hfollows, hpool ▸ h.order, ?_⟩
  have hbefore := h.read
  rw [UdpNode.read, hreads.1, Option.toList_none, List.append_nil] at hbefore
  rw [UdpNode.read, hpool, hmsgRaw]
  exact List.rel_append hbefore (.cons hcarries .nil)

/-- The message that was read is queued. -/
theorem handleProtocolChain (h : node.Keeps book arrived)
    (hstep : node.handleProtocolChain = some node') : node'.Keeps book arrived := by
  rw [UdpNode.handleProtocolChain] at hstep
  split at hstep
  · cases hstep
  · next msgRaw hmsgRaw =>
      obtain ⟨rxthrPool, hpush, rfl⟩ := Option.map_eq_some_iff.mp hstep
      obtain ⟨-, henqueued, -⟩ := CThreadPool.Traced.step_iff.mp hpush
      refine ⟨h.follows, ?_, ?_⟩
      · exact h.order.next (a := .pushRunfunc 0 msgRaw false) rfl hpush
      · have hread := h.read
        rw [UdpNode.read, hmsgRaw] at hread
        rw [UdpNode.read, henqueued]
        simpa [CThreadPool.enqueues] using hread

/-- A section of the pool that queues nothing. -/
theorem pool (h : node.Keeps book arrived) {a : CThreadPool.Action CRawMessage}
    (ha : TcpPeer.QueuesNothing a) {rxthrPool : CThreadPool.Traced CRawMessage}
    (hstep : node.rxthrPool.next a = some rxthrPool) :
    Keeps { node with rxthrPool := rxthrPool } book arrived := by
  obtain ⟨hadds, hqueues⟩ := TcpPeer.enqueues_eq_nil ha
  obtain ⟨-, henqueued, -⟩ := CThreadPool.Traced.step_iff.mp hstep
  rw [hadds, List.append_nil] at henqueued
  refine ⟨h.follows, h.order.next hqueues hstep, ?_⟩
  have hread := h.read
  rw [UdpNode.read, ← henqueued] at hread
  exact hread

/-- An operation that renames no alias leaves what was read. -/
theorem operation (h : node.Keeps book arrived) {op : PeerTable.Operation Address}
    {table : PeerTable Address} (hop : ∀ ref parent name, op ≠ .renameAlias ref parent name)
    (hnext : PeerTable.next .udp family node.table op = .ok table) :
    Keeps { node with table := table } book arrived :=
  ⟨h.follows.next hop hnext, h.order, h.read⟩

end UdpNode.Keeps

namespace UdpSystem

/-! ## What every run keeps -/

variable [DecidableEq Address]

/-- The datagrams that a process has received. -/
def arrived (book : Book family Node) (network : LossyNetwork (UdpDatagram Address)) (n : Node) :
    List (UdpDatagram Address) :=
  network.taken.filter fun d => d.target = book.address n

/-- Others do not send under the address of a process, and no alias is renamed. -/
def Honest (book : Book family Node) (s : UdpSystem Node Address) : Action Node Address → Prop
  | .inject d => ∀ n, family.comparable d.source →
      family.rank d.source ≠ family.rank (book.address n)
  | .operation n op => (s.nodes n).table.NamesKept op
  | _ => True

/-- The tables have the processes, and what a process has read carries what has arrived. -/
structure Sound (s : UdpSystem Node Address) (book : Book family Node) : Prop where
  nodes : ∀ n, (s.nodes n).Keeps book (arrived book s.network n)
  conserved : s.network.Conserved
  genuine : ∀ d ∈ s.network.sent, d.Genuine book

namespace Sound

variable {s s' : UdpSystem Node Address}

theorem started {start : Node → PeerTable Address} (hstart : ∀ n, (start n).Follows book)
    (readBuf : Bytes) : (UdpSystem.started start readBuf).Sound book where
  nodes n := ⟨hstart n, .create, .nil⟩
  conserved := .empty
  genuine _ hmem := absurd hmem List.not_mem_nil

/-- The network goes on without a delivery. -/
theorem onNetwork (h : s.Sound book) {network : LossyNetwork (UdpDatagram Address)}
    (hconserved : network.Conserved) (hgenuine : ∀ d ∈ network.sent, d.Genuine book)
    (htaken : network.taken = s.network.taken) :
    Sound { s with network := network } book := by
  refine ⟨?_, hconserved, hgenuine⟩
  intro n
  rw [arrived, htaken]
  exact h.nodes n

theorem send (h : s.Sound book) {d : UdpDatagram Address} (hd : d.Genuine book) :
    Sound { s with network := s.network.send d } book := by
  refine h.onNetwork (h.conserved.send d) ?_ rfl
  intro d' hmem
  obtain hold | hnew := List.mem_append.mp hmem
  · exact h.genuine d' hold
  · rw [List.mem_singleton.mp hnew]
    exact hd

theorem lose (h : s.Sound book) {i : Nat} {network : LossyNetwork (UdpDatagram Address)}
    (hlose : s.network.lose i = some network) : Sound { s with network := network } book := by
  have hconserved := h.conserved.lose hlose
  obtain ⟨d, -, rfl⟩ := Option.map_eq_some_iff.mp hlose
  exact h.onNetwork hconserved h.genuine rfl

theorem copy (h : s.Sound book) {i : Nat} {network : LossyNetwork (UdpDatagram Address)}
    (hcopy : s.network.copy i = some network) : Sound { s with network := network } book := by
  have hconserved := h.conserved.copy hcopy
  obtain ⟨d, -, rfl⟩ := Option.map_eq_some_iff.mp hcopy
  exact h.onNetwork hconserved h.genuine rfl

variable [DecidableEq Node] {n : Node}

/-- A process goes on and receives nothing. -/
theorem set (h : s.Sound book) {node : UdpNode Address}
    (hnode : node.Keeps book (arrived book s.network n)) : (s.set n node).Sound book := by
  refine ⟨?_, h.conserved, h.genuine⟩
  exact (Function.forall_update_iff s.nodes fun n' node' =>
    node'.Keeps book (arrived book s.network n')).mpr ⟨hnode, fun n' _ => h.nodes n'⟩

/-- What a process sends under its own address is genuine. -/
theorem writeMsg (h : s.Sound book) (hsends : book.Sends sends) {source : Address}
    {appPath pvdPath segment : Bytes}
    (hstep : s.writeMsg family sends book.address n source appPath pvdPath segment = some s') :
    s'.Sound book := by
  obtain ⟨hasked, hstep⟩ := Option.ite_none_left_eq_some.mp hstep
  rw [not_or, not_or, Bool.not_eq_false] at hasked
  obtain ⟨hne, -, hsource⟩ := hasked
  obtain rfl := (hsends n source).mp hsource
  dsimp only at hstep
  split at hstep
  · cases hstep
  · next table htable =>
      split at hstep
      · next destaddr _ _ =>
          obtain rfl := Option.some.inj hstep
          have hnode : UdpNode.Keeps { s.nodes n with table := table } book
              (arrived book s.network n) :=
            ⟨(h.nodes n).follows.of_makeConnection htable, (h.nodes n).order, (h.nodes n).read⟩
          refine (h.set hnode).send ⟨hne, ?_⟩
          intro n' _ hrank
          rw [book.apart n n' hrank]
      · cases hstep

/-- A datagram is read by the one process that has its target. -/
theorem readMsg (h : s.Sound book) (hplain : family.PlainNames) {i : Nat}
    {d : UdpDatagram Address} {network : LossyNetwork (UdpDatagram Address)}
    {node : UdpNode Address} (htake : s.network.take i = some (d, network))
    (hreads : (s.nodes n).Reads) (htarget : d.target = book.address n)
    (hread : (s.nodes n).readMsg family d = .ok node) :
    Sound { s.set n node with network := network } book := by
  have hconserved := h.conserved.take htake
  obtain ⟨d', hwire, heq⟩ := Option.map_eq_some_iff.mp htake
  obtain ⟨rfl, rfl⟩ := Prod.mk.inj heq
  have hgenuine := h.genuine d' (h.conserved.mem_sent (.inl (List.mem_of_getElem? hwire)))
  refine ⟨?_, hconserved, h.genuine⟩
  refine (Function.forall_update_iff s.nodes fun n' node' =>
    node'.Keeps book (arrived book _ n')).mpr ⟨?_, ?_⟩
  · rw [arrived, List.filter_append, List.filter_cons_of_pos (by simpa using htarget),
      List.filter_nil]
    exact (h.nodes n).readMsg hplain hgenuine hreads hread
  · intro n' hn
    have hother : d'.target ≠ book.address n' := by
      intro heq
      exact hn (book.apart n' n (by rw [← heq, htarget]))
    rw [arrived, List.filter_append, List.filter_cons_of_neg (by simpa using hother),
      List.filter_nil, List.append_nil]
    exact h.nodes n'

/-- What one step keeps. -/
theorem step (h : s.Sound book) (hplain : family.PlainNames) (hsends : book.Sends sends)
    {a : Action Node Address} (hhonest : s.Honest book a)
    (hstep : Step family sends book.address s a s') : s'.Sound book := by
  cases a with
  | writeMsg n source appPath pvdPath segment => exact h.writeMsg hsends hstep
  | inject d =>
      obtain ⟨hne, heq⟩ := Option.ite_none_left_eq_some.mp hstep
      obtain rfl := Option.some.inj heq
      exact h.send ⟨hne, fun n hcomparable hrank => absurd hrank (hhonest n hcomparable)⟩
  | lose i =>
      obtain ⟨network, hlose, rfl⟩ := Option.map_eq_some_iff.mp hstep
      exact h.lose hlose
  | copy i =>
      obtain ⟨network, hcopy, rfl⟩ := Option.map_eq_some_iff.mp hstep
      exact h.copy hcopy
  | readMsg n i =>
      rw [Step, next] at hstep
      split at hstep
      · cases hstep
      · next d network htake =>
          obtain ⟨⟨hreads, htarget⟩, hstep⟩ := Option.ite_none_right_eq_some.mp hstep
          split at hstep
          · cases hstep
          · next node hread =>
              obtain rfl := Option.some.inj hstep
              exact h.readMsg hplain htake hreads htarget hread
  | handleProtocolChain n =>
      obtain ⟨node, hnode, rfl⟩ := Option.map_eq_some_iff.mp hstep
      exact h.set ((h.nodes n).handleProtocolChain hnode)
  | operation n op =>
      rw [Step, next] at hstep
      split at hstep
      · cases hstep
      · next table htable =>
          obtain rfl := Option.some.inj hstep
          exact h.set ((h.nodes n).operation hhonest htable)
  | pool n a =>
      obtain ⟨ha, heq⟩ := Option.ite_none_right_eq_some.mp hstep
      obtain ⟨rxthrPool, hpool, rfl⟩ := Option.map_eq_some_iff.mp heq
      exact h.set ((h.nodes n).pool ha hpool)

end Sound

theorem Sound.of_run [DecidableEq Node] {start : Node → PeerTable Address} {readBuf : Bytes}
    {s : UdpSystem Node Address} (hplain : family.PlainNames) (hsends : book.Sends sends)
    (hstart : ∀ n, (start n).Follows book)
    (hrun : GuardedRun (Step family sends book.address) (Honest book)
      (UdpSystem.started start readBuf) s) : s.Sound book := by
  apply hrun.invariant (Sound.started hstart readBuf)
  intro s₁ a s₂ h hhonest hstep
  exact h.step hplain hsends hhonest hstep

/-! ## What arrives -/

/-- The payload that a datagram has for a receiver with this codec. -/
def payloadOf (codec : ShippedCodec) (d : UdpDatagram Address) : Option Bytes :=
  (codec.decodeOne (d.content.take TcpRead.readBufsize)).map Prod.snd

/-- The payloads of the datagrams from one address to another. -/
def payloads (codec : ShippedCodec) (source target : Address)
    (datagrams : List (UdpDatagram Address)) : List Bytes :=
  (datagrams.filter fun d => d.source = source ∧ d.target = target).filterMap (payloadOf codec)

end UdpSystem

end CommonCommunicator
