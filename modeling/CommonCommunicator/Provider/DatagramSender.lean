import CommonCommunicator.Provider.PeerNames
import CommonCommunicator.Lib.ByteOrder

/-!
# The sender of a datagram

`read_msg` of UDP skips empty datagrams. One address buffer and one length serve
all of them: `recvfrom` stores as much of the sender's address as the length
allows, and leaves the whole length of that address in it, which is also what
is cleared before the next call. The sender is then searched among the stored
addresses with the comparator, which may take it for somebody else.
-/

namespace CommonCommunicator

open Lib

/-- A datagram that `recvfrom` returns: the address of its sender, which fits in `ADDR_TYPE`, and
the size of the message. -/
structure Datagram (size : Nat) where
  source : Bytes
  msgSize : Nat
  fits : source.length ≤ size

/-- `bzero`. -/
def bzero (cliaddr : Bytes) (n : Nat) : Bytes := overwrite cliaddr 0 (List.replicate n 0)

/-- What `recvfrom` does with its address arguments. -/
def recvfrom (cliaddr : Bytes) (clilen : Nat) (source : Bytes) : Bytes × Nat :=
  (overwrite cliaddr 0 (source.take clilen), source.length)

/-- The address of a sender in a cleared `ADDR_TYPE`. -/
def Datagram.fullAddress {size : Nat} (datagram : Datagram size) : Bytes :=
  datagram.source ++ List.replicate (size - datagram.source.length) 0

/-- What `read_msg` returns: the source of the message, and the table that it leaves. -/
structure ReadMessage (Address : Type) where
  cliaddr : Bytes
  peerAlias : AliasRef
  table : PeerTable Address

namespace PeerTable

variable {Address : Type} {size : Nat}

/-- What `read_msg` does with the sender of a datagram that is not empty: its alias. A new peer is
registered then, which always succeeds (`registConnectedPeer_ok`). -/
def readMsg (family : AddressFamily Address) (s : PeerTable Address) (cliaddr : Address) :
    Outcome (AliasRef × PeerTable Address) := do
  let (peerAlias, s) ← makeClientId .udp family s cliaddr
  match peerAlias with
  | none => .error .assertion
  | some peerAlias =>
      let (res, s) ← s.insert family (some peerAlias) cliaddr true
      assertThat (res = true)
      return (peerAlias, s)

/-- What it does with the sender of an empty one: `disconnection` of its alias. -/
def readEmpty (family : AddressFamily Address) (s : PeerTable Address) (cliaddr : Address) :
    Outcome (PeerTable Address) := do
  let (peerAlias, s) ← makeClientId .udp family s cliaddr
  match peerAlias with
  | none => .error .assertion
  | some peerAlias =>
      return { s with mmAli4addr := (s.mmAli4addr.resetConnectFlag (s.heap.path peerAlias)).2 }

/-- The loop of `read_msg` over the datagrams that arrive, or nothing while it waits for more of
them. `view` is the address that the buffer holds. -/
def readMsgLoop (view : Bytes → Address) (family : AddressFamily Address) (s : PeerTable Address)
    (cliaddr : Bytes) (clilen : Nat) :
    List (Datagram size) → Outcome (Option (ReadMessage Address))
  | [] => .ok none
  | datagram :: rest =>
      let (cliaddr, clilen) := recvfrom (bzero cliaddr clilen) clilen datagram.source
      if datagram.msgSize = 0 then do
        let s ← s.readEmpty family (view cliaddr)
        readMsgLoop view family s cliaddr clilen rest
      else do
        let (peerAlias, s) ← s.readMsg family (view cliaddr)
        return some { cliaddr := cliaddr, peerAlias := peerAlias, table := s }

/-- `read_msg`, with a new `ADDR_TYPE` of `size` bytes. -/
def readMsgCall (view : Bytes → Address) (family : AddressFamily Address) (s : PeerTable Address)
    (datagrams : List (Datagram size)) : Outcome (Option (ReadMessage Address)) :=
  readMsgLoop view family s (List.replicate size 0) size datagrams

end PeerTable

/-- Behind the length that is cleared next the buffer is clear. -/
structure Cleared (size : Nat) (cliaddr : Bytes) (clilen : Nat) : Prop where
  length : cliaddr.length = size
  within : clilen ≤ size
  behind : cliaddr.drop clilen = List.replicate (size - clilen) 0

/-- A cleared buffer with the part of an address that a length allows. -/
def cutAddress (size clilen : Nat) (source : Bytes) : Bytes :=
  source.take clilen ++ List.replicate (size - (source.take clilen).length) 0

theorem Cleared.bzero {size clilen : Nat} {cliaddr : Bytes} (h : Cleared size cliaddr clilen) :
    bzero cliaddr clilen = List.replicate size 0 := by
  have hwithin := h.within
  rw [CommonCommunicator.bzero, overwrite, List.length_replicate, Nat.zero_add, h.behind,
    List.take_zero, List.nil_append, List.replicate_append_replicate]
  congr 1
  omega

theorem cleared_start (size : Nat) : Cleared size (List.replicate size 0) size where
  length := List.length_replicate
  within := le_rfl
  behind := by simp

theorem recvfrom_cleared (size clilen : Nat) (source : Bytes) :
    recvfrom (List.replicate size 0) clilen source =
      (cutAddress size clilen source, source.length) := by
  simp [recvfrom, overwrite, cutAddress]

/-- The next address is written into a clear buffer again. -/
theorem cleared_cutAddress {size clilen : Nat} {source : Bytes} (hfits : source.length ≤ size) :
    Cleared size (cutAddress size clilen source) source.length := by
  have hlength : (source.take clilen).length ≤ source.length := List.length_take_le' ..
  constructor
  · rw [cutAddress, List.length_append, List.length_replicate]
    omega
  · exact hfits
  · rw [cutAddress, List.drop_append, List.drop_of_length_le hlength, List.nil_append,
      List.drop_replicate]
    congr 1
    omega

/-- Nothing is lost exactly if what is cut off is zero. -/
theorem cutAddress_eq_iff {size clilen : Nat} {datagram : Datagram size} :
    cutAddress size clilen datagram.source = datagram.fullAddress ↔
      ∀ b ∈ datagram.source.drop clilen, b = 0 := by
  have hfits := datagram.fits
  have hparts : datagram.fullAddress = datagram.source.take clilen ++
      (datagram.source.drop clilen ++ List.replicate (size - datagram.source.length) 0) := by
    rw [← List.append_assoc, List.take_append_drop]
    rfl
  have hzeros : size - (datagram.source.take clilen).length =
      (datagram.source.drop clilen).length + (size - datagram.source.length) := by
    rw [List.length_take, List.length_drop]
    omega
  rw [hparts, cutAddress, List.append_cancel_left_eq, hzeros,
    ← List.replicate_append_replicate, List.append_cancel_right_eq, eq_comm, List.eq_replicate_iff]
  exact and_iff_right rfl

namespace PeerTable

variable {Address : Type} {size : Nat} {view : Bytes → Address} {family : AddressFamily Address}
  {pvd : IAliasPVD} {s s' : PeerTable Address} {addr : Address} {ref : AliasRef}

/-- The name that `make_client_id` gives to a peer that shows this IP and port. -/
def clientId (ipport : Cipport) : Bytes := ipport.ip ++ 0x3A :: CString.printUnsigned ipport.port

/-- The alias has exactly this address, and a search for the address leads to its path. -/
structure Registered (family : AddressFamily Address) (s : PeerTable Address) (ref : AliasRef)
    (addr : Address) : Prop where
  stored : s.mmAli4addr.get (s.heap.path ref) = some addr
  found : ∃ other, s.mmAli4addr.getAlias family.less addr = .ok (some other) ∧
    s.heap.path other = s.heap.path ref

/-- The table tells the sender from all others: the comparator finds an alias, and it has exactly
this address, or it finds none, and the name that the address shows is free. -/
structure TellsApart (family : AddressFamily Address) (s : PeerTable Address) (addr : Address) :
    Prop where
  comparable : family.comparable addr
  entries : ∀ entry ∈ s.mmAli4addr.mmAlias, family.comparable entry.1
  known : (∃ entry ∈ s.mmAli4addr.mmAlias, family.rank entry.1 = family.rank addr ∧
      s.mmAli4addr.get (s.heap.path entry.2) = some addr) ∨
    (∀ entry ∈ s.mmAli4addr.mmAlias, family.rank entry.1 ≠ family.rank addr) ∧
      ∃ ipport, family.getIpPort addr = .ok (some ipport) ∧
        ipport.ip ≠ TcpProvider.anyAddress ∧ s.mmAli4addr.get (clientId ipport) = none

/-- `insert` of an alias whose path is stored keeps the table, but for the flag. -/
theorem insert_stored {stored : Address} (family : AddressFamily Address) (addr : Address)
    (connectFlag : Bool) (hget : s.mmAli4addr.get (s.heap.path ref) = some stored) :
    ∃ s', s.insert family (some ref) addr connectFlag = .ok (true, s') ∧ s'.heap = s.heap ∧
      s'.mmAli4addr.mmAlias = s.mmAli4addr.mmAlias ∧
      ∀ path, s'.mmAli4addr.get path = s.mmAli4addr.get path := by
  obtain ⟨isNew, table', hinsert, halias, hpaths⟩ :=
    ComparedAliasAddr.insert_stored family.less addr connectFlag hget
  refine ⟨{ s with mmAli4addr := table' }, ?_, rfl, halias, hpaths⟩
  rw [insert, hinsert]
  rfl

/-- The name of a new alias is its path. -/
theorem path_clientId (s : PeerTable Address) (ipport : Cipport) :
    (s.make (s.makeNewClientAlias (clientId ipport))).heap.path s.heap.nextRef =
      clientId ipport := by
  rw [AliasHeap.path, make, AliasHeap.make_objects_nextRef]
  rfl

/-- The search sees the aliases only. -/
theorem getAlias_congr {less : Address → Address → Outcome Bool}
    {table table' : ComparedAliasAddr Address} (h : table'.mmAlias = table.mmAlias)
    (addr : Address) : table'.getAlias less addr = table.getAlias less addr := by
  rw [ComparedAliasAddr.getAlias, h]
  rfl

/-- A known sender whose message is registered has its own address in the table. -/
theorem get_of_registered_known (h : s.Kept family pvd)
    (hget : s.mmAli4addr.getAlias family.less addr = .ok (some ref)) {res : Bool}
    (hinsert : s.insert family (some ref) addr true = .ok (res, s'))
    (hregistered : s'.Registered family ref addr) :
    s.mmAli4addr.get (s.heap.path ref) = some addr := by
  obtain ⟨stored, hmem, -, hrank⟩ :=
    ComparedAliasAddr.mem_of_getAlias family.ranked family.compared h.ordered hget
  obtain hthere | hfresh := (h.insert_iff ref addr true).mp ⟨_, hinsert⟩
  · obtain ⟨stored, hstored⟩ := Option.ne_none_iff_exists'.mp hthere
    obtain ⟨after, hafter, hheap, -, hpaths⟩ := insert_stored family addr true hstored
    cases hafter.symm.trans hinsert
    rw [← hpaths, ← hheap]
    exact hregistered.stored
  · exact absurd hrank (hfresh _ hmem).2.2

/-- A new sender whose message is registered has got a name that was free. -/
theorem get_of_registered_new {ipport : Cipport} {res res' : Bool} {named : PeerTable Address}
    (hnone : s.mmAli4addr.getAlias family.less addr = .ok none)
    (hmade : (s.make (s.makeNewClientAlias (clientId ipport))).insert family
      (some s.heap.nextRef) addr false = .ok (res, named))
    (hinsert : named.insert family (some s.heap.nextRef) addr true = .ok (res', s'))
    (hregistered : s'.Registered family s.heap.nextRef addr) :
    s.mmAli4addr.get (clientId ipport) = none := by
  by_contra hthere
  obtain ⟨stored, hstored⟩ := Option.ne_none_iff_exists'.mp hthere
  rw [← path_clientId s ipport] at hstored
  obtain ⟨after, hafter, hheap, halias, hpaths⟩ := insert_stored
    (s := s.make (s.makeNewClientAlias (clientId ipport))) family addr false hstored
  cases hafter.symm.trans hmade
  have hnamed : named.mmAli4addr.get (named.heap.path s.heap.nextRef) = some stored := by
    rw [hheap, hpaths]
    exact hstored
  obtain ⟨last, hlast, -, halias', -⟩ := insert_stored family addr true hnamed
  cases hlast.symm.trans hinsert
  obtain ⟨other, hother, -⟩ := hregistered.found
  rw [getAlias_congr (halias'.trans halias)] at hother
  cases hnone.symm.trans hother

/-- A known sender is received from under its alias. -/
theorem readMsg_known (h : s.Kept family pvd) (hpvd : Transport.udp.Accepts pvd.type)
    (hapart : family.comparable addr) {entry : Address × AliasRef}
    (hmem : entry ∈ s.mmAli4addr.mmAlias) (hentry : family.comparable entry.1)
    (hrank : family.rank entry.1 = family.rank addr)
    (hget : s.mmAli4addr.get (s.heap.path entry.2) = some addr) :
    ∃ ref s', s.readMsg family addr = .ok (ref, s') ∧ s'.Registered family ref addr := by
  have haccepts : Transport.udp.Accepts s.providerType := h.type ▸ hpvd
  have hfound := h.ordered.getAlias_of_mem family.ranked hmem hentry hapart hrank
  obtain ⟨after, hafter, hheap, halias, hpaths⟩ := insert_stored family addr true hget
  have hmake : makeClientId .udp family s addr = .ok (some entry.2, s) := by
    rw [makeClientId, assertThat_pos haccepts, ok_bind, hfound]
    rfl
  refine ⟨entry.2, after, ?_, ?_, entry.2, ?_, rfl⟩
  · rw [readMsg, hmake, ok_bind]
    dsimp only
    rw [hafter]
    rfl
  · rw [hheap, hpaths]
    exact hget
  · rw [getAlias_congr halias]
    exact hfound

/-- A new sender is received from under a free name that its address shows. -/
theorem readMsg_new (h : s.Kept family pvd) (hpvd : Transport.udp.Accepts pvd.type)
    (hfresh : s.mmAli4addr.Fresh family.comparable family.rank addr) {ipport : Cipport}
    (hapart : family.comparable addr) (hipport : family.getIpPort addr = .ok (some ipport))
    (hany : ipport.ip ≠ TcpProvider.anyAddress)
    (hfree : s.mmAli4addr.get (clientId ipport) = none) :
    ∃ ref s', s.readMsg family addr = .ok (ref, s') ∧ s'.Registered family ref addr := by
  have haccepts : Transport.udp.Accepts s.providerType := h.type ▸ hpvd
  have hnone := (ComparedAliasAddr.getAlias_eq_none_iff family.ranked family.compared
    h.ordered).mpr hfresh
  have hmade := h.make (s.makeNewClientAlias (clientId ipport))
  have hpath := path_clientId s ipport
  obtain ⟨⟨res, named⟩, hnamed⟩ :=
    (hmade.insert_iff s.heap.nextRef addr false).mpr (.inr hfresh)
  obtain ⟨⟨res', isNew, table⟩, htable, hnamed'⟩ := bind_eq_ok.mp hnamed
  cases hnamed'
  have hnew : (s.make (s.makeNewClientAlias (clientId ipport))).mmAli4addr.mmAddr
      ((s.make (s.makeNewClientAlias (clientId ipport))).heap.path s.heap.nextRef) = none := by
    rw [hpath]
    exact Option.map_eq_none_iff.mp hfree
  obtain ⟨hmmAddr, hordered, hmem⟩ := ComparedAliasAddr.insert_new family.ranked family.compared
    hmade.ordered hnew htable
  have hstored : table.get ((s.make (s.makeNewClientAlias (clientId ipport))).heap.path
      s.heap.nextRef) = some addr := by
    rw [ComparedAliasAddr.get, hmmAddr, PartialMap.insert_apply, if_pos rfl]
    rfl
  obtain ⟨after, hafter, hheap, halias, hpaths⟩ := insert_stored
    (s := { s.make (s.makeNewClientAlias (clientId ipport)) with mmAli4addr := table }) family addr
    true hstored
  have hmake : makeClientId .udp family s addr = .ok (some s.heap.nextRef,
      { s.make (s.makeNewClientAlias (clientId ipport)) with mmAli4addr := table }) := by
    rw [makeClientId, assertThat_pos haccepts, ok_bind, hnone, ok_bind, hipport, ok_bind]
    dsimp only
    rw [if_neg hany]
    exact congrArg (· >>= _) hnamed
  refine ⟨s.heap.nextRef, after, ?_, ?_, s.heap.nextRef, ?_, rfl⟩
  · rw [readMsg, hmake, ok_bind]
    dsimp only
    rw [hafter]
    rfl
  · rw [hheap, hpaths]
    exact hstored
  · rw [getAlias_congr halias]
    exact hordered.getAlias_of_mem family.ranked ((hmem _).mpr (.inl rfl)) hapart hapart rfl

/-- A message is registered under its sender's address exactly if the table tells the sender
apart. -/
theorem readMsg_registered_iff (h : s.Kept family pvd) (hpvd : Transport.udp.Accepts pvd.type) :
    (∃ ref s', s.readMsg family addr = .ok (ref, s') ∧ s'.Registered family ref addr) ↔
      s.TellsApart family addr := by
  constructor
  · rintro ⟨ref, s', hread, hregistered⟩
    obtain ⟨⟨found, named⟩, hmake, hread⟩ := bind_eq_ok.mp hread
    obtain ⟨haddr, hentries⟩ := (h.makeClientId_iff hpvd addr).mp ⟨_, hmake⟩
    cases found with
    | none => cases hread
    | some found =>
        obtain ⟨⟨res, stored⟩, hinsert, hread⟩ := bind_eq_ok.mp hread
        obtain ⟨-, -, hread⟩ := bind_eq_ok.mp hread
        cases hread
        refine ⟨haddr, hentries, ?_⟩
        obtain ⟨rfl, hfound⟩ | ⟨ipport, res', hnone, hipport, hany, heq, hmade⟩ :=
          makeClientId_cases hmake
        · obtain ⟨stored, hmem, -, hrank⟩ := ComparedAliasAddr.mem_of_getAlias family.ranked
            family.compared h.ordered (hfound _ rfl)
          exact .inl ⟨_, hmem, hrank, get_of_registered_known h (hfound _ rfl) hinsert hregistered⟩
        · obtain rfl := Option.some.inj heq
          have hfresh := (ComparedAliasAddr.getAlias_eq_none_iff family.ranked family.compared
            h.ordered).mp hnone
          exact .inr ⟨fun entry hmem => (hfresh entry hmem).2.2, ipport, hipport, hany,
            get_of_registered_new hnone hmade hinsert hregistered⟩
  · rintro ⟨haddr, hentries, ⟨entry, hmem, hrank, hget⟩ | ⟨hother, ipport, hipport, hany, hfree⟩⟩
    · exact readMsg_known h hpvd haddr hmem (hentries entry hmem) hrank hget
    · exact readMsg_new h hpvd (fun entry hmem => ⟨hentries entry hmem, haddr, hother entry hmem⟩)
        haddr hipport hany hfree

/-- The table behind the empty datagrams. Each has its address as far as the length reaches that
the one before it has left. -/
def serve (view : Bytes → Address) (family : AddressFamily Address) :
    PeerTable Address → Nat → List (Datagram size) → Outcome (PeerTable Address)
  | s, _, [] => .ok s
  | s, clilen, empty :: rest => do
      let s ← s.readEmpty family (view (cutAddress size clilen empty.source))
      serve view family s empty.source.length rest

/-- The length that stands when the datagram behind `empties` is received. -/
def lengthBefore (clilen : Nat) (empties : List (Datagram size)) : Nat :=
  (empties.getLast?.map fun last => last.source.length).getD clilen

theorem lengthBefore_cons (clilen : Nat) (empty : Datagram size) (empties : List (Datagram size)) :
    lengthBefore clilen (empty :: empties) = lengthBefore empty.source.length empties := by
  cases empties with
  | nil => rfl
  | cons other empties => rfl

theorem Kept.readEmpty (h : s.Kept family pvd) (hread : s.readEmpty family addr = .ok s') :
    s'.Kept family pvd := by
  obtain ⟨⟨found, named⟩, hmake, hread⟩ := bind_eq_ok.mp hread
  cases found with
  | none => cases hread
  | some found =>
      cases hread
      have hnamed := h.makeClientId hmake
      have hnext : PeerTable.next .udp family named (.disconnection (named.heap.path found)) =
          .ok { named with
            mmAli4addr := (named.mmAli4addr.resetConnectFlag (named.heap.path found)).2 } := rfl
      exact hnamed.next hnext

theorem Kept.serve (h : s.Kept family pvd) {clilen : Nat} {empties : List (Datagram size)}
    (hserve : serve view family s clilen empties = .ok s') : s'.Kept family pvd := by
  induction empties generalizing s clilen with
  | nil =>
      cases hserve
      exact h
  | cons empty empties ih =>
      obtain ⟨served, hread, hrest⟩ := bind_eq_ok.mp hserve
      exact ih (h.readEmpty hread) hrest

/-- The loop invariant is that the buffer is clear. Behind the empty datagrams a message is looked
up with its address as far as the length reaches that the last of them has left. -/
theorem readMsgLoop_append {cliaddr : Bytes} {clilen : Nat} {empties rest : List (Datagram size)}
    {datagram : Datagram size} (hcleared : Cleared size cliaddr clilen)
    (hempties : ∀ empty ∈ empties, empty.msgSize = 0) (hmsg : 0 < datagram.msgSize) :
    readMsgLoop view family s cliaddr clilen (empties ++ datagram :: rest) = do
      let s ← serve view family s clilen empties
      let (peerAlias, s) ← s.readMsg family
        (view (cutAddress size (lengthBefore clilen empties) datagram.source))
      return some
        { cliaddr := cutAddress size (lengthBefore clilen empties) datagram.source
          peerAlias := peerAlias
          table := s } := by
  induction empties generalizing s cliaddr clilen with
  | nil =>
      rw [List.nil_append, readMsgLoop, hcleared.bzero, recvfrom_cleared]
      exact if_neg hmsg.ne'
  | cons empty empties ih =>
      have hempty : empty.msgSize = 0 := hempties empty List.mem_cons_self
      rw [List.cons_append, readMsgLoop, hcleared.bzero, recvfrom_cleared, lengthBefore_cons,
        serve, bind_assoc]
      dsimp only
      rw [if_pos hempty]
      congr 1
      funext served
      exact ih (cleared_cutAddress empty.fits)
        fun other hother => hempties other (List.mem_cons_of_mem _ hother)

/-- The first message of the call is looked up and registered under the full address of its
sender. -/
def Attributed (view : Bytes → Address) (family : AddressFamily Address) (s : PeerTable Address)
    (empties : List (Datagram size)) (datagram : Datagram size) (rest : List (Datagram size)) :
    Prop :=
  ∃ msg, readMsgCall view family s (empties ++ datagram :: rest) = .ok (some msg) ∧
    msg.cliaddr = datagram.fullAddress ∧
    msg.table.Registered family msg.peerAlias (view datagram.fullAddress)

/-- The full address is looked up if no empty datagram came before, or the address of the last one
was as long, up to bytes that are zero. -/
theorem lookup_iff (empties : List (Datagram size)) (datagram : Datagram size) :
    cutAddress size (lengthBefore size empties) datagram.source = datagram.fullAddress ↔
      ∀ last ∈ empties.getLast?, ∀ b ∈ datagram.source.drop last.source.length, b = 0 := by
  rw [cutAddress_eq_iff]
  cases hempty : empties.getLast? with
  | none => simp [lengthBefore, hempty, List.drop_of_length_le datagram.fits]
  | some last => simp [lengthBefore, hempty]

/-- The first message is attributed to its sender exactly if no empty datagram came before it, or
the address of the last one was as long, up to bytes that are zero, and the table that the empty
datagrams leave tells the sender apart. -/
theorem attributed_iff (hpvd : Transport.udp.Accepts pvd.type)
    (hreach : Reachable (Step .udp family) (started Address pvd) s)
    {empties rest : List (Datagram size)} {datagram : Datagram size}
    (hempties : ∀ empty ∈ empties, empty.msgSize = 0) (hmsg : 0 < datagram.msgSize) :
    Attributed view family s empties datagram rest ↔
      (∀ last ∈ empties.getLast?, ∀ b ∈ datagram.source.drop last.source.length, b = 0) ∧
        ∃ served, serve view family s size empties = .ok served ∧
          served.TellsApart family (view datagram.fullAddress) := by
  have hkept := Kept.reachable hreach
  rw [← lookup_iff, Attributed, readMsgCall,
    readMsgLoop_append (cleared_start size) hempties hmsg]
  constructor
  · rintro ⟨msg, hcall, hlookup, hregistered⟩
    obtain ⟨served, hserve, hcall⟩ := bind_eq_ok.mp hcall
    obtain ⟨⟨ref, after⟩, hread, hcall⟩ := bind_eq_ok.mp hcall
    cases hcall
    dsimp only at hlookup hregistered
    rw [hlookup] at hread
    exact ⟨hlookup, served, hserve,
      (readMsg_registered_iff (hkept.serve hserve) hpvd).mp ⟨ref, after, hread, hregistered⟩⟩
  · rintro ⟨hlookup, served, hserve, hapart⟩
    obtain ⟨ref, after, hread, hregistered⟩ :=
      (readMsg_registered_iff (hkept.serve hserve) hpvd).mpr hapart
    rw [hlookup, hserve, ok_bind, hread]
    exact ⟨_, rfl, rfl, hregistered⟩

/-- A `sockaddr_un` in memory: the family in two bytes, and the path. -/
def sockaddrUn (memory : Bytes) : SockaddrUn where
  sunFamily := valueLE (memory.take 2)
  sunPath := (memory.drop 2 ++ List.replicate udsPathMaxsize 0).take udsPathMaxsize
  size := by simp

/-- The address of a UDS peer in memory. The kernel writes no other family there. -/
def udsName (memory : Bytes) : UdsName :=
  if h : (sockaddrUn memory).sunFamily = afUnix ∨
      (sockaddrUn memory).sunPath = List.replicate udsPathMaxsize 0 then ⟨sockaddrUn memory, h⟩
  else unboundName

/-- A provider for datagrams over UDS. -/
def localDatagrams : IAliasPVD where
  pathParent := [0x61]
  name := [0x70]
  type := .transUdsUDP
  convertible := IAliasPVD.convertible_transUdsUDP

/-- A datagram from the socket `/` and a name of at most 16 characters. -/
def fromSocket (name : Bytes) (msgSize : Nat) (h : name.length ≤ 16) : Datagram 110 where
  source := [0x01, 0x00, 0x2F] ++ name ++ [0x00]
  msgSize := msgSize
  fits := by
    simp only [List.length_append, List.length_cons, List.length_nil]
    omega

/-- An empty datagram from `/1.2.3.4:5`. -/
def emptyDatagram : Datagram 110 :=
  fromSocket (CaliasCmpfunc.dotted 1 2 3 4 ++ [0x3A, 0x35]) 0 (by decide)

/-- A message from `/1.2.3.5:6`. -/
def shortSender : Datagram 110 :=
  fromSocket (CaliasCmpfunc.dotted 1 2 3 5 ++ [0x3A, 0x36]) 1 (by decide)

/-- A message from `/1.2.3.5:678`. -/
def longSender : Datagram 110 :=
  fromSocket (CaliasCmpfunc.dotted 1 2 3 5 ++ [0x3A, 0x36, 0x37, 0x38]) 1 (by decide)

theorem getIpPort_emptyDatagram :
    CinetUds.getIpPort (udsName emptyDatagram.fullAddress).1 =
      .ok (some { ip := CaliasCmpfunc.dotted 1 2 3 4, port := 5 }) := rfl

theorem getIpPort_shortSender :
    CinetUds.getIpPort (udsName shortSender.fullAddress).1 =
      .ok (some { ip := CaliasCmpfunc.dotted 1 2 3 5, port := 6 }) := rfl

theorem comparable_emptyDatagram :
    (AddressFamily.uds CaliasCmpfunc.inetAddr).comparable (udsName emptyDatagram.fullAddress) :=
  ((AddressFamily.uds CaliasCmpfunc.inetAddr).readable (udsName emptyDatagram.fullAddress)).mpr
    ⟨{ ip := CaliasCmpfunc.dotted 1 2 3 4, port := 5 }, getIpPort_emptyDatagram⟩

theorem comparable_shortSender :
    (AddressFamily.uds CaliasCmpfunc.inetAddr).comparable (udsName shortSender.fullAddress) :=
  ((AddressFamily.uds CaliasCmpfunc.inetAddr).readable (udsName shortSender.fullAddress)).mpr
    ⟨{ ip := CaliasCmpfunc.dotted 1 2 3 5, port := 6 }, getIpPort_shortSender⟩

theorem serve_emptyDatagram :
    ∃ served : PeerTable UdsName,
      serve udsName (.uds CaliasCmpfunc.inetAddr) (started UdsName localDatagrams) 110
        [emptyDatagram] = .ok served ∧
      served.mmAli4addr.mmAlias = [(udsName emptyDatagram.fullAddress, 1)] ∧
      served.mmAli4addr.get (clientId { ip := CaliasCmpfunc.dotted 1 2 3 5, port := 6 }) = none :=
  ⟨_, rfl, rfl, rfl⟩

/-- The comparator tells the two senders apart. -/
theorem rank_emptyDatagram_ne :
    (AddressFamily.uds CaliasCmpfunc.inetAddr).rank (udsName emptyDatagram.fullAddress) ≠
      (AddressFamily.uds CaliasCmpfunc.inetAddr).rank (udsName shortSender.fullAddress) := by
  have hempty : CaliasCmpfunc.rankUn CaliasCmpfunc.inetAddr (udsName emptyDatagram.fullAddress).1 =
      CaliasCmpfunc.standard (CaliasCmpfunc.inetAddr (CaliasCmpfunc.dotted 1 2 3 4)) 5 := by
    rw [CaliasCmpfunc.rankUn, getIpPort_emptyDatagram]
  have hshort : CaliasCmpfunc.rankUn CaliasCmpfunc.inetAddr (udsName shortSender.fullAddress).1 =
      CaliasCmpfunc.standard (CaliasCmpfunc.inetAddr (CaliasCmpfunc.dotted 1 2 3 5)) 6 := by
    rw [CaliasCmpfunc.rankUn, getIpPort_shortSender]
  intro hrank
  have hsame := hempty.symm.trans (hrank.trans hshort)
  rw [CaliasCmpfunc.standard_inj (by decide) (by decide)] at hsame
  revert hsame
  decide

/-- A message behind an empty datagram from an address of the same length is attributed to its
sender. -/
theorem shortSender_attributed :
    Attributed udsName (.uds CaliasCmpfunc.inetAddr) (started UdsName localDatagrams)
      [emptyDatagram] shortSender [] := by
  obtain ⟨served, hserve, hentries, hfree⟩ := serve_emptyDatagram
  have hempties : ∀ empty ∈ [emptyDatagram], empty.msgSize = 0 := by
    intro empty hmem
    rw [List.mem_singleton.mp hmem]
    rfl
  have hpvd : Transport.udp.Accepts localDatagrams.type := Or.inr rfl
  apply (attributed_iff hpvd .start hempties Nat.one_pos).mpr
  refine ⟨?_, served, hserve, ?_, ?_, .inr ⟨?_, _, getIpPort_shortSender, by decide, hfree⟩⟩
  · rintro last ⟨⟩ b hb
    have hall : shortSender.source.drop emptyDatagram.source.length = [] := rfl
    have hnone : b ∈ ([] : Bytes) := hall ▸ hb
    cases hnone
  · exact comparable_shortSender
  · intro entry hmem
    rw [hentries] at hmem
    rw [List.mem_singleton.mp hmem]
    exact comparable_emptyDatagram
  · intro entry hmem
    rw [hentries] at hmem
    rw [List.mem_singleton.mp hmem]
    exact rank_emptyDatagram_ne

/-- Behind the empty datagram a message from `/1.2.3.5:678` is looked up under `/1.2.3.5:67`. -/
theorem longSender_not_attributed :
    ¬∀ (size : Nat) (view : Bytes → UdsName) (pvd : IAliasPVD) (s : PeerTable UdsName)
      (empties rest : List (Datagram size)) (datagram : Datagram size),
      Transport.udp.Accepts pvd.type →
      Reachable (Step .udp (.uds CaliasCmpfunc.inetAddr)) (started UdsName pvd) s →
      (∀ empty ∈ empties, empty.msgSize = 0) → 0 < datagram.msgSize →
        Attributed view (.uds CaliasCmpfunc.inetAddr) s empties datagram rest := by
  intro hattributed
  have hempties : ∀ empty ∈ [emptyDatagram], empty.msgSize = 0 := by
    intro empty hmem
    rw [List.mem_singleton.mp hmem]
    rfl
  obtain ⟨msg, hcall, hlookup, -⟩ := hattributed 110 udsName localDatagrams _ [emptyDatagram] []
    longSender (Or.inr rfl) .start hempties Nat.one_pos
  rw [readMsgCall, readMsgLoop_append (cleared_start 110) hempties Nat.one_pos] at hcall
  obtain ⟨served, -, hcall⟩ := bind_eq_ok.mp hcall
  obtain ⟨⟨ref, after⟩, -, hcall⟩ := bind_eq_ok.mp hcall
  cases hcall
  have hzero := (lookup_iff _ _).mp hlookup emptyDatagram rfl 0x38 (by decide)
  cases hzero

/-- It is registered as well, but under another name. -/
example : (match readMsgCall udsName (.uds CaliasCmpfunc.inetAddr) (started UdsName localDatagrams)
      [emptyDatagram, longSender] with
    | .ok (some msg) => msg.table.heap.path msg.peerAlias
    | _ => []) = clientId { ip := CaliasCmpfunc.dotted 1 2 3 5, port := 67 } := by
  decide +kernel

end PeerTable

end CommonCommunicator
