import CommonCommunicator.Inet.CinetUds
import CommonCommunicator.Lib.ComparedMap
import Mathlib.Data.Rat.Cast.Order
import Mathlib.Tactic.Linarith

/-!
# CALIAS_CMPFUNC

The comparators of the address maps turn IP and port into one number: the
address word, and the port as its fraction. For a UDS path the address word is
what `inet_addr` makes of the id. The numbers are exact here.
-/

namespace CommonCommunicator

open Lib

/-- `sockaddr_in`, with address and port as they are stored. -/
structure SockaddrIn where
  sinFamily : Nat
  sinPort : UInt16
  sinAddr : UInt32
  deriving DecidableEq

namespace CaliasCmpfunc

/-- Address and port as one number. -/
def standard (addr : UInt32) (port : Nat) : ℚ := addr.toNat + port / 100000

/-- `CALIAS_CMPFUNC<sockaddr_in>`. -/
def lessIn (left right : SockaddrIn) : Outcome Bool := do
  assertThat (left.sinFamily = right.sinFamily)
  return decide (standard left.sinAddr left.sinPort.toNat <
    standard right.sinAddr right.sinPort.toNat)

/-- `CALIAS_CMPFUNC<sockaddr_un>`. -/
def lessUn (inetAddr : Bytes → UInt32) (left right : SockaddrUn) : Outcome Bool := do
  assertThat (left.sunFamily = right.sunFamily)
  let leftIpport ← CinetUds.getIpPort left
  let rightIpport ← CinetUds.getIpPort right
  match leftIpport, rightIpport with
  | some leftIpport, some rightIpport =>
      return decide (standard (inetAddr leftIpport.ip) leftIpport.port <
        standard (inetAddr rightIpport.ip) rightIpport.port)
  | _, _ => .error .assertion

/-- The fraction keeps ports apart, and the whole part addresses. -/
theorem standard_inj {addr addr' : UInt32} {port port' : Nat} (hport : port < 100000)
    (hport' : port' < 100000) :
    standard addr port = standard addr' port' ↔ addr = addr' ∧ port = port' := by
  constructor
  · intro h
    have hscaled : (addr.toNat * 100000 + port : ℚ) = addr'.toNat * 100000 + port' := by
      rw [standard, standard] at h
      linarith
    have hnat : addr.toNat * 100000 + port = addr'.toNat * 100000 + port' := by
      exact_mod_cast hscaled
    exact ⟨UInt32.toNat_inj.mp (by omega), by omega⟩
  · rintro ⟨rfl, rfl⟩
    rfl

/-- The number of an internet address. -/
def rankIn (addr : SockaddrIn) : ℚ := standard addr.sinAddr addr.sinPort.toNat

/-- The number of a UDS path that can be taken apart. -/
def rankUn (inetAddr : Bytes → UInt32) (addr : SockaddrUn) : ℚ :=
  match CinetUds.getIpPort addr with
  | .ok (some ipport) => standard (inetAddr ipport.ip) ipport.port
  | _ => 0

/-- An address of the family `addrType` whose path can be taken apart. -/
def Comparable (addrType : Nat) (addr : SockaddrUn) : Prop :=
  addr.sunFamily = addrType ∧ CinetUds.Readable addr

theorem rankedIn (addrType : Nat) :
    RankedOn lessIn (fun addr => addr.sinFamily = addrType) rankIn := by
  intro left right hleft hright
  rw [lessIn, assertThat_pos (hleft.trans hright.symm)]
  rfl

theorem rankedUn (inetAddr : Bytes → UInt32) (addrType : Nat) :
    RankedOn (lessUn inetAddr) (Comparable addrType) (rankUn inetAddr) := by
  rintro left right ⟨hleft, leftIpport, hleftRead⟩ ⟨hright, rightIpport, hrightRead⟩
  rw [lessUn, assertThat_pos (hleft.trans hright.symm), rankUn, rankUn, hleftRead, hrightRead]
  rfl

/-- Without a path that can be taken apart there is no comparison. -/
theorem readable_of_lessUn {inetAddr : Bytes → UInt32} {left right : SockaddrUn} {r : Bool}
    (h : lessUn inetAddr left right = .ok r) :
    CinetUds.Readable left ∧ CinetUds.Readable right := by
  simp only [lessUn, bind_eq_ok] at h
  obtain ⟨-, -, leftIpport, hleft, rightIpport, hright, h⟩ := h
  cases leftIpport with
  | none => cases h
  | some leftIpport =>
      cases rightIpport with
      | none => cases h
      | some rightIpport => exact ⟨⟨leftIpport, hleft⟩, ⟨rightIpport, hright⟩⟩

/-- The addresses that `set_ip_port` makes of ids of the documented size. -/
def Produced (addrType : Nat) (addr : SockaddrUn) : Prop :=
  ∃ ip port mode random ip' port', ip.length ≤ 40 ∧ port < 2 ^ 16 ∧
    CinetUds.setIpPort addrType ip port mode random = .ok (addr, ip', port')

/-- An id of the documented size without `/`, `:` and `_`. -/
structure PlainId (ip : Bytes) : Prop where
  short : ip.length ≤ 40
  noSlash : IAliasPVD.slash ∉ ip
  noColon : CinetUds.colon ∉ ip
  noUnderscore : CinetUds.underscore ∉ ip

/-- A server address, and the id and the port that it is made from. -/
def ServerAddress (addrType : Nat) (addr : SockaddrUn) (ip : Bytes) (port : Nat) : Prop :=
  ∃ id number mode random, PlainId id ∧ number < 2 ^ 16 ∧ (mode = .both ∨ mode = .server) ∧
    CinetUds.setIpPort addrType id number mode random = .ok (addr, ip, port)

/-- What a server address shows of its id and its port. An id that begins with NUL is printed as
nothing. -/
def shown (ip : Bytes) (port : Nat) : Cipport :=
  if CString.text ip = [] then
    { ip := CinetUds.colon :: CString.printUnsigned port, port := 0 }
  else { ip := CString.text ip, port := port }

/-- The pairs are the same, or they show different ports or ids of different address words. -/
def ToldApart (inetAddr : Bytes → UInt32) (ip ip' : Bytes) (port port' : Nat) : Prop :=
  (ip, port) = (ip', port') ∨ (shown ip port).port ≠ (shown ip' port').port ∨
    inetAddr (shown ip port).ip ≠ inetAddr (shown ip' port').ip

/-- The id that `set_ip_port` prints is as short as the one it is given, or the default one. -/
theorem length_text_le {id ip : Bytes} (hip : ip = if id = [] then CinetUds.defUdsId else id)
    (hlength : id.length ≤ 40) : (CString.text ip).length ≤ 40 := by
  apply (CString.text_length_le ip).trans
  rw [hip]
  split
  · decide
  · exact hlength

theorem produced_comparable {addrType : Nat} {addr : SockaddrUn} (h : Produced addrType addr) :
    Comparable addrType addr := by
  obtain ⟨id, number, mode, random, ip, port, hlength, hnumber, hmade⟩ := h
  obtain ⟨hip, hport, kind, hkind, rfl⟩ := CinetUds.setIpPort_cases hmade
  have hsmall : port < 2 ^ 16 := by
    have hrange := random.portRange
    rw [hport]
    split <;> omega
  have hnamed := CinetUds.namedPath_named addrType (length_text_le hip hlength)
    (CString.notMem_text ip) hsmall (CinetUds.kind_of_random hkind)
  exact ⟨rfl, CinetUds.readable_iff.mpr hnamed⟩

theorem PlainId.default : PlainId CinetUds.defUdsId := by
  constructor <;> decide

/-- The printed part of a plain id is plain. -/
theorem PlainId.text {ip : Bytes} (h : PlainId ip) : PlainId (CString.text ip) := by
  have hmem : ∀ b, b ∈ CString.text ip → b ∈ ip := fun b hb => (List.takeWhile_sublist _).subset hb
  constructor
  · exact (CString.text_length_le ip).trans h.short
  · exact fun hslash => h.noSlash (hmem _ hslash)
  · exact fun hcolon => h.noColon (hmem _ hcolon)
  · exact fun hunderscore => h.noUnderscore (hmem _ hunderscore)

/-- A plain id that is not empty is left whole. -/
theorem PlainId.decodable {ip : Bytes} (h : PlainId ip) (hne : ip ≠ []) :
    CinetUds.Decodable ip := by
  have hcolons : ip.dropWhile (· == CinetUds.colon) = ip := by
    cases ip with
    | nil => rfl
    | cons b rest =>
        apply List.dropWhile_cons_of_neg
        have hb := ne_of_mem_of_not_mem (List.mem_cons_self ..) h.noColon
        simpa using hb
  refine ⟨?_, ?_, ?_⟩
  · exact fun hmem => h.noUnderscore ((List.dropWhile_sublist _).subset hmem)
  · rw [hcolons]
    exact hne
  · rw [hcolons]
    exact h.noColon

/-- `get_ip_port` reads what a server address shows. -/
theorem getIpPort_serverAddress {addrType : Nat} {addr : SockaddrUn} {ip : Bytes} {port : Nat}
    (h : ServerAddress addrType addr ip port) :
    CinetUds.getIpPort addr = .ok (some (shown ip port)) ∧ port < 2 ^ 16 := by
  obtain ⟨id, number, mode, random, hplain, hnumber, -, hmade⟩ := h
  obtain ⟨hip, hport, kind, hkind, rfl⟩ := CinetUds.setIpPort_cases hmade
  have hsmall : port < 2 ^ 16 := by
    have hrange := random.portRange
    rw [hport]
    split <;> omega
  have hplain' : PlainId ip := by
    rw [hip]
    split
    · exact PlainId.default
    · exact hplain
  have htext := hplain'.text
  refine ⟨?_, hsmall⟩
  rw [CinetUds.getIpPort_named addrType htext.short htext.noSlash (CString.notMem_text ip) hsmall
    (CinetUds.kind_of_random hkind), shown]
  split
  · next hnil => rw [hnil, List.nil_append, CinetUds.takeApart_of_nil]
  · next hne => rw [CinetUds.takeApart_of_decodable hsmall (htext.decodable hne)]

theorem shown_port_lt {ip : Bytes} {port : Nat} (h : port < 2 ^ 16) :
    (shown ip port).port < 100000 := by
  rw [shown]
  split
  · exact Nat.zero_lt_succ _
  · exact h.trans (by decide)

theorem ServerAddress.comparable {addrType : Nat} {addr : SockaddrUn} {ip : Bytes} {port : Nat}
    (h : ServerAddress addrType addr ip port) : Comparable addrType addr := by
  obtain ⟨id, number, mode, random, hplain, hnumber, -, hmade⟩ := h
  exact produced_comparable ⟨id, number, mode, random, ip, port, hplain.short, hnumber, hmade⟩

/-- Server addresses are equivalent if they show the same port and the same address word. -/
theorem equivalent_serverAddress_iff (inetAddr : Bytes → UInt32) {addrType : Nat}
    {addr addr' : SockaddrUn} {ip ip' : Bytes} {port port' : Nat}
    (h : ServerAddress addrType addr ip port) (h' : ServerAddress addrType addr' ip' port') :
    Equivalent (lessUn inetAddr) addr addr' ↔
      inetAddr (shown ip port).ip = inetAddr (shown ip' port').ip ∧
        (shown ip port).port = (shown ip' port').port := by
  obtain ⟨hread, hport⟩ := getIpPort_serverAddress h
  obtain ⟨hread', hport'⟩ := getIpPort_serverAddress h'
  rw [(rankedUn inetAddr addrType).equivalent_iff h.comparable h'.comparable, rankUn, rankUn, hread,
    hread']
  exact standard_inj (shown_port_lt hport) (shown_port_lt hport')

/-- The comparators are strict weak orders on internet addresses of one family and on the paths
that `set_ip_port` makes. Internet addresses are equivalent if IP and port are the same; whether
server paths are equivalent exactly if they are made from the same pairs is up to what the pairs
show. -/
theorem comparators_exact_iff (inetAddr : Bytes → UInt32) (addrType : Nat) :
    StrictWeakOrderOn lessIn (fun addr => addr.sinFamily = addrType) ∧
      (∀ addr addr' : SockaddrIn, addr.sinFamily = addrType → addr'.sinFamily = addrType →
        (Equivalent lessIn addr addr' ↔
          addr.sinAddr = addr'.sinAddr ∧ addr.sinPort = addr'.sinPort)) ∧
      StrictWeakOrderOn (lessUn inetAddr) (Produced addrType) ∧
      ∀ addr addr' ip ip' port port', ServerAddress addrType addr ip port →
        ServerAddress addrType addr' ip' port' →
        ((Equivalent (lessUn inetAddr) addr addr' ↔ (ip, port) = (ip', port')) ↔
          ToldApart inetAddr ip ip' port port') := by
  refine ⟨(rankedIn addrType).strictWeakOrderOn, ?_, ?_, ?_⟩
  · intro addr addr' haddr haddr'
    have hports : ∀ port : UInt16, port.toNat < 100000 := fun port =>
      port.toNat_lt.trans (by decide)
    rw [(rankedIn addrType).equivalent_iff haddr haddr', rankIn, rankIn,
      standard_inj (hports _) (hports _), UInt16.toNat_inj]
  · have hranked : RankedOn (lessUn inetAddr) (Produced addrType) (rankUn inetAddr) := by
      intro addr addr' haddr haddr'
      exact rankedUn inetAddr addrType addr addr' (produced_comparable haddr)
        (produced_comparable haddr')
    exact hranked.strictWeakOrderOn
  · intro addr addr' ip ip' port port' haddr haddr'
    rw [equivalent_serverAddress_iff inetAddr haddr haddr', ToldApart]
    constructor
    · intro hiff
      by_cases hpair : (ip, port) = (ip', port')
      · exact Or.inl hpair
      · by_cases hport : (shown ip port).port = (shown ip' port').port
        · exact Or.inr (Or.inr fun hword => hpair (hiff.mp ⟨hword, hport⟩))
        · exact Or.inr (Or.inl hport)
    · rintro (hpair | hport | hword)
      · obtain ⟨rfl, rfl⟩ := Prod.mk.inj hpair
        exact iff_of_true ⟨rfl, rfl⟩ rfl
      · apply iff_of_false
        · exact fun hsame => hport hsame.2
        · intro hpair
          obtain ⟨rfl, rfl⟩ := Prod.mk.inj hpair
          exact hport rfl
      · apply iff_of_false
        · exact fun hsame => hword hsame.1
        · intro hpair
          obtain ⟨rfl, rfl⟩ := Prod.mk.inj hpair
          exact hword rfl

/-- The dotted notation of an IPv4 address. -/
def dotted (a b c d : UInt8) : Bytes :=
  CString.printUnsigned a.toNat ++ 0x2E :: (CString.printUnsigned b.toNat ++
    0x2E :: (CString.printUnsigned c.toNat ++ 0x2E :: CString.printUnsigned d.toNat))

/-- `INADDR_NONE`. -/
def inaddrNone : UInt32 := 0xFFFFFFFF

/-- `inet_addr`, which knows the dotted notation only. -/
def inetAddr (cp : Bytes) : UInt32 :=
  match (cp.splitOn 0x2E).map fun part => UInt8.ofNat (CString.digitsValue part) with
  | [a, b, c, d] =>
      if cp = dotted a b c d then
        a.toUInt32 + 256 * (b.toUInt32 + 256 * (c.toUInt32 + 256 * d.toUInt32))
      else inaddrNone
  | _ => inaddrNone

/-- What is not in dotted notation has no address. -/
theorem inetAddr_of_not_dotted {cp : Bytes} (h : ∀ a b c d, cp ≠ dotted a b c d) :
    inetAddr cp = inaddrNone := by
  rw [inetAddr]
  split
  · next a b c d hparts => rw [if_neg (h a b c d)]
  · rfl

/-- The server address of a plain id on port 80. -/
theorem serverAddress_on_80 {id : Bytes} (hplain : PlainId id) (hne : id ≠ []) :
    ServerAddress 1 (CinetUds.named 1 (CinetUds.udsForm (CString.text id) 80 CinetUds.udsServer))
      id 80 := by
  refine ⟨id, 80, .server, CinetUds.someNumbers, hplain, by decide, Or.inr rfl, ?_⟩
  unfold CinetUds.setIpPort
  rw [if_neg hne]
  rfl

/-- `1.2.3.4` and `1.2.3.5` are told apart. -/
theorem dottedPeers_told_apart :
    ∃ addr addr', ServerAddress 1 addr (dotted 1 2 3 4) 80 ∧
      ServerAddress 1 addr' (dotted 1 2 3 5) 80 ∧ ¬Equivalent (lessUn inetAddr) addr addr' := by
  have hserver : ServerAddress 1 _ (dotted 1 2 3 4) 80 :=
    serverAddress_on_80 (by constructor <;> decide) (by decide)
  have hserver' : ServerAddress 1 _ (dotted 1 2 3 5) 80 :=
    serverAddress_on_80 (by constructor <;> decide) (by decide)
  refine ⟨_, _, hserver, hserver', ?_⟩
  obtain ⟨-, -, -, hiff⟩ := comparators_exact_iff inetAddr 1
  rw [(hiff _ _ _ _ _ _ hserver hserver').mpr (Or.inr (Or.inr (by decide)))]
  decide

/-- The default id and the id `peer` on one port are one entry of the address map. -/
theorem localPeers_not_told_apart :
    ¬∀ (inetAddr : Bytes → UInt32) (addrType : Nat) (addr addr' : SockaddrUn) (ip ip' : Bytes)
      (port port' : Nat), (∀ cp, (∀ a b c d, cp ≠ dotted a b c d) → inetAddr cp = inaddrNone) →
      ServerAddress addrType addr ip port → ServerAddress addrType addr' ip' port' →
        (Equivalent (lessUn inetAddr) addr addr' ↔ (ip, port) = (ip', port')) := by
  intro hdistinguish
  have hserver : ServerAddress 1 _ CinetUds.defUdsId 80 :=
    serverAddress_on_80 PlainId.default (by decide)
  have hserver' : ServerAddress 1 _ [0x70, 0x65, 0x65, 0x72] 80 :=
    serverAddress_on_80 (by constructor <;> decide) (by decide)
  have hequivalent := (equivalent_serverAddress_iff inetAddr hserver hserver').mpr (by decide)
  have hsame := (hdistinguish inetAddr 1 _ _ _ _ _ _ (fun cp => inetAddr_of_not_dotted) hserver
    hserver').mp hequivalent
  revert hsame
  decide

end CaliasCmpfunc

end CommonCommunicator
