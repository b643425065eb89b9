import CommonCommunicator.Base.CString
import CommonCommunicator.Provider.TcpProvider

/-!
# Cinet_uds

A UDS socket carries IP and port of its owner in its path, which is printed
into a field of 108 bytes and taken apart again by searching for `/`, `_` and
`:` in turn. The IP may be any alias id.
-/

namespace CommonCommunicator

open Lib

/-- `UDS_PATH_MAXSIZE`. -/
def udsPathMaxsize : Nat := 108

/-- `sockaddr_un`. -/
structure SockaddrUn where
  sunFamily : Nat
  sunPath : Bytes
  size : sunPath.length = udsPathMaxsize
  deriving DecidableEq

/-- `Cipport`, whose `ip` is a C string. -/
structure Cipport where
  ip : Bytes
  port : Nat
  deriving DecidableEq, Repr

/-- The results of `gen_random_num` in `set_ip_port`, which stay within the limits it is given. -/
structure RandomNumbers where
  port : Nat
  client : Nat
  portRange : 1 ≤ port ∧ port ≤ 65534
  clientRange : 1 ≤ client ∧ client ≤ 4294967295

namespace CinetUds

/-- The character `_`. -/
def underscore : UInt8 := 0x5F

/-- The character `:`. -/
def colon : UInt8 := 0x3A

/-- `UDS_DIR`: the text `/tmp/cmcomm/uds/`. -/
def udsDir : Bytes :=
  [0x2F, 0x74, 0x6D, 0x70, 0x2F, 0x63, 0x6D, 0x63, 0x6F, 0x6D, 0x6D, 0x2F, 0x75, 0x64, 0x73, 0x2F]

/-- `UDS_SERVER`: the text `server`. -/
def udsServer : Bytes := [0x73, 0x65, 0x72, 0x76, 0x65, 0x72]

/-- `UDS_CLIENT`: the text `client` and a number. -/
def udsClient (number : Nat) : Bytes :=
  [0x63, 0x6C, 0x69, 0x65, 0x6E, 0x74] ++ CString.printUnsigned number

/-- `DEF_UDS_ID`: the text `localhost`. -/
def defUdsId : Bytes := [0x6C, 0x6F, 0x63, 0x61, 0x6C, 0x68, 0x6F, 0x73, 0x74]

/-- `UDS_SERVER_FORM` and `UDS_CLIENT_FORM`. -/
def udsForm (ip : Bytes) (port : Nat) (kind : Bytes) : Bytes :=
  udsDir ++ (ip ++ colon :: (CString.printUnsigned port ++ underscore :: kind))

/-- An address that is cleared before the path is printed into it. -/
def named (addrType : Nat) (path : Bytes) : SockaddrUn where
  sunFamily := addrType
  sunPath := CString.snprintf (List.replicate udsPathMaxsize 0) udsPathMaxsize path
  size := by
    rw [CString.length_snprintf (by decide) (by simp), List.length_replicate]

/-- `set_ip_port`: the address, and the IP and port that it is made from. `invalid_argument` is
thrown again as an `exception`. -/
def setIpPort (addrType : Nat) (ip : Bytes) (port : Nat) (mode : ProviderMode)
    (random : RandomNumbers) : Outcome (SockaddrUn × Bytes × Nat) :=
  let ip := if ip = [] then defUdsId else ip
  let port := if port = 0 then random.port else port
  match mode with
  | .client =>
      .ok (named addrType (udsForm (CString.text ip) port (udsClient random.client)), ip, port)
  | .both | .server => .ok (named addrType (udsForm (CString.text ip) port udsServer), ip, port)
  | .none => throwThat .exception

/-- What `get_ip_port` makes of the last part of a path. -/
def takeApart (startPos : Bytes) : Cipport :=
  let (ip, _) := CString.strtok underscore startPos
  let (ip, substr) := CString.strtok colon ip
  { ip := ip, port := (CString.atoi substr % 2 ^ 16).toNat }

/-- `get_ip_port`. Without a `/` the null pointer that `strrchr` returns is moved on. -/
def getIpPort (addr : SockaddrUn) : Outcome (Option Cipport) := do
  let sunPath ← CString.read addr.sunPath
  if sunPath = [] then return none
  else
    match CString.behindLast IAliasPVD.slash sunPath with
    | none => .error .undefined
    | some startPos => do
        assertThat (startPos ≠ [])
        return some (takeApart startPos)

/-- `get_ip_port` returns IP and port. -/
def Readable (addr : SockaddrUn) : Prop := ∃ ipport, getIpPort addr = .ok (some ipport)

/-- A path with a name behind its last `/` can be taken apart. -/
theorem getIpPort_of_read {addr : SockaddrUn} {sunPath startPos : Bytes}
    (hread : CString.read addr.sunPath = .ok sunPath)
    (hbehind : CString.behindLast IAliasPVD.slash sunPath = some startPos)
    (hname : startPos ≠ []) : getIpPort addr = .ok (some (takeApart startPos)) := by
  have hpath : sunPath ≠ [] := by
    rintro rfl
    cases hbehind
  rw [getIpPort, hread, ok_bind, if_neg hpath, hbehind]
  simp [hname]

/-- A path that ends, has a `/` and does not end with one. -/
structure NamedPath (addr : SockaddrUn) : Prop where
  ends : 0 ∈ addr.sunPath
  hasSlash : IAliasPVD.slash ∈ CString.text addr.sunPath
  notLast : (CString.text addr.sunPath).getLast? ≠ some IAliasPVD.slash

/-- `get_ip_port` returns IP and port of the paths that have a name behind a `/`. -/
theorem readable_iff {addr : SockaddrUn} : Readable addr ↔ NamedPath addr := by
  constructor
  · rintro ⟨ipport, h⟩
    obtain ⟨sunPath, hread, h⟩ := bind_eq_ok.mp h
    obtain ⟨hends, rfl⟩ := CString.read_eq_ok.mp hread
    split at h
    · cases h
    · split at h
      · cases h
      · next startPos hbehind =>
          obtain ⟨hname, -⟩ : startPos ≠ [] ∧ _ := by simpa [bind_eq_ok] using h
          obtain ⟨before, hsplit, -⟩ := CString.behindLast_eq_some hbehind
          constructor
          · exact hends
          · rw [hsplit]
            simp
          · intro hlast
            rw [CString.behindLast_eq_nil_iff.mpr hlast] at hbehind
            exact hname (Option.some.inj hbehind).symm
  · rintro ⟨hends, hslash, hlast⟩
    cases hbehind : CString.behindLast IAliasPVD.slash (CString.text addr.sunPath) with
    | none => exact absurd hslash (CString.behindLast_eq_none_iff.mp hbehind)
    | some startPos =>
        have hread := CString.read_eq_ok.mpr ⟨hends, rfl⟩
        have hname : startPos ≠ [] := by
          rintro rfl
          exact hlast (CString.behindLast_eq_nil_iff.mp hbehind)
        exact ⟨_, getIpPort_of_read hread hbehind hname⟩

/-- `set_ip_port` prints the path of a server or of a client. -/
theorem setIpPort_cases {addrType : Nat} {ip ip' : Bytes} {port port' : Nat} {mode : ProviderMode}
    {random : RandomNumbers} {addr : SockaddrUn}
    (h : setIpPort addrType ip port mode random = .ok (addr, ip', port')) :
    ip' = (if ip = [] then defUdsId else ip) ∧ port' = (if port = 0 then random.port else port) ∧
      ∃ kind, (kind = udsServer ∨ kind = udsClient random.client) ∧
        addr = named addrType (udsForm (CString.text ip') port' kind) := by
  unfold setIpPort at h
  cases mode with
  | none => cases h
  | client =>
      cases h
      exact ⟨rfl, rfl, _, Or.inr rfl, rfl⟩
  | both =>
      cases h
      exact ⟨rfl, rfl, _, Or.inl rfl, rfl⟩
  | server =>
      cases h
      exact ⟨rfl, rfl, _, Or.inl rfl, rfl⟩

theorem sunFamily_of_setIpPort {addrType : Nat} {ip ip' : Bytes} {port port' : Nat}
    {mode : ProviderMode} {random : RandomNumbers} {addr : SockaddrUn}
    (h : setIpPort addrType ip port mode random = .ok (addr, ip', port')) :
    addr.sunFamily = addrType := by
  obtain ⟨-, -, kind, -, rfl⟩ := setIpPort_cases h
  rfl

/-- What both forms have behind the port: a short text without `/` and NUL. -/
structure Kind (kind : Bytes) : Prop where
  named : kind ≠ []
  noSlash : IAliasPVD.slash ∉ kind
  noNul : 0 ∉ kind
  short : kind.length ≤ 16

theorem kind_of_random {random : RandomNumbers} {kind : Bytes}
    (h : kind = udsServer ∨ kind = udsClient random.client) : Kind kind := by
  have hnumber : (CString.printUnsigned random.client).length ≤ 10 := by
    have hrange := random.clientRange
    exact CString.length_printUnsigned_le (by decide) (by omega)
  obtain rfl | rfl := h
  · constructor <;> decide
  · constructor
    · exact List.cons_ne_nil _ _
    · rw [udsClient, List.mem_append, not_or]
      exact ⟨by decide, CString.notMem_printUnsigned _ rfl⟩
    · rw [udsClient, List.mem_append, not_or]
      exact ⟨by decide, CString.notMem_printUnsigned _ rfl⟩
    · rw [udsClient, List.length_append]
      exact Nat.add_le_add_left hnumber 6

theorem notMem_udsForm {ip kind : Bytes} (port : Nat) (hip : 0 ∉ ip) (hkind : Kind kind) :
    0 ∉ udsForm ip port kind := by
  simp only [udsForm, List.mem_append, List.mem_cons, not_or]
  exact ⟨by decide, hip, by decide, CString.notMem_printUnsigned port rfl, by decide, hkind.noNul⟩

/-- Ids of the documented size are printed as a whole. -/
theorem length_udsForm_le {ip kind : Bytes} {port : Nat} (hip : ip.length ≤ 40)
    (hport : port < 2 ^ 16) (hkind : Kind kind) :
    (udsForm ip port kind).length ≤ udsPathMaxsize - 1 := by
  have hnumber : (CString.printUnsigned port).length ≤ 5 :=
    CString.length_printUnsigned_le (by decide) (by omega)
  have hshort := hkind.short
  simp only [udsForm, List.length_append, List.length_cons, udsDir, List.length_nil,
    udsPathMaxsize]
  omega

theorem read_named (addrType : Nat) {path : Bytes} (h : 0 ∉ path) :
    CString.read (named addrType path).sunPath = .ok (path.take (udsPathMaxsize - 1)) :=
  CString.read_snprintf h

/-- The addresses of ids of the documented size have a name, whatever stands in the id. -/
theorem namedPath_named (addrType : Nat) {ip kind : Bytes} {port : Nat} (hlength : ip.length ≤ 40)
    (hnul : 0 ∉ ip) (hport : port < 2 ^ 16) (hkind : Kind kind) :
    NamedPath (named addrType (udsForm ip port kind)) := by
  have hread := read_named addrType (notMem_udsForm port hnul hkind)
  rw [List.take_of_length_le (length_udsForm_le hlength hport hkind)] at hread
  obtain ⟨hends, htext⟩ := CString.read_eq_ok.mp hread
  constructor
  · exact hends
  · rw [htext]
    exact List.mem_append_left _ (by decide)
  · rw [htext]
    intro hlast
    have hkindLast : kind.getLast? = some IAliasPVD.slash := by
      obtain ⟨last, hsome⟩ := Option.isSome_iff_exists.mp (List.getLast?_isSome.mpr hkind.named)
      rw [hsome, ← hlast]
      simp [udsForm, List.getLast?_append, List.getLast?_cons, hsome]
    exact hkind.noSlash (List.mem_of_getLast? hkindLast)

/-- Behind the last `/` of a path stands what it is printed from. -/
theorem behindLast_udsForm {ip kind : Bytes} (port : Nat) (hip : IAliasPVD.slash ∉ ip)
    (hkind : Kind kind) :
    CString.behindLast IAliasPVD.slash (udsForm ip port kind) =
      some (ip ++ colon :: (CString.printUnsigned port ++ underscore :: kind)) := by
  have hlast : IAliasPVD.slash ∉
      ip ++ colon :: (CString.printUnsigned port ++ underscore :: kind) := by
    simp only [List.mem_append, List.mem_cons, not_or]
    exact ⟨hip, by decide, CString.notMem_printUnsigned port rfl, by decide, hkind.noSlash⟩
  exact CString.behindLast_append udsDir.dropLast hlast

/-- The address of an id of the documented size without `/` is taken apart behind its directory. -/
theorem getIpPort_named (addrType : Nat) {ip kind : Bytes} {port : Nat} (hlength : ip.length ≤ 40)
    (hslash : IAliasPVD.slash ∉ ip) (hnul : 0 ∉ ip) (hport : port < 2 ^ 16) (hkind : Kind kind) :
    getIpPort (named addrType (udsForm ip port kind)) =
      .ok (some (takeApart
        (ip ++ colon :: (CString.printUnsigned port ++ underscore :: kind)))) := by
  have hread := read_named addrType (notMem_udsForm port hnul hkind)
  rw [List.take_of_length_le (length_udsForm_le hlength hport hkind)] at hread
  exact getIpPort_of_read hread (behindLast_udsForm port hslash hkind) (by simp)

/-- An id that the two searches for `_` and `:` leave whole. -/
def Decodable (ip : Bytes) : Prop :=
  underscore ∉ ip.dropWhile (· == underscore) ∧
    ip.dropWhile (· == colon) ≠ [] ∧ colon ∉ ip.dropWhile (· == colon)

instance (ip : Bytes) : Decidable (Decodable ip) := inferInstanceAs (Decidable (_ ∧ _))

/-- The first search cuts the name in front of the kind if no `_` stands inside the id. -/
theorem strtok_underscore {ip kind : Bytes} {port : Nat}
    (h : underscore ∉ ip.dropWhile (· == underscore)) :
    CString.strtok underscore (ip ++ colon :: (CString.printUnsigned port ++ underscore :: kind)) =
      (ip ++ colon :: CString.printUnsigned port, kind) := by
  have hdigits : underscore ∉ CString.printUnsigned port := CString.notMem_printUnsigned port rfl
  have hrest : (ip ++ colon :: CString.printUnsigned port).dropWhile (· == underscore) =
      ip.dropWhile (· == underscore) ++ colon :: CString.printUnsigned port := by
    rw [List.dropWhile_append]
    split
    · next hempty =>
        rw [List.isEmpty_iff.mp hempty, List.dropWhile_cons_of_neg (by decide), List.nil_append]
    · rfl
  rw [← List.cons_append, ← List.append_assoc]
  apply CString.strtok_append
  · rw [hrest]
    simp
  · rw [hrest, List.mem_append, List.mem_cons, not_or, not_or]
    exact ⟨h, by decide, hdigits⟩

theorem takeApart_of_decodable {ip kind : Bytes} {port : Nat} (hport : port < 2 ^ 16)
    (h : Decodable ip) :
    takeApart (ip ++ colon :: (CString.printUnsigned port ++ underscore :: kind)) =
      { ip := ip, port := port } := by
  obtain ⟨hunderscore, hname, hcolon⟩ := h
  rw [takeApart, strtok_underscore hunderscore]
  dsimp only
  rw [CString.strtok_append _ hname hcolon]
  dsimp only
  rw [CString.atoi_printUnsigned (by omega)]
  congr 1
  omega

/-- Without an id the port is taken for it. -/
theorem takeApart_of_nil {kind : Bytes} {port : Nat} :
    takeApart (colon :: (CString.printUnsigned port ++ underscore :: kind)) =
      { ip := colon :: CString.printUnsigned port, port := 0 } := by
  have hfirst : CString.strtok underscore
      (colon :: (CString.printUnsigned port ++ underscore :: kind)) =
        (colon :: CString.printUnsigned port, kind) :=
    @strtok_underscore [] kind port List.not_mem_nil
  have hdigits : colon ∉ CString.printUnsigned port := CString.notMem_printUnsigned port rfl
  have hsecond : CString.strtok colon (colon :: CString.printUnsigned port) =
      (colon :: CString.printUnsigned port, []) :=
    CString.strtok_append_of_all (s := [colon]) (by simp) hdigits
  rw [takeApart, hfirst]
  dsimp only
  rw [hsecond]
  dsimp only
  rw [CString.atoi_nil]
  rfl

/-- An id that is not left whole comes back shorter, or with the port behind it. -/
theorem decodable_of_takeApart {ip kind : Bytes} {port port' : Nat}
    (h : takeApart (ip ++ colon :: (CString.printUnsigned port ++ underscore :: kind)) =
      { ip := ip, port := port' }) : Decodable ip := by
  rw [takeApart] at h
  have hip := congrArg (List.length ∘ Cipport.ip) h
  dsimp only [Function.comp] at hip
  by_cases hunderscore : underscore ∈ ip.dropWhile (· == underscore)
  · have hcut := CString.strtok_length_lt
      (colon :: (CString.printUnsigned port ++ underscore :: kind)) hunderscore
    have hle := (CString.strtok_prefix colon (CString.strtok underscore
      (ip ++ colon :: (CString.printUnsigned port ++ underscore :: kind))).1).length_le
    omega
  · rw [strtok_underscore hunderscore] at hip
    dsimp only at hip
    refine ⟨hunderscore, ?_, ?_⟩
    · intro hnil
      have hall : ∀ b ∈ ip, b = colon := by
        intro b hb
        simpa using List.dropWhile_eq_nil_iff.mp hnil b hb
      have hdigits : colon ∉ CString.printUnsigned port := CString.notMem_printUnsigned port rfl
      have hrun := CString.strtok_append_of_all (s := ip ++ [colon]) (d := colon)
        (by simpa [or_imp, forall_and] using hall) hdigits
      rw [List.append_assoc, List.singleton_append] at hrun
      rw [hrun, List.length_append, List.length_cons] at hip
      omega
    · intro hcolon
      have hcut := CString.strtok_length_lt (colon :: CString.printUnsigned port) hcolon
      omega

/-- The path of a server or client gives back its id and port exactly if the id has no `_` behind
its leading ones, and something other than `:`, but no `:` behind its leading ones. -/
theorem round_trip_iff (addrType : Nat) {ip : Bytes} {port : Nat} {mode : ProviderMode}
    (random : RandomNumbers) (hip : ip ≠ []) (hlength : ip.length ≤ 40)
    (hslash : IAliasPVD.slash ∉ ip) (hnul : 0 ∉ ip) (hport : 1 ≤ port ∧ port ≤ 65535)
    (hmode : mode ≠ .none) :
    ∃ addr, setIpPort addrType ip port mode random = .ok (addr, ip, port) ∧
      (getIpPort addr = .ok (some { ip := ip, port := port }) ↔ Decodable ip) := by
  obtain ⟨addr, ip', port', h⟩ : ∃ addr ip' port',
      setIpPort addrType ip port mode random = .ok (addr, ip', port') := by
    unfold setIpPort
    cases mode with
    | none => exact absurd rfl hmode
    | client => exact ⟨_, _, _, rfl⟩
    | both => exact ⟨_, _, _, rfl⟩
    | server => exact ⟨_, _, _, rfl⟩
  obtain ⟨hip', hport', kind, hkind, rfl⟩ := setIpPort_cases h
  obtain rfl : ip' = ip := by rw [hip', if_neg hip]
  obtain rfl : port' = port := by rw [hport', if_neg (by omega)]
  refine ⟨_, h, ?_⟩
  rw [CString.text_of_notMem hnul,
    getIpPort_named addrType hlength hslash hnul (by omega) (kind_of_random hkind)]
  constructor
  · intro hback
    exact decodable_of_takeApart (Option.some.inj (Except.ok.inj hback))
  · intro hdecodable
    rw [takeApart_of_decodable (by omega) hdecodable]

/-- Random numbers for a socket. -/
def someNumbers : RandomNumbers where
  port := 1
  client := 1
  portRange := by decide
  clientRange := by decide

/-- The default id comes back. -/
theorem localhost_round_trip :
    ∃ addr, setIpPort 1 defUdsId 80 .server someNumbers = .ok (addr, defUdsId, 80) ∧
      getIpPort addr = .ok (some { ip := defUdsId, port := 80 }) := by
  obtain ⟨addr, haddr, hiff⟩ := @round_trip_iff 1 defUdsId 80 .server someNumbers (by decide)
    (by decide) (by decide) (by decide) (by decide) (by decide)
  exact ⟨addr, haddr, hiff.mpr (by decide)⟩

/-- The id `a_b` comes back as `a`, without its port. -/
theorem cutId_no_round_trip :
    ¬∀ (addrType : Nat) (ip : Bytes) (port : Nat) (mode : ProviderMode) (random : RandomNumbers)
      (addr : SockaddrUn), 1 ≤ ip.length ∧ ip.length ≤ 40 → IAliasPVD.slash ∉ ip → 0 ∉ ip →
      1 ≤ port ∧ port ≤ 65535 → setIpPort addrType ip port mode random = .ok (addr, ip, port) →
        getIpPort addr = .ok (some { ip := ip, port := port }) := by
  intro hround
  have hback := hround 1 [0x61, 0x5F, 0x62] 80 .server someNumbers _ (by decide) (by decide)
    (by decide) (by decide) rfl
  revert hback
  decide

end CinetUds

end CommonCommunicator
