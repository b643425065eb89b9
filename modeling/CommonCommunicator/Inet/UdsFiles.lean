import CommonCommunicator.Inet.CinetUds
import CommonCommunicator.Lib.GuardedRun

/-!
# The files of UDS sockets

`Bind` makes a file for the path of a socket, and `Close` removes the file of
the path that `_uds_map_` has for the descriptor. Before a server binds, a
probe tells whether somebody listens at the path; if nobody does, the file is
taken for a leftover and removed. Any number of `Cinet_uds` objects, in one
process or in several, share the file system; each is of stream or datagram
sockets.
-/

namespace CommonCommunicator

open Lib

/-- The socket types of the providers. -/
inductive SockType
  | stream
  | dgram
  deriving DecidableEq, Repr

/-- A descriptor of the process of an object. -/
abbrev UdsDescriptor (ι : Type) := ι × Int

/-- What the kernel keeps of an open socket. -/
structure UdsSocket (ι : Type) where
  owner : ι
  sunPath : Option Bytes
  listening : Bool

/-- The `_uds_map_` of all objects, their descriptors, the open sockets and the file system. A file
refers to the socket that made it, which may be closed. `checked` are the calls of `Bind` that
`check_port_available` let go on. -/
structure UdsSystem (ι : Type) where
  fds : PartialMap (UdsDescriptor ι) Nat
  udsMap : PartialMap (UdsDescriptor ι) Bytes
  checked : PartialMap (UdsDescriptor ι) Bytes
  sockets : PartialMap Nat (UdsSocket ι)
  files : PartialMap Bytes Nat
  nextSocket : Nat

namespace UdsSystem

variable {ι : Type}

/-- No object has a socket, and there are no files. -/
def start (ι : Type) : UdsSystem ι :=
  { fds := .empty
    udsMap := .empty
    checked := .empty
    sockets := .empty
    files := .empty
    nextSocket := 0 }

/-- The `connect` of the probe succeeds: the socket of the file listens. -/
def connectable (s : UdsSystem ι) (path : Bytes) : Bool :=
  match s.files path with
  | none => false
  | some x => ((s.sockets x).map UdsSocket.listening).getD false

/-- The result of `check_port_available`. `probed` tells whether the socket of the probe could be
made. -/
def portAvailable (s : UdsSystem ι) (sockType : SockType) (path : Bytes) (probed : Bool) : Bool :=
  match sockType with
  | .stream => probed && !s.connectable path
  | .dgram => true

/-- The path is that of a server. -/
def IsServer (path : Bytes) : Prop :=
  CString.behindLast CinetUds.underscore path = some CinetUds.udsServer

instance (path : Bytes) : Decidable (IsServer path) := inferInstanceAs (Decidable (_ = _))

/-- The steps of the objects. `Bind` of a server is two of them, since nothing is held between the
check and the binding. `permitted` tells whether the kernel has no other reason to refuse. In
`crash` a process ends without destructors. -/
inductive Action (ι : Type)
  | socket (d : UdsDescriptor ι)
  | checkPort (d : UdsDescriptor ι) (path : Bytes) (probed : Bool)
  | bind (d : UdsDescriptor ι) (path : Bytes) (permitted : Bool)
  | listen (d : UdsDescriptor ι)
  | close (d : UdsDescriptor ι)
  | crash (i : ι)

variable [DecidableEq ι]

/-- `insert` of a `std::map`, which leaves an entry that is there. -/
def mapInsert (m : PartialMap (UdsDescriptor ι) Bytes) (d : UdsDescriptor ι) (path : Bytes) :
    PartialMap (UdsDescriptor ι) Bytes :=
  match m d with
  | none => m.insert d path
  | some _ => m

/-- `socket`: the kernel gives a descriptor that is not open. -/
def socket (s : UdsSystem ι) (d : UdsDescriptor ι) : UdsSystem ι :=
  { s with
    fds := s.fds.insert d s.nextSocket
    sockets := s.sockets.insert s.nextSocket { owner := d.1, sunPath := none, listening := false }
    nextSocket := s.nextSocket + 1 }

/-- The kernel's `bind`, which makes the file if the path has none and the socket has no path. -/
def kernelBind (s : UdsSystem ι) (x : Nat) (path : Bytes) (permitted : Bool) : UdsSystem ι :=
  match s.sockets x with
  | none => s
  | some socket =>
      if permitted = true ∧ socket.sunPath = none ∧ s.files path = none then
        { s with
          sockets := s.sockets.insert x { socket with sunPath := some path }
          files := s.files.insert path x }
      else s

/-- The rest of `Bind`: the path goes into `_uds_map_` whatever the result of `bind` is. -/
def bind (s : UdsSystem ι) (d : UdsDescriptor ι) (x : Nat) (path : Bytes) (permitted : Bool) :
    UdsSystem ι :=
  { s with
    udsMap := mapInsert s.udsMap d path
    checked := s.checked.erase d }.kernelBind x path permitted

/-- `Listen` of a stream socket, which the kernel refuses for a socket without a path. -/
def listen (s : UdsSystem ι) (x : Nat) : UdsSystem ι :=
  match s.sockets x with
  | none => s
  | some socket =>
      if socket.sunPath = none then s
      else { s with sockets := s.sockets.insert x { socket with listening := true } }

/-- `Close`: the file of the path that the map has goes, then the descriptor. -/
def close (s : UdsSystem ι) (d : UdsDescriptor ι) : UdsSystem ι :=
  { s with
    files :=
      match s.udsMap d with
      | none => s.files
      | some path => s.files.erase path
    udsMap := s.udsMap.erase d
    checked := s.checked.erase d
    sockets :=
      match s.fds d with
      | none => s.sockets
      | some x => s.sockets.erase x
    fds := s.fds.erase d }

/-- The kernel closes the sockets of a process; files stay. -/
def crash (s : UdsSystem ι) (i : ι) : UdsSystem ι :=
  { s with
    fds := fun d => if d.1 = i then none else s.fds d
    udsMap := fun d => if d.1 = i then none else s.udsMap d
    checked := fun d => if d.1 = i then none else s.checked d
    sockets := fun x =>
      match s.sockets x with
      | none => none
      | some socket => if socket.owner = i then none else some socket }

/-- One step. A path without `_` has no type, and `Bind` would read at a null pointer. The probe of
`check_port_available` and the `unlink` behind it are one step. -/
def next (sockType : ι → SockType) (s : UdsSystem ι) : Action ι → Option (UdsSystem ι)
  | .socket d => if s.fds d = none then some (s.socket d) else none
  | .checkPort d path probed =>
      if IsServer path ∧ s.fds d ≠ none then
        if s.portAvailable (sockType d.1) path probed then
          some { s with files := s.files.erase path, checked := s.checked.insert d path }
        else some s
      else none
  | .bind d path permitted =>
      match s.fds d with
      | none => none
      | some x =>
          if CString.behindLast CinetUds.underscore path ≠ none ∧
              (IsServer path → s.checked d = some path) then
            some (s.bind d x path permitted)
          else none
  | .listen d =>
      match s.fds d with
      | none => none
      | some x =>
          match sockType d.1 with
          | .stream => some (s.listen x)
          | .dgram => some s
  | .close d => some (s.close d)
  | .crash i => some (s.crash i)

/-- Every path in a `_uds_map_` has a file, and it is that of the descriptor's own socket. -/
def Owned (s : UdsSystem ι) : Prop :=
  ∀ d path, s.udsMap d = some path → ∃ x, s.fds d = some x ∧ s.files path = some x

/-- A step that takes no registered file for a leftover, and binds to a path that is free. -/
def KeepsFiles (sockType : ι → SockType) (s : UdsSystem ι) : Action ι → Prop
  | .checkPort d path probed => s.portAvailable (sockType d.1) path probed = true →
      ∀ d', s.udsMap d' ≠ some path
  | .bind d path permitted => s.udsMap d ≠ none ∨ s.files path = none ∧ permitted = true
  | _ => True

variable {s s' : UdsSystem ι}

/-- `Bind` of a descriptor without a path, whose socket has none either, to a free path. -/
theorem bind_eq {d : UdsDescriptor ι} {x : Nat} {socket : UdsSocket ι} {path : Bytes}
    (hmap : s.udsMap d = none) (hsocket : s.sockets x = some socket)
    (hunbound : socket.sunPath = none) (hfree : s.files path = none) :
    s.bind d x path true =
      { s with
        udsMap := s.udsMap.insert d path
        checked := s.checked.erase d
        sockets := s.sockets.insert x { socket with sunPath := some path }
        files := s.files.insert path x } := by
  simp [UdsSystem.bind, mapInsert, hmap, kernelBind, hsocket, hunbound, hfree]

/-- The descriptors that `Close` leaves. -/
theorem of_close_fds {d d' : UdsDescriptor ι} {x : Nat} (h : (s.close d).fds d' = some x) :
    d' ≠ d ∧ s.fds d' = some x := PartialMap.of_erase_eq_some h

/-- The sockets that `Close` leaves. -/
theorem of_close_sockets {d : UdsDescriptor ι} {x : Nat} {socket : UdsSocket ι}
    (h : (s.close d).sockets x = some socket) :
    s.fds d ≠ some x ∧ s.sockets x = some socket := by
  cases hfd : s.fds d with
  | none =>
      simp only [UdsSystem.close, hfd] at h
      exact ⟨(Option.some_ne_none x).symm, h⟩
  | some y =>
      simp only [UdsSystem.close, hfd] at h
      obtain ⟨hne, hold⟩ := PartialMap.of_erase_eq_some h
      exact ⟨fun heq => hne (Option.some.inj heq).symm, hold⟩

/-- `Close` leaves the sockets of other descriptors. -/
theorem close_sockets {d : UdsDescriptor ι} {x : Nat} {socket : UdsSocket ι}
    (hne : s.fds d ≠ some x) (hsocket : s.sockets x = some socket) :
    (s.close d).sockets x = some socket := by
  cases hfd : s.fds d with
  | none =>
      simp only [UdsSystem.close, hfd]
      exact hsocket
  | some y =>
      simp only [UdsSystem.close, hfd]
      have hx : x ≠ y := by
        rintro rfl
        exact hne hfd
      exact (PartialMap.erase_of_ne hx).trans hsocket

/-- The files that `Close` leaves. -/
theorem of_close_files {d : UdsDescriptor ι} {path : Bytes} {x : Nat}
    (h : (s.close d).files path = some x) : s.udsMap d ≠ some path ∧ s.files path = some x := by
  cases hmap : s.udsMap d with
  | none =>
      simp only [UdsSystem.close, hmap] at h
      exact ⟨(Option.some_ne_none path).symm, h⟩
  | some closed =>
      simp only [UdsSystem.close, hmap] at h
      obtain ⟨hne, hold⟩ := PartialMap.of_erase_eq_some h
      exact ⟨fun heq => hne (Option.some.inj heq).symm, hold⟩

/-- `Close` leaves the files of other paths. -/
theorem close_files {d : UdsDescriptor ι} {path : Bytes} {x : Nat} (hne : s.udsMap d ≠ some path)
    (hfile : s.files path = some x) : (s.close d).files path = some x := by
  cases hmap : s.udsMap d with
  | none =>
      simp only [UdsSystem.close, hmap]
      exact hfile
  | some closed =>
      simp only [UdsSystem.close, hmap]
      have hpath : path ≠ closed := by
        rintro rfl
        exact hne hmap
      exact (PartialMap.erase_of_ne hpath).trans hfile

/-- The invariant of the guarded steps: an open socket has one descriptor, and its path is the one
that is registered; a file that refers to an open socket has its path. -/
structure Filed (s : UdsSystem ι) : Prop where
  owned : s.Owned
  opened : ∀ d x, s.fds d = some x → ∃ socket, s.sockets x = some socket ∧ socket.owner = d.1
  held : ∀ x socket, s.sockets x = some socket → ∃ d, s.fds d = some x
  unique : ∀ d d' x, s.fds d = some x → s.fds d' = some x → d = d'
  registered : ∀ d x socket path, s.fds d = some x → s.sockets x = some socket →
    socket.sunPath = some path → s.udsMap d = some path
  named : ∀ x socket path, s.sockets x = some socket → s.files path = some x →
    socket.sunPath = some path
  fresh : ∀ x, s.nextSocket ≤ x → s.sockets x = none ∧ ∀ path, s.files path ≠ some x

namespace Filed

omit [DecidableEq ι] in
theorem start : (start ι).Filed := by
  refine ⟨?_, ?_, ?_, ?_, ?_, ?_, ?_⟩
  · intro d path hmap
    cases hmap
  · intro d x hfd
    cases hfd
  · intro x socket hsocket
    cases hsocket
  · intro d d' x hfd
    cases hfd
  · intro d x socket path hfd
    cases hfd
  · intro x socket path hsocket
    cases hsocket
  · intro x _
    refine ⟨rfl, ?_⟩
    intro path hfile
    cases hfile

omit [DecidableEq ι] in
/-- The file of an open socket is registered. -/
theorem registered_of_file (h : s.Filed) {d : UdsDescriptor ι} {x : Nat} {path : Bytes}
    (hfd : s.fds d = some x) (hfile : s.files path = some x) : s.udsMap d = some path := by
  obtain ⟨socket, hsocket, -⟩ := h.opened d x hfd
  exact h.registered d x socket path hfd hsocket (h.named x socket path hsocket hfile)

theorem socket (h : s.Filed) {d : UdsDescriptor ι} (hfree : s.fds d = none) :
    (s.socket d).Filed := by
  obtain ⟨hclosed, hnofile⟩ := h.fresh s.nextSocket (Nat.le_refl _)
  have hother : ∀ d' x, s.fds d' = some x → d' ≠ d := by
    rintro d' x hfd rfl
    rw [hfree] at hfd
    cases hfd
  have hold : ∀ x socket, s.sockets x = some socket → x ≠ s.nextSocket := by
    rintro x socket hsocket rfl
    rw [hclosed] at hsocket
    cases hsocket
  have hget : ∀ d' x, (s.fds.insert d s.nextSocket) d' = some x →
      d' = d ∧ x = s.nextSocket ∨ d' ≠ d ∧ x ≠ s.nextSocket ∧ s.fds d' = some x := by
    intro d' x hfd
    rw [PartialMap.insert_apply] at hfd
    split at hfd
    · next hd =>
        cases hfd
        exact Or.inl ⟨hd, rfl⟩
    · next hd =>
        obtain ⟨socket, hsocket, -⟩ := h.opened d' x hfd
        exact Or.inr ⟨hd, hold x socket hsocket, hfd⟩
  constructor
  · intro d' path hmap
    obtain ⟨x, hfd, hfile⟩ := h.owned d' path hmap
    exact ⟨x, (PartialMap.insert_of_ne _ (hother d' x hfd)).trans hfd, hfile⟩
  · intro d' x hfd
    obtain ⟨rfl, rfl⟩ | ⟨-, hne, hfd'⟩ := hget d' x hfd
    · exact ⟨_, PartialMap.insert_self .., rfl⟩
    · obtain ⟨socket, hsocket, howner⟩ := h.opened d' x hfd'
      exact ⟨socket, (PartialMap.insert_of_ne _ hne).trans hsocket, howner⟩
  · intro x socket hsocket
    simp only [UdsSystem.socket, PartialMap.insert_apply] at hsocket
    split at hsocket
    · next hx =>
        subst hx
        exact ⟨d, PartialMap.insert_self ..⟩
    · obtain ⟨d', hfd⟩ := h.held x socket hsocket
      exact ⟨d', (PartialMap.insert_of_ne _ (hother d' x hfd)).trans hfd⟩
  · intro d₁ d₂ x hfd₁ hfd₂
    obtain ⟨rfl, rfl⟩ | ⟨-, hne, hold₁⟩ := hget d₁ x hfd₁
    · obtain ⟨rfl, -⟩ | ⟨-, hne, -⟩ := hget d₂ _ hfd₂
      · rfl
      · exact absurd rfl hne
    · obtain ⟨-, rfl⟩ | ⟨-, -, hold₂⟩ := hget d₂ x hfd₂
      · exact absurd rfl hne
      · exact h.unique d₁ d₂ x hold₁ hold₂
  · intro d' x socket path hfd hsocket hpath
    simp only [UdsSystem.socket, PartialMap.insert_apply] at hsocket
    obtain ⟨rfl, rfl⟩ | ⟨-, hne, hfd'⟩ := hget d' x hfd
    · rw [if_pos rfl] at hsocket
      cases hsocket
      cases hpath
    · rw [if_neg hne] at hsocket
      exact h.registered d' x socket path hfd' hsocket hpath
  · intro x socket path hsocket hfile
    simp only [UdsSystem.socket, PartialMap.insert_apply] at hsocket
    split at hsocket
    · next hx =>
        subst hx
        exact absurd hfile (hnofile path)
    · exact h.named x socket path hsocket hfile
  · intro x hlt
    have hne : x ≠ s.nextSocket := Nat.ne_of_gt hlt
    obtain ⟨hnone, hfile⟩ := h.fresh x (Nat.le_of_succ_le hlt)
    exact ⟨(PartialMap.insert_of_ne _ hne).trans hnone, hfile⟩

omit [DecidableEq ι] in
/-- A file that nobody has registered may be removed. -/
theorem unlink (h : s.Filed) {path : Bytes} (hunregistered : ∀ d, s.udsMap d ≠ some path)
    (checked : PartialMap (UdsDescriptor ι) Bytes) :
    Filed { s with files := s.files.erase path, checked := checked } := by
  refine ⟨?_, h.opened, h.held, h.unique, h.registered, ?_, ?_⟩
  · intro d path' hmap
    obtain ⟨x, hfd, hfile⟩ := h.owned d path' hmap
    have hne : path' ≠ path := by
      rintro rfl
      exact hunregistered d hmap
    exact ⟨x, hfd, (PartialMap.erase_of_ne hne).trans hfile⟩
  · intro x socket path' hsocket hfile
    exact h.named x socket path' hsocket (PartialMap.of_erase_eq_some hfile).2
  · intro x hlt
    obtain ⟨hnone, hnofile⟩ := h.fresh x hlt
    exact ⟨hnone, fun path' hfile => hnofile path' (PartialMap.of_erase_eq_some hfile).2⟩

/-- A socket that has a path keeps it when `Bind` is called again. -/
theorem bind_of_registered (h : s.Filed) {d : UdsDescriptor ι} {x : Nat} {path registered : Bytes}
    {permitted : Bool} (hfd : s.fds d = some x) (hmap : s.udsMap d = some registered) :
    (s.bind d x path permitted).Filed := by
  obtain ⟨y, hfd', hfile⟩ := h.owned d registered hmap
  obtain rfl : x = y := Option.some.inj (hfd.symm.trans hfd')
  obtain ⟨socket, hsocket, -⟩ := h.opened d x hfd
  have hpath : socket.sunPath = some registered := h.named x socket registered hsocket hfile
  have hsame : s.bind d x path permitted = { s with checked := s.checked.erase d } := by
    simp [UdsSystem.bind, mapInsert, hmap, kernelBind, hsocket, hpath]
  rw [hsame]
  exact ⟨h.owned, h.opened, h.held, h.unique, h.registered, h.named, h.fresh⟩

omit [DecidableEq ι] in
/-- The socket of a descriptor without a path has none. -/
theorem unbound (h : s.Filed) {d : UdsDescriptor ι} {x : Nat} {socket : UdsSocket ι}
    (hfd : s.fds d = some x) (hsocket : s.sockets x = some socket) (hmap : s.udsMap d = none) :
    socket.sunPath = none := by
  cases hpath : socket.sunPath with
  | none => rfl
  | some bound =>
      have hthere := h.registered d x socket bound hfd hsocket hpath
      rw [hmap] at hthere
      cases hthere

omit [DecidableEq ι] in
/-- A descriptor belongs to the owner of its socket, also when something else of it changes. -/
theorem opened_insert (h : s.Filed) {x : Nat} {socket socket' : UdsSocket ι}
    (hsocket : s.sockets x = some socket) (howner : socket'.owner = socket.owner)
    {d : UdsDescriptor ι} {y : Nat} (hfd : s.fds d = some y) :
    ∃ other, (s.sockets.insert x socket') y = some other ∧ other.owner = d.1 := by
  obtain ⟨old, hold, hown⟩ := h.opened d y hfd
  by_cases hy : y = x
  · subst hy
    rw [hsocket] at hold
    cases hold
    exact ⟨_, PartialMap.insert_self .., howner.trans hown⟩
  · exact ⟨old, (PartialMap.insert_of_ne _ hy).trans hold, hown⟩

omit [DecidableEq ι] in
/-- An open socket has a descriptor, also when something of it changes. -/
theorem held_insert (h : s.Filed) {x : Nat} {socket socket' : UdsSocket ι}
    (hsocket : s.sockets x = some socket) {y : Nat} {other : UdsSocket ι}
    (hother : (s.sockets.insert x socket') y = some other) : ∃ d, s.fds d = some y := by
  rw [PartialMap.insert_apply] at hother
  split at hother
  · next hy => exact h.held y socket (hy ▸ hsocket)
  · exact h.held y other hother

omit [DecidableEq ι] in
/-- A socket that changes is no new one. -/
theorem fresh_insert (h : s.Filed) {x : Nat} {socket socket' : UdsSocket ι}
    (hsocket : s.sockets x = some socket) {y : Nat} (hlt : s.nextSocket ≤ y) :
    y ≠ x ∧ (s.sockets.insert x socket') y = none := by
  have hnone := (h.fresh y hlt).1
  have hy : y ≠ x := by
    rintro rfl
    rw [hsocket] at hnone
    cases hnone
  exact ⟨hy, (PartialMap.insert_of_ne _ hy).trans hnone⟩

/-- The paths that are registered have their files when a free path gets one. -/
theorem owned_insert (h : s.Filed) {d : UdsDescriptor ι} {x : Nat} {path : Bytes}
    (hfd : s.fds d = some x) (hfree : s.files path = none)
    (checked : PartialMap (UdsDescriptor ι) Bytes) (sockets : PartialMap Nat (UdsSocket ι)) :
    Owned { s with
      udsMap := s.udsMap.insert d path
      checked := checked
      sockets := sockets
      files := s.files.insert path x } := by
  intro d' path' hmap'
  dsimp only at hmap' ⊢
  rw [PartialMap.insert_apply] at hmap'
  split at hmap'
  · next hd =>
      cases hmap'
      exact ⟨x, hd ▸ hfd, PartialMap.insert_self ..⟩
  · obtain ⟨y, hfd', hfile⟩ := h.owned d' path' hmap'
    have hne : path' ≠ path := by
      rintro rfl
      rw [hfree] at hfile
      cases hfile
    exact ⟨y, hfd', (PartialMap.insert_of_ne _ hne).trans hfile⟩

/-- A path of a socket is registered when a descriptor gets one. -/
theorem registered_insert (h : s.Filed) {d : UdsDescriptor ι} {x : Nat} {socket : UdsSocket ι}
    {path : Bytes} (hfd : s.fds d = some x) {d' : UdsDescriptor ι} {y : Nat} {other : UdsSocket ι}
    {path' : Bytes} (hfd' : s.fds d' = some y)
    (hother : (s.sockets.insert x { socket with sunPath := some path }) y = some other)
    (hpath : other.sunPath = some path') : (s.udsMap.insert d path) d' = some path' := by
  rw [PartialMap.insert_apply] at hother
  split at hother
  · next hy =>
      subst hy
      obtain rfl : d' = d := h.unique d' d y hfd' hfd
      cases hother
      cases hpath
      exact PartialMap.insert_self ..
  · next hy =>
      have hd : d' ≠ d := by
        rintro rfl
        exact hy (Option.some.inj (hfd'.symm.trans hfd))
      exact (PartialMap.insert_of_ne _ hd).trans (h.registered d' y other path' hfd' hother hpath)

omit [DecidableEq ι] in
/-- A file that refers to an open socket has its path when a socket gets one. -/
theorem named_insert (h : s.Filed) {x : Nat} {socket : UdsSocket ι} {path : Bytes}
    (hnofile : ∀ path', s.files path' ≠ some x) {y : Nat} {other : UdsSocket ι} {path' : Bytes}
    (hother : (s.sockets.insert x { socket with sunPath := some path }) y = some other)
    (hfile : (s.files.insert path x) path' = some y) : other.sunPath = some path' := by
  rw [PartialMap.insert_apply] at hother hfile
  split at hfile
  · next hpath =>
      cases hfile
      rw [if_pos rfl] at hother
      cases hother
      rw [hpath]
  · split at hother
    · next hy =>
        subst hy
        exact absurd hfile (hnofile path')
    · exact h.named y other path' hother hfile

/-- A socket gets its path and its file together. -/
theorem bind_of_free (h : s.Filed) {d : UdsDescriptor ι} {x : Nat} {path : Bytes}
    (hfd : s.fds d = some x) (hmap : s.udsMap d = none) (hfree : s.files path = none) :
    (s.bind d x path true).Filed := by
  obtain ⟨socket, hsocket, -⟩ := h.opened d x hfd
  have hunbound : socket.sunPath = none := h.unbound hfd hsocket hmap
  have hnofile : ∀ path', s.files path' ≠ some x := by
    intro path' hfile
    have hnamed := h.named x socket path' hsocket hfile
    rw [hunbound] at hnamed
    cases hnamed
  rw [bind_eq hmap hsocket hunbound hfree]
  refine ⟨h.owned_insert hfd hfree _ _, ?_, ?_, h.unique, ?_, ?_, ?_⟩
  · intro d' y hfd'
    exact h.opened_insert hsocket (by rfl) hfd'
  · intro y other hother
    exact h.held_insert hsocket hother
  · intro d' y other path' hfd' hother hpath
    exact h.registered_insert hfd hfd' hother hpath
  · intro y other path' hother hfile
    exact h.named_insert hnofile hother hfile
  · intro y hlt
    obtain ⟨hy, hnone⟩ := h.fresh_insert hsocket hlt
    refine ⟨hnone, ?_⟩
    intro path' hfile
    dsimp only at hfile
    rw [PartialMap.insert_apply] at hfile
    split at hfile
    · exact hy (Option.some.inj hfile).symm
    · exact (h.fresh y hlt).2 path' hfile

omit [DecidableEq ι] in
/-- `Listen` changes neither paths nor owners. -/
theorem listen (h : s.Filed) (x : Nat) : (s.listen x).Filed := by
  rw [UdsSystem.listen]
  split
  · exact h
  · next socket hsocket =>
      split
      · exact h
      · have hget : ∀ y other,
            (s.sockets.insert x { socket with listening := true }) y = some other →
              ∃ old, s.sockets y = some old ∧ old.sunPath = other.sunPath := by
          intro y other hother
          rw [PartialMap.insert_apply] at hother
          split at hother
          · next hy =>
              cases hother
              exact ⟨socket, hy ▸ hsocket, rfl⟩
          · exact ⟨other, hother, rfl⟩
        refine ⟨h.owned, ?_, ?_, h.unique, ?_, ?_, ?_⟩
        · intro d y hfd
          exact h.opened_insert hsocket (by rfl) hfd
        · intro y other hother
          exact h.held_insert hsocket hother
        · intro d y other path hfd hother hpath
          obtain ⟨old, hold, hsame⟩ := hget y other hother
          exact h.registered d y old path hfd hold (hsame.trans hpath)
        · intro y other path hother hfile
          obtain ⟨old, hold, hsame⟩ := hget y other hother
          exact hsame.symm.trans (h.named y old path hold hfile)
        · intro y hlt
          exact ⟨(h.fresh_insert hsocket hlt).2, (h.fresh y hlt).2⟩

/-- The paths that are still registered behind `Close` have their files. -/
theorem close_owned (h : s.Filed) (d : UdsDescriptor ι) : (s.close d).Owned := by
  intro d' path hmap
  obtain ⟨hd, hmap'⟩ := PartialMap.of_erase_eq_some hmap
  obtain ⟨x, hfd, hfile⟩ := h.owned d' path hmap'
  have hother : s.udsMap d ≠ some path := by
    intro hclosed
    obtain ⟨y, hfd', hfile'⟩ := h.owned d path hclosed
    obtain rfl : x = y := Option.some.inj (hfile.symm.trans hfile')
    exact hd (h.unique d' d x hfd hfd')
  exact ⟨x, (PartialMap.erase_of_ne hd).trans hfd, close_files hother hfile⟩

/-- `Close` removes the file of its own socket, and no other. -/
theorem close (h : s.Filed) (d : UdsDescriptor ι) : (s.close d).Filed := by
  refine ⟨h.close_owned d, ?_, ?_, ?_, ?_, ?_, ?_⟩
  · intro d' x hfd
    obtain ⟨hd, hfd'⟩ := of_close_fds hfd
    obtain ⟨socket, hsocket, howner⟩ := h.opened d' x hfd'
    exact ⟨socket, close_sockets (fun heq => hd (h.unique d' d x hfd' heq)) hsocket, howner⟩
  · intro x socket hsocket
    obtain ⟨hne, hold⟩ := of_close_sockets hsocket
    obtain ⟨d', hfd⟩ := h.held x socket hold
    have hd : d' ≠ d := by
      rintro rfl
      exact hne hfd
    exact ⟨d', (PartialMap.erase_of_ne hd).trans hfd⟩
  · intro d₁ d₂ x hfd₁ hfd₂
    exact h.unique d₁ d₂ x (of_close_fds hfd₁).2 (of_close_fds hfd₂).2
  · intro d' x socket path hfd hsocket hpath
    obtain ⟨hd, hfd'⟩ := of_close_fds hfd
    have hmap := h.registered d' x socket path hfd' (of_close_sockets hsocket).2 hpath
    exact (PartialMap.erase_of_ne hd).trans hmap
  · intro x socket path hsocket hfile
    exact h.named x socket path (of_close_sockets hsocket).2 (of_close_files hfile).2
  · intro x hlt
    obtain ⟨hnone, hnever⟩ := h.fresh x hlt
    refine ⟨?_, fun path hfile => hnever path (of_close_files hfile).2⟩
    cases hsocket : (s.close d).sockets x with
    | none => rfl
    | some socket =>
        have hold := (of_close_sockets hsocket).2
        rw [hnone] at hold
        cases hold

/-- The files of a process that has crashed stay, and belong to no open socket. -/
theorem crash (h : s.Filed) (i : ι) : (s.crash i).Filed := by
  have hfds : ∀ d x, (s.crash i).fds d = some x → d.1 ≠ i ∧ s.fds d = some x := by
    intro d x hfd
    simp only [UdsSystem.crash] at hfd
    split at hfd
    · cases hfd
    · next hd => exact ⟨hd, hfd⟩
  have hsockets : ∀ x socket, (s.crash i).sockets x = some socket →
      socket.owner ≠ i ∧ s.sockets x = some socket := by
    intro x socket hsocket
    simp only [UdsSystem.crash] at hsocket
    split at hsocket
    · cases hsocket
    · next old hold =>
        split at hsocket
        · cases hsocket
        · next howner =>
            cases hsocket
            exact ⟨howner, hold⟩
  have hfd : ∀ (d : UdsDescriptor ι) x, d.1 ≠ i → s.fds d = some x →
      (s.crash i).fds d = some x := by
    intro d x hd hold
    simp only [UdsSystem.crash, if_neg hd, hold]
  constructor
  · intro d path hmap
    simp only [UdsSystem.crash] at hmap
    split at hmap
    · cases hmap
    · next hd =>
        obtain ⟨x, hold, hfile⟩ := h.owned d path hmap
        exact ⟨x, hfd d x hd hold, hfile⟩
  · intro d x hget
    obtain ⟨hd, hold⟩ := hfds d x hget
    obtain ⟨socket, hsocket, howner⟩ := h.opened d x hold
    have hother : socket.owner ≠ i := by
      rw [howner]
      exact hd
    exact ⟨socket, by simp only [UdsSystem.crash, hsocket, if_neg hother], howner⟩
  · intro x socket hsocket
    obtain ⟨howner, hold⟩ := hsockets x socket hsocket
    obtain ⟨d, hget⟩ := h.held x socket hold
    obtain ⟨socket', hsocket', howner'⟩ := h.opened d x hget
    obtain rfl : socket = socket' := Option.some.inj (hold.symm.trans hsocket')
    exact ⟨d, hfd d x (howner' ▸ howner) hget⟩
  · intro d₁ d₂ x hfd₁ hfd₂
    exact h.unique d₁ d₂ x (hfds d₁ x hfd₁).2 (hfds d₂ x hfd₂).2
  · intro d x socket path hget hsocket hpath
    obtain ⟨hd, hold⟩ := hfds d x hget
    have hmap := h.registered d x socket path hold (hsockets x socket hsocket).2 hpath
    simp only [UdsSystem.crash, if_neg hd, hmap]
  · intro x socket path hsocket hfile
    exact h.named x socket path (hsockets x socket hsocket).2 hfile
  · intro x hlt
    obtain ⟨hnone, hnever⟩ := h.fresh x hlt
    exact ⟨by simp only [UdsSystem.crash, hnone], hnever⟩

variable {sockType : ι → SockType}

/-- What a step that meets the condition preserves. -/
theorem step (h : s.Filed) {a : Action ι} (hguard : KeepsFiles sockType s a)
    (hnext : next sockType s a = some s') : s'.Filed := by
  cases a with
  | socket d =>
      simp only [next] at hnext
      split at hnext
      · next hfree =>
          cases hnext
          exact h.socket hfree
      · cases hnext
  | checkPort d path probed =>
      simp only [next] at hnext
      split at hnext
      · split at hnext
        · next havailable =>
            cases hnext
            exact h.unlink (hguard havailable) _
        · cases hnext
          exact h
      · cases hnext
  | bind d path permitted =>
      simp only [next] at hnext
      split at hnext
      · cases hnext
      · next x hfd =>
          split at hnext
          · cases hnext
            cases hmap : s.udsMap d with
            | some registered => exact h.bind_of_registered hfd hmap
            | none =>
                obtain hthere | ⟨hfree, rfl⟩ := hguard
                · exact absurd hmap hthere
                · exact h.bind_of_free hfd hmap hfree
          · cases hnext
  | listen d =>
      simp only [next] at hnext
      split at hnext
      · cases hnext
      · split at hnext
        · cases hnext
          exact h.listen _
        · cases hnext
          exact h
  | close d =>
      cases hnext
      exact h.close d
  | crash i =>
      cases hnext
      exact h.crash i

/-- A step that does not meet the condition leaves a registered path without its own file. -/
theorem lost (h : s.Filed) {a : Action ι} (hguard : ¬KeepsFiles sockType s a)
    (hnext : next sockType s a = some s') : ¬s'.Owned := by
  intro howned
  cases a with
  | socket d => exact hguard trivial
  | checkPort d path probed =>
      simp only [KeepsFiles, Classical.not_imp, not_forall, not_not] at hguard
      obtain ⟨havailable, d', hmap⟩ := hguard
      simp only [next] at hnext
      rw [if_pos havailable] at hnext
      split at hnext
      · cases hnext
        obtain ⟨x, -, hfile⟩ := howned d' path hmap
        exact (PartialMap.of_erase_eq_some hfile).1 rfl
      · cases hnext
  | bind d path permitted =>
      simp only [KeepsFiles, not_or, not_not] at hguard
      obtain ⟨hmap, hrefused⟩ := hguard
      simp only [next] at hnext
      split at hnext
      · cases hnext
      · next x hfd =>
          split at hnext
          · cases hnext
            have hsame : s.bind d x path permitted =
                { s with
                  udsMap := s.udsMap.insert d path
                  checked := s.checked.erase d } := by
              simp only [UdsSystem.bind, mapInsert, hmap, kernelBind]
              split
              · rfl
              · rw [if_neg]
                rintro ⟨hpermitted, -, hfree⟩
                exact hrefused ⟨hfree, hpermitted⟩
            rw [hsame] at howned
            obtain ⟨y, hfd', hfile⟩ := howned d path (PartialMap.insert_self ..)
            have hthere := h.registered_of_file hfd' hfile
            rw [hmap] at hthere
            cases hthere
          · cases hnext
  | listen d => exact hguard trivial
  | close d => exact hguard trivial
  | crash i => exact hguard trivial

end Filed

/-- Every file is that of an open socket. -/
def NoLeftovers (s : UdsSystem ι) : Prop := ∀ path x, s.files path = some x → s.sockets x ≠ none

namespace NoLeftovers

/-- A new socket is in addition to those of the files. -/
theorem socket (hopen : s.NoLeftovers) (h : s.Filed) (d : UdsDescriptor ι) :
    (s.socket d).NoLeftovers := by
  intro path x hfile
  have hne : x ≠ s.nextSocket := by
    rintro rfl
    exact (h.fresh s.nextSocket (Nat.le_refl _)).2 path hfile
  simp only [UdsSystem.socket, PartialMap.insert_of_ne _ hne]
  exact hopen path x hfile

omit [DecidableEq ι] in
/-- A socket that changes is still there. -/
theorem insert (hopen : s.NoLeftovers) (x : Nat) (socket : UdsSocket ι) {path : Bytes} {y : Nat}
    (hfile : s.files path = some y) : (s.sockets.insert x socket) y ≠ none := by
  rw [PartialMap.insert_apply]
  split
  · exact Option.some_ne_none _
  · exact hopen path y hfile

/-- The file that `Bind` makes is that of its socket. -/
theorem bind (hopen : s.NoLeftovers) (d : UdsDescriptor ι) (x : Nat) (path : Bytes)
    (permitted : Bool) : (s.bind d x path permitted).NoLeftovers := by
  rw [UdsSystem.bind, kernelBind]
  split
  · exact hopen
  · next socket hsocket =>
      split
      · intro path' y hfile
        dsimp only at hfile ⊢
        rw [PartialMap.insert_apply] at hfile
        split at hfile
        · cases hfile
          rw [PartialMap.insert_self]
          exact Option.some_ne_none _
        · exact hopen.insert x _ hfile
      · exact hopen

omit [DecidableEq ι] in
theorem listen (hopen : s.NoLeftovers) (x : Nat) : (s.listen x).NoLeftovers := by
  rw [UdsSystem.listen]
  split
  · exact hopen
  · split
    · exact hopen
    · intro path y hfile
      exact hopen.insert x _ hfile

/-- `Close` removes the file of the socket that it closes. -/
theorem close (hopen : s.NoLeftovers) (h : s.Filed) (d : UdsDescriptor ι) :
    (s.close d).NoLeftovers := by
  intro path x hfile
  obtain ⟨hne, hold⟩ := of_close_files hfile
  obtain ⟨socket, hsocket⟩ := Option.ne_none_iff_exists'.mp (hopen path x hold)
  rw [close_sockets (fun hfd => hne (h.registered_of_file hfd hold)) hsocket]
  exact Option.some_ne_none socket

end NoLeftovers

/-- Only a crash leaves a file without its socket. -/
theorem Filed.step_noLeftovers {sockType : ι → SockType} (h : s.Filed) (hopen : s.NoLeftovers)
    {a : Action ι} (hcrash : ∀ i, a ≠ .crash i) (hnext : next sockType s a = some s') :
    s'.NoLeftovers := by
  cases a with
  | socket d =>
      simp only [next] at hnext
      split at hnext
      · cases hnext
        exact hopen.socket h d
      · cases hnext
  | checkPort d path probed =>
      simp only [next] at hnext
      split at hnext
      · split at hnext
        · cases hnext
          exact fun path' x hfile => hopen path' x (PartialMap.of_erase_eq_some hfile).2
        · cases hnext
          exact hopen
      · cases hnext
  | bind d path permitted =>
      simp only [next] at hnext
      split at hnext
      · cases hnext
      · split at hnext
        · cases hnext
          exact hopen.bind d _ path permitted
        · cases hnext
  | listen d =>
      simp only [next] at hnext
      split at hnext
      · cases hnext
      · split at hnext
        · cases hnext
          exact hopen.listen _
        · cases hnext
          exact hopen
  | close d =>
      cases hnext
      exact hopen.close h d
  | crash i => exact absurd rfl (hcrash i)

/-- The files of the registered paths are those of their own sockets throughout a run exactly if
the run takes no registered file for a leftover and binds to free paths. Then, unless a process
crashes, there are no other files. -/
theorem files_owned_iff (sockType : ι → SockType) {actions : List (Action ι)}
    (h : Lib.execute (next sockType) (start ι) actions = some s) :
    (Along (next sockType) Owned (start ι) actions ↔
        Meets (next sockType) (KeepsFiles sockType) (start ι) actions) ∧
      (Meets (next sockType) (KeepsFiles sockType) (start ι) actions →
        (∀ i, .crash i ∉ actions) → ∀ path x, s.files path = some x ↔
          ∃ d, s.udsMap d = some path ∧ s.fds d = some x) := by
  constructor
  · exact along_iff_meets Filed (fun _ h => h.owned)
      (fun _ _ _ h hguard hnext => h.step hguard hnext)
      (fun _ _ _ h hguard hnext => h.lost hguard hnext) .start h
  · intro hmeets hcrash path x
    have hkind : ∀ a ∈ actions, ∀ i, a ≠ .crash i := by
      rintro a hmem i rfl
      exact hcrash i hmem
    have hrun : GuardedRun (fun s a s' => next sockType s a = some s')
        (fun s a => KeepsFiles sockType s a ∧ ∀ i, a ≠ .crash i) (start ι) s :=
      .execute .start h (hmeets.and_kind _ hkind)
    have hboth : s.Filed ∧ s.NoLeftovers := by
      apply hrun.invariant
      · refine ⟨.start, ?_⟩
        intro path x hfile
        cases hfile
      · rintro s a s' ⟨hfiled, hopen⟩ ⟨hguard, hnot⟩ hnext
        exact ⟨hfiled.step hguard hnext, hfiled.step_noLeftovers hopen hnot hnext⟩
    obtain ⟨hfiled, hopen⟩ := hboth
    constructor
    · intro hfile
      cases hsocket : s.sockets x with
      | none => exact absurd hsocket (hopen path x hfile)
      | some socket =>
          obtain ⟨d, hfd⟩ := hfiled.held x socket hsocket
          exact ⟨d, hfiled.registered_of_file hfd hfile, hfd⟩
    · rintro ⟨d, hmap, hfd⟩
      obtain ⟨y, hfd', hfile⟩ := hfiled.owned d path hmap
      obtain rfl : x = y := Option.some.inj (hfd.symm.trans hfd')
      exact hfile

/-- The path `/_server`. -/
def serverPath : Bytes := [0x2F, CinetUds.underscore] ++ CinetUds.udsServer

/-- The path `/_c`. -/
def clientPath : Bytes := [0x2F, CinetUds.underscore, 0x63]

/-- A server listens, a second server finds its path taken, and a client comes and goes. -/
def serverAndClient : List (Action Bool) :=
  [.socket (false, 3), .checkPort (false, 3) serverPath true, .bind (false, 3) serverPath true,
    .listen (false, 3), .socket (true, 3), .checkPort (true, 3) serverPath true,
    .bind (true, 3) clientPath true, .close (true, 3)]

theorem serverAndClient_owned :
    ∃ s, Lib.execute (next fun _ => .stream) (start Bool) serverAndClient = some s ∧
      Along (next fun _ => .stream) Owned (start Bool) serverAndClient ∧
      ∀ path x, s.files path = some x ↔ ∃ d, s.udsMap d = some path ∧ s.fds d = some x := by
  obtain ⟨s, hs⟩ := Option.isSome_iff_exists.mp
    (by decide : (Lib.execute (next fun _ => .stream) (start Bool) serverAndClient).isSome = true)
  have howned := files_owned_iff (fun _ => .stream) hs
  have hmeets : Meets (next fun _ => .stream) (KeepsFiles fun _ => .stream) (start Bool)
      serverAndClient := by
    refine ⟨trivial, ?_, Or.inr ⟨rfl, rfl⟩, trivial, trivial, ?_, Or.inr ⟨rfl, rfl⟩, trivial,
      trivial⟩
    · intro _ d hmap
      cases hmap
    · intro havailable
      exact absurd havailable (by decide)
  refine ⟨s, hs, howned.1.mpr hmeets, howned.2 hmeets ?_⟩
  intro i hmem
  simp [serverAndClient] at hmem

/-- Two datagram servers start under one path. -/
def datagramServers : List (Action Bool) :=
  [.socket (false, 3), .checkPort (false, 3) serverPath true, .bind (false, 3) serverPath true,
    .socket (true, 3), .checkPort (true, 3) serverPath true, .bind (true, 3) serverPath true]

/-- The check of the second one removes the file of the first one, whose datagrams then go to the
second one. -/
theorem datagramServers_not_owned :
    ∃ s, Lib.execute (next fun _ => .dgram) (start Bool) datagramServers = some s ∧
      s.fds (false, 3) = some 0 ∧ s.udsMap (false, 3) = some serverPath ∧
      s.fds (true, 3) = some 1 ∧ s.files serverPath = some 1 := by
  have hexecute : Lib.execute (next fun _ => .dgram) (start Bool) datagramServers = some _ := rfl
  exact ⟨_, hexecute, rfl, rfl, rfl, rfl⟩

end UdsSystem

end CommonCommunicator
