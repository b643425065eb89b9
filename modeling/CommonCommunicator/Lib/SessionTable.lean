import CommonCommunicator.Lib.GuardedRun
import CommonCommunicator.Lib.PartialMap

/-!
# Named connections with one session each

A table holds the handle of a connection under a name, and a session reads from
it. A session finds its handle in the table once, under its own name, and keeps
reading from it whatever happens to the entry. Sessions are renamed together
with their entries. If a name is given to a connection only when no session has
it, and a handle only when no session reads it, then each connection has one
session and no handle has two.
-/

namespace CommonCommunicator.Lib

/-- The handles by name, the names of the sessions and the handles that they read. -/
structure SessionTable (ι ν η : Type*) where
  table : PartialMap ν η
  name : PartialMap ι ν
  reads : PartialMap ι η

namespace SessionTable

variable {ι ν η : Type*}

/-- A table without connections and sessions. -/
def empty : SessionTable ι ν η := { table := .empty, name := .empty, reads := .empty }

variable [DecidableEq ι] [DecidableEq ν]

/-- What can happen to a connection and its session. -/
inductive Action (ι ν η : Type*)
  | opened (id : ι) (n : ν) (h : η)
  | started (id : ι)
  | renamed (id : ι) (n : ν)
  | closed (n : ν)
  | finished (id : ι)

/-- The steps. An entry may be closed while its session goes on. -/
inductive Step (s : SessionTable ι ν η) : Action ι ν η → SessionTable ι ν η → Prop
  | opened {id : ι} {n : ν} {h : η} (absent : s.table n = none) (unused : s.name id = none)
      (idle : s.reads id = none) (unnamed : ∀ id', s.name id' ≠ some n)
      (unstored : ∀ n', s.table n' ≠ some h) (unread : ∀ id', s.reads id' ≠ some h) :
      Step s (.opened id n h)
        { s with table := s.table.insert n h, name := s.name.insert id n }
  | started {id : ι} {n : ν} {h : η} (named : s.name id = some n) (stored : s.table n = some h) :
      Step s (.started id) { s with reads := s.reads.insert id h }
  | renamed {id : ι} {n n' : ν} {h : η} (named : s.name id = some n)
      (stored : s.table n = some h) (absent : s.table n' = none)
      (unnamed : ∀ id', s.name id' ≠ some n') :
      Step s (.renamed id n')
        { s with table := (s.table.erase n).insert n' h, name := s.name.insert id n' }
  | closed {n : ν} : Step s (.closed n) { s with table := s.table.erase n }
  | finished {id : ι} {n : ν} (named : s.name id = some n) :
      Step s (.finished id)
        { table := s.table.erase n, name := s.name.erase id, reads := s.reads.erase id }

/-- Each connection has one session, and no handle has two. -/
structure OneReader (s : SessionTable ι ν η) : Prop where
  served : ∀ n h, s.table n = some h →
    ∃ id, s.name id = some n ∧ ∀ h', s.reads id = some h' → h' = h
  named : ∀ id id' n, s.name id = some n → s.name id' = some n → id = id'
  distinct : ∀ n n' h, s.table n = some h → s.table n' = some h → n = n'
  own : ∀ id n h, s.reads id = some h → s.table n = some h → s.name id = some n
  apart : ∀ id id' h, s.reads id = some h → s.reads id' = some h → id = id'

namespace OneReader

variable {s s' : SessionTable ι ν η}

omit [DecidableEq ι] [DecidableEq ν] in
theorem empty : (SessionTable.empty : SessionTable ι ν η).OneReader := by
  constructor
  · intro n handle hstored
    cases hstored
  · intro id id' n hname
    cases hname
  · intro n n' handle hstored
    cases hstored
  · intro id n handle hreads
    cases hreads
  · intro id id' handle hreads
    cases hreads

omit [DecidableEq ι] in
/-- The entries that are left when one is removed. -/
theorem closed (h : s.OneReader) (n : ν) : OneReader { s with table := s.table.erase n } where
  served n' handle hstored := h.served n' handle (PartialMap.of_erase_eq_some hstored).2
  named := h.named
  distinct n₁ n₂ handle hstored hstored' := h.distinct n₁ n₂ handle
    (PartialMap.of_erase_eq_some hstored).2 (PartialMap.of_erase_eq_some hstored').2
  own id n' handle hreads hstored := h.own id n' handle hreads
    (PartialMap.of_erase_eq_some hstored).2
  apart := h.apart

/-- A new connection has a name that no session has and a handle that no session reads. -/
theorem opened (h : s.OneReader) {id : ι} {n : ν} {handle : η} (unused : s.name id = none)
    (idle : s.reads id = none) (unnamed : ∀ id', s.name id' ≠ some n)
    (unstored : ∀ n', s.table n' ≠ some handle) (unread : ∀ id', s.reads id' ≠ some handle) :
    OneReader { s with table := s.table.insert n handle, name := s.name.insert id n } := by
  have hother : ∀ id' n', s.name id' = some n' → id' ≠ id := by
    rintro id' n' hname rfl
    rw [unused] at hname
    cases hname
  constructor
  · intro n' handle' hstored
    dsimp only at hstored ⊢
    rw [PartialMap.insert_apply] at hstored
    split at hstored
    · next hn =>
        subst hn
        refine ⟨id, PartialMap.insert_self .., ?_⟩
        intro h' hreads
        rw [idle] at hreads
        cases hreads
    · obtain ⟨id', hname, hreads⟩ := h.served n' handle' hstored
      refine ⟨id', ?_, hreads⟩
      rw [PartialMap.insert_of_ne _ (hother id' n' hname)]
      exact hname
  · intro id₁ id₂ n' hname hname'
    dsimp only at hname hname'
    rw [PartialMap.insert_apply] at hname hname'
    split at hname <;> split at hname'
    · next h₁ h₂ => rw [h₁, h₂]
    · cases hname
      exact absurd hname' (unnamed id₂)
    · cases hname'
      exact absurd hname (unnamed id₁)
    · exact h.named id₁ id₂ n' hname hname'
  · intro n₁ n₂ handle' hstored hstored'
    dsimp only at hstored hstored'
    rw [PartialMap.insert_apply] at hstored hstored'
    split at hstored <;> split at hstored'
    · next h₁ h₂ => rw [h₁, h₂]
    · cases hstored
      exact absurd hstored' (unstored n₂)
    · cases hstored'
      exact absurd hstored (unstored n₁)
    · exact h.distinct n₁ n₂ handle' hstored hstored'
  · intro id' n' handle' hreads hstored
    dsimp only at hreads hstored ⊢
    rw [PartialMap.insert_apply] at hstored
    split at hstored
    · cases hstored
      exact absurd hreads (unread id')
    · have hname := h.own id' n' handle' hreads hstored
      rw [PartialMap.insert_of_ne _ (hother id' n' hname)]
      exact hname
  · exact h.apart

omit [DecidableEq ν] in
/-- The session finds the handle of its own name, which no other session reads. -/
theorem started (h : s.OneReader) {id : ι} {n : ν} {handle : η} (named : s.name id = some n)
    (stored : s.table n = some handle) :
    OneReader { s with reads := s.reads.insert id handle } := by
  have hother : ∀ id', s.reads id' = some handle → id' = id :=
    fun id' hreads => h.named id' id n (h.own id' n handle hreads stored) named
  constructor
  · intro n' handle' hstored
    dsimp only at hstored ⊢
    obtain ⟨id', hname, hreads⟩ := h.served n' handle' hstored
    refine ⟨id', hname, ?_⟩
    intro h' hread
    rw [PartialMap.insert_apply] at hread
    split at hread
    · next hid =>
        subst hid
        rw [named] at hname
        cases hname
        rw [stored] at hstored
        exact (Option.some.inj hread).symm.trans (Option.some.inj hstored)
    · exact hreads h' hread
  · exact h.named
  · exact h.distinct
  · intro id' n' handle' hreads hstored
    dsimp only at hreads hstored ⊢
    rw [PartialMap.insert_apply] at hreads
    split at hreads
    · next hid =>
        cases hreads
        rw [hid, h.distinct n' n handle hstored stored]
        exact named
    · exact h.own id' n' handle' hreads hstored
  · intro id₁ id₂ handle' hreads hreads'
    dsimp only at hreads hreads'
    rw [PartialMap.insert_apply] at hreads hreads'
    split at hreads <;> split at hreads'
    · next h₁ h₂ => rw [h₁, h₂]
    · next h₁ _ =>
        cases hreads
        rw [h₁, hother id₂ hreads']
    · next _ h₂ =>
        cases hreads'
        rw [h₂, hother id₁ hreads]
    · exact h.apart id₁ id₂ handle' hreads hreads'

/-- A session takes its entry along to a name that is free. -/
theorem renamed (h : s.OneReader) {id : ι} {n n' : ν} {handle : η} (named : s.name id = some n)
    (stored : s.table n = some handle) (unnamed : ∀ id', s.name id' ≠ some n') :
    OneReader { s with
      table := (s.table.erase n).insert n' handle
      name := s.name.insert id n' } := by
  have hself : ∀ id', s.name id' = some n → id' = id :=
    fun id' hname => h.named id' id n hname named
  have hget : ∀ n₁ handle', ((s.table.erase n).insert n' handle) n₁ = some handle' →
      n₁ = n' ∧ handle' = handle ∨ n₁ ≠ n' ∧ n₁ ≠ n ∧ s.table n₁ = some handle' := by
    intro n₁ handle' hstored
    rw [PartialMap.insert_apply] at hstored
    split at hstored
    · next hn =>
        cases hstored
        exact Or.inl ⟨hn, rfl⟩
    · next hn =>
        obtain ⟨hne, hold⟩ := PartialMap.of_erase_eq_some hstored
        exact Or.inr ⟨hn, hne, hold⟩
  constructor
  · intro n₁ handle' hstored
    obtain ⟨rfl, rfl⟩ | ⟨-, hne, hold⟩ := hget n₁ handle' hstored
    · refine ⟨id, PartialMap.insert_self .., ?_⟩
      obtain ⟨id', hname, hreads⟩ := h.served n handle' stored
      rw [hself id' hname] at hreads
      exact hreads
    · obtain ⟨id', hname, hreads⟩ := h.served n₁ handle' hold
      have hid : id' ≠ id := by
        rintro rfl
        rw [named] at hname
        exact hne (Option.some.inj hname).symm
      exact ⟨id', (PartialMap.insert_of_ne _ hid).trans hname, hreads⟩
  · intro id₁ id₂ n₁ hname hname'
    dsimp only at hname hname'
    rw [PartialMap.insert_apply] at hname hname'
    split at hname <;> split at hname'
    · next h₁ h₂ => rw [h₁, h₂]
    · cases hname
      exact absurd hname' (unnamed id₂)
    · cases hname'
      exact absurd hname (unnamed id₁)
    · exact h.named id₁ id₂ n₁ hname hname'
  · intro n₁ n₂ handle' hstored hstored'
    obtain ⟨rfl, rfl⟩ | ⟨-, hne, hold⟩ := hget n₁ handle' hstored
    · obtain ⟨rfl, -⟩ | ⟨-, hne', hold'⟩ := hget n₂ handle' hstored'
      · rfl
      · exact absurd (h.distinct n₂ n handle' hold' stored) hne'
    · obtain ⟨rfl, rfl⟩ | ⟨-, -, hold'⟩ := hget n₂ handle' hstored'
      · exact absurd (h.distinct n₁ n handle' hold stored) hne
      · exact h.distinct n₁ n₂ handle' hold hold'
  · intro id' n₁ handle' hreads hstored
    obtain ⟨rfl, rfl⟩ | ⟨-, hne, hold⟩ := hget n₁ handle' hstored
    · rw [hself id' (h.own id' n handle' hreads stored)]
      exact PartialMap.insert_self ..
    · have hname := h.own id' n₁ handle' hreads hold
      have hid : id' ≠ id := by
        rintro rfl
        rw [named] at hname
        exact hne (Option.some.inj hname).symm
      exact (PartialMap.insert_of_ne _ hid).trans hname
  · exact h.apart

/-- A session that ends takes its entry away. -/
theorem finished (h : s.OneReader) {id : ι} {n : ν} (named : s.name id = some n) :
    OneReader { table := s.table.erase n, name := s.name.erase id, reads := s.reads.erase id } := by
  have hname : ∀ id' n', s.name id' = some n' → n' ≠ n → (s.name.erase id) id' = some n' := by
    intro id' n' hname hne
    have hid : id' ≠ id := by
      rintro rfl
      rw [named] at hname
      exact hne (Option.some.inj hname).symm
    exact (PartialMap.erase_of_ne hid).trans hname
  constructor
  · intro n' handle hstored
    obtain ⟨hne, hold⟩ := PartialMap.of_erase_eq_some hstored
    obtain ⟨id', hserver, hreads⟩ := h.served n' handle hold
    refine ⟨id', hname id' n' hserver hne, ?_⟩
    exact fun h' hread => hreads h' (PartialMap.of_erase_eq_some hread).2
  · intro id₁ id₂ n' hname₁ hname₂
    exact h.named id₁ id₂ n' (PartialMap.of_erase_eq_some hname₁).2
      (PartialMap.of_erase_eq_some hname₂).2
  · exact (h.closed n).distinct
  · intro id' n' handle hreads hstored
    obtain ⟨hne, hold⟩ := PartialMap.of_erase_eq_some hstored
    exact hname id' n' (h.own id' n' handle (PartialMap.of_erase_eq_some hreads).2 hold) hne
  · intro id₁ id₂ handle hreads hreads'
    exact h.apart id₁ id₂ handle (PartialMap.of_erase_eq_some hreads).2
      (PartialMap.of_erase_eq_some hreads').2

/-- What one step preserves. -/
theorem step (h : s.OneReader) {a : Action ι ν η} (hstep : Step s a s') : s'.OneReader := by
  cases hstep with
  | opened absent unused idle unnamed unstored unread =>
      exact h.opened unused idle unnamed unstored unread
  | started named stored => exact h.started named stored
  | renamed named stored absent unnamed => exact h.renamed named stored unnamed
  | closed => exact h.closed _
  | finished named => exact h.finished named

/-- What a run preserves. -/
theorem run (hrun : Reachable Step (SessionTable.empty : SessionTable ι ν η) s) : s.OneReader :=
  hrun.invariant empty fun _ _ _ h _ hstep => h.step hstep

end OneReader

/-- A step, or none. -/
def Moves (s s' : SessionTable ι ν η) : Prop := s' = s ∨ ∃ a, Step s a s'

theorem Moves.reachable {s s' start : SessionTable ι ν η} (h : Moves s s')
    (hrun : Reachable Step start s) : Reachable Step start s' := by
  obtain rfl | ⟨a, hstep⟩ := h
  · exact hrun
  · exact hrun.next trivial hstep

end SessionTable

end CommonCommunicator.Lib
