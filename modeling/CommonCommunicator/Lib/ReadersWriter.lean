import CommonCommunicator.Lib.GuardedRun
import Mathlib.Data.Set.Insert

/-!
# A lock for one writer or many readers

Who holds the lock, and nothing of how it is done. Data that is read and written only by the
holders does not change under a thread that holds the lock, except by its own writes, so that what
the thread does with it is one step for all others.
-/

namespace CommonCommunicator.Lib

/-- The holders of the lock. -/
structure ReadersWriter (Thread : Type*) where
  readers : Set Thread
  writer : Option Thread

namespace ReadersWriter

variable {Thread : Type*} {l l' : ReadersWriter Thread} {t u : Thread}

/-- Nobody holds the lock. -/
def free (Thread : Type*) : ReadersWriter Thread := { readers := ∅, writer := none }

/-- The thread holds the lock. -/
def Holds (l : ReadersWriter Thread) (t : Thread) : Prop := t ∈ l.readers ∨ l.writer = some t

/-- A thread gets the lock or gives it back. -/
inductive Move (l : ReadersWriter Thread) : Thread → ReadersWriter Thread → Prop
  | acquire {t : Thread} (noReader : l.readers = ∅) (noWriter : l.writer = none) :
      Move l t { l with writer := some t }
  | release {t : Thread} (held : l.writer = some t) : Move l t { l with writer := none }
  | acquireShared {t : Thread} (noWriter : l.writer = none) (new : t ∉ l.readers) :
      Move l t { l with readers := insert t l.readers }
  | releaseShared {t : Thread} (held : t ∈ l.readers) :
      Move l t { l with readers := l.readers \ {t} }

/-- A writer is alone. -/
def Exclusive (l : ReadersWriter Thread) : Prop := l.writer = none ∨ l.readers = ∅

theorem Exclusive.move (h : l.Exclusive) (hmove : Move l t l') : l'.Exclusive := by
  cases hmove with
  | acquire noReader _ => exact .inr noReader
  | release _ => exact .inl rfl
  | acquireShared noWriter _ => exact .inl noWriter
  | releaseShared held =>
      apply Or.inl
      apply h.resolve_right
      exact Set.nonempty_iff_ne_empty.mp ⟨_, held⟩

theorem exclusive_of_run (run : Reachable Move (free Thread) l) : l.Exclusive :=
  run.invariant (.inl rfl) fun _ _ _ h _ hmove => h.move hmove

/-- A thread that shares the lock keeps every writer out. -/
theorem Exclusive.writer_ne (h : l.Exclusive) (ht : t ∈ l.readers) : l.writer = none :=
  h.resolve_right (Set.nonempty_iff_ne_empty.mp ⟨t, ht⟩)

/-- Where one thread writes, no other holds the lock. -/
theorem Exclusive.unique (h : l.Exclusive) (ht : l.writer = some t) (hu : l.Holds u) : u = t := by
  rcases hu with hu | hu
  · cases (h.writer_ne hu).symm.trans ht
  · exact Option.some.inj (hu.symm.trans ht)

/-- A move decides for its own thread whether it holds the lock, and for no other. -/
theorem Move.holds_iff (hmove : Move l t l') (hne : u ≠ t) : l'.Holds u ↔ l.Holds u := by
  cases hmove with
  | acquire noReader noWriter => simp [Holds, noReader, noWriter, hne.symm]
  | release held => simp [Holds, held, hne.symm]
  | acquireShared _ _ => simp [Holds, hne]
  | releaseShared _ => simp [Holds, hne]

end ReadersWriter

/-- Data behind a lock, what each thread takes it to be (what it found when it got the lock, or
wrote since), and the updates so far. -/
structure GuardedData (Thread σ : Type*) where
  lock : ReadersWriter Thread
  data : σ
  known : Thread → σ
  updates : List (σ → σ)

namespace GuardedData

variable {Thread σ : Type*} {g g' : GuardedData Thread σ} {data : σ}

/-- Data that nobody has locked yet. -/
def unlocked (Thread : Type*) {σ : Type*} (data : σ) : GuardedData Thread σ :=
  { lock := .free Thread, data := data, known := fun _ => data, updates := [] }

variable [DecidableEq Thread]

/-- A thread gets the lock and looks at the data, gives the lock back, or writes what it makes of
the data that it knows. -/
inductive Step (g : GuardedData Thread σ) : Thread → GuardedData Thread σ → Prop
  | lock {t : Thread} {lock : ReadersWriter Thread} (move : ReadersWriter.Move g.lock t lock) :
      Step g t { g with lock := lock, known := Function.update g.known t g.data }
  | write {t : Thread} (held : g.lock.writer = some t) (update : σ → σ) :
      Step g t
        { g with
          data := update (g.known t)
          known := Function.update g.known t (update (g.known t))
          updates := g.updates ++ [update] }

/-- What every holder knows is what the data is, and that is what all updates have made of it. -/
structure Current (data : σ) (g : GuardedData Thread σ) : Prop where
  exclusive : g.lock.Exclusive
  known : ∀ t, g.lock.Holds t → g.known t = g.data
  updated : g.data = g.updates.foldl (fun x update => update x) data

theorem Current.step {t : Thread} (h : g.Current data) (hstep : Step g t g') :
    g'.Current data := by
  cases hstep with
  | lock move =>
      refine ⟨h.exclusive.move move, ?_, h.updated⟩
      intro u hu
      by_cases hut : u = t
      · rw [hut]
        exact Function.update_self ..
      · change Function.update g.known t g.data u = g.data
        rw [Function.update_of_ne hut]
        exact h.known u ((move.holds_iff hut).mp hu)
  | write held update =>
      refine ⟨h.exclusive, ?_, ?_⟩
      · intro u hu
        rw [h.exclusive.unique held hu]
        exact Function.update_self ..
      · change update (g.known t) = _
        rw [h.known t (.inr held), h.updated, List.foldl_append]
        rfl

/-- In every run, what a holder knows is what the data is, and no update is lost. -/
theorem current_of_run (run : Reachable Step (unlocked Thread data) g) : g.Current data := by
  refine run.invariant ⟨.inl rfl, ?_, rfl⟩ fun _ _ _ h _ hstep => h.step hstep
  intro t _
  rfl

end GuardedData

end CommonCommunicator.Lib
