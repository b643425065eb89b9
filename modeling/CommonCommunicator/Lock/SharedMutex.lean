import CommonCommunicator.Base.Outcome
import CommonCommunicator.Lib.Census
import CommonCommunicator.Lib.GuardedRun
import CommonCommunicator.Lib.WaitSets
import Mathlib.Data.Fintype.Pi

/-!
# The shared mutex

`__shared_mutex_cv` of `shared_mutex_kes.h` keeps a flag and a number of readers in one word. The
flag is set by the writer that has the lock or is next to get it; it closes the first gate, and at
the second gate this writer waits until the readers have left. Every function runs under `_M_mut`,
which a wait gives back, so that a step is what a thread does between two waits.

A thread locks only when it holds nothing, and unlocks what it holds, as the functions require.
-/

namespace CommonCommunicator

open Lib

/-- `_M_gate1` and `_M_gate2`. -/
inductive Gate
  | gate1
  | gate2
deriving DecidableEq, Repr

/-- Where a thread is with the mutex: in one of the waits of `lock`, in the wait of `lock_shared`,
or behind them. -/
inductive LockPoint
  | outside
  | entering
  | queued
  | exclusive
  | enteringShared
  | shared
deriving DecidableEq, Repr

namespace LockPoint

/-- The gate of the wait. -/
def gate : LockPoint → Option Gate
  | entering => some .gate1
  | enteringShared => some .gate1
  | queued => some .gate2
  | _ => none

/-- The thread has set the flag. -/
def Marked (point : LockPoint) : Prop := point = queued ∨ point = exclusive

instance : DecidablePred Marked := fun point =>
  inferInstanceAs (Decidable (point = queued ∨ point = exclusive))

end LockPoint

/-- `__shared_mutex_cv`, with the threads that use it. -/
structure SharedMutexCv (Thread : Type) where
  mState : UInt32
  point : Thread → LockPoint
  waits : WaitSets Thread Gate

namespace SharedMutexCv

/-- `_S_write_entered`. -/
def writeEnteredBit : UInt32 := (1 : UInt32) <<< (4 * 8 - 1)

/-- `_S_max_readers`. -/
def maxReaders : UInt32 := ~~~writeEnteredBit

variable {Thread : Type}

/-- The constructor. -/
def create (Thread : Type) : SharedMutexCv Thread :=
  { mState := 0, point := fun _ => .outside, waits := .empty }

/-- `_M_write_entered`. -/
def writeEntered (s : SharedMutexCv Thread) : Prop := s.mState &&& writeEnteredBit ≠ 0

instance (s : SharedMutexCv Thread) : Decidable s.writeEntered :=
  inferInstanceAs (Decidable (_ ≠ _))

/-- `_M_readers`. -/
def readers (s : SharedMutexCv Thread) : UInt32 := s.mState &&& maxReaders

variable [DecidableEq Thread]

/-- The thread goes on. -/
def moveTo (s : SharedMutexCv Thread) (t : Thread) (point : LockPoint) : SharedMutexCv Thread :=
  { s with point := Function.update s.point t point }

/-- The thread begins to wait. -/
def waitAt (s : SharedMutexCv Thread) (t : Thread) (point : LockPoint) (gate : Gate) :
    SharedMutexCv Thread :=
  { s with
    point := Function.update s.point t point
    waits := PartialMap.insert s.waits t gate }

/-- The second wait of `lock`: it ends when there are no more readers. -/
def passGate2 (s : SharedMutexCv Thread) (t : Thread) : SharedMutexCv Thread :=
  if s.readers = 0 then s.moveTo t .exclusive else s.waitAt t .queued .gate2

/-- The first wait of `lock`, behind which the thread sets the flag. -/
def passGate1 (s : SharedMutexCv Thread) (t : Thread) : SharedMutexCv Thread :=
  if s.writeEntered then s.waitAt t .entering .gate1
  else passGate2 { s with mState := s.mState ||| writeEnteredBit } t

/-- The wait of `lock_shared`, behind which the thread counts itself. -/
def passShared (s : SharedMutexCv Thread) (t : Thread) : SharedMutexCv Thread :=
  if s.mState < maxReaders then { s with mState := s.mState + 1 }.moveTo t .shared
  else s.waitAt t .enteringShared .gate1

/-- `try_lock`, with what `try_to_lock` says. -/
def tryLock (s : SharedMutexCv Thread) (t : Thread) (ownsLock : Bool) : SharedMutexCv Thread :=
  if ownsLock = true ∧ s.mState = 0 then { s with mState := writeEnteredBit }.moveTo t .exclusive
  else s

/-- `unlock`. -/
def unlock (s : SharedMutexCv Thread) (t : Thread) : Outcome (SharedMutexCv Thread) := do
  assertThat s.writeEntered
  return { s.moveTo t .outside with mState := 0, waits := s.waits.notifyAll .gate1 }

/-- `try_lock_shared`, with what `try_to_lock` says. -/
def tryLockShared (s : SharedMutexCv Thread) (t : Thread) (ownsLock : Bool) :
    SharedMutexCv Thread :=
  if ownsLock = true ∧ s.mState < maxReaders then
    { s with mState := s.mState + 1 }.moveTo t .shared
  else s

variable [Fintype Thread]

/-- The notifications of `unlock_shared`, after the thread has left. -/
def wakeNext (s : SharedMutexCv Thread) (prev : UInt32) (woken : Option Thread) :
    Option (SharedMutexCv Thread) :=
  if s.writeEntered then
    if s.readers = 0 then (s.waits.notifyOne .gate2 woken).map ({ s with waits := · })
    else some s
  else if prev = maxReaders then (s.waits.notifyOne .gate1 woken).map ({ s with waits := · })
  else some s

/-- `unlock_shared`; `woken` is the choice of `notify_one`. -/
def unlockShared (s : SharedMutexCv Thread) (t : Thread) (woken : Option Thread) :
    Option (Outcome (SharedMutexCv Thread)) :=
  if 0 < s.readers then
    (wakeNext ({ s with mState := s.mState - 1 }.moveTo t .outside) s.mState woken).map .ok
  else some (.error .assertion)

/-- The wait of a thread ends, and it checks its condition. -/
def resume (s : SharedMutexCv Thread) (t : Thread) : Option (SharedMutexCv Thread) :=
  match s.point t with
  | .entering => some (s.passGate1 t)
  | .queued => some (s.passGate2 t)
  | .enteringShared => some (s.passShared t)
  | _ => none

/-- What a thread does under `_M_mut`. -/
inductive Action (Thread : Type)
  | lock (t : Thread)
  | tryLock (t : Thread) (ownsLock : Bool)
  | unlock (t : Thread)
  | lockShared (t : Thread)
  | tryLockShared (t : Thread) (ownsLock : Bool)
  | unlockShared (t : Thread) (woken : Option Thread)
  | resume (t : Thread)
  | spuriousWake (t : Thread)

/-- One step, if the thread is where the step begins: the state behind it or a failed assertion. A
thread resumes when it has been notified or has woken up for no reason. -/
def next (s : SharedMutexCv Thread) : Action Thread → Option (Outcome (SharedMutexCv Thread))
  | .lock t => if s.point t = .outside then some (.ok (s.passGate1 t)) else none
  | .tryLock t ownsLock =>
      if s.point t = .outside then some (.ok (s.tryLock t ownsLock)) else none
  | .unlock t => if s.point t = .exclusive then some (s.unlock t) else none
  | .lockShared t => if s.point t = .outside then some (.ok (s.passShared t)) else none
  | .tryLockShared t ownsLock =>
      if s.point t = .outside then some (.ok (s.tryLockShared t ownsLock)) else none
  | .unlockShared t woken => if s.point t = .shared then s.unlockShared t woken else none
  | .resume t => if s.waits t = none then (s.resume t).map .ok else none
  | .spuriousWake t =>
      if s.waits t = none then none else some (.ok { s with waits := PartialMap.erase s.waits t })

/-- The steps as a relation. -/
def Step (s : SharedMutexCv Thread) (a : Action Thread) (s' : SharedMutexCv Thread) : Prop :=
  next s a = some (.ok s')

instance : DecidableEq (SharedMutexCv Thread) := fun s s' =>
  decidable_of_iff (s.mState = s'.mState ∧ s.point = s'.point ∧ ∀ t, s.waits t = s'.waits t) <| by
    cases s
    cases s'
    simp [funext_iff]

instance (s s' : SharedMutexCv Thread) (a : Action Thread) : Decidable (Step s a s') :=
  match h : next s a with
  | some (.ok r) => decidable_of_iff (r = s') (by simp [Step, h])
  | some (.error f) => .isFalse (by simp [Step, h])
  | none => .isFalse (by simp [Step, h])

end SharedMutexCv

end CommonCommunicator
