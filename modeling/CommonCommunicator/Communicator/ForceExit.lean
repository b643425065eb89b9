import CommonCommunicator.Lib.GuardedRun
import CommonCommunicator.Protocol.Interface

/-!
# Ending the runner

`init` starts a thread for `run`, which waits in the provider's `accept`. `quit`
detaches the thread, cancels it and waits for the state bit that the cleanup
handler of the thread sets. The handler is only there between
`pthread_cleanup_push` and `pthread_cleanup_pop`: a thread that is cancelled
before or behind them, or has left `run` by itself, never sets the bit. It can
only leave `run` by itself if its provider shares `h_pvd` with a protocol
handler, or there is no provider: the destructor of a provider ends the process.
-/

namespace CommonCommunicator

open Lib

/-- Where a thread stands in `run`. -/
inductive RunPoint
  | entered
  | pushed
  | made
  | accepting
  | leaving
  | popped
  | returned
  | cancelled
  deriving DecidableEq, Repr

namespace RunPoint

/-- Between `pthread_cleanup_push` and `pthread_cleanup_pop`. -/
def handlerPushed : RunPoint → Bool
  | pushed => true
  | made => true
  | accepting => true
  | leaving => true
  | _ => false

/-- The thread has not ended. -/
def alive : RunPoint → Bool
  | returned => false
  | cancelled => false
  | _ => true

theorem alive_of_handlerPushed {point : RunPoint} (h : point.handlerPushed = true) :
    point.alive = true := by
  cases point with
  | pushed => rfl
  | made => rfl
  | accepting => rfl
  | leaving => rfl
  | entered => cases h
  | popped => cases h
  | returned => cases h
  | cancelled => cases h

end RunPoint

/-- A thread that `init` has started, and whether a `pthread_cancel` waits to be acted upon. -/
structure RunnerThread where
  point : RunPoint
  cancelPending : Bool
  deriving DecidableEq, Repr

/-- Where the application stands in `init` and `quit`: outside, before `detach`, before
`pthread_cancel`, or in the waiting loop of `force_exit_thread`. -/
inductive CallerPoint
  | idle
  | quitting
  | detached (id : Nat)
  | waiting (id : Nat)
  deriving DecidableEq, Repr

/-- The provider behind `h_pvd`. `start` sets `started` when it has created the protocol handler,
and the handler shares the ownership of its provider. -/
structure RunnerProvider where
  started : Bool
  deriving DecidableEq, Repr

/-- `ICommunicatorImpl`, as far as its runner is concerned, with the two bits of `state`, and the
threads that it has started. `runner` is the joinable thread, if there is one. -/
structure RunnerControl where
  providerType : ProviderType
  hPvd : Option RunnerProvider
  runnerContinue : Bool
  runner : Option Nat
  exitThread : Bool
  doneForceExit : Bool
  threads : List RunnerThread
  caller : CallerPoint
  deriving DecidableEq, Repr

/-- The steps of the application and of the threads. The last one acts upon a cancellation. -/
inductive RunnerAction
  | init
  | quit
  | detach
  | pthreadCancel
  | getState
  | cleanupPush (id : Nat)
  | makePvd (id : Nat)
  | start (id : Nat) (started : Bool)
  | accept (id : Nat) (res : Bool)
  | cleanupPop (id : Nat)
  | softExit (id : Nat)
  | forceExit (id : Nat)
  deriving DecidableEq, Repr

namespace RunnerControl

/-- A communicator that has been constructed. -/
def create (providerType : ProviderType) : RunnerControl where
  providerType := providerType
  hPvd := none
  runnerContinue := false
  runner := none
  exitThread := false
  doneForceExit := false
  threads := []
  caller := .idle

/-- The provider types that `run` has a case for. -/
def supported : ProviderType → Bool
  | .transTCP => true
  | .transUDP => true
  | .transUdsTCP => true
  | .transUdsUDP => true
  | _ => false

/-- The provider types whose `accept` is the loop of a receiver. -/
def datagram : ProviderType → Bool
  | .transUDP => true
  | .transUdsUDP => true
  | _ => false

/-- What `accept` can return. A provider that has not been started returns false, and a started one
true, unless its receiver throws: then one of TCP throws as well, which terminates the process. -/
def acceptReturns (providerType : ProviderType) (pvd : RunnerProvider) (res : Bool) : Bool :=
  if pvd.started then res || datagram providerType else !res

/-- `init`. Assigning to a joinable thread terminates the process. -/
def init (s : RunnerControl) : Option RunnerControl :=
  if s.caller = .idle ∧ s.runner = none then
    some { s with
      runnerContinue := true
      runner := some s.threads.length
      threads := s.threads ++ [{ point := .entered, cancelPending := false }] }
  else none

/-- `quit`, up to `force_exit_thread`. -/
def quit (s : RunnerControl) : Option RunnerControl :=
  if s.caller = .idle then
    if s.runner = none then some s
    else some { s with runnerContinue := false, caller := .quitting }
  else none

/-- `detach` in `force_exit_thread`. -/
def detach (s : RunnerControl) : Option RunnerControl :=
  match s.caller, s.runner with
  | .quitting, some id => some { s with runner := none, caller := .detached id }
  | _, _ => none

/-- `pthread_cancel`. A thread that has ended takes no notice of it. -/
def pthreadCancel (s : RunnerControl) : Option RunnerControl :=
  match s.caller with
  | .detached id => do
      let thread ← s.threads[id]?
      return { s with
        threads := s.threads.set id { thread with cancelPending := thread.point.alive }
        caller := .waiting id }
  | _ => none

/-- The test of the waiting loop. -/
def getState (s : RunnerControl) : Option RunnerControl :=
  match s.caller with
  | .waiting _ => some (if s.doneForceExit then { s with caller := .idle } else s)
  | _ => none

/-- A step of a thread inside `run`. -/
def moveThread (s : RunnerControl) (id : Nat) (move : RunPoint → Option RunPoint) :
    Option RunnerControl := do
  let thread ← s.threads[id]?
  let point ← move thread.point
  return { s with threads := s.threads.set id { thread with point := point } }

/-- `h_pvd.reset`, also that of an assignment. A provider that no protocol handler shares is
destroyed then: `~IPVDInf` calls `quit`, and `quit` the pure virtual `stop`, which ends the
process. -/
def resetPvd (s : RunnerControl) : Option RunnerControl :=
  if s.hPvd.all RunnerProvider.started then some { s with hPvd := none } else none

/-- The first `h_pvd.reset`, and `pthread_cleanup_push`. -/
def cleanupPush (s : RunnerControl) (id : Nat) : Option RunnerControl := do
  let s ← s.resetPvd
  s.moveThread id fun
    | .entered => some .pushed
    | _ => none

/-- The `switch` over the provider type: the provider is constructed, and its `init`. -/
def makePvd (s : RunnerControl) (id : Nat) : Option RunnerControl :=
  if supported s.providerType then do
    let s ← s.resetPvd
    ({ s with hPvd := some { started := false } } : RunnerControl).moveThread id fun
      | .pushed => some .made
      | _ => none
  else s.moveThread id fun
    | .pushed => some .leaving
    | _ => none

/-- `start` of the provider. -/
def start (s : RunnerControl) (id : Nat) (started : Bool) : Option RunnerControl := do
  let _ ← s.hPvd
  ({ s with hPvd := some { started := started } } : RunnerControl).moveThread id fun
    | .made => some .accepting
    | _ => none

/-- `accept` and the condition of the loop. -/
def accept (s : RunnerControl) (id : Nat) (res : Bool) : Option RunnerControl := do
  let pvd ← s.hPvd
  if acceptReturns s.providerType pvd res then
    s.moveThread id fun
      | .accepting => some (if res && s.runnerContinue then .accepting else .leaving)
      | _ => none
  else none

/-- The last `h_pvd.reset`, and `pthread_cleanup_pop`. -/
def cleanupPop (s : RunnerControl) (id : Nat) : Option RunnerControl := do
  let s ← s.resetPvd
  s.moveThread id fun
    | .leaving => some .popped
    | _ => none

/-- The end of `run`. -/
def softExit (s : RunnerControl) (id : Nat) : Option RunnerControl :=
  ({ s with exitThread := true } : RunnerControl).moveThread id fun
    | .popped => some .returned
    | _ => none

/-- A cancellation is acted upon, wherever the thread stands: a pushed handler,
`cb_force_exit_thread`, sets the bit. -/
def forceExit (s : RunnerControl) (id : Nat) : Option RunnerControl := do
  let thread ← s.threads[id]?
  if thread.cancelPending && thread.point.alive then
    return { s with
      doneForceExit := s.doneForceExit || thread.point.handlerPushed
      threads := s.threads.set id { point := .cancelled, cancelPending := false } }
  else none

def next (s : RunnerControl) : RunnerAction → Option RunnerControl
  | .init => s.init
  | .quit => s.quit
  | .detach => s.detach
  | .pthreadCancel => s.pthreadCancel
  | .getState => s.getState
  | .cleanupPush id => s.cleanupPush id
  | .makePvd id => s.makePvd id
  | .start id started => s.start id started
  | .accept id res => s.accept id res
  | .cleanupPop id => s.cleanupPop id
  | .softExit id => s.softExit id
  | .forceExit id => s.forceExit id

/-- The thread is alive with the cleanup handler pushed and the cancellation pending. -/
def Cancellable (s : RunnerControl) (id : Nat) : Prop :=
  ∃ thread, s.threads[id]? = some thread ∧ thread.point.handlerPushed = true ∧
    thread.cancelPending = true

/-- The waiting loop waits for something that can happen. -/
def Answered (s : RunnerControl) : Prop :=
  ∀ id, s.caller = .waiting id → s.doneForceExit = true ∨ s.Cancellable id

/-- The steps that leave the bit to the handler: as long as it is not set, a thread is only
cancelled while its handler is pushed, and does not pop the handler with the cancellation
pending. -/
def LeavesHandler (s : RunnerControl) : RunnerAction → Prop
  | .pthreadCancel => s.doneForceExit = true ∨ ∀ id, s.caller = .detached id →
      ∃ thread, s.threads[id]? = some thread ∧ thread.point.handlerPushed = true
  | .cleanupPop id => s.doneForceExit = true ∨
      ∀ thread, s.threads[id]? = some thread → thread.cancelPending = false
  | _ => True

/-- The waiting loop waits for something that can happen, and as long as the bit is not set a
thread has a cancellation pending only if the loop waits for this thread. -/
structure Answerable (s : RunnerControl) : Prop where
  waits : s.Answered
  pends : s.doneForceExit = false → ∀ id thread, s.threads[id]? = some thread →
    thread.cancelPending = true → s.caller = .waiting id

variable {s s' : RunnerControl} {id : Nat} {thread thread' : RunnerThread}
  {move : RunPoint → Option RunPoint}

theorem moveThread_eq_some : s.moveThread id move = some s' ↔
    ∃ thread point, s.threads[id]? = some thread ∧ move thread.point = some point ∧
      s' = { s with threads := s.threads.set id { thread with point := point } } := by
  simp only [moveThread, Option.bind_eq_bind, Option.bind_eq_some_iff, Option.pure_def,
    Option.some.injEq]
  constructor
  · rintro ⟨thread, hthread, point, hpoint, rfl⟩
    exact ⟨thread, point, hthread, hpoint, rfl⟩
  · rintro ⟨thread, point, hthread, hpoint, rfl⟩
    exact ⟨thread, hthread, point, hpoint, rfl⟩

theorem resetPvd_eq_some : s.resetPvd = some s' ↔
    s.hPvd.all RunnerProvider.started = true ∧ s' = { s with hPvd := none } := by
  rw [resetPvd]
  split
  · next hshared => simp [hshared, eq_comm]
  · next hshared => simp [hshared]

/-- A provider that has not been started is not survived. -/
theorem resetPvd_unstarted (hpvd : s.hPvd = some { started := false }) : s.resetPvd = none := by
  rw [resetPvd, hpvd]
  rfl

theorem pthreadCancel_eq_some : s.pthreadCancel = some s' ↔
    ∃ id thread, s.caller = .detached id ∧ s.threads[id]? = some thread ∧
      s' = { s with
        threads := s.threads.set id { thread with cancelPending := thread.point.alive }
        caller := .waiting id } := by
  rw [pthreadCancel]
  split
  · next id hcaller =>
      simp only [Option.bind_eq_bind, Option.bind_eq_some_iff, Option.pure_def, Option.some.injEq]
      constructor
      · rintro ⟨thread, hthread, rfl⟩
        exact ⟨id, thread, hcaller, hthread, rfl⟩
      · rintro ⟨id', thread, hcaller', hthread, rfl⟩
        obtain rfl := CallerPoint.detached.inj (hcaller.symm.trans hcaller')
        exact ⟨thread, hthread, rfl⟩
  · next hcaller =>
      constructor
      · intro hnone
        cases hnone
      · rintro ⟨id, thread, hcaller', -⟩
        exact absurd hcaller' (hcaller id)

theorem forceExit_eq_some : s.forceExit id = some s' ↔
    ∃ thread, s.threads[id]? = some thread ∧ thread.cancelPending = true ∧
      thread.point.alive = true ∧
      s' = { s with
        doneForceExit := s.doneForceExit || thread.point.handlerPushed
        threads := s.threads.set id { point := .cancelled, cancelPending := false } } := by
  simp only [forceExit, Option.bind_eq_bind, Option.bind_eq_some_iff, Option.pure_def]
  constructor
  · rintro ⟨thread, hthread, hstep⟩
    split at hstep
    · next hcancel =>
        rw [Bool.and_eq_true] at hcancel
        exact ⟨thread, hthread, hcancel.1, hcancel.2, (Option.some.inj hstep).symm⟩
    · cases hstep
  · rintro ⟨thread, hthread, hpending, halive, rfl⟩
    refine ⟨thread, hthread, ?_⟩
    rw [hpending, halive]
    rfl

/-- The threads after one of them has changed. -/
theorem getElem?_set_thread (hthread : s.threads[id]? = some thread) (j : Nat) :
    (s.threads.set id thread')[j]? = if j = id then some thread' else s.threads[j]? := by
  split
  · next heq =>
      subst heq
      exact List.getElem?_set_self (List.getElem?_eq_some_iff.mp hthread).1
  · next hne => exact List.getElem?_set_ne (Ne.symm hne)

theorem answerable_create (providerType : ProviderType) : (create providerType).Answerable := by
  constructor
  · intro id hwaiting
    cases hwaiting
  · intro _ id thread hthread
    cases hthread

namespace Answerable

/-- A thread that keeps its handler, should a cancellation be pending, keeps everything. -/
theorem moveThread (h : s.Answerable) (hmove : s.moveThread id move = some s')
    (hkeep : s.doneForceExit = false → ∀ thread point, s.threads[id]? = some thread →
      thread.cancelPending = true → thread.point.handlerPushed = true →
        move thread.point = some point → point.handlerPushed = true) : s'.Answerable := by
  obtain ⟨thread, point, hthread, hpoint, rfl⟩ := moveThread_eq_some.mp hmove
  constructor
  · intro j hwaiting
    obtain hdone | ⟨other, hother, hpushed, hpending⟩ := h.waits j hwaiting
    · exact .inl hdone
    · cases hdone : s.doneForceExit with
      | true => exact .inl rfl
      | false =>
          right
          rw [Cancellable, getElem?_set_thread hthread]
          split
          · next heq =>
              subst heq
              obtain rfl := Option.some.inj (hthread.symm.trans hother)
              exact ⟨_, rfl, hkeep hdone thread point hthread hpending hpushed hpoint, hpending⟩
          · exact ⟨other, hother, hpushed, hpending⟩
  · intro hdone j other hother hpending
    rw [getElem?_set_thread hthread] at hother
    split at hother
    · next heq =>
        subst heq
        cases hother
        exact h.pends hdone j thread hthread hpending
    · exact h.pends hdone j other hother hpending

/-- The loop does not wait for the provider. -/
theorem setPvd (h : s.Answerable) (hPvd : Option RunnerProvider) :
    Answerable { s with hPvd := hPvd } := ⟨h.waits, h.pends⟩

theorem resetPvd (h : s.Answerable) (hstep : s.resetPvd = some s') : s'.Answerable := by
  obtain ⟨-, rfl⟩ := resetPvd_eq_some.mp hstep
  exact h.setPvd none

theorem init (h : s.Answerable) (hstep : s.init = some s') : s'.Answerable := by
  rw [RunnerControl.init] at hstep
  split at hstep
  · next hidle =>
      cases hstep
      constructor
      · intro id hwaiting
        cases hidle.1.symm.trans hwaiting
      · intro hdone id thread hthread hpending
        rw [List.getElem?_append] at hthread
        split at hthread
        · exact h.pends hdone id thread hthread hpending
        · obtain rfl := List.mem_singleton.mp (List.mem_of_getElem? hthread)
          cases hpending
  · cases hstep

theorem quit (h : s.Answerable) (hstep : s.quit = some s') : s'.Answerable := by
  rw [RunnerControl.quit] at hstep
  split at hstep
  · next hidle =>
      split at hstep
      · cases hstep
        exact h
      · cases hstep
        constructor
        · intro id hwaiting
          cases hwaiting
        · intro hdone id thread hthread hpending
          cases hidle.symm.trans (h.pends hdone id thread hthread hpending)
  · cases hstep

theorem detach (h : s.Answerable) (hstep : s.detach = some s') : s'.Answerable := by
  rw [RunnerControl.detach] at hstep
  split at hstep
  · next hcaller _ =>
      cases hstep
      constructor
      · intro id hwaiting
        cases hwaiting
      · intro hdone id thread hthread hpending
        cases hcaller.symm.trans (h.pends hdone id thread hthread hpending)
  · cases hstep

/-- A thread that is cancelled with its handler pushed will answer. -/
theorem pthreadCancel (h : s.Answerable) (hleaves : s.LeavesHandler .pthreadCancel)
    (hstep : s.pthreadCancel = some s') : s'.Answerable := by
  obtain ⟨id, thread, hcaller, hthread, rfl⟩ := pthreadCancel_eq_some.mp hstep
  constructor
  · intro j hwaiting
    obtain rfl := CallerPoint.waiting.inj hwaiting
    obtain hdone | hpushed := hleaves
    · exact .inl hdone
    · obtain ⟨other, hother, hpushed⟩ := hpushed id hcaller
      obtain rfl := Option.some.inj (hthread.symm.trans hother)
      right
      rw [Cancellable, getElem?_set_thread hthread, if_pos rfl]
      exact ⟨_, rfl, hpushed, RunPoint.alive_of_handlerPushed hpushed⟩
  · intro hdone j other hother hpending
    rw [getElem?_set_thread hthread] at hother
    split at hother
    · next heq => rw [heq]
    · cases hcaller.symm.trans (h.pends hdone j other hother hpending)

theorem getState (h : s.Answerable) (hstep : s.getState = some s') : s'.Answerable := by
  rw [RunnerControl.getState] at hstep
  split at hstep
  · split at hstep
    · next hdone =>
        cases hstep
        constructor
        · intro id hwaiting
          cases hwaiting
        · intro hundone
          cases hdone.symm.trans hundone
    · cases hstep
      exact h
  · cases hstep

/-- The handler sets the bit. -/
theorem forceExit (h : s.Answerable) (hstep : s.forceExit id = some s') :
    s'.Answerable := by
  obtain ⟨thread, hthread, hpending, -, rfl⟩ := forceExit_eq_some.mp hstep
  have hdone : (s.doneForceExit || thread.point.handlerPushed) = true := by
    cases hundone : s.doneForceExit with
    | true => rfl
    | false =>
        obtain hdone | ⟨other, hother, hpushed, -⟩ :=
          h.waits id (h.pends hundone id thread hthread hpending)
        · cases hundone.symm.trans hdone
        · obtain rfl := Option.some.inj (hthread.symm.trans hother)
          exact hpushed
  constructor
  · intro _ _
    exact .inl hdone
  · intro hundone
    cases hdone.symm.trans hundone

theorem cleanupPush (h : s.Answerable) (hstep : s.cleanupPush id = some s') :
    s'.Answerable := by
  obtain ⟨mid, hreset, hmoved⟩ := Option.bind_eq_some_iff.mp hstep
  refine (h.resetPvd hreset).moveThread hmoved fun _ thread point _ _ _ hmove => ?_
  split at hmove
  · cases hmove
    rfl
  · cases hmove

theorem makePvd (h : s.Answerable) (hstep : s.makePvd id = some s') : s'.Answerable := by
  rw [RunnerControl.makePvd] at hstep
  split at hstep
  · obtain ⟨mid, hreset, hmoved⟩ := Option.bind_eq_some_iff.mp hstep
    refine ((h.resetPvd hreset).setPvd _).moveThread hmoved fun _ thread point _ _ _ hmove => ?_
    split at hmove
    · cases hmove
      rfl
    · cases hmove
  · refine h.moveThread hstep fun _ thread point _ _ _ hmove => ?_
    split at hmove
    · cases hmove
      rfl
    · cases hmove

theorem start (h : s.Answerable) {started : Bool} (hstep : s.start id started = some s') :
    s'.Answerable := by
  obtain ⟨pvd, -, hmoved⟩ := Option.bind_eq_some_iff.mp hstep
  refine (h.setPvd _).moveThread hmoved fun _ thread point _ _ _ hmove => ?_
  split at hmove
  · cases hmove
    rfl
  · cases hmove

theorem accept (h : s.Answerable) {res : Bool} (hstep : s.accept id res = some s') :
    s'.Answerable := by
  obtain ⟨pvd, -, hmoved⟩ := Option.bind_eq_some_iff.mp hstep
  split at hmoved
  · refine h.moveThread hmoved fun _ thread point _ _ _ hmove => ?_
    split at hmove
    · cases hmove
      split
      · rfl
      · rfl
    · cases hmove
  · cases hmoved

/-- A thread without a pending cancellation may pop its handler. -/
theorem cleanupPop (h : s.Answerable) (hleaves : s.LeavesHandler (.cleanupPop id))
    (hstep : s.cleanupPop id = some s') : s'.Answerable := by
  obtain ⟨mid, hreset, hmoved⟩ := Option.bind_eq_some_iff.mp hstep
  have hmid := h.resetPvd hreset
  obtain ⟨-, rfl⟩ := resetPvd_eq_some.mp hreset
  refine hmid.moveThread hmoved fun hundone thread point hthread hpending _ _ => ?_
  obtain hdone | hquiet := hleaves
  · cases hundone.symm.trans hdone
  · cases hpending.symm.trans (hquiet thread hthread)

theorem softExit (h : s.Answerable) (hstep : s.softExit id = some s') : s'.Answerable := by
  have hexit : Answerable { s with exitThread := true } := ⟨h.waits, h.pends⟩
  rw [RunnerControl.softExit] at hstep
  refine hexit.moveThread hstep fun _ thread point _ _ hpushed hmove => ?_
  split at hmove
  · next hpoint =>
      rw [hpoint] at hpushed
      cases hpushed
  · cases hmove

/-- Every step that leaves the bit to the handler keeps the loop answerable. -/
theorem next (h : s.Answerable) {a : RunnerAction} (hleaves : s.LeavesHandler a)
    (hstep : s.next a = some s') : s'.Answerable := by
  cases a with
  | init => exact h.init hstep
  | quit => exact h.quit hstep
  | detach => exact h.detach hstep
  | pthreadCancel => exact h.pthreadCancel hleaves hstep
  | getState => exact h.getState hstep
  | cleanupPush id => exact h.cleanupPush hstep
  | makePvd id => exact h.makePvd hstep
  | start id started => exact h.start hstep
  | accept id res => exact h.accept hstep
  | cleanupPop id => exact h.cleanupPop hleaves hstep
  | softExit id => exact h.softExit hstep
  | forceExit id => exact h.forceExit hstep

/-- A thread that is cancelled without its handler does not set the bit. -/
theorem pthreadCancel_lost (hleaves : ¬s.LeavesHandler .pthreadCancel)
    (hstep : s.pthreadCancel = some s') : ¬s'.Answered := by
  obtain ⟨id, thread, hcaller, hthread, rfl⟩ := pthreadCancel_eq_some.mp hstep
  intro hanswered
  apply hleaves
  obtain hdone | ⟨other, hother, hpushed, -⟩ := hanswered id rfl
  · exact .inl hdone
  · right
    intro id' hcaller'
    obtain rfl := CallerPoint.detached.inj (hcaller.symm.trans hcaller')
    rw [getElem?_set_thread hthread, if_pos rfl] at hother
    obtain rfl := Option.some.inj hother
    exact ⟨thread, hthread, hpushed⟩

/-- A thread that pops its handler with a cancellation pending does not set the bit. -/
theorem cleanupPop_lost (h : s.Answerable) (hleaves : ¬s.LeavesHandler (.cleanupPop id))
    (hstep : s.cleanupPop id = some s') : ¬s'.Answered := by
  rw [LeavesHandler, not_or, Classical.not_forall] at hleaves
  obtain ⟨hundone, thread, hpending⟩ := hleaves
  rw [Classical.not_imp, Bool.not_eq_false] at hpending
  obtain ⟨hthread, hpending⟩ := hpending
  have hwaiting := h.pends (Bool.eq_false_iff.mpr hundone) id thread hthread hpending
  obtain ⟨mid, hreset, hmoved⟩ := Option.bind_eq_some_iff.mp hstep
  obtain ⟨-, rfl⟩ := resetPvd_eq_some.mp hreset
  obtain ⟨thread', point, hthread', hpoint, rfl⟩ := moveThread_eq_some.mp hmoved
  intro hanswered
  obtain hdone | ⟨other, hother, hpushed, -⟩ := hanswered id hwaiting
  · exact hundone hdone
  · rw [getElem?_set_thread hthread, if_pos rfl] at hother
    obtain rfl := Option.some.inj hother
    split at hpoint
    · cases hpoint
      cases hpushed
    · cases hpoint

/-- Any other step makes the loop wait for a handler that is not there. -/
theorem lost (h : s.Answerable) {a : RunnerAction} (hleaves : ¬s.LeavesHandler a)
    (hstep : s.next a = some s') : ¬s'.Answered := by
  cases a with
  | pthreadCancel => exact pthreadCancel_lost hleaves hstep
  | cleanupPop id => exact h.cleanupPop_lost hleaves hstep
  | init => exact absurd trivial hleaves
  | quit => exact absurd trivial hleaves
  | detach => exact absurd trivial hleaves
  | getState => exact absurd trivial hleaves
  | cleanupPush id => exact absurd trivial hleaves
  | makePvd id => exact absurd trivial hleaves
  | start id started => exact absurd trivial hleaves
  | accept id res => exact absurd trivial hleaves
  | softExit id => exact absurd trivial hleaves
  | forceExit id => exact absurd trivial hleaves

end Answerable

/-- While the loop waits for something that can happen, the bit is set or the thread can act upon
its cancellation, and that sets the bit. -/
theorem Answered.ends (h : s.Answered) (hwaiting : s.caller = .waiting id) :
    s.doneForceExit = true ∨
      ∃ s', s.next (.forceExit id) = some s' ∧ s'.doneForceExit = true := by
  obtain hdone | ⟨thread, hthread, hpushed, hpending⟩ := h id hwaiting
  · exact .inl hdone
  · right
    refine ⟨_, forceExit_eq_some.mpr ⟨thread, hthread, hpending,
      RunPoint.alive_of_handlerPushed hpushed, rfl⟩, ?_⟩
    rw [hpushed, Bool.or_true]

/-- In every run of `init`, `quit` and the threads, the waiting loop never waits for something
that cannot happen exactly if every step leaves the bit to the handler. -/
theorem answered_iff (providerType : ProviderType) {actions : List RunnerAction}
    {s : RunnerControl} (h : execute RunnerControl.next (create providerType) actions = some s) :
    Along RunnerControl.next Answered (create providerType) actions ↔
      Meets RunnerControl.next LeavesHandler (create providerType) actions := by
  apply along_iff_meets Answerable _ _ _ (answerable_create providerType) h
  · exact fun s hs => hs.waits
  · exact fun s a s' hs hleaves hstep => hs.next hleaves hstep
  · exact fun s a s' hs hleaves hstep => hs.lost hleaves hstep

/-- A datagram server is started, and `quit` is called while it waits in `accept`. -/
def servedThenDetached : List RunnerAction :=
  [.init, .cleanupPush 0, .makePvd 0, .start 0 true, .accept 0 true, .quit, .detach]

/-- The server before it is cancelled. -/
def servedServer : RunnerControl where
  providerType := .transUDP
  hPvd := some { started := true }
  runnerContinue := false
  runner := none
  exitThread := false
  doneForceExit := false
  threads := [{ point := .accepting, cancelPending := false }]
  caller := .detached 0

theorem execute_servedThenDetached :
    execute RunnerControl.next (create .transUDP) servedThenDetached = some servedServer := rfl

/-- A server that is ended while it waits in `accept`. -/
def servedThenQuit : List RunnerAction :=
  servedThenDetached ++ [.pthreadCancel, .forceExit 0, .getState]

theorem servedThenQuit_answered :
    ∃ s, execute RunnerControl.next (create .transUDP) servedThenQuit = some s ∧
      s.caller = .idle ∧
      Along RunnerControl.next Answered (create .transUDP) servedThenQuit := by
  have hrun := execute_append [.pthreadCancel, .forceExit 0, .getState] execute_servedThenDetached
  refine ⟨_, hrun, rfl, (answered_iff .transUDP hrun).mpr ?_⟩
  refine (Meets.of_forall ?_ _).append execute_servedThenDetached ⟨Or.inr ?_, trivial, trivial,
    trivial⟩
  · simp [servedThenDetached, LeavesHandler]
  · intro id hcaller
    obtain rfl := CallerPoint.detached.inj hcaller
    exact ⟨_, rfl, rfl⟩

/-- A datagram server of an application without callbacks: the receiver throws when it is to call
the one for the start and again when it is to call the one for the end, `accept` returns false, and
`run` ends by itself, before `quit`. -/
def uncalledThenQuit : List RunnerAction :=
  [.init, .cleanupPush 0, .makePvd 0, .start 0 true, .accept 0 false, .cleanupPop 0, .softExit 0,
    .quit, .detach, .pthreadCancel]

/-- The server that `quit` waits for. -/
def endedServer : RunnerControl where
  providerType := .transUDP
  hPvd := none
  runnerContinue := false
  runner := none
  exitThread := true
  doneForceExit := false
  threads := [{ point := .returned, cancelPending := false }]
  caller := .waiting 0

/-- `quit` waits for a thread that has ended. -/
theorem uncalledThenQuit_not_answered :
    ¬∀ (providerType : ProviderType) (actions : List RunnerAction) (s : RunnerControl),
      execute RunnerControl.next (create providerType) actions = some s →
        Along RunnerControl.next Answered (create providerType) actions := by
  intro hall
  have hrun : execute RunnerControl.next (create .transUDP) uncalledThenQuit =
      some endedServer := rfl
  obtain hdone | ⟨thread, hthread, hpushed, -⟩ :=
    (hall .transUDP uncalledThenQuit endedServer hrun).last hrun 0 rfl
  · cases hdone
  · obtain rfl := Option.some.inj hthread
    cases hpushed

/-- The same with a provider type that `run` has no case for. -/
example : execute RunnerControl.next (create .serviceVsomeip)
    [.init, .cleanupPush 0, .makePvd 0, .cleanupPop 0, .softExit 0, .quit, .detach,
      .pthreadCancel] = some { endedServer with providerType := .serviceVsomeip } := rfl

/-- A server whose address cannot be bound does not come that far. -/
example : execute RunnerControl.next (create .transUDP)
    [.init, .cleanupPush 0, .makePvd 0, .start 0 false, .accept 0 false, .cleanupPop 0] =
      none := rfl

end RunnerControl

end CommonCommunicator
