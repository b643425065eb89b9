import CommonCommunicator.Lib.GuardedRun
import CommonCommunicator.Lib.PartialMap
import Mathlib.Data.List.Basic

/-!
# The thread pool

`CThreadPool` has one queue of jobs and one list of idle worker threads, each
behind a mutex of its own. A step of the pool is one of the sections that run
under a mutex; between them the threads interleave freely, and a waiting worker
may also wake up for no reason. Nothing destroys the pool here.
-/

namespace CommonCommunicator

/-- `CThreadPool::STATE`. -/
inductive LooperState
  | notCreated
  | exit
  | busy
  | idle
deriving DecidableEq, Repr

/-- Where a worker stands in `run_routin`: at the head of its loop, before `push_looper` and the
wait, in the wait, or behind the loop. -/
inductive LooperPoint
  | head
  | announcing
  | waiting
  | ended
deriving DecidableEq, Repr

/-- `OpenLOOPER`, one worker thread. -/
structure OpenLooper (Job : Type) where
  point : LooperPoint
  state : LooperState
  isJob : Bool
  runFunc : Option Job

namespace OpenLooper

variable {Job : Type}

/-- A worker that has just entered `run_routin`; its constructor does not return earlier. -/
def started : OpenLooper Job := { point := .head, state := .busy, isJob := false, runFunc := none }

/-- The worker holds its `_mtx_wake_`, which it gives back in the wait and at its end only. -/
def HoldsWake (looper : OpenLooper Job) : Prop := looper.point = .head ∨ looper.point = .announcing

instance (looper : OpenLooper Job) : Decidable looper.HoldsWake := inferInstanceAs (Decidable (_ ∨ _))

/-- The worker is in its wait and nobody has woken it. -/
def Parked (looper : OpenLooper Job) : Prop := looper.point = .waiting ∧ looper.state = .idle

instance (looper : OpenLooper Job) : Decidable looper.Parked := inferInstanceAs (Decidable (_ ∧ _))

end OpenLooper

/-- A call of `run_thread`: its job is in the queue, or it has picked a worker to trigger. -/
inductive RunThread
  | pushed (runImmediatly : Bool)
  | picked (looper : Nat)
deriving DecidableEq, Repr

/-- `CThreadPool`, with the calls of `run_thread` that are in progress. A worker's thread id is its
place in `_thr_map_`, and producers are numbered. -/
structure CThreadPool (Job : Type) where
  thrMap : List (OpenLooper Job)
  idlesList : List Nat
  qRunfunc : List Job
  calls : Lib.PartialMap Nat RunThread

namespace CThreadPool

variable {Job : Type}

/-- The pool with `thrMaxCnt` workers that have just been started. -/
def create (Job : Type) (thrMaxCnt : Nat) : CThreadPool Job :=
  { thrMap := List.replicate thrMaxCnt .started, idlesList := [], qRunfunc := [], calls := .empty }

def setLooper (pool : CThreadPool Job) (id : Nat) (looper : OpenLooper Job) : CThreadPool Job :=
  { pool with thrMap := pool.thrMap.set id looper }

/-- `pop_runfunc`. -/
def popRunfunc (pool : CThreadPool Job) : Option Job × CThreadPool Job :=
  match pool.qRunfunc with
  | [] => (none, pool)
  | runFunc :: queue => (some runFunc, { pool with qRunfunc := queue })

/-- `run_thread` begins with `push_runfunc`. -/
def pushRunfunc (pool : CThreadPool Job) (caller : Nat) (runFunc : Job) (runImmediatly : Bool) :
    Option (CThreadPool Job) :=
  match pool.calls caller with
  | some _ => none
  | none => some { pool with
      qRunfunc := pool.qRunfunc ++ [runFunc]
      calls := pool.calls.insert caller (.pushed runImmediatly) }

/-- The section of `run_thread` under `mtx_map_list`: it takes the first idle worker off the list,
or creates one if it may; otherwise it throws, which ends the call. -/
def pickLooper (pool : CThreadPool Job) (caller : Nat) : Option (CThreadPool Job) :=
  match pool.calls caller with
  | some (.pushed runImmediatly) =>
      match pool.idlesList with
      | id :: _ =>
          if id < pool.thrMap.length then
            some { pool with
              idlesList := pool.idlesList.filter (· ≠ id)
              calls := pool.calls.insert caller (.picked id) }
          else some { pool with calls := pool.calls.erase caller }
      | [] =>
          if runImmediatly then
            some { pool with
              thrMap := pool.thrMap ++ [.started]
              calls := pool.calls.insert caller (.picked pool.thrMap.length) }
          else some { pool with calls := pool.calls.erase caller }
  | _ => none

/-- `trig_run_func` on the picked worker, which ends the call. It waits for `_mtx_wake_` if the
state is `IDLE`. -/
def trigRunFunc (pool : CThreadPool Job) (caller : Nat) : Option (CThreadPool Job) :=
  match pool.calls caller with
  | some (.picked id) =>
      match pool.thrMap[id]? with
      | none => none
      | some looper =>
          let done := { pool with calls := pool.calls.erase caller }
          if looper.state ≠ .idle then some done
          else if looper.HoldsWake then none
          else match done.popRunfunc with
            | (some runFunc, done) => some (done.setLooper id
                { looper with runFunc := some runFunc, isJob := true, state := .busy })
            | (none, done) => some (done.setLooper id { looper with runFunc := none })
  | _ => none

/-- One turn of the loop in `run_routin`. A job that throws ends the thread. -/
def runRoutin (throws : Job → Bool) (pool : CThreadPool Job) (id : Nat) :
    Option (CThreadPool Job) :=
  match pool.thrMap[id]? with
  | none => none
  | some looper =>
      if looper.point ≠ .head then none
      else match looper.state with
        | .idle =>
            match pool.popRunfunc with
            | (some runFunc, pool) => some (pool.setLooper id
                { looper with runFunc := some runFunc, state := .busy, isJob := true })
            | (none, pool) => some (pool.setLooper id
                { looper with runFunc := none, point := .announcing })
        | .busy =>
            if looper.isJob then
              match looper.runFunc with
              | none => some (pool.setLooper id { looper with point := .ended })
              | some job =>
                  if throws job then some (pool.setLooper id { looper with point := .ended })
                  else match pool.popRunfunc with
                    | (some runFunc, pool) => some (pool.setLooper id
                        { looper with runFunc := some runFunc })
                    | (none, pool) => some (pool.setLooper id
                        { looper with runFunc := none, isJob := false })
            else some (pool.setLooper id { looper with state := .idle })
        | .exit => some (pool.setLooper id { looper with state := .exit, point := .ended })
        | .notCreated => some (pool.setLooper id { looper with state := .exit, point := .ended })

/-- `push_looper` and the wait, which gives `_mtx_wake_` back. -/
def pushLooper (pool : CThreadPool Job) (id : Nat) : Option (CThreadPool Job) :=
  match pool.thrMap[id]? with
  | none => none
  | some looper =>
      if looper.point ≠ .announcing then none
      else some { pool.setLooper id { looper with point := .waiting } with
        idlesList := pool.idlesList ++ [id] }

/-- The wait returns, after a notification or spuriously. -/
def wakeUp (pool : CThreadPool Job) (id : Nat) : Option (CThreadPool Job) :=
  match pool.thrMap[id]? with
  | none => none
  | some looper =>
      if looper.point ≠ .waiting then none
      else some (pool.setLooper id { looper with point := .head })

/-- The steps of producers and workers. -/
inductive Action (Job : Type)
  | pushRunfunc (caller : Nat) (runFunc : Job) (runImmediatly : Bool)
  | pickLooper (caller : Nat)
  | trigRunFunc (caller : Nat)
  | runRoutin (id : Nat)
  | pushLooper (id : Nat)
  | wakeUp (id : Nat)

/-- One step of the pool, if the thread that makes it is where the step begins. -/
def next (throws : Job → Bool) (pool : CThreadPool Job) : Action Job → Option (CThreadPool Job)
  | .pushRunfunc caller runFunc runImmediatly => pool.pushRunfunc caller runFunc runImmediatly
  | .pickLooper caller => pool.pickLooper caller
  | .trigRunFunc caller => pool.trigRunFunc caller
  | .runRoutin id => runRoutin throws pool id
  | .pushLooper id => pool.pushLooper id
  | .wakeUp id => pool.wakeUp id

/-- The steps as a relation. -/
def Step (throws : Job → Bool) (pool : CThreadPool Job) (a : Action Job)
    (pool' : CThreadPool Job) : Prop := next throws pool a = some pool'

/-- The worker with this id is parked. -/
def Parked (pool : CThreadPool Job) (id : Nat) : Prop :=
  ∃ looper, pool.thrMap[id]? = some looper ∧ looper.Parked

/-- A call of `run_thread` has picked this worker and will trigger it. -/
def Picked (pool : CThreadPool Job) (id : Nat) : Prop :=
  ∃ caller, pool.calls caller = some (.picked id)

/-- Some call of `run_thread` is in progress. -/
def InProgress (pool : CThreadPool Job) : Prop := ∃ caller, pool.calls caller ≠ none

/-- Jobs are queued, no call of `run_thread` is in progress and every worker is parked. -/
def Stranded (pool : CThreadPool Job) : Prop :=
  pool.qRunfunc ≠ [] ∧ (∀ caller, pool.calls caller = none) ∧
    ∀ looper ∈ pool.thrMap, looper.Parked

/-- Storing a worker decides whether that worker is parked, and no other. -/
theorem parked_of_set {pool pool' : CThreadPool Job} {id : Nat} {looper : OpenLooper Job}
    (h : pool'.thrMap = pool.thrMap.set id looper) (id' : Nat) :
    pool'.Parked id' ↔
      if id' = id then id < pool.thrMap.length ∧ looper.Parked else pool.Parked id' := by
  by_cases hid : id' = id
  · subst hid
    by_cases hlt : id' < pool.thrMap.length
    · simp [Parked, h, hlt]
    · simp [Parked, h, hlt]
  · simp [Parked, h, List.getElem?_set_ne (Ne.symm hid), hid]

end CThreadPool

end CommonCommunicator
