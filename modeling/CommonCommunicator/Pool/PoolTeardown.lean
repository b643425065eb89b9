import CommonCommunicator.Lib.GuardedRun
import CommonCommunicator.Pool.ThreadPool

/-!
# Destroying a thread pool

`~CThreadPool` keeps `mtx_map_list` while it erases its workers. Erasing one of
them runs `~OpenLOOPER`, which takes the `_mtx_wake_` of the worker, once or
twice, and may join its thread. The workers take the mutexes in the other order:
an idle worker calls `push_looper`, which takes `mtx_map_list`, with its
`_mtx_wake_` in its hands. Both mutexes have explicit owners here, and every
access to `_state_` that the destructor makes without a mutex is a step of its own.
-/

namespace CommonCommunicator

open Lib

/-- The threads that can own a mutex of the pool. -/
inductive PoolThread
  | destructor
  | worker (id : Nat)
deriving DecidableEq, Repr

/-- Where a worker stands in `run_routin`: at the head of its loop, before `pop_runfunc` of the idle
case, in the busy case, behind the loop, in `push_looper` before and behind its lock, before and in
the wait, or behind its end. -/
inductive WorkerPoint
  | head
  | loading
  | working
  | leaving
  | announcing
  | listing
  | announced
  | waiting
  | ended
deriving DecidableEq, Repr

namespace WorkerPoint

/-- The points at which a worker holds its `_mtx_wake_`. -/
def inLoop : WorkerPoint → Bool
  | waiting => false
  | ended => false
  | _ => true

/-- The points from which a worker whose state is `EXIT` reaches its end. -/
def canLeave : WorkerPoint → Bool
  | head => true
  | leaving => true
  | waiting => true
  | ended => true
  | _ => false

/-- The case of the `switch`, or the end of the loop. -/
def ofState : LooperState → WorkerPoint
  | .idle => loading
  | .busy => working
  | .exit => leaving
  | .notCreated => leaving

/-- A point of a worker whose mutexes are not modelled. -/
def ofPoint : LooperPoint → WorkerPoint
  | .head => head
  | .announcing => announcing
  | .waiting => waiting
  | .ended => ended

/-- The point of a worker whose mutexes are not modelled. -/
def toPoint : WorkerPoint → LooperPoint
  | head => .head
  | loading => .head
  | working => .head
  | leaving => .head
  | announcing => .announcing
  | listing => .announcing
  | announced => .waiting
  | waiting => .waiting
  | ended => .ended

/-- Between the `switch` and the next access to `_state_`. -/
def isCase : WorkerPoint → Bool
  | loading => true
  | working => true
  | leaving => true
  | _ => false

theorem toPoint_ofPoint (point : LooperPoint) : (ofPoint point).toPoint = point := by
  cases point with
  | head => rfl
  | announcing => rfl
  | waiting => rfl
  | ended => rfl

theorem toPoint_ofState (state : LooperState) : (ofState state).toPoint = .head := by
  cases state with
  | notCreated => rfl
  | exit => rfl
  | busy => rfl
  | idle => rfl

theorem ofState_eq_loading {state : LooperState} (h : ofState state = loading) :
    state = .idle := by
  cases state with
  | idle => rfl
  | busy => cases h
  | exit => cases h
  | notCreated => cases h

theorem ofState_eq_working {state : LooperState} (h : ofState state = working) :
    state = .busy := by
  cases state with
  | busy => rfl
  | idle => cases h
  | exit => cases h
  | notCreated => cases h

theorem ofState_eq_leaving {state : LooperState} (h : ofState state = leaving) :
    state = .exit ∨ state = .notCreated := by
  cases state with
  | exit => exact .inl rfl
  | notCreated => exact .inr rfl
  | idle => cases h
  | busy => cases h

theorem ofPoint_isCase (point : LooperPoint) : (ofPoint point).isCase = false := by
  cases point with
  | head => rfl
  | announcing => rfl
  | waiting => rfl
  | ended => rfl

theorem ofState_ne_listing (state : LooperState) : ofState state ≠ listing := by
  cases state with
  | notCreated => decide
  | exit => decide
  | busy => decide
  | idle => decide

theorem ofState_ne_announcing (state : LooperState) : ofState state ≠ announcing := by
  cases state with
  | notCreated => decide
  | exit => decide
  | busy => decide
  | idle => decide

theorem ofPoint_ne_listing (point : LooperPoint) : ofPoint point ≠ listing := by
  cases point with
  | head => decide
  | announcing => decide
  | waiting => decide
  | ended => decide

theorem ofPoint_inLoop {point : LooperPoint} (h : (ofPoint point).inLoop = true) :
    point = .head ∨ point = .announcing := by
  cases point with
  | head => exact .inl rfl
  | announcing => exact .inr rfl
  | waiting => cases h
  | ended => cases h

theorem canLeave_of_not_inLoop {point : WorkerPoint} (h : point.inLoop ≠ true) :
    point.canLeave = true := by
  cases point with
  | waiting => rfl
  | ended => rfl
  | head => rfl
  | leaving => rfl
  | loading => exact absurd rfl h
  | working => exact absurd rfl h
  | announcing => exact absurd rfl h
  | listing => exact absurd rfl h
  | announced => exact absurd rfl h

end WorkerPoint

/-- `OpenLOOPER` with the owner of its `_mtx_wake_`. -/
structure LockedLooper (Job : Type) where
  point : WorkerPoint
  state : LooperState
  isJob : Bool
  runFunc : Option Job
  joinable : Bool
  mtxWake : Option PoolThread

/-- Where `~OpenLOOPER` stands: before and behind the lock of `_mtx_wake_`, in `join`, before
`detach`, and before `clear` and the lock in it. -/
inductive LooperTeardown
  | lockingWake
  | holdingWake
  | joining
  | detaching
  | clearing
  | lockingClear
deriving DecidableEq, Repr

/-- Where `~CThreadPool` stands. -/
inductive DestructorPoint
  | outside
  | erasing
  | destroying (id : Nat) (point : LooperTeardown)
  | done
deriving DecidableEq, Repr

/-- The points at which the destructor holds `mtx_map_list`. -/
def DestructorPoint.inside : DestructorPoint → Bool
  | erasing => true
  | destroying _ _ => true
  | _ => false

/-- `CThreadPool` while it is destroyed. A worker's thread id is its place in `_thr_map_`; a worker
that is destroyed leaves its place empty. -/
structure PoolTeardown (Job : Type) where
  thrMap : List (Option (LockedLooper Job))
  idlesList : List Nat
  qRunfunc : List Job
  mtxMapList : Option PoolThread
  destructor : DestructorPoint

/-- The steps of a worker, between two accesses to what it shares. -/
inductive WorkerAction
  | wakeUp
  | turn
  | load
  | work
  | leave
  | lockMapList
  | pushBack
  | wait
deriving DecidableEq, Repr

/-- The steps of the destructor. -/
inductive DestructorAction
  | destroy
  | erase (id : Nat)
  | lockWake
  | inspect
  | join
  | detach
  | beginClear
  | clear
  | unlock
deriving DecidableEq, Repr

inductive TeardownAction
  | worker (id : Nat) (a : WorkerAction)
  | destructor (a : DestructorAction)
deriving DecidableEq, Repr

namespace LockedLooper

variable {Job : Type}

/-- `~OpenLOOPER` takes `_mtx_wake_` first of all. -/
def takesWake (looper : LockedLooper Job) : Bool :=
  (looper.state = .busy || looper.state = .idle) && looper.joinable

/-- The worker leaves `run_routin`, which gives `_mtx_wake_` back. -/
def finish (looper : LockedLooper Job) : LockedLooper Job :=
  { looper with point := .ended, mtxWake := none }

/-- The worker without its mutexes. -/
def toLooper (looper : LockedLooper Job) : OpenLooper Job where
  point := looper.point.toPoint
  state := looper.state
  isJob := looper.isJob
  runFunc := looper.runFunc

/-- The state is still the one that the worker has read. -/
def Undisturbed (looper : LockedLooper Job) : Prop :=
  looper.point.isCase = true → looper.point = .ofState looper.state

/-- A worker of a pool whose mutexes are not modelled. -/
def ofLooper (id : Nat) (looper : OpenLooper Job) : LockedLooper Job where
  point := .ofPoint looper.point
  state := looper.state
  isJob := looper.isJob
  runFunc := looper.runFunc
  joinable := true
  mtxWake := if looper.HoldsWake then some (.worker id) else none

theorem toLooper_ofLooper (id : Nat) (looper : OpenLooper Job) :
    (ofLooper id looper).toLooper = looper := by
  rw [toLooper, ofLooper, WorkerPoint.toPoint_ofPoint]

end LockedLooper

namespace PoolTeardown

variable {Job : Type}

/-- A pool of which no call is in progress and the destructor has not been called. -/
def ofPool (pool : CThreadPool Job) : PoolTeardown Job where
  thrMap := pool.thrMap.mapIdx fun id looper => some (.ofLooper id looper)
  idlesList := pool.idlesList
  qRunfunc := pool.qRunfunc
  mtxMapList := none
  destructor := .outside

/-- The worker with this id, as long as its object is there. -/
def looper (s : PoolTeardown Job) (id : Nat) : Option (LockedLooper Job) := s.thrMap[id]?.join

def setLooper (s : PoolTeardown Job) (id : Nat) (looper : LockedLooper Job) : PoolTeardown Job :=
  { s with thrMap := s.thrMap.set id (some looper) }

/-- The object of the worker is gone. -/
def dropLooper (s : PoolTeardown Job) (id : Nat) : PoolTeardown Job :=
  { s with thrMap := s.thrMap.set id none }

/-- The wait returns, after a notification or spuriously, and has `_mtx_wake_` again. -/
def wakeUp (s : PoolTeardown Job) (id : Nat) (looper : LockedLooper Job) :
    Option (PoolTeardown Job) :=
  if looper.point = .waiting ∧ looper.mtxWake = none then
    some (s.setLooper id { looper with point := .head, mtxWake := some (.worker id) })
  else none

/-- The condition of the loop and the `switch` in it. -/
def turn (s : PoolTeardown Job) (id : Nat) (looper : LockedLooper Job) :
    Option (PoolTeardown Job) :=
  if looper.point = .head then
    some (s.setLooper id { looper with point := .ofState looper.state })
  else none

/-- `pop_runfunc` in the idle case. -/
def load (s : PoolTeardown Job) (id : Nat) (looper : LockedLooper Job) :
    Option (PoolTeardown Job) :=
  if looper.point = .loading then
    match s.qRunfunc with
    | runFunc :: queue => some (setLooper { s with qRunfunc := queue } id
        { looper with runFunc := some runFunc, state := .busy, isJob := true, point := .head })
    | [] => some (s.setLooper id { looper with runFunc := none, point := .announcing })
  else none

/-- One turn of the loop in the busy case. A job that throws ends the thread. -/
def work (throws : Job → Bool) (s : PoolTeardown Job) (id : Nat) (looper : LockedLooper Job) :
    Option (PoolTeardown Job) :=
  if looper.point = .working then
    if looper.isJob then
      match looper.runFunc with
      | none => some (s.setLooper id looper.finish)
      | some job =>
          if throws job then some (s.setLooper id looper.finish)
          else match s.qRunfunc with
            | runFunc :: queue => some (setLooper { s with qRunfunc := queue } id
                { looper with runFunc := some runFunc })
            | [] => some (s.setLooper id { looper with runFunc := none, isJob := false })
    else some (s.setLooper id { looper with state := .idle, point := .head })
  else none

/-- The end of `run_routin`. -/
def leave (s : PoolTeardown Job) (id : Nat) (looper : LockedLooper Job) :
    Option (PoolTeardown Job) :=
  if looper.point = .leaving then
    some (s.setLooper id { looper with state := .exit }.finish)
  else none

/-- The lock of `push_looper`. -/
def lockMapList (s : PoolTeardown Job) (id : Nat) (looper : LockedLooper Job) :
    Option (PoolTeardown Job) :=
  if looper.point = .announcing ∧ s.mtxMapList = none then
    some (setLooper { s with mtxMapList := some (.worker id) } id { looper with point := .listing })
  else none

/-- The rest of `push_looper`. -/
def pushBack (s : PoolTeardown Job) (id : Nat) (looper : LockedLooper Job) :
    Option (PoolTeardown Job) :=
  if looper.point = .listing then
    some (setLooper { s with mtxMapList := none, idlesList := s.idlesList ++ [id] } id
      { looper with point := .announced })
  else none

/-- The wait begins and gives `_mtx_wake_` back. -/
def wait (s : PoolTeardown Job) (id : Nat) (looper : LockedLooper Job) :
    Option (PoolTeardown Job) :=
  if looper.point = .announced then
    some (s.setLooper id { looper with point := .waiting, mtxWake := none })
  else none

/-- A step of a worker, if its object is still there. -/
def workerNext (throws : Job → Bool) (s : PoolTeardown Job) (id : Nat) (a : WorkerAction) :
    Option (PoolTeardown Job) := do
  let looper ← s.looper id
  match a with
  | .wakeUp => s.wakeUp id looper
  | .turn => s.turn id looper
  | .load => s.load id looper
  | .work => s.work throws id looper
  | .leave => s.leave id looper
  | .lockMapList => s.lockMapList id looper
  | .pushBack => s.pushBack id looper
  | .wait => s.wait id looper

/-- The lock of `~CThreadPool`. -/
def destroy (s : PoolTeardown Job) : Option (PoolTeardown Job) :=
  if s.destructor = .outside ∧ s.mtxMapList = none then
    some { s with mtxMapList := some .destructor, destructor := .erasing }
  else none

/-- One turn of the loop in `~CThreadPool` erases a worker, in the order of the thread ids, which
is any order. `~OpenLOOPER` begins with what it reads without a mutex. -/
def erase (s : PoolTeardown Job) (id : Nat) : Option (PoolTeardown Job) := do
  let looper ← s.looper id
  if s.destructor = .erasing then
    some { s with
      destructor := .destroying id (if looper.takesWake then .lockingWake else .clearing) }
  else none

/-- A step of `~OpenLOOPER`. -/
def atLooper (s : PoolTeardown Job) (point : LooperTeardown)
    (move : Nat → LockedLooper Job → Option (PoolTeardown Job)) : Option (PoolTeardown Job) :=
  match s.destructor with
  | .destroying id point' => if point' = point then (s.looper id).bind (move id) else none
  | _ => none

/-- The lock of `~OpenLOOPER`. -/
def lockWake (s : PoolTeardown Job) : Option (PoolTeardown Job) :=
  s.atLooper .lockingWake fun id looper =>
    if looper.mtxWake = none then
      some (setLooper { s with destructor := .destroying id .holdingWake } id
        { looper with mtxWake := some .destructor })
    else none

/-- The test under the lock of `~OpenLOOPER`, with `wake` and the unlock. -/
def inspect (s : PoolTeardown Job) : Option (PoolTeardown Job) :=
  s.atLooper .holdingWake fun id looper =>
    if looper.state = .idle then
      some (setLooper { s with destructor := .destroying id .joining } id
        { looper with state := .exit, mtxWake := none })
    else
      some (setLooper { s with destructor := .destroying id .detaching } id
        { looper with mtxWake := none })

/-- `join` returns. -/
def join (s : PoolTeardown Job) : Option (PoolTeardown Job) :=
  s.atLooper .joining fun id looper =>
    if looper.point = .ended then
      some (setLooper { s with destructor := .destroying id .clearing } id
        { looper with joinable := false })
    else none

def detach (s : PoolTeardown Job) : Option (PoolTeardown Job) :=
  s.atLooper .detaching fun id looper =>
    some (setLooper { s with destructor := .destroying id .clearing } id
      { looper with joinable := false })

/-- `clear` begins with the state, without a mutex. -/
def beginClear (s : PoolTeardown Job) : Option (PoolTeardown Job) :=
  s.atLooper .clearing fun id looper =>
    some (setLooper { s with destructor := .destroying id .lockingClear } id
      { looper with state := .notCreated })

/-- The section of `clear` under `_mtx_wake_` and the end of the object. A thread that is still
joinable terminates the process there. -/
def clear (s : PoolTeardown Job) : Option (PoolTeardown Job) :=
  s.atLooper .lockingClear fun id looper =>
    if looper.mtxWake = none ∧ looper.joinable = false then
      some (dropLooper { s with destructor := .erasing } id)
    else none

/-- The end of `~CThreadPool`, when no worker is left. -/
def unlock (s : PoolTeardown Job) : Option (PoolTeardown Job) :=
  if s.destructor = .erasing ∧ s.thrMap.all Option.isNone = true then
    some { s with idlesList := [], thrMap := [], mtxMapList := none, destructor := .done }
  else none

def destructorNext (s : PoolTeardown Job) : DestructorAction → Option (PoolTeardown Job)
  | .destroy => s.destroy
  | .erase id => s.erase id
  | .lockWake => s.lockWake
  | .inspect => s.inspect
  | .join => s.join
  | .detach => s.detach
  | .beginClear => s.beginClear
  | .clear => s.clear
  | .unlock => s.unlock

def next (throws : Job → Bool) (s : PoolTeardown Job) : TeardownAction → Option (PoolTeardown Job)
  | .worker id a => s.workerNext throws id a
  | .destructor a => s.destructorNext a

variable {s s' : PoolTeardown Job} {id : Nat} {looper looper' : LockedLooper Job}
  {throws : Job → Bool}

/-- The workers after one of them has been stored. -/
theorem looper_set {stored : Option (LockedLooper Job)} (hlooper : s.looper id = some looper)
    (hthr : s'.thrMap = s.thrMap.set id stored) (j : Nat) :
    s'.looper j = if j = id then stored else s.looper j := by
  have hlt : id < s.thrMap.length := by
    by_contra hge
    rw [PoolTeardown.looper, List.getElem?_eq_none (Nat.le_of_not_lt hge)] at hlooper
    cases hlooper
  rw [PoolTeardown.looper, hthr]
  split
  · next heq =>
      subst heq
      rw [List.getElem?_set_self hlt, Option.join_some]
  · next hne => rw [List.getElem?_set_ne (Ne.symm hne), PoolTeardown.looper]

theorem looper_ofPool (pool : CThreadPool Job) (id : Nat) :
    (ofPool pool).looper id = pool.thrMap[id]?.map (.ofLooper id) := by
  rw [PoolTeardown.looper, ofPool, List.getElem?_mapIdx]
  cases pool.thrMap[id]? with
  | none => rfl
  | some opened => rfl

/-- What a worker in the idle case does. -/
theorem load_cases (hstep : s.load id looper = some s') : looper.point = .loading ∧
    ((∃ runFunc queue, s.qRunfunc = runFunc :: queue ∧
        s' = setLooper { s with qRunfunc := queue } id
          { looper with runFunc := some runFunc, state := .busy, isJob := true, point := .head }) ∨
      (s.qRunfunc = [] ∧
        s' = s.setLooper id { looper with runFunc := none, point := .announcing })) := by
  obtain ⟨hloading, hmove⟩ := Option.ite_none_right_eq_some.mp hstep
  refine ⟨hloading, ?_⟩
  split at hmove
  · next runFunc queue hqueue => exact .inl ⟨runFunc, queue, hqueue, (Option.some.inj hmove).symm⟩
  · next hqueue => exact .inr ⟨hqueue, (Option.some.inj hmove).symm⟩

/-- What a worker in the busy case does: it leaves the case, it ends, or it executes its job and
takes the next one, if there is one. -/
theorem work_cases (hstep : s.work throws id looper = some s') : looper.point = .working ∧
    ((looper.isJob = false ∧
        s' = s.setLooper id { looper with state := .idle, point := .head }) ∨
      (looper.isJob = true ∧ (∀ job, looper.runFunc = some job → throws job = true) ∧
        s' = s.setLooper id looper.finish) ∨
      (looper.isJob = true ∧ ∃ job, looper.runFunc = some job ∧ throws job = false ∧
        ((∃ runFunc queue, s.qRunfunc = runFunc :: queue ∧
            s' = setLooper { s with qRunfunc := queue } id
              { looper with runFunc := some runFunc }) ∨
          (s.qRunfunc = [] ∧
            s' = s.setLooper id { looper with runFunc := none, isJob := false })))) := by
  obtain ⟨hworking, hmove⟩ := Option.ite_none_right_eq_some.mp hstep
  refine ⟨hworking, ?_⟩
  split at hmove
  · next hjob =>
      split at hmove
      · next hrun =>
          right; left
          refine ⟨hjob, ?_, (Option.some.inj hmove).symm⟩
          intro job hsome
          cases hrun.symm.trans hsome
      · next job hrun =>
          split at hmove
          · next hthrows =>
              right; left
              refine ⟨hjob, ?_, (Option.some.inj hmove).symm⟩
              intro job' hsome
              obtain rfl := Option.some.inj (hrun.symm.trans hsome)
              exact hthrows
          · next hreturns =>
              right; right
              refine ⟨hjob, job, hrun, Bool.eq_false_iff.mpr hreturns, ?_⟩
              split at hmove
              · next runFunc queue hqueue =>
                  exact .inl ⟨runFunc, queue, hqueue, (Option.some.inj hmove).symm⟩
              · next hqueue => exact .inr ⟨hqueue, (Option.some.inj hmove).symm⟩
  · next hjob =>
      left
      exact ⟨Bool.eq_false_iff.mpr hjob, (Option.some.inj hmove).symm⟩

/-- A step of `~OpenLOOPER` is taken where it begins. -/
theorem atLooper_eq_some {point : LooperTeardown}
    {move : Nat → LockedLooper Job → Option (PoolTeardown Job)}
    (hstep : s.atLooper point move = some s') :
    ∃ id looper, s.destructor = .destroying id point ∧ s.looper id = some looper ∧
      move id looper = some s' := by
  rw [atLooper] at hstep
  split at hstep
  · next id point' hdestructor =>
      split at hstep
      · next hpoint =>
          subst hpoint
          obtain ⟨looper, hlooper, hmove⟩ := Option.bind_eq_some_iff.mp hstep
          exact ⟨id, looper, hdestructor, hlooper, hmove⟩
      · cases hstep
  · cases hstep

/-- A pool that is not destroyed yet, and the pool whose mutexes are not modelled. -/
structure Shows (s : PoolTeardown Job) (pool : CThreadPool Job) : Prop where
  loopers : ∀ id, (s.looper id).map LockedLooper.toLooper = pool.thrMap[id]?
  undisturbed : ∀ id looper, s.looper id = some looper → looper.Undisturbed
  idlesList : s.idlesList = pool.idlesList
  qRunfunc : s.qRunfunc = pool.qRunfunc

theorem shows_ofPool (pool : CThreadPool Job) : (ofPool pool).Shows pool where
  loopers := by
    intro id
    rw [looper_ofPool]
    cases pool.thrMap[id]? with
    | none => rfl
    | some opened =>
        rw [Option.map_some, Option.map_some, LockedLooper.toLooper_ofLooper]
  undisturbed := by
    intro id looper hlooper hcase
    rw [looper_ofPool] at hlooper
    obtain ⟨opened, -, rfl⟩ := Option.map_eq_some_iff.mp hlooper
    cases (WorkerPoint.ofPoint_isCase opened.point).symm.trans hcase
  idlesList := rfl
  qRunfunc := rfl

namespace Shows

variable {pool pool' : CThreadPool Job}

theorem at_looper (h : s.Shows pool) (hlooper : s.looper id = some looper) :
    pool.thrMap[id]? = some looper.toLooper := by
  rw [← h.loopers id, hlooper, Option.map_some]

/-- The worker has been stored in both pools. -/
theorem store (h : s.Shows pool) (hlooper : s.looper id = some looper)
    (hundisturbed : looper'.Undisturbed) (hthr : s'.thrMap = s.thrMap.set id (some looper'))
    (hthr' : pool'.thrMap = pool.thrMap.set id looper'.toLooper)
    (hidles : s'.idlesList = pool'.idlesList) (hqueue : s'.qRunfunc = pool'.qRunfunc) :
    s'.Shows pool' where
  loopers := by
    intro j
    rw [looper_set hlooper hthr, hthr']
    split
    · next heq =>
        subst heq
        have hlt := (List.getElem?_eq_some_iff.mp (h.at_looper hlooper)).1
        rw [List.getElem?_set_self hlt, Option.map_some]
    · next hne => rw [List.getElem?_set_ne (Ne.symm hne), h.loopers j]
  undisturbed := by
    intro j other hother
    rw [looper_set hlooper hthr] at hother
    split at hother
    · cases hother
      exact hundisturbed
    · exact h.undisturbed j other hother
  idlesList := hidles
  qRunfunc := hqueue

/-- A step that the pool without mutexes does not show. -/
theorem stutter (h : s.Shows pool) (hlooper : s.looper id = some looper)
    (hundisturbed : looper'.Undisturbed) (hthr : s'.thrMap = s.thrMap.set id (some looper'))
    (hidles : s'.idlesList = s.idlesList) (hqueue : s'.qRunfunc = s.qRunfunc)
    (hsame : looper'.toLooper = looper.toLooper) : s'.Shows pool := by
  have hset : pool.thrMap.set id looper'.toLooper = pool.thrMap := by
    obtain ⟨hlt, hat⟩ := List.getElem?_eq_some_iff.mp (h.at_looper hlooper)
    rw [hsame, ← hat, List.set_getElem_self]
  exact h.store hlooper hundisturbed hthr hset.symm (hidles.trans h.idlesList)
    (hqueue.trans h.qRunfunc)

/-- A worker in the idle case looks for a job. -/
theorem load (h : s.Shows pool) (hlooper : s.looper id = some looper)
    (hmove : s.load id looper = some s') :
    ∃ pool', pool.next throws (.runRoutin id) = some pool' ∧ s'.Shows pool' := by
  obtain ⟨hloading, hcases⟩ := load_cases hmove
  have hread := h.undisturbed id looper hlooper (by rw [hloading]; rfl)
  have hstate : looper.state = .idle :=
    WorkerPoint.ofState_eq_loading (hread.symm.trans hloading)
  have hhead : looper.point.toPoint = .head := by rw [hloading]; rfl
  have hat := h.at_looper hlooper
  obtain ⟨runFunc, queue, hqueue, rfl⟩ | ⟨hqueue, rfl⟩ := hcases
  · refine ⟨CThreadPool.setLooper { pool with qRunfunc := queue } id
      { looper.toLooper with runFunc := some runFunc, state := .busy, isJob := true }, ?_, ?_⟩
    · simp [CThreadPool.next, CThreadPool.runRoutin, CThreadPool.popRunfunc, hat, hhead,
        hstate, LockedLooper.toLooper, ← h.qRunfunc, hqueue]
    · refine h.store hlooper ?_ rfl ?_ h.idlesList rfl
      · intro hcase
        cases hcase
      · simp only [CThreadPool.setLooper, LockedLooper.toLooper, hhead]
        rfl
  · refine ⟨pool.setLooper id { looper.toLooper with runFunc := none, point := .announcing },
      ?_, ?_⟩
    · simp [CThreadPool.next, CThreadPool.runRoutin, CThreadPool.popRunfunc, hat, hhead,
        hstate, LockedLooper.toLooper, ← h.qRunfunc, hqueue]
    · refine h.store hlooper ?_ rfl rfl h.idlesList h.qRunfunc
      intro hcase
      cases hcase

/-- A worker in the busy case executes its job. -/
theorem work (h : s.Shows pool) (hlooper : s.looper id = some looper)
    (hmove : s.work throws id looper = some s') :
    ∃ pool', pool.next throws (.runRoutin id) = some pool' ∧ s'.Shows pool' := by
  obtain ⟨hworking, hcases⟩ := work_cases hmove
  have hread := h.undisturbed id looper hlooper (by rw [hworking]; rfl)
  have hstate : looper.state = .busy :=
    WorkerPoint.ofState_eq_working (hread.symm.trans hworking)
  have hhead : looper.point.toPoint = .head := by rw [hworking]; rfl
  have hat := h.at_looper hlooper
  obtain ⟨hjob, rfl⟩ | ⟨hjob, hthrows, rfl⟩ | ⟨hjob, job, hrun, hreturns, hcases⟩ := hcases
  · refine ⟨pool.setLooper id { looper.toLooper with state := .idle }, ?_, ?_⟩
    · simp [CThreadPool.next, CThreadPool.runRoutin, hat, hhead, hstate, hjob,
        LockedLooper.toLooper]
    · refine h.store hlooper ?_ rfl ?_ h.idlesList h.qRunfunc
      · intro hcase
        cases hcase
      · simp only [CThreadPool.setLooper, LockedLooper.toLooper, hhead]
        rfl
  · refine ⟨pool.setLooper id { looper.toLooper with point := .ended }, ?_, ?_⟩
    · cases hrun : looper.runFunc with
      | none =>
          simp [CThreadPool.next, CThreadPool.runRoutin, hat, hhead, hstate, hjob, hrun,
            LockedLooper.toLooper]
      | some job =>
          simp [CThreadPool.next, CThreadPool.runRoutin, hat, hhead, hstate, hjob, hrun,
            hthrows job hrun, LockedLooper.toLooper]
    · refine h.store hlooper ?_ rfl rfl h.idlesList h.qRunfunc
      intro hcase
      cases hcase
  · obtain ⟨runFunc, queue, hqueue, rfl⟩ | ⟨hqueue, rfl⟩ := hcases
    · refine ⟨CThreadPool.setLooper { pool with qRunfunc := queue } id
        { looper.toLooper with runFunc := some runFunc }, ?_, ?_⟩
      · simp [CThreadPool.next, CThreadPool.runRoutin, CThreadPool.popRunfunc, hat, hhead,
          hstate, hjob, hrun, hreturns, LockedLooper.toLooper, ← h.qRunfunc, hqueue]
      · refine h.store hlooper ?_ rfl rfl h.idlesList rfl
        exact fun _ => hread
    · refine ⟨pool.setLooper id { looper.toLooper with runFunc := none, isJob := false }, ?_, ?_⟩
      · simp [CThreadPool.next, CThreadPool.runRoutin, CThreadPool.popRunfunc, hat, hhead,
          hstate, hjob, hrun, hreturns, LockedLooper.toLooper, ← h.qRunfunc, hqueue]
      · refine h.store hlooper ?_ rfl rfl h.idlesList h.qRunfunc
        exact fun _ => hread

/-- A worker behind its loop ends. -/
theorem leave (h : s.Shows pool) (hlooper : s.looper id = some looper)
    (hmove : s.leave id looper = some s') :
    ∃ pool', pool.next throws (.runRoutin id) = some pool' ∧ s'.Shows pool' := by
  obtain ⟨hleaving, hs'⟩ := Option.ite_none_right_eq_some.mp hmove
  cases hs'
  have hread := h.undisturbed id looper hlooper (by rw [hleaving]; rfl)
  have hhead : looper.point.toPoint = .head := by rw [hleaving]; rfl
  have hat := h.at_looper hlooper
  refine ⟨pool.setLooper id { looper.toLooper with state := .exit, point := .ended }, ?_, ?_⟩
  · obtain hstate | hstate := WorkerPoint.ofState_eq_leaving (hread.symm.trans hleaving)
    · simp [CThreadPool.next, CThreadPool.runRoutin, hat, hhead, hstate, LockedLooper.toLooper]
    · simp [CThreadPool.next, CThreadPool.runRoutin, hat, hhead, hstate, LockedLooper.toLooper]
  · refine h.store hlooper ?_ rfl rfl h.idlesList h.qRunfunc
    intro hcase
    cases hcase

theorem wakeUp (h : s.Shows pool) (hlooper : s.looper id = some looper)
    (hmove : s.wakeUp id looper = some s') :
    ∃ pool', pool.next throws (.wakeUp id) = some pool' ∧ s'.Shows pool' := by
  obtain ⟨hwaiting, hs'⟩ := Option.ite_none_right_eq_some.mp hmove
  cases hs'
  have hpoint : looper.point.toPoint = .waiting := by rw [hwaiting.1]; rfl
  refine ⟨pool.setLooper id { looper.toLooper with point := .head }, ?_, ?_⟩
  · simp [CThreadPool.next, CThreadPool.wakeUp, h.at_looper hlooper, hpoint,
      LockedLooper.toLooper]
  · refine h.store hlooper ?_ rfl rfl h.idlesList h.qRunfunc
    intro hcase
    cases hcase

theorem pushBack (h : s.Shows pool) (hlooper : s.looper id = some looper)
    (hmove : s.pushBack id looper = some s') :
    ∃ pool', pool.next throws (.pushLooper id) = some pool' ∧ s'.Shows pool' := by
  obtain ⟨hlisting, hs'⟩ := Option.ite_none_right_eq_some.mp hmove
  cases hs'
  have hpoint : looper.point.toPoint = .announcing := by rw [hlisting]; rfl
  refine ⟨{ pool.setLooper id { looper.toLooper with point := .waiting } with
    idlesList := pool.idlesList ++ [id] }, ?_, ?_⟩
  · simp [CThreadPool.next, CThreadPool.pushLooper, h.at_looper hlooper, hpoint,
      LockedLooper.toLooper]
  · refine h.store hlooper ?_ rfl rfl ?_ h.qRunfunc
    · intro hcase
      cases hcase
    · exact congrArg (· ++ [id]) h.idlesList

/-- A step of a worker is a step of the pool whose mutexes are not modelled, or does not show. -/
theorem worker (h : s.Shows pool) {a : WorkerAction}
    (hstep : s.next throws (.worker id a) = some s') :
    s'.Shows pool ∨ ∃ b pool', pool.next throws b = some pool' ∧ s'.Shows pool' := by
  obtain ⟨looper, hlooper, hmove⟩ := Option.bind_eq_some_iff.mp hstep
  cases a with
  | wakeUp => exact .inr ⟨_, h.wakeUp hlooper hmove⟩
  | load => exact .inr ⟨_, h.load hlooper hmove⟩
  | work => exact .inr ⟨_, h.work hlooper hmove⟩
  | leave => exact .inr ⟨_, h.leave hlooper hmove⟩
  | pushBack => exact .inr ⟨_, h.pushBack hlooper hmove⟩
  | turn =>
      obtain ⟨hhead, hs'⟩ := Option.ite_none_right_eq_some.mp hmove
      cases hs'
      left
      refine h.stutter hlooper (fun _ => rfl) rfl rfl rfl ?_
      rw [LockedLooper.toLooper, LockedLooper.toLooper, WorkerPoint.toPoint_ofState, hhead]
      rfl
  | lockMapList =>
      obtain ⟨hfree, hs'⟩ := Option.ite_none_right_eq_some.mp hmove
      cases hs'
      left
      refine h.stutter hlooper ?_ rfl rfl rfl ?_
      · intro hcase
        cases hcase
      · rw [LockedLooper.toLooper, LockedLooper.toLooper, hfree.1]
        rfl
  | wait =>
      obtain ⟨hannounced, hs'⟩ := Option.ite_none_right_eq_some.mp hmove
      cases hs'
      left
      refine h.stutter hlooper ?_ rfl rfl rfl ?_
      · intro hcase
        cases hcase
      · rw [LockedLooper.toLooper, LockedLooper.toLooper, hannounced]
        rfl

end Shows

/-- Until the destructor is called, the workers of this pool are those of the pool whose mutexes
are not modelled. -/
theorem workers_refine {pool : CThreadPool Job}
    (run : GuardedRun (fun s a s' => PoolTeardown.next throws s a = some s')
      (fun _ a => ∃ id act, a = .worker id act) (ofPool pool) s) :
    ∃ pool', Reachable (CThreadPool.Step throws) pool pool' ∧ s.Shows pool' := by
  apply run.invariant ⟨pool, .start, shows_ofPool pool⟩
  rintro s _ s' ⟨pool', hreach, hshows⟩ ⟨id, act, rfl⟩ hstep
  obtain hstays | ⟨b, moved, hmove, hshows'⟩ := hshows.worker hstep
  · exact ⟨pool', hreach, hstays⟩
  · exact ⟨moved, hreach.next trivial hmove, hshows'⟩

end PoolTeardown

end CommonCommunicator
