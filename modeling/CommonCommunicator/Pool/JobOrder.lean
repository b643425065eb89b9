import CommonCommunicator.Pool.StrandedJobs

/-!
# The order of jobs

`IHProtocolInf` creates its pool with one worker and asks for jobs to be queued.
A job leaves the queue at three places: a caller hands it to the idle worker,
the worker finds it when it is idle, or finds it behind another job. Wherever it
is taken it waits in the worker's single slot, and what was queued is at any
time what was executed, the job in the slot and the queue, in this order.
-/

namespace CommonCommunicator

/-- The job in the slot of the worker that it has not run yet. -/
def OpenLooper.taken {Job : Type} (looper : OpenLooper Job) : Option Job :=
  if looper.isJob then looper.runFunc else none

namespace CThreadPool

variable {Job : Type}

/-- The job in the slot of the worker with this id. -/
def taken (pool : CThreadPool Job) (id : Nat) : Option Job :=
  pool.thrMap[id]?.bind OpenLooper.taken

/-- What `push_runfunc` adds to the queue in a step. -/
def enqueues : Action Job → List Job
  | .pushRunfunc _ runFunc _ => [runFunc]
  | _ => []

/-- The job that a step calls: a busy worker at the head of its loop calls the one in its slot. -/
def executes (pool : CThreadPool Job) : Action Job → List Job
  | .runRoutin id =>
      match pool.thrMap[id]? with
      | none => []
      | some looper =>
          if looper.point = .head ∧ looper.state = .busy then looper.taken.toList else []
  | _ => []

/-- The step is not a call that may create a worker. -/
def Queues : Action Job → Prop
  | .pushRunfunc _ _ runImmediatly => runImmediatly = false
  | _ => True

/-- The pool with all jobs that were queued and all jobs that were called, in order. -/
structure Traced (Job : Type) where
  pool : CThreadPool Job
  enqueued : List Job
  executed : List Job

namespace Traced

variable {traced traced' : Traced Job}

/-- The pool as `IHProtocolInf` creates it. -/
def create (Job : Type) : Traced Job :=
  { pool := .create Job 1, enqueued := [], executed := [] }

/-- A step of the pool whose jobs do not throw. -/
def next (traced : Traced Job) (a : Action Job) : Option (Traced Job) :=
  match CThreadPool.next (fun _ => false) traced.pool a with
  | none => none
  | some pool => some {
      pool := pool
      enqueued := traced.enqueued ++ enqueues a
      executed := traced.executed ++ executes traced.pool a }

/-- The steps as a relation. -/
def Step (traced : Traced Job) (a : Action Job) (traced' : Traced Job) : Prop :=
  next traced a = some traced'

theorem step_iff {a : Action Job} :
    Step traced a traced' ↔ CThreadPool.Step (fun _ => false) traced.pool a traced'.pool ∧
      traced'.enqueued = traced.enqueued ++ enqueues a ∧
      traced'.executed = traced.executed ++ executes traced.pool a := by
  obtain ⟨pool', enqueued', executed'⟩ := traced'
  rw [Step, next, CThreadPool.Step]
  split
  · next hnone => simp [hnone]
  · next pool hpool =>
      rw [hpool]
      simp [eq_comm]

end Traced

/-- The pool has this worker and no other, a filled slot makes it busy, and no call will create
another worker. -/
structure Alone (pool : CThreadPool Job) (looper : OpenLooper Job) : Prop where
  only : pool.thrMap = [looper]
  busy : looper.isJob = true → looper.state = .busy ∧ looper.runFunc ≠ none
  queued : ∀ caller, pool.calls caller ≠ some (.pushed true)

/-- What a step leaves of the jobs that are neither queued nor executed, and in which order. -/
structure Moves (pool : CThreadPool Job) (looper : OpenLooper Job) (a : Action Job)
    (pool' : CThreadPool Job) (looper' : OpenLooper Job) : Prop where
  alone : pool'.Alone looper'
  kept : looper.taken.toList ++ pool.qRunfunc ++ enqueues a =
    executes pool a ++ looper'.taken.toList ++ pool'.qRunfunc
  slot : looper.taken ≠ none →
    executes pool a = looper.taken.toList ∨ executes pool a = [] ∧ looper'.taken = looper.taken

namespace Alone

variable {pool pool' : CThreadPool Job} {looper : OpenLooper Job}

theorem create : (CThreadPool.create Job 1).Alone .started := by
  refine ⟨rfl, ?_, ?_⟩
  · simp [OpenLooper.started]
  · simp [CThreadPool.create]

theorem getElem? (h : pool.Alone looper) {id : Nat} {looper' : OpenLooper Job}
    (hget : pool.thrMap[id]? = some looper') : id = 0 ∧ looper' = looper := by
  rw [h.only] at hget
  have hid : id = 0 := by
    have hlt : id < 1 := (List.getElem?_eq_some_iff.mp hget).1
    omega
  subst hid
  exact ⟨rfl, by simpa using hget.symm⟩

theorem taken (h : pool.Alone looper) : pool.taken 0 = looper.taken := by
  simp [CThreadPool.taken, h.only]

/-- The slot of a worker that is not busy is empty. -/
theorem isJob_of_not_busy (h : pool.Alone looper) (hstate : looper.state ≠ .busy) :
    looper.isJob = false := by
  by_contra hjob
  exact hstate (h.busy (by simpa using hjob)).1

/-- A step that leaves worker and queue alone. -/
theorem slot_kept (h : pool.Alone looper) {a : Action Job} (hthr : pool'.thrMap = pool.thrMap)
    (hqueue : pool'.qRunfunc = pool.qRunfunc)
    (hcalls : ∀ caller, pool'.calls caller ≠ some (.pushed true))
    (hadds : enqueues a = []) (hcall : executes pool a = []) :
    pool.Moves looper a pool' looper := by
  constructor
  · exact ⟨hthr.trans h.only, h.busy, hcalls⟩
  · simp [hadds, hcall, hqueue]
  · intro _
    exact Or.inr ⟨hcall, rfl⟩

/-- A step of a worker whose slot is empty and stays so. -/
theorem slot_empty {a : Action Job} {looper' : OpenLooper Job} (hjob : looper.isJob = false)
    (hjob' : looper'.isJob = false) (hthr : pool'.thrMap = [looper'])
    (hqueue : pool'.qRunfunc = pool.qRunfunc)
    (hcalls : ∀ caller, pool'.calls caller ≠ some (.pushed true))
    (hadds : enqueues a = []) (hcall : executes pool a = []) :
    pool.Moves looper a pool' looper' := by
  constructor
  · exact ⟨hthr, by simp [hjob'], hcalls⟩
  · simp [OpenLooper.taken, hjob, hjob', hadds, hcall, hqueue]
  · simp [OpenLooper.taken, hjob]

/-- A step that only moves the worker in its code. -/
theorem moved (h : pool.Alone looper) {a : Action Job} {point : LooperPoint}
    (hthr : pool'.thrMap = pool.thrMap.set 0 { looper with point := point })
    (hqueue : pool'.qRunfunc = pool.qRunfunc)
    (hcalls : ∀ caller, pool'.calls caller ≠ some (.pushed true))
    (hadds : enqueues a = []) (hcall : executes pool a = []) :
    pool.Moves looper a pool' { looper with point := point } := by
  constructor
  · exact ⟨by simp [hthr, h.only], h.busy, hcalls⟩
  · rw [hadds, hcall, hqueue]
    simp [OpenLooper.taken]
  · intro _
    exact Or.inr ⟨hcall, rfl⟩

/-- A call queues its job behind all others. -/
theorem pushRunfunc (h : pool.Alone looper) {caller : Nat} {runFunc : Job}
    (hstep : pool.pushRunfunc caller runFunc false = some pool') :
    pool.Moves looper (.pushRunfunc caller runFunc false) pool' looper := by
  rw [CThreadPool.pushRunfunc] at hstep
  split at hstep
  · cases hstep
  · cases hstep
    constructor
    · refine ⟨h.only, h.busy, ?_⟩
      intro caller'
      by_cases hcaller : caller' = caller
      · simp [hcaller]
      · simpa [hcaller] using h.queued caller'
    · simp [executes, enqueues]
    · intro _
      exact Or.inr ⟨rfl, rfl⟩

/-- No worker is created, whether one is idle or not. -/
theorem pickLooper (h : pool.Alone looper) {caller : Nat}
    (hstep : pool.pickLooper caller = some pool') :
    pool.Moves looper (.pickLooper caller) pool' looper := by
  have hinsert : ∀ id caller', pool.calls.insert caller (.picked id) caller' ≠
      some (.pushed true) := by
    intro id caller'
    by_cases hcaller : caller' = caller
    · simp [hcaller]
    · simpa [hcaller] using h.queued caller'
  have herase : ∀ caller', pool.calls.erase caller caller' ≠ some (.pushed true) := by
    intro caller'
    by_cases hcaller : caller' = caller
    · simp [hcaller]
    · simpa [hcaller] using h.queued caller'
  rw [CThreadPool.pickLooper] at hstep
  split at hstep
  · next runImmediatly hcall =>
      have himmediatly : runImmediatly = false := by
        cases runImmediatly with
        | false => rfl
        | true => exact absurd hcall (h.queued caller)
      split at hstep
      · split at hstep
        · cases hstep
          exact h.slot_kept rfl rfl (hinsert _) rfl rfl
        · cases hstep
          exact h.slot_kept rfl rfl herase rfl rfl
      · rw [himmediatly] at hstep
        cases hstep
        exact h.slot_kept rfl rfl herase rfl rfl
  · cases hstep

/-- A trigger fills the slot of an idle worker, which is empty, with the first job. -/
theorem trigRunFunc (h : pool.Alone looper) {caller : Nat}
    (hstep : pool.trigRunFunc caller = some pool') :
    ∃ looper', pool.Moves looper (.trigRunFunc caller) pool' looper' := by
  obtain ⟨id, picked, -, hpicked, -, hcalls, hcases⟩ := trigRunFunc_cases hstep
  obtain ⟨rfl, rfl⟩ := h.getElem? hpicked
  have herase : ∀ caller', pool'.calls caller' ≠ some (.pushed true) := by
    intro caller'
    rw [hcalls]
    by_cases hcaller : caller' = caller
    · simp [hcaller]
    · simpa [hcaller] using h.queued caller'
  obtain ⟨-, hthr, hqueue⟩ | ⟨hidle, htaken⟩ := hcases
  · exact ⟨picked, h.slot_kept hthr hqueue herase rfl rfl⟩
  · have hjob : picked.isJob = false := h.isJob_of_not_busy (by simp [hidle])
    obtain ⟨runFunc, hqueue, hthr⟩ | ⟨hqueue, hqueue', hthr⟩ := htaken
    · refine ⟨{ picked with runFunc := some runFunc, isJob := true, state := .busy }, ?_⟩
      constructor
      · refine ⟨by simpa [h.only] using hthr, by simp, herase⟩
      · rw [hqueue]
        simp [OpenLooper.taken, hjob, executes, enqueues]
      · simp [OpenLooper.taken, hjob]
    · refine ⟨{ picked with runFunc := none }, ?_⟩
      apply slot_empty hjob
      · exact hjob
      · simpa [h.only] using hthr
      · rw [hqueue, hqueue']
      · exact herase
      · rfl
      · rfl

/-- What the worker calls at the head of its loop. -/
theorem executes_head (h : pool.Alone looper) (hhead : looper.point = .head) :
    executes pool (.runRoutin 0) =
      if looper.state = .busy then looper.taken.toList else [] := by
  simp [executes, h.only, hhead]

/-- An idle worker fills its slot from the front of the queue, or announces itself. -/
theorem runRoutin_idle (h : pool.Alone looper) (hhead : looper.point = .head)
    (hstate : looper.state = .idle)
    (hstep : CThreadPool.runRoutin (fun _ => false) pool 0 = some pool') :
    ∃ looper', pool.Moves looper (.runRoutin 0) pool' looper' := by
  have hcall := h.executes_head hhead
  have hjob : looper.isJob = false := h.isJob_of_not_busy (by simp [hstate])
  cases hqueue : pool.qRunfunc with
  | nil =>
      obtain rfl := by
        simpa [CThreadPool.runRoutin, h.only, hhead, hstate, popRunfunc, hqueue] using hstep
      refine ⟨{ looper with runFunc := none, point := .announcing }, ?_⟩
      apply slot_empty hjob
      · exact hjob
      · simp [setLooper, h.only, hstate]
      · rfl
      · exact h.queued
      · rfl
      · simp [hcall, hstate]
  | cons runFunc queue =>
      obtain rfl := by
        simpa [CThreadPool.runRoutin, h.only, hhead, hstate, popRunfunc, hqueue] using hstep
      refine ⟨{ looper with runFunc := some runFunc, state := .busy, isJob := true }, ?_⟩
      constructor
      · exact ⟨by simp [setLooper, hhead], by simp, h.queued⟩
      · rw [hcall]
        simp [OpenLooper.taken, hjob, hstate, enqueues, hqueue, setLooper]
      · simp [OpenLooper.taken, hjob]

/-- A busy worker calls the job in its slot and takes the next one from the queue. -/
theorem runRoutin_busy (h : pool.Alone looper) (hhead : looper.point = .head)
    (hjob : looper.isJob = true)
    (hstep : CThreadPool.runRoutin (fun _ => false) pool 0 = some pool') :
    ∃ looper', pool.Moves looper (.runRoutin 0) pool' looper' := by
  obtain ⟨hstate, hslot⟩ := h.busy hjob
  obtain ⟨job, hrun⟩ := Option.ne_none_iff_exists'.mp hslot
  have htaken : looper.taken = some job := by simp [OpenLooper.taken, hjob, hrun]
  have hcall := h.executes_head hhead
  rw [if_pos hstate, htaken] at hcall
  cases hqueue : pool.qRunfunc with
  | nil =>
      obtain rfl := by
        simpa [CThreadPool.runRoutin, h.only, hhead, hstate, hjob, hrun, popRunfunc, hqueue]
          using hstep
      refine ⟨{ looper with runFunc := none, isJob := false }, ?_⟩
      constructor
      · exact ⟨by simp [setLooper, h.only, hstate, hhead], by simp, h.queued⟩
      · rw [hcall, htaken]
        simp [OpenLooper.taken, enqueues, hqueue, setLooper]
      · intro _
        exact Or.inl (hcall.trans (by rw [htaken]))
  | cons runFunc queue =>
      obtain rfl := by
        simpa [CThreadPool.runRoutin, h.only, hhead, hstate, hjob, hrun, popRunfunc, hqueue]
          using hstep
      refine ⟨{ looper with runFunc := some runFunc }, ?_⟩
      constructor
      · exact ⟨by simp [setLooper, hstate, hjob, hhead], by simp [hstate], h.queued⟩
      · rw [hcall, htaken]
        simp [OpenLooper.taken, enqueues, hqueue, setLooper, hjob]
      · intro _
        exact Or.inl (hcall.trans (by rw [htaken]))

/-- A worker without a job and not idle changes its state only. -/
theorem runRoutin_empty (h : pool.Alone looper) (hhead : looper.point = .head)
    (hjob : looper.isJob = false) (hstate : looper.state ≠ .idle)
    (hstep : CThreadPool.runRoutin (fun _ => false) pool 0 = some pool') :
    ∃ looper', pool.Moves looper (.runRoutin 0) pool' looper' := by
  have hcall : executes pool (.runRoutin 0) = [] := by
    simp [h.executes_head hhead, OpenLooper.taken, hjob]
  obtain ⟨looper', hjob', rfl⟩ : ∃ looper' : OpenLooper Job, looper'.isJob = false ∧
      pool' = pool.setLooper 0 looper' := by
    cases hcase : looper.state with
    | idle => exact absurd hcase hstate
    | busy =>
        obtain rfl := by
          simpa [CThreadPool.runRoutin, h.only, hhead, hcase, hjob] using hstep
        exact ⟨_, rfl, rfl⟩
    | exit =>
        obtain rfl := by simpa [CThreadPool.runRoutin, h.only, hhead, hcase] using hstep
        exact ⟨{ looper with state := .exit, point := .ended }, hjob, rfl⟩
    | notCreated =>
        obtain rfl := by simpa [CThreadPool.runRoutin, h.only, hhead, hcase] using hstep
        exact ⟨{ looper with state := .exit, point := .ended }, hjob, rfl⟩
  refine ⟨looper', slot_empty hjob hjob' ?_ rfl h.queued rfl hcall⟩
  simp [setLooper, h.only]

/-- A turn of the worker's loop calls the job in its slot and fills the slot again, or fills the
empty slot, from the front of the queue. -/
theorem runRoutin (h : pool.Alone looper) {id : Nat}
    (hstep : CThreadPool.runRoutin (fun _ => false) pool id = some pool') :
    ∃ looper', pool.Moves looper (.runRoutin id) pool' looper' := by
  cases hworker : pool.thrMap[id]? with
  | none => simp [CThreadPool.runRoutin, hworker] at hstep
  | some worker =>
      obtain ⟨rfl, rfl⟩ := h.getElem? hworker
      have hhead : worker.point = .head := by
        by_contra hpoint
        simp [CThreadPool.runRoutin, hworker, hpoint] at hstep
      by_cases hstate : worker.state = .idle
      · exact h.runRoutin_idle hhead hstate hstep
      · cases hjob : worker.isJob with
        | true => exact h.runRoutin_busy hhead hjob hstep
        | false => exact h.runRoutin_empty hhead hjob hstate hstep

/-- What any step does, if it is not a call that may create a worker. -/
theorem next (h : pool.Alone looper) {a : Action Job} (hqueues : Queues a)
    (hstep : CThreadPool.Step (fun _ => false) pool a pool') :
    ∃ looper', pool.Moves looper a pool' looper' := by
  cases a with
  | pushRunfunc caller runFunc runImmediatly =>
      obtain rfl : runImmediatly = false := hqueues
      exact ⟨looper, h.pushRunfunc hstep⟩
  | pickLooper caller => exact ⟨looper, h.pickLooper hstep⟩
  | trigRunFunc caller => exact h.trigRunFunc hstep
  | runRoutin id => exact h.runRoutin hstep
  | pushLooper id =>
      change pool.pushLooper id = some pool' at hstep
      rw [CThreadPool.pushLooper] at hstep
      split at hstep
      · cases hstep
      · next worker hworker =>
          obtain ⟨rfl, rfl⟩ := h.getElem? hworker
          obtain ⟨-, rfl⟩ := by simpa using hstep
          exact ⟨_, h.moved rfl rfl h.queued rfl rfl⟩
  | wakeUp id =>
      change pool.wakeUp id = some pool' at hstep
      rw [CThreadPool.wakeUp] at hstep
      split at hstep
      · cases hstep
      · next worker hworker =>
          obtain ⟨rfl, rfl⟩ := h.getElem? hworker
          obtain ⟨-, rfl⟩ := by simpa using hstep
          exact ⟨_, h.moved rfl rfl h.queued rfl rfl⟩

end Alone

namespace Traced

/-- Everything that was queued has been called, is in the slot or is queued, in this order. -/
def InOrder (traced : Traced Job) : Prop :=
  ∃ looper, traced.pool.Alone looper ∧
    traced.enqueued = traced.executed ++ looper.taken.toList ++ traced.pool.qRunfunc

theorem InOrder.create : (Traced.create Job).InOrder := by
  refine ⟨.started, .create, ?_⟩
  simp [Traced.create, CThreadPool.create, OpenLooper.taken, OpenLooper.started]

theorem InOrder.next {traced traced' : Traced Job} (h : traced.InOrder) {a : Action Job}
    (hqueues : Queues a) (hstep : Step traced a traced') : traced'.InOrder := by
  obtain ⟨looper, halone, horder⟩ := h
  obtain ⟨hmove, henqueued, hexecuted⟩ := step_iff.mp hstep
  obtain ⟨looper', hmoves⟩ := halone.next hqueues hmove
  refine ⟨looper', hmoves.alone, ?_⟩
  calc
    traced'.enqueued = traced.executed ++
        (looper.taken.toList ++ traced.pool.qRunfunc ++ enqueues a) := by
      rw [henqueued, horder]
      simp
    _ = traced.executed ++
        (executes traced.pool a ++ looper'.taken.toList ++ traced'.pool.qRunfunc) := by
      rw [hmoves.kept]
    _ = traced'.executed ++ looper'.taken.toList ++ traced'.pool.qRunfunc := by
      rw [hexecuted]
      simp

/-- With one worker the jobs are called in the order in which they were queued, each at most once,
and a job in the worker's slot stays there until the worker calls it. -/
theorem executed_in_order {traced : Traced Job}
    (run : Lib.GuardedRun Step (fun _ a => Queues a) (create Job) traced) :
    traced.executed <+: traced.enqueued ∧
      ∀ job, traced.pool.taken 0 = some job → ∀ a traced', Queues a → Step traced a traced' →
        traced'.executed = traced.executed ++ [job] ∨
          traced'.executed = traced.executed ∧ traced'.pool.taken 0 = some job := by
  obtain ⟨looper, halone, horder⟩ : traced.InOrder := by
    apply run.invariant .create
    intro s a s' h hqueues hstep
    exact h.next hqueues hstep
  constructor
  · rw [horder, List.append_assoc]
    exact List.prefix_append ..
  · intro job htaken a traced' hqueues hstep
    rw [halone.taken] at htaken
    obtain ⟨hmove, -, hexecuted⟩ := step_iff.mp hstep
    obtain ⟨looper', hmoves⟩ := halone.next hqueues hmove
    obtain hcall | ⟨hcall, hkept⟩ := hmoves.slot (by simp [htaken])
    · exact Or.inl (by rw [hexecuted, hcall, htaken]; rfl)
    · refine Or.inr ⟨by simp [hexecuted, hcall], ?_⟩
      rw [hmoves.alone.taken, hkept, htaken]

/-- Two callers queue a job each; the first is handed to the waiting worker, which takes the second
one behind it. -/
def twoJobs : List (Action Nat) :=
  [.runRoutin 0, .runRoutin 0, .pushLooper 0, .pushRunfunc 0 7 false, .pushRunfunc 1 8 false,
    .pickLooper 1, .trigRunFunc 1, .wakeUp 0, .runRoutin 0]

theorem twoJobs_in_order :
    ∃ traced, Lib.execute next (create Nat) twoJobs = some traced ∧
      traced.executed = [7] ∧ traced.executed <+: traced.enqueued ∧
      ∀ traced', Step traced (.runRoutin 0) traced' →
        traced'.executed = [7] ++ [8] ∨ traced'.executed = [7] ∧ traced'.pool.taken 0 = some 8 := by
  have hexecute : Lib.execute next (create Nat) twoJobs = some _ := rfl
  have hqueues : Lib.Meets next (fun _ a => Queues a) (create Nat) twoJobs :=
    ⟨trivial, trivial, trivial, rfl, rfl, trivial, trivial, trivial, trivial, trivial⟩
  have hrun := executed_in_order (.execute .start hexecute hqueues)
  refine ⟨_, hexecute, rfl, hrun.1, ?_⟩
  intro traced' hstep
  exact hrun.2 8 rfl (.runRoutin 0) traced' trivial hstep

end Traced

end CThreadPool

end CommonCommunicator
