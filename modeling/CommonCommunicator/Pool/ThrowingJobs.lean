import CommonCommunicator.Pool.JobOrder

/-!
# Throwing jobs

`run_routin` catches the exceptions of its jobs behind its loop, so a job that
throws ends its worker instead of the turn. A run in which every executed job
returns is, step by step, the run of a pool whose jobs never throw; the first
job that throws is where the two part.
-/

namespace CommonCommunicator

namespace CThreadPool

variable {Job : Type} {throws : Job → Bool} {pool pool' : CThreadPool Job}

/-- The worker is at the head of its loop again and has taken the first job off the queue, if there
was one. -/
def ChecksQueue (pool : CThreadPool Job) (id : Nat) (pool' : CThreadPool Job) : Prop :=
  pool'.qRunfunc = pool.qRunfunc.tail ∧ ∃ looper, pool'.thrMap[id]? = some looper ∧
    looper.point = .head ∧ looper.runFunc = pool.qRunfunc.head?

/-- A worker that executes a job in this step goes on to its next queue check. -/
def GoesOn (throws : Job → Bool) (pool : CThreadPool Job) : Action Job → Prop
  | .runRoutin id => executes pool (.runRoutin id) ≠ [] →
      ∀ pool', runRoutin throws pool id = some pool' → pool.ChecksQueue id pool'
  | _ => True

/-- No job that is executed in this step throws. -/
def Returns (throws : Job → Bool) (pool : CThreadPool Job) (a : Action Job) : Prop :=
  ∀ job ∈ executes pool a, throws job = false

/-- The jobs that a run executes, in this order. -/
def executed (throws : Job → Bool) : CThreadPool Job → List (Action Job) → List Job
  | _, [] => []
  | pool, a :: labels => executes pool a ++
      match next throws pool a with
      | none => []
      | some pool' => executed throws pool' labels

/-- A step that executes something is the turn of a busy worker with a job in its slot. -/
theorem executes_ne_nil {id : Nat} (h : executes pool (.runRoutin id) ≠ []) :
    ∃ looper job, pool.thrMap[id]? = some looper ∧ looper.point = .head ∧ looper.state = .busy ∧
      looper.isJob = true ∧ looper.runFunc = some job ∧
      executes pool (.runRoutin id) = [job] := by
  cases hlooper : pool.thrMap[id]? with
  | none => simp [executes, hlooper] at h
  | some looper =>
      simp only [executes, hlooper] at h ⊢
      split at h
      · next hbusy =>
          cases hjob : looper.isJob with
          | false => simp [OpenLooper.taken, hjob] at h
          | true =>
              cases hrun : looper.runFunc with
              | none => simp [OpenLooper.taken, hjob, hrun] at h
              | some job =>
                  refine ⟨looper, job, rfl, hbusy.1, hbusy.2, hjob, hrun, ?_⟩
                  rw [if_pos hbusy, OpenLooper.taken, if_pos hjob, hrun]
                  rfl
      · exact absurd rfl h

/-- The turn of a worker whose job throws ends the worker. -/
theorem runRoutin_throws {id : Nat} {looper : OpenLooper Job} {job : Job}
    (hlooper : pool.thrMap[id]? = some looper) (hpoint : looper.point = .head)
    (hstate : looper.state = .busy) (hjob : looper.isJob = true)
    (hrun : looper.runFunc = some job) (hthrows : throws job = true) :
    runRoutin throws pool id = some (pool.setLooper id { looper with point := .ended }) := by
  simp [runRoutin, hlooper, hpoint, hstate, hjob, hrun, hthrows]

/-- The turn of a worker whose job returns takes the next job off the queue. -/
theorem runRoutin_returns {id : Nat} {looper : OpenLooper Job} {job : Job}
    (hlooper : pool.thrMap[id]? = some looper) (hpoint : looper.point = .head)
    (hstate : looper.state = .busy) (hjob : looper.isJob = true)
    (hrun : looper.runFunc = some job) (hthrows : throws job = false)
    (h : runRoutin throws pool id = some pool') : pool.ChecksQueue id pool' := by
  have hlt : id < pool.thrMap.length := (List.getElem?_eq_some_iff.mp hlooper).1
  cases hqueue : pool.qRunfunc with
  | nil =>
      obtain rfl := by
        simpa [runRoutin, hlooper, hpoint, hstate, hjob, hrun, hthrows, popRunfunc, hqueue] using h
      refine ⟨by simp [setLooper, hqueue], _, List.getElem?_set_self hlt, rfl, ?_⟩
      simp [hqueue]
  | cons runFunc queue =>
      obtain rfl := by
        simpa [runRoutin, hlooper, hpoint, hstate, hjob, hrun, hthrows, popRunfunc, hqueue] using h
      refine ⟨by simp [setLooper, hqueue], _, List.getElem?_set_self hlt, rfl, ?_⟩
      simp [hqueue]

/-- A worker goes on exactly when the job that it executes returns. -/
theorem goesOn_iff {a : Action Job} : pool.GoesOn throws a ↔ pool.Returns throws a := by
  cases a with
  | runRoutin id =>
      by_cases hexecutes : executes pool (.runRoutin id) = []
      · apply iff_of_true
        · exact fun hne => absurd hexecutes hne
        · intro job hmem
          rw [hexecutes] at hmem
          cases hmem
      · obtain ⟨looper, job, hlooper, hpoint, hstate, hjob, hrun, hone⟩ :=
          executes_ne_nil hexecutes
        constructor
        · intro hgoes job' hmem
          obtain rfl : job' = job := by simpa [hone] using hmem
          by_contra hthrows
          obtain ⟨-, looper', hlooper', hhead, -⟩ := hgoes hexecutes _
            (runRoutin_throws hlooper hpoint hstate hjob hrun (by simpa using hthrows))
          have hlt : id < pool.thrMap.length := (List.getElem?_eq_some_iff.mp hlooper).1
          rw [setLooper, List.getElem?_set_self hlt] at hlooper'
          obtain rfl := Option.some.inj hlooper'
          cases hhead
        · intro hreturns _ pool' hturn
          exact runRoutin_returns hlooper hpoint hstate hjob hrun
            (hreturns job (by simp [hone])) hturn
  | pushRunfunc caller runFunc runImmediatly =>
      exact iff_of_true trivial (by simp [Returns, executes])
  | pickLooper caller => exact iff_of_true trivial (by simp [Returns, executes])
  | trigRunFunc caller => exact iff_of_true trivial (by simp [Returns, executes])
  | pushLooper id => exact iff_of_true trivial (by simp [Returns, executes])
  | wakeUp id => exact iff_of_true trivial (by simp [Returns, executes])

/-- Exceptions matter for a step only if a job that it executes throws. -/
theorem next_of_returns {a : Action Job} (h : pool.Returns throws a) :
    next (fun _ => false) pool a = next throws pool a := by
  cases a with
  | runRoutin id =>
      cases hlooper : pool.thrMap[id]? with
      | none => simp [next, runRoutin, hlooper]
      | some looper =>
          by_cases hexecutes : executes pool (.runRoutin id) = []
          · simp only [executes, hlooper] at hexecutes
            by_cases hpoint : looper.point = .head
            · cases hstate : looper.state with
              | busy =>
                  cases hjob : looper.isJob with
                  | false => simp [next, runRoutin, hlooper, hpoint, hstate, hjob]
                  | true =>
                      have hrun : looper.runFunc = none := by
                        simpa [hpoint, hstate, OpenLooper.taken, hjob] using hexecutes
                      simp [next, runRoutin, hlooper, hpoint, hstate, hjob, hrun]
              | idle => simp [next, runRoutin, hlooper, hpoint, hstate]
              | exit => simp [next, runRoutin, hlooper, hpoint, hstate]
              | notCreated => simp [next, runRoutin, hlooper, hpoint, hstate]
            · simp [next, runRoutin, hlooper, hpoint]
          · obtain ⟨looper', job, hlooper', hpoint, hstate, hjob, hrun, hone⟩ :=
              executes_ne_nil hexecutes
            have hthrows : throws job = false := h job (by simp [hone])
            simp [next, runRoutin, hlooper', hpoint, hstate, hjob, hrun, hthrows]
  | pushRunfunc caller runFunc runImmediatly => rfl
  | pickLooper caller => rfl
  | trigRunFunc caller => rfl
  | pushLooper id => rfl
  | wakeUp id => rfl

/-- A run whose executed jobs return is the run of a pool whose jobs never throw. -/
theorem execute_of_returns {labels : List (Action Job)} (pool : CThreadPool Job)
    (h : Lib.Meets (next throws) (Returns throws) pool labels) :
    Lib.execute (next fun _ => false) pool labels = Lib.execute (next throws) pool labels ∧
      executed (fun _ => false) pool labels = executed throws pool labels := by
  induction labels generalizing pool with
  | nil => exact ⟨rfl, rfl⟩
  | cons a labels ih =>
      obtain ⟨hreturns, hrest⟩ := h
      rw [Lib.execute, Lib.execute, executed, executed, next_of_returns hreturns]
      cases hnext : next throws pool a with
      | none => exact ⟨rfl, rfl⟩
      | some pool' =>
          rw [hnext] at hrest
          obtain ⟨hexecute, hexecuted⟩ := ih pool' hrest
          exact ⟨hexecute, congrArg (executes pool a ++ ·) hexecuted⟩

/-- Every worker that executes a job goes on to its next queue check, and the run executes what it
would without exceptions, exactly if no job that it executes throws. -/
theorem workers_go_on_iff (throws : Job → Bool) {n : Nat} {labels : List (Action Job)}
    {pool : CThreadPool Job} (h : Lib.execute (next throws) (create Job n) labels = some pool) :
    (Lib.Meets (next throws) (GoesOn throws) (create Job n) labels ∧
        Lib.execute (next fun _ => false) (create Job n) labels = some pool ∧
        executed (fun _ => false) (create Job n) labels = executed throws (create Job n) labels) ↔
      Lib.Meets (next throws) (Returns throws) (create Job n) labels := by
  have hguard : GoesOn throws = Returns throws := by
    funext pool a
    exact propext goesOn_iff
  constructor
  · rintro ⟨hgoes, -⟩
    rwa [hguard] at hgoes
  · intro hreturns
    obtain ⟨hexecute, hexecuted⟩ := execute_of_returns (create Job n) hreturns
    exact ⟨hguard ▸ hreturns, hexecute.trans h, hexecuted⟩

/-- The only worker waits, is handed a job and executes it. -/
def handedOver (job : Bool) : List (Action Bool) :=
  [.runRoutin 0, .runRoutin 0, .pushLooper 0, .pushRunfunc 0 job false, .pickLooper 0,
    .trigRunFunc 0, .wakeUp 0, .runRoutin 0]

/-- The worker goes on behind a job that returns. -/
theorem handedOver_goes_on :
    ∃ pool, Lib.execute (next id) (create Bool 1) (handedOver false) = some pool ∧
      Lib.Meets (next id) (GoesOn id) (create Bool 1) (handedOver false) := by
  obtain ⟨pool, hpool⟩ :
      ∃ pool, Lib.execute (next id) (create Bool 1) (handedOver false) = some pool := ⟨_, rfl⟩
  refine ⟨pool, hpool, ((workers_go_on_iff id hpool).mpr ?_).1⟩
  refine ⟨?_, ?_, ?_, ?_, ?_, ?_, ?_, ?_, trivial⟩
  all_goals
    intro job hmem
    revert job hmem
    decide

/-- A job that throws ends the only worker; the job behind it stays in the queue, and the idle list
is empty for good. -/
theorem handedOver_throws :
    ¬∀ (throws : Bool → Bool) (n : Nat) (labels : List (Action Bool)) (pool : CThreadPool Bool),
      0 < n → Lib.execute (next throws) (create Bool n) labels = some pool →
        Lib.Meets (next throws) (GoesOn throws) (create Bool n) labels := by
  intro hgoesOn
  have hexecute : Lib.execute (next id) (create Bool 1)
      (handedOver true ++ [.pushRunfunc 0 false false, .pickLooper 0]) = some _ := rfl
  have hmeets := hgoesOn id 1 _ _ Nat.one_pos hexecute
  obtain ⟨-, -, -, -, -, -, -, hgoes, -⟩ := hmeets
  obtain ⟨-, looper, hlooper, hhead, -⟩ := hgoes (by decide) _ rfl
  obtain rfl := Option.some.inj hlooper
  cases hhead

end CThreadPool

end CommonCommunicator
