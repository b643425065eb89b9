import CommonCommunicator.Pool.IdleWorkers

/-!
# Stranded jobs

A job is stranded when it is queued while nobody will look at the queue: every
worker waits and no call of `run_thread` is in progress. A worker looks at the
queue before it announces itself, and a call may come in between; a call may
also take a worker off the idle list and then find the queue empty. Without
these two races no job is ever stranded.
-/

namespace CommonCommunicator

namespace CThreadPool

variable {Job : Type} {throws : Job → Bool} {pool pool' : CThreadPool Job}

/-- Every parked worker can be found through the idle list or will be triggered, and a queued job
has somebody who will look at the queue. -/
structure Watched (pool : CThreadPool Job) : Prop where
  staffed : pool.thrMap ≠ []
  known : ∀ id ∈ pool.idlesList, id < pool.thrMap.length
  announced : ∀ id, pool.Parked id → id ∈ pool.idlesList ∨ pool.Picked id
  served : pool.qRunfunc ≠ [] → pool.InProgress ∨ ∃ id < pool.thrMap.length, ¬pool.Parked id

/-- The steps that lose neither a job nor a worker: a worker goes into its wait while the queue is
empty, and a trigger that finds the queue empty leaves its worker where another call finds it. -/
def LosesNothing (pool : CThreadPool Job) : Action Job → Prop
  | .pushLooper _ => pool.qRunfunc = []
  | .trigRunFunc caller => ∀ id, pool.calls caller = some (.picked id) → pool.Parked id →
      pool.qRunfunc ≠ [] ∨ id ∈ pool.idlesList ∨
        ∃ caller', caller' ≠ caller ∧ pool.calls caller' = some (.picked id)
  | _ => True

namespace Watched

theorem not_stranded (h : pool.Watched) : ¬pool.Stranded := by
  rintro ⟨hqueue, hcalls, hparked⟩
  obtain ⟨caller, hcall⟩ | ⟨id, hid, hnot⟩ := h.served hqueue
  · exact hcall (hcalls caller)
  · apply hnot
    exact ⟨_, List.getElem?_eq_getElem hid, hparked _ (List.getElem_mem hid)⟩

theorem toAnnounced (h : pool.Watched) : pool.Announced := ⟨h.known, h.announced⟩

/-- Announced workers are watched if there are any and somebody looks at a queue with jobs. -/
theorem of_announced (h : pool.Announced) (hstaffed : pool.thrMap ≠ [])
    (hserved : pool.qRunfunc ≠ [] →
      pool.InProgress ∨ ∃ id < pool.thrMap.length, ¬pool.Parked id) : pool.Watched :=
  ⟨hstaffed, h.known, h.announced, hserved⟩

theorem create {n : Nat} (hn : 0 < n) : (CThreadPool.create Job n).Watched := by
  apply of_announced (Announced.create n)
  · simpa [CThreadPool.create] using Nat.pos_iff_ne_zero.mp hn
  · simp [CThreadPool.create]

/-- A worker that acts outside its wait is one who looks at the queue. -/
theorem of_set (h : pool'.Announced) {id : Nat} {looper : OpenLooper Job}
    (hpoint : ¬looper.Parked) (hid : id < pool.thrMap.length)
    (hset : pool'.thrMap = pool.thrMap.set id looper) : pool'.Watched := by
  have hlength : pool'.thrMap.length = pool.thrMap.length := by rw [hset, List.length_set]
  apply of_announced h
  · exact List.ne_nil_of_length_pos (by omega)
  · intro _
    refine Or.inr ⟨id, hlength ▸ hid, ?_⟩
    rw [parked_of_set hset, if_pos rfl]
    exact fun hand => hpoint hand.2

theorem runRoutin (h : pool.Watched) {id : Nat}
    (hstep : CThreadPool.runRoutin throws pool id = some pool') : pool'.Watched := by
  have hannounced := h.toAnnounced.runRoutin hstep
  obtain ⟨looper, queue, hpoint, hid, rfl⟩ := runRoutin_effect hstep
  exact of_set hannounced (fun hparked => hpoint hparked.1) hid rfl

theorem wakeUp (h : pool.Watched) {id : Nat} (hstep : pool.wakeUp id = some pool') :
    pool'.Watched := by
  have hannounced := h.toAnnounced.wakeUp hstep
  obtain ⟨looper, hpoint, hid, rfl⟩ := wakeUp_effect hstep
  exact of_set hannounced (fun hparked => hpoint hparked.1) hid rfl

/-- A worker that announces itself is on the list; the empty queue needs nobody. -/
theorem pushLooper (h : pool.Watched) {id : Nat} (hqueue : pool.qRunfunc = [])
    (hstep : pool.pushLooper id = some pool') : pool'.Watched := by
  have hannounced := h.toAnnounced.pushLooper hstep
  obtain ⟨looper, hid, rfl⟩ := pushLooper_effect hstep
  apply of_announced hannounced
  · simpa using h.staffed
  · exact fun hne => absurd hqueue hne

theorem pushRunfunc (h : pool.Watched) {caller : Nat} {runFunc : Job} {runImmediatly : Bool}
    (hstep : pool.pushRunfunc caller runFunc runImmediatly = some pool') : pool'.Watched := by
  have hannounced := h.toAnnounced.pushRunfunc hstep
  rw [CThreadPool.pushRunfunc] at hstep
  split at hstep
  · cases hstep
  · next hcall =>
      cases hstep
      apply of_announced hannounced h.staffed
      exact fun _ => Or.inl ⟨caller, by simp⟩

/-- A call takes a worker off the list to trigger it; if there is none, every worker is awake or
will be triggered by another call. -/
theorem pickLooper (h : pool.Watched) {caller : Nat} (hstep : pool.pickLooper caller = some pool') :
    pool'.Watched := by
  have hannounced := h.toAnnounced.pickLooper hstep
  obtain ⟨runImmediatly, hcall, hcases⟩ := pickLooper_cases hstep
  obtain ⟨id, hid, rfl⟩ | ⟨id, hid, hout, -⟩ | ⟨hidles, rfl | rfl⟩ := hcases
  · apply of_announced hannounced h.staffed
    exact fun _ => Or.inl ⟨caller, by simp⟩
  · exact absurd (h.known id hid) (Nat.not_lt.mpr hout)
  · apply of_announced hannounced (by simp)
    exact fun _ => Or.inl ⟨caller, by simp⟩
  · apply of_announced hannounced h.staffed
    intro _
    by_cases hparked : pool.Parked 0
    · obtain hmem | ⟨caller', hpicked⟩ := hannounced.announced 0 hparked
      · exact absurd hmem (by simp [hidles])
      · exact Or.inl ⟨caller', Option.ne_none_iff_exists'.mpr ⟨_, hpicked⟩⟩
    · exact Or.inr ⟨0, List.length_pos_iff.mpr h.staffed, hparked⟩

/-- A trigger wakes its worker if there is a job for it. -/
theorem trigRunFunc (h : pool.Watched) {caller : Nat}
    (hkept : pool.LosesNothing (.trigRunFunc caller))
    (hstep : pool.trigRunFunc caller = some pool') : pool'.Watched := by
  have hannounced := h.toAnnounced.trigRunFunc hkept hstep
  obtain ⟨id, looper, -, hlooper, -, -, hcases⟩ := trigRunFunc_cases hstep
  have hlt : id < pool.thrMap.length := (List.getElem?_eq_some_iff.mp hlooper).1
  obtain ⟨hstate, hthr, -⟩ | ⟨-, ⟨runFunc, -, hthr⟩ | ⟨-, hqueue, hthr⟩⟩ := hcases
  · -- The worker is awake: it looks at the queue itself.
    apply of_set hannounced (fun hparked => hstate hparked.2) hlt
    rw [hthr, ← (List.getElem?_eq_some_iff.mp hlooper).2, List.set_getElem_self]
  · exact of_set hannounced (by simp [OpenLooper.Parked]) hlt hthr
  · apply of_announced hannounced
    · rw [hthr]
      simpa using h.staffed
    · exact fun hne => absurd hqueue hne

/-- Every step that loses nothing keeps the pool watched. -/
theorem next (h : pool.Watched) {a : Action Job} (hkept : pool.LosesNothing a)
    (hstep : Step throws pool a pool') : pool'.Watched := by
  cases a with
  | pushRunfunc caller runFunc runImmediatly => exact h.pushRunfunc hstep
  | pickLooper caller => exact h.pickLooper hstep
  | trigRunFunc caller => exact h.trigRunFunc hkept hstep
  | runRoutin id => exact h.runRoutin hstep
  | pushLooper id => exact h.pushLooper hkept hstep
  | wakeUp id => exact h.wakeUp hstep

end Watched

/-- No job is ever stranded if no worker goes into its wait behind a job that was queued after the
worker looked, and no trigger loses its worker. -/
theorem no_stranded_job (throws : Job → Bool) {n : Nat} (hn : 0 < n) {pool : CThreadPool Job}
    (run : Lib.GuardedRun (Step throws) LosesNothing (create Job n) pool) : ¬pool.Stranded := by
  apply Watched.not_stranded
  apply run.invariant (Watched.create hn)
  intro pool a pool' h hkept hstep
  exact h.next hkept hstep

/-- A worker looks at the empty queue, announces itself and is handed a job. -/
def handover : List (Action Unit) :=
  [.runRoutin 0, .runRoutin 0, .pushLooper 0, .pushRunfunc 0 () false, .pickLooper 0,
    .trigRunFunc 0]

theorem handover_not_stranded :
    ∃ pool, Lib.execute (next fun _ => false) (create Unit 1) handover = some pool ∧
      ¬pool.Stranded := by
  obtain ⟨pool, hpool⟩ :
      ∃ pool, Lib.execute (next fun _ => false) (create Unit 1) handover = some pool := ⟨_, rfl⟩
  refine ⟨pool, hpool, no_stranded_job (fun _ => false) (by decide) (.execute .start hpool ?_)⟩
  refine ⟨trivial, trivial, rfl, trivial, trivial, ?_, trivial⟩
  exact fun _ _ _ => Or.inl (by decide)

/-- A worker looks at the empty queue; a job is queued while the idle list is still empty; then
the worker announces itself. -/
def lateAnnouncement : List (Action Unit) :=
  [.runRoutin 0, .runRoutin 0, .pushRunfunc 0 () false, .pickLooper 0, .pushLooper 0]

/-- The job is stranded. -/
theorem lateAnnouncement_strands :
    ∃ pool, Lib.execute (next fun _ => false) (create Unit 1) lateAnnouncement = some pool ∧
      Lib.Reachable (Step fun _ => false) (create Unit 1) pool ∧ pool.Stranded := by
  have hexecute : Lib.execute (next fun _ => false) (create Unit 1) lateAnnouncement = some _ :=
    rfl
  refine ⟨_, hexecute, Lib.reachable_of_execute hexecute, ?_, ?_, ?_⟩
  · decide
  · intro caller
    exact congrFun (Lib.PartialMap.erase_insert rfl) caller
  · decide

end CThreadPool

end CommonCommunicator
