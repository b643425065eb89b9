import CommonCommunicator.Pool.IdleWorkers

/-!
# Forgotten workers

A worker counts as usable while its thread is in its loop and, should it be
parked, a call of `run_thread` can find it or will trigger it. With jobs that
do not throw no worker leaves its loop, and all workers stay usable exactly as
long as every trigger keeps its worker.
-/

namespace CommonCommunicator

namespace OpenLooper

variable {Job : Type}

/-- The worker is in its loop, and a busy worker that has been given a job has one. -/
structure Alive (looper : OpenLooper Job) : Prop where
  inside : looper.point ≠ .ended
  runs : looper.state = .idle ∧ looper.isJob = false ∨
    looper.state = .busy ∧ (looper.isJob = true → looper.runFunc ≠ none)

theorem started_alive : (started : OpenLooper Job).Alive := by
  constructor
  · simp [started]
  · simp [started]

end OpenLooper

namespace CThreadPool

variable {Job : Type} {pool pool' : CThreadPool Job}

/-- The worker is in its loop, and if it is parked, a call can find it or will trigger it. -/
structure Usable (pool : CThreadPool Job) (id : Nat) : Prop where
  inside : ∃ looper, pool.thrMap[id]? = some looper ∧ looper.point ≠ .ended
  found : pool.Parked id → id ∈ pool.idlesList ∨ pool.Picked id

/-- There are at least `n` workers, and all of them are usable. -/
structure NoneForgotten (n : Nat) (pool : CThreadPool Job) : Prop where
  enough : n ≤ pool.thrMap.length
  usable : ∀ id < pool.thrMap.length, pool.Usable id

/-- At least `n` workers are in their loops and can be found. -/
structure Staffed (n : Nat) (pool : CThreadPool Job) : Prop where
  enough : n ≤ pool.thrMap.length
  alive : ∀ looper ∈ pool.thrMap, looper.Alive
  announced : pool.Announced

/-- A turn leaves a worker in its loop when its job does not throw. -/
theorem runRoutin_alive {id : Nat} {looper : OpenLooper Job}
    (hlooper : pool.thrMap[id]? = some looper) (halive : looper.Alive)
    (h : runRoutin (fun _ => false) pool id = some pool') :
    ∃ looper', looper'.Alive ∧ pool'.thrMap = pool.thrMap.set id looper' := by
  obtain ⟨hinside, ⟨hstate, hjob⟩ | ⟨hstate, hrun⟩⟩ := halive
  · by_cases hhead : looper.point = .head
    · cases hqueue : pool.qRunfunc with
      | nil =>
          obtain rfl := by simpa [runRoutin, hlooper, hhead, hstate, popRunfunc, hqueue] using h
          refine ⟨_, ?_, rfl⟩
          exact ⟨by simp, Or.inl ⟨rfl, hjob⟩⟩
      | cons runFunc queue =>
          obtain rfl := by simpa [runRoutin, hlooper, hhead, hstate, popRunfunc, hqueue] using h
          refine ⟨_, ?_, rfl⟩
          exact ⟨by simp, Or.inr ⟨rfl, by simp⟩⟩
    · simp [runRoutin, hlooper, hhead] at h
  · by_cases hhead : looper.point = .head
    · cases hjob : looper.isJob with
      | false =>
          obtain rfl := by simpa [runRoutin, hlooper, hhead, hstate, hjob] using h
          refine ⟨_, ?_, rfl⟩
          exact ⟨by simp, Or.inl ⟨rfl, rfl⟩⟩
      | true =>
          obtain ⟨job, hsome⟩ := Option.ne_none_iff_exists'.mp (hrun hjob)
          cases hqueue : pool.qRunfunc with
          | nil =>
              obtain rfl := by
                simpa [runRoutin, hlooper, hhead, hstate, hjob, hsome, popRunfunc, hqueue] using h
              refine ⟨_, ?_, rfl⟩
              exact ⟨by simp, Or.inr ⟨rfl, by simp⟩⟩
          | cons runFunc queue =>
              obtain rfl := by
                simpa [runRoutin, hlooper, hhead, hstate, hjob, hsome, popRunfunc, hqueue] using h
              refine ⟨_, ?_, rfl⟩
              exact ⟨by simp, Or.inr ⟨rfl, by simp⟩⟩
    · simp [runRoutin, hlooper, hhead] at h

/-- Going into the wait and coming out of it leaves a worker in its loop. -/
theorem pushLooper_alive {id : Nat} {looper : OpenLooper Job}
    (hlooper : pool.thrMap[id]? = some looper) (halive : looper.Alive)
    (h : pool.pushLooper id = some pool') :
    ∃ looper', looper'.Alive ∧ pool'.thrMap = pool.thrMap.set id looper' := by
  obtain ⟨-, rfl⟩ := by simpa [pushLooper, hlooper] using h
  refine ⟨_, ?_, rfl⟩
  exact ⟨by simp, halive.runs⟩

theorem wakeUp_alive {id : Nat} {looper : OpenLooper Job}
    (hlooper : pool.thrMap[id]? = some looper) (halive : looper.Alive)
    (h : pool.wakeUp id = some pool') :
    ∃ looper', looper'.Alive ∧ pool'.thrMap = pool.thrMap.set id looper' := by
  obtain ⟨-, rfl⟩ := by simpa [wakeUp, hlooper] using h
  refine ⟨_, ?_, rfl⟩
  exact ⟨by simp, halive.runs⟩

/-- A trigger leaves its worker in its loop. -/
theorem trigRunFunc_alive {caller : Nat} (halive : ∀ looper ∈ pool.thrMap, looper.Alive)
    (h : pool.trigRunFunc caller = some pool') :
    ∃ id looper', looper'.Alive ∧ pool'.thrMap = pool.thrMap.set id looper' := by
  obtain ⟨id, looper, -, hlooper, -, -, hcases⟩ := trigRunFunc_cases h
  have hself := halive looper (List.mem_of_getElem? hlooper)
  obtain ⟨-, hthr, -⟩ | ⟨hstate, ⟨runFunc, -, hthr⟩ | ⟨-, -, hthr⟩⟩ := hcases
  · refine ⟨id, looper, hself, ?_⟩
    rw [hthr, ← (List.getElem?_eq_some_iff.mp hlooper).2, List.set_getElem_self]
  · refine ⟨id, _, ?_, hthr⟩
    exact ⟨hself.inside, Or.inr ⟨rfl, by simp⟩⟩
  · refine ⟨id, _, ?_, hthr⟩
    refine ⟨hself.inside, ?_⟩
    obtain hidle | ⟨hbusy, -⟩ := hself.runs
    · exact Or.inl hidle
    · simp [hstate] at hbusy

namespace Staffed

variable {n : Nat}

theorem create (n : Nat) : (CThreadPool.create Job n).Staffed n := by
  refine ⟨?_, ?_, Announced.create n⟩
  · simp [CThreadPool.create]
  · intro looper hmem
    rw [List.eq_of_mem_replicate hmem]
    exact OpenLooper.started_alive

theorem noneForgotten (h : pool.Staffed n) : pool.NoneForgotten n := by
  refine ⟨h.enough, ?_⟩
  intro id hid
  refine ⟨⟨_, List.getElem?_eq_getElem hid, ?_⟩, h.announced.announced id⟩
  exact (h.alive _ (List.getElem_mem hid)).inside

/-- A worker that has been stored in its loop again. -/
theorem of_set (h : pool.Staffed n) (hannounced : pool'.Announced) {id : Nat}
    (hset : ∃ looper : OpenLooper Job, looper.Alive ∧ pool'.thrMap = pool.thrMap.set id looper) :
    pool'.Staffed n := by
  obtain ⟨looper, halive, hthr⟩ := hset
  refine ⟨?_, ?_, hannounced⟩
  · rw [hthr, List.length_set]
    exact h.enough
  · intro looper' hmem
    rw [hthr] at hmem
    obtain hmem | rfl := List.mem_or_eq_of_mem_set hmem
    · exact h.alive looper' hmem
    · exact halive

theorem of_thrMap (h : pool.Staffed n) (hannounced : pool'.Announced)
    (hthr : pool'.thrMap = pool.thrMap) : pool'.Staffed n := by
  refine ⟨?_, ?_, hannounced⟩
  · rw [hthr]
    exact h.enough
  · rw [hthr]
    exact h.alive

/-- A step that keeps its worker keeps the pool staffed. -/
theorem next (h : pool.Staffed n) {a : Action Job} (hkept : pool.KeepsWorker a)
    (hstep : CThreadPool.next (fun _ => false) pool a = some pool') : pool'.Staffed n := by
  have hannounced := h.announced.next hkept hstep
  have hthere : ∀ id : Nat, pool.thrMap[id]? ≠ none →
      ∃ looper : OpenLooper Job, pool.thrMap[id]? = some looper ∧ looper.Alive := by
    intro id hid
    obtain ⟨looper, hlooper⟩ := Option.ne_none_iff_exists'.mp hid
    exact ⟨looper, hlooper, h.alive looper (List.mem_of_getElem? hlooper)⟩
  cases a with
  | pushRunfunc caller runFunc runImmediatly =>
      apply h.of_thrMap hannounced
      rw [CThreadPool.next, pushRunfunc] at hstep
      split at hstep
      · cases hstep
      · cases hstep
        rfl
  | pickLooper caller =>
      obtain ⟨runImmediatly, -, hcases⟩ := pickLooper_cases hstep
      obtain ⟨id, -, rfl⟩ | ⟨id, -, -, rfl⟩ | ⟨-, rfl | rfl⟩ := hcases
      · exact h.of_thrMap hannounced rfl
      · exact h.of_thrMap hannounced rfl
      · refine ⟨?_, ?_, hannounced⟩
        · have henough := h.enough
          simp only [List.length_append, List.length_singleton]
          omega
        · intro looper hmem
          obtain hmem | rfl := by simpa using hmem
          · exact h.alive looper hmem
          · exact OpenLooper.started_alive
      · exact h.of_thrMap hannounced rfl
  | trigRunFunc caller =>
      obtain ⟨id, hset⟩ := trigRunFunc_alive h.alive hstep
      exact h.of_set hannounced hset
  | runRoutin id =>
      obtain ⟨looper, hlooper, halive⟩ := hthere id fun hnone => by
        simp [CThreadPool.next, runRoutin, hnone] at hstep
      exact h.of_set hannounced (runRoutin_alive hlooper halive hstep)
  | pushLooper id =>
      obtain ⟨looper, hlooper, halive⟩ := hthere id fun hnone => by
        simp [CThreadPool.next, pushLooper, hnone] at hstep
      exact h.of_set hannounced (pushLooper_alive hlooper halive hstep)
  | wakeUp id =>
      obtain ⟨looper, hlooper, halive⟩ := hthere id fun hnone => by
        simp [CThreadPool.next, wakeUp, hnone] at hstep
      exact h.of_set hannounced (wakeUp_alive hlooper halive hstep)

end Staffed

/-- A trigger that does not keep its worker forgets it. -/
theorem forgets_of_not_keepsWorker {throws : Job → Bool} {a : Action Job}
    (hlost : ¬pool.KeepsWorker a) (hstep : next throws pool a = some pool') :
    ∃ id < pool'.thrMap.length, ¬pool'.Usable id := by
  cases a with
  | trigRunFunc caller =>
      have hlost : ¬∀ id, pool.calls caller = some (.picked id) → pool.Parked id →
        pool.qRunfunc ≠ [] ∨ id ∈ pool.idlesList ∨
          ∃ caller', caller' ≠ caller ∧ pool.calls caller' = some (.picked id) := hlost
      push Not at hlost
      obtain ⟨id, hcall, hparked, hqueue, hout, hnobody⟩ := hlost
      obtain ⟨id', looper, hcall', hlooper, hidles, hcalls, hcases⟩ := trigRunFunc_cases hstep
      obtain rfl : id = id' := by simpa [hcall] using hcall'
      obtain ⟨other, hother, hwaits⟩ := hparked
      obtain rfl : looper = other := Option.some.inj (hlooper.symm.trans hother)
      have hthr : pool'.thrMap = pool.thrMap.set id { looper with runFunc := none } := by
        obtain ⟨hstate, -⟩ | ⟨-, ⟨runFunc, hcons, -⟩ | ⟨-, -, hthr⟩⟩ := hcases
        · exact absurd hwaits.2 hstate
        · simp [hqueue] at hcons
        · exact hthr
      refine ⟨id, ?_, ?_⟩
      · rw [hthr, List.length_set]
        exact (List.getElem?_eq_some_iff.mp hlooper).1
      · intro husable
        have hparked : pool'.Parked id :=
          (parked_of_unchanged hlooper hthr Iff.rfl id).mpr ⟨looper, hlooper, hwaits⟩
        obtain hmem | ⟨caller', hpicked⟩ := husable.found hparked
        · exact hout (hidles ▸ hmem)
        · rw [hcalls] at hpicked
          obtain ⟨hne, hpicked⟩ := Lib.PartialMap.of_erase_eq_some hpicked
          exact hnobody caller' hne hpicked
  | pushRunfunc caller runFunc runImmediatly => exact absurd trivial hlost
  | pickLooper caller => exact absurd trivial hlost
  | runRoutin id => exact absurd trivial hlost
  | pushLooper id => exact absurd trivial hlost
  | wakeUp id => exact absurd trivial hlost

/-- With jobs that do not throw, no worker is forgotten along a run, and there are never fewer
usable workers, exactly if every trigger finds a job, or a worker that others still find. -/
theorem none_forgotten_iff {n : Nat} {labels : List (Action Job)} {pool : CThreadPool Job}
    (h : Lib.execute (next fun _ => false) (create Job n) labels = some pool) :
    Lib.Along (next fun _ => false) (NoneForgotten n) (create Job n) labels ↔
      Lib.Meets (next fun _ => false) KeepsWorker (create Job n) labels := by
  apply Lib.along_iff_meets (Staffed n) _ _ _ (Staffed.create n) h
  · exact fun pool hstaffed => hstaffed.noneForgotten
  · exact fun pool a pool' hstaffed hkept hstep => hstaffed.next hkept hstep
  · intro pool a pool' _ hlost hstep hnone
    obtain ⟨id, hid, hunusable⟩ := forgets_of_not_keepsWorker hlost hstep
    exact hunusable (hnone.usable id hid)

/-- A worker looks at the empty queue, announces itself and is triggered. -/
def triggered : List (Action Unit) :=
  [.runRoutin 0, .runRoutin 0, .pushLooper 0, .pushRunfunc 0 () false, .pickLooper 0,
    .trigRunFunc 0]

theorem triggered_forgets_none :
    ∃ pool, Lib.execute (next fun _ => false) (create Unit 1) triggered = some pool ∧
      Lib.Along (next fun _ => false) (NoneForgotten 1) (create Unit 1) triggered := by
  obtain ⟨pool, hpool⟩ :
      ∃ pool, Lib.execute (next fun _ => false) (create Unit 1) triggered = some pool := ⟨_, rfl⟩
  refine ⟨pool, hpool, (none_forgotten_iff hpool).mpr ?_⟩
  refine ⟨trivial, trivial, trivial, trivial, trivial, ?_, trivial⟩
  exact fun _ _ _ => Or.inl (by decide)

/-- Two workers: one has announced itself and is taken off the list for a job that the other one
finds before the first one is triggered. -/
def overtaken : List (Action Unit) :=
  [.runRoutin 0, .runRoutin 0, .pushLooper 0, .runRoutin 1, .pushRunfunc 0 () false,
    .pickLooper 0, .runRoutin 1, .trigRunFunc 0]

/-- The first worker is forgotten. -/
theorem overtaken_forgets :
    ¬∀ (n : Nat) (pool : CThreadPool Unit), 0 < n →
      Lib.Reachable (Step fun _ => false) (create Unit n) pool → pool.NoneForgotten n := by
  intro hforgetsNone
  have hexecute : Lib.execute (next fun _ => false) (create Unit 2) overtaken = some _ := rfl
  have hnone := hforgetsNone 2 _ (by decide) (Lib.reachable_of_execute hexecute)
  obtain hmem | ⟨caller, hpicked⟩ := (hnone.usable 0 (by decide)).found ⟨_, rfl, by decide⟩
  · cases hmem
  · cases caller with
    | zero => cases hpicked
    | succ caller => cases hpicked

end CThreadPool

end CommonCommunicator
