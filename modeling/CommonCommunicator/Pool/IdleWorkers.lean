import CommonCommunicator.Pool.ThreadPool

/-!
# Idle workers

A worker that goes into its wait has put itself on the idle list, and a call of
`run_thread` takes it off to trigger it. If the other workers have emptied the
queue in between, the trigger does nothing, and the worker waits on without
being on the list. Where no trigger does that, no worker is ever forgotten.
-/

namespace CommonCommunicator

namespace CThreadPool

variable {Job : Type} {throws : Job → Bool} {pool pool' : CThreadPool Job}

/-- What a call of `run_thread` does when it triggers the worker it has picked. -/
theorem trigRunFunc_cases {caller : Nat} (h : pool.trigRunFunc caller = some pool') :
    ∃ id looper, pool.calls caller = some (.picked id) ∧ pool.thrMap[id]? = some looper ∧
      pool'.idlesList = pool.idlesList ∧ pool'.calls = pool.calls.erase caller ∧
      (looper.state ≠ .idle ∧ pool'.thrMap = pool.thrMap ∧ pool'.qRunfunc = pool.qRunfunc ∨
        looper.state = .idle ∧ ((∃ runFunc, pool.qRunfunc = runFunc :: pool'.qRunfunc ∧
          pool'.thrMap = pool.thrMap.set id
            { looper with runFunc := some runFunc, isJob := true, state := .busy }) ∨
        pool.qRunfunc = [] ∧ pool'.qRunfunc = [] ∧
          pool'.thrMap = pool.thrMap.set id { looper with runFunc := none })) := by
  rw [trigRunFunc] at h
  split at h
  · next id hcall =>
      split at h
      · cases h
      · next looper hlooper =>
          refine ⟨id, looper, hcall, hlooper, ?_⟩
          by_cases hstate : looper.state ≠ .idle
          · obtain rfl := by simpa [hstate] using h
            exact ⟨rfl, rfl, Or.inl ⟨hstate, rfl, rfl⟩⟩
          · cases hqueue : pool.qRunfunc with
            | nil =>
                obtain ⟨-, rfl⟩ := by simpa [hstate, popRunfunc, hqueue] using h
                exact ⟨rfl, rfl, Or.inr ⟨not_not.mp hstate, Or.inr ⟨rfl, rfl, rfl⟩⟩⟩
            | cons runFunc queue =>
                obtain ⟨-, rfl⟩ := by simpa [hstate, popRunfunc, hqueue] using h
                exact ⟨rfl, rfl, Or.inr ⟨not_not.mp hstate, Or.inl ⟨runFunc, rfl, rfl⟩⟩⟩
  · cases h

/-- A turn of a worker's loop changes the queue and that worker only, and the worker does not
enter its wait. -/
theorem runRoutin_effect {id : Nat} (h : runRoutin throws pool id = some pool') :
    ∃ looper queue, looper.point ≠ .waiting ∧ id < pool.thrMap.length ∧
      pool' = { pool with thrMap := pool.thrMap.set id looper, qRunfunc := queue } := by
  rw [runRoutin] at h
  split at h
  · cases h
  · next looper hlooper =>
      have hlt : id < pool.thrMap.length := (List.getElem?_eq_some_iff.mp hlooper).1
      by_cases hhead : looper.point = .head
      · rw [if_neg (not_not.mpr hhead)] at h
        cases hstate : looper.state with
        | idle =>
            cases hqueue : pool.qRunfunc with
            | nil =>
                obtain rfl := by simpa [hstate, popRunfunc, hqueue] using h
                exact ⟨_, _, by simp, hlt, rfl⟩
            | cons runFunc queue =>
                obtain rfl := by simpa [hstate, popRunfunc, hqueue] using h
                exact ⟨_, _, by simp [hhead], hlt, rfl⟩
        | busy =>
            by_cases hjob : looper.isJob = true
            · cases hrun : looper.runFunc with
              | none =>
                  obtain rfl := by simpa [hstate, hjob, hrun] using h
                  exact ⟨_, _, by simp, hlt, rfl⟩
              | some job =>
                  by_cases hthrows : throws job = true
                  · obtain rfl := by simpa [hstate, hjob, hrun, hthrows] using h
                    exact ⟨_, _, by simp, hlt, rfl⟩
                  · cases hqueue : pool.qRunfunc with
                    | nil =>
                        obtain rfl := by
                          simpa [hstate, hjob, hrun, hthrows, popRunfunc, hqueue] using h
                        exact ⟨_, _, by simp [hhead], hlt, rfl⟩
                    | cons runFunc queue =>
                        obtain rfl := by
                          simpa [hstate, hjob, hrun, hthrows, popRunfunc, hqueue] using h
                        exact ⟨_, _, by simp [hhead], hlt, rfl⟩
            · obtain rfl := by simpa [hstate, hjob] using h
              exact ⟨_, _, by simp [hhead], hlt, rfl⟩
        | exit =>
            obtain rfl := by simpa [hstate] using h
            exact ⟨_, _, by simp, hlt, rfl⟩
        | notCreated =>
            obtain rfl := by simpa [hstate] using h
            exact ⟨_, _, by simp, hlt, rfl⟩
      · simp [hhead] at h

/-- `push_looper` puts the worker on the idle list and into its wait. -/
theorem pushLooper_effect {id : Nat} (h : pool.pushLooper id = some pool') :
    ∃ looper, id < pool.thrMap.length ∧
      pool' = { pool with
        thrMap := pool.thrMap.set id looper
        idlesList := pool.idlesList ++ [id] } := by
  rw [pushLooper] at h
  split at h
  · cases h
  · next looper hlooper =>
      obtain ⟨-, rfl⟩ := by simpa using h
      exact ⟨_, (List.getElem?_eq_some_iff.mp hlooper).1, rfl⟩

theorem wakeUp_effect {id : Nat} (h : pool.wakeUp id = some pool') :
    ∃ looper, looper.point ≠ .waiting ∧ id < pool.thrMap.length ∧
      pool' = { pool with thrMap := pool.thrMap.set id looper } := by
  rw [wakeUp] at h
  split at h
  · cases h
  · next looper hlooper =>
      obtain ⟨-, rfl⟩ := by simpa using h
      exact ⟨_, by simp, (List.getElem?_eq_some_iff.mp hlooper).1, rfl⟩

/-- What a call of `run_thread` does with the idle list. -/
theorem pickLooper_cases {caller : Nat} (h : pool.pickLooper caller = some pool') :
    ∃ runImmediatly, pool.calls caller = some (.pushed runImmediatly) ∧
      ((∃ id, id ∈ pool.idlesList ∧ pool' = { pool with
          idlesList := pool.idlesList.filter (· ≠ id)
          calls := pool.calls.insert caller (.picked id) }) ∨
        (∃ id ∈ pool.idlesList, pool.thrMap.length ≤ id ∧
          pool' = { pool with calls := pool.calls.erase caller }) ∨
        pool.idlesList = [] ∧ (pool' = { pool with
            thrMap := pool.thrMap ++ [.started]
            calls := pool.calls.insert caller (.picked pool.thrMap.length) } ∨
          pool' = { pool with calls := pool.calls.erase caller })) := by
  rw [pickLooper] at h
  split at h
  · next runImmediatly hcall =>
      refine ⟨runImmediatly, hcall, ?_⟩
      cases hidles : pool.idlesList with
      | nil =>
          cases runImmediatly with
          | true =>
              obtain rfl := by simpa [hidles] using h
              exact Or.inr (Or.inr ⟨rfl, Or.inl rfl⟩)
          | false =>
              obtain rfl := by simpa [hidles] using h
              exact Or.inr (Or.inr ⟨rfl, Or.inr rfl⟩)
      | cons id idles =>
          by_cases hlt : id < pool.thrMap.length
          · obtain rfl := by simpa [hidles, hlt] using h
            exact Or.inl ⟨id, by simp, by simp⟩
          · obtain rfl := by simpa [hidles, hlt] using h
            exact Or.inr (Or.inl ⟨id, by simp, Nat.le_of_not_lt hlt, rfl⟩)
  · cases h

/-- Every worker on the idle list is there, and every parked worker is on the list or will be
triggered. -/
structure Announced (pool : CThreadPool Job) : Prop where
  known : ∀ id ∈ pool.idlesList, id < pool.thrMap.length
  announced : ∀ id, pool.Parked id → id ∈ pool.idlesList ∨ pool.Picked id

/-- The steps that lose no worker: a trigger that finds the queue empty leaves its worker where
another call finds it. -/
def KeepsWorker (pool : CThreadPool Job) : Action Job → Prop
  | .trigRunFunc caller => ∀ id, pool.calls caller = some (.picked id) → pool.Parked id →
      pool.qRunfunc ≠ [] ∨ id ∈ pool.idlesList ∨
        ∃ caller', caller' ≠ caller ∧ pool.calls caller' = some (.picked id)
  | _ => True

/-- A call that has not picked a worker, or another one, does not count for who is picked. -/
theorem picked_other {id : Nat} (caller : Nat) (hcall : pool.calls caller ≠ some (.picked id))
    (hpicked : pool.Picked id) :
    ∃ caller', caller' ≠ caller ∧ pool.calls caller' = some (.picked id) := by
  obtain ⟨caller', hpicked⟩ := hpicked
  refine ⟨caller', ?_, hpicked⟩
  rintro rfl
  exact hcall hpicked

/-- A trigger that finds the queue empty changes nothing about who is parked. -/
theorem parked_of_unchanged {id : Nat} {looper looper' : OpenLooper Job}
    (hlooper : pool.thrMap[id]? = some looper) (hthr : pool'.thrMap = pool.thrMap.set id looper')
    (hwaits : looper'.Parked ↔ looper.Parked) (id' : Nat) :
    pool'.Parked id' ↔ pool.Parked id' := by
  have hlt : id < pool.thrMap.length := (List.getElem?_eq_some_iff.mp hlooper).1
  rw [parked_of_set hthr]
  split
  · next heq =>
      subst heq
      constructor
      · rintro ⟨-, hparked⟩
        exact ⟨looper, hlooper, hwaits.mp hparked⟩
      · rintro ⟨other, hother, hparked⟩
        obtain rfl : looper = other := Option.some.inj (hlooper.symm.trans hother)
        exact ⟨hlt, hwaits.mpr hparked⟩
  · rfl

namespace Announced

theorem create (n : Nat) : (CThreadPool.create Job n).Announced := by
  constructor
  · simp [CThreadPool.create]
  · rintro id ⟨looper, hlooper, hwaiting, -⟩
    obtain rfl := List.eq_of_mem_replicate (List.mem_of_getElem? hlooper)
    cases hwaiting

/-- A worker that acts outside its wait need not be found. -/
theorem of_set (h : pool.Announced) {id : Nat} {looper : OpenLooper Job}
    (hpoint : ¬looper.Parked) (hset : pool'.thrMap = pool.thrMap.set id looper)
    (hidles : pool'.idlesList = pool.idlesList)
    (hcalls : ∀ id', id' ≠ id → pool.Picked id' → pool'.Picked id') : pool'.Announced := by
  constructor
  · rw [hidles, hset, List.length_set]
    exact h.known
  · intro id' hid'
    rw [parked_of_set hset] at hid'
    by_cases heq : id' = id
    · rw [if_pos heq] at hid'
      exact absurd hid'.2 hpoint
    · rw [if_neg heq] at hid'
      rw [hidles]
      exact (h.announced id' hid').imp_right (hcalls id' heq)

theorem runRoutin (h : pool.Announced) {id : Nat}
    (hstep : CThreadPool.runRoutin throws pool id = some pool') : pool'.Announced := by
  obtain ⟨looper, queue, hpoint, -, rfl⟩ := runRoutin_effect hstep
  exact h.of_set (fun hparked => hpoint hparked.1) rfl rfl fun _ _ hpicked => hpicked

theorem wakeUp (h : pool.Announced) {id : Nat} (hstep : pool.wakeUp id = some pool') :
    pool'.Announced := by
  obtain ⟨looper, hpoint, -, rfl⟩ := wakeUp_effect hstep
  exact h.of_set (fun hparked => hpoint hparked.1) rfl rfl fun _ _ hpicked => hpicked

theorem pushLooper (h : pool.Announced) {id : Nat} (hstep : pool.pushLooper id = some pool') :
    pool'.Announced := by
  obtain ⟨looper, hid, rfl⟩ := pushLooper_effect hstep
  constructor
  · intro id' hmem
    rw [List.length_set]
    obtain hmem | rfl := by simpa using hmem
    · exact h.known id' hmem
    · exact hid
  · intro id' hid'
    rw [parked_of_set rfl] at hid'
    by_cases heq : id' = id
    · exact Or.inl (by simp [heq])
    · rw [if_neg heq] at hid'
      exact (h.announced id' hid').imp_left (List.mem_append_left _)

theorem pushRunfunc (h : pool.Announced) {caller : Nat} {runFunc : Job} {runImmediatly : Bool}
    (hstep : pool.pushRunfunc caller runFunc runImmediatly = some pool') : pool'.Announced := by
  rw [CThreadPool.pushRunfunc] at hstep
  split at hstep
  · cases hstep
  · next hcall =>
      cases hstep
      constructor
      · exact h.known
      · intro id hid
        apply (h.announced id hid).imp_right
        intro hpicked
        obtain ⟨caller', hne, hpicked⟩ := picked_other caller (by simp [hcall]) hpicked
        exact ⟨caller', by simpa [hne] using hpicked⟩

/-- A call takes a worker off the list to trigger it; if there is none, every parked worker will be
triggered by another call. -/
theorem pickLooper (h : pool.Announced) {caller : Nat}
    (hstep : pool.pickLooper caller = some pool') : pool'.Announced := by
  obtain ⟨runImmediatly, hcall, hcases⟩ := pickLooper_cases hstep
  have hother : ∀ id, pool.Picked id →
      ∃ caller', caller' ≠ caller ∧ pool.calls caller' = some (.picked id) := by
    intro id hpicked
    exact picked_other caller (by simp [hcall]) hpicked
  obtain ⟨id, hid, rfl⟩ | ⟨id, hid, hout, -⟩ | ⟨hidles, rfl | rfl⟩ := hcases
  · constructor
    · intro id' hmem
      exact h.known id' (List.mem_filter.mp hmem).1
    · intro id' hid'
      obtain hmem | hpicked := h.announced id' hid'
      · by_cases heq : id' = id
        · exact Or.inr ⟨caller, by simp [heq]⟩
        · exact Or.inl (List.mem_filter.mpr ⟨hmem, by simp [heq]⟩)
      · obtain ⟨caller', hne, hpicked⟩ := hother id' hpicked
        exact Or.inr ⟨caller', by simpa [hne] using hpicked⟩
  · exact absurd (h.known id hid) (Nat.not_lt.mpr hout)
  · constructor
    · simp [hidles]
    · rintro id' ⟨looper, hlooper, hparked⟩
      rw [List.getElem?_append] at hlooper
      split at hlooper
      · obtain hmem | hpicked := h.announced id' ⟨looper, hlooper, hparked⟩
        · exact Or.inl hmem
        · obtain ⟨caller', hne, hpicked⟩ := hother id' hpicked
          exact Or.inr ⟨caller', by simpa [hne] using hpicked⟩
      · obtain rfl := List.mem_singleton.mp (List.mem_of_getElem? hlooper)
        cases hparked.1
  · constructor
    · exact h.known
    · intro id' hid'
      obtain hmem | hpicked := h.announced id' hid'
      · exact Or.inl hmem
      · obtain ⟨caller', hne, hpicked⟩ := hother id' hpicked
        exact Or.inr ⟨caller', by simpa [hne] using hpicked⟩

/-- A trigger wakes its worker if there is a job for it, and keeps it otherwise. -/
theorem trigRunFunc (h : pool.Announced) {caller : Nat}
    (hkept : pool.KeepsWorker (.trigRunFunc caller))
    (hstep : pool.trigRunFunc caller = some pool') : pool'.Announced := by
  obtain ⟨id, looper, hcall, hlooper, hidles, hcalls, hcases⟩ := trigRunFunc_cases hstep
  have hother : ∀ id', id' ≠ id → pool.Picked id' → pool'.Picked id' := by
    intro id' hid hpicked
    obtain ⟨caller', hne, hpicked⟩ :=
      picked_other caller (by simpa [hcall] using Ne.symm hid) hpicked
    exact ⟨caller', by simpa [hcalls, hne] using hpicked⟩
  obtain ⟨hstate, hthr, -⟩ | ⟨-, ⟨runFunc, -, hthr⟩ | ⟨hqueue, -, hthr⟩⟩ := hcases
  · -- The worker is awake: it looks at the queue itself.
    apply h.of_set (fun hparked => hstate hparked.2) _ hidles hother
    rw [hthr, ← (List.getElem?_eq_some_iff.mp hlooper).2, List.set_getElem_self]
  · exact h.of_set (by simp [OpenLooper.Parked]) hthr hidles hother
  · have hparked := parked_of_unchanged hlooper hthr Iff.rfl
    constructor
    · rw [hidles, hthr, List.length_set]
      exact h.known
    · intro id' hid'
      rw [hparked] at hid'
      rw [hidles]
      by_cases heq : id' = id
      · subst heq
        obtain hne | hmem | ⟨caller', hne, hpicked⟩ := hkept id' hcall hid'
        · exact absurd hqueue hne
        · exact Or.inl hmem
        · exact Or.inr ⟨caller', by simpa [hcalls, hne] using hpicked⟩
      · exact (h.announced id' hid').imp_right (hother id' heq)

/-- Every step that keeps its worker keeps the workers announced. -/
theorem next (h : pool.Announced) {a : Action Job} (hkept : pool.KeepsWorker a)
    (hstep : CThreadPool.next throws pool a = some pool') : pool'.Announced := by
  cases a with
  | pushRunfunc caller runFunc runImmediatly => exact h.pushRunfunc hstep
  | pickLooper caller => exact h.pickLooper hstep
  | trigRunFunc caller => exact h.trigRunFunc hkept hstep
  | runRoutin id => exact h.runRoutin hstep
  | pushLooper id => exact h.pushLooper hstep
  | wakeUp id => exact h.wakeUp hstep

end Announced

end CThreadPool

end CommonCommunicator
