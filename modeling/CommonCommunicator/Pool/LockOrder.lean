import CommonCommunicator.Pool.MutexOwners

/-!
# The lock order of a pool and its destructor

The destructor takes the `_mtx_wake_` of a worker while it holds `mtx_map_list`,
and a worker takes `mtx_map_list` while it holds its `_mtx_wake_`. The two wait
for each other exactly if the destructor turns to a worker in `push_looper`, or a
worker whose `_mtx_wake_` the destructor waits for runs out of jobs. `join` is no
part of it.
-/

namespace CommonCommunicator

open Lib

namespace PoolTeardown

variable {Job : Type}

/-- The destructor waits for the `_mtx_wake_` of the worker. -/
def WaitsForWake (s : PoolTeardown Job) (id : Nat) : Prop :=
  s.destructor = .destroying id .lockingWake ∨ s.destructor = .destroying id .lockingClear

/-- The worker waits for `mtx_map_list`, with its `_mtx_wake_` in its hands. -/
def WaitsForMap (s : PoolTeardown Job) (id : Nat) : Prop :=
  ∃ looper, s.looper id = some looper ∧ looper.point = .announcing

/-- The destructor waits for the `_mtx_wake_` or the end of the worker, while this worker waits for
`mtx_map_list`, which the destructor holds. -/
def Deadlocked (s : PoolTeardown Job) (id : Nat) : Prop :=
  (s.WaitsForWake id ∨ s.destructor = .destroying id .joining) ∧
    s.mtxMapList = some .destructor ∧ s.WaitsForMap id

def DeadlockFree (s : PoolTeardown Job) : Prop := ∀ id, ¬s.Deadlocked id

/-- The steps that keep the two sides apart: the destructor turns to the `_mtx_wake_` of a worker
only while this worker does not wait for `mtx_map_list`, and a worker whose `_mtx_wake_` the
destructor waits for finds a job whenever it looks for one. -/
def KeepsApart (s : PoolTeardown Job) : TeardownAction → Prop
  | .worker id .load => s.WaitsForWake id → s.qRunfunc ≠ []
  | .destructor (.erase id) => ∀ looper, s.looper id = some looper → looper.takesWake = true →
      looper.point ≠ .announcing
  | .destructor .beginClear => ∀ id, s.destructor = .destroying id .clearing → ¬s.WaitsForMap id
  | _ => True

variable {s s' : PoolTeardown Job} {id : Nat} {looper looper' : LockedLooper Job}
  {throws : Job → Bool}

theorem WaitsForWake.at_lock (h : s.WaitsForWake id) : ∃ point,
    s.destructor = .destroying id point ∧ (point = .lockingWake ∨ point = .lockingClear) := by
  obtain h | h := h
  · exact ⟨_, h, .inl rfl⟩
  · exact ⟨_, h, .inr rfl⟩

/-- What a step of a worker does to that worker and to `mtx_map_list`. -/
structure WorkerMoved (s s' : PoolTeardown Job) (id : Nat) (a : WorkerAction)
    (looper looper' : LockedLooper Job) : Prop where
  thrMap : s'.thrMap = s.thrMap.set id (some looper')
  destructor : s'.destructor = s.destructor
  announces : looper'.point = .announcing → a = .load ∧ s.qRunfunc = []
  waits : looper.point = .announcing → s.mtxMapList = none
  mapList : s'.mtxMapList = s.mtxMapList ∨ s.mtxMapList = none ∨ looper.point = .listing

/-- A step of a worker that leaves `mtx_map_list` alone and does not begin `push_looper`. -/
theorem WorkerMoved.of_inside {a : WorkerAction} {point : WorkerPoint} {queue : List Job}
    (hpoint : looper.point = point) (hwaits : point ≠ .announcing)
    (hannounces : looper'.point ≠ .announcing) :
    WorkerMoved s (setLooper { s with qRunfunc := queue } id looper') id a looper looper' where
  thrMap := rfl
  destructor := rfl
  announces := (absurd · hannounces)
  waits := fun hannouncing => absurd (hpoint.symm.trans hannouncing) hwaits
  mapList := .inl rfl

theorem workerNext_spec {a : WorkerAction} (hstep : s.next throws (.worker id a) = some s') :
    ∃ looper looper', s.looper id = some looper ∧ WorkerMoved s s' id a looper looper' := by
  obtain ⟨looper, hlooper, hmove⟩ := Option.bind_eq_some_iff.mp hstep
  refine ⟨looper, ?_⟩
  cases a with
  | wakeUp =>
      obtain ⟨hwaiting, hs'⟩ := Option.ite_none_right_eq_some.mp hmove
      cases hs'
      exact ⟨_, hlooper, .of_inside hwaiting.1 (by decide) (by simp)⟩
  | turn =>
      obtain ⟨hhead, hs'⟩ := Option.ite_none_right_eq_some.mp hmove
      cases hs'
      exact ⟨_, hlooper, .of_inside hhead (by decide) (WorkerPoint.ofState_ne_announcing _)⟩
  | load =>
      obtain ⟨hloading, ⟨runFunc, queue, -, rfl⟩ | ⟨hempty, rfl⟩⟩ := load_cases hmove
      · exact ⟨_, hlooper, .of_inside hloading (by decide) (by simp)⟩
      · refine ⟨_, hlooper, rfl, rfl, fun _ => ⟨rfl, hempty⟩, ?_, .inl rfl⟩
        intro hannouncing
        cases hloading.symm.trans hannouncing
  | work =>
      obtain ⟨hworking, hcases⟩ := work_cases hmove
      have hwaits : looper.point ≠ .announcing := by simp [hworking]
      obtain ⟨-, rfl⟩ | ⟨-, -, rfl⟩ | ⟨-, job, -, -, ⟨runFunc, queue, -, rfl⟩ | ⟨-, rfl⟩⟩ := hcases
      · exact ⟨_, hlooper, .of_inside hworking (by decide) (by simp)⟩
      · exact ⟨_, hlooper, .of_inside hworking (by decide) (by simp [LockedLooper.finish])⟩
      · exact ⟨_, hlooper, .of_inside hworking (by decide) hwaits⟩
      · exact ⟨_, hlooper, .of_inside hworking (by decide) hwaits⟩
  | leave =>
      obtain ⟨hleaving, hs'⟩ := Option.ite_none_right_eq_some.mp hmove
      cases hs'
      exact ⟨_, hlooper, .of_inside hleaving (by decide) (by simp [LockedLooper.finish])⟩
  | lockMapList =>
      obtain ⟨hfree, hs'⟩ := Option.ite_none_right_eq_some.mp hmove
      cases hs'
      refine ⟨_, hlooper, rfl, rfl, ?_, fun _ => hfree.2, .inr (.inl hfree.2)⟩
      intro hannouncing
      cases hannouncing
  | pushBack =>
      obtain ⟨hlisting, hs'⟩ := Option.ite_none_right_eq_some.mp hmove
      cases hs'
      refine ⟨_, hlooper, rfl, rfl, ?_, ?_, .inr (.inr hlisting)⟩
      · intro hannouncing
        cases hannouncing
      · intro hannouncing
        cases hlisting.symm.trans hannouncing
  | wait =>
      obtain ⟨hannounced, hs'⟩ := Option.ite_none_right_eq_some.mp hmove
      cases hs'
      exact ⟨_, hlooper, .of_inside hannounced (by decide) (by simp)⟩

/-- What a step of `~OpenLOOPER` does to its worker, apart from the last one. -/
structure DestroyedMoved (s s' : PoolTeardown Job) (id : Nat) (a : DestructorAction)
    (point point' : LooperTeardown) (looper looper' : LockedLooper Job) : Prop where
  thrMap : s'.thrMap = s.thrMap.set id (some looper')
  destructor : s.destructor = .destroying id point
  destructor' : s'.destructor = .destroying id point'
  stays : looper'.point = looper.point
  locks : point = .lockingWake → looper.mtxWake = none
  ends : point ≠ .lockingClear
  begins : point' ≠ .lockingWake
  clears : point' = .lockingClear → a = .beginClear ∧ point = .clearing

theorem DestroyedMoved.of_quiet {a : DestructorAction} {point point' : LooperTeardown}
    (hdestructor : s.destructor = .destroying id point) (hstays : looper'.point = looper.point)
    (hlocks : point ≠ .lockingWake) (hends : point ≠ .lockingClear)
    (hbegins : point' ≠ .lockingWake) (hclears : point' ≠ .lockingClear) :
    DestroyedMoved s (setLooper { s with destructor := .destroying id point' } id looper') id a
      point point' looper looper' where
  thrMap := rfl
  destructor := hdestructor
  destructor' := rfl
  stays := hstays
  locks := (absurd · hlocks)
  ends := hends
  begins := hbegins
  clears := (absurd · hclears)

/-- What a step of the destructor can be: it has no worker before and after, it turns to a worker,
it goes on with this worker, or it destroys it. -/
theorem destructorNext_spec {a : DestructorAction} (hstep : s.destructorNext a = some s') :
    (s.destructor ∈ [.outside, .erasing] ∧ s'.destructor ∈ [.erasing, .done] ∧
        (s'.thrMap = s.thrMap ∨ s'.thrMap = [])) ∨
      (∃ id looper, a = .erase id ∧ s.looper id = some looper ∧ s.destructor = .erasing ∧
        s'.destructor = .destroying id (if looper.takesWake then .lockingWake else .clearing) ∧
        s'.thrMap = s.thrMap) ∨
      (∃ id point point' looper looper', s.looper id = some looper ∧
        DestroyedMoved s s' id a point point' looper looper') ∨
      ∃ id looper, s.looper id = some looper ∧ s.destructor = .destroying id .lockingClear ∧
        looper.mtxWake = none ∧ s'.destructor = .erasing ∧ s'.thrMap = s.thrMap.set id none := by
  cases a with
  | destroy =>
      obtain ⟨hfree, hs'⟩ := Option.ite_none_right_eq_some.mp hstep
      cases hs'
      left
      exact ⟨by simp [hfree.1], by simp, .inl rfl⟩
  | erase id =>
      obtain ⟨looper, hlooper, hmove⟩ := Option.bind_eq_some_iff.mp hstep
      obtain ⟨herasing, hs'⟩ := Option.ite_none_right_eq_some.mp hmove
      cases hs'
      right; left
      exact ⟨id, looper, rfl, hlooper, herasing, rfl, rfl⟩
  | lockWake =>
      obtain ⟨id, looper, hdestructor, hlooper, hmove⟩ := atLooper_eq_some hstep
      obtain ⟨hfree, hs'⟩ := Option.ite_none_right_eq_some.mp hmove
      cases hs'
      right; right; left
      exact ⟨id, _, _, looper, _, hlooper, rfl, hdestructor, rfl, rfl, fun _ => hfree,
        by decide, by decide, (absurd · (by decide))⟩
  | inspect =>
      obtain ⟨id, looper, hdestructor, hlooper, hmove⟩ := atLooper_eq_some hstep
      right; right; left
      split at hmove
      · cases hmove
        exact ⟨id, _, _, looper, _, hlooper, .of_quiet hdestructor rfl (by decide) (by decide)
          (by decide) (by decide)⟩
      · cases hmove
        exact ⟨id, _, _, looper, _, hlooper, .of_quiet hdestructor rfl (by decide) (by decide)
          (by decide) (by decide)⟩
  | join =>
      obtain ⟨id, looper, hdestructor, hlooper, hmove⟩ := atLooper_eq_some hstep
      obtain ⟨-, hs'⟩ := Option.ite_none_right_eq_some.mp hmove
      cases hs'
      right; right; left
      exact ⟨id, _, _, looper, _, hlooper, .of_quiet hdestructor rfl (by decide) (by decide)
        (by decide) (by decide)⟩
  | detach =>
      obtain ⟨id, looper, hdestructor, hlooper, hmove⟩ := atLooper_eq_some hstep
      cases hmove
      right; right; left
      exact ⟨id, _, _, looper, _, hlooper, .of_quiet hdestructor rfl (by decide) (by decide)
        (by decide) (by decide)⟩
  | beginClear =>
      obtain ⟨id, looper, hdestructor, hlooper, hmove⟩ := atLooper_eq_some hstep
      cases hmove
      right; right; left
      exact ⟨id, _, _, looper, _, hlooper, rfl, hdestructor, rfl, rfl, (absurd · (by decide)),
        by decide, by decide, fun _ => ⟨rfl, rfl⟩⟩
  | clear =>
      obtain ⟨id, looper, hdestructor, hlooper, hmove⟩ := atLooper_eq_some hstep
      obtain ⟨hfree, hs'⟩ := Option.ite_none_right_eq_some.mp hmove
      cases hs'
      right; right; right
      exact ⟨id, looper, hlooper, hdestructor, hfree.1, rfl, rfl⟩
  | unlock =>
      obtain ⟨hempty, hs'⟩ := Option.ite_none_right_eq_some.mp hstep
      cases hs'
      left
      exact ⟨by simp [hempty.1], by simp, .inr rfl⟩

/-- The destructor moves no worker. -/
theorem destructorNext_point {a : DestructorAction} (hstep : s.destructorNext a = some s')
    {j : Nat} (hlooper : s'.looper j = some looper') :
    ∃ looper, s.looper j = some looper ∧ looper.point = looper'.point := by
  obtain ⟨-, -, hthr | hthr⟩ | ⟨_, _, -, -, -, -, hthr⟩ | ⟨id, _, _, looper, stored, hat, hmoved⟩ |
    ⟨id, looper, hat, -, -, -, hthr⟩ := destructorNext_spec hstep
  · rw [PoolTeardown.looper, hthr] at hlooper
    exact ⟨looper', hlooper, rfl⟩
  · rw [PoolTeardown.looper, hthr] at hlooper
    cases hlooper
  · rw [PoolTeardown.looper, hthr] at hlooper
    exact ⟨looper', hlooper, rfl⟩
  · rw [looper_set hat hmoved.thrMap] at hlooper
    split at hlooper
    · next heq =>
        cases hlooper
        rw [heq]
        exact ⟨looper, hat, hmoved.stays.symm⟩
    · exact ⟨looper', hlooper, rfl⟩
  · rw [looper_set hat hthr] at hlooper
    split at hlooper
    · cases hlooper
    · exact ⟨looper', hlooper, rfl⟩

/-- The destructor begins to wait for a `_mtx_wake_` in two places. -/
theorem destructorNext_waits {a : DestructorAction} (hstep : s.destructorNext a = some s')
    (hwaits : s'.WaitsForWake id) :
    (a = .erase id ∧ ∃ looper, s.looper id = some looper ∧ looper.takesWake = true) ∨
      (a = .beginClear ∧ s.destructor = .destroying id .clearing) := by
  obtain ⟨point, hdestructor', hpoint⟩ := hwaits.at_lock
  obtain ⟨-, hout, -⟩ | ⟨_, looper, ha, hat, -, hto, -⟩ | ⟨_, _, _, _, _, -, hmoved⟩ |
    ⟨_, _, -, -, -, hout, -⟩ := destructorNext_spec hstep
  · simp [hdestructor'] at hout
  · obtain ⟨rfl, hturned⟩ := DestructorPoint.destroying.inj (hto.symm.trans hdestructor')
    left
    refine ⟨ha, looper, hat, ?_⟩
    by_contra htakes
    rw [if_neg htakes] at hturned
    subst hturned
    simp at hpoint
  · obtain ⟨rfl, rfl⟩ := DestructorPoint.destroying.inj (hmoved.destructor'.symm.trans hdestructor')
    obtain hlocking | hclearing := hpoint
    · exact absurd hlocking hmoved.begins
    · obtain ⟨ha, rfl⟩ := hmoved.clears hclearing
      exact .inr ⟨ha, hmoved.destructor⟩
  · cases hout.symm.trans hdestructor'

/-- A worker begins to wait for `mtx_map_list` when it has found no job. -/
theorem next_waitsForMap {a : TeardownAction} (hstep : s.next throws a = some s')
    (hwaits : s'.WaitsForMap id) :
    s.WaitsForMap id ∨ (a = .worker id .load ∧ s.qRunfunc = []) := by
  obtain ⟨stored, hstored, hannouncing⟩ := hwaits
  cases a with
  | worker j a =>
      obtain ⟨looper, looper', hlooper, hmoved⟩ := workerNext_spec hstep
      rw [looper_set hlooper hmoved.thrMap] at hstored
      split at hstored
      · next heq =>
          cases hstored
          obtain ⟨rfl, hempty⟩ := hmoved.announces hannouncing
          exact .inr ⟨by rw [heq], hempty⟩
      · exact .inl ⟨stored, hstored, hannouncing⟩
  | destructor a =>
      obtain ⟨looper, hlooper, hpoint⟩ := destructorNext_point hstep hstored
      exact .inl ⟨looper, hlooper, hpoint.trans hannouncing⟩

/-- What keeps the two sides apart: the mutexes have their owners, and the destructor does not wait
for the `_mtx_wake_` of a worker that waits for `mtx_map_list`. -/
structure Apart (s : PoolTeardown Job) : Prop where
  locked : s.Locked
  waits : ∀ id, s.WaitsForWake id → ¬s.WaitsForMap id

theorem apart_ofPool (pool : CThreadPool Job) : (ofPool pool).Apart where
  locked := locked_ofPool pool
  waits := by
    intro id hwaits
    obtain heq | heq := hwaits
    · cases heq
    · cases heq

/-- A worker that the destructor joins is on its way out. -/
theorem Locked.join_free (h : s.Locked) (hjoining : s.destructor = .destroying id .joining) :
    ¬s.WaitsForMap id := by
  rintro ⟨looper, hlooper, hannouncing⟩
  have hleave := ((h.loopers id looper hlooper).joins hjoining).2
  rw [hannouncing] at hleave
  cases hleave

namespace Apart

theorem deadlockFree (h : s.Apart) : s.DeadlockFree := by
  rintro id ⟨hwaits | hjoining, -, hmap⟩
  · exact h.waits id hwaits hmap
  · exact h.locked.join_free hjoining hmap

/-- Every step that keeps the two sides apart. -/
theorem next (h : s.Apart) {a : TeardownAction} (hkeeps : s.KeepsApart a)
    (hstep : s.next throws a = some s') : s'.Apart := by
  refine ⟨h.locked.next hstep, fun id hwake hmap => ?_⟩
  obtain hmap | ⟨rfl, hempty⟩ := next_waitsForMap hstep hmap
  · cases a with
    | worker j a =>
        obtain ⟨looper, looper', -, hmoved⟩ := workerNext_spec hstep
        rw [WaitsForWake, hmoved.destructor] at hwake
        exact h.waits id hwake hmap
    | destructor a =>
        obtain ⟨rfl, looper, hlooper, htakes⟩ | ⟨rfl, hclearing⟩ := destructorNext_waits hstep hwake
        · obtain ⟨other, hother, hannouncing⟩ := hmap
          obtain rfl := Option.some.inj (hlooper.symm.trans hother)
          exact hkeeps looper hlooper htakes hannouncing
        · exact hkeeps id hclearing hmap
  · obtain ⟨looper, looper', -, hmoved⟩ := workerNext_spec hstep
    rw [WaitsForWake, hmoved.destructor] at hwake
    exact hkeeps hwake hempty

/-- The destructor holds `mtx_map_list` while it waits for a worker. -/
theorem holds_mapList (h : s.Apart) {point : LooperTeardown}
    (hdestructor : s.destructor = .destroying id point) : s.mtxMapList = some .destructor :=
  h.locked.inside (by rw [hdestructor]; rfl)

/-- A worker that finds no job while the destructor waits for its `_mtx_wake_`. -/
theorem load_deadlocks (h : s.Apart) (hkeeps : ¬s.KeepsApart (.worker id .load))
    (hstep : s.next throws (.worker id .load) = some s') : s'.Deadlocked id := by
  rw [KeepsApart, Classical.not_imp, not_not] at hkeeps
  obtain ⟨hwake, hempty⟩ := hkeeps
  obtain ⟨looper, hlooper, hmove⟩ := Option.bind_eq_some_iff.mp hstep
  obtain ⟨point, hdestructor, -⟩ := hwake.at_lock
  have hmap : s.mtxMapList = some .destructor := h.holds_mapList hdestructor
  obtain ⟨-, ⟨runFunc, queue, hqueue, -⟩ | ⟨-, rfl⟩⟩ := load_cases hmove
  · cases hempty.symm.trans hqueue
  · refine ⟨.inl hwake, hmap, { looper with runFunc := none, point := .announcing }, ?_, rfl⟩
    rw [looper_set hlooper rfl, if_pos rfl]

/-- A worker that the destructor turns to while it waits for `mtx_map_list`. -/
theorem erase_deadlocks (h : s.Apart) (hkeeps : ¬s.KeepsApart (.destructor (.erase id)))
    (hstep : s.next throws (.destructor (.erase id)) = some s') : s'.Deadlocked id := by
  rw [KeepsApart, Classical.not_forall] at hkeeps
  obtain ⟨looper, hkeeps⟩ := hkeeps
  rw [Classical.not_imp, Classical.not_imp, not_not] at hkeeps
  obtain ⟨hlooper, htakes, hannouncing⟩ := hkeeps
  obtain ⟨other, hother, hmove⟩ := Option.bind_eq_some_iff.mp hstep
  obtain rfl := Option.some.inj (hlooper.symm.trans hother)
  split at hmove
  · next herasing =>
      cases hmove
      exact ⟨.inl (.inl rfl), h.locked.inside (by rw [herasing]; rfl), looper, hlooper, hannouncing⟩
  · cases hmove

/-- A worker that the destructor has detached, and that waits for `mtx_map_list` by now. -/
theorem beginClear_deadlocks (h : s.Apart) (hkeeps : ¬s.KeepsApart (.destructor .beginClear))
    (hstep : s.next throws (.destructor .beginClear) = some s') : ¬s'.DeadlockFree := by
  obtain ⟨id, looper, hdestructor, hlooper, hmove⟩ := atLooper_eq_some hstep
  rw [KeepsApart, Classical.not_forall] at hkeeps
  obtain ⟨id', hkeeps⟩ := hkeeps
  rw [Classical.not_imp, not_not] at hkeeps
  obtain ⟨hclearing, other, hother, hannouncing⟩ := hkeeps
  obtain ⟨rfl, -⟩ := DestructorPoint.destroying.inj (hdestructor.symm.trans hclearing)
  obtain rfl := Option.some.inj (hlooper.symm.trans hother)
  cases hmove
  intro hfree
  apply hfree id
  refine ⟨.inl (.inr rfl), h.holds_mapList hdestructor, { looper with state := .notCreated }, ?_,
    hannouncing⟩
  rw [looper_set hlooper rfl, if_pos rfl]

/-- Any other step ends in a deadlock. -/
theorem lost (h : s.Apart) {a : TeardownAction} (hkeeps : ¬s.KeepsApart a)
    (hstep : s.next throws a = some s') : ¬s'.DeadlockFree := by
  cases a with
  | worker id a =>
      cases a with
      | load => exact fun hfree => hfree id (h.load_deadlocks hkeeps hstep)
      | wakeUp => exact absurd trivial hkeeps
      | turn => exact absurd trivial hkeeps
      | work => exact absurd trivial hkeeps
      | leave => exact absurd trivial hkeeps
      | lockMapList => exact absurd trivial hkeeps
      | pushBack => exact absurd trivial hkeeps
      | wait => exact absurd trivial hkeeps
  | destructor a =>
      cases a with
      | erase id => exact fun hfree => hfree id (h.erase_deadlocks hkeeps hstep)
      | beginClear => exact h.beginClear_deadlocks hkeeps hstep
      | destroy => exact absurd trivial hkeeps
      | lockWake => exact absurd trivial hkeeps
      | inspect => exact absurd trivial hkeeps
      | join => exact absurd trivial hkeeps
      | detach => exact absurd trivial hkeeps
      | clear => exact absurd trivial hkeeps
      | unlock => exact absurd trivial hkeeps

end Apart

/-- The destructor never waits in `join` for a worker that waits for `mtx_map_list`. -/
theorem join_deadlockFree (pool : CThreadPool Job)
    (run : Reachable (fun s a s' => PoolTeardown.next throws s a = some s') (ofPool pool) s)
    (hjoining : s.destructor = .destroying id .joining) : ¬s.WaitsForMap id := by
  have hlocked : s.Locked :=
    run.invariant (locked_ofPool pool) fun _ _ _ hlocked _ hstep => hlocked.next hstep
  exact hlocked.join_free hjoining

/-- A deadlock is never left again: the destructor does not move, and the worker neither. -/
theorem Deadlocked.next (hdead : s.Deadlocked id) (h : s.Locked) {a : TeardownAction}
    (hstep : s.next throws a = some s') : s'.Deadlocked id := by
  obtain ⟨hwaits, hmap, looper, hlooper, hannouncing⟩ := hdead
  have hwake : s.WaitsForWake id := by
    obtain hwake | hjoining := hwaits
    · exact hwake
    · exact absurd ⟨looper, hlooper, hannouncing⟩ (h.join_free hjoining)
  have howned : looper.mtxWake = some (.worker id) :=
    (h.loopers id looper hlooper).owns (by rw [hannouncing]; rfl)
  cases a with
  | worker j a =>
      obtain ⟨moved, moved', hmovedAt, hmoved⟩ := workerNext_spec hstep
      have hne : id ≠ j := by
        rintro rfl
        obtain rfl := Option.some.inj (hlooper.symm.trans hmovedAt)
        cases hmap.symm.trans (hmoved.waits hannouncing)
      refine ⟨.inl ?_, ?_, looper, ?_, hannouncing⟩
      · rw [WaitsForWake, hmoved.destructor]
        exact hwake
      · obtain hsame | hnone | hlisting := hmoved.mapList
        · exact hsame.trans hmap
        · cases hmap.symm.trans hnone
        · cases hmap.symm.trans ((h.loopers j moved hmovedAt).lists hlisting)
      · rw [looper_set hmovedAt hmoved.thrMap, if_neg hne]
        exact hlooper
  | destructor a =>
      obtain ⟨point, hdestructor, hpoint⟩ := hwake.at_lock
      obtain ⟨hout, -⟩ | ⟨_, _, -, -, hout, -⟩ | ⟨_, _, _, _, _, hat, hmoved⟩ |
        ⟨_, _, hat, hclearing, hfree, -⟩ := destructorNext_spec hstep
      · simp [hdestructor] at hout
      · cases hdestructor.symm.trans hout
      · have hsame := hdestructor.symm.trans hmoved.destructor
        obtain ⟨rfl, rfl⟩ := DestructorPoint.destroying.inj hsame
        obtain rfl := Option.some.inj (hlooper.symm.trans hat)
        obtain hlocking | hclearing := hpoint
        · cases howned.symm.trans (hmoved.locks hlocking)
        · exact absurd hclearing hmoved.ends
      · obtain ⟨rfl, -⟩ := DestructorPoint.destroying.inj (hdestructor.symm.trans hclearing)
        obtain rfl := Option.some.inj (hlooper.symm.trans hat)
        cases howned.symm.trans hfree

/-- A run never leaves a deadlock. -/
theorem Deadlocked.forever (h : s.Locked) (hdead : s.Deadlocked id)
    (run : Reachable (fun s a s' => PoolTeardown.next throws s a = some s') s s') :
    s'.Deadlocked id := by
  have hboth : s'.Locked ∧ s'.Deadlocked id := by
    apply run.invariant ⟨h, hdead⟩
    rintro s a s' ⟨hlocked, hdead⟩ - hstep
    exact ⟨hlocked.next hstep, hdead.next hlocked hstep⟩
  exact hboth.2

/-- In every run of a pool and its destructor there is no deadlock in any state exactly if every
step keeps the two sides apart. -/
theorem deadlockFree_iff (throws : Job → Bool) (pool : CThreadPool Job)
    {actions : List TeardownAction} {s : PoolTeardown Job}
    (h : execute (PoolTeardown.next throws) (ofPool pool) actions = some s) :
    Along (PoolTeardown.next throws) DeadlockFree (ofPool pool) actions ↔
      Meets (PoolTeardown.next throws) KeepsApart (ofPool pool) actions := by
  apply along_iff_meets Apart _ _ _ (apart_ofPool pool) h
  · exact fun s hs => hs.deadlockFree
  · exact fun s a s' hs hkeeps hstep => hs.next hkeeps hstep
  · exact fun s a s' hs hkeeps hstep => hs.lost hkeeps hstep

/-- A pool of one worker that is destroyed while the worker is in its wait. -/
def parkedThenDestroyed : List TeardownAction :=
  [.worker 0 .turn, .worker 0 .work, .worker 0 .turn, .worker 0 .load, .worker 0 .lockMapList,
    .worker 0 .pushBack, .worker 0 .wait, .destructor .destroy, .destructor (.erase 0),
    .destructor .lockWake, .destructor .inspect, .worker 0 .wakeUp, .worker 0 .turn,
    .worker 0 .leave, .destructor .join, .destructor .beginClear, .destructor .clear,
    .destructor .unlock]

theorem parkedThenDestroyed_deadlockFree :
    ∃ s, execute (PoolTeardown.next fun _ => false) (ofPool (.create Unit 1)) parkedThenDestroyed =
        some s ∧ s.destructor = .done ∧
      Along (PoolTeardown.next fun _ => false) DeadlockFree (ofPool (.create Unit 1))
        parkedThenDestroyed := by
  refine ⟨_, rfl, rfl, (deadlockFree_iff (fun _ => false) (.create Unit 1) rfl).mpr ?_⟩
  refine ⟨trivial, trivial, trivial, ?_, trivial, trivial, trivial, trivial, ?_, trivial, trivial,
    trivial, trivial, trivial, trivial, ?_, trivial, trivial, trivial⟩
  · intro hwaits
    obtain heq | heq := hwaits
    · cases heq
    · cases heq
  · intro looper hlooper _
    obtain rfl := Option.some.inj hlooper
    decide
  · intro id hclearing hmap
    obtain ⟨rfl, -⟩ := DestructorPoint.destroying.inj hclearing
    obtain ⟨looper, hlooper, hannouncing⟩ := hmap
    obtain rfl := Option.some.inj hlooper
    cases hannouncing

/-- A pool of one worker that is destroyed while the worker is about to list itself as idle. -/
def announcingThenDestroyed : List TeardownAction :=
  [.worker 0 .turn, .worker 0 .work, .worker 0 .turn, .worker 0 .load, .destructor .destroy,
    .destructor (.erase 0)]

/-- The destructor waits for the worker, and the worker for the destructor. -/
theorem announcingThenDestroyed_deadlocks :
    ¬∀ (throws : Unit → Bool) (thrMaxCnt : Nat) (actions : List TeardownAction)
      (s : PoolTeardown Unit),
      execute (PoolTeardown.next throws) (ofPool (.create Unit thrMaxCnt)) actions = some s →
        Along (PoolTeardown.next throws) DeadlockFree (ofPool (.create Unit thrMaxCnt))
          actions := by
  intro hall
  obtain ⟨-, -, -, -, -, -, hlast⟩ := hall (fun _ => false) 1 announcingThenDestroyed _ rfl
  exact hlast 0 ⟨.inl (.inl rfl), rfl, _, rfl, rfl⟩

end PoolTeardown

end CommonCommunicator
