import CommonCommunicator.Pool.PoolTeardown

/-!
# The owners of the mutexes of a pool

While a pool is destroyed, a worker in its loop owns its `_mtx_wake_`, a worker in
`push_looper` owns `mtx_map_list`, and so does the destructor from its first to
its last step. This holds in every run. It also settles `join`: the destructor
only joins a worker that it has found in its wait, and such a worker ends.
-/

namespace CommonCommunicator

open Lib

namespace PoolTeardown

variable {Job : Type}

/-- What the owners of the mutexes say about one worker. -/
structure Locks (s : PoolTeardown Job) (id : Nat) (looper : LockedLooper Job) : Prop where
  owns : looper.point.inLoop = true → looper.mtxWake = some (.worker id)
  lists : looper.point = .listing → s.mtxMapList = some (.worker id)
  holds : s.destructor = .destroying id .holdingWake → looper.mtxWake = some .destructor
  joins : s.destructor = .destroying id .joining →
    looper.state = .exit ∧ looper.point.canLeave = true

/-- The mutexes have the owners that the threads take them to have. -/
structure Locked (s : PoolTeardown Job) : Prop where
  inside : s.destructor.inside = true → s.mtxMapList = some .destructor
  loopers : ∀ id looper, s.looper id = some looper → s.Locks id looper

variable {s s' : PoolTeardown Job} {id : Nat} {looper looper' : LockedLooper Job}
  {throws : Job → Bool}

/-- A worker that the destructor neither has locked nor joins depends on the mutexes only. -/
theorem Locks.elsewhere (h : s.Locks id looper)
    (hlists : looper.point = .listing → s'.mtxMapList = some (.worker id))
    (hholding : s'.destructor ≠ .destroying id .holdingWake)
    (hjoining : s'.destructor ≠ .destroying id .joining) : s'.Locks id looper where
  owns := h.owns
  lists := hlists
  holds := (absurd · hholding)
  joins := (absurd · hjoining)

theorem Locks.congr (h : s.Locks id looper) (hmap : s'.mtxMapList = s.mtxMapList)
    (hdestructor : s'.destructor = s.destructor) : s'.Locks id looper where
  owns := h.owns
  lists := fun hlisting => hmap.trans (h.lists hlisting)
  holds := fun hholding => h.holds (hdestructor.symm.trans hholding)
  joins := fun hjoining => h.joins (hdestructor.symm.trans hjoining)

theorem locked_ofPool (pool : CThreadPool Job) : (ofPool pool).Locked where
  inside := by
    intro hinside
    cases hinside
  loopers := by
    intro id looper hlooper
    rw [looper_ofPool] at hlooper
    obtain ⟨opened, -, rfl⟩ := Option.map_eq_some_iff.mp hlooper
    constructor
    · exact fun hloop => if_pos (WorkerPoint.ofPoint_inLoop hloop)
    · exact fun hlisting => absurd hlisting (WorkerPoint.ofPoint_ne_listing _)
    · intro hholding
      cases hholding
    · intro hjoining
      cases hjoining

namespace Locks

/-- A worker that keeps its `_mtx_wake_`. -/
theorem stays (h : s.Locks id looper) (hloop : looper.point.inLoop = true)
    (hwake : looper'.mtxWake = looper.mtxWake) (hlisting : looper'.point ≠ .listing)
    (hleaves : looper.state = .exit → looper.point.canLeave = true →
      looper'.state = .exit ∧ looper'.point.canLeave = true) : s.Locks id looper' where
  owns := fun _ => hwake.trans (h.owns hloop)
  lists := fun hlists => absurd hlists hlisting
  holds := fun hholding => by cases (h.owns hloop).symm.trans (h.holds hholding)
  joins := fun hjoining => hleaves (h.joins hjoining).1 (h.joins hjoining).2

/-- A worker that gives its `_mtx_wake_` back. -/
theorem releases (h : s.Locks id looper) (hloop : looper.point.inLoop = true)
    (hloop' : looper'.point.inLoop = false)
    (hleaves : looper.state = .exit → looper.point.canLeave = true →
      looper'.state = .exit ∧ looper'.point.canLeave = true) : s.Locks id looper' where
  owns := fun howns => by cases hloop'.symm.trans howns
  lists := fun hlists => by
    rw [hlists] at hloop'
    cases hloop'
  holds := fun hholding => by cases (h.owns hloop).symm.trans (h.holds hholding)
  joins := fun hjoining => hleaves (h.joins hjoining).1 (h.joins hjoining).2

end Locks

namespace Locked

/-- A step of a worker that leaves `mtx_map_list` alone. -/
theorem storeWorker (h : s.Locked) (hlooper : s.looper id = some looper)
    (hown : s.Locks id looper') {queue : List Job} {idles : List Nat} :
    Locked { s with
      qRunfunc := queue, idlesList := idles, thrMap := s.thrMap.set id (some looper') } where
  inside := h.inside
  loopers := by
    intro j other hother
    rw [looper_set hlooper rfl] at hother
    split at hother
    · next heq =>
        cases hother
        rw [heq]
        exact hown.congr rfl rfl
    · exact (h.loopers j other hother).congr rfl rfl

theorem wakeUp (h : s.Locked) (hlooper : s.looper id = some looper)
    (hstep : s.wakeUp id looper = some s') : s'.Locked := by
  have hown := h.loopers id looper hlooper
  obtain ⟨hfree, hs'⟩ := Option.ite_none_right_eq_some.mp hstep
  cases hs'
  refine h.storeWorker hlooper ⟨fun _ => rfl, ?_, ?_, ?_⟩
  · intro hlisting
    cases hlisting
  · intro hholding
    cases hfree.2.symm.trans (hown.holds hholding)
  · intro hjoining
    exact ⟨(hown.joins hjoining).1, rfl⟩

theorem turn (h : s.Locked) (hlooper : s.looper id = some looper)
    (hstep : s.turn id looper = some s') : s'.Locked := by
  have hown := h.loopers id looper hlooper
  obtain ⟨hhead, hs'⟩ := Option.ite_none_right_eq_some.mp hstep
  cases hs'
  apply h.storeWorker hlooper
  refine hown.stays (by rw [hhead]; rfl) rfl (WorkerPoint.ofState_ne_listing _) ?_
  intro hexit _
  rw [hexit]
  exact ⟨rfl, rfl⟩

theorem load (h : s.Locked) (hlooper : s.looper id = some looper)
    (hstep : s.load id looper = some s') : s'.Locked := by
  have hown := h.loopers id looper hlooper
  obtain ⟨hloading, hcases⟩ := load_cases hstep
  have hloop : looper.point.inLoop = true := by rw [hloading]; rfl
  have hleaves : looper.point.canLeave ≠ true := by simp [hloading, WorkerPoint.canLeave]
  obtain ⟨runFunc, queue, -, rfl⟩ | ⟨-, rfl⟩ := hcases
  · apply h.storeWorker hlooper
    exact hown.stays hloop rfl (by simp) fun _ hleave => absurd hleave hleaves
  · apply h.storeWorker hlooper
    exact hown.stays hloop rfl (by simp) fun _ hleave => absurd hleave hleaves

theorem work (h : s.Locked) (hlooper : s.looper id = some looper)
    (hstep : s.work throws id looper = some s') : s'.Locked := by
  have hown := h.loopers id looper hlooper
  obtain ⟨hworking, hcases⟩ := work_cases hstep
  have hloop : looper.point.inLoop = true := by rw [hworking]; rfl
  have hleaves : looper.point.canLeave ≠ true := by simp [hworking, WorkerPoint.canLeave]
  have hlisting : looper.point ≠ .listing := by simp [hworking]
  obtain ⟨-, rfl⟩ | ⟨-, -, rfl⟩ | ⟨-, job, -, -, ⟨runFunc, queue, -, rfl⟩ | ⟨-, rfl⟩⟩ := hcases
  · apply h.storeWorker hlooper
    exact hown.stays hloop rfl (by simp) fun _ hleave => absurd hleave hleaves
  · apply h.storeWorker hlooper
    exact hown.releases hloop rfl fun _ hleave => absurd hleave hleaves
  · apply h.storeWorker hlooper
    exact hown.stays hloop rfl hlisting fun _ hleave => absurd hleave hleaves
  · apply h.storeWorker hlooper
    exact hown.stays hloop rfl hlisting fun _ hleave => absurd hleave hleaves

theorem leave (h : s.Locked) (hlooper : s.looper id = some looper)
    (hstep : s.leave id looper = some s') : s'.Locked := by
  have hown := h.loopers id looper hlooper
  obtain ⟨hleaving, hs'⟩ := Option.ite_none_right_eq_some.mp hstep
  cases hs'
  apply h.storeWorker hlooper
  exact hown.releases (by rw [hleaving]; rfl) rfl fun _ _ => ⟨rfl, rfl⟩

theorem wait (h : s.Locked) (hlooper : s.looper id = some looper)
    (hstep : s.wait id looper = some s') : s'.Locked := by
  have hown := h.loopers id looper hlooper
  obtain ⟨hannounced, hs'⟩ := Option.ite_none_right_eq_some.mp hstep
  cases hs'
  apply h.storeWorker hlooper
  exact hown.releases (by rw [hannounced]; rfl) rfl fun hexit _ => ⟨hexit, rfl⟩

/-- No worker holds `mtx_map_list` while it has another owner. -/
theorem not_listing (h : s.Locked) {j : Nat} {other : LockedLooper Job}
    (hother : s.looper j = some other) (howner : s.mtxMapList ≠ some (.worker j)) :
    other.point ≠ .listing :=
  fun hlisting => howner ((h.loopers j other hother).lists hlisting)

/-- The destructor is outside while it does not own `mtx_map_list`. -/
theorem not_inside (h : s.Locked) (howner : s.mtxMapList ≠ some .destructor) :
    s.destructor.inside ≠ true :=
  fun hinside => howner (h.inside hinside)

/-- A step in `push_looper`: the worker takes `mtx_map_list` or gives it back. -/
theorem storeLister (h : s.Locked) (hlooper : s.looper id = some looper)
    (howner : s.mtxMapList = none ∨ s.mtxMapList = some (.worker id))
    (hwake : looper'.mtxWake = some (.worker id)) {owner : Option PoolThread}
    (hlists : looper'.point = .listing → owner = some (.worker id)) {idles : List Nat} :
    Locked { s with
      mtxMapList := owner, idlesList := idles, thrMap := s.thrMap.set id (some looper') } := by
  have hinside : s.destructor.inside ≠ true := by
    apply h.not_inside
    obtain howner | howner := howner
    · simp [howner]
    · simp [howner]
  have haway : ∀ j point, s.destructor ≠ .destroying j point := by
    intro j point hdestroying
    rw [hdestroying] at hinside
    exact hinside rfl
  constructor
  · exact fun hinside' => absurd hinside' hinside
  · intro j other hother
    rw [looper_set hlooper rfl] at hother
    split at hother
    · next heq =>
        cases hother
        rw [heq]
        exact ⟨fun _ => hwake, hlists, (absurd · (haway id _)), (absurd · (haway id _))⟩
    · next hne =>
        have hother' : other.point ≠ .listing := by
          apply h.not_listing hother
          obtain howner | howner := howner
          · simp [howner]
          · simp [howner, Ne.symm hne]
        exact (h.loopers j other hother).elsewhere (absurd · hother') (haway j _) (haway j _)

theorem lockMapList (h : s.Locked) (hlooper : s.looper id = some looper)
    (hstep : s.lockMapList id looper = some s') : s'.Locked := by
  have hown := h.loopers id looper hlooper
  obtain ⟨hfree, hs'⟩ := Option.ite_none_right_eq_some.mp hstep
  cases hs'
  apply h.storeLister hlooper (.inl hfree.2)
  · exact hown.owns (by rw [hfree.1]; rfl)
  · exact fun _ => rfl

theorem pushBack (h : s.Locked) (hlooper : s.looper id = some looper)
    (hstep : s.pushBack id looper = some s') : s'.Locked := by
  have hown := h.loopers id looper hlooper
  obtain ⟨hlisting, hs'⟩ := Option.ite_none_right_eq_some.mp hstep
  cases hs'
  apply h.storeLister hlooper (.inr (hown.lists hlisting))
  · exact hown.owns (by rw [hlisting]; rfl)
  · intro hannounced
    cases hannounced

/-- Every step of a worker. -/
theorem workerNext (h : s.Locked) {a : WorkerAction}
    (hstep : s.workerNext throws id a = some s') : s'.Locked := by
  obtain ⟨looper, hlooper, hmove⟩ := Option.bind_eq_some_iff.mp hstep
  cases a with
  | wakeUp => exact h.wakeUp hlooper hmove
  | turn => exact h.turn hlooper hmove
  | load => exact h.load hlooper hmove
  | work => exact h.work hlooper hmove
  | leave => exact h.leave hlooper hmove
  | lockMapList => exact h.lockMapList hlooper hmove
  | pushBack => exact h.pushBack hlooper hmove
  | wait => exact h.wait hlooper hmove

end Locked

namespace Locked

/-- The destructor moves on with one worker, which it may store. -/
theorem storeDestroyed (h : s.Locked) {point point' : LooperTeardown}
    (hdestructor : s.destructor = .destroying id point) (hlooper : s.looper id = some looper)
    (hown : Locks { s with destructor := .destroying id point' } id looper') :
    Locked { s with
      destructor := .destroying id point', thrMap := s.thrMap.set id (some looper') } where
  inside := fun _ => h.inside (by rw [hdestructor]; rfl)
  loopers := by
    intro j other hother
    rw [looper_set hlooper rfl] at hother
    split at hother
    · next heq =>
        cases hother
        rw [heq]
        exact hown.congr rfl rfl
    · next hne =>
        have haway : ∀ point, DestructorPoint.destroying id point' ≠ .destroying j point :=
          fun point heq => hne (DestructorPoint.destroying.inj heq).1.symm
        have hlocks := h.loopers j other hother
        exact hlocks.elsewhere hlocks.lists (haway _) (haway _)

/-- What the destructor stores without a mutex, or after the thread has been given up. -/
theorem passes (h : s.Locked) {point point' : LooperTeardown}
    (hdestructor : s.destructor = .destroying id point) (hlooper : s.looper id = some looper)
    (hpoint : looper'.point = looper.point) (hwake : looper'.mtxWake = looper.mtxWake)
    (hholding : point' ≠ .holdingWake) (hjoining : point' ≠ .joining) :
    Locked { s with
      destructor := .destroying id point', thrMap := s.thrMap.set id (some looper') } := by
  have hown := h.loopers id looper hlooper
  apply h.storeDestroyed hdestructor hlooper
  constructor
  · intro hloop
    rw [hwake]
    exact hown.owns (hpoint ▸ hloop)
  · exact fun hlisting => hown.lists (hpoint.symm.trans hlisting)
  · exact fun heq => absurd (DestructorPoint.destroying.inj heq).2 hholding
  · exact fun heq => absurd (DestructorPoint.destroying.inj heq).2 hjoining

theorem destroy (h : s.Locked) (hstep : s.destroy = some s') : s'.Locked := by
  obtain ⟨hfree, hs'⟩ := Option.ite_none_right_eq_some.mp hstep
  cases hs'
  refine ⟨fun _ => rfl, fun j other hother => ?_⟩
  have hlisting : other.point ≠ .listing := h.not_listing hother (by simp [hfree.2])
  apply (h.loopers j other hother).elsewhere (absurd · hlisting)
  · intro heq
    cases heq
  · intro heq
    cases heq

theorem erase (h : s.Locked) (hstep : s.erase id = some s') : s'.Locked := by
  obtain ⟨looper, hlooper, hstep⟩ := Option.bind_eq_some_iff.mp hstep
  obtain ⟨herasing, hs'⟩ := Option.ite_none_right_eq_some.mp hstep
  cases hs'
  refine ⟨fun _ => h.inside (by rw [herasing]; rfl), fun j other hother => ?_⟩
  have hlocks := h.loopers j other hother
  refine hlocks.elsewhere hlocks.lists ?_ ?_
  · intro heq
    have hpoint := (DestructorPoint.destroying.inj heq).2
    split at hpoint
    · cases hpoint
    · cases hpoint
  · intro heq
    have hpoint := (DestructorPoint.destroying.inj heq).2
    split at hpoint
    · cases hpoint
    · cases hpoint

theorem lockWake (h : s.Locked) (hstep : s.lockWake = some s') : s'.Locked := by
  obtain ⟨id, looper, hdestructor, hlooper, hmove⟩ := atLooper_eq_some hstep
  have hown := h.loopers id looper hlooper
  obtain ⟨hfree, hs'⟩ := Option.ite_none_right_eq_some.mp hmove
  cases hs'
  apply h.storeDestroyed hdestructor hlooper
  constructor
  · intro hloop
    cases hfree.symm.trans (hown.owns hloop)
  · exact hown.lists
  · exact fun _ => rfl
  · intro hjoining
    cases (DestructorPoint.destroying.inj hjoining).2

/-- A worker that `~OpenLOOPER` joins is in its wait or behind its end. -/
theorem inspect (h : s.Locked) (hstep : s.inspect = some s') : s'.Locked := by
  obtain ⟨id, looper, hdestructor, hlooper, hmove⟩ := atLooper_eq_some hstep
  have hown := h.loopers id looper hlooper
  have hloop : looper.point.inLoop ≠ true := by
    intro hloop
    cases (hown.owns hloop).symm.trans (hown.holds hdestructor)
  split at hmove
  · cases hmove
    apply h.storeDestroyed hdestructor hlooper
    constructor
    · exact fun howns => absurd howns hloop
    · exact hown.lists
    · intro hholding
      cases (DestructorPoint.destroying.inj hholding).2
    · exact fun _ => ⟨rfl, WorkerPoint.canLeave_of_not_inLoop hloop⟩
  · cases hmove
    apply h.storeDestroyed hdestructor hlooper
    constructor
    · exact fun howns => absurd howns hloop
    · exact hown.lists
    · intro hholding
      cases (DestructorPoint.destroying.inj hholding).2
    · intro hjoining
      cases (DestructorPoint.destroying.inj hjoining).2

theorem join (h : s.Locked) (hstep : s.join = some s') : s'.Locked := by
  obtain ⟨id, looper, hdestructor, hlooper, hmove⟩ := atLooper_eq_some hstep
  obtain ⟨-, hs'⟩ := Option.ite_none_right_eq_some.mp hmove
  cases hs'
  exact h.passes hdestructor hlooper rfl rfl (by decide) (by decide)

theorem detach (h : s.Locked) (hstep : s.detach = some s') : s'.Locked := by
  obtain ⟨id, looper, hdestructor, hlooper, hmove⟩ := atLooper_eq_some hstep
  cases hmove
  exact h.passes hdestructor hlooper rfl rfl (by decide) (by decide)

theorem beginClear (h : s.Locked) (hstep : s.beginClear = some s') : s'.Locked := by
  obtain ⟨id, looper, hdestructor, hlooper, hmove⟩ := atLooper_eq_some hstep
  cases hmove
  exact h.passes hdestructor hlooper rfl rfl (by decide) (by decide)

theorem clear (h : s.Locked) (hstep : s.clear = some s') : s'.Locked := by
  obtain ⟨id, looper, hdestructor, hlooper, hmove⟩ := atLooper_eq_some hstep
  obtain ⟨-, hs'⟩ := Option.ite_none_right_eq_some.mp hmove
  cases hs'
  refine ⟨fun _ => h.inside (by rw [hdestructor]; rfl), fun j other hother => ?_⟩
  rw [looper_set hlooper rfl] at hother
  split at hother
  · cases hother
  · have hlocks := h.loopers j other hother
    refine hlocks.elsewhere hlocks.lists ?_ ?_
    · intro heq
      cases heq
    · intro heq
      cases heq

theorem unlock (hstep : s.unlock = some s') : s'.Locked := by
  obtain ⟨-, hs'⟩ := Option.ite_none_right_eq_some.mp hstep
  cases hs'
  constructor
  · intro hinside
    cases hinside
  · intro j other hother
    cases hother

/-- Every step of the destructor. -/
theorem destructorNext (h : s.Locked) {a : DestructorAction}
    (hstep : s.destructorNext a = some s') : s'.Locked := by
  cases a with
  | destroy => exact h.destroy hstep
  | erase id => exact h.erase hstep
  | lockWake => exact h.lockWake hstep
  | inspect => exact h.inspect hstep
  | join => exact h.join hstep
  | detach => exact h.detach hstep
  | beginClear => exact h.beginClear hstep
  | clear => exact h.clear hstep
  | unlock => exact unlock hstep

theorem next (h : s.Locked) {a : TeardownAction} (hstep : s.next throws a = some s') :
    s'.Locked := by
  cases a with
  | worker id a => exact h.workerNext hstep
  | destructor a => exact h.destructorNext hstep

end Locked

end PoolTeardown

end CommonCommunicator
