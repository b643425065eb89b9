import Mathlib.Tactic.Common

/-!
# Runs of a labelled transition relation under a step condition

A run is a chain of labelled steps from a start state. A step condition, the
guard, may be required of the state before each step together with its label;
the trivial guard gives plain reachability. The induction over runs is carried
out once here: an invariant of the guarded steps is an invariant of the run.
-/

namespace CommonCommunicator.Lib

variable {σ α : Type*}

/-- States reached from `start` by steps that all meet the guard. -/
inductive GuardedRun (step : σ → α → σ → Prop) (guard : σ → α → Prop) (start : σ) : σ → Prop
  | start : GuardedRun step guard start start
  | next {s s' : σ} {a : α} (run : GuardedRun step guard start s) (met : guard s a)
      (move : step s a s') : GuardedRun step guard start s'

/-- Reachability is a run whose guard asks for nothing. -/
abbrev Reachable (step : σ → α → σ → Prop) (start : σ) : σ → Prop :=
  GuardedRun step (fun _ _ => True) start

namespace GuardedRun

variable {step : σ → α → σ → Prop} {guard : σ → α → Prop} {start s : σ}

/-- What holds at the start and is kept by every guarded step holds along the run. -/
theorem invariant {Inv : σ → Prop} (run : GuardedRun step guard start s) (base : Inv start)
    (keep : ∀ s a s', Inv s → guard s a → step s a s' → Inv s') : Inv s := by
  induction run with
  | start => exact base
  | next _ met move ih => exact keep _ _ _ ih met move

/-- A run can be put behind a first step. -/
theorem head {s₁ : σ} {a : α} (run : GuardedRun step guard s₁ s) (met : guard start a)
    (move : step start a s₁) : GuardedRun step guard start s := by
  induction run with
  | start => exact .next .start met move
  | next _ met' move' ih => exact .next ih met' move'

/-- Forward simulation: if a related state answers every guarded step with a step of its own, or
with none, then every run has a related run. -/
theorem simulation {τ β : Type*} {step' : τ → β → τ → Prop} {start' : τ} {R : σ → τ → Prop}
    (run : GuardedRun step guard start s) (base : R start start')
    (answer : ∀ s a s' t, R s t → guard s a → step s a s' →
      R s' t ∨ ∃ b t', step' t b t' ∧ R s' t') : ∃ t, Reachable step' start' t ∧ R s t := by
  induction run with
  | start => exact ⟨start', .start, base⟩
  | next _ met move ih =>
      obtain ⟨t, hrun, hrelated⟩ := ih
      obtain hstays | ⟨b, t', hmove, hmoved⟩ := answer _ _ _ t hrelated met move
      · exact ⟨t, hrun, hstays⟩
      · exact ⟨t', hrun.next trivial hmove, hmoved⟩

end GuardedRun

/-- Execute a list of labels with a partial step function. -/
def execute (next : σ → α → Option σ) : σ → List α → Option σ
  | s, [] => some s
  | s, a :: labels =>
      match next s a with
      | none => none
      | some s' => execute next s' labels

theorem execute_append {next : σ → α → Option σ} {s s' : σ} {labels : List α} (labels' : List α)
    (h : execute next s labels = some s') :
    execute next s (labels ++ labels') = execute next s' labels' := by
  induction labels generalizing s with
  | nil =>
      obtain rfl : s = s' := by simpa [execute] using h
      rfl
  | cons a labels ih =>
      rw [execute] at h
      rw [List.cons_append, execute]
      split at h
      · cases h
      · exact ih h

/-- The guard holds before every label of the list as it is executed. -/
def Meets (next : σ → α → Option σ) (guard : σ → α → Prop) : σ → List α → Prop
  | _, [] => True
  | s, a :: labels => guard s a ∧
      match next s a with
      | none => True
      | some s' => Meets next guard s' labels

/-- An execution can be met in two parts. -/
theorem Meets.append {next : σ → α → Option σ} {guard : σ → α → Prop} {s s' : σ}
    {labels labels' : List α} (h : Meets next guard s labels)
    (hrun : execute next s labels = some s') (h' : Meets next guard s' labels') :
    Meets next guard s (labels ++ labels') := by
  induction labels generalizing s with
  | nil =>
      obtain rfl : s = s' := by simpa [execute] using hrun
      exact h'
  | cons a labels ih =>
      rw [execute] at hrun
      have hrest := h.2
      rw [List.cons_append]
      refine ⟨h.1, ?_⟩
      split at hrun
      · cases hrun
      · next mid hmove =>
          rw [hmove] at hrest
          exact ih hrest hrun

/-- A guard that can be decided can be decided along an execution. -/
def Meets.decide (next : σ → α → Option σ) (guard : σ → α → Prop) [∀ s a, Decidable (guard s a)] :
    (s : σ) → (labels : List α) → Decidable (Meets next guard s labels)
  | _, [] => .isTrue trivial
  | s, a :: labels =>
      have : Decidable (match next s a with
          | none => True
          | some s' => Meets next guard s' labels) :=
        match next s a with
        | none => .isTrue trivial
        | some s' => Meets.decide next guard s' labels
      inferInstanceAs (Decidable (_ ∧ _))

instance {next : σ → α → Option σ} {guard : σ → α → Prop} [∀ s a, Decidable (guard s a)] {s : σ}
    {labels : List α} : Decidable (Meets next guard s labels) := Meets.decide next guard s labels

/-- An execution that meets a strong guard meets every weaker one. -/
theorem Meets.mono {next : σ → α → Option σ} {guard guard' : σ → α → Prop} {s : σ}
    {labels : List α} (h : Meets next guard s labels) (weaker : ∀ s a, guard s a → guard' s a) :
    Meets next guard' s labels := by
  induction labels generalizing s with
  | nil => trivial
  | cons a labels ih =>
      refine ⟨weaker s a h.1, ?_⟩
      have hrest := h.2
      split at hrest
      · trivial
      · exact ih hrest

/-- What holds of all labels of the list may be asked for besides. -/
theorem Meets.and_kind {next : σ → α → Option σ} {guard : σ → α → Prop} {s : σ} {labels : List α}
    (L : α → Prop) (h : Meets next guard s labels) (kind : ∀ a ∈ labels, L a) :
    Meets next (fun s a => guard s a ∧ L a) s labels := by
  induction labels generalizing s with
  | nil => trivial
  | cons a labels ih =>
      refine ⟨⟨h.1, kind a List.mem_cons_self⟩, ?_⟩
      have hrest := h.2
      split at hrest
      · trivial
      · exact ih hrest fun b hb => kind b (List.mem_cons_of_mem _ hb)

/-- Two guards that agree where an invariant holds are met by the same executions. The labels are
those of a kind `L`. -/
theorem meets_congr {next : σ → α → Option σ} {guard guard' : σ → α → Prop} (Inv : σ → Prop)
    (L : α → Prop) (keep : ∀ s a s', Inv s → L a → next s a = some s' → Inv s')
    (same : ∀ s a, Inv s → L a → (guard s a ↔ guard' s a)) {s : σ} {labels : List α}
    (base : Inv s) (kind : ∀ a ∈ labels, L a) :
    Meets next guard s labels ↔ Meets next guard' s labels := by
  induction labels generalizing s with
  | nil => exact Iff.rfl
  | cons a labels ih =>
      have hkind : L a := kind a List.mem_cons_self
      rw [Meets, Meets, same s a base hkind]
      apply and_congr_right
      intro _
      split
      · exact Iff.rfl
      · next s' hmove =>
          apply ih (keep s a s' base hkind hmove)
          exact fun b hb => kind b (List.mem_cons_of_mem _ hb)

/-- The property holds of every state of the execution, the first one included. -/
def Along (next : σ → α → Option σ) (P : σ → Prop) : σ → List α → Prop
  | s, [] => P s
  | s, a :: labels => P s ∧
      match next s a with
      | none => True
      | some s' => Along next P s' labels

/-- What holds along an execution holds of its last state. -/
theorem Along.last {next : σ → α → Option σ} {P : σ → Prop} {s s' : σ} {labels : List α}
    (h : Along next P s labels) (hrun : execute next s labels = some s') : P s' := by
  induction labels generalizing s with
  | nil =>
      obtain rfl : s = s' := by simpa [execute] using hrun
      exact h
  | cons a labels ih =>
      rw [execute] at hrun
      have hrest := h.2
      split at hrun
      · cases hrun
      · next mid hmove =>
          rw [hmove] at hrest
          exact ih hrest hrun

/-- If a step keeps the invariant under the guard, and breaks the property without it, then the
guard is exactly what an execution must meet for the property to hold along it. -/
theorem along_iff_meets {next : σ → α → Option σ} {guard : σ → α → Prop} {P : σ → Prop}
    (Inv : σ → Prop) (holds : ∀ s, Inv s → P s)
    (keep : ∀ s a s', Inv s → guard s a → next s a = some s' → Inv s')
    (lose : ∀ s a s', Inv s → ¬guard s a → next s a = some s' → ¬P s')
    {s s' : σ} {labels : List α} (base : Inv s) (h : execute next s labels = some s') :
    Along next P s labels ↔ Meets next guard s labels := by
  induction labels generalizing s with
  | nil => exact iff_of_true (holds s base) trivial
  | cons a labels ih =>
      rw [execute] at h
      rw [Along, Meets]
      split at h
      · cases h
      · next mid hmove =>
          have hfirst : ∀ labels, Along next P mid labels → P mid := by
            intro labels halong
            cases labels with
            | nil => exact halong
            | cons b labels => exact halong.1
          constructor
          · rintro ⟨-, halong⟩
            have hmet : guard s a := by
              by_contra hmet
              exact lose s a mid base hmet hmove (hfirst labels halong)
            exact ⟨hmet, (ih (keep s a mid base hmet hmove) h).mp halong⟩
          · rintro ⟨hmet, hmeets⟩
            exact ⟨holds s base, (ih (keep s a mid base hmet hmove) h).mpr hmeets⟩

/-- A successful execution of a label list extends a run of the step function's graph. -/
theorem GuardedRun.execute {next : σ → α → Option σ} {guard : σ → α → Prop} {start s s' : σ}
    {labels : List α} (run : GuardedRun (fun s a s' => next s a = some s') guard start s)
    (h : Lib.execute next s labels = some s') (met : Meets next guard s labels) :
    GuardedRun (fun s a s' => next s a = some s') guard start s' := by
  induction labels generalizing s with
  | nil =>
      obtain rfl : s = s' := by simpa [Lib.execute] using h
      exact run
  | cons a labels ih =>
      rw [Lib.execute] at h
      rw [Meets] at met
      split at h
      · cases h
      · next mid hmove =>
          rw [hmove] at met
          exact ih (.next run met.1 hmove) h met.2

/-- A guard that the labels of the list meet in every state is met. -/
theorem Meets.of_forall {next : σ → α → Option σ} {guard : σ → α → Prop} {labels : List α}
    (h : ∀ a ∈ labels, ∀ s, guard s a) (s : σ) : Meets next guard s labels := by
  induction labels generalizing s with
  | nil => trivial
  | cons a labels ih =>
      refine ⟨h a List.mem_cons_self s, ?_⟩
      split
      · trivial
      · exact ih (fun b hb => h b (List.mem_cons_of_mem _ hb)) _

/-- Without a guard every execution is a run. -/
theorem reachable_of_execute {next : σ → α → Option σ} {start s : σ} {labels : List α}
    (h : execute next start labels = some s) :
    Reachable (fun s a s' => next s a = some s') start s :=
  GuardedRun.execute .start h (Meets.of_forall (fun _ _ _ => trivial) start)

end CommonCommunicator.Lib
