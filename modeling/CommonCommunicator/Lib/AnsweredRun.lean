import CommonCommunicator.Lib.GuardedRun

/-!
# Machines that answer questions

A machine answers one question after the other, up to an answer that ends the
run. A guard of the questions says exactly when two machines give the same
answers if related states answer alike, and stay related, under the guard, and
answer differently without it.
-/

namespace CommonCommunicator.Lib

variable {σ τ α β : Type*}

/-- The answers to the questions, up to one that ends the run. -/
def answers (next : σ → α → β × σ) (ends : β → Bool) : σ → List α → List β
  | _, [] => []
  | s, a :: questions =>
      (next s a).1 ::
        if ends (next s a).1 then [] else answers next ends (next s a).2 questions

/-- The state behind an answer that does not end the run. -/
def continues (next : σ → α → β × σ) (ends : β → Bool) (s : σ) (a : α) : Option σ :=
  if ends (next s a).1 then none else some (next s a).2

/-- Two machines give the same answers exactly if the guard holds of every question. -/
theorem answers_eq_iff {impl : σ → α → β × σ} {spec : τ → α → β × τ} {ends : β → Bool}
    {guard : τ → α → Prop} (R : σ → τ → Prop)
    (keep : ∀ s t a, R s t → guard t a →
      (impl s a).1 = (spec t a).1 ∧ R (impl s a).2 (spec t a).2)
    (lose : ∀ s t a, R s t → ¬guard t a → (impl s a).1 ≠ (spec t a).1)
    {s : σ} {t : τ} (h : R s t) (questions : List α) :
    answers impl ends s questions = answers spec ends t questions ↔
      Meets (continues spec ends) guard t questions := by
  induction questions generalizing s t with
  | nil => exact iff_of_true rfl trivial
  | cons a questions ih =>
      rw [answers, answers, Meets, List.cons.injEq]
      by_cases hguard : guard t a
      · obtain ⟨hanswer, hrelated⟩ := keep s t a h hguard
        rw [hanswer, continues]
        by_cases hends : ends (spec t a).1
        · simp [hends, hguard]
        · simpa [hends, hguard] using ih hrelated
      · exact iff_of_false (fun hsame => lose s t a h hguard hsame.1) fun hmeets =>
          hguard hmeets.1

end CommonCommunicator.Lib
