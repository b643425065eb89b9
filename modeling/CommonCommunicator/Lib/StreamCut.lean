import Mathlib.Data.List.Forall2

/-!
# Cutting a stream of chunks

Chunks of a stream are grouped by a rule that looks at chunk lengths only: a
group goes on after a chunk of the full length and ends after a shorter one.
Two factorisations of one stream into parts are equal as soon as the parts of
one are nowhere shorter than those of the other.
-/

namespace CommonCommunicator.Lib

variable {α β γ : Type*}

/-- Group chunks: a chunk of length `limit` is continued by the next chunk, any other one ends
its group. -/
def cutAtShort (limit : Nat) : List (List α) → List (List α)
  | [] => []
  | chunk :: chunks =>
      if chunk.length = limit then
        match cutAtShort limit chunks with
        | [] => [chunk]
        | group :: groups => (chunk ++ group) :: groups
      else
        chunk :: cutAtShort limit chunks

/-- Grouping neither loses nor reorders anything. -/
theorem flatten_cutAtShort (limit : Nat) (chunks : List (List α)) :
    (cutAtShort limit chunks).flatten = chunks.flatten := by
  induction chunks with
  | nil => rfl
  | cons chunk chunks ih =>
      rw [cutAtShort, List.flatten_cons, ← ih]
      by_cases hfull : chunk.length = limit
      · cases hcut : cutAtShort limit chunks with
        | nil => simp [hfull]
        | cons group groups => simp [hfull]
      · simp [hfull]

/-- A chunk of full length begins the group that the rest begins with. -/
theorem cutAtShort_cons_full {limit : Nat} {chunk : List α} {chunks : List (List α)}
    (h : chunk.length = limit) :
    cutAtShort limit (chunk :: chunks) =
      (chunk ++ (cutAtShort limit chunks).headD []) :: (cutAtShort limit chunks).tail := by
  rw [cutAtShort, if_pos h]
  cases cutAtShort limit chunks <;> simp

/-- A shorter chunk is a group of its own end. -/
theorem cutAtShort_cons_short {limit : Nat} {chunk : List α} {chunks : List (List α)}
    (h : chunk.length ≠ limit) :
    cutAtShort limit (chunk :: chunks) = chunk :: cutAtShort limit chunks := by
  rw [cutAtShort, if_neg h]

private theorem length_flatten_le {groups parts : List (List α)}
    (h : List.Forall₂ (fun group part => part.length ≤ group.length) groups parts) :
    parts.flatten.length ≤ groups.flatten.length := by
  induction h with
  | nil => exact Nat.le_refl _
  | cons hhead _ ih =>
      rw [List.flatten_cons, List.flatten_cons, List.length_append, List.length_append]
      omega

/-- Two factorisations of one stream are equal when one has nowhere the shorter part. -/
theorem eq_of_flatten_eq {groups parts : List (List α)}
    (h : List.Forall₂ (fun group part => part.length ≤ group.length) groups parts)
    (hflat : groups.flatten = parts.flatten) : groups = parts := by
  induction h with
  | nil => rfl
  | @cons group part groups parts hhead htail ih =>
      have hle := length_flatten_le htail
      have hlen := congrArg List.length hflat
      simp only [List.flatten_cons, List.length_append] at hlen
      obtain ⟨rfl, hrest⟩ := List.append_inj hflat (by omega)
      rw [ih hrest]

/-- Pairwise relations compose along a list. -/
theorem forall₂_comp {r : α → β → Prop} {s : β → γ → Prop} {as : List α} {bs : List β}
    {cs : List γ} (hr : List.Forall₂ r as bs) (hs : List.Forall₂ s bs cs) :
    List.Forall₂ (fun a c => ∃ b, r a b ∧ s b c) as cs := by
  induction hr generalizing cs with
  | nil =>
      cases hs
      exact .nil
  | cons hhead _ ih =>
      cases hs with
      | cons hhead' htail' => exact .cons ⟨_, hhead, hhead'⟩ (ih htail')

/-- Every element on the left has a partner. -/
theorem forall₂_partner {r : α → β → Prop} {as : List α} {bs : List β}
    (h : List.Forall₂ r as bs) : ∀ a ∈ as, ∃ b, r a b := by
  induction h with
  | nil => simp
  | cons hhead _ ih => exact List.forall_mem_cons.mpr ⟨⟨_, hhead⟩, ih⟩

/-- Relations that agree on the elements of the right list hold pairwise together. -/
theorem forall₂_congr_right {r s : α → β → Prop} {as : List α} {bs : List β}
    (h : ∀ b ∈ bs, ∀ a, r a b ↔ s a b) : List.Forall₂ r as bs ↔ List.Forall₂ s as bs := by
  induction bs generalizing as with
  | nil => rw [List.forall₂_nil_right_iff, List.forall₂_nil_right_iff]
  | cons b bs ih =>
      obtain ⟨hb, hbs⟩ := List.forall_mem_cons.mp h
      cases as with
      | nil => simp
      | cons a as => rw [List.forall₂_cons, List.forall₂_cons, hb a, ih hbs]

/-- Parts that are the first frames of a stream, and one more that ends where the next frame ends,
are the first frames of the stream. -/
theorem prefix_concat_of_length {cuts frames : List (List α)} {cut : List α}
    (hcuts : cuts <+: frames) (hcut : cut ≠ [])
    (hstream : cuts.flatten ++ cut <+: frames.flatten)
    (hends : (cuts.flatten ++ cut).length = (frames.take (cuts.length + 1)).flatten.length) :
    cuts ++ [cut] <+: frames := by
  obtain ⟨rest, rfl⟩ := hcuts
  rw [List.flatten_append] at hstream
  rw [List.take_length_add_append, List.flatten_append, List.length_append, List.length_append,
    Nat.add_left_cancel_iff] at hends
  have hrest : cut <+: rest.flatten := (List.prefix_append_right_inj _).mp hstream
  cases rest with
  | nil => exact absurd (List.eq_nil_of_length_eq_zero hends) hcut
  | cons frame rest =>
      have hlen : cut.length = frame.length := by simpa using hends
      have hframe : cut <+: frame := by
        apply List.prefix_of_prefix_length_le hrest
        · rw [List.flatten_cons]
          exact List.prefix_append ..
        · exact Nat.le_of_eq hlen
      rw [hframe.eq_of_length hlen]
      refine (List.prefix_append_right_inj _).mpr ?_
      exact ⟨rest, rfl⟩

end CommonCommunicator.Lib
