import CommonCommunicator.Lib.PartialMap

/-!
# Inverse partial maps

Two partial maps are inverse to each other when one sends `k` to `a` exactly
when the other sends `a` to `k`. A table that can be searched from both sides
keeps such a pair; storing a fresh pair and removing a stored one preserve it.
-/

namespace CommonCommunicator.Lib

variable {κ α : Type*}

/-- `g` leads back from every value of `f`, and the other way round. -/
def InverseMaps (f : PartialMap κ α) (g : PartialMap α κ) : Prop :=
  ∀ k a, f k = some a ↔ g a = some k

namespace InverseMaps

variable {f : PartialMap κ α} {g : PartialMap α κ}

theorem empty : InverseMaps (PartialMap.empty : PartialMap κ α) PartialMap.empty := by
  intro k a
  simp

/-- No value is stored under two keys. -/
theorem key_unique (h : InverseMaps f g) {k k' : κ} {a : α} (hk : f k = some a)
    (hk' : f k' = some a) : k = k' := by
  have hback := (h k a).mp hk
  have hback' := (h k' a).mp hk'
  exact Option.some.inj (hback.symm.trans hback')

variable [DecidableEq κ] [DecidableEq α]

/-- A pair of a new key and a new value may be stored. -/
theorem insert (h : InverseMaps f g) {k : κ} {a : α} (hk : f k = none) (ha : g a = none) :
    InverseMaps (f.insert k a) (g.insert a k) := by
  intro k' a'
  by_cases hkey : k' = k
  · subst hkey
    by_cases hvalue : a' = a
    · simp [hvalue]
    · have hback : g a' ≠ some k' := by
        intro hback
        rw [(h k' a').mpr hback] at hk
        cases hk
      rw [PartialMap.insert_self, PartialMap.insert_of_ne _ hvalue]
      exact iff_of_false (fun heq => hvalue (Option.some.inj heq).symm) hback
  · by_cases hvalue : a' = a
    · subst hvalue
      have hto : f k' ≠ some a' := by
        intro hto
        rw [(h k' a').mp hto] at ha
        cases ha
      rw [PartialMap.insert_self, PartialMap.insert_of_ne _ hkey]
      exact iff_of_false hto fun heq => hkey (Option.some.inj heq).symm
    · simpa [hkey, hvalue] using h k' a'

/-- A stored pair may be removed. -/
theorem erase (h : InverseMaps f g) {k : κ} {a : α} (hk : f k = some a) :
    InverseMaps (f.erase k) (g.erase a) := by
  have ha : g a = some k := (h k a).mp hk
  intro k' a'
  by_cases hkey : k' = k
  · subst hkey
    by_cases hvalue : a' = a
    · simp [hvalue]
    · have hback : g a' ≠ some k' := by
        intro hback
        have hto := (h k' a').mpr hback
        rw [hk] at hto
        exact hvalue (Option.some.inj hto).symm
      simpa [hvalue] using hback
  · by_cases hvalue : a' = a
    · subst hvalue
      have hto : f k' ≠ some a' := fun hto => hkey (h.key_unique hto hk)
      simpa [hkey] using hto
    · simpa [hkey, hvalue] using h k' a'

end InverseMaps

end CommonCommunicator.Lib
