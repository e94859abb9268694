import Mathlib.Data.List.Nodup
import Mathlib.Logic.Equiv.Basic

/-! Tokens that are each in one place until they are given back. -/

namespace Peripherals.Custody

open Function

variable {ι τ : Type*} {held : ι → Option τ} {issued returned : List τ} {i j : ι} {t : τ}

/-- Every token that has been issued is in one place or has been returned once. -/
structure Balanced (held : ι → Option τ) (issued returned : List τ) : Prop where
  issued_nodup : issued.Nodup
  returned_nodup : returned.Nodup
  returned_issued : ∀ t ∈ returned, t ∈ issued
  kept : ∀ t ∈ issued, t ∉ returned → ∃ i, held i = some t
  out : ∀ i t, held i = some t → t ∈ issued ∧ t ∉ returned
  unique : ∀ i j t, held i = some t → held j = some t → i = j

theorem balanced_empty : Balanced (fun _ : ι ↦ (none : Option τ)) [] [] :=
  ⟨List.nodup_nil, List.nodup_nil, by simp, by simp, by simp, by simp⟩

/-- Where all places are empty, everything has been returned. -/
theorem Balanced.perm (h : Balanced held issued returned) (hempty : ∀ i, held i = none) :
    returned.Perm issued := by
  rw [List.perm_ext_iff_of_nodup h.returned_nodup h.issued_nodup]
  refine fun t ↦ ⟨h.returned_issued t, fun hissued ↦ ?_⟩
  by_contra hnot
  obtain ⟨i, hi⟩ := h.kept t hissued hnot
  rw [hempty i] at hi
  cases hi

variable [DecidableEq ι]

theorem Balanced.put (h : Balanced held issued returned) (hi : held i = none) (ht : t ∉ issued) :
    Balanced (update held i (some t)) (issued ++ [t]) returned where
  issued_nodup := h.issued_nodup.append (List.nodup_singleton t) (List.disjoint_singleton.mpr ht)
  returned_nodup := h.returned_nodup
  returned_issued u hu := List.mem_append_left _ (h.returned_issued u hu)
  kept u hu hnot := by
    rcases List.mem_append.mp hu with hu | hu
    · obtain ⟨j, hj⟩ := h.kept u hu hnot
      have hne : j ≠ i := by
        rintro rfl
        rw [hi] at hj
        cases hj
      exact ⟨j, by rwa [update_of_ne hne]⟩
    · obtain rfl := List.mem_singleton.mp hu
      exact ⟨i, update_self ..⟩
  out j u hj := by
    by_cases hne : j = i
    · subst hne
      obtain rfl : t = u := by simpa using hj
      exact ⟨by simp, fun hmem ↦ ht (h.returned_issued t hmem)⟩
    · rw [update_of_ne hne] at hj
      obtain ⟨hissued, hnot⟩ := h.out j u hj
      exact ⟨List.mem_append_left _ hissued, hnot⟩
  unique j k u hj hk := by
    have hfresh : ∀ {l}, held l ≠ some t := fun hl ↦ ht (h.out _ t hl).1
    by_cases hji : j = i
    · by_cases hki : k = i
      · exact hji.trans hki.symm
      · subst hji
        rw [update_of_ne hki] at hk
        obtain rfl : t = u := by simpa using hj
        exact (hfresh hk).elim
    · by_cases hki : k = i
      · subst hki
        rw [update_of_ne hji] at hj
        obtain rfl : t = u := by simpa using hk
        exact (hfresh hj).elim
      · rw [update_of_ne hji] at hj
        rw [update_of_ne hki] at hk
        exact h.unique j k u hj hk

theorem Balanced.take (h : Balanced held issued returned) (hi : held i = some t) :
    Balanced (update held i none) issued (returned ++ [t]) where
  issued_nodup := h.issued_nodup
  returned_nodup := h.returned_nodup.append (List.nodup_singleton t)
    (List.disjoint_singleton.mpr (h.out i t hi).2)
  returned_issued u hu := by
    rcases List.mem_append.mp hu with hu | hu
    · exact h.returned_issued u hu
    · obtain rfl := List.mem_singleton.mp hu
      exact (h.out i u hi).1
  kept u hu hnot := by
    rw [List.mem_append, List.mem_singleton, not_or] at hnot
    obtain ⟨j, hj⟩ := h.kept u hu hnot.1
    have hne : j ≠ i := by
      rintro rfl
      exact hnot.2 (Option.some.inj (hj.symm.trans hi))
    exact ⟨j, by rwa [update_of_ne hne]⟩
  out j u hj := by
    by_cases hne : j = i
    · simp [hne] at hj
    · rw [update_of_ne hne] at hj
      obtain ⟨hissued, hnot⟩ := h.out j u hj
      refine ⟨hissued, ?_⟩
      rw [List.mem_append, List.mem_singleton, not_or]
      refine ⟨hnot, ?_⟩
      rintro rfl
      exact hne (h.unique j i u hj hi)
  unique j k u hj hk := by
    by_cases hji : j = i
    · simp [hji] at hj
    · by_cases hki : k = i
      · simp [hki] at hk
      · rw [update_of_ne hji] at hj
        rw [update_of_ne hki] at hk
        exact h.unique j k u hj hk

theorem Balanced.swap (h : Balanced held issued returned) (i j : ι) :
    Balanced (held ∘ Equiv.swap i j) issued returned where
  issued_nodup := h.issued_nodup
  returned_nodup := h.returned_nodup
  returned_issued := h.returned_issued
  kept t ht hnot := by
    obtain ⟨k, hk⟩ := h.kept t ht hnot
    exact ⟨Equiv.swap i j k, by simpa using hk⟩
  out k t hk := h.out _ t hk
  unique k l t hk hl := (Equiv.swap i j).injective (h.unique _ _ t hk hl)

/-- What is in a place goes to one that was empty. -/
theorem Balanced.move (h : Balanced held issued returned) (hi : held i = none) :
    Balanced (update (update held j none) i (held j)) issued returned := by
  have hswap : update (update held j none) i (held j) = held ∘ Equiv.swap i j := by
    funext k
    by_cases hki : k = i
    · simp [hki]
    · by_cases hkj : k = j
      · subst hkj
        simp [update_of_ne hki, hi]
      · simp [update_of_ne hki, update_of_ne hkj, Equiv.swap_apply_of_ne_of_ne hki hkj]
  rw [hswap]
  exact h.swap i j

end Peripherals.Custody
