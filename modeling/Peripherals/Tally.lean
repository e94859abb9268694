import Mathlib.Algebra.BigOperators.Group.Finset.Piecewise
import Mathlib.Algebra.Order.BigOperators.Group.Finset

/-! What several parties hold together, when one of them changes. -/

namespace Peripherals.Tally

open Function
open scoped BigOperators

variable {P A : Type*} [DecidableEq P] {parties : Finset P} {weight : A → ℕ} {f : P → A} {p : P}

def total (parties : Finset P) (weight : A → ℕ) (f : P → A) : ℕ := ∑ p ∈ parties, weight (f p)

omit [DecidableEq P] in
theorem total_mono {others : Finset P} (h : others ⊆ parties) :
    total others weight f ≤ total parties weight f :=
  Finset.sum_le_sum_of_subset h

omit [DecidableEq P] in
theorem total_eq_card (weight : A → ℕ) (f : P → A) (q : A → Prop) [DecidablePred q]
    (h : ∀ p ∈ parties, weight (f p) = if q (f p) then 1 else 0) :
    total parties weight f = (parties.filter fun p ↦ q (f p)).card := by
  rw [total, Finset.sum_congr rfl h, Finset.card_filter]

theorem total_update_of_notMem (hp : p ∉ parties) (a : A) :
    total parties weight (update f p a) = total parties weight f :=
  Finset.sum_congr rfl fun q hq ↦ by rw [update_of_ne (ne_of_mem_of_not_mem hq hp)]

theorem total_insert (hp : p ∉ parties) (a : A) :
    total (insert p parties) weight (update f p a) = total parties weight f + weight a := by
  rw [total, Finset.sum_insert hp, update_self, Nat.add_comm]
  exact congrArg (· + weight a) (total_update_of_notMem hp a)

theorem total_update (hp : p ∈ parties) (a : A) :
    total parties weight (update f p a) + weight (f p) = total parties weight f + weight a := by
  have hrest : total (parties.erase p) weight (update f p a) = total (parties.erase p) weight f :=
    total_update_of_notMem (Finset.notMem_erase p parties) a
  have hnew := Finset.add_sum_erase parties (fun q ↦ weight (update f p a q)) hp
  have hold := Finset.add_sum_erase parties (fun q ↦ weight (f q)) hp
  rw [update_self] at hnew
  simp only [total] at hrest ⊢
  omega

end Peripherals.Tally
