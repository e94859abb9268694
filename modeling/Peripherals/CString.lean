import Mathlib.Algebra.Ring.Nat
import Mathlib.Data.List.Basic

namespace Peripherals.CString

variable {A : Type*} {nul c : A} {s before after : List A} {i j : ℕ}

/-- The element at a position of a string that is terminated by `nul`; `none` stands for
a read after the terminator. -/
def readAt (nul : A) (s : List A) (i : ℕ) : Option A := (s ++ [nul])[i]?

def intMax : ℕ := 2 ^ 31 - 1

/-- `i + 1` for an `int`; `none` stands for an overflow, which has no defined result. -/
def increment (i : ℕ) : Option ℕ := if i < intMax then some (i + 1) else none

theorem readAt_append : readAt nul (before ++ c :: after) before.length = some c := by
  simp [readAt]

theorem readAt_length : readAt nul s s.length = some nul := by
  simp [readAt]

theorem readAt_succ : readAt nul (before ++ c :: after) (before.length + 1) =
    some (after.head?.getD nul) := by
  cases after <;> simp [readAt]

theorem readAt_mem (nul : A) (h : i < s.length) : ∃ c ∈ s, readAt nul s i = some c := by
  refine ⟨s[i], List.getElem_mem h, ?_⟩
  rw [readAt, List.getElem?_append_left h, List.getElem?_eq_getElem h]

theorem increment_of_lt (h : i < intMax) : increment i = some (i + 1) := if_pos h

theorem increment_intMax : increment intMax = none := if_neg (Nat.lt_irrefl _)

theorem increment_eq_some : increment i = some j ↔ i < intMax ∧ j = i + 1 := by
  unfold increment
  split
  next h => simp [h, eq_comm]
  next h => simp [h]

end Peripherals.CString
