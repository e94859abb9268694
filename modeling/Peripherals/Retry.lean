import Mathlib.Data.List.Basic
import Mathlib.Logic.Function.Iterate

/-! Attempts that are repeated until one succeeds, up to a number of times. -/

namespace Peripherals.Retry

variable {σ α : Type*} {attempt : σ → α × σ} {ok : α → Bool} {s : σ} {retries n i : ℕ}

/-- An attempt, and up to `retries` more as long as they fail. -/
def retry (attempt : σ → α × σ) (ok : α → Bool) : ℕ → σ → α × σ
  | 0, s => attempt s
  | retries + 1, s =>
    if ok (attempt s).1 then attempt s else retry attempt ok retries (attempt s).2

/-- The state after `n` attempts, whether or not they succeed. -/
def after (attempt : σ → α × σ) (n : ℕ) (s : σ) : σ := (fun s ↦ (attempt s).2)^[n] s

@[simp] theorem after_zero : after attempt 0 s = s := rfl

theorem after_succ : after attempt (n + 1) s = after attempt n (attempt s).2 :=
  Function.iterate_succ_apply _ _ _

theorem after_succ' : after attempt (n + 1) s = (attempt (after attempt n s)).2 :=
  Function.iterate_succ_apply' _ _ _

/-- The first `n` attempts fail, and no others are made before the next one. -/
def Fails (attempt : σ → α × σ) (ok : α → Bool) (s : σ) (n : ℕ) : Prop :=
  ∀ i < n, ok (attempt (after attempt i s)).1 = false

theorem fails_succ : Fails attempt ok s (n + 1) ↔
    ok (attempt s).1 = false ∧ Fails attempt ok (attempt s).2 n := by
  refine ⟨?_, ?_⟩
  · intro h
    refine ⟨h 0 (Nat.succ_pos n), fun i hi ↦ ?_⟩
    rw [← after_succ]
    exact h (i + 1) (Nat.succ_lt_succ hi)
  · intro h i hi
    cases i with
    | zero => exact h.1
    | succ i =>
      rw [after_succ]
      exact h.2 i (Nat.lt_of_succ_lt_succ hi)

/-- The result is that of the first attempt that succeeds, or else of the last one. -/
theorem exists_retry (attempt : σ → α × σ) (ok : α → Bool) (retries : ℕ) (s : σ) :
    ∃ n ≤ retries, Fails attempt ok s n ∧
      retry attempt ok retries s = attempt (after attempt n s) ∧
      (ok (retry attempt ok retries s).1 = false → n = retries) := by
  induction retries generalizing s with
  | zero => exact ⟨0, Nat.le_refl 0, fun i hi ↦ (Nat.not_lt_zero i hi).elim, rfl, fun _ ↦ rfl⟩
  | succ retries ih =>
    cases hok : ok (attempt s).1 with
    | true =>
      have hfirst : retry attempt ok (retries + 1) s = attempt s := by rw [retry, if_pos hok]
      refine ⟨0, Nat.zero_le _, fun i hi ↦ (Nat.not_lt_zero i hi).elim, hfirst, ?_⟩
      rw [hfirst, hok]
      exact fun h ↦ (Bool.noConfusion h)
    | false =>
      obtain ⟨n, hn, hfails, hresult, hlast⟩ := ih (attempt s).2
      have hrest : retry attempt ok (retries + 1) s = retry attempt ok retries (attempt s).2 := by
        rw [retry, if_neg (by simp [hok])]
      refine ⟨n + 1, Nat.succ_le_succ hn, fails_succ.mpr ⟨hok, hfails⟩, ?_, ?_⟩
      · rw [hrest, hresult, after_succ]
      · rw [hrest]
        exact fun h ↦ congrArg Nat.succ (hlast h)

/-- The attempts that fail are logged one after the other. -/
theorem Fails.log {B : Type*} (log : σ → List B) (P : List B → Prop) (h : Fails attempt ok s n)
    (hentry : ∀ t, ok (attempt t).1 = false →
      ∃ entry, P entry ∧ log (attempt t).2 = log t ++ entry) :
    ∃ entries : List (List B), entries.length = n ∧ (∀ entry ∈ entries, P entry) ∧
      log (after attempt n s) = log s ++ entries.flatten := by
  induction n with
  | zero => exact ⟨[], rfl, by simp, by simp⟩
  | succ n ih =>
    obtain ⟨entries, hlength, hall, hlog⟩ := ih fun i hi ↦ h i (Nat.lt_succ_of_lt hi)
    obtain ⟨entry, hP, hlast⟩ := hentry _ (h n (Nat.lt_succ_self n))
    refine ⟨entries ++ [entry], by simp [hlength], ?_, ?_⟩
    · simp only [List.forall_mem_append, List.forall_mem_singleton]
      exact ⟨hall, hP⟩
    · rw [after_succ', hlast, hlog, List.flatten_append, List.flatten_singleton,
        List.append_assoc]

end Peripherals.Retry
