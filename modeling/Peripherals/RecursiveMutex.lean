import Mathlib.Data.List.Basic
import Mathlib.Tactic.Common

namespace Peripherals.RecursiveMutex

/-- A recursive mutex with the thread that owns it, and how often that thread
has locked it again since. -/
inductive Mutex (T : Type*)
  | free
  | held (owner : T) (again : ℕ)

variable {T : Type*} [DecidableEq T] {m m' : Mutex T} {t u : T}

def Mutex.hold (t : T) : Mutex T → ℕ
  | .free => 0
  | .held owner again => if t = owner then again + 1 else 0

/-- `none` while another thread owns the mutex. -/
def Mutex.lock (t : T) : Mutex T → Option (Mutex T)
  | .free => some (.held t 0)
  | .held owner again => if t = owner then some (.held owner (again + 1)) else none

/-- A thread that does not own the mutex leaves it as it is. -/
def Mutex.unlock (t : T) : Mutex T → Mutex T
  | .free => .free
  | .held owner 0 => if t = owner then .free else .held owner 0
  | .held owner (again + 1) => if t = owner then .held owner again else .held owner (again + 1)

@[simp] theorem hold_free : Mutex.free.hold t = 0 := rfl

/-- A mutex has one owner at most. -/
theorem owner_unique (ht : 0 < m.hold t) (hu : 0 < m.hold u) : t = u := by
  cases m with
  | free => simp at ht
  | held owner again =>
    simp only [Mutex.hold] at ht hu
    split at ht
    · split at hu
      · simp_all
      · omega
    · omega

theorem eq_free_iff : m = .free ↔ ∀ t, m.hold t = 0 := by
  cases m with
  | free => simp
  | held owner again =>
    refine iff_of_false (fun h ↦ by cases h) fun h ↦ ?_
    have howner := h owner
    simp [Mutex.hold] at howner

theorem lock_eq_none (h : m.lock t = none) : ∃ u, u ≠ t ∧ 0 < m.hold u := by
  cases m with
  | free => cases h
  | held owner again =>
    simp only [Mutex.lock] at h
    split at h
    · cases h
    · rename_i hne
      exact ⟨owner, Ne.symm hne, by simp [Mutex.hold]⟩

theorem hold_of_lock (h : m.lock t = some m') :
    m'.hold u = if u = t then m.hold u + 1 else m.hold u := by
  cases m with
  | free =>
    obtain rfl := Option.some.inj h
    by_cases hu : u = t <;> simp [Mutex.hold, hu]
  | held owner again =>
    simp only [Mutex.lock] at h
    split at h
    · rename_i howner
      subst owner
      obtain rfl := Option.some.inj h
      by_cases hu : u = t <;> simp [Mutex.hold, hu]
    · cases h

theorem hold_unlock : (m.unlock t).hold u = if u = t then m.hold u - 1 else m.hold u := by
  cases m with
  | free => simp [Mutex.unlock]
  | held owner again =>
    by_cases howner : t = owner
    · subst owner
      cases again <;> by_cases hu : u = t <;> simp [Mutex.unlock, Mutex.hold, hu]
    · have hkept : (Mutex.held owner again).unlock t = .held owner again := by
        cases again <;> simp [Mutex.unlock, howner]
      rw [hkept]
      by_cases hu : u = t
      · subst u
        simp [Mutex.hold, howner]
      · rw [if_neg hu]

end Peripherals.RecursiveMutex
