import Peripherals.Synchro.Threads

namespace Peripherals.Synchro.Threads

open Execution RecursiveMutex

variable {C T : Type} [DecidableEq C]

def Op.Waits (v : Thread C) : Op C T → Prop
  | .enter c => v.hold c = 0
  | .destroy c => v.isThreadUsingLockedApi c.unit = true ∧ v.hold c = 0
  | .await _ => True
  | .leave _ | .create _ => False

/-- The thread has no mutex whenever it may have to wait, and none at the end. -/
def Polite : List (Op C T) → Thread C → Prop
  | [], v => ∀ c, v.hold c = 0
  | op :: rest, v => (op.Waits v → ∀ c, v.hold c = 0) ∧ Polite rest (apply op v)

variable [DecidableEq T] {s : System C T} {t : T} {op : Op C T} {programs : T → List (Op C T)}
  {tr : List T}

theorem blocked_cases (h : perform s t op = none) : op.Waits (s.view t) ∧
    ((∃ c u, u ≠ t ∧ 0 < (s.mtx c).hold u) ∨ ∃ u, op = .await u ∧ s.rest u ≠ []) := by
  have hlock : ∀ {s : System C T} {c : UsingClass C}, s.lock t c = none →
      (s.mtx c).hold t = 0 ∧ ∃ u, u ≠ t ∧ 0 < (s.mtx c).hold u := by
    intro s c h
    obtain ⟨u, hne, hu⟩ := lock_eq_none (Option.map_eq_none_iff.mp h)
    refine ⟨?_, u, hne, hu⟩
    by_contra hpos
    exact hne (owner_unique hu (Nat.pos_of_ne_zero hpos))
  cases op with
  | enter c =>
    obtain ⟨hzero, u, hne, hu⟩ := hlock (s := s.setFlag t c.unit true) h
    exact ⟨hzero, .inl ⟨c, u, hne, hu⟩⟩
  | leave c => cases h
  | create c => cases h
  | destroy c =>
    simp only [perform] at h
    split at h
    · rename_i hflag
      obtain ⟨hzero, u, hne, hu⟩ := hlock h
      exact ⟨⟨hflag, hzero⟩, .inl ⟨c, u, hne, hu⟩⟩
    · cases h
  | await u =>
    simp only [perform] at h
    split at h
    · cases h
    · exact ⟨trivial, .inr ⟨u, rfl, ‹_›⟩⟩

theorem run_polite (hpolite : ∀ t, Polite (programs t) Thread.init)
    (h : Run step (.start programs) tr s) (t : T) : Polite (s.rest t) (s.view t) := by
  refine h.invariant (I := fun s ↦ Polite (s.rest t) (s.view t)) (hpolite t) ?_
  intro s u s' hI hs
  obtain ⟨op, hown, hother, hviews⟩ := step_cases hs
  by_cases ht : t = u
  · subst u
    rw [hown] at hI
    rw [hviews, if_pos rfl]
    exact hI.2
  · rw [hother t ht, hviews, if_neg ht]
    exact hI

/-- Threads that never wait with a mutex in hand do not deadlock, if no threads
wait for each other in a circle. -/
theorem finished_of_stuck {rank : T → ℕ} (hpolite : ∀ t, Polite (programs t) Thread.init)
    (hrank : ∀ t u, .await u ∈ programs t → rank u < rank t)
    (h : Run step (.start programs) tr s) (hstuck : ∀ t, step s t = none) (t : T) :
    s.rest t = [] := by
  have hblocked : ∀ {t op rest}, s.rest t = op :: rest → perform s t op = none := by
    intro t op rest hrest
    have hs := hstuck t
    simp only [step, hrest, Option.map_eq_none_iff] at hs
    exact hs
  have hnone : ∀ u c, (s.mtx c).hold u = 0 := by
    intro u c
    have hp := run_polite hpolite h u
    cases hrest : s.rest u with
    | nil =>
      rw [hrest] at hp
      exact hp c
    | cons op rest =>
      rw [hrest] at hp
      exact hp.1 (blocked_cases (hblocked hrest)).1 c
  induction hn : rank t using Nat.strong_induction_on generalizing t with
  | _ n ih =>
    cases hrest : s.rest t with
    | nil => rfl
    | cons op rest =>
      obtain ⟨-, ⟨c, u, -, hu⟩ | ⟨u, rfl, hu⟩⟩ := blocked_cases (hblocked hrest)
      · rw [hnone u c] at hu
        omega
      · obtain ⟨done, hdone, -⟩ := run_view h t
        have hmem : .await u ∈ programs t := by simp [hdone, hrest]
        exact (hu (ih (rank u) (hn ▸ hrank t u hmem) u rfl)).elim

/-- A locked method that calls other plugins, each time with the lock given back. -/
structure LockedMethod (C T : Type) where
  class_ : UsingClass C
  invokes : List T

def LockedMethod.ops (m : LockedMethod C T) : List (Op C T) :=
  .enter m.class_ :: ((m.invokes.flatMap fun u ↦
    [.create m.class_, .await u, .destroy m.class_]) ++ [.leave m.class_])

omit [DecidableEq T] in
theorem polite_invokes {c : UsingClass C} {v : Thread C} (hv : ∀ d, v.hold d = 0) (invokes : List T)
    {rest : List (Op C T)} (hrest : Polite rest (Synchro.enter c v)) :
    Polite ((invokes.flatMap fun u ↦ [.create c, .await u, .destroy c]) ++ rest)
      (Synchro.enter c v) := by
  induction invokes with
  | nil => exact hrest
  | cons u invokes ih =>
    have hset : (v.setFlag c.unit true).isThreadUsingLockedApi c.unit = true :=
      Function.update_self ..
    have hopen : UnlockApiGuard.create c (Synchro.enter c v) = v.setFlag c.unit true :=
      (create_of_flag (t := Synchro.enter c v) hset).trans (unlock_lock c _)
    have hclose : UnlockApiGuard.destroy c (v.setFlag c.unit true) = Synchro.enter c v :=
      destroy_of_flag hset
    simp only [List.flatMap_cons, List.cons_append, List.nil_append, Polite, apply, hopen, hclose]
    exact ⟨False.elim, fun _ ↦ hv, fun _ ↦ hv, ih⟩

omit [DecidableEq T] in
theorem polite_methods {v : Thread C} (hv : ∀ c, v.hold c = 0) (methods : List (LockedMethod C T)) :
    Polite (methods.flatMap LockedMethod.ops) v := by
  induction methods generalizing v with
  | nil => exact hv
  | cons m methods ih =>
    have hleave : Synchro.leave m.class_ (Synchro.enter m.class_ v) =
        (v.setFlag m.class_.unit true).setFlag m.class_.unit false := leave_enter m.class_ v _
    rw [List.flatMap_cons, LockedMethod.ops, List.cons_append, List.append_assoc]
    refine ⟨fun _ ↦ hv, polite_invokes hv m.invokes ?_⟩
    simp only [List.cons_append, List.nil_append, Polite, apply, hleave]
    exact ⟨False.elim, ih hv⟩

/-- A thread makes as many steps as it has operations. -/
theorem run_count (h : Run step (.start programs) tr s) (t : T) :
    tr.count t + (s.rest t).length = (programs t).length := by
  induction h with
  | nil => simp [System.start]
  | @snoc tr s s' u _ hs ih =>
    obtain ⟨op, hown, hother, -⟩ := step_cases hs
    rw [← ih, List.count_append]
    by_cases ht : t = u
    · subst u
      rw [hown]
      simp
      omega
    · rw [hother t ht]
      simp [Ne.symm ht]

/-- Locked methods of any classes in any threads that call other plugins under
`UnlockApiGuard` alone finish, however they are scheduled, as long as no calls
wait for each other in a circle. -/
theorem guardedInvokes_finish {methods : T → List (LockedMethod C T)} (rank : T → ℕ)
    (hrank : ∀ t, ∀ m ∈ methods t, ∀ u ∈ m.invokes, rank u < rank t)
    (h : Run step (.start fun t ↦ (methods t).flatMap LockedMethod.ops) tr s) :
    ((∃ t, step s t ≠ none) ∨ (∀ t, s.rest t = []) ∧ ∀ c, s.mtx c = .free) ∧
      ∀ t, tr.count t ≤ ((methods t).flatMap LockedMethod.ops).length := by
  have hawait : ∀ t u, .await u ∈ (methods t).flatMap LockedMethod.ops → rank u < rank t := by
    intro t u hu
    obtain ⟨m, hm, hops⟩ := List.mem_flatMap.mp hu
    have hinvoked : u ∈ m.invokes := by simpa [LockedMethod.ops] using hops
    exact hrank t m hm u hinvoked
  have hpolite : ∀ t, Polite ((methods t).flatMap LockedMethod.ops) Thread.init :=
    fun t ↦ polite_methods (fun _ ↦ rfl) (methods t)
  refine ⟨?_, fun t ↦ by rw [← run_count h t]; omega⟩
  by_cases hstuck : ∃ t, step s t ≠ none
  · exact .inl hstuck
  · have hrest := finished_of_stuck hpolite hawait h fun t ↦
      not_not.mp fun hs ↦ hstuck ⟨t, hs⟩
    refine .inr ⟨hrest, fun c ↦ eq_free_iff.mpr fun t ↦ ?_⟩
    have hp := run_polite hpolite h t
    rw [hrest t] at hp
    exact hp c

/-- Two plugins that call each other at the same time; the threads 2 and 3 serve the calls. -/
def crossed : Fin 4 → List (LockedMethod Unit (Fin 4))
  | 0 => [⟨⟨0, ()⟩, [2]⟩]
  | 1 => [⟨⟨1, ()⟩, [3]⟩]
  | 2 => [⟨⟨1, ()⟩, []⟩]
  | 3 => [⟨⟨0, ()⟩, []⟩]

theorem guardedInvokes_finish_crossed :
    ∃ s, Run step (.start fun t ↦ (crossed t).flatMap LockedMethod.ops) [0, 1, 1, 0] s ∧
      ((∃ t, step s t ≠ none) ∨ (∀ t, s.rest t = []) ∧ ∀ c, s.mtx c = .free) ∧
      ∀ t, [0, 1, 1, 0].count t ≤ ((crossed t).flatMap LockedMethod.ops).length := by
  obtain ⟨s, hs⟩ : ∃ s, Run step (.start fun t ↦ (crossed t).flatMap LockedMethod.ops)
    [0, 1, 1, 0] s := exists_run (by decide)
  exact ⟨s, hs, guardedInvokes_finish (fun t ↦ 3 - t.val) (by decide) hs⟩

def LockedMethod.unguarded (m : LockedMethod C T) : List (Op C T) :=
  .enter m.class_ :: (m.invokes.map .await ++ [.leave m.class_])

theorem unguardedInvokes_deadlock :
    ∃ s, Run step (.start fun t ↦ (crossed t).flatMap LockedMethod.unguarded) [0, 1] s ∧
      (∀ t, step s t = none) ∧ ∀ t, s.rest t ≠ [] := by
  have h : (([0, 1].foldlM step (.start fun t ↦ (crossed t).flatMap
      LockedMethod.unguarded)).map fun s ↦
        decide ((∀ t, (step s t).isNone) ∧ ∀ t, (s.rest t).isEmpty = false)) = some true := by
    decide
  obtain ⟨s, hs, hd⟩ := Option.map_eq_some_iff.mp h
  obtain ⟨hstuck, hrest⟩ := of_decide_eq_true hd
  refine ⟨s, run_iff_foldlM.mpr hs, fun t ↦ Option.isNone_iff_eq_none.mp (hstuck t), ?_⟩
  intro t hnil
  have hne := hrest t
  rw [hnil] at hne
  cases hne

end Peripherals.Synchro.Threads
