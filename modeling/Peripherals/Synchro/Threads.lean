import Mathlib.Algebra.Ring.Int.Defs
import Peripherals.Execution
import Peripherals.RecursiveMutex
import Peripherals.Synchro.Balance

namespace Peripherals.Synchro.Threads

open Function Execution RecursiveMutex

variable {C T : Type} [DecidableEq C]

/-- What a thread does with the API locks, in the order in which it does it. An
Invoke that another thread serves is `await` here. -/
inductive Op (C T : Type)
  | enter (c : UsingClass C)
  | leave (c : UsingClass C)
  | create (c : UsingClass C)
  | destroy (c : UsingClass C)
  | await (t : T)

def apply : Op C T → Thread C → Thread C
  | .enter c, t => Synchro.enter c t
  | .leave c, t => Synchro.leave c t
  | .create c, t => UnlockApiGuard.create c t
  | .destroy c, t => UnlockApiGuard.destroy c t
  | .await _, t => t

def applyAll (ops : List (Op C T)) (t : Thread C) : Thread C := ops.foldl (fun t op ↦ apply op t) t

/-- The operations of an execution, up to the exception that ends it. -/
def ops : Code C → List (Op C T)
  | .skip | .throw => []
  | .seq p q => if p.outcome = .normal then ops p ++ ops q else ops p
  | .attempt p => ops p
  | .lockedCall _ c body => .enter c :: (ops body ++ [.leave c])
  | .unlockApiGuard c body => .create c :: (ops body ++ [.destroy c])

/-- Locked calls of `c` that have been entered and not left, less the guards of
`c` that are open. -/
def depth (c : UsingClass C) : List (Op C T) → ℤ
  | [] => 0
  | .enter d :: rest | .destroy d :: rest => (if d = c then 1 else 0) + depth c rest
  | .leave d :: rest | .create d :: rest => depth c rest - (if d = c then 1 else 0)
  | .await _ :: rest => depth c rest

theorem depth_append (c : UsingClass C) (p q : List (Op C T)) :
    depth c (p ++ q) = depth c p + depth c q := by
  induction p with
  | nil => simp [depth]
  | cons op p ih => cases op <;> simp only [List.cons_append, depth, ih] <;> omega

theorem depth_ops (c : UsingClass C) (code : Code C) : depth c (ops code : List (Op C T)) = 0 := by
  induction code with
  | skip => rfl
  | throw => rfl
  | seq p q ihp ihq =>
    simp only [ops]
    split <;> simp [depth_append, ihp, ihq]
  | attempt p ih => exact ih
  | lockedCall entry d body ih => simp [ops, depth, depth_append, ih]
  | unlockApiGuard d body ih => simp [ops, depth, depth_append, ih]

theorem applyAll_append (p q : List (Op C T)) (t : Thread C) :
    applyAll (p ++ q) t = applyAll q (applyAll p t) := List.foldl_append

/-- On its own a thread does what its execution does. -/
theorem applyAll_ops (code : Code C) (t : Thread C) :
    applyAll (ops code : List (Op C T)) t = (exec code t).1 := by
  induction code generalizing t with
  | skip => rfl
  | throw => rfl
  | seq p q ihp ihq =>
    cases hp : (exec p t).2 with
    | normal =>
      have hout : p.outcome = .normal := (exec_outcome p t).symm.trans hp
      rw [exec_seq_normal hp, ops, if_pos hout, applyAll_append, ihp, ihq]
    | exception =>
      have hout : p.outcome = .exception := (exec_outcome p t).symm.trans hp
      rw [exec_seq_exception hp, ops, if_neg (by simp [hout]), ihp]
  | attempt p ih => exact ih t
  | lockedCall entry c body ih =>
    rw [exec_lockedCall, ops, ← List.cons_append, applyAll_append, ← ih]
    rfl
  | unlockApiGuard c body ih =>
    rw [exec_unlockApiGuard, ops, ← List.cons_append, applyAll_append, ← ih]
    rfl

theorem prefix_bracket {α : Type} {p body : List α} {a b : α} (h : p <+: a :: (body ++ [b])) :
    p = [] ∨ (∃ q, p = a :: q ∧ q <+: body) ∨ p = a :: (body ++ [b]) := by
  rcases List.prefix_cons_iff.mp h with rfl | ⟨q, rfl, hq⟩
  · exact .inl rfl
  · rcases List.prefix_concat_iff.mp hq with rfl | hq
    · exact .inr (.inr rfl)
    · exact .inr (.inl ⟨q, rfl, hq⟩)

theorem depth_ops_le_hold {code : Code C} {v : Thread C} (c : UsingClass C)
    (hs : GuardsSafe v.isThreadUsingLockedApi v.hold code) :
    v.hold c + depth c (ops code : List (Op C T)) ≤
      (applyAll (ops code : List (Op C T)) v).hold c := by
  rw [depth_ops, applyAll_ops, exec_of_guardsSafe hs]
  simp

theorem enter_hold (c d : UsingClass C) (v : Thread C) :
    (Synchro.enter d v).hold c = v.hold c + if d = c then 1 else 0 := by
  by_cases hd : c = d
  · subst d
    simp [Synchro.enter, Thread.lock, Thread.setFlag]
  · simp [Synchro.enter, Thread.lock, Thread.setFlag, hd, Ne.symm hd]

/-- Under safe guards a thread holds a mutex at least as often as it is inside
locked calls that no guard has suspended. -/
theorem depth_le_hold {code : Code C} {v : Thread C} {done : List (Op C T)} (c : UsingClass C)
    (hs : GuardsSafe v.isThreadUsingLockedApi v.hold code) (h : done <+: ops code) :
    v.hold c + depth c done ≤ (applyAll done v).hold c := by
  induction code generalizing v done with
  | skip =>
    obtain rfl := List.prefix_nil.mp h
    simp [depth, applyAll]
  | throw =>
    obtain rfl := List.prefix_nil.mp h
    simp [depth, applyAll]
  | seq p q ihp ihq =>
    obtain ⟨hp, hq⟩ := hs
    by_cases hout : p.outcome = .normal
    · rw [ops, if_pos hout] at h
      rcases List.prefix_or_prefix_of_prefix h (List.prefix_append ..) with h' | ⟨rest, rfl⟩
      · exact ihp hp h'
      · have hrest := (List.prefix_append_right_inj _).mp h
        have hend := exec_of_guardsSafe hp
        have htail := ihq (v := (exec p v).1) (by rw [hend]; exact hq hout) hrest
        rw [depth_append, depth_ops, applyAll_append, applyAll_ops]
        rw [hend] at htail ⊢
        simpa using htail
    · rw [ops, if_neg hout] at h
      exact ihp hp h
  | attempt p ih => exact ih hs h
  | lockedCall entry d body ih =>
    rcases prefix_bracket h with rfl | ⟨rest, rfl, hrest⟩ | rfl
    · simp [depth, applyAll]
    · have hbody := ih (v := Synchro.enter d v) hs hrest
      rw [enter_hold] at hbody
      have happly : applyAll (.enter d :: rest) v = applyAll rest (Synchro.enter d v) := rfl
      rw [happly, depth]
      push_cast at hbody
      omega
    · exact depth_ops_le_hold c hs
  | unlockApiGuard d body ih =>
    rcases prefix_bracket h with rfl | ⟨rest, rfl, hrest⟩ | rfl
    · simp [depth, applyAll]
    · have happly : applyAll (.create d :: rest) v =
        applyAll rest (UnlockApiGuard.create d v) := rfl
      rw [happly, depth]
      have hbody := ih (guardsSafe_create hs) hrest
      by_cases hflag : v.isThreadUsingLockedApi d.unit = true
      · rw [GuardsSafe, if_pos hflag] at hs
        have hpos := hs.1
        rw [create_of_flag hflag] at hbody ⊢
        by_cases hd : c = d
        · subst d
          rw [hold_unlock_self] at hbody
          rw [if_pos rfl]
          omega
        · have hkept : (v.unlock d).hold c = v.hold c := update_of_ne hd _ _
          rw [hkept] at hbody
          rw [if_neg (Ne.symm hd)]
          omega
      · rw [create_of_not_flag hflag] at hbody ⊢
        split <;> omega
    · exact depth_ops_le_hold c hs

theorem applyAll_stray {v : Thread C} (h : v.strayUnlock = true) (rest : List (Op C T)) :
    (applyAll rest v).strayUnlock = true := by
  induction rest generalizing v with
  | nil => exact h
  | cons op rest ih =>
    refine ih (v := apply op v) ?_
    cases op with
    | enter c => exact h
    | leave c => exact stray_unlock h
    | create c => exact create_stray h
    | destroy c => rwa [apply, destroy_strayUnlock]
    | await u => exact h

/-- `ApiLocks<c>::mtx` for every class, and what is local to each thread, with
the operations that are still before it. -/
structure System (C T : Type) where
  mtx : UsingClass C → Mutex T
  isThreadUsingLockedApi : T → ℕ → Bool
  strayUnlock : T → Bool
  rest : T → List (Op C T)

def System.start (programs : T → List (Op C T)) : System C T where
  mtx _ := .free
  isThreadUsingLockedApi _ _ := false
  strayUnlock _ := false
  rest := programs

variable [DecidableEq T] (s : System C T) (t : T) (c : UsingClass C)

def System.setFlag (unit : ℕ) (b : Bool) : System C T :=
  { s with
    isThreadUsingLockedApi :=
      update s.isThreadUsingLockedApi t (update (s.isThreadUsingLockedApi t) unit b) }

def System.lock : Option (System C T) :=
  ((s.mtx c).lock t).map fun m ↦ { s with mtx := update s.mtx c m }

def System.unlock : System C T :=
  { s with
    mtx := update s.mtx c ((s.mtx c).unlock t)
    strayUnlock := update s.strayUnlock t (s.strayUnlock t || (s.mtx c).hold t == 0) }

/-- `none` while the thread is blocked. -/
def perform : Op C T → Option (System C T)
  | .enter c => (s.setFlag t c.unit true).lock t c
  | .leave c => some ((s.setFlag t c.unit false).unlock t c)
  | .create c => some (if s.isThreadUsingLockedApi t c.unit then s.unlock t c else s)
  | .destroy c => if s.isThreadUsingLockedApi t c.unit then s.lock t c else some s
  | .await u => if s.rest u = [] then some s else none

def step : Option (System C T) :=
  match s.rest t with
  | [] => none
  | op :: rest => (perform s t op).map fun s ↦ { s with rest := update s.rest t rest }

def System.view : Thread C where
  isThreadUsingLockedApi := s.isThreadUsingLockedApi t
  hold c := (s.mtx c).hold t
  strayUnlock := s.strayUnlock t

variable {s t c} {s' : System C T} {u : T} {op : Op C T} {programs : T → List (Op C T)}
  {tr : List T} {unit : ℕ} {b : Bool}

omit [DecidableEq C] in
theorem view_setFlag : (s.setFlag t unit b).view u =
    if u = t then (s.view u).setFlag unit b else s.view u := by
  by_cases hu : u = t
  · subst u
    simp [System.view, System.setFlag, Thread.setFlag]
  · simp [System.view, System.setFlag, hu]

theorem view_lock (h : s.lock t c = some s') :
    s'.view u = if u = t then (s.view u).lock c else s.view u := by
  obtain ⟨m, hm, rfl⟩ := Option.map_eq_some_iff.mp h
  by_cases hu : u = t
  · subst u
    rw [if_pos rfl]
    ext d
    · rfl
    · by_cases hd : d = c
      · subst d
        simp [System.view, Thread.lock, hold_of_lock hm]
      · simp [System.view, Thread.lock, hd]
    · rfl
  · rw [if_neg hu]
    ext d
    · rfl
    · by_cases hd : d = c
      · subst d
        simp [System.view, hold_of_lock hm, hu]
      · simp [System.view, hd]
    · rfl

theorem view_unlock : (s.unlock t c).view u =
    if u = t then (s.view u).unlock c else s.view u := by
  by_cases hu : u = t
  · subst u
    rw [if_pos rfl]
    ext d
    · rfl
    · by_cases hd : d = c
      · subst d
        simp [System.view, System.unlock, Thread.unlock, hold_unlock]
      · simp [System.view, System.unlock, Thread.unlock, hd]
    · simp [System.view, System.unlock, Thread.unlock]
  · rw [if_neg hu]
    ext d
    · rfl
    · by_cases hd : d = c
      · subst d
        simp [System.view, System.unlock, hold_unlock, hu]
      · simp [System.view, System.unlock, hd]
    · simp [System.view, System.unlock, hu]

/-- An operation does to its own thread what it does without the others, and
nothing to the others. -/
theorem view_perform (h : perform s t op = some s') :
    s'.view u = if u = t then apply op (s.view u) else s.view u := by
  cases op with
  | enter c =>
    rw [view_lock h, view_setFlag]
    split <;> rfl
  | leave c =>
    obtain rfl := Option.some.inj h
    rw [view_unlock, view_setFlag]
    split <;> rfl
  | create c =>
    obtain rfl := Option.some.inj h
    by_cases hflag : s.isThreadUsingLockedApi t c.unit = true
    · rw [if_pos hflag, view_unlock]
      split
      · subst u
        exact (create_of_flag hflag).symm
      · rfl
    · rw [if_neg hflag]
      split
      · subst u
        exact (create_of_not_flag hflag).symm
      · rfl
  | destroy c =>
    by_cases hflag : s.isThreadUsingLockedApi t c.unit = true
    · rw [perform, if_pos hflag] at h
      rw [view_lock h]
      split
      · subst u
        exact (destroy_of_flag hflag).symm
      · rfl
    · rw [perform, if_neg hflag] at h
      obtain rfl := Option.some.inj h
      split
      · subst u
        exact (destroy_of_not_flag hflag).symm
      · rfl
  | await v =>
    simp only [perform] at h
    split at h
    · obtain rfl := Option.some.inj h
      split <;> rfl
    · cases h

theorem rest_perform (h : perform s t op = some s') : s'.rest = s.rest := by
  have hlock : ∀ {s s' : System C T} {c : UsingClass C},
      s.lock t c = some s' → s'.rest = s.rest := by
    intro s s' c h
    obtain ⟨m, -, rfl⟩ := Option.map_eq_some_iff.mp h
    rfl
  cases op with
  | enter c => exact hlock (s := s.setFlag t c.unit true) h
  | leave c =>
    obtain rfl := Option.some.inj h
    rfl
  | create c =>
    obtain rfl := Option.some.inj h
    split <;> rfl
  | destroy c =>
    simp only [perform] at h
    split at h
    · exact hlock h
    · obtain rfl := Option.some.inj h
      rfl
  | await v =>
    simp only [perform] at h
    split at h
    · obtain rfl := Option.some.inj h
      rfl
    · cases h

theorem step_cases (h : step s t = some s') : ∃ op, s.rest t = op :: s'.rest t ∧
    (∀ u, u ≠ t → s'.rest u = s.rest u) ∧
    ∀ u, s'.view u = if u = t then apply op (s.view u) else s.view u := by
  unfold step at h
  split at h
  · cases h
  · rename_i op rest hrest
    obtain ⟨v, hv, rfl⟩ := Option.map_eq_some_iff.mp h
    refine ⟨op, by simp [hrest], fun u hu ↦ ?_, fun u ↦ (view_perform hv : v.view u = _)⟩
    simp [hu, rest_perform hv]

/-- Every thread sees the locks as if it had run alone, whatever the others do. -/
theorem run_view (h : Run step (.start programs) tr s) (t : T) :
    ∃ done, programs t = done ++ s.rest t ∧ s.view t = applyAll done Thread.init := by
  refine h.invariant (I := fun s ↦ ∃ done, programs t = done ++ s.rest t ∧
    s.view t = applyAll done Thread.init) ⟨[], rfl, rfl⟩ ?_
  intro s v s' hI hs
  obtain ⟨done, hdone, hview⟩ := hI
  obtain ⟨op, hown, hother, hviews⟩ := step_cases hs
  by_cases ht : t = v
  · subst v
    refine ⟨done ++ [op], by rw [hdone, hown, List.append_assoc, List.singleton_append], ?_⟩
    rw [hviews, if_pos rfl, hview, applyAll, applyAll, List.foldl_append]
    rfl
  · refine ⟨done, by rw [hother t ht, hdone], ?_⟩
    rw [hviews, if_neg ht, hview]

/-- The thread is inside a locked call of `c`, and in no guard that has given the
mutex back. -/
def Inside (programs : T → List (Op C T)) (s : System C T) (t : T) (c : UsingClass C) : Prop :=
  ∃ done, programs t = done ++ s.rest t ∧ 0 < depth c done

/-- The threads keep each other out of the locked calls of a class, never unlock
a mutex of another thread, and leave all mutexes free. -/
structure Excludes (programs : T → List (Op C T)) (s : System C T) : Prop where
  exclusive : ∀ c t u, Inside programs s t c → Inside programs s u c → t = u
  no_stray : ∀ t, s.strayUnlock t = false
  released : (∀ t, s.rest t = []) → ∀ c, s.mtx c = .free

def twoCallers : Bool → Code Unit
  | true => .lockedCall .method ⟨0, ()⟩ (.unlockApiGuard ⟨0, ()⟩ .skip)
  | false => .lockedCall .event ⟨0, ()⟩ (.attempt .throw)

end Peripherals.Synchro.Threads
