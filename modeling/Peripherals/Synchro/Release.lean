import Peripherals.Synchro.Balance

namespace Peripherals.Synchro

open Function

variable {C : Type} [DecidableEq C]

def Releases (code : Code C) (t : Thread C) (active : List (UsingClass C)) : Prop :=
  ∀ c body u as, Reaches code t active (.unlockApiGuard c body) u as → c ∈ as →
    (UnlockApiGuard.create c u).hold c = 0

/-- A guard inside a locked call of its class finds the flag set and at most one
of these calls not yet unlocked. -/
def GuardsFree : (ℕ → Bool) → (UsingClass C → ℕ) → List (UsingClass C) → Code C → Prop
  | _, _, _, .skip | _, _, _, .throw => True
  | flag, depth, active, .seq p q => GuardsFree flag depth active p ∧
      (p.outcome = .normal → GuardsFree (fun u ↦ flag u && !p.runsLockedCall u) depth active q)
  | flag, depth, active, .attempt p => GuardsFree flag depth active p
  | flag, depth, active, .lockedCall _ c body =>
    GuardsFree (update flag c.unit true) (update depth c (depth c + 1)) (c :: active) body
  | flag, depth, active, .unlockApiGuard c body =>
    (c ∈ active → depth c ≤ (flag c.unit).toNat) ∧
      GuardsFree flag (if flag c.unit then update depth c (depth c - 1) else depth) active body

theorem create_hold_eq_zero (c : UsingClass C) (t : Thread C) :
    (UnlockApiGuard.create c t).hold c = 0 ↔
      t.hold c ≤ (t.isThreadUsingLockedApi c.unit).toNat := by
  unfold UnlockApiGuard.create
  cases hflag : t.isThreadUsingLockedApi c.unit with
  | true =>
    rw [if_pos rfl, hold_unlock_self, Bool.toNat_true]
    omega
  | false => simp

theorem create_hold (c : UsingClass C) (t : Thread C) : (UnlockApiGuard.create c t).hold =
    if t.isThreadUsingLockedApi c.unit then update t.hold c (t.hold c - 1) else t.hold := by
  unfold UnlockApiGuard.create
  split <;> rfl

theorem releases_seq {p q : Code C} {t : Thread C} {active : List (UsingClass C)} :
    Releases (.seq p q) t active ↔ Releases p t active ∧
      ((exec p t).2 = .normal → Releases q (exec p t).1 active) := by
  refine ⟨?_, ?_⟩
  · intro h
    exact ⟨fun _ _ _ _ hr ↦ h _ _ _ _ (.seq_left hr),
      fun hend _ _ _ _ hr ↦ h _ _ _ _ (.seq_right hend hr)⟩
  · intro h c body u as hr
    obtain ⟨hp, hq⟩ := h
    cases hr with
    | seq_left hr => exact hp _ _ _ _ hr
    | seq_right hend hr => exact hq hend _ _ _ _ hr

theorem releases_attempt {p : Code C} {t : Thread C} {active : List (UsingClass C)} :
    Releases (.attempt p) t active ↔ Releases p t active := by
  refine ⟨?_, ?_⟩
  · intro h c body u as hr
    exact h _ _ _ _ (.attempt hr)
  · intro h c body u as hr
    cases hr with
    | attempt hr => exact h _ _ _ _ hr

theorem releases_lockedCall {entry : Entry} {c : UsingClass C} {body : Code C} {t : Thread C}
    {active : List (UsingClass C)} : Releases (.lockedCall entry c body) t active ↔
      Releases body (enter c t) (c :: active) := by
  refine ⟨?_, ?_⟩
  · intro h d node u as hr
    exact h _ _ _ _ (.lockedCall hr)
  · intro h d node u as hr
    cases hr with
    | lockedCall hr => exact h _ _ _ _ hr

theorem releases_unlockApiGuard {c : UsingClass C} {body : Code C} {t : Thread C}
    {active : List (UsingClass C)} : Releases (.unlockApiGuard c body) t active ↔
      (c ∈ active → (UnlockApiGuard.create c t).hold c = 0) ∧
        Releases body (UnlockApiGuard.create c t) active := by
  refine ⟨?_, ?_⟩
  · intro h
    exact ⟨h _ _ _ _ .here, fun _ _ _ _ hr ↦ h _ _ _ _ (.unlockApiGuard hr)⟩
  · intro h d node u as hr
    obtain ⟨hc, hbody⟩ := h
    cases hr with
    | here => exact hc
    | unlockApiGuard hr => exact hbody _ _ _ _ hr

theorem releases_iff_guardsFree {code : Code C} {t : Thread C} {active : List (UsingClass C)}
    (hs : GuardsSafe t.isThreadUsingLockedApi t.hold code) :
    Releases code t active ↔ GuardsFree t.isThreadUsingLockedApi t.hold active code := by
  induction code generalizing t active with
  | skip => exact ⟨fun _ ↦ trivial, fun _ _ _ _ _ hr ↦ nomatch hr⟩
  | throw => exact ⟨fun _ ↦ trivial, fun _ _ _ _ _ hr ↦ nomatch hr⟩
  | seq p q ihp ihq =>
    rw [releases_seq, GuardsFree, ihp hs.1, exec_outcome, exec_of_guardsSafe hs.1]
    exact and_congr_right fun _ ↦ forall_congr' fun hout ↦ ihq (hs.2 hout)
  | attempt p ih =>
    rw [releases_attempt, GuardsFree]
    exact ih hs
  | lockedCall entry c body ih =>
    rw [releases_lockedCall, GuardsFree]
    exact ih (t := enter c t) hs
  | unlockApiGuard c body ih =>
    rw [releases_unlockApiGuard, create_hold_eq_zero, ih (guardsSafe_create hs), create_flag,
      create_hold]
    rfl

/-- The guard frees the mutex exactly when one locked call at most is left to
unlock and the flag says so; under safe guards this is a matter of the nesting. -/
theorem releases_iff (code : Code C) :
    (Releases code Thread.init [] ↔ ∀ c body u as,
      Reaches code Thread.init [] (.unlockApiGuard c body) u as → c ∈ as →
        u.hold c ≤ (u.isThreadUsingLockedApi c.unit).toNat) ∧
    (GuardsSafe (fun _ ↦ false) (fun _ ↦ 0) code →
      (Releases code Thread.init [] ↔ GuardsFree (fun _ ↦ false) (fun _ ↦ 0) [] code)) := by
  refine ⟨?_, releases_iff_guardsFree (t := Thread.init)⟩
  simp only [Releases, create_hold_eq_zero]

def nestedCall : Code Unit :=
  .lockedCall .method ⟨0, ()⟩ (.lockedCall .method ⟨0, ()⟩ (.unlockApiGuard ⟨0, ()⟩ .skip))

theorem releases_iff_nestedCall : GuardsSafe (fun _ ↦ false) (fun _ ↦ 0) nestedCall ∧
    (Releases nestedCall Thread.init [] ↔
      GuardsFree (fun _ ↦ false) (fun _ ↦ 0) [] nestedCall) := by
  have hsafe : GuardsSafe (fun _ ↦ false) (fun _ ↦ 0) nestedCall := by
    simp [nestedCall, GuardsSafe, Code.runsLockedCall]
  exact ⟨hsafe, (releases_iff nestedCall).2 hsafe⟩

theorem nestedCall_keeps_lock : ¬ ∀ code : Code Unit, Releases code Thread.init [] := by
  intro h
  have hzero := h nestedCall ⟨0, ()⟩ .skip _ _ (.lockedCall (.lockedCall .here)) (by simp)
  cases hzero

end Peripherals.Synchro
