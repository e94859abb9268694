import Peripherals.Synchro.ApiLock

namespace Peripherals.Synchro

open Function

variable {C : Type} [DecidableEq C]

/-- With the flag of its unit set, a guard stands inside a locked call of its class
that no guard has unlocked yet, and no locked call of its unit completes before the
guard ends. The flags and the number of such calls are known from the nesting alone. -/
def GuardsSafe : (ℕ → Bool) → (UsingClass C → ℕ) → Code C → Prop
  | _, _, .skip | _, _, .throw => True
  | flag, depth, .seq p q => GuardsSafe flag depth p ∧
      (p.outcome = .normal → GuardsSafe (fun u ↦ flag u && !p.runsLockedCall u) depth q)
  | flag, depth, .attempt p => GuardsSafe flag depth p
  | flag, depth, .lockedCall _ c body =>
    GuardsSafe (update flag c.unit true) (update depth c (depth c + 1)) body
  | flag, depth, .unlockApiGuard c body =>
    if flag c.unit then
      0 < depth c ∧ body.runsLockedCall c.unit = false ∧
        GuardsSafe flag (update depth c (depth c - 1)) body
    else GuardsSafe flag depth body

theorem unlock_stray {c : UsingClass C} {t : Thread C} (h : 0 < t.hold c) :
    (t.unlock c).strayUnlock = t.strayUnlock := by
  have hne : (t.hold c == 0) = false := beq_eq_false_iff_ne.mpr (by omega)
  simp [Thread.unlock, hne]

theorem stray_unlock {c : UsingClass C} {t : Thread C} (h : t.strayUnlock = true) :
    (t.unlock c).strayUnlock = true := by
  simp [Thread.unlock, h]

theorem hold_unlock_self (c : UsingClass C) (t : Thread C) : (t.unlock c).hold c = t.hold c - 1 :=
  update_self ..

theorem hold_lock_self (c : UsingClass C) (t : Thread C) : (t.lock c).hold c = t.hold c + 1 :=
  update_self ..

theorem unlock_lock (c : UsingClass C) (t : Thread C) : (t.lock c).unlock c = t := by
  ext d
  · rfl
  · by_cases hd : d = c
    · subst d
      rw [hold_unlock_self, hold_lock_self, Nat.add_sub_cancel]
    · exact (update_of_ne hd _ _).trans (update_of_ne hd _ _)
  · rw [unlock_stray (by rw [hold_lock_self]; omega)]
    rfl

theorem lock_unlock {c : UsingClass C} {t : Thread C} (h : 0 < t.hold c) :
    (t.unlock c).lock c = t := by
  ext d
  · rfl
  · by_cases hd : d = c
    · subst d
      rw [hold_lock_self, hold_unlock_self, Nat.sub_add_cancel h]
    · exact (update_of_ne hd _ _).trans (update_of_ne hd _ _)
  · exact unlock_stray h ▸ rfl

theorem leave_enter (c : UsingClass C) (t : Thread C) (flag : ℕ → Bool) :
    leave c { enter c t with isThreadUsingLockedApi := flag } =
      { t with isThreadUsingLockedApi := update flag c.unit false } :=
  unlock_lock c { t with isThreadUsingLockedApi := update flag c.unit false }

theorem create_of_flag {c : UsingClass C} {t : Thread C}
    (h : t.isThreadUsingLockedApi c.unit = true) : UnlockApiGuard.create c t = t.unlock c :=
  if_pos h

theorem create_of_not_flag {c : UsingClass C} {t : Thread C}
    (h : ¬t.isThreadUsingLockedApi c.unit = true) : UnlockApiGuard.create c t = t :=
  if_neg h

theorem destroy_of_flag {c : UsingClass C} {t : Thread C}
    (h : t.isThreadUsingLockedApi c.unit = true) : UnlockApiGuard.destroy c t = t.lock c :=
  if_pos h

theorem destroy_of_not_flag {c : UsingClass C} {t : Thread C}
    (h : ¬t.isThreadUsingLockedApi c.unit = true) : UnlockApiGuard.destroy c t = t :=
  if_neg h

theorem exec_eq {code : Code C} {t : Thread C} (flag : ℕ → Bool)
    (h : (exec code t).1 = { t with isThreadUsingLockedApi := flag }) : (exec code t).1 =
      { t with
        isThreadUsingLockedApi := fun u ↦
          t.isThreadUsingLockedApi u && !code.runsLockedCall u } := by
  have hflag : flag = fun u ↦ t.isThreadUsingLockedApi u && !code.runsLockedCall u := by
    funext u
    rw [← exec_flag, h]
  rw [h, hflag]

theorem guardsSafe_create {c : UsingClass C} {body : Code C} {t : Thread C}
    (h : GuardsSafe t.isThreadUsingLockedApi t.hold (.unlockApiGuard c body)) :
    GuardsSafe (UnlockApiGuard.create c t).isThreadUsingLockedApi
      (UnlockApiGuard.create c t).hold body := by
  rw [GuardsSafe] at h
  split at h
  · rename_i hflag
    rw [create_of_flag hflag]
    exact h.2.2
  · rename_i hflag
    rwa [create_of_not_flag hflag]

/-- Under safe guards the mutexes end as they began and only the flags change. -/
theorem exec_of_guardsSafe {code : Code C} {t : Thread C}
    (h : GuardsSafe t.isThreadUsingLockedApi t.hold code) : (exec code t).1 =
      { t with
        isThreadUsingLockedApi := fun u ↦
          t.isThreadUsingLockedApi u && !code.runsLockedCall u } := by
  induction code generalizing t with
  | skip => simp [exec, Code.runsLockedCall]
  | throw => simp [exec, Code.runsLockedCall]
  | seq p q ihp ihq =>
    obtain ⟨hp, hq⟩ := h
    have hend := ihp hp
    cases hout : p.outcome with
    | normal =>
      rw [exec_seq_normal ((exec_outcome p t).trans hout), hend, ihq (hq hout)]
      simp [Code.runsLockedCall, hout, Bool.and_assoc]
    | exception =>
      rw [exec_seq_exception ((exec_outcome p t).trans hout), hend]
      simp [Code.runsLockedCall, hout]
  | attempt p ih => exact ih h
  | lockedCall entry c body ih =>
    have hend : (exec (.lockedCall entry c body) t).1 = leave c { enter c t with
        isThreadUsingLockedApi := fun u ↦
          (enter c t).isThreadUsingLockedApi u && !body.runsLockedCall u } := by
      rw [exec_lockedCall, ih (t := enter c t) h]
    rw [leave_enter] at hend
    exact exec_eq _ hend
  | unlockApiGuard c body ih =>
    rw [GuardsSafe] at h
    refine exec_eq (fun u ↦ t.isThreadUsingLockedApi u && !body.runsLockedCall u) ?_
    rw [exec_unlockApiGuard]
    split at h
    · rename_i hflag
      obtain ⟨hpos, hruns, hbody⟩ := h
      have hkept : (exec body (t.unlock c)).1.isThreadUsingLockedApi c.unit = true := by
        rw [exec_flag, hruns, unlock_flag, hflag]
        rfl
      rw [create_of_flag hflag, destroy_of_flag hkept, ih (t := t.unlock c) hbody]
      exact lock_unlock (t := { t with isThreadUsingLockedApi := _ }) hpos
    · rename_i hflag
      have hclear : ¬(exec body t).1.isThreadUsingLockedApi c.unit = true := by
        rw [exec_flag, Bool.and_eq_true]
        exact fun h ↦ hflag h.1
      rw [create_of_not_flag hflag, destroy_of_not_flag hclear, ih h]

theorem create_stray {c : UsingClass C} {t : Thread C} (h : t.strayUnlock = true) :
    (UnlockApiGuard.create c t).strayUnlock = true := by
  unfold UnlockApiGuard.create
  split
  · exact stray_unlock h
  · exact h

@[simp]
theorem destroy_strayUnlock (c : UsingClass C) (t : Thread C) :
    (UnlockApiGuard.destroy c t).strayUnlock = t.strayUnlock := by
  unfold UnlockApiGuard.destroy
  split <;> rfl

theorem exec_stray {code : Code C} {t : Thread C} (h : t.strayUnlock = true) :
    (exec code t).1.strayUnlock = true := by
  induction code generalizing t with
  | skip => exact h
  | throw => exact h
  | seq p q ihp ihq =>
    cases hout : p.outcome with
    | normal =>
      rw [exec_seq_normal ((exec_outcome p t).trans hout)]
      exact ihq (ihp h)
    | exception =>
      rw [exec_seq_exception ((exec_outcome p t).trans hout)]
      exact ihp h
  | attempt p ih => exact ih h
  | lockedCall entry c body ih =>
    rw [exec_lockedCall]
    exact stray_unlock (ih (t := enter c t) h)
  | unlockApiGuard c body ih =>
    rw [exec_unlockApiGuard, destroy_strayUnlock]
    exact ih (create_stray h)

theorem Reaches.guardsSafe {code node : Code C} {t u : Thread C} {active as : List (UsingClass C)}
    (h : Reaches code t active node u as) (hs : GuardsSafe t.isThreadUsingLockedApi t.hold code) :
    GuardsSafe u.isThreadUsingLockedApi u.hold node := by
  induction h with
  | here => exact hs
  | seq_left _ ih => exact ih hs.1
  | seq_right hp _ ih =>
    apply ih
    rw [exec_of_guardsSafe hs.1]
    exact hs.2 ((exec_outcome _ _).symm.trans hp)
  | attempt _ ih => exact ih hs
  | lockedCall _ ih => exact ih hs
  | unlockApiGuard _ ih => exact ih (guardsSafe_create hs)

structure Balanced (code : Code C) (t : Thread C) (active : List (UsingClass C)) : Prop where
  no_stray : (exec code t).1.strayUnlock = false
  restores : ∀ node u as, Reaches code t active node u as → (exec node u).1.hold = u.hold

theorem balanced_of_guardsSafe {code : Code C} {t : Thread C} {active : List (UsingClass C)}
    (ht : t.strayUnlock = false) (h : GuardsSafe t.isThreadUsingLockedApi t.hold code) :
    Balanced code t active := by
  refine ⟨by rw [exec_of_guardsSafe h]; exact ht, fun node u as hr ↦ ?_⟩
  rw [exec_of_guardsSafe (hr.guardsSafe h)]

theorem stray_false {code : Code C} {t : Thread C} (h : (exec code t).1.strayUnlock = false) :
    t.strayUnlock = false := by
  by_contra ht
  rw [Bool.not_eq_false] at ht
  rw [exec_stray ht] at h
  cases h

theorem Balanced.seq_left {p q : Code C} {t : Thread C} {active : List (UsingClass C)}
    (h : Balanced (.seq p q) t active) : Balanced p t active := by
  refine ⟨?_, fun _ _ _ hr ↦ h.restores _ _ _ (.seq_left hr)⟩
  have hstray := h.no_stray
  cases hout : p.outcome with
  | normal =>
    rw [exec_seq_normal ((exec_outcome p t).trans hout)] at hstray
    exact stray_false hstray
  | exception => rwa [exec_seq_exception ((exec_outcome p t).trans hout)] at hstray

theorem Balanced.seq_right {p q : Code C} {t : Thread C} {active : List (UsingClass C)}
    (h : Balanced (.seq p q) t active) (hend : (exec p t).2 = .normal) :
    Balanced q (exec p t).1 active := by
  refine ⟨?_, fun _ _ _ hr ↦ h.restores _ _ _ (.seq_right hend hr)⟩
  have hstray := h.no_stray
  rwa [exec_seq_normal hend] at hstray

theorem Balanced.lockedCall {entry : Entry} {c : UsingClass C} {body : Code C} {t : Thread C}
    {active : List (UsingClass C)} (h : Balanced (.lockedCall entry c body) t active) :
    Balanced body (enter c t) (c :: active) := by
  refine ⟨?_, fun _ _ _ hr ↦ h.restores _ _ _ (.lockedCall hr)⟩
  by_contra hbody
  rw [Bool.not_eq_false] at hbody
  have hstray := h.no_stray
  rw [exec_lockedCall] at hstray
  exact absurd (stray_unlock hbody) (Bool.eq_false_iff.mp hstray)

theorem Balanced.unlockApiGuard {c : UsingClass C} {body : Code C} {t : Thread C}
    {active : List (UsingClass C)} (h : Balanced (.unlockApiGuard c body) t active) :
    Balanced body (UnlockApiGuard.create c t) active := by
  refine ⟨?_, fun _ _ _ hr ↦ h.restores _ _ _ (.unlockApiGuard hr)⟩
  have hstray := h.no_stray
  rwa [exec_unlockApiGuard, destroy_strayUnlock] at hstray

/-- A guard that finds the flag set and is balanced had a lock to give back, and
finds the flag set again at its end. -/
theorem Balanced.guard_safe {c : UsingClass C} {body : Code C} {t : Thread C}
    {active : List (UsingClass C)} (h : Balanced (.unlockApiGuard c body) t active)
    (hflag : t.isThreadUsingLockedApi c.unit = true) :
    0 < t.hold c ∧ body.runsLockedCall c.unit = false := by
  have hbody := h.unlockApiGuard
  have hwhole := h.restores _ _ _ .here
  rw [exec_unlockApiGuard] at hwhole
  rw [create_of_flag hflag] at hbody hwhole
  have hin := hbody.restores _ _ _ .here
  have hcreate := stray_false hbody.no_stray
  have hpos : 0 < t.hold c := by
    by_contra hzero
    simp [Thread.unlock, Nat.eq_zero_of_not_pos hzero] at hcreate
  refine ⟨hpos, ?_⟩
  by_contra hruns
  rw [Bool.not_eq_false] at hruns
  have hclear : ¬(exec body (t.unlock c)).1.isThreadUsingLockedApi c.unit = true := by
    rw [exec_flag, hruns, Bool.not_true, Bool.and_false]
    exact Bool.false_ne_true
  rw [destroy_of_not_flag hclear, hin] at hwhole
  have hc := congrFun hwhole c
  rw [hold_unlock_self] at hc
  omega

theorem guardsSafe_of_balanced {code : Code C} {t : Thread C} {active : List (UsingClass C)}
    (h : Balanced code t active) : GuardsSafe t.isThreadUsingLockedApi t.hold code := by
  induction code generalizing t active with
  | skip => trivial
  | throw => trivial
  | seq p q ihp ihq =>
    have hsafe := ihp h.seq_left
    refine ⟨hsafe, fun hout ↦ ?_⟩
    have hq := ihq (h.seq_right ((exec_outcome p t).trans hout))
    rwa [exec_of_guardsSafe hsafe] at hq
  | attempt p ih =>
    have hp : Balanced p t active :=
      ⟨h.no_stray, fun _ _ _ hr ↦ h.restores _ _ _ (.attempt hr)⟩
    exact ih hp
  | lockedCall entry c body ih => exact ih h.lockedCall
  | unlockApiGuard c body ih =>
    have hsafe := ih h.unlockApiGuard
    rw [GuardsSafe]
    split
    · rename_i hflag
      obtain ⟨hpos, hruns⟩ := h.guard_safe hflag
      rw [create_of_flag hflag] at hsafe
      exact ⟨hpos, hruns, hsafe⟩
    · rename_i hflag
      rwa [create_of_not_flag hflag] at hsafe

/-- The locks of one thread stay balanced exactly in the executions whose guards are safe. -/
theorem balanced_iff_guardsSafe (code : Code C) :
    Balanced code Thread.init [] ↔ GuardsSafe (fun _ ↦ false) (fun _ ↦ 0) code :=
  ⟨guardsSafe_of_balanced, fun h ↦ balanced_of_guardsSafe (t := Thread.init) rfl h⟩

def callback : Code Unit :=
  .lockedCall .method ⟨0, ()⟩ (.unlockApiGuard ⟨0, ()⟩ (.lockedCall .method ⟨0, ()⟩ .skip))

theorem callback_unbalanced : ¬ ∀ code : Code Unit, Balanced code Thread.init [] := by
  intro h
  have hstray : (exec callback Thread.init).1.strayUnlock = true := by decide
  rw [(h callback).no_stray] at hstray
  cases hstray

example : GuardsSafe (fun _ ↦ false) (fun _ ↦ 0) (.lockedCall .method ⟨0, ()⟩
    (.unlockApiGuard ⟨0, ()⟩ (.lockedCall .method ⟨1, ()⟩ .skip))) := by
  simp [GuardsSafe, Code.runsLockedCall]

end Peripherals.Synchro
