import Mathlib.Logic.Function.Basic
import Mathlib.Data.List.Basic

namespace Peripherals.Synchro

open Function

variable {C : Type} [DecidableEq C]

/-- A class and the translation unit that it is compiled in. -/
structure UsingClass (C : Type) where
  unit : ℕ
  name : C
  deriving DecidableEq

/-- One thread's view: `hold c` is its hold count on `ApiLocks<c>::mtx`. The flag
stands in an unnamed namespace of a header, so every translation unit has its own. -/
@[ext]
structure Thread (C : Type) where
  isThreadUsingLockedApi : ℕ → Bool
  hold : UsingClass C → ℕ
  strayUnlock : Bool

def Thread.init : Thread C := ⟨fun _ ↦ false, fun _ ↦ 0, false⟩

def Thread.setFlag (unit : ℕ) (b : Bool) (t : Thread C) : Thread C :=
  { t with isThreadUsingLockedApi := update t.isThreadUsingLockedApi unit b }

def Thread.lock (c : UsingClass C) (t : Thread C) : Thread C :=
  { t with hold := update t.hold c (t.hold c + 1) }

/-- Unlocking a mutex that the thread does not hold leaves it free. -/
def Thread.unlock (c : UsingClass C) (t : Thread C) : Thread C :=
  { t with
    hold := update t.hold c (t.hold c - 1)
    strayUnlock := t.strayUnlock || t.hold c == 0 }

@[simp]
theorem lock_flag (c : UsingClass C) (t : Thread C) :
    (t.lock c).isThreadUsingLockedApi = t.isThreadUsingLockedApi := rfl

@[simp]
theorem unlock_flag (c : UsingClass C) (t : Thread C) :
    (t.unlock c).isThreadUsingLockedApi = t.isThreadUsingLockedApi := rfl

omit [DecidableEq C] in
theorem setFlag_of_ne {unit other : ℕ} (h : unit ≠ other) (b : Bool) (t : Thread C) :
    (t.setFlag other b).isThreadUsingLockedApi unit = t.isThreadUsingLockedApi unit :=
  update_of_ne h _ _

inductive Outcome
  | normal
  | exception
  deriving DecidableEq

/-- The flag is set before the mutex is taken, and cleared before it is given
back, whether the call returns or throws. -/
def enter (c : UsingClass C) (t : Thread C) : Thread C := (t.setFlag c.unit true).lock c

def leave (c : UsingClass C) (t : Thread C) : Thread C := (t.setFlag c.unit false).unlock c

def lockedCall (c : UsingClass C) (body : Thread C → Thread C × Outcome) (t : Thread C) :
    Thread C × Outcome :=
  let (u, outcome) := body (enter c t)
  (leave c u, outcome)

def getFunctionToCall (c : UsingClass C) (method : Thread C → Thread C × Outcome) :
    Thread C → Thread C × Outcome := lockedCall c method

def genericIarmHandler (c : UsingClass C) (handler : Thread C → Thread C × Outcome) :
    Thread C → Thread C × Outcome := lockedCall c handler

def UnlockApiGuard.create (c : UsingClass C) (t : Thread C) : Thread C :=
  if t.isThreadUsingLockedApi c.unit then t.unlock c else t

def UnlockApiGuard.destroy (c : UsingClass C) (t : Thread C) : Thread C :=
  if t.isThreadUsingLockedApi c.unit then t.lock c else t

inductive Entry
  | method
  | event

/-- A well nested execution; `attempt` is a `try` block that swallows exceptions. -/
inductive Code (C : Type)
  | skip
  | throw
  | seq (p q : Code C)
  | attempt (p : Code C)
  | lockedCall (entry : Entry) (c : UsingClass C) (body : Code C)
  | unlockApiGuard (c : UsingClass C) (body : Code C)

def exec : Code C → Thread C → Thread C × Outcome
  | .skip, t => (t, .normal)
  | .throw, t => (t, .exception)
  | .seq p q, t =>
    match exec p t with
    | (u, .normal) => exec q u
    | (u, .exception) => (u, .exception)
  | .attempt p, t => ((exec p t).1, .normal)
  | .lockedCall .method c body, t => getFunctionToCall c (exec body) t
  | .lockedCall .event c body, t => genericIarmHandler c (exec body) t
  | .unlockApiGuard c body, t =>
    let (u, outcome) := exec body (UnlockApiGuard.create c t)
    (UnlockApiGuard.destroy c u, outcome)

@[simp]
theorem exec_lockedCall (entry : Entry) (c : UsingClass C) (body : Code C) (t : Thread C) :
    exec (.lockedCall entry c body) t = (leave c (exec body (enter c t)).1,
      (exec body (enter c t)).2) := by
  cases entry <;> rfl

@[simp]
theorem exec_unlockApiGuard (c : UsingClass C) (body : Code C) (t : Thread C) :
    exec (.unlockApiGuard c body) t =
      (UnlockApiGuard.destroy c (exec body (UnlockApiGuard.create c t)).1,
        (exec body (UnlockApiGuard.create c t)).2) := rfl

theorem exec_seq_normal {p : Code C} {t : Thread C} (h : (exec p t).2 = .normal) (q : Code C) :
    exec (.seq p q) t = exec q (exec p t).1 := by
  rw [exec]
  split <;> simp_all

theorem exec_seq_exception {p : Code C} {t : Thread C} (h : (exec p t).2 = .exception)
    (q : Code C) : exec (.seq p q) t = ((exec p t).1, .exception) := by
  rw [exec]
  split <;> simp_all

/-- The parts of an execution with the thread that starts them and the classes
of the locked calls that are active then, innermost first. -/
inductive Reaches : Code C → Thread C → List (UsingClass C) →
    Code C → Thread C → List (UsingClass C) → Prop
  | here {code : Code C} {t : Thread C} {active : List (UsingClass C)} :
      Reaches code t active code t active
  | seq_left {p q code : Code C} {t u : Thread C} {active as : List (UsingClass C)} :
      Reaches p t active code u as → Reaches (.seq p q) t active code u as
  | seq_right {p q code : Code C} {t u : Thread C} {active as : List (UsingClass C)} :
      (exec p t).2 = .normal → Reaches q (exec p t).1 active code u as →
        Reaches (.seq p q) t active code u as
  | attempt {p code : Code C} {t u : Thread C} {active as : List (UsingClass C)} :
      Reaches p t active code u as → Reaches (.attempt p) t active code u as
  | lockedCall {entry : Entry} {c : UsingClass C} {body code : Code C} {t u : Thread C}
      {active as : List (UsingClass C)} :
      Reaches body (enter c t) (c :: active) code u as →
        Reaches (.lockedCall entry c body) t active code u as
  | unlockApiGuard {c : UsingClass C} {body code : Code C} {t u : Thread C}
      {active as : List (UsingClass C)} :
      Reaches body (UnlockApiGuard.create c t) active code u as →
        Reaches (.unlockApiGuard c body) t active code u as

def Code.outcome : Code C → Outcome
  | .skip | .attempt _ => .normal
  | .throw => .exception
  | .seq p q => if p.outcome = .normal then q.outcome else .exception
  | .lockedCall _ _ body | .unlockApiGuard _ body => body.outcome

def Code.runsLockedCall (unit : ℕ) : Code C → Bool
  | .skip | .throw => false
  | .seq p q =>
    p.runsLockedCall unit || (decide (p.outcome = .normal) && q.runsLockedCall unit)
  | .attempt p => p.runsLockedCall unit
  | .lockedCall _ c body => c.unit == unit || body.runsLockedCall unit
  | .unlockApiGuard _ body => body.runsLockedCall unit

theorem exec_outcome (code : Code C) (t : Thread C) : (exec code t).2 = code.outcome := by
  induction code generalizing t with
  | skip => rfl
  | throw => rfl
  | seq p q ihp ihq =>
    cases hp : (exec p t).2 with
    | normal =>
      have hout : p.outcome = .normal := (ihp t).symm.trans hp
      rw [exec_seq_normal hp, Code.outcome, if_pos hout]
      exact ihq _
    | exception =>
      have hout : p.outcome = .exception := (ihp t).symm.trans hp
      rw [exec_seq_exception hp, Code.outcome, hout]
      rfl
  | attempt p ih => rfl
  | lockedCall entry c body ih =>
    rw [exec_lockedCall]
    exact ih _
  | unlockApiGuard c body ih =>
    rw [exec_unlockApiGuard]
    exact ih _

@[simp]
theorem create_flag (c : UsingClass C) (t : Thread C) :
    (UnlockApiGuard.create c t).isThreadUsingLockedApi = t.isThreadUsingLockedApi := by
  unfold UnlockApiGuard.create
  split <;> rfl

@[simp]
theorem destroy_flag (c : UsingClass C) (t : Thread C) :
    (UnlockApiGuard.destroy c t).isThreadUsingLockedApi = t.isThreadUsingLockedApi := by
  unfold UnlockApiGuard.destroy
  split <;> rfl

/-- Every completed locked call clears the flag of its unit, also for the calls around it. -/
theorem exec_flag (unit : ℕ) (code : Code C) (t : Thread C) :
    (exec code t).1.isThreadUsingLockedApi unit =
      (t.isThreadUsingLockedApi unit && !code.runsLockedCall unit) := by
  induction code generalizing t with
  | skip => simp [exec, Code.runsLockedCall]
  | throw => simp [exec, Code.runsLockedCall]
  | seq p q ihp ihq =>
    cases hp : (exec p t).2 with
    | normal =>
      have hout : p.outcome = .normal := (exec_outcome p t).symm.trans hp
      simp [exec_seq_normal hp, ihq, ihp, Code.runsLockedCall, hout, Bool.and_assoc]
    | exception =>
      have hout : p.outcome = .exception := (exec_outcome p t).symm.trans hp
      simp [exec_seq_exception hp, ihp, Code.runsLockedCall, hout]
  | attempt p ih => exact ih t
  | lockedCall entry c body ih =>
    rw [exec_lockedCall, leave, unlock_flag, Code.runsLockedCall]
    by_cases hc : unit = c.unit
    · subst hc
      simp [Thread.setFlag]
    · have hne : (c.unit == unit) = false := beq_eq_false_iff_ne.mpr (Ne.symm hc)
      rw [setFlag_of_ne hc, ih, enter, lock_flag, setFlag_of_ne hc, hne, Bool.false_or]
  | unlockApiGuard c body ih =>
    rw [exec_unlockApiGuard, destroy_flag, ih, create_flag, Code.runsLockedCall]

end Peripherals.Synchro
