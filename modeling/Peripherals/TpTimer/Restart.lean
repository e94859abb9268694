import Mathlib.Data.List.Induction
import Peripherals.TpTimer

namespace Peripherals.TpTimer

open Execution

variable {κ : Type*} {s t t' : State κ} {code : List (Stmt κ)} {calls : List (Method κ)}

def invocation (method : Method κ) : List (Action κ) :=
  .call method :: method.body.map fun _ ↦ .exec

def perform (s : State κ) (method : Method κ) : State κ := method.body.foldl Stmt.exec s

def Method.leavesActive : Method κ → Option Bool
  | .start | .startMsec _ => some true
  | .stop => some false
  | .setSingleShot _ | .setInterval _ | .connect _ => none

def Method.mode : Method κ → Option Bool
  | .setSingleShot val => some val
  | _ => none

theorem perform_code (s : State κ) (method : Method κ) : (perform s method).code = s.code := by
  cases method <;> rfl

theorem run_invocation (h : s.code = .runCallback :: code) (method : Method κ) :
    Run step s (invocation method) (perform s method) := by
  obtain ⟨jobs, active, singleShot, interval, callback, _⟩ := s
  obtain rfl := h
  cases method with
  | stop => exact .cons rfl (.cons rfl (.one rfl))
  | start => exact .cons rfl (.cons rfl (.cons rfl (.one rfl)))
  | startMsec msec => exact .cons rfl (.cons rfl (.cons rfl (.cons rfl (.one rfl))))
  | setSingleShot val => exact .cons rfl (.one rfl)
  | setInterval msec => exact .cons rfl (.one rfl)
  | connect callback => exact .cons rfl (.one rfl)

theorem run_calls (h : s.code = .runCallback :: code) (calls : List (Method κ)) :
    Run step s (calls.flatMap invocation) (calls.foldl perform s) ∧
      (calls.foldl perform s).code = .runCallback :: code := by
  induction calls generalizing s with
  | nil => exact ⟨.nil, h⟩
  | cons method calls ih =>
    obtain ⟨hrun, hcode⟩ := ih ((perform_code s method).trans h)
    rw [List.flatMap_cons]
    exact ⟨(run_invocation h method).trans hrun, hcode⟩

/-- What the callback leaves behind: the mode that it set last, and the timer
active with one job if a start came last. -/
theorem calls_effect (s : State κ) (calls : List (Method κ)) :
    (calls.foldl perform s).m_isSingleShot = (latest Method.mode calls).getD s.m_isSingleShot ∧
      (calls.foldl perform s).m_isActive =
        (latest Method.leavesActive calls).getD s.m_isActive := by
  induction calls using List.reverseRecOn with
  | nil => exact ⟨rfl, rfl⟩
  | append_singleton calls method ih =>
    obtain ⟨hmode, hactive⟩ := ih
    simp only [List.foldl_append, List.foldl_cons, List.foldl_nil, latest_snoc]
    cases method with
    | setSingleShot val => exact ⟨rfl, hactive⟩
    | setInterval msec => exact ⟨hmode, hactive⟩
    | connect callback => exact ⟨hmode, hactive⟩
    | stop => exact ⟨hmode, rfl⟩
    | start => exact ⟨hmode, rfl⟩
    | startMsec msec => exact ⟨hmode, rfl⟩

/-- The rest of `Timed` after the calls of the callback, executed to its end. -/
def finish (s : State κ) : State κ :=
  if s.m_isActive then
    if s.m_isSingleShot then { perform s .stop with code := [] }
    else { perform s .start with code := [] }
  else { s with code := [] }

theorem run_finish (h : s.code = [.runCallback, .restartOrStop]) :
    ∃ n, Run step s (List.replicate n .exec) (finish s) := by
  obtain ⟨jobs, active, singleShot, interval, callback, _⟩ := s
  obtain rfl := h
  cases active with
  | false => exact ⟨2, .cons rfl (.one rfl)⟩
  | true =>
    cases singleShot with
    | false => exact ⟨5, .cons rfl (.cons rfl (.cons rfl (.cons rfl (.one rfl))))⟩
    | true => exact ⟨4, .cons rfl (.cons rfl (.cons rfl (.one rfl)))⟩

theorem finish_code (s : State κ) : (finish s).code = [] := by
  unfold finish
  split
  · split <;> rfl
  · rfl

/-- Where nothing is left to execute, nothing is executed. -/
theorem replicate_exec_unique {n m : ℕ} (h : Run step s (List.replicate n .exec) t)
    (ht : t.code = []) (h' : Run step s (List.replicate m .exec) t') (ht' : t'.code = []) :
    t = t' := by
  induction n generalizing s m with
  | zero =>
    obtain rfl := h.eq_of_nil
    cases m with
    | zero => exact h'.eq_of_nil.symm
    | succ m =>
      obtain ⟨u, hu, -⟩ := run_cons.mp h'
      simp [step, ht] at hu
  | succ n ih =>
    obtain ⟨u, hu, hrest⟩ := run_cons.mp h
    cases m with
    | zero =>
      obtain rfl := h'.eq_of_nil
      simp [step, ht'] at hu
    | succ m =>
      obtain ⟨u', hu', hrest'⟩ := run_cons.mp h'
      obtain rfl := Option.some.inj (hu.symm.trans hu')
      exact ih hrest hrest'

theorem finish_honours_iff (hactive : s.m_isActive = true) :
    ((finish s).m_isActive = true ∧ (finish s).jobs.length = 1) ↔ s.m_isSingleShot = false := by
  cases hmode : s.m_isSingleShot with
  | true => simp [finish, hactive, hmode, perform, Method.body, TpTimer.stop, Stmt.exec]
  | false => simp [finish, hactive, hmode, perform, Method.body, TpTimer.start, Stmt.exec]

/-- `Timed` from the call of the callback on, for a callback whose last start or
stop is a start. -/
theorem restart_honoured_iff (callback : κ) (hs : s.code = timed (some callback))
    (hstart : latest Method.leavesActive calls = some true) :
    (∃ n t, Run step s (calls.flatMap invocation ++ List.replicate n .exec) t ∧ t.code = []) ∧
      ∀ n t, Run step s (calls.flatMap invocation ++ List.replicate n .exec) t → t.code = [] →
        ((t.m_isActive = true ∧ t.jobs.length = 1) ↔
          (latest Method.mode calls).getD s.m_isSingleShot = false) := by
  obtain ⟨hcalls, hcode⟩ := run_calls hs calls
  obtain ⟨hmode, hactive⟩ := calls_effect s calls
  obtain ⟨n, hfinish⟩ := run_finish hcode
  refine ⟨⟨n, _, hcalls.trans hfinish, finish_code _⟩, ?_⟩
  intro m t hrun ht
  obtain ⟨u, hu, hrest⟩ := run_append.mp hrun
  obtain rfl := hu.functional hcalls
  obtain rfl := replicate_exec_unique hrest ht hfinish (finish_code _)
  rw [hstart, Option.getD_some] at hactive
  rw [finish_honours_iff hactive, hmode]

def fired (singleShot : Bool) : State Unit where
  jobs := []
  m_isActive := true
  m_isSingleShot := singleShot
  m_intervalInMs := 5
  onTimeoutCallback := some ()
  code := timed (some ())

theorem run_fired (singleShot : Bool) : Run step init
    [.call (.connect (some ())), .exec, .call (.setSingleShot singleShot), .exec,
      .call (.startMsec 5), .exec, .exec, .exec, .exec, .fire] (fired singleShot) :=
  run_iff_foldlM.mpr rfl

def restartOnce : List (Method Unit) := [.stop, .startMsec 7]

theorem restart_honoured_iff_periodic :
    (∃ n t, Run step (fired false)
      (restartOnce.flatMap invocation ++ List.replicate n .exec) t ∧ t.code = []) ∧
      ∀ n t, Run step (fired false)
        (restartOnce.flatMap invocation ++ List.replicate n .exec) t → t.code = [] →
          ((t.m_isActive = true ∧ t.jobs.length = 1) ↔
            (latest Method.mode restartOnce).getD (fired false).m_isSingleShot = false) :=
  restart_honoured_iff () rfl rfl

/-- In single-shot mode the restart is undone when the callback returns. -/
theorem restart_in_single_shot_lost :
    ¬ ∀ (tr : List (Action Unit)) (s t : State Unit) (calls : List (Method Unit)) (n : ℕ),
      Run step init tr s → s.code = timed (some ()) →
      latest Method.leavesActive calls = some true →
      Run step s (calls.flatMap invocation ++ List.replicate n .exec) t → t.code = [] →
      t.m_isActive = true ∧ t.jobs.length = 1 := by
  intro h
  have hrun : Run step (fired true) (restartOnce.flatMap invocation ++ List.replicate 4 .exec)
      { fired true with m_isActive := false, m_intervalInMs := 7, code := [] } :=
    run_iff_foldlM.mpr rfl
  obtain ⟨hactive, -⟩ := h _ (fired true) _ restartOnce 4 (run_fired true) rfl rfl hrun rfl
  cases hactive

end Peripherals.TpTimer
