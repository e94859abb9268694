import Peripherals.Execution

namespace Peripherals.TpTimer

open Execution

/-- The public methods of `TpTimer` that change it; `κ` are the callbacks. -/
inductive Method (κ : Type*)
  | stop
  | start
  | startMsec (msec : Int)
  | setSingleShot (val : Bool)
  | setInterval (msec : Int)
  | connect (callback : Option κ)

/-- The statements that the methods and `Timed` are made of. `runCallback`
stands for the rest of a callback that is running. -/
inductive Stmt (κ : Type*)
  | revoke
  | schedule
  | setActive (val : Bool)
  | setSingleShot (val : Bool)
  | setInterval (msec : Int)
  | setCallback (callback : Option κ)
  | runCallback
  | restartOrStop

/-- `jobs` are the jobs pending in `baseTimer`, by their delays; `code` is what
is left to execute of the operations in progress. -/
structure State (κ : Type*) where
  jobs : List Int
  m_isActive : Bool
  m_isSingleShot : Bool
  m_intervalInMs : Int
  onTimeoutCallback : Option κ
  code : List (Stmt κ)

variable {κ : Type*}

def init : State κ where
  jobs := []
  m_isActive := false
  m_isSingleShot := false
  m_intervalInMs := -1
  onTimeoutCallback := none
  code := []

def stop : List (Stmt κ) := [.revoke, .setActive false]

def start : List (Stmt κ) := [.revoke, .schedule, .setActive true]

def Method.body : Method κ → List (Stmt κ)
  | .stop => TpTimer.stop
  | .start => TpTimer.start
  | .startMsec msec => .setInterval msec :: TpTimer.start
  | .setSingleShot val => [.setSingleShot val]
  | .setInterval msec => [.setInterval msec]
  | .connect callback => [.setCallback callback]

/-- `TpTimerJob::Timed` and with it `TpTimer::Timed`, from the test of the callback. -/
def timed (onTimeoutCallback : Option κ) : List (Stmt κ) :=
  match onTimeoutCallback with
  | some _ => [.runCallback, .restartOrStop]
  | none => [.restartOrStop]

def Stmt.exec (s : State κ) : Stmt κ → State κ
  | .revoke => { s with jobs := [] }
  | .schedule => { s with jobs := s.jobs ++ [s.m_intervalInMs] }
  | .setActive val => { s with m_isActive := val }
  | .setSingleShot val => { s with m_isSingleShot := val }
  | .setInterval msec => { s with m_intervalInMs := msec }
  | .setCallback callback => { s with onTimeoutCallback := callback }
  | .runCallback => s
  | .restartOrStop =>
    if s.m_isActive then { s with code := (if s.m_isSingleShot then stop else start) ++ s.code }
    else s

inductive Action (κ : Type*)
  | call (method : Method κ)
  | fire
  | exec

/-- A method is called while no operation is in progress, or by the callback. A
job fires while no operation is in progress, and is gone by then. -/
def step (s : State κ) : Action κ → Option (State κ)
  | .call method =>
    match s.code with
    | [] => some { s with code := method.body }
    | .runCallback :: _ => some { s with code := method.body ++ s.code }
    | _ => none
  | .fire =>
    match s.code, s.jobs with
    | [], _ :: jobs => some { s with jobs, code := timed s.onTimeoutCallback }
    | _, _ => none
  | .exec =>
    match s.code with
    | [] => none
    | stmt :: code => some (stmt.exec { s with code })

/-- With `n` jobs pending, `m_isActive` as given, and this code left to execute:
there never is a second job, and in the end there is one if the timer is active.
The callback may leave the timer inactive without a job, or active. -/
def Sound : List (Stmt κ) → ℕ → Bool → Prop
  | [], n, active => n ≤ 1 ∧ (active = true ↔ n = 1)
  | .revoke :: code, n, active => n ≤ 1 ∧ Sound code 0 active
  | .schedule :: code, n, active => n = 0 ∧ Sound code 1 active
  | .setActive val :: code, n, _ => n ≤ 1 ∧ Sound code n val
  | .setSingleShot _ :: code, n, active => Sound code n active
  | .setInterval _ :: code, n, active => Sound code n active
  | .setCallback _ :: code, n, active => Sound code n active
  | .runCallback :: code, n, active =>
    n ≤ 1 ∧ (active = false → n = 0) ∧
      Sound code 0 false ∧ Sound code 0 true ∧ Sound code 1 true
  | .restartOrStop :: code, n, active =>
    n ≤ 1 ∧ (active = false → n = 0) ∧ Sound code 0 false ∧ Sound code 1 true

theorem Sound.le_one {code : List (Stmt κ)} {n : ℕ} {active : Bool}
    (h : Sound code n active) : n ≤ 1 := by
  induction code with
  | nil => exact h.1
  | cons stmt code ih =>
    cases stmt with
    | revoke => exact h.1
    | schedule => exact Nat.le_succ_of_le (Nat.le_of_eq h.1)
    | setActive val => exact h.1
    | setSingleShot val => exact ih h
    | setInterval msec => exact ih h
    | setCallback callback => exact ih h
    | runCallback => exact h.1
    | restartOrStop => exact h.1

theorem sound_start {code : List (Stmt κ)} {n : ℕ} {active : Bool} (hn : n ≤ 1)
    (h : Sound code 1 true) : Sound (start ++ code) n active :=
  ⟨hn, rfl, Nat.le_refl 1, h⟩

theorem sound_stop {code : List (Stmt κ)} {n : ℕ} {active : Bool} (hn : n ≤ 1)
    (h : Sound code 0 false) : Sound (stop ++ code) n active :=
  ⟨hn, Nat.zero_le 1, h⟩

/-- Whatever method runs first, code that is sound from its own state, from a
stopped and from a started timer stays so. -/
theorem sound_body {code : List (Stmt κ)} {n : ℕ} {active : Bool} (h : Sound code n active)
    (hstop : Sound code 0 false) (hstart : Sound code 1 true) (method : Method κ) :
    Sound (method.body ++ code) n active := by
  cases method with
  | stop => exact sound_stop h.le_one hstop
  | start => exact sound_start h.le_one hstart
  | startMsec msec => exact sound_start h.le_one hstart
  | setSingleShot val => exact h
  | setInterval msec => exact h
  | connect callback => exact h

def Consistent (s : State κ) : Prop := Sound s.code s.jobs.length s.m_isActive

variable {s s' : State κ} {a : Action κ} {tr : List (Action κ)}

theorem step_call {method : Method κ} (hs : step s (.call method) = some s') :
    (s.code = [] ∨ ∃ code, s.code = .runCallback :: code) ∧
      s' = { s with code := method.body ++ s.code } := by
  simp only [step] at hs
  split at hs
  next hcode =>
    obtain rfl := Option.some.inj hs
    exact ⟨.inl hcode, by rw [hcode, List.append_nil]⟩
  next code hcode => exact ⟨.inr ⟨code, hcode⟩, (Option.some.inj hs).symm⟩
  · cases hs

theorem step_fire (hs : step s .fire = some s') : ∃ delay jobs, s.code = [] ∧
    s.jobs = delay :: jobs ∧ s' = { s with jobs, code := timed s.onTimeoutCallback } := by
  simp only [step] at hs
  split at hs
  next delay jobs hcode hjobs =>
    exact ⟨delay, jobs, hcode, hjobs, (Option.some.inj hs).symm⟩
  · cases hs

theorem step_exec (hs : step s .exec = some s') :
    ∃ stmt code, s.code = stmt :: code ∧ s' = stmt.exec { s with code } := by
  simp only [step] at hs
  split at hs
  · cases hs
  next stmt code hcode => exact ⟨stmt, code, hcode, (Option.some.inj hs).symm⟩

theorem call_consistent {method : Method κ} (hi : Consistent s)
    (hs : step s (.call method) = some s') : Consistent s' := by
  obtain ⟨hcode, rfl⟩ := step_call hs
  unfold Consistent at hi
  rcases hcode with hcode | ⟨code, hcode⟩
  · rw [hcode] at hi
    simp only [Consistent, hcode]
    exact sound_body hi (by simp [Sound]) (by simp [Sound]) method
  · rw [hcode] at hi
    obtain ⟨hn, hinactive, h₀, h₁, h₂⟩ := id hi
    simp only [Consistent, hcode]
    exact sound_body hi ⟨Nat.zero_le 1, fun _ ↦ rfl, h₀, h₁, h₂⟩
      ⟨Nat.le_refl 1, by simp, h₀, h₁, h₂⟩ method

theorem fire_consistent (hi : Consistent s) (hs : step s .fire = some s') : Consistent s' := by
  obtain ⟨delay, jobs, hcode, hjobs, rfl⟩ := step_fire hs
  unfold Consistent at hi
  rw [hcode, hjobs] at hi
  obtain ⟨hn, hactive⟩ := hi
  have hlen : jobs.length = 0 := by simpa using hn
  have htrue : s.m_isActive = true := hactive.mpr (by simp [hlen])
  simp only [Consistent, hlen, htrue, timed]
  split <;> simp [Sound]

theorem exec_consistent (hi : Consistent s) (hs : step s .exec = some s') : Consistent s' := by
  obtain ⟨jobs, active, singleShot, interval, callback, code⟩ := s
  unfold Consistent at hi
  cases code with
  | nil => simp [step] at hs
  | cons stmt code =>
    obtain rfl := Option.some.inj hs
    cases stmt with
    | revoke => exact hi.2
    | schedule =>
      obtain ⟨hn, h⟩ := hi
      simpa [Consistent, Stmt.exec, hn] using h
    | setActive val => exact hi.2
    | setSingleShot val => exact hi
    | setInterval msec => exact hi
    | setCallback callback => exact hi
    | runCallback =>
      obtain ⟨hn, hinactive, h₀, h₁, h₂⟩ := hi
      simp only at hn hinactive
      simp only [Consistent, Stmt.exec]
      cases active with
      | false => rwa [hinactive rfl]
      | true =>
        obtain hzero | hone : jobs.length = 0 ∨ jobs.length = 1 := by omega
        · rwa [hzero]
        · rwa [hone]
    | restartOrStop =>
      obtain ⟨hn, hinactive, h₀, h₁⟩ := hi
      simp only at hn hinactive
      cases active with
      | false =>
        simp only [Consistent, Stmt.exec, Bool.false_eq_true, if_false]
        rwa [hinactive rfl]
      | true =>
        cases singleShot with
        | false => exact sound_start hn h₁
        | true => exact sound_stop hn h₀

theorem step_consistent (hi : Consistent s) (hs : step s a = some s') : Consistent s' := by
  cases a with
  | call method => exact call_consistent hi hs
  | fire => exact fire_consistent hi hs
  | exec => exact exec_consistent hi hs

theorem run_consistent (h : Run step init tr s) : Consistent s :=
  h.invariant (by simp [Consistent, init, Sound]) fun _ _ _ hi hs ↦ step_consistent hi hs

/-- A running callback is all that `Timed` still waits for. -/
def Framed : List (Stmt κ) → Prop
  | [] => True
  | .runCallback :: code => code = [.restartOrStop]
  | .restartOrStop :: code => code = []
  | _ :: code => Framed code

theorem framed_body {code : List (Stmt κ)} (h : Framed code) (method : Method κ) :
    Framed (method.body ++ code) := by
  cases method <;> exact h

theorem step_framed (hi : Framed s.code) (hs : step s a = some s') : Framed s'.code := by
  cases a with
  | call method =>
    obtain ⟨-, rfl⟩ := step_call hs
    exact framed_body hi method
  | fire =>
    obtain ⟨delay, jobs, -, -, rfl⟩ := step_fire hs
    simp only [timed]
    split <;> simp [Framed]
  | exec =>
    obtain ⟨stmt, code, hcode, rfl⟩ := step_exec hs
    rw [hcode] at hi
    cases stmt with
    | runCallback =>
      obtain rfl : code = [.restartOrStop] := hi
      rfl
    | restartOrStop =>
      obtain rfl : code = [] := hi
      simp only [Stmt.exec]
      split
      · split <;> trivial
      · trivial
    | _ => exact hi

/-- Nothing in this code starts the timer, and no job is left when it is done. -/
def Quiet : List (Stmt κ) → ℕ → Bool → Prop
  | [], n, active => n = 0 ∧ active = false
  | .revoke :: code, _, active => Quiet code 0 active
  | .schedule :: _, _, _ => False
  | .setActive val :: code, n, _ => Quiet code n val
  | .setSingleShot _ :: code, n, active => Quiet code n active
  | .setInterval _ :: code, n, active => Quiet code n active
  | .setCallback _ :: code, n, active => Quiet code n active
  | .runCallback :: code, n, active => n = 0 ∧ active = false ∧ Quiet code 0 false
  | .restartOrStop :: code, n, active => n = 0 ∧ active = false ∧ Quiet code 0 false

def Stopped (s : State κ) : Prop := Quiet s.code s.jobs.length s.m_isActive

def Method.starts : Method κ → Bool
  | .start => true
  | .startMsec _ => true
  | _ => false

def Action.Starts (a : Action κ) : Prop := ∃ method, a = .call method ∧ method.starts = true

/-- Before a `stop` the callback may have started the timer; after it, the rest
of `Timed` does nothing. -/
theorem call_stop_stopped (hf : Framed s.code) (hs : step s (.call .stop) = some s') :
    Stopped s' := by
  obtain ⟨hcode, rfl⟩ := step_call hs
  rcases hcode with hcode | ⟨code, hcode⟩
  · simp only [Stopped, hcode]
    exact ⟨rfl, rfl⟩
  · rw [hcode] at hf
    obtain rfl := hf
    simp only [Stopped, hcode]
    exact ⟨rfl, rfl, rfl, rfl, rfl, rfl⟩

theorem quiet_body {code : List (Stmt κ)} {n : ℕ} {active : Bool} (h : Quiet code n active)
    (hzero : Quiet code 0 false) {method : Method κ} (hm : method.starts = false) :
    Quiet (method.body ++ code) n active := by
  cases method with
  | stop => exact hzero
  | start => simp [Method.starts] at hm
  | startMsec msec => simp [Method.starts] at hm
  | setSingleShot val => exact h
  | setInterval msec => exact h
  | connect callback => exact h

theorem call_stopped (hi : Stopped s) {method : Method κ} (hm : method.starts = false)
    (hs : step s (.call method) = some s') : Stopped s' := by
  obtain ⟨hcode, rfl⟩ := step_call hs
  unfold Stopped at hi
  rcases hcode with hcode | ⟨code, hcode⟩
  · rw [hcode] at hi
    simp only [Stopped, hcode]
    exact quiet_body hi ⟨rfl, rfl⟩ hm
  · rw [hcode] at hi
    obtain ⟨hn, hinactive, hrest⟩ := id hi
    simp only [Stopped, hcode]
    exact quiet_body hi ⟨rfl, rfl, hrest⟩ hm

theorem exec_stopped (hi : Stopped s) (hs : step s .exec = some s') : Stopped s' := by
  obtain ⟨jobs, active, singleShot, interval, callback, code⟩ := s
  unfold Stopped at hi
  cases code with
  | nil => simp [step] at hs
  | cons stmt code =>
    obtain rfl := Option.some.inj hs
    cases stmt with
    | schedule => exact hi.elim
    | runCallback =>
      obtain ⟨hn, hinactive, hrest⟩ := hi
      simp only at hn hinactive
      subst hinactive
      simp only [Stopped, Stmt.exec]
      rwa [hn]
    | restartOrStop =>
      obtain ⟨hn, hinactive, hrest⟩ := hi
      simp only at hn hinactive
      subst hinactive
      simp only [Stopped, Stmt.exec, Bool.false_eq_true, if_false]
      rwa [hn]
    | _ => exact hi

theorem step_stopped (hi : Stopped s) (ha : ¬ a.Starts) (hs : step s a = some s') :
    Stopped s' ∧ a ≠ .fire := by
  cases a with
  | call method =>
    refine ⟨call_stopped hi ?_ hs, fun ha ↦ by cases ha⟩
    cases hm : method.starts with
    | true => exact (ha ⟨method, rfl, hm⟩).elim
    | false => rfl
  | fire =>
    obtain ⟨delay, jobs, hcode, hjobs, -⟩ := step_fire hs
    simp [Stopped, hcode, hjobs, Quiet] at hi
  | exec => exact ⟨exec_stopped hi hs, fun ha ↦ by cases ha⟩

theorem run_stopped {t : State κ} (h : Run step s tr t) (hi : Stopped s)
    (hno : ∀ a ∈ tr, ¬ a.Starts) : Stopped t ∧ .fire ∉ tr := by
  induction h with
  | nil => exact ⟨hi, by simp⟩
  | snoc _ hs ih =>
    obtain ⟨hno, ha⟩ := List.forall_mem_append.mp hno
    obtain ⟨hstopped, hfire⟩ := ih hno
    obtain ⟨hstopped', ha⟩ := step_stopped hstopped (ha _ (List.mem_singleton_self _)) hs
    refine ⟨hstopped', ?_⟩
    simp [hfire, ha.symm]

theorem pending_job_iff_active (h : Run step init tr s) :
    s.jobs.length ≤ 1 ∧ (s.code = [] → (s.m_isActive = true ↔ s.jobs.length = 1)) ∧
      ∀ pre post, tr = pre ++ .call .stop :: post → (∀ a ∈ post, ¬ a.Starts) →
        .fire ∉ post := by
  have hi := run_consistent h
  refine ⟨hi.le_one, ?_, ?_⟩
  · intro hcode
    rw [Consistent, hcode] at hi
    exact hi.2
  · intro pre post htr hno
    subst htr
    obtain ⟨u, u', hu, hstop, hpost⟩ := h.split
    have hframed : Framed u.code := hu.invariant trivial fun _ _ _ hf hs ↦ step_framed hf hs
    exact (run_stopped hpost (call_stop_stopped hframed hstop) hno).2

def stoppedByCallback : List (Action Unit) :=
  [.call (.connect (some ())), .exec, .call (.startMsec 5), .exec, .exec, .exec, .exec, .fire,
    .call .start, .exec, .exec, .exec, .call .stop, .exec, .exec, .exec, .exec]

theorem pending_job_iff_active_stoppedByCallback :
    ∃ s, Run step init stoppedByCallback s ∧
      s.jobs.length ≤ 1 ∧ (s.code = [] → (s.m_isActive = true ↔ s.jobs.length = 1)) ∧
      ∀ pre post, stoppedByCallback = pre ++ .call .stop :: post → (∀ a ∈ post, ¬ a.Starts) →
        .fire ∉ post := by
  obtain ⟨s, h⟩ : ∃ s, Run step init stoppedByCallback s := exists_run rfl
  exact ⟨s, h, pending_job_iff_active h⟩

end Peripherals.TpTimer
