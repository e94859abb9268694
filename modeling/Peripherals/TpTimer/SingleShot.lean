import Peripherals.TpTimer

namespace Peripherals.TpTimer

open Execution

variable {κ : Type*} {s s' t u : State κ} {a : Action κ} {code : List (Stmt κ)} {n : ℕ}
  {pre mid post tr : List (Action κ)}

/-- How many jobs are pending once this code has been executed in single-shot
mode, with `n` of them pending now. -/
def leaves : List (Stmt κ) → ℕ → ℕ
  | [], n => n
  | .revoke :: code, _ => leaves code 0
  | .schedule :: code, n => leaves code (n + 1)
  | .restartOrStop :: code, _ => leaves code 0
  | .setActive _ :: code, n => leaves code n
  | .setSingleShot _ :: code, n => leaves code n
  | .setInterval _ :: code, n => leaves code n
  | .setCallback _ :: code, n => leaves code n
  | .runCallback :: code, n => leaves code n

/-- The timer is in single-shot mode, and what is left to execute keeps it there. -/
structure OneShot (s : State κ) : Prop where
  mode : s.m_isSingleShot = true
  kept : .setSingleShot false ∉ s.code

structure Spent (s : State κ) : Prop where
  consistent : Consistent s
  framed : Framed s.code
  oneShot : OneShot s
  leaves : leaves s.code s.jobs.length = 0

theorem exec_oneShot {stmt : Stmt κ} (h : OneShot s) (hcode : s.code = stmt :: code) :
    OneShot (stmt.exec { s with code }) := by
  obtain ⟨hmode, hkept⟩ := h
  rw [hcode, List.mem_cons, not_or] at hkept
  obtain ⟨hne, hkept⟩ := hkept
  cases stmt with
  | setSingleShot val =>
    cases val with
    | true => exact ⟨rfl, hkept⟩
    | false => exact (hne rfl).elim
  | restartOrStop =>
    simp only [Stmt.exec]
    split
    · exact ⟨hmode, by simpa [TpTimer.stop] using hkept⟩
    · exact ⟨hmode, hkept⟩
  | _ => exact ⟨hmode, hkept⟩

theorem step_oneShot (h : OneShot s) (ha : a ≠ .call (.setSingleShot false))
    (hs : step s a = some s') : OneShot s' := by
  cases a with
  | call method =>
    obtain ⟨-, rfl⟩ := step_call hs
    refine ⟨h.mode, ?_⟩
    rw [List.mem_append, not_or]
    refine ⟨?_, h.kept⟩
    cases method with
    | setSingleShot val =>
      cases val with
      | true => simp [Method.body]
      | false => exact (ha rfl).elim
    | _ => simp [Method.body, TpTimer.start, TpTimer.stop]
  | fire =>
    obtain ⟨delay, jobs, -, -, rfl⟩ := step_fire hs
    refine ⟨h.mode, ?_⟩
    simp only [timed]
    split <;> simp
  | exec =>
    obtain ⟨stmt, code, hcode, rfl⟩ := step_exec hs
    exact exec_oneShot h hcode

/-- In single-shot mode a statement does what `leaves` takes it to do. -/
theorem exec_leaves {stmt : Stmt κ} (hi : Consistent s) (hmode : s.m_isSingleShot = true)
    (hcode : s.code = stmt :: code) :
    leaves (stmt.exec { s with code }).code (stmt.exec { s with code }).jobs.length =
      leaves s.code s.jobs.length := by
  rw [hcode]
  cases stmt with
  | schedule => simp [Stmt.exec, leaves]
  | restartOrStop =>
    simp only [Stmt.exec, hmode, if_true]
    split
    · rfl
    next hactive =>
      rw [Consistent, hcode] at hi
      have hnone : s.jobs.length = 0 := hi.2.1 (eq_false_of_ne_true hactive)
      simp only [hnone]
      rfl
  | _ => rfl

/-- A method that the callback calls changes nothing of what `Timed` leaves. -/
theorem call_leaves {method : Method κ} (hf : Framed s.code) (h : leaves s.code s.jobs.length = 0)
    (hs : step s (.call method) = some s') (hm : method.starts = true → s.code ≠ []) :
    leaves s'.code s'.jobs.length = 0 := by
  obtain ⟨hcode, rfl⟩ := step_call hs
  rcases hcode with hcode | ⟨code, hcode⟩
  · rw [hcode] at h
    simp only [hcode]
    cases method with
    | start => exact (hm rfl hcode).elim
    | startMsec msec => exact (hm rfl hcode).elim
    | stop => rfl
    | _ => exact h
  · rw [hcode] at hf
    obtain rfl := hf
    simp only [hcode]
    cases method <;> rfl

theorem step_spent (h : Spent s) (ha : a ≠ .call (.setSingleShot false))
    (hs : step s a = some s') : Spent s' ∧ a ≠ .fire ∨ a.Starts ∧ s.code = [] := by
  have hconsistent := step_consistent h.consistent hs
  have hframed := step_framed h.framed hs
  have honeShot := step_oneShot h.oneShot ha hs
  cases a with
  | call method =>
    by_cases hm : method.starts = true ∧ s.code = []
    · exact .inr ⟨⟨method, rfl, hm.1⟩, hm.2⟩
    · refine .inl ⟨⟨hconsistent, hframed, honeShot, ?_⟩, nofun⟩
      exact call_leaves h.framed h.leaves hs fun hstarts hcode ↦ hm ⟨hstarts, hcode⟩
  | fire =>
    obtain ⟨delay, jobs, hcode, hjobs, -⟩ := step_fire hs
    have hleaves := h.leaves
    simp [hcode, hjobs, leaves] at hleaves
  | exec =>
    obtain ⟨stmt, code, hcode, rfl⟩ := step_exec hs
    refine .inl ⟨⟨hconsistent, hframed, honeShot, ?_⟩, nofun⟩
    rw [exec_leaves h.consistent h.oneShot.mode hcode]
    exact h.leaves

theorem fire_spent (hi : Consistent s) (hmode : s.m_isSingleShot = true)
    (hs : step s .fire = some s') : Spent s' := by
  have hframed : Framed s'.code := by
    obtain ⟨-, -, -, -, rfl⟩ := step_fire hs
    simp only [timed]
    split <;> simp [Framed]
  refine ⟨step_consistent hi hs, hframed, ?_, ?_⟩
  · obtain ⟨-, -, hcode, -, -⟩ := step_fire hs
    exact step_oneShot ⟨hmode, by simp [hcode]⟩ (by simp) hs
  · obtain ⟨-, -, -, -, rfl⟩ := step_fire hs
    simp only [timed]
    split <;> rfl

theorem run_spent (hspent : Spent s) (hset : ∀ a ∈ tr, a ≠ .call (.setSingleShot false))
    (h : Run step s tr t) : Spent t ∧ .fire ∉ tr ∨
      ∃ tr₁ a tr₂ v, tr = tr₁ ++ a :: tr₂ ∧ a.Starts ∧ .fire ∉ tr₁ ∧ Run step s tr₁ v ∧
        v.code = [] := by
  induction h with
  | nil => exact .inl ⟨hspent, by simp⟩
  | @snoc tr t t' a h hs ih =>
    obtain ⟨hset, ha⟩ := List.forall_mem_append.mp hset
    rcases ih hset with ⟨ht, hnofire⟩ | ⟨tr₁, b, tr₂, v, rfl, hb, hnofire, hv, hrest⟩
    · rcases step_spent ht (ha a (List.mem_singleton_self a)) hs with ⟨ht', hne⟩ | ⟨hstart, hcode⟩
      · exact .inl ⟨ht', by simp [hnofire, hne.symm]⟩
      · exact .inr ⟨tr, a, [], t, rfl, hstart, hnofire, h, hcode⟩
    · exact .inr ⟨tr₁, b, tr₂ ++ [a], v, by simp, hb, hnofire, hv, hrest⟩

/-- After a single-shot timer has fired it fires again only if it has been started
since, by a call that came when `Timed` had returned. -/
theorem refires_restarted (h : Run step init (pre ++ .fire :: (mid ++ .fire :: post)) t)
    (hpre : Run step init pre s) (hmode : s.m_isSingleShot = true)
    (hset : ∀ a ∈ mid, a ≠ .call (.setSingleShot false)) :
    ∃ mid₁ a mid₂ v, mid = mid₁ ++ a :: mid₂ ∧ a.Starts ∧ .fire ∉ mid₁ ∧
      Run step init (pre ++ .fire :: mid₁) v ∧ v.code = [] := by
  obtain ⟨s₀, s', hs₀, hfire, hrest⟩ := h.split
  obtain rfl := hs₀.functional hpre
  have hspent := fire_spent (run_consistent hpre) hmode hfire
  obtain ⟨u, u', hu, hagain, -⟩ := hrest.split
  rcases run_spent hspent hset hu with ⟨hspent', -⟩ | ⟨mid₁, a, mid₂, v, hmid, ha, hno, hv, hcode⟩
  · rcases step_spent hspent' (by simp) hagain with ⟨-, hne⟩ | ⟨hstart, -⟩
    · exact (hne rfl).elim
    · obtain ⟨method, hcall, -⟩ := hstart
      cases hcall
  · exact ⟨mid₁, a, mid₂, v, hmid, ha, hno, hpre.trans (hv.cons hfire), hcode⟩

/-- A callback that starts its timer, which fires again after a second start only. -/
def startedTwice : List (Action Unit) :=
  [.call .start, .exec, .exec, .exec, .exec, .exec, .exec, .exec, .call .start, .exec, .exec,
    .exec]

theorem refires_restarted_startedTwice :
    ∃ mid₁ a mid₂ v, startedTwice = mid₁ ++ a :: mid₂ ∧ a.Starts ∧ .fire ∉ mid₁ ∧
      Run step init ([.call (.connect (some ())), .exec, .call (.setSingleShot true), .exec,
        .call (.startMsec 5), .exec, .exec, .exec, .exec] ++ .fire :: mid₁) v ∧ v.code = [] := by
  obtain ⟨t, ht⟩ : ∃ t, Run step init ([.call (.connect (some ())), .exec,
      .call (.setSingleShot true), .exec, .call (.startMsec 5), .exec, .exec, .exec, .exec] ++
        .fire :: (startedTwice ++ .fire :: [])) t := exists_run rfl
  refine refires_restarted ht (run_iff_foldlM.mpr rfl) rfl ?_
  simp [startedTwice]

end Peripherals.TpTimer
