import Peripherals.WebSockets.Callers

namespace Peripherals.WebSockets.JsonRpcInterface

open Function Thunder JsonRpc Execution

def Action.caller? : Action → Option CallId
  | .check c | .register c _ | .send c _ | .wait c _ | .remove c _ => some c
  | _ => none

def Phase.Finished : Phase → Prop
  | .rejected _ | .returned _ _ _ => True
  | _ => False

/-- A wait that has reported `ready` has left a value behind it for `get`. -/
def State.Ready (s : State) : Prop :=
  ∀ c r p, s.calls c = .leaving r p (some .ready) → s.promises p ≠ none

variable {codec : Codec} {s s' : State} {a : Action} {tr : List Action} {c : CallId}

theorem stage_le {p : Phase} : p.stage ≤ 6 := by
  cases p <;> simp [Phase.stage]

/-- A section of a call takes it on, and leaves the phases of the other calls alone. -/
theorem own_step (h : step codec s a = some s') (ha : a.caller? = some c) :
    1 ≤ (s.calls c).stage ∧ (s.calls c).stage < (s'.calls c).stage ∧
      ∀ d, d ≠ c → s'.calls d = s.calls d := by
  have moved {d : CallId} {p : Phase} (hd : d = c) (hpos : 1 ≤ (s.calls d).stage)
      (hlt : (s.calls d).stage < p.stage) : 1 ≤ (s.calls c).stage ∧
        (s.calls c).stage < ((update s.calls d p) c).stage ∧
          ∀ e, e ≠ c → (update s.calls d p) e = s.calls e := by
    subst d
    exact ⟨hpos, by rwa [update_self], fun e he ↦ update_of_ne he _ _⟩
  cases a with
  | check d =>
    simp only [step] at h
    split at h
    case h_2 => cases h
    case h_1 r hd =>
      split_ifs at h <;> obtain rfl := Option.some.inj h <;>
        exact moved (Option.some.inj ha) (by simp [hd, Phase.stage]) (by simp [hd, Phase.stage])
  | register d i =>
    simp only [step] at h
    split at h
    case h_2 => cases h
    case h_1 r hd =>
      split_ifs at h with hi
      simp only [createFutureResponse] at h
      cases hm : s.responseToPromise i with
      | some p =>
        simp only [hm, Option.some.injEq] at h
        subst h
        exact moved (Option.some.inj ha) (by simp [hd, Phase.stage]) (by simp [hd, Phase.stage])
      | none =>
        simp only [hm, Option.some.injEq] at h
        subst h
        exact moved (Option.some.inj ha) (by simp [hd, Phase.stage]) (by simp [hd, Phase.stage])
  | send d ec =>
    simp only [step] at h
    split at h
    case h_2 => cases h
    case h_1 r p hd =>
      split_ifs at h <;> obtain rfl := Option.some.inj h <;>
        exact moved (Option.some.inj ha) (by simp [hd, Phase.stage]) (by simp [hd, Phase.stage])
  | wait d status =>
    simp only [step] at h
    split at h
    case h_2 => cases h
    case h_1 r p hd =>
      split_ifs at h
      obtain rfl := Option.some.inj h
      exact moved (Option.some.inj ha) (by simp [hd, Phase.stage]) (by simp [hd, Phase.stage])
  | remove d i =>
    simp only [step] at h
    split at h
    case h_2 => cases h
    case h_1 r p status hd =>
      split_ifs at h with hi
      obtain ⟨phase, hf, rfl⟩ := Option.map_eq_some_iff.mp h
      obtain ⟨result, response, rfl⟩ := finish_returned hf
      exact moved (Option.some.inj ha) (by simp [hd, Phase.stage]) (by simp [hd, Phase.stage])
  | create => cases ha
  | supply => cases ha
  | message => cases ha
  | setNotificationHandler => cases ha

/-- A promise of a pending call keeps the value it has. -/
theorem step_value {i : UInt32} {p : PromiseId} (h : step codec s a = some s')
    (hentry : (s.calls c).entry = some (i, p)) (ho : Owned s.view) (hp : s.promises p ≠ none) :
    s'.promises p ≠ none := by
  have hlt : p < s.view.nextPromise := ho.lt_next c i p hentry
  have he := step_effect h
  have hp' : s.view.promises p ≠ none := hp
  have goal : s'.view.promises p ≠ none := by
    generalize s.view = v at he hp' hlt
    generalize s'.view = v' at he
    cases he with
    | opened =>
      dsimp only
      rwa [update_of_ne (Nat.ne_of_lt hlt)]
    | fulfilled text j q =>
      dsimp only
      by_cases hq : p = q
      · subst hq
        simp
      · rwa [update_of_ne hq]
    | _ => exact hp'
  exact goal

theorem step_ready (h : step codec s a = some s') (ho : Owned s.view) (hr : s.Ready) :
    s'.Ready := by
  intro c r p hc
  by_cases hbefore : s.calls c = .leaving r p (some .ready)
  · exact step_value h (by rw [hbefore]; rfl) ho (hr c r p hbefore)
  · rcases step_moves h with ⟨he, -⟩ | ⟨d, q, hm, he, -⟩
    · exact (hbefore (he ▸ hc)).elim
    · rw [he] at hc
      by_cases hd : c = d
      · subst hd
        rw [update_self] at hc
        subst hc
        cases hm with
        | waited hwaiting =>
          simp only [step, hwaiting] at h
          split_ifs at h with hguard
          obtain rfl := Option.some.inj h
          exact fun hnone ↦ hguard ⟨trivial, hnone⟩
      · rw [update_of_ne hd] at hc
        exact (hbefore hc).elim

theorem run_ready (h : Run (step codec) State.init tr s) : s.Ready := by
  refine h.history (P := fun _ s ↦ s.Ready) (fun c r p hc ↦ by cases hc) ?_
  intro tr s a s' hrun hr hs
  exact step_ready hs (run_owned hrun) hr

/-- No section of a call waits for another call, or for a message. -/
theorem exists_own_step (codec : Codec) (hr : s.Ready) (h₁ : 1 ≤ (s.calls c).stage)
    (h₅ : ¬ (s.calls c).Finished) :
    ∃ a, a.caller? = some c ∧ (step codec s a).isSome = true := by
  cases hc : s.calls c with
  | idle => simp [hc, Phase.stage] at h₁
  | created r =>
    refine ⟨.check c, rfl, ?_⟩
    simp only [step, hc]
    split <;> rfl
  | checked r =>
    refine ⟨.register c (Request.getId r), rfl, ?_⟩
    simp only [step, hc, if_true]
    split <;> rfl
  | registered r p =>
    refine ⟨.send c true, rfl, ?_⟩
    simp only [step, hc]
    split <;> rfl
  | waiting r p => exact ⟨.wait c .timeout, rfl, by simp [step, hc]⟩
  | leaving r p status =>
    refine ⟨.remove c (Request.getId r), rfl, ?_⟩
    simp only [step, hc, if_true, Option.isSome_map]
    cases status with
    | none => rfl
    | some status =>
      cases status with
      | ready =>
        obtain ⟨text, htext⟩ := Option.ne_none_iff_exists'.mp (hr c r p hc)
        simp [finish, htext]
      | timeout => rfl
      | deferred => rfl
  | rejected r => simp [hc, Phase.Finished] at h₅
  | returned r result response => simp [hc, Phase.Finished] at h₅

/-- A call can go through all its sections alone. -/
theorem exists_completion (codec : Codec) (ho : Owned s.view) (hr : s.Ready)
    (h₁ : 1 ≤ (s.calls c).stage) :
    ∃ tr' s', Run (step codec) s tr' s' ∧ (∀ a ∈ tr', a.caller? = some c) ∧
      tr'.length ≤ 6 - (s.calls c).stage ∧ (s'.calls c).Finished ∧ Owned s'.view ∧
      ∀ d, d ≠ c → s'.calls d = s.calls d := by
  induction hn : 6 - (s.calls c).stage using Nat.strong_induction_on generalizing s with
  | _ n ih =>
    by_cases hfinished : (s.calls c).Finished
    · exact ⟨[], s, .nil, by simp, by simp, hfinished, ho, fun _ _ ↦ rfl⟩
    · obtain ⟨a, ha, henabled⟩ := exists_own_step codec hr h₁ hfinished
      obtain ⟨t, ht⟩ := Option.isSome_iff_exists.mp henabled
      obtain ⟨-, hlt, hother⟩ := own_step ht ha
      have hle : (t.calls c).stage ≤ 6 := stage_le
      obtain ⟨tr', s', hrun, hown, hlength, hend, ho', hsame⟩ :=
        ih (6 - (t.calls c).stage) (by omega) (effect_owned (step_effect ht) ho)
          (step_ready ht ho hr) (by omega) rfl
      refine ⟨a :: tr', s', .cons ht hrun, List.forall_mem_cons.mpr ⟨ha, hown⟩, ?_, hend, ho', ?_⟩
      · rw [List.length_cons]
        omega
      · intro d hd
        rw [hsame d hd, hother d hd]

theorem own_count (h : Run (step codec) State.init tr s) (c : CallId) :
    tr.countP (fun a ↦ a.caller? == some c) = 0 ∨
      tr.countP (fun a ↦ a.caller? == some c) < (s.calls c).stage := by
  induction h with
  | nil => exact .inl rfl
  | @snoc tr s s' a _ hs ih =>
    rw [List.countP_append, List.countP_singleton]
    by_cases ha : a.caller? = some c
    · obtain ⟨hpos, hlt, -⟩ := own_step hs ha
      rw [if_pos (by simp [ha])]
      omega
    · have hle := step_stage hs c
      rw [if_neg (by simpa using ha)]
      omega

/-- A call takes a bounded number of sections, whatever the others do, and from every
state it can return without them, with its entry gone from the map. -/
structure WaitFree (codec : Codec) (tr : List Action) (s : State) (c : CallId) : Prop where
  bounded : tr.countP (fun a ↦ a.caller? == some c) ≤ 5
  completes : s.calls c ≠ .idle → ∃ tr' s', Run (step codec) s tr' s' ∧
    (∀ a ∈ tr', a.caller? = some c) ∧ tr'.length ≤ 5 ∧ (s'.calls c).Finished ∧
    (∀ d, d ≠ c → s'.calls d = s.calls d) ∧
    ∀ i p, (s.calls c).entry = some (i, p) → s'.responseToPromise i = none

/-- No `sendRequest` hangs, over all interleavings of any number of callers with the
event loop. -/
theorem sendRequest_waitFree (h : Run (step codec) State.init tr s) (c : CallId) :
    WaitFree codec tr s c := by
  have hstage : (s.calls c).stage ≤ 6 := stage_le
  refine ⟨by have hcount := own_count h c; omega, ?_⟩
  intro hidle
  have hpos : 1 ≤ (s.calls c).stage := by
    cases hc : s.calls c <;> simp_all [Phase.stage]
  have ho := run_owned h
  obtain ⟨tr', s', hrun, hown, hlength, hend, ho', hsame⟩ :=
    exists_completion codec ho (run_ready h) hpos
  refine ⟨tr', s', hrun, hown, by omega, hend, hsame, ?_⟩
  intro i p hentry
  by_contra hi
  obtain ⟨d, ⟨q, hd, -⟩, -⟩ := (ho'.pending_iff i).mp hi
  by_cases hdc : d = c
  · subst d
    cases hphase : s'.calls c <;> simp_all [Phase.Finished, Phase.entry]
  · rw [hsame d hdc] at hd
    exact hdc (ho.owner_eq hd hentry)

theorem sendRequest_waitFree_answeredCall :
    ∃ s, Run (step sampleCodec) State.init answeredCall s ∧
      WaitFree sampleCodec answeredCall s 0 := by
  obtain ⟨s, hs, -, -⟩ := answeredCall_runs
  exact ⟨s, hs, sendRequest_waitFree hs 0⟩

end Peripherals.WebSockets.JsonRpcInterface
