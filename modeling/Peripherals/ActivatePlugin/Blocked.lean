import Peripherals.ActivatePlugin

namespace Peripherals.ActivatePlugin

open Execution Function Tally

variable {I : Type} {s s' : State I} {a : Action I} {tr : List (Action I)} {c d : CallId}
  {workers : ℕ} {v v' : Call I} {done events : List (Event I)}

/-- The caller keeps a worker, and its own job has not got one. -/
def Call.Blocks (v : Call I) : Prop := v.caller = .waiting ∧ v.onWorker = true ∧ v.job = .queued

/-- Every worker waits for a job that no worker is left for. -/
def Blocked (workers : ℕ) (s : State I) : Prop :=
  ∃ blockers ⊆ s.callers, blockers.card = workers ∧ ∀ c ∈ blockers, (s.calls c).Blocks

def WaitsForever (s : State I) (c : CallId) : Prop :=
  (s.calls c).caller = .waiting ∧
    ∀ tr s', Run step s tr s' → (s'.calls c).caller = .waiting

theorem Call.Blocks.workers_eq (h : v.Blocks) : v.workers = 1 := by
  obtain ⟨hcaller, honWorker, hjob⟩ := h
  simp [Call.workers, hcaller, honWorker, hjob, Job.isRunning]

theorem Sound.free_of_blocked (hi : Sound workers s) (h : Blocked workers s) : s.free = 0 := by
  obtain ⟨blockers, hsub, hcard, hblocks⟩ := h
  have hall : total blockers Call.workers s.calls = workers := by
    rw [total_eq_card Call.workers s.calls (fun _ ↦ True) fun c hc ↦ (hblocks c hc).workers_eq,
      Finset.filter_true_of_mem fun _ _ ↦ trivial, hcard]
  have hle : total blockers Call.workers s.calls ≤ total s.callers Call.workers s.calls :=
    total_mono hsub
  have hbusy := hi.busy
  omega

/-- Only a free worker moves a call on whose job is queued. -/
theorem Moves.take_of_queued (h : Moves v a v' events) (ht : v.Told done) (hjob : v.job = .queued) :
    v'.workers = v.workers + 1 := by
  cases h with
  | call onWorker hidle => simp [ht.none_of_idle hidle] at hjob
  | wake hcaller hevent => simp [ht.finished_of_event hevent] at hjob
  | take => simp [Call.workers, hjob, Job.isRunning, Nat.add_comm]
  | found _ h | missing h | activate _ h | release h | setEvent h => simp [h] at hjob

theorem step_blocked (hi : Sound workers s) (hblocked : Blocked workers s)
    (h : step s a = some s') (hjob : (s.calls c).job = .queued) : s'.calls c = s.calls c := by
  obtain ⟨v, events, hmoves, hcalls, -, -, hfree⟩ := hi.cases h
  rw [hcalls]
  by_cases hc : c = a.id
  · subst hc
    have hmore := hmoves.take_of_queued (hi.told a.id) hjob
    have hnone := hi.free_of_blocked hblocked
    omega
  · rw [update_of_ne hc]

theorem run_blocked (hi : Sound workers s) (hblocked : Blocked workers s)
    (h : Run step s tr s') (hjob : (s.calls c).job = .queued) : s'.calls c = s.calls c := by
  suffices hkept : Sound workers s' ∧ Blocked workers s' ∧
      ∀ c, (s.calls c).job = .queued → s'.calls c = s.calls c from hkept.2.2 c hjob
  refine h.invariant (I := fun t ↦ Sound workers t ∧ Blocked workers t ∧
    ∀ c, (s.calls c).job = .queued → t.calls c = s.calls c) ⟨hi, hblocked, fun _ _ ↦ rfl⟩ ?_
  intro t a t' hI hs
  obtain ⟨hi, hblocked, hsame⟩ := hI
  refine ⟨hi.step hs, ?_, fun c hc ↦ ?_⟩
  · obtain ⟨blockers, hsub, hcard, hblocks⟩ := hblocked
    obtain ⟨-, -, -, -, -, hcallers, -⟩ := hi.cases hs
    refine ⟨blockers, ?_, hcard, fun c hc ↦ ?_⟩
    · rw [hcallers]
      exact hsub.trans (Finset.subset_insert _ _)
    · rw [step_blocked hi ⟨blockers, hsub, hcard, hblocks⟩ hs (hblocks c hc).2.2]
      exact hblocks c hc
  · have hqueued : (t.calls c).job = .queued := by rw [hsame c hc, hc]
    rw [step_blocked hi hblocked hs hqueued, hsame c hc]

/-- The job of a call has gone to its end, and the other calls are as they were. -/
structure Finished (s : State I) (d : CallId) (s' : State I) : Prop where
  job : (s'.calls d).job = .finished
  free : s'.free = s.free + 1
  others : ∀ e, e ≠ d → s'.calls e = s.calls e

theorem Finished.of_set (h : Finished (s.set d v events) d s') : Finished s d s' :=
  ⟨h.job, h.free, fun e he ↦ (h.others e he).trans (update_of_ne he _ _)⟩

theorem exists_finish_decided (hjob : (s.calls d).job = .decided) :
    ∃ tr s', Run step s tr s' ∧ Finished s d s' := by
  refine ⟨[.setEvent d], _, .one (by simp only [step, hjob]; rfl), ?_, rfl, ?_⟩
  · simp [State.set]
  · intro e he
    simp [State.set, he]

theorem exists_finish_activated {interface : I} (hjob : (s.calls d).job = .activated interface) :
    ∃ tr s', Run step s tr s' ∧ Finished s d s' := by
  let u := s.set d { s.calls d with job := .decided } [.release interface]
  have hs : step s (.release d) = some u := by simp only [step, hjob, u]
  have hu : (u.calls d).job = .decided := by simp [u, State.set]
  obtain ⟨tr, s', hrun, hfinished⟩ := exists_finish_decided hu
  exact ⟨_, s', .cons hs hrun, hfinished.of_set⟩

/-- A job that a worker has can be finished. -/
theorem exists_finish (hrunning : (s.calls d).job.isRunning = true) :
    ∃ tr s', Run step s tr s' ∧ Finished s d s' := by
  cases hjob : (s.calls d).job with
  | none | queued | finished => simp [hjob, Job.isRunning] at hrunning
  | decided => exact exists_finish_decided hjob
  | activated interface => exact exists_finish_activated hjob
  | holding interface =>
    let u := s.set d { s.calls d with job := .activated interface, result := .activated 0 }
      [.activate interface 0]
    have hs : step s (.activate d 0) = some u := by simp only [step, hjob, u]
    have hu : (u.calls d).job = .activated interface := by simp [u, State.set]
    obtain ⟨tr, s', hrun, hfinished⟩ := exists_finish_activated hu
    exact ⟨_, s', .cons hs hrun, hfinished.of_set⟩
  | started =>
    let u := s.set d { s.calls d with job := .decided, result := .unavailable } []
    have hs : step s (.query d none) = some u := by simp only [step, hjob, u]
    have hu : (u.calls d).job = .decided := by simp [u, State.set]
    obtain ⟨tr, s', hrun, hfinished⟩ := exists_finish_decided hu
    exact ⟨_, s', .cons hs hrun, hfinished.of_set⟩

def CanReturn (s : State I) (c : CallId) : Prop :=
  ∃ tr s', Run step s tr s' ∧ (s'.calls c).caller ≠ .waiting

theorem CanReturn.of_run (h : Run step s tr s') (hreturn : CanReturn s' c) : CanReturn s c := by
  obtain ⟨tr', t, hrun, hcaller⟩ := hreturn
  exact ⟨_, t, h.trans hrun, hcaller⟩

theorem exists_wake (hi : Sound workers s) (hwaiting : (s.calls c).caller = .waiting)
    (hjob : (s.calls c).job = .finished) : ∃ s', step s (.wake c) = some s' ∧
      (s'.calls c).caller ≠ .waiting ∧ s'.free = s.free + (s.calls c).onWorker.toNat ∧
      ∀ e, e ≠ c → s'.calls e = s.calls e := by
  have hevent : (s.calls c).event = true := by
    have htold := hi.told c
    simp only [Call.Told, hjob] at htold
    exact htold.1
  refine ⟨_, if_pos ⟨hwaiting, hevent⟩, by simp [State.set], rfl, ?_⟩
  intro e he
  exact update_of_ne he _ _

theorem canReturn_of_finished (hi : Sound workers s) (hjob : (s.calls c).job = .finished) :
    CanReturn s c := by
  by_cases hwaiting : (s.calls c).caller = .waiting
  · obtain ⟨s', hs, hcaller, -⟩ := exists_wake hi hwaiting hjob
    exact ⟨[.wake c], s', .one hs, hcaller⟩
  · exact ⟨[], s, .nil, hwaiting⟩

theorem canReturn_of_running (hi : Sound workers s) (hrunning : (s.calls c).job.isRunning = true) :
    CanReturn s c := by
  obtain ⟨tr, s', hrun, hfinished⟩ := exists_finish hrunning
  have hi' : Sound workers s' := hrun.invariant hi fun _ _ _ hi hs ↦ hi.step hs
  exact .of_run hrun (canReturn_of_finished hi' hfinished.job)

theorem canReturn_of_free (hi : Sound workers s) (hjob : (s.calls c).job = .queued)
    (hfree : 0 < s.free) : CanReturn s c := by
  obtain ⟨free, hfree⟩ := Nat.exists_eq_succ_of_ne_zero (Nat.pos_iff_ne_zero.mp hfree)
  have hs : step s (.take c) = some { s.set c { s.calls c with job := .started } [] with
      free := free } := by
    simp only [step, hjob, hfree]
  refine .of_run (.one hs) (canReturn_of_running (hi.step hs) ?_)
  simp [State.set, Job.isRunning]

/-- The workers that have no job and are not free are kept by callers. -/
theorem Sound.keepers (hi : Sound workers s) (hfree : s.free = 0)
    (hrunning : ∀ d, (s.calls d).job.isRunning = false) :
    (s.callers.filter fun d ↦ (s.calls d).caller = .waiting ∧
      (s.calls d).onWorker = true).card = workers := by
  rw [← hi.busy, hfree, Nat.zero_add]
  refine (total_eq_card Call.workers s.calls
    (fun v ↦ v.caller = .waiting ∧ v.onWorker = true) fun d _ ↦ ?_).symm
  simp only [Call.workers, hrunning d, Bool.toNat_false, Nat.zero_add]
  split_ifs <;> simp_all

/-- Unless every worker is blocked, one of them can be freed for the job. -/
theorem canReturn_of_not_blocked (hi : Sound workers s) (hjob : (s.calls c).job = .queued)
    (h : ¬ Blocked workers s) : CanReturn s c := by
  by_cases hfree : 0 < s.free
  · exact canReturn_of_free hi hjob hfree
  by_cases hrunning : ∃ d, (s.calls d).job.isRunning = true
  · obtain ⟨d, hd⟩ := hrunning
    obtain ⟨tr, s', hrun, hfinished⟩ := exists_finish hd
    have hi' : Sound workers s' := hrun.invariant hi fun _ _ _ hi hs ↦ hi.step hs
    have hne : c ≠ d := by
      intro he
      simp [← he, hjob, Job.isRunning] at hd
    refine .of_run hrun (canReturn_of_free hi' ?_ (by rw [hfinished.free]; omega))
    rw [hfinished.others c hne, hjob]
  · have hidle : ∀ d, (s.calls d).job.isRunning = false := by simpa using hrunning
    have hcard := hi.keepers (by omega) hidle
    obtain ⟨d, hd, hnot⟩ : ∃ d ∈ s.callers.filter fun d ↦ (s.calls d).caller = .waiting ∧
        (s.calls d).onWorker = true, ¬ (s.calls d).job = .queued := by
      by_contra hall
      refine h ⟨_, Finset.filter_subset _ _, hcard, fun d hd ↦ ?_⟩
      obtain ⟨-, hwaiting, honWorker⟩ := Finset.mem_filter.mp hd
      exact ⟨hwaiting, honWorker, not_not.mp fun hnot ↦ hall ⟨d, hd, hnot⟩⟩
    obtain ⟨-, hwaiting, honWorker⟩ := Finset.mem_filter.mp hd
    have hfinished : (s.calls d).job = .finished := by
      by_contra hother
      have hwait := hi.told d
      have hrest := hidle d
      cases hjob : (s.calls d).job <;> simp_all [Call.Told, Job.isRunning]
    obtain ⟨s', hs, -, hmore, hothers⟩ := exists_wake hi hwaiting hfinished
    have hne : c ≠ d := by
      intro he
      exact hnot (he ▸ hjob)
    refine .of_run (.one hs) (canReturn_of_free (hi.step hs) ?_ ?_)
    · rw [hothers c hne, hjob]
    · simp [hmore, honWorker]

/-- A call waits forever exactly if it waits for its job to be taken while every worker of
the pool waits for its own. -/
theorem waitsForever_iff (h : Run step (.init workers) tr s) (c : CallId) :
    WaitsForever s c ↔ (s.calls c).job = .queued ∧ Blocked workers s := by
  have hi := run_sound h
  refine ⟨?_, ?_⟩
  · intro hforever
    obtain ⟨hwaiting, hforever⟩ := hforever
    have hnot : ¬ CanReturn s c := by
      intro hreturn
      obtain ⟨tr', s', hrun, hcaller⟩ := hreturn
      exact hcaller (hforever tr' s' hrun)
    have hqueued : (s.calls c).job = .queued := by
      have htold := hi.told c
      cases hjob : (s.calls c).job with
      | queued => rfl
      | none => simp [Call.Told, hjob, hwaiting] at htold
      | finished => exact (hnot (canReturn_of_finished hi hjob)).elim
      | _ => exact (hnot (canReturn_of_running hi (by rw [hjob]; rfl))).elim
    exact ⟨hqueued, not_not.mp fun hblocked ↦ hnot (canReturn_of_not_blocked hi hqueued hblocked)⟩
  · intro hboth
    obtain ⟨hqueued, hblocked⟩ := hboth
    have hwaiting := (hi.told c).waiting_of_job (by simp [hqueued]) (by simp [hqueued])
    refine ⟨hwaiting, fun tr' s' hrun ↦ ?_⟩
    rw [run_blocked hi hblocked hrun hqueued]
    exact hwaiting

/-- A call from the only worker of a pool. -/
theorem waitsForever_iff_oneWorker : ∃ s : State ℕ, Run step (.init 1) [.call 0 true] s ∧
    WaitsForever s 0 := by
  obtain ⟨s, hs⟩ : ∃ s : State ℕ, step (.init 1) (.call 0 true) = some s := ⟨_, rfl⟩
  have h : Run step (.init 1) [.call 0 true] s := .one hs
  refine ⟨s, h, (waitsForever_iff h 0).mpr ?_⟩
  obtain rfl := Option.some.inj hs
  exact ⟨rfl, {0}, Finset.Subset.refl _, rfl, fun c hc ↦ by
    rw [Finset.mem_singleton.mp hc]
    exact ⟨rfl, rfl, rfl⟩⟩

end Peripherals.ActivatePlugin
