import Peripherals.Execution
import Peripherals.Tally

namespace Peripherals.ActivatePlugin

open Execution Function Tally

variable {I : Type}

abbrev CallId := ℕ

/-- What `result` holds: an error that `activatePlugin` sets, or what `Activate` returned. -/
inductive Status
  | asyncFailed
  | unavailable
  | activated (code : UInt32)
  deriving DecidableEq

inductive Event (I : Type)
  | acquire (interface : I)
  | activate (interface : I) (code : UInt32)
  | release (interface : I)
  deriving DecidableEq

inductive Caller
  | idle | waiting | returned (result : Status)
  deriving DecidableEq

inductive Job (I : Type)
  | none | queued | started | decided | finished
  | holding (interface : I)
  | activated (interface : I)

/-- A call of `activatePlugin` with its local variables, which its job refers to. -/
structure Call (I : Type) where
  caller : Caller
  onWorker : Bool
  job : Job I
  result : Status
  event : Bool

def Call.init : Call I := ⟨.idle, false, .none, .asyncFailed, false⟩

/-- The calls, the workers of the pool that do nothing, and what has been done with interfaces. -/
structure State (I : Type) where
  callers : Finset CallId
  calls : CallId → Call I
  free : ℕ
  log : List (CallId × Event I)

def State.init (workers : ℕ) : State I := ⟨∅, fun _ ↦ .init, workers, []⟩

inductive Action (I : Type)
  | call (c : CallId) (onWorker : Bool)
  | take (c : CallId)
  | query (c : CallId) (interface : Option I)
  | activate (c : CallId) (code : UInt32)
  | release (c : CallId)
  | setEvent (c : CallId)
  | wake (c : CallId)

def Action.id : Action I → CallId
  | .call c _ | .take c | .query c _ | .activate c _ | .release c | .setEvent c | .wake c => c

def Action.isCall : Action I → Bool
  | .call _ _ => true
  | _ => false

def State.set (s : State I) (c : CallId) (v : Call I) (events : List (Event I)) : State I :=
  { s with calls := update s.calls c v, log := s.log ++ events.map (Prod.mk c) }

/-- The job runs on a worker, and so may the caller, but not inside another's `Activate`. -/
def step (s : State I) : Action I → Option (State I)
  | .call c onWorker =>
    if (s.calls c).caller = .idle ∧ (onWorker = true → 0 < s.free) then
      some { s.set c ⟨.waiting, onWorker, .queued, .asyncFailed, false⟩ [] with
        callers := insert c s.callers
        free := s.free - onWorker.toNat }
    else none
  | .take c =>
    match (s.calls c).job, s.free with
    | .queued, free + 1 => some { s.set c { s.calls c with job := .started } [] with free := free }
    | _, _ => none
  | .query c interface =>
    match (s.calls c).job, interface with
    | .started, some interface =>
      some (s.set c { s.calls c with job := .holding interface } [.acquire interface])
    | .started, none =>
      some (s.set c { s.calls c with job := .decided, result := .unavailable } [])
    | _, _ => none
  | .activate c code =>
    match (s.calls c).job with
    | .holding interface =>
      some (s.set c { s.calls c with job := .activated interface, result := .activated code }
        [.activate interface code])
    | _ => none
  | .release c =>
    match (s.calls c).job with
    | .activated interface =>
      some (s.set c { s.calls c with job := .decided } [.release interface])
    | _ => none
  | .setEvent c =>
    match (s.calls c).job with
    | .decided =>
      some { s.set c { s.calls c with job := .finished, event := true } [] with free := s.free + 1 }
    | _ => none
  | .wake c =>
    if (s.calls c).caller = .waiting ∧ (s.calls c).event = true then
      some { s.set c { s.calls c with caller := .returned (s.calls c).result } [] with
        free := s.free + (s.calls c).onWorker.toNat }
    else none

def Job.isRunning : Job I → Bool
  | .started | .holding _ | .activated _ | .decided => true
  | .none | .queued | .finished => false

def Call.workers (v : Call I) : ℕ :=
  v.job.isRunning.toNat + if v.caller = .waiting then v.onWorker.toNat else 0

/-- How many steps a call still takes at most. -/
def Call.remaining (v : Call I) : ℕ :=
  match v.job with
  | .none => 0
  | .queued => 6
  | .started => 5
  | .holding _ => 4
  | .activated _ => 3
  | .decided => 2
  | .finished => if v.caller = .waiting then 1 else 0

inductive Moves : Call I → Action I → Call I → List (Event I) → Prop
  | call {v : Call I} {c : CallId} (onWorker : Bool) : v.caller = .idle →
      Moves v (.call c onWorker) ⟨.waiting, onWorker, .queued, .asyncFailed, false⟩ []
  | take {v : Call I} {c : CallId} : v.job = .queued →
      Moves v (.take c) { v with job := .started } []
  | found {v : Call I} {c : CallId} (interface : I) : v.job = .started →
      Moves v (.query c (some interface)) { v with job := .holding interface } [.acquire interface]
  | missing {v : Call I} {c : CallId} : v.job = .started →
      Moves v (.query c none) { v with job := .decided, result := .unavailable } []
  | activate {v : Call I} {c : CallId} {interface : I} (code : UInt32) :
      v.job = .holding interface →
      Moves v (.activate c code)
        { v with job := .activated interface, result := .activated code }
        [.activate interface code]
  | release {v : Call I} {c : CallId} {interface : I} : v.job = .activated interface →
      Moves v (.release c) { v with job := .decided } [.release interface]
  | setEvent {v : Call I} {c : CallId} : v.job = .decided →
      Moves v (.setEvent c) { v with job := .finished, event := true } []
  | wake {v : Call I} {c : CallId} : v.caller = .waiting → v.event = true →
      Moves v (.wake c) { v with caller := .returned v.result } []

/-- The status of a call, with what it has done with the interface. -/
def Outcome (result : Status) (events : List (Event I)) : Prop :=
  (result = .unavailable ∧ events = []) ∨ ∃ interface code, result = .activated code ∧
    events = [.acquire interface, .activate interface code, .release interface]

/-- What a call has done so far, by how far its job is. -/
def Call.Told (v : Call I) (events : List (Event I)) : Prop :=
  match v.job with
  | .none => v.caller = .idle ∧ v.event = false ∧ events = []
  | .queued | .started => v.caller = .waiting ∧ v.event = false ∧ events = []
  | .holding interface => v.caller = .waiting ∧ v.event = false ∧ events = [.acquire interface]
  | .activated interface => v.caller = .waiting ∧ v.event = false ∧
      ∃ code, v.result = .activated code ∧ events = [.acquire interface, .activate interface code]
  | .decided => v.caller = .waiting ∧ v.event = false ∧ Outcome v.result events
  | .finished => v.event = true ∧ Outcome v.result events ∧
      (v.caller = .waiting ∨ v.caller = .returned v.result)

def State.events (s : State I) (c : CallId) : List (Event I) :=
  (s.log.filter (·.1 = c)).map Prod.snd

structure Sound (workers : ℕ) (s : State I) : Prop where
  told : ∀ c, (s.calls c).Told (s.events c)
  callers : ∀ c, c ∈ s.callers ↔ (s.calls c).caller ≠ .idle
  busy : s.free + total s.callers Call.workers s.calls = workers

variable {v v' : Call I} {a : Action I} {done events : List (Event I)}

theorem Call.Told.finished_of_event (h : v.Told done) (hevent : v.event = true) :
    v.job = .finished := by
  unfold Call.Told at h
  split at h <;> simp_all

theorem Call.Told.none_of_idle (h : v.Told done) (hidle : v.caller = .idle) : v.job = .none := by
  unfold Call.Told at h
  split at h <;> simp_all

theorem Moves.told (h : Moves v a v' events) (ht : v.Told done) : v'.Told (done ++ events) := by
  cases h with
  | call onWorker hidle =>
    have hjob := ht.none_of_idle hidle
    simp only [Call.Told, hjob] at ht
    exact ⟨rfl, rfl, by simp [ht.2.2]⟩
  | take hjob =>
    simp only [Call.Told, hjob] at ht
    exact ⟨ht.1, ht.2.1, by simp [ht.2.2]⟩
  | found interface hjob =>
    simp only [Call.Told, hjob] at ht
    exact ⟨ht.1, ht.2.1, by simp [ht.2.2]⟩
  | missing hjob =>
    simp only [Call.Told, hjob] at ht
    exact ⟨ht.1, ht.2.1, .inl ⟨rfl, by simp [ht.2.2]⟩⟩
  | activate code hjob =>
    simp only [Call.Told, hjob] at ht
    exact ⟨ht.1, ht.2.1, code, rfl, by simp [ht.2.2]⟩
  | release hjob =>
    simp only [Call.Told, hjob] at ht
    obtain ⟨hcaller, hevent, code, hresult, hdone⟩ := ht
    rw [hdone]
    exact ⟨hcaller, hevent, .inr ⟨_, code, hresult, rfl⟩⟩
  | setEvent hjob =>
    simp only [Call.Told, hjob] at ht
    exact ⟨rfl, by simpa using ht.2.2, .inl ht.1⟩
  | wake hcaller hevent =>
    have hjob := ht.finished_of_event hevent
    simp only [Call.Told, hjob, List.append_nil] at ht ⊢
    exact ⟨ht.1, ht.2.1, .inr trivial⟩

/-- Every step but the first takes a call on. -/
theorem Moves.remaining (h : Moves v a v' events) (ht : v.Told done) :
    (∃ c onWorker, a = .call c onWorker ∧ v.remaining = 0 ∧ v'.remaining = 6) ∨
      v'.remaining < v.remaining := by
  cases h with
  | call onWorker hidle =>
    refine .inl ⟨_, onWorker, rfl, ?_, rfl⟩
    simp [Call.remaining, ht.none_of_idle hidle]
  | wake hcaller hevent =>
    right
    simp [Call.remaining, ht.finished_of_event hevent, hcaller]
  | setEvent hjob =>
    right
    simp only [Call.remaining, hjob]
    split <;> omega
  | take hjob | found _ hjob | missing hjob | activate _ hjob | release hjob =>
    right
    simp [Call.remaining, hjob]

variable {s s' : State I} {tr : List (Action I)} {c : CallId} {workers : ℕ}

/-- What a step does, with the workers that it takes or gives back. -/
theorem step_cases (h : step s a = some s') : ∃ v events, Moves (s.calls a.id) a v events ∧
    s'.calls = update s.calls a.id v ∧ s'.log = s.log ++ events.map (Prod.mk a.id) ∧
    s'.callers = (if a.isCall then insert a.id s.callers else s.callers) ∧
    ∀ done, (s.calls a.id).Told done → s'.free + v.workers = s.free + (s.calls a.id).workers := by
  cases a with
  | call c onWorker =>
    simp only [step] at h
    split at h
    · rename_i hcond
      obtain ⟨hidle, hfree⟩ := hcond
      obtain rfl := Option.some.inj h
      refine ⟨_, [], .call onWorker hidle, rfl, rfl, rfl, fun done ht ↦ ?_⟩
      have hjob : (s.calls c).job = .none := ht.none_of_idle hidle
      cases onWorker with
      | false => simp [Call.workers, Action.id, hjob, hidle, Job.isRunning]
      | true =>
        have hpos := hfree rfl
        simp [Call.workers, Action.id, hjob, hidle, Job.isRunning]
        omega
    · cases h
  | take c =>
    simp only [step] at h
    split at h
    · rename_i free hjob hfree
      obtain rfl := Option.some.inj h
      refine ⟨_, [], .take hjob, rfl, rfl, rfl, fun done ht ↦ ?_⟩
      simp [Call.workers, Action.id, hjob, hfree, Job.isRunning]
      omega
    · cases h
  | query c interface =>
    simp only [step] at h
    split at h
    · rename_i interface hjob
      obtain rfl := Option.some.inj h
      refine ⟨_, _, .found interface hjob, rfl, rfl, rfl, fun done ht ↦ ?_⟩
      simp [Call.workers, Action.id, hjob, Job.isRunning, State.set]
    · rename_i hjob
      obtain rfl := Option.some.inj h
      refine ⟨_, _, .missing hjob, rfl, rfl, rfl, fun done ht ↦ ?_⟩
      simp [Call.workers, Action.id, hjob, Job.isRunning, State.set]
    · cases h
  | activate c code =>
    simp only [step] at h
    split at h
    · rename_i interface hjob
      obtain rfl := Option.some.inj h
      refine ⟨_, _, .activate code hjob, rfl, rfl, rfl, fun done ht ↦ ?_⟩
      simp [Call.workers, Action.id, hjob, Job.isRunning, State.set]
    · cases h
  | release c =>
    simp only [step] at h
    split at h
    · rename_i interface hjob
      obtain rfl := Option.some.inj h
      refine ⟨_, _, .release hjob, rfl, rfl, rfl, fun done ht ↦ ?_⟩
      simp [Call.workers, Action.id, hjob, Job.isRunning, State.set]
    · cases h
  | setEvent c =>
    simp only [step] at h
    split at h
    · rename_i hjob
      obtain rfl := Option.some.inj h
      refine ⟨_, _, .setEvent hjob, rfl, rfl, rfl, fun done ht ↦ ?_⟩
      simp [Call.workers, Action.id, hjob, Job.isRunning]
      omega
    · cases h
  | wake c =>
    simp only [step] at h
    split at h
    · rename_i hcond
      obtain ⟨hcaller, hevent⟩ := hcond
      obtain rfl := Option.some.inj h
      refine ⟨_, _, .wake hcaller hevent, rfl, rfl, rfl, fun done ht ↦ ?_⟩
      have hjob : (s.calls c).job = .finished := ht.finished_of_event hevent
      simp [Call.workers, Action.id, hjob, hcaller, Job.isRunning]
    · cases h

theorem events_append {log : List (CallId × Event I)} (hlog : s'.log = s.log ++ log) (c : CallId) :
    s'.events c = s.events c ++ (log.filter (·.1 = c)).map Prod.snd := by
  rw [State.events, hlog, List.filter_append, List.map_append, State.events]

theorem filter_own (events : List (Event I)) :
    ((events.map (Prod.mk c)).filter (·.1 = c)).map Prod.snd = events := by
  simp [List.filter_map, Function.comp_def]

theorem filter_other {d : CallId} (hd : d ≠ c) (events : List (Event I)) :
    (events.map (Prod.mk c)).filter (·.1 = d) = [] := by
  simp [List.filter_map, Function.comp_def, Ne.symm hd]

theorem Call.Told.waiting_of_job (h : v.Told done) (hnone : v.job ≠ .none)
    (hfinished : v.job ≠ .finished) : v.caller = .waiting := by
  unfold Call.Told at h
  split at h <;> simp_all

theorem Moves.caller (h : Moves v a v' events) (ht : v.Told done) : v'.caller ≠ .idle ∧
    ((∃ c onWorker, a = .call c onWorker) ↔ v.caller = .idle) := by
  cases h with
  | call onWorker hidle => exact ⟨by simp, iff_of_true ⟨_, _, rfl⟩ hidle⟩
  | wake hcaller hevent => exact ⟨by simp, by simp [hcaller]⟩
  | take hjob | found _ hjob | missing hjob | activate _ hjob | release hjob | setEvent hjob =>
    have hcaller := ht.waiting_of_job (by simp [hjob]) (by simp [hjob])
    exact ⟨by simp [hcaller], by simp [hcaller]⟩

theorem Sound.init (workers : ℕ) : Sound (I := I) workers (.init workers) where
  told _ := ⟨rfl, rfl, rfl⟩
  callers _ := by simp [State.init, Call.init]
  busy := rfl

theorem Sound.cases (hi : Sound workers s) (h : step s a = some s') : ∃ v events,
    Moves (s.calls a.id) a v events ∧ s'.calls = update s.calls a.id v ∧
    s'.log = s.log ++ events.map (Prod.mk a.id) ∧ s'.callers = insert a.id s.callers ∧
    s'.free + v.workers = s.free + (s.calls a.id).workers := by
  obtain ⟨v, events, hmoves, hcalls, hlog, hcallers, hfree⟩ := step_cases h
  have htold := hi.told a.id
  refine ⟨v, events, hmoves, hcalls, hlog, ?_, hfree _ htold⟩
  obtain ⟨-, hcall⟩ := hmoves.caller htold
  by_cases hidle : (s.calls a.id).caller = .idle
  · obtain ⟨c, onWorker, rfl⟩ := hcall.mpr hidle
    exact hcallers
  · rw [Finset.insert_eq_of_mem ((hi.callers _).mpr hidle)]
    cases a with
    | call c onWorker => exact (hidle (hcall.mp ⟨c, onWorker, rfl⟩)).elim
    | _ => exact hcallers

/-- A weight that idle calls do not have changes with the call that takes the step. -/
theorem Sound.total_eq (hi : Sound workers s) (hcalls : s'.calls = update s.calls c v)
    (hcallers : s'.callers = insert c s.callers) (weight : Call I → ℕ)
    (hzero : ∀ v : Call I, v.caller = .idle → v.job = .none → weight v = 0) :
    total s'.callers weight s'.calls + weight (s.calls c) =
      total s.callers weight s.calls + weight v := by
  rw [hcallers, hcalls]
  by_cases hmem : c ∈ s.callers
  · rw [Finset.insert_eq_of_mem hmem]
    exact total_update hmem v
  · have hidle : (s.calls c).caller = .idle := by simpa [hi.callers] using hmem
    rw [total_insert hmem, hzero _ hidle ((hi.told c).none_of_idle hidle), Nat.add_zero]

theorem Sound.step (hi : Sound workers s) (h : step s a = some s') : Sound workers s' := by
  obtain ⟨v, events, hmoves, hcalls, hlog, hcallers, hfree⟩ := hi.cases h
  have htold := hi.told a.id
  refine ⟨?_, ?_, ?_⟩
  · intro c
    rw [events_append hlog, hcalls]
    by_cases hc : c = a.id
    · subst hc
      rw [filter_own, update_self]
      exact hmoves.told htold
    · rw [filter_other hc, update_of_ne hc, List.map_nil, List.append_nil]
      exact hi.told c
  · intro c
    rw [hcallers, hcalls, Finset.mem_insert]
    by_cases hc : c = a.id
    · subst hc
      rw [update_self]
      exact iff_of_true (.inl rfl) (hmoves.caller htold).1
    · rw [update_of_ne hc, hi.callers c]
      exact or_iff_right hc
  · have hworkers := hi.total_eq hcalls hcallers Call.workers fun v hidle hnone ↦ by
      simp [Call.workers, hidle, hnone, Job.isRunning]
    have hbusy := hi.busy
    omega

theorem run_sound (h : Run step (.init workers) tr s) : Sound workers s :=
  h.invariant (.init workers) fun _ _ _ hi hs ↦ hi.step hs

/-- A call takes at most six steps after its first. -/
theorem run_bounded (h : Run step (.init workers) tr s) :
    tr.length + total s.callers Call.remaining s.calls ≤ 7 * tr.countP Action.isCall := by
  induction h with
  | nil => exact Nat.le_refl 0
  | @snoc tr s s' a h hs hle =>
    have hi := run_sound h
    obtain ⟨v, events, hmoves, hcalls, -, hcallers, -⟩ := hi.cases hs
    have hremaining := hi.total_eq hcalls hcallers Call.remaining fun v _ hnone ↦ by
      simp [Call.remaining, hnone]
    rw [List.length_append, List.length_singleton, List.countP_append, List.countP_singleton]
    rcases hmoves.remaining (hi.told a.id) with ⟨c, onWorker, rfl, hold, hnew⟩ | hless
    · simp only [Action.isCall, if_true]
      omega
    · omega

section Balance

variable [DecidableEq I] {interface : I}

def Call.holds (interface : I) (v : Call I) : ℕ :=
  match v.job with
  | .holding held | .activated held => if held = interface then 1 else 0
  | _ => 0

theorem Moves.holds (h : Moves v a v' events) (ht : v.Told done) (interface : I) :
    events.count (.acquire interface) + v.holds interface =
      events.count (.release interface) + v'.holds interface := by
  cases h with
  | call onWorker hidle => simp [Call.holds, ht.none_of_idle hidle]
  | found held hjob => simp [Call.holds, hjob, List.count_cons]
  | release hjob => simp [Call.holds, hjob, List.count_cons]
  | activate code hjob => simp [Call.holds, hjob]
  | take hjob | missing hjob | setEvent hjob => simp [Call.holds, hjob]
  | wake hcaller hevent => simp [Call.holds]

theorem run_balanced (h : Run step (.init workers) tr s) (interface : I) :
    (s.log.map Prod.snd).count (.acquire interface) =
      (s.log.map Prod.snd).count (.release interface) +
        total s.callers (Call.holds interface) s.calls := by
  induction h with
  | nil => rfl
  | @snoc tr s s' a h hs heq =>
    have hi := run_sound h
    obtain ⟨v, events, hmoves, hcalls, hlog, hcallers, -⟩ := hi.cases hs
    have hholds := hi.total_eq hcalls hcallers (Call.holds interface) fun v _ hnone ↦ by
      simp [Call.holds, hnone]
    have hown := hmoves.holds (hi.told a.id) interface
    rw [hlog, List.map_append, List.count_append, List.count_append, List.map_map,
      show Prod.snd ∘ Prod.mk a.id = (id : Event I → Event I) from rfl, List.map_id]
    omega

/-- How the calls of a run end, and what they leave behind. -/
structure Completes (tr : List (Action I)) (s : State I) : Prop where
  outcome : ∀ c result, (s.calls c).caller = .returned result →
    (s.calls c).job = .finished ∧ Outcome result (s.events c)
  released : (∀ c, (s.calls c).caller ≠ .waiting) → ∀ interface,
    (s.log.map Prod.snd).count (.acquire interface) =
      (s.log.map Prod.snd).count (.release interface)
  bounded : tr.length ≤ 7 * tr.countP Action.isCall

/-- A call returns after its job is through with the local variables, and returns what the
job found. Every interface is released as often as acquired once no call waits. -/
theorem calls_complete (h : Run step (.init workers) tr s) : Completes tr s := by
  have hi := run_sound h
  have hjob : ∀ {c}, (s.calls c).caller ≠ .waiting →
      (s.calls c).job = .none ∨ (s.calls c).job = .finished := by
    intro c hc
    by_contra hneither
    rw [not_or] at hneither
    exact hc ((hi.told c).waiting_of_job hneither.1 hneither.2)
  refine ⟨?_, ?_, ?_⟩
  · intro c result hresult
    have htold := hi.told c
    rcases hjob (c := c) (by simp [hresult]) with hnone | hfinished
    · simp [Call.Told, hnone, hresult] at htold
    · obtain ⟨-, houtcome, hcaller⟩ : _ ∧ _ ∧ _ := by simpa [Call.Told, hfinished] using htold
      obtain rfl : result = (s.calls c).result := by simpa [hresult] using hcaller
      exact ⟨hfinished, houtcome⟩
  · intro hreturned interface
    have hzero : total s.callers (Call.holds interface) s.calls = 0 := by
      refine Finset.sum_eq_zero fun c _ ↦ ?_
      rcases hjob (hreturned c) with hnone | hfinished
      · simp [Call.holds, hnone]
      · simp [Call.holds, hfinished]
    rw [run_balanced h interface, hzero, Nat.add_zero]
  · exact Nat.le_trans (Nat.le_add_right _ _) (run_bounded h)

end Balance

/-- Two calls at the same time, one of them from a worker; only the other finds its plugin. -/
def twoCalls : List (Action ℕ) :=
  [.call 0 false, .call 1 true, .take 0, .query 0 (some 7), .activate 0 0, .release 0, .setEvent 0,
    .take 1, .query 1 none, .setEvent 1, .wake 1, .wake 0]

theorem calls_complete_twoCalls : ∃ s, Run step (.init 2) twoCalls s ∧ Completes twoCalls s := by
  obtain ⟨s, hs⟩ : ∃ s, Run step (.init 2) twoCalls s := exists_run (by decide +kernel)
  exact ⟨s, hs, calls_complete hs⟩

end Peripherals.ActivatePlugin
