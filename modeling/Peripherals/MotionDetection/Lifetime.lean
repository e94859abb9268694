import Mathlib.Logic.Function.Basic
import Peripherals.Execution
import Peripherals.MotionDetection.ActivePeriod

namespace Peripherals.MotionDetection

open Execution

inductive Phase
  | constructed
  | initialized
  | deinitialized
  | destroyed
  deriving DecidableEq

structure EventMessage where
  m_sensorIndex : String
  m_eventType : Char

/-- The objects of class `MotionDetection` that there have been, the static
`_instance`, and whether the HAL has been given the callback. -/
structure Process (ι : Type*) where
  objects : ι → Option Phase
  _instance : Option ι
  registered : Bool

inductive Event (ι : Type*)
  | construct (i : ι)
  | init (i : ι)
  | deinit (i : ι)
  | destroy (i : ι)
  | motion (eventMsg : EventMessage)

variable {ι : Type*}

/-- The result, and the call of `onMotionEvent` with its object and arguments. -/
def motiondetection_EventCallback (_instance : Option ι) (eventMsg : EventMessage) :
    MotionDetectionResult × Option (ι × String × String) :=
  match _instance with
  | none => (.intiFailure, none)
  | some i => (.success, some (i, eventMsg.m_sensorIndex, eventMsg.m_eventType.toString))

def start : Process ι where
  objects _ := none
  _instance := none
  registered := false

variable [DecidableEq ι]

def Process.enter (s : Process ι) (i : ι) (phase : Phase) : Process ι :=
  { s with objects := Function.update s.objects i (some phase) }

/-- Every object is constructed once and destroyed at most once, and in between
it may be initialised and deinitialised once. -/
def step (s : Process ι) : Event ι → Option (Process ι)
  | .construct i =>
    if s.objects i = none then some { s.enter i .constructed with _instance := some i } else none
  | .init i =>
    if s.objects i = some .constructed then some { s.enter i .initialized with registered := true }
    else none
  | .deinit i =>
    if s.objects i = some .initialized then some { s.enter i .deinitialized with _instance := none }
    else none
  | .destroy i =>
    if s.objects i = some .constructed ∨ s.objects i = some .deinitialized then
      some (s.enter i .destroyed)
    else none
  | .motion _ => if s.registered then some s else none

/-- The event reaches no destroyed object, and one that is initialised and not
yet deinitialised if there are such objects. -/
structure Served (s : Process ι) (eventMsg : EventMessage) : Prop where
  alive : ∀ i index mode, (motiondetection_EventCallback s._instance eventMsg).2 =
    some (i, index, mode) → s.objects i ≠ some .destroyed
  delivered : ∀ j, s.objects j = some .initialized →
    ∃ i index mode, (motiondetection_EventCallback s._instance eventMsg).2 =
      some (i, index, mode) ∧ s.objects i = some .initialized

def reached (i : ι) : Event ι → Option (Option Phase)
  | .construct j => if i = j then some (some .constructed) else none
  | .init j => if i = j then some (some .initialized) else none
  | .deinit j => if i = j then some (some .deinitialized) else none
  | .destroy j => if i = j then some (some .destroyed) else none
  | .motion _ => none

def lastPhase (i : ι) (tr : List (Event ι)) : Option Phase := (latest (reached i) tr).getD none

def assigned : Event ι → Option (Option ι)
  | .construct i => some (some i)
  | .deinit _ => some none
  | _ => none

variable {s s' : Process ι} {a : Event ι} {tr : List (Event ι)} {i : ι}

theorem enter_objects {phase : Phase} {j : ι} :
    (s.enter i phase).objects j = if j = i then some phase else s.objects j := by
  simp [Process.enter, Function.update_apply]

theorem step_objects (hs : step s a = some s') :
    s'.objects i = (reached i a).getD (s.objects i) := by
  cases a with
  | motion eventMsg =>
    obtain ⟨-, rfl⟩ : s.registered = true ∧ s = s' := by simpa [step] using hs
    rfl
  | _ =>
    simp only [step] at hs
    split at hs
    · obtain rfl := Option.some.inj hs
      simp only [enter_objects, reached]
      split <;> rfl
    · simp at hs

theorem step_instance (hs : step s a = some s') :
    s'._instance = (assigned a).getD s._instance := by
  cases a with
  | motion eventMsg =>
    obtain ⟨-, rfl⟩ : s.registered = true ∧ s = s' := by simpa [step] using hs
    rfl
  | _ =>
    simp only [step] at hs
    split at hs
    · obtain rfl := Option.some.inj hs
      rfl
    · simp at hs

theorem run_objects (h : Run step start tr s) : s.objects i = lastPhase i tr :=
  h.eq_latest (v := fun s ↦ s.objects i) fun _ _ _ hs ↦ step_objects hs

theorem run_instance (h : Run step start tr s) :
    s._instance = (latest assigned tr).getD none :=
  h.eq_latest (v := Process._instance) fun _ _ _ hs ↦ step_instance hs

/-- The constructor or `Deinitialize` called last was the constructor of an
object that is initialised now; or none is, and that call was not the
constructor of an object that is destroyed by now. -/
def Attended (tr : List (Event ι)) : Prop :=
  (∃ i, latest assigned tr = some (some i) ∧ lastPhase i tr = some .initialized) ∨
    (∀ j, lastPhase j tr ≠ some .initialized) ∧
      ∀ i, latest assigned tr = some (some i) → lastPhase i tr ≠ some .destroyed

theorem served_iff_attended (h : Run step start tr s) (eventMsg : EventMessage) :
    Served s eventMsg ↔ Attended tr := by
  have hobjects : ∀ i, s.objects i = lastPhase i tr := fun i ↦ run_objects h
  have hinstance : ∀ i, s._instance = some i ↔ latest assigned tr = some (some i) := by
    intro i
    rw [run_instance h]
    cases latest assigned tr <;> simp
  have hcall : ∀ i index mode, (motiondetection_EventCallback s._instance eventMsg).2 =
      some (i, index, mode) ↔ s._instance = some i ∧ eventMsg.m_sensorIndex = index ∧
        eventMsg.m_eventType.toString = mode := by
    intro i index mode
    cases s._instance <;> simp [motiondetection_EventCallback]
  refine ⟨?_, ?_⟩
  · intro hserved
    obtain ⟨halive, hdelivered⟩ := hserved
    by_cases hlive : ∃ j, lastPhase j tr = some .initialized
    · obtain ⟨j, hj⟩ := hlive
      obtain ⟨i, index, mode, hi, hphase⟩ := hdelivered j (by rw [hobjects, hj])
      refine .inl ⟨i, (hinstance i).mp ((hcall i index mode).mp hi).1, ?_⟩
      rw [← hobjects, hphase]
    · refine .inr ⟨fun j hj ↦ hlive ⟨j, hj⟩, ?_⟩
      intro i hi
      rw [← hobjects]
      exact halive i _ _ ((hcall i _ _).mpr ⟨(hinstance i).mpr hi, rfl, rfl⟩)
  · intro hattended
    obtain ⟨i, hi, hphase⟩ | ⟨hnone, halive⟩ := hattended
    · have hi' := (hinstance i).mpr hi
      refine ⟨?_, ?_⟩
      · intro j index mode hj
        obtain rfl : i = j := by simpa [hi'] using ((hcall j index mode).mp hj).1
        simp [hobjects, hphase]
      · intro _ _
        exact ⟨i, _, _, (hcall i _ _).mpr ⟨hi', rfl, rfl⟩, by rw [hobjects, hphase]⟩
    · refine ⟨?_, ?_⟩
      · intro i index mode hi
        rw [hobjects]
        exact halive i ((hinstance i).mp ((hcall i index mode).mp hi).1)
      · intro j hj
        exact (hnone j (by rw [← hobjects, hj])).elim

theorem events_served_iff (h : Run step start tr s) :
    Along step start (fun s a ↦ ∀ eventMsg, a = .motion eventMsg → Served s eventMsg) tr ↔
      ∀ pre eventMsg post, tr = pre ++ .motion eventMsg :: post → Attended pre := by
  refine ⟨?_, ?_⟩
  · intro hserved pre eventMsg post htr
    subst htr
    obtain ⟨u, -, hu, -, -⟩ := h.split
    exact (served_iff_attended hu eventMsg).mp (hserved pre _ post u rfl hu eventMsg rfl)
  · intro hattended pre a post u htr hu eventMsg ha
    subst ha
    exact (served_iff_attended hu eventMsg).mpr (hattended pre eventMsg post htr)

def motionEvent : EventMessage where
  m_sensorIndex := "FP_MD"
  m_eventType := '1'

/-- One object at a time, each initialised before the next event. -/
def inTurn : List (Event ℕ) :=
  [.construct 0, .destroy 0, .construct 1, .init 1, .motion motionEvent, .deinit 1,
    .motion motionEvent, .destroy 1]

theorem events_served_iff_inTurn : ∃ s, Run step start inTurn s ∧
    (Along step start (fun s a ↦ ∀ eventMsg, a = .motion eventMsg → Served s eventMsg) inTurn ↔
      ∀ pre eventMsg post, inTurn = pre ++ .motion eventMsg :: post → Attended pre) := by
  obtain ⟨s, h⟩ : ∃ s, Run step start inTurn s := exists_run (by decide)
  exact ⟨s, h, events_served_iff h⟩

def overlapping : List (Event ℕ) := [.construct 0, .init 0, .construct 1, .destroy 1]

theorem event_reaches_destroyed :
    ¬ ∀ (tr : List (Event ℕ)) (s : Process ℕ), Run step start tr s →
      Along step start (fun s a ↦ ∀ eventMsg, a = .motion eventMsg → Served s eventMsg) tr := by
  intro h
  obtain ⟨s, hs⟩ : ∃ s, Run step start (overlapping ++ [.motion motionEvent]) s :=
    exists_run (by decide)
  obtain ⟨u, -, hu, -, -⟩ := hs.split
  have hserved := h _ s hs overlapping _ [] u rfl hu motionEvent rfl
  have hdestroyed : u.objects 1 = some .destroyed := run_objects hu
  have hinstance : u._instance = some 1 := run_instance hu
  exact hserved.alive 1 _ _ (by rw [hinstance]; rfl) hdestroyed

end Peripherals.MotionDetection
