import Peripherals.Custody
import Peripherals.Execution

namespace Peripherals.ThreadRAII

open Custody Execution Function

/-- The `ThreadRAII` objects that there are, each with the thread of its member `t` if that
is joinable. `started` are the threads that they have been given, `finished` those that
were joined, detached or taken out again, and `terminated` tells of `std::terminate`. -/
structure State (ι τ : Type*) where
  objects : ι → Option (Option τ)
  started : List τ
  finished : List τ
  terminated : Bool

inductive Action (ι τ : Type*)
  | default (i : ι)
  | ofThread (i : ι) (t : τ)
  | moveConstruct (i other : ι)
  | moveAssign (i other : ι)
  | destroy (i : ι) (joins : Bool)
  | setThread (i : ι) (t : τ)
  | finish (i : ι)

variable {ι τ : Type*} {s s' : State ι τ} {a : Action ι τ} {tr : List (Action ι τ)} {i other : ι}
  {t : τ} {v : Option τ}

def State.init : State ι τ := ⟨fun _ ↦ none, [], [], false⟩

def State.terminate (s : State ι τ) : State ι τ := { s with terminated := true }

def State.held (s : State ι τ) (i : ι) : Option τ := (s.objects i).join

def Kept (s : State ι τ) : Prop := Balanced s.held s.started s.finished

def Fatal (s : State ι τ) : Action ι τ → Prop
  | .moveAssign i _ | .setThread i _ => (s.held i).isSome = true
  | .destroy i joins => (s.held i).isSome = true ∧ joins = false
  | _ => False

theorem held_none (h : s.objects i = none) : s.held i = none := by simp [State.held, h]

theorem held_some (h : s.objects i = some v) : s.held i = v := by simp [State.held, h]

theorem kept_init : Kept (State.init : State ι τ) := balanced_empty

section Objects

variable [DecidableEq ι]

def State.set (s : State ι τ) (i : ι) (object : Option (Option τ)) : State ι τ :=
  { s with objects := update s.objects i object }

/-- `std::thread::operator=` gives up where the thread that it would lose is joinable. -/
def moveAssign (s : State ι τ) (i other : ι) : Option (State ι τ) :=
  match s.objects i, s.objects other with
  | some none, some v => some ((s.set other (some none)).set i (some v))
  | some (some _), some _ => some s.terminate
  | _, _ => none

/-- Where `join` throws, the exception is caught, but the member is still joinable when
it is destroyed after that. -/
def destroy (s : State ι τ) (i : ι) (joins : Bool) : Option (State ι τ) :=
  match s.objects i with
  | some none => some (s.set i none)
  | some (some t) =>
    if joins then some { s.set i none with finished := s.finished ++ [t] }
    else some s.terminate
  | none => none

/-- `get().join()` and `get().detach()` of a thread that is joinable, and moving it away. -/
def finish (s : State ι τ) (i : ι) : Option (State ι τ) :=
  match s.objects i with
  | some (some t) => some { s.set i (some none) with finished := s.finished ++ [t] }
  | _ => none

@[simp] theorem held_set (s : State ι τ) (i : ι) (object : Option (Option τ)) :
    (s.set i object).held = update s.held i object.join := by
  funext j
  by_cases h : j = i
  · simp [State.held, State.set, h]
  · simp [State.held, State.set, update_of_ne h]

theorem kept_move (h : Kept s) (hi : s.held i = none) (hother : s.objects other = some v) :
    Kept ((s.set other (some none)).set i (some v)) := by
  have hmove := h.move (j := other) hi
  rw [held_some hother] at hmove
  rwa [Kept, held_set, held_set]

/-- An object that holds no thread may come or go. -/
theorem kept_empty (h : Kept s) (hi : s.held i = none) {object : Option (Option τ)}
    (hobject : object.join = none) : Kept (s.set i object) := by
  rw [Kept, held_set, hobject, ← hi, update_eq_self]
  exact h

theorem kept_finish (h : Kept s) (hi : s.held i = some t) {object : Option (Option τ)}
    (hobject : object.join = none) :
    Kept { s.set i object with finished := s.finished ++ [t] } := by
  have htake := h.take hi
  rw [← hobject, ← held_set] at htake
  exact htake

theorem kept_put (h : Kept s) (hi : s.held i = none) (ht : t ∉ s.started) :
    Kept { s.set i (some (some t)) with started := s.started ++ [t] } := by
  have hput := h.put hi ht
  have hjoin : (some (some t)).join = some t := rfl
  rw [← hjoin, ← held_set] at hput
  exact hput

theorem moveAssign_kept (h : Kept s) (hlive : s.terminated = false)
    (hs : moveAssign s i other = some s') :
    s'.terminated = false ∧ Kept s' ∧ s.held i = none ∨
      s'.terminated = true ∧ (s.held i).isSome = true := by
  unfold moveAssign at hs
  split at hs
  next hi hother =>
    obtain rfl := Option.some.inj hs
    exact .inl ⟨hlive, kept_move h (held_some hi) hother, held_some hi⟩
  next hi hother =>
    obtain rfl := Option.some.inj hs
    exact .inr ⟨rfl, by rw [held_some hi]; rfl⟩
  · cases hs

theorem destroy_kept {joins : Bool} (h : Kept s) (hlive : s.terminated = false)
    (hs : destroy s i joins = some s') :
    s'.terminated = false ∧ Kept s' ∧ (s.held i = none ∨ joins = true) ∨
      s'.terminated = true ∧ (s.held i).isSome = true ∧ joins = false := by
  unfold destroy at hs
  split at hs
  next hi =>
    obtain rfl := Option.some.inj hs
    exact .inl ⟨hlive, kept_empty h (held_some hi) rfl, .inl (held_some hi)⟩
  next t hi =>
    split at hs
    next hjoins =>
      obtain rfl := Option.some.inj hs
      exact .inl ⟨hlive, kept_finish h (held_some hi) rfl, .inr hjoins⟩
    next hjoins =>
      obtain rfl := Option.some.inj hs
      exact .inr ⟨rfl, by rw [held_some hi]; rfl, eq_false_of_ne_true hjoins⟩
  · cases hs

end Objects

variable [DecidableEq ι] [DecidableEq τ]

/-- `get() = std::thread(...)` -/
def setThread (s : State ι τ) (i : ι) (t : τ) : Option (State ι τ) :=
  match s.objects i with
  | some none =>
    if t ∈ s.started then none
    else some { s.set i (some (some t)) with started := s.started ++ [t] }
  | some (some _) => some s.terminate
  | none => none

/-- A new object is at an address where there is none, and is given a new thread. -/
def step (s : State ι τ) (a : Action ι τ) : Option (State ι τ) :=
  if s.terminated then none
  else
    match a with
    | .default i => if s.objects i = none then some (s.set i (some none)) else none
    | .ofThread i t =>
      if s.objects i = none ∧ t ∉ s.started then
        some { s.set i (some (some t)) with started := s.started ++ [t] }
      else none
    | .moveConstruct i other =>
      match s.objects i, s.objects other with
      | none, some v => some ((s.set other (some none)).set i (some v))
      | _, _ => none
    | .moveAssign i other => moveAssign s i other
    | .destroy i joins => destroy s i joins
    | .setThread i t => setThread s i t
    | .finish i => finish s i

theorem setThread_kept (h : Kept s) (hlive : s.terminated = false)
    (hs : setThread s i t = some s') :
    s'.terminated = false ∧ Kept s' ∧ s.held i = none ∨
      s'.terminated = true ∧ (s.held i).isSome = true := by
  unfold setThread at hs
  split at hs
  next hi =>
    split at hs
    · cases hs
    next ht =>
      obtain rfl := Option.some.inj hs
      exact .inl ⟨hlive, kept_put h (held_some hi) ht, held_some hi⟩
  next hi =>
    obtain rfl := Option.some.inj hs
    exact .inr ⟨rfl, by rw [held_some hi]; rfl⟩
  · cases hs

theorem step_live (hs : step s a = some s') : s.terminated = false := by
  unfold step at hs
  split at hs
  · cases hs
  next hlive => exact eq_false_of_ne_true hlive

/-- An operation either keeps account of the threads or ends the program. -/
theorem step_kept (h : Kept s) (hs : step s a = some s') :
    s'.terminated = false ∧ Kept s' ∧ ¬ Fatal s a ∨ s'.terminated = true ∧ Fatal s a := by
  have hlive := step_live hs
  unfold step at hs
  rw [hlive, if_neg Bool.false_ne_true] at hs
  cases a with
  | default i =>
    dsimp only at hs
    split at hs
    next hi =>
      obtain rfl := Option.some.inj hs
      exact .inl ⟨hlive, kept_empty h (held_none hi) rfl, id⟩
    · cases hs
  | ofThread i t =>
    dsimp only at hs
    split at hs
    next hfresh =>
      obtain rfl := Option.some.inj hs
      exact .inl ⟨hlive, kept_put h (held_none hfresh.1) hfresh.2, id⟩
    · cases hs
  | moveConstruct i other =>
    dsimp only at hs
    split at hs
    next hi hother =>
      obtain rfl := Option.some.inj hs
      exact .inl ⟨hlive, kept_move h (held_none hi) hother, id⟩
    · cases hs
  | moveAssign i other =>
    rcases moveAssign_kept h hlive hs with ⟨hlive', hkept, hnone⟩ | hfatal
    · exact .inl ⟨hlive', hkept, by simp [Fatal, hnone]⟩
    · exact .inr hfatal
  | destroy i joins =>
    rcases destroy_kept h hlive hs with ⟨hlive', hkept, hnone | hjoins⟩ | hfatal
    · exact .inl ⟨hlive', hkept, by simp [Fatal, hnone]⟩
    · exact .inl ⟨hlive', hkept, by simp [Fatal, hjoins]⟩
    · exact .inr hfatal
  | setThread i t =>
    rcases setThread_kept h hlive hs with ⟨hlive', hkept, hnone⟩ | hfatal
    · exact .inl ⟨hlive', hkept, by simp [Fatal, hnone]⟩
    · exact .inr hfatal
  | finish i =>
    dsimp only [finish] at hs
    split at hs
    next t hi =>
      obtain rfl := Option.some.inj hs
      exact .inl ⟨hlive, kept_finish h (held_some hi) rfl, id⟩
    · cases hs

theorem run_kept (h : Run step .init tr s) (hlive : s.terminated = false) : Kept s := by
  induction h with
  | nil => exact kept_init
  | snoc _ hs ih =>
    rcases step_kept (ih (step_live hs)) hs with ⟨-, hkept, -⟩ | ⟨hdead, -⟩
    · exact hkept
    · cases hlive.symm.trans hdead

/-- Every thread that the objects were given is in one of them or has been finished once,
all of them when the last object is gone, unless the program was ended by an operation
that would have lost one. -/
theorem threads_kept (h : Run step .init tr s) :
    (s.terminated = false → Kept s ∧ ((∀ i, s.objects i = none) → s.finished.Perm s.started)) ∧
      (s.terminated = true ↔
        ∃ pre a u, tr = pre ++ [a] ∧ Run step .init pre u ∧ Fatal u a) := by
  refine ⟨fun hlive ↦ ⟨run_kept h hlive, fun hgone ↦ ?_⟩, ?_⟩
  · exact (run_kept h hlive).perm fun i ↦ held_none (hgone i)
  · cases h with
    | nil => simp [State.init]
    | @snoc tr s s' a hrun hs =>
      have hkept := run_kept hrun (step_live hs)
      refine ⟨fun hdead ↦ ?_, ?_⟩
      · rcases step_kept hkept hs with ⟨hlive, -, -⟩ | ⟨-, hfatal⟩
        · cases hdead.symm.trans hlive
        · exact ⟨tr, a, s, rfl, hrun, hfatal⟩
      · rintro ⟨pre, b, u, he, hu, hfatal⟩
        obtain ⟨rfl, hb⟩ := List.append_inj' he rfl
        obtain rfl := List.singleton_inj.mp hb
        obtain rfl := hu.functional hrun
        rcases step_kept hkept hs with ⟨-, -, hnot⟩ | ⟨hdead, -⟩
        · exact (hnot hfatal).elim
        · exact hdead

/-- A thread that is moved into a second object, whose own one was joined by hand. -/
def handedOver : List (Action ℕ ℕ) :=
  [.ofThread 0 10, .default 1, .setThread 1 11, .finish 1, .moveAssign 1 0, .destroy 0 false,
    .destroy 1 true]

theorem threads_kept_handedOver : ∃ s, Run step .init handedOver s ∧
    (s.terminated = false → Kept s ∧ ((∀ i, s.objects i = none) → s.finished.Perm s.started)) ∧
      (s.terminated = true ↔
        ∃ pre a u, handedOver = pre ++ [a] ∧ Run step .init pre u ∧ Fatal u a) := by
  obtain ⟨s, hs⟩ : ∃ s, Run step .init handedOver s := exists_run rfl
  exact ⟨s, hs, threads_kept hs⟩

end Peripherals.ThreadRAII
