import Peripherals.Execution
import Mathlib.Algebra.BigOperators.Ring.Finset
import Mathlib.Data.Finset.Card

namespace Peripherals.PluginInterface

open Function Execution
open scoped BigOperators

variable {I S : Type}

abbrev RefId := ℕ

/-- `_interface` and `_service`, with `none` for a null pointer. -/
structure PluginInterfaceRef (I S : Type) where
  interface : Option I
  service : Option S

def PluginInterfaceRef.empty : PluginInterfaceRef I S := ⟨none, none⟩

/-- The refs that are alive, with the references acquired and released so far. -/
structure State (I S : Type) where
  live : Finset RefId
  ref : RefId → PluginInterfaceRef I S
  acquired : I → ℕ
  released : I → ℕ

def State.init : State I S := ⟨∅, fun _ ↦ .empty, fun _ ↦ 0, fun _ ↦ 0⟩

inductive Action (I S : Type)
  | construct (r : RefId)
  | adopt (r : RefId) (interface : Option I) (controller : Option S)
  | moveConstruct (r other : RefId)
  | moveAssign (r other : RefId)
  | reset (r : RefId)
  | destroy (r : RefId)

def Action.refs : Action I S → List RefId
  | .construct r | .adopt r _ _ | .reset r | .destroy r => [r]
  | .moveConstruct r other | .moveAssign r other => [r, other]

def State.setRef (s : State I S) (r : RefId) (v : PluginInterfaceRef I S) : State I S :=
  { s with ref := update s.ref r v }

def State.clear (s : State I S) (r : RefId) : State I S :=
  s.setRef r { s.ref r with interface := none }

def State.add (s : State I S) (r : RefId) (v : PluginInterfaceRef I S) : State I S :=
  { s with live := insert r s.live, ref := update s.ref r v }

def moveAssign (s : State I S) (r other : RefId) : State I S :=
  if r ≠ other then
    (s.setRef r { s.ref r with interface := (s.ref other).interface }).clear other
  else s

theorem moveAssign_frame {s : State I S} {r other p : RefId} (hp : p ≠ r ∧ p ≠ other) :
    (moveAssign s r other).live = s.live ∧ (moveAssign s r other).ref p = s.ref p := by
  unfold moveAssign
  split_ifs
  · exact ⟨rfl, (update_of_ne hp.2 _ _).trans (update_of_ne hp.1 _ _)⟩
  · exact ⟨rfl, rfl⟩

def createInterfaceLoop (query : ℕ → Option I) (retry_count : ℤ) (count : ℕ) : Option I :=
  match query count with
  | some pluginInterface => some pluginInterface
  | none =>
    if (count : ℤ) + 1 < retry_count then createInterfaceLoop query retry_count (count + 1)
    else none
termination_by (retry_count - count).toNat
decreasing_by omega

def createInterface (controller : Option S) (query : ℕ → Option I) (retry_count : ℤ) : Option I :=
  match controller with
  | none => none
  | some _ => createInterfaceLoop query retry_count 0

theorem createInterfaceLoop_eq_some {query : ℕ → Option I} {retry_count : ℤ} {count : ℕ} {x : I} :
    createInterfaceLoop query retry_count count = some x ↔ ∃ n ≥ count, query n = some x ∧
      (∀ m, count ≤ m → m < n → query m = none) ∧ (n = count ∨ (n : ℤ) < retry_count) := by
  induction count using createInterfaceLoop.induct query retry_count with
  | case1 count y hy =>
    rw [createInterfaceLoop, hy]
    refine ⟨?_, ?_⟩
    · intro hx
      exact ⟨count, Nat.le_refl _, hy.trans hx, fun m hm hlt ↦ by omega, .inl rfl⟩
    · intro h
      obtain ⟨n, hn, hx, hnone, -⟩ := h
      obtain rfl | hlt := Nat.eq_or_lt_of_le hn
      · exact hy.symm.trans hx
      · rw [hnone count (Nat.le_refl _) hlt] at hy
        cases hy
  | case2 count hy hlt ih =>
    rw [createInterfaceLoop, hy]
    simp only [hlt, if_true, ih]
    refine ⟨?_, ?_⟩
    · intro h
      obtain ⟨n, hn, hx, hnone, hbound⟩ := h
      refine ⟨n, by omega, hx, fun m hm hmn ↦ ?_, .inr (by omega)⟩
      obtain rfl | hcm := Nat.eq_or_lt_of_le hm
      · exact hy
      · exact hnone m hcm hmn
    · intro h
      obtain ⟨n, hn, hx, hnone, hbound⟩ := h
      have hne : n ≠ count := fun he ↦ by
        rw [he, hy] at hx
        cases hx
      exact ⟨n, by omega, hx, fun m hm ↦ hnone m (by omega), by omega⟩
  | case3 count hy hge =>
    rw [createInterfaceLoop, hy]
    simp only [hge, if_false]
    refine ⟨?_, ?_⟩
    · intro h
      cases h
    · intro h
      obtain ⟨n, hn, hx, -, hbound⟩ := h
      have hne : n ≠ count := fun he ↦ by
        rw [he, hy] at hx
        cases hx
      omega

/-- The first interface among the attempts, of which there is always one. -/
theorem createInterface_eq_some {controller : Option S} {query : ℕ → Option I} {retry_count : ℤ}
    {x : I} : createInterface controller query retry_count = some x ↔ controller ≠ none ∧
      ∃ n, query n = some x ∧ (∀ m < n, query m = none) ∧ (n = 0 ∨ (n : ℤ) < retry_count) := by
  cases controller with
  | none => simp [createInterface]
  | some c => simp [createInterface, createInterfaceLoop_eq_some]

variable [DecidableEq I]

def count (interface : Option I) (x : I) : ℕ := if interface = some x then 1 else 0

@[simp]
theorem count_none (x : I) : count none x = 0 := rfl

def State.acquire (s : State I S) (interface : Option I) : State I S :=
  { s with acquired := fun x ↦ s.acquired x + count interface x }

def State.release (s : State I S) (interface : I) : State I S :=
  { s with released := fun x ↦ s.released x + count (some interface) x }

def Reset (s : State I S) (r : RefId) : State I S :=
  match (s.ref r).interface with
  | some interface => (s.release interface).clear r
  | none => s

def step (s : State I S) : Action I S → Option (State I S)
  | .construct r => if r ∈ s.live then none else some (s.add r .empty)
  | .adopt r interface controller =>
    if r ∈ s.live then none
    else some ((s.acquire interface).add r ⟨interface, controller⟩)
  | .moveConstruct r other =>
    if r ∉ s.live ∧ other ∈ s.live then
      some ((s.add r ⟨(s.ref other).interface, (s.ref other).service⟩).clear other)
    else none
  | .moveAssign r other =>
    if r ∈ s.live ∧ other ∈ s.live then some (moveAssign s r other) else none
  | .reset r => if r ∈ s.live then some (Reset s r) else none
  | .destroy r =>
    if r ∈ s.live then some { Reset s r with live := s.live.erase r } else none

inductive Performs (s : State I S) : Action I S → State I S → Prop
  | construct {r : RefId} : r ∉ s.live → Performs s (.construct r) (s.add r .empty)
  | adopt {r : RefId} {interface : Option I} {controller : Option S} : r ∉ s.live →
      Performs s (.adopt r interface controller)
        ((s.acquire interface).add r ⟨interface, controller⟩)
  | moveConstruct {r other : RefId} : r ∉ s.live → other ∈ s.live →
      Performs s (.moveConstruct r other)
        ((s.add r ⟨(s.ref other).interface, (s.ref other).service⟩).clear other)
  | moveAssign {r other : RefId} : r ∈ s.live → other ∈ s.live →
      Performs s (.moveAssign r other) (moveAssign s r other)
  | reset {r : RefId} : r ∈ s.live → Performs s (.reset r) (Reset s r)
  | destroy {r : RefId} : r ∈ s.live →
      Performs s (.destroy r) { Reset s r with live := s.live.erase r }

theorem step_performs {s s' : State I S} {a : Action I S} (h : step s a = some s') :
    Performs s a s' := by
  cases a with
  | construct r =>
    simp only [step] at h
    split_ifs at h with hr
    obtain rfl := Option.some.inj h
    exact .construct hr
  | adopt r interface controller =>
    simp only [step] at h
    split_ifs at h with hr
    obtain rfl := Option.some.inj h
    exact .adopt hr
  | moveConstruct r other =>
    simp only [step] at h
    split_ifs at h with hr
    obtain rfl := Option.some.inj h
    exact .moveConstruct hr.1 hr.2
  | moveAssign r other =>
    simp only [step] at h
    split_ifs at h with hr
    obtain rfl := Option.some.inj h
    exact .moveAssign hr.1 hr.2
  | reset r =>
    simp only [step] at h
    split_ifs at h with hr
    obtain rfl := Option.some.inj h
    exact .reset hr
  | destroy r =>
    simp only [step] at h
    split_ifs at h with hr
    obtain rfl := Option.some.inj h
    exact .destroy hr

def State.holders (s : State I S) (x : I) : ℕ :=
  (s.live.filter fun r ↦ (s.ref r).interface = some x).card

theorem holders_eq_sum (s : State I S) (x : I) :
    s.holders x = ∑ r ∈ s.live, count (s.ref r).interface x := by
  simp only [State.holders, count, Finset.card_filter]

theorem holders_setRef {s : State I S} {r : RefId} (hr : r ∈ s.live)
    (v : PluginInterfaceRef I S) (x : I) : (s.setRef r v).holders x + count (s.ref r).interface x =
      s.holders x + count v.interface x := by
  have hrest : ∑ d ∈ s.live.erase r, count (update s.ref r v d).interface x =
      ∑ d ∈ s.live.erase r, count (s.ref d).interface x :=
    Finset.sum_congr rfl fun d hd ↦ by rw [update_of_ne (Finset.ne_of_mem_erase hd)]
  rw [holders_eq_sum, holders_eq_sum]
  simp only [State.setRef]
  rw [← Finset.add_sum_erase _ _ hr, ← Finset.add_sum_erase _ _ hr, hrest, update_self]
  omega

theorem holders_add {s : State I S} {r : RefId} (hr : r ∉ s.live)
    (v : PluginInterfaceRef I S) (x : I) :
    (s.add r v).holders x = s.holders x + count v.interface x := by
  have hrest : ∑ d ∈ s.live, count (update s.ref r v d).interface x =
      ∑ d ∈ s.live, count (s.ref d).interface x :=
    Finset.sum_congr rfl fun d hd ↦ by rw [update_of_ne (ne_of_mem_of_not_mem hd hr)]
  rw [holders_eq_sum, holders_eq_sum]
  simp only [State.add]
  rw [Finset.sum_insert hr, hrest, update_self]
  omega

theorem holders_erase {s : State I S} {r : RefId} (hr : r ∈ s.live) (x : I) :
    State.holders { s with live := s.live.erase r } x + count (s.ref r).interface x =
      s.holders x := by
  rw [holders_eq_sum, holders_eq_sum, ← Finset.add_sum_erase _ _ hr]
  dsimp only
  omega

def State.leaked (s : State I S) (x : I) : ℤ := s.acquired x - s.released x - s.holders x

theorem leaked_setRef {s : State I S} {r : RefId} (hr : r ∈ s.live) (v : PluginInterfaceRef I S)
    (x : I) : (s.setRef r v).leaked x =
      s.leaked x + count (s.ref r).interface x - count v.interface x := by
  have h := holders_setRef hr v x
  change (s.acquired x : ℤ) - s.released x - (s.setRef r v).holders x = _
  rw [State.leaked]
  omega

theorem leaked_clear {s : State I S} {r : RefId} (hr : r ∈ s.live) (x : I) :
    (s.clear r).leaked x = s.leaked x + count (s.ref r).interface x := by
  rw [State.clear, leaked_setRef hr, count_none]
  omega

theorem leaked_add {s : State I S} {r : RefId} (hr : r ∉ s.live) (v : PluginInterfaceRef I S)
    (x : I) : (s.add r v).leaked x = s.leaked x - count v.interface x := by
  have h := holders_add hr v x
  change (s.acquired x : ℤ) - s.released x - (s.add r v).holders x = _
  rw [State.leaked]
  omega

theorem leaked_acquire (s : State I S) (interface : Option I) (x : I) :
    (s.acquire interface).leaked x = s.leaked x + count interface x := by
  change ((s.acquired x + count interface x : ℕ) : ℤ) - s.released x - s.holders x = _
  rw [State.leaked]
  omega

theorem leaked_release (s : State I S) (interface x : I) :
    (s.release interface).leaked x = s.leaked x - count (some interface) x := by
  change (s.acquired x : ℤ) - ((s.released x + count (some interface) x : ℕ) : ℤ) -
    s.holders x = _
  rw [State.leaked]
  omega

theorem reset_fields (s : State I S) (r : RefId) :
    (Reset s r).live = s.live ∧ ((Reset s r).ref r).interface = none := by
  unfold Reset
  split
  · simp [State.clear, State.setRef, State.release]
  · exact ⟨rfl, ‹_›⟩

theorem reset_leaked {s : State I S} {r : RefId} (hr : r ∈ s.live) (x : I) :
    (Reset s r).leaked x = s.leaked x := by
  unfold Reset
  split
  · rename_i y hy
    have hsame : ((s.release y).ref r).interface = some y := hy
    rw [leaked_clear (s := s.release y) hr, hsame, leaked_release]
    omega
  · rfl

theorem destroy_leaked {s : State I S} {r : RefId} (hr : r ∈ s.live) (x : I) :
    State.leaked { Reset s r with live := s.live.erase r } x = s.leaked x := by
  obtain ⟨hlive, hnone⟩ := reset_fields s r
  have h := holders_erase (s := Reset s r) (hlive ▸ hr) x
  rw [hlive, hnone, count_none] at h
  rw [← reset_leaked hr x, State.leaked, State.leaked, ← h]
  rfl

def overwritten (s : State I S) : Action I S → Option I
  | .moveAssign r other => if r ≠ other then (s.ref r).interface else none
  | .construct _ | .adopt .. | .moveConstruct .. | .reset _ | .destroy _ => none

theorem moveConstruct_leaked {s : State I S} {r other : RefId} (hr : r ∉ s.live)
    (ho : other ∈ s.live) (x : I) :
    ((s.add r ⟨(s.ref other).interface, (s.ref other).service⟩).clear other).leaked x =
      s.leaked x := by
  have hne : other ≠ r := ne_of_mem_of_not_mem ho hr
  have hsame : (s.add r ⟨(s.ref other).interface, (s.ref other).service⟩).ref other =
      s.ref other := update_of_ne hne _ _
  rw [leaked_clear (Finset.mem_insert_of_mem ho), hsame, leaked_add hr]
  exact Int.sub_add_cancel _ _

theorem moveAssign_leaked {s : State I S} {r other : RefId} (hr : r ∈ s.live)
    (ho : other ∈ s.live) (hne : r ≠ other) (x : I) :
    (moveAssign s r other).leaked x = s.leaked x + count (s.ref r).interface x := by
  have hsame : (s.setRef r { s.ref r with interface := (s.ref other).interface }).ref other =
      s.ref other := update_of_ne hne.symm _ _
  rw [moveAssign, if_pos hne, leaked_clear (s := s.setRef r _) ho, hsame, leaked_setRef hr]
  exact Int.sub_add_cancel _ _

/-- A step leaks exactly what it overwrites. -/
theorem step_leaked {s s' : State I S} {a : Action I S} (h : step s a = some s') (x : I) :
    s'.leaked x = s.leaked x + count (overwritten s a) x := by
  cases step_performs h with
  | construct hr =>
    rw [leaked_add hr]
    simp [PluginInterfaceRef.empty, overwritten]
  | @adopt r interface controller hr =>
    rw [leaked_add (s := s.acquire interface) hr, leaked_acquire]
    simp [overwritten]
  | moveConstruct hr ho => simp [moveConstruct_leaked hr ho, overwritten]
  | @moveAssign r other hr ho =>
    by_cases hne : r = other
    · simp [moveAssign, overwritten, hne]
    · rw [moveAssign_leaked hr ho hne, overwritten, if_pos hne]
  | reset hr => simp [reset_leaked hr, overwritten]
  | destroy hr => simp [destroy_leaked hr, overwritten]

theorem run_leaked {tr : List (Action I S)} {s : State I S} (h : Run step State.init tr s) (x : I) :
    0 ≤ s.leaked x ∧
      (s.leaked x = 0 ↔ Along step State.init (fun u a ↦ overwritten u a ≠ some x) tr) := by
  induction h with
  | nil => exact ⟨Int.le_refl 0, fun _ ↦ along_nil, fun _ ↦ rfl⟩
  | @snoc tr s s' a h hs ih =>
    obtain ⟨hpos, hzero⟩ := ih
    have hcount : count (overwritten s a) x = 0 ↔ overwritten s a ≠ some x := by simp [count]
    rw [along_snoc h, ← hzero, ← hcount, step_leaked hs x]
    omega

theorem reset_frame {s : State I S} {r p : RefId} (hp : p ≠ r) : (Reset s r).ref p = s.ref p := by
  unfold Reset
  split
  · exact update_of_ne hp _ _
  · rfl

theorem step_frame {s s' : State I S} {a : Action I S} {p : RefId} (h : step s a = some s')
    (hp : p ∈ s.live) (ha : p ∉ a.refs) : p ∈ s'.live ∧ s'.ref p = s.ref p := by
  cases step_performs h with
  | construct _ =>
    exact ⟨Finset.mem_insert_of_mem hp, update_of_ne (List.ne_of_not_mem_cons ha) _ _⟩
  | adopt _ => exact ⟨Finset.mem_insert_of_mem hp, update_of_ne (List.ne_of_not_mem_cons ha) _ _⟩
  | moveConstruct _ _ =>
    simp only [Action.refs, List.mem_pair, not_or] at ha
    exact ⟨Finset.mem_insert_of_mem hp, (update_of_ne ha.2 _ _).trans (update_of_ne ha.1 _ _)⟩
  | moveAssign _ _ =>
    simp only [Action.refs, List.mem_pair, not_or] at ha
    rw [(moveAssign_frame ha).1]
    exact ⟨hp, (moveAssign_frame ha).2⟩
  | @reset r _ =>
    rw [(reset_fields s r).1]
    exact ⟨hp, reset_frame (List.ne_of_not_mem_cons ha)⟩
  | destroy _ =>
    have hne := List.ne_of_not_mem_cons ha
    exact ⟨Finset.mem_erase.mpr ⟨hne, hp⟩, reset_frame hne⟩

structure Conserved (s : State I S) : Prop where
  balance : ∀ x, (s.acquired x : ℤ) - s.released x = s.holders x
  released_le : ∀ x, s.released x ≤ s.acquired x
  all_released : s.live = ∅ → ∀ x, s.released x = s.acquired x

theorem conserved_iff_leaked (s : State I S) : Conserved s ↔ ∀ x, s.leaked x = 0 := by
  refine ⟨?_, ?_⟩
  · intro hc x
    have hx := hc.balance x
    rw [State.leaked]
    omega
  · intro hl
    have hbalance : ∀ x, (s.acquired x : ℤ) - s.released x = s.holders x := fun x ↦ by
      have hx := hl x
      rw [State.leaked] at hx
      omega
    refine ⟨hbalance, fun x ↦ ?_, fun hlive x ↦ ?_⟩
    · have hx := hbalance x
      omega
    · have hx := hbalance x
      have hz : s.holders x = 0 := by simp [State.holders, hlive]
      omega

def NeverOverwrites (tr : List (Action I S)) : Prop :=
  Along step State.init (fun u a ↦ overwritten u a = none) tr

/-- References are conserved exactly as long as no ref that holds one is move assigned. -/
theorem conserved_iff_neverOverwrites (tr : List (Action I S)) (s : State I S)
    (h : Run step State.init tr s) : Conserved s ↔ NeverOverwrites tr := by
  rw [conserved_iff_leaked]
  refine ⟨?_, ?_⟩
  · intro hl pre a post u he hu
    rw [Option.eq_none_iff_forall_ne_some]
    exact fun x ↦ (run_leaked h x).2.mp (hl x) pre a post u he hu
  · intro hn x
    refine (run_leaked h x).2.mpr fun pre a post u he hu hsome ↦ ?_
    have hnone : overwritten u a = none := hn pre a post u he hu
    rw [hsome] at hnone
    cases hnone

def handover : List (Action ℕ Unit) :=
  [.adopt 0 (some 7) none, .moveConstruct 1 0, .destroy 0, .construct 2, .moveAssign 2 1,
    .moveAssign 2 2, .reset 1, .destroy 1, .destroy 2]

theorem conserved_iff_neverOverwrites_handover :
    ∃ s, Run step State.init handover s ∧ (Conserved s ↔ NeverOverwrites handover) := by
  obtain ⟨s, hs⟩ : ∃ s, Run step State.init handover s := exists_run (by decide)
  exact ⟨s, hs, conserved_iff_neverOverwrites handover s hs⟩

/-- The interface of the first ref is lost when the second is assigned to it. -/
theorem overwritten_not_released :
    ¬ ∀ (tr : List (Action ℕ Unit)) (s : State ℕ Unit), Run step State.init tr s → Conserved s := by
  intro hall
  let tr : List (Action ℕ Unit) := [.adopt 0 (some 7) none, .adopt 1 (some 8) none, .moveAssign 0 1]
  have h : ((tr.foldlM step State.init).map fun s ↦ s.leaked 7) = some 1 := by decide
  obtain ⟨s, hs, hleaked⟩ := Option.map_eq_some_iff.mp h
  have hc := hall tr s (run_iff_foldlM.mpr hs)
  rw [(conserved_iff_leaked s).mp hc 7] at hleaked
  cases hleaked

/-- What `CFrontPanel::instance` does for its static ref `p` when it gets a
service; `t` and `t'` are the temporaries. -/
def instance_ (p t t' : RefId) (service : S) (query : ℕ → Option I) : List (Action I S) :=
  [.adopt t (createInterface (some service) query 25) (some service), .moveConstruct t' t,
    .destroy t, .moveAssign p t', .destroy t']

/-- `instance` with no `Reset` before it leaks the interface that `p` still has. -/
theorem instance_leaked {s s' : State I S} {p t t' : RefId} {service : S}
    {query : ℕ → Option I} (hp : p ∈ s.live) (h : Run step s (instance_ p t t' service query) s')
    (x : I) : (s'.ref p).interface = createInterface (some service) query 25 ∧
      s'.leaked x = s.leaked x + count (s.ref p).interface x := by
  obtain ⟨s₁, h₁, h⟩ := run_cons.mp h
  obtain ⟨s₂, h₂, h⟩ := run_cons.mp h
  obtain ⟨s₃, h₃, h⟩ := run_cons.mp h
  obtain ⟨s₄, h₄, h⟩ := run_cons.mp h
  obtain ⟨s₅, h₅, h⟩ := run_cons.mp h
  obtain rfl := h.eq_of_nil
  have hpt : p ≠ t := fun he ↦ by simp [step, ← he, hp] at h₁
  obtain ⟨hp₁, hr₁⟩ := step_frame h₁ hp (by simp [Action.refs, hpt])
  have hpt' : p ≠ t' := fun he ↦ by simp [step, ← he, hp₁] at h₂
  have htt' : t' ≠ t := fun he ↦ by simp [step, he] at h₂
  obtain ⟨hp₂, hr₂⟩ := step_frame h₂ hp₁ (by simp [Action.refs, hpt, hpt'])
  obtain ⟨hp₃, hr₃⟩ := step_frame h₃ hp₂ (by simp [Action.refs, hpt])
  have hr : s₃.ref p = s.ref p := hr₃.trans (hr₂.trans hr₁)
  refine ⟨?_, ?_⟩
  · have ht₁ : (s₁.ref t).interface = createInterface (some service) query 25 := by
      cases step_performs h₁
      simp [State.add]
    have ht₂ : t' ∈ s₂.live ∧ (s₂.ref t').interface = createInterface (some service) query 25 := by
      cases step_performs h₂
      simp [State.add, State.clear, State.setRef, update_of_ne htt', ht₁]
    obtain ⟨ht₃, hrt⟩ := step_frame h₃ ht₂.1 (by simp [Action.refs, htt'])
    have hp₄ : p ∈ s₄.live ∧ (s₄.ref p).interface = createInterface (some service) query 25 := by
      cases step_performs h₄
      simp [moveAssign, State.clear, State.setRef, hpt', hp₃, hrt, ht₂.2]
    rw [(step_frame h₅ hp₄.1 (by simp [Action.refs, hpt'])).2, hp₄.2]
  · rw [step_leaked h₅, step_leaked h₄, step_leaked h₃, step_leaked h₂, step_leaked h₁]
    simp [overwritten, hpt', hr]

end Peripherals.PluginInterface
