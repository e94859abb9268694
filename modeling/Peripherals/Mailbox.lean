import Peripherals.Execution
import Mathlib.Logic.Function.Basic
import Mathlib.Tactic.Common

namespace Peripherals.Mailbox

open Function Execution

/-- What one action means for a set of mailboxes. An owner acquires a box for
a key, releases it, and anybody delivers a value to a key. -/
inductive Event (O K V : Type*)
  | acquire (o : O) (k : K)
  | release (o : O) (k : K)
  | deliver (k : K) (v : V)
  | other

/-- The box of each owner, with its key and the first value delivered to it. -/
abbrev Boxes (O K V : Type*) := O → Option (K × Option V)

variable {A O K V : Type*} {kind : A → Event O K V} {σ σ' : Boxes O K V} {tr : List A} {a : A}
  {o : O} {k : K} {v : Option V}

def Taken (σ : Boxes O K V) (k : K) : Prop := ∃ o v, σ o = some (k, v)

def Filled (σ : Boxes O K V) (k : K) : Prop := ∃ o v, σ o = some (k, some v)

def Exclusive (σ : Boxes O K V) : Prop :=
  ∀ o o' k v v', σ o = some (k, v) → σ o' = some (k, v') → o = o'

variable [DecidableEq K]

def deliver (σ : Boxes O K V) (k : K) (v : V) : Boxes O K V :=
  fun o ↦ (σ o).map fun box ↦ (box.1, if box.1 = k then box.2.or (some v) else box.2)

def Event.toKey (k : K) : Event O K V → Option V
  | .deliver k' v => if k = k' then some v else none
  | _ => none

/-- A delivery is refused when the box of its key already holds a value. -/
def Refused (σ : Boxes O K V) (e : Event O K V) : Prop :=
  ∃ k v, e = .deliver k v ∧ Filled σ k

/-- Between an acquire of a key and the next release of the key at most one
value is delivered to it. -/
def DeliveredOnce (kind : A → Event O K V) (tr : List A) : Prop :=
  ∀ o k pre a mid post, tr = pre ++ a :: (mid ++ post) → kind a = .acquire o k →
    (∀ b ∈ mid, ∀ o', kind b ≠ .release o' k) →
      (mid.filterMap fun b ↦ (kind b).toKey k).length ≤ 1

theorem DeliveredOnce.prefix {tr' : List A} (h : DeliveredOnce kind (tr ++ tr')) :
    DeliveredOnce kind tr := by
  intro o k pre a mid post he
  exact h o k pre a mid (post ++ tr') (by simp [he])

theorem toKey_eq_some {e : Event O K V} {v : V} : e.toKey k = some v ↔ e = .deliver k v := by
  cases e with
  | deliver k' w =>
    by_cases hk : k = k'
    · subst k'; simp [Event.toKey]
    · simp [Event.toKey, hk, Ne.symm hk]
  | _ => simp [Event.toKey]

theorem exists_two_deliveries {mid : List A}
    (h : 1 < (mid.filterMap fun b ↦ (kind b).toKey k).length) :
    ∃ m₁ x m₂ y m₃ v w, mid = m₁ ++ x :: (m₂ ++ y :: m₃) ∧ kind x = .deliver k v ∧
      kind y = .deliver k w := by
  match hm : mid.filterMap fun b ↦ (kind b).toKey k with
  | [] => simp [hm] at h
  | [_] => simp [hm] at h
  | v :: w :: rest =>
    obtain ⟨m₁, x, rest', rfl, -, hx, hrest⟩ := List.filterMap_eq_cons_iff.mp hm
    obtain ⟨m₂, y, m₃, rfl, -, hy, -⟩ := List.filterMap_eq_cons_iff.mp hrest
    exact ⟨m₁, x, m₂, y, m₃, v, w, rfl, toKey_eq_some.mp hx, toKey_eq_some.mp hy⟩

variable [DecidableEq O]

open Classical in
noncomputable def step (kind : A → Event O K V) (σ : Boxes O K V) (a : A) :
    Option (Boxes O K V) :=
  match kind a with
  | .acquire o k =>
    if σ o ≠ none then none
    else if Taken σ k then some σ
    else some (update σ o (some (k, none)))
  | .release o k => if ∃ v, σ o = some (k, v) then some (update σ o none) else none
  | .deliver k v => some (deliver σ k v)
  | .other => some σ

theorem step_box (h : step kind σ a = some σ') (ho : σ' o = some (k, v)) :
    (∃ w, σ o = some (k, w) ∧ (∀ k', kind a ≠ .release o k') ∧ v = w.or ((kind a).toKey k)) ∨
      (σ o = none ∧ kind a = .acquire o k ∧ v = none ∧ ¬ Taken σ k) := by
  unfold step at h
  split at h
  case h_1 p j he =>
    split_ifs at h with hp ht <;> obtain rfl := Option.some.inj h
    · exact .inl ⟨v, ho, by simp [he], by simp [he, Event.toKey]⟩
    · by_cases hop : o = p
      · subst o
        simp only [update_self, Option.some.injEq, Prod.mk.injEq] at ho
        obtain ⟨rfl, rfl⟩ := ho
        exact .inr ⟨not_not.mp hp, he, rfl, ht⟩
      · rw [update_of_ne hop] at ho
        exact .inl ⟨v, ho, by simp [he], by simp [he, Event.toKey]⟩
  case h_2 p j he =>
    split_ifs at h with hp
    obtain rfl := Option.some.inj h
    by_cases hop : o = p
    · subst o
      simp at ho
    · rw [update_of_ne hop] at ho
      exact .inl ⟨v, ho, by simp [he, Ne.symm hop], by simp [he, Event.toKey]⟩
  case h_3 j u he =>
    obtain rfl := Option.some.inj h
    obtain ⟨⟨j', w⟩, hw, hv⟩ := Option.map_eq_some_iff.mp ho
    obtain ⟨rfl, rfl⟩ := Prod.mk.inj hv
    refine .inl ⟨w, hw, by simp [he], ?_⟩
    by_cases hj : j' = j
    · simp [he, Event.toKey, hj]
    · simp [he, Event.toKey, hj]
  case h_4 he =>
    obtain rfl := Option.some.inj h
    exact .inl ⟨v, ho, by simp [he], by simp [he, Event.toKey]⟩

theorem step_exclusive (h : step kind σ a = some σ') (hx : Exclusive σ) : Exclusive σ' := by
  intro o o' k v v' ho ho'
  rcases step_box h ho with ⟨w, hw, -⟩ | ⟨hn, he, -, ht⟩
  · rcases step_box h ho' with ⟨w', hw', -⟩ | ⟨-, -, -, ht'⟩
    · exact hx _ _ _ _ _ hw hw'
    · exact (ht' ⟨o, w, hw⟩).elim
  · rcases step_box h ho' with ⟨w', hw', -⟩ | ⟨-, he', -⟩
    · exact (ht ⟨o', w', hw'⟩).elim
    · rw [he] at he'
      exact (Event.acquire.inj he').1

theorem run_exclusive (h : Run (step kind) (fun _ ↦ none) tr σ) : Exclusive σ := by
  refine h.invariant ?_ fun σ a σ' hx hs ↦ step_exclusive hs hx
  intro o o' k v v' ho
  cases ho

theorem step_release (h : step kind σ a = some σ') (he : kind a = .release o k) :
    ∃ v, σ o = some (k, v) := by
  simp only [step, he] at h
  split_ifs at h with hv
  exact hv

/-- The history of an open box. It was acquired, nobody has released its key
since, and it holds the first value delivered to the key since. -/
theorem run_box (h : Run (step kind) (fun _ ↦ none) tr σ) (ho : σ o = some (k, v)) :
    ∃ pre a mid, tr = pre ++ a :: mid ∧ kind a = .acquire o k ∧
      (∀ b ∈ mid, ∀ o', kind b ≠ .release o' k) ∧ v = mid.findSome? fun b ↦ (kind b).toKey k := by
  suffices hall : ∀ o k v, σ o = some (k, v) → ∃ pre a mid, tr = pre ++ a :: mid ∧
      kind a = .acquire o k ∧ (∀ b ∈ mid, ∀ o', kind b ≠ .release o' k) ∧
      v = mid.findSome? fun b ↦ (kind b).toKey k from hall o k v ho
  refine h.history (P := fun tr σ ↦ ∀ o k v, σ o = some (k, v) → ∃ pre a mid,
    tr = pre ++ a :: mid ∧ kind a = .acquire o k ∧ (∀ b ∈ mid, ∀ o', kind b ≠ .release o' k) ∧
      v = mid.findSome? fun b ↦ (kind b).toKey k) ?_ ?_
  · intro o k v ho
    cases ho
  · intro tr σ x σ' hr ih hs o k v ho
    rcases step_box hs ho with ⟨w, hw, hrel, hv⟩ | ⟨-, he, hv, -⟩
    · obtain ⟨pre, a, mid, rfl, ha, hmid, hfirst⟩ := ih o k w hw
      refine ⟨pre, a, mid ++ [x], by simp, ha, ?_, ?_⟩
      · simp only [List.forall_mem_append, List.forall_mem_singleton]
        refine ⟨hmid, fun o' he ↦ ?_⟩
        obtain ⟨u, hu⟩ := step_release hs he
        obtain rfl : o' = o := run_exclusive hr _ _ _ _ _ hu hw
        exact hrel k he
      · rw [hv, hfirst, List.findSome?_append]
        simp [List.findSome?_cons]
        cases (kind x).toKey k <;> rfl
    · exact ⟨tr, x, [], rfl, he, by simp, by simpa using hv⟩

theorem step_kept (h : step kind σ a = some σ') (ho : σ o = some (k, v))
    (hrel : kind a ≠ .release o k) : σ' o = some (k, v.or ((kind a).toKey k)) := by
  unfold step at h
  split at h
  case h_1 p j he =>
    split_ifs at h with hp ht <;> obtain rfl := Option.some.inj h
    · simpa [he, Event.toKey] using ho
    · have hop : o ≠ p := by
        intro he
        subst he
        exact hp (by simp [ho])
      rw [update_of_ne hop]
      simpa [he, Event.toKey] using ho
  case h_2 p j he =>
    split_ifs at h with hp
    obtain rfl := Option.some.inj h
    obtain ⟨w, hw⟩ := hp
    have hop : o ≠ p := by
      intro he
      subst he
      obtain ⟨rfl, -⟩ := Prod.mk.inj (Option.some.inj (ho.symm.trans hw))
      exact hrel he
    rw [update_of_ne hop]
    simpa [he, Event.toKey] using ho
  case h_3 j u he =>
    obtain rfl := Option.some.inj h
    by_cases hj : k = j <;> simp [deliver, ho, he, Event.toKey, hj]
  case h_4 he =>
    obtain rfl := Option.some.inj h
    simpa [he, Event.toKey] using ho

theorem run_taken (h : Run (step kind) σ tr σ') (hk : Taken σ k)
    (hrel : ∀ a ∈ tr, ∀ o, kind a ≠ .release o k) : Taken σ' k := by
  refine h.invariant_of_forall (I := (Taken · k)) hrel hk ?_
  intro σ a σ' htaken ha hs
  obtain ⟨o, v, ho⟩ := htaken
  exact ⟨o, _, step_kept hs ho (ha o)⟩

theorem run_filled (h : Run (step kind) σ tr σ') (hk : Filled σ k)
    (hrel : ∀ a ∈ tr, ∀ o, kind a ≠ .release o k) : Filled σ' k := by
  refine h.invariant_of_forall (I := (Filled · k)) hrel hk ?_
  intro σ a σ' hfilled ha hs
  obtain ⟨o, v, ho⟩ := hfilled
  exact ⟨o, v, by simpa using step_kept hs ho (ha o)⟩

theorem step_acquire (h : step kind σ a = some σ') (he : kind a = .acquire o k) :
    Taken σ' k := by
  simp only [step, he] at h
  split_ifs at h with hp ht <;> obtain rfl := Option.some.inj h
  · exact ht
  · exact ⟨o, none, by simp⟩

theorem step_deliver {v : V} (h : step kind σ a = some σ') (he : kind a = .deliver k v)
    (hk : Taken σ k) : Filled σ' k := by
  obtain ⟨o, w, ho⟩ := hk
  have h' := step_kept h ho (by simp [he])
  cases w with
  | none => exact ⟨o, v, by simpa [he, Event.toKey] using h'⟩
  | some w => exact ⟨o, w, by simpa using h'⟩

theorem not_refused_of_deliveredOnce (h : Run (step kind) (fun _ ↦ none) tr σ)
    (hd : DeliveredOnce kind (tr ++ [a])) : ¬ Refused σ (kind a) := by
  intro hrefused
  obtain ⟨k, w, he, o, v, ho⟩ := hrefused
  obtain ⟨pre, b, mid, rfl, hb, hrel, hfirst⟩ := run_box h ho
  have hle := hd o k pre b (mid ++ [a]) [] (by simp) hb (by
    simp only [List.forall_mem_append, List.forall_mem_singleton]
    exact ⟨hrel, by simp [he]⟩)
  have hpos : 0 < (mid.filterMap fun b ↦ (kind b).toKey k).length := by
    obtain ⟨x, hx, hv⟩ := List.exists_of_findSome?_eq_some hfirst.symm
    exact List.length_pos_of_mem (List.mem_filterMap.mpr ⟨x, hx, hv⟩)
  have hone : ([a].filterMap fun b ↦ (kind b).toKey k) = [w] := by simp [he, Event.toKey]
  rw [List.filterMap_append, hone, List.length_append, List.length_singleton] at hle
  omega

/-- An execution refuses no delivery exactly when its actions deliver at most
once between an acquire and the next release. -/
theorem deliveredOnce_iff (h : Run (step kind) (fun _ ↦ none) tr σ) :
    DeliveredOnce kind tr ↔
      ∀ pre a post τ, tr = pre ++ a :: post → Run (step kind) (fun _ ↦ none) pre τ →
        ¬ Refused τ (kind a) := by
  refine ⟨?_, ?_⟩
  · intro hd pre a post τ he hr
    subst he
    have hd' : DeliveredOnce kind ((pre ++ [a]) ++ post) := by simpa using hd
    exact not_refused_of_deliveredOnce hr hd'.prefix
  · intro hnone o k pre a mid post he ha hrel
    by_contra hlt
    obtain ⟨m₁, x, m₂, y, m₃, v, w, rfl, hx, hy⟩ := exists_two_deliveries (Nat.lt_of_not_le hlt)
    simp only [List.append_assoc, List.cons_append] at he
    subst he
    simp only [List.forall_mem_append, List.forall_mem_cons] at hrel
    obtain ⟨hrel₁, -, hrel₂, -, -⟩ := hrel
    obtain ⟨σ₀, σ₁, h₀, hs₀, h⟩ := h.split
    obtain ⟨σ₂, σ₃, h₂, hs₂, h⟩ := h.split
    obtain ⟨σ₄, σ₅, h₄, -, -⟩ := h.split
    have ht : Taken σ₂ k := run_taken h₂ (step_acquire hs₀ ha) hrel₁
    have hf : Filled σ₄ k := run_filled h₄ (step_deliver hs₂ hx ht) hrel₂
    refine hnone (pre ++ a :: (m₁ ++ x :: m₂)) y (m₃ ++ post) σ₄ (by simp) ?_
      ⟨k, w, hy, hf⟩
    exact h₀.trans (.cons hs₀ (h₂.trans (.cons hs₂ h₄)))

end Peripherals.Mailbox
