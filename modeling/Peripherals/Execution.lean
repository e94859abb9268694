import Mathlib.Data.List.Basic

namespace Peripherals.Execution

variable {S A B : Type*} {step : S → A → Option S} {s₀ s s' t : S} {tr tr' : List A} {a : A}

/-- A finite execution of a partial step function from `s₀`, together with
the actions it took, oldest first. -/
inductive Run (step : S → A → Option S) (s₀ : S) : List A → S → Prop
  | nil : Run step s₀ [] s₀
  | snoc {tr : List A} {s s' : S} {a : A} :
      Run step s₀ tr s → step s a = some s' → Run step s₀ (tr ++ [a]) s'

theorem Run.one (h : step s a = some s') : Run step s [a] s' := .snoc .nil h

theorem Run.trans (h : Run step s₀ tr s) (h' : Run step s tr' t) : Run step s₀ (tr ++ tr') t := by
  induction h' with
  | nil => simpa only [List.append_nil] using h
  | snoc _ hs ih => simpa only [List.append_assoc] using Run.snoc ih hs

theorem Run.cons (hs : step s₀ a = some s) (h : Run step s tr t) : Run step s₀ (a :: tr) t :=
  (Run.one hs).trans h

/-- Executions are the successful folds of the step function, so a concrete
one can be computed. -/
theorem run_iff_foldlM : Run step s₀ tr s ↔ tr.foldlM step s₀ = some s := by
  refine ⟨?_, ?_⟩
  · intro h
    induction h with
    | nil => rfl
    | snoc _ hs ih =>
      rw [List.foldlM_append, ih]
      simpa using hs
  · intro h
    induction tr generalizing s₀ with
    | nil =>
      obtain rfl : s₀ = s := by simpa using h
      exact .nil
    | cons a tr ih =>
      rw [List.foldlM_cons] at h
      obtain ⟨m, hm, h⟩ := Option.bind_eq_some_iff.mp h
      exact .cons hm (ih h)

theorem exists_run (h : (tr.foldlM step s₀).isSome = true) : ∃ s, Run step s₀ tr s := by
  obtain ⟨s, hs⟩ := Option.isSome_iff_exists.mp h
  exact ⟨s, run_iff_foldlM.mpr hs⟩

theorem Run.eq_of_nil (h : Run step s₀ [] s) : s = s₀ := by
  simpa using (run_iff_foldlM.mp h).symm

theorem Run.functional (h : Run step s₀ tr s) (h' : Run step s₀ tr t) : s = t :=
  Option.some.inj ((run_iff_foldlM.mp h).symm.trans (run_iff_foldlM.mp h'))

theorem run_append : Run step s₀ (tr ++ tr') t ↔ ∃ s, Run step s₀ tr s ∧ Run step s tr' t := by
  refine ⟨?_, ?_⟩
  · intro h
    rw [run_iff_foldlM, List.foldlM_append] at h
    obtain ⟨s, hs, ht⟩ := Option.bind_eq_some_iff.mp h
    exact ⟨s, run_iff_foldlM.mpr hs, run_iff_foldlM.mpr ht⟩
  · intro h
    obtain ⟨s, hs, ht⟩ := h
    exact hs.trans ht

theorem run_cons : Run step s₀ (a :: tr) t ↔ ∃ s, step s₀ a = some s ∧ Run step s tr t := by
  refine ⟨?_, ?_⟩
  · intro h
    rw [run_iff_foldlM, List.foldlM_cons] at h
    obtain ⟨s, hs, ht⟩ := Option.bind_eq_some_iff.mp h
    exact ⟨s, hs, run_iff_foldlM.mpr ht⟩
  · intro h
    obtain ⟨s, hs, ht⟩ := h
    exact .cons hs ht

theorem Run.split {pre post : List A} (h : Run step s₀ (pre ++ a :: post) t) :
    ∃ s s', Run step s₀ pre s ∧ step s a = some s' ∧ Run step s' post t := by
  obtain ⟨s, hs, h⟩ := run_append.mp h
  obtain ⟨s', hs', h⟩ := run_cons.mp h
  exact ⟨s, s', hs, hs', h⟩

/-- The action after a prefix is taken in the state that the prefix ends in. -/
theorem Run.step_at {pre post : List A} (h : Run step s₀ (pre ++ a :: post) t)
    (hpre : Run step s₀ pre s) : ∃ s', step s a = some s' := by
  obtain ⟨u, u', hu, hs, -⟩ := h.split
  obtain rfl := hu.functional hpre
  exact ⟨u', hs⟩

theorem Run.invariant {I : S → Prop} (h : Run step s₀ tr s) (init : I s₀)
    (pres : ∀ s a s', I s → step s a = some s' → I s') : I s := by
  induction h with
  | nil => exact init
  | snoc _ hs ih => exact pres _ _ _ ih hs

theorem Run.invariant_of_forall {I : S → Prop} {Q : A → Prop} (h : Run step s₀ tr s)
    (hQ : ∀ a ∈ tr, Q a) (init : I s₀)
    (pres : ∀ s a s', I s → Q a → step s a = some s' → I s') : I s := by
  induction h with
  | nil => exact init
  | snoc _ hs ih =>
    simp only [List.forall_mem_append, List.forall_mem_singleton] at hQ
    exact pres _ _ _ (ih hQ.1) hQ.2 hs

/-- The rule for facts about a state and the actions that led to it. -/
theorem Run.history {P : List A → S → Prop} (h : Run step s₀ tr s) (init : P [] s₀)
    (pres : ∀ tr s a s', Run step s₀ tr s → P tr s → step s a = some s' → P (tr ++ [a]) s') :
    P tr s := by
  induction h with
  | nil => exact init
  | snoc h hs ih => exact pres _ _ _ _ h ih hs

theorem Run.monotone {m : S → ℕ} (h : Run step s₀ tr s)
    (mono : ∀ s a s', step s a = some s' → m s ≤ m s') : m s₀ ≤ m s :=
  h.invariant (I := fun s ↦ m s₀ ≤ m s) (Nat.le_refl _) fun _ _ _ hle hs ↦
    Nat.le_trans hle (mono _ _ _ hs)

/-- Actions that all raise a rising measure past the same level do not recur. -/
theorem Run.once {m : S → ℕ} {Q : A → Prop} {k : ℕ} {pre post : List A}
    (mono : ∀ s a s', step s a = some s' → m s ≤ m s')
    (level : ∀ s a s', Q a → step s a = some s' → m s ≤ k ∧ k < m s')
    (h : Run step s₀ (pre ++ a :: post) t) (ha : Q a) : ∀ b ∈ post, ¬ Q b := by
  intro b hb hQ
  obtain ⟨mid, rest, rfl⟩ := List.append_of_mem hb
  obtain ⟨s, s', -, hs, h⟩ := h.split
  obtain ⟨u, u', hu, hs', -⟩ := h.split
  have hlow := (level _ _ _ ha hs).2
  have hle := hu.monotone mono
  have hhigh := (level _ _ _ hQ hs').1
  omega

theorem Run.split_unique {m : S → ℕ} {Q : A → Prop} {k : ℕ} {pre post pre' post' : List A}
    {a' : A} (mono : ∀ s a s', step s a = some s' → m s ≤ m s')
    (level : ∀ s a s', Q a → step s a = some s' → m s ≤ k ∧ k < m s')
    (h : Run step s₀ (pre ++ a :: post) t) (he : pre ++ a :: post = pre' ++ a' :: post')
    (ha : Q a) (ha' : Q a') : pre = pre' ∧ a = a' ∧ post = post' := by
  have hnot := h.once mono level ha
  have hnot' := (he ▸ h).once mono level ha'
  rcases List.append_eq_append_iff.mp he with ⟨l, rfl, hl⟩ | ⟨l, rfl, hl⟩
  · cases l with
    | nil => simpa using hl
    | cons x l =>
      obtain ⟨rfl, rfl⟩ := List.cons.inj hl
      exact (hnot a' (by simp) ha').elim
  · cases l with
    | nil => simpa [eq_comm] using hl
    | cons x l =>
      obtain ⟨rfl, rfl⟩ := List.cons.inj hl
      exact (hnot' a (by simp) ha).elim

theorem snoc_eq_split {pre post : List A} {b : A} (h : tr ++ [a] = pre ++ b :: post) :
    (pre = tr ∧ b = a ∧ post = []) ∨ ∃ l, post = l ++ [a] ∧ tr = pre ++ b :: l := by
  rcases List.eq_nil_or_concat post with rfl | ⟨l, c, rfl⟩
  · obtain ⟨hpre, hb⟩ := List.append_inj' h rfl
    exact .inl ⟨hpre.symm, (List.singleton_inj.mp hb).symm, rfl⟩
  · have h' : tr ++ [a] = (pre ++ b :: l) ++ [c] := by simpa using h
    obtain ⟨hpre, hc⟩ := List.append_inj' h' rfl
    exact .inr ⟨l, by rw [List.singleton_inj.mp hc]; simp, hpre⟩

/-- Every action of the trace satisfies `P` at the state it is taken in. -/
def Along (step : S → A → Option S) (s₀ : S) (P : S → A → Prop) (tr : List A) : Prop :=
  ∀ pre a post u, tr = pre ++ a :: post → Run step s₀ pre u → P u a

theorem along_nil {P : S → A → Prop} : Along step s₀ P [] := fun pre a post _ he ↦
  (List.append_ne_nil_of_right_ne_nil pre (List.cons_ne_nil a post) he.symm).elim

theorem along_snoc {P : S → A → Prop} (h : Run step s₀ tr s) :
    Along step s₀ P (tr ++ [a]) ↔ Along step s₀ P tr ∧ P s a := by
  refine ⟨?_, ?_⟩
  · intro hall
    refine ⟨fun pre b post u he ↦ hall pre b (post ++ [a]) u (by simp [he]), ?_⟩
    exact hall tr a [] s rfl h
  · intro hboth pre b post u he hu
    obtain ⟨hall, ha⟩ := hboth
    rcases snoc_eq_split he with ⟨rfl, rfl, -⟩ | ⟨l, -, hl⟩
    · rwa [hu.functional h]
    · exact hall pre b l u hl hu

/-- A property of the steps that the trace before them determines. -/
theorem along_iff {P : S → A → Prop} {Q : List A → A → Prop} (h : Run step s₀ tr t)
    (hiff : ∀ {pre a s s'}, Run step s₀ pre s → step s a = some s' → (P s a ↔ Q pre a)) :
    Along step s₀ P tr ↔ ∀ pre a post, tr = pre ++ a :: post → Q pre a := by
  refine ⟨?_, ?_⟩
  · intro hall pre a post he
    subst he
    obtain ⟨s, s', hpre, hs, -⟩ := h.split
    exact (hiff hpre hs).mp (hall pre a post s rfl hpre)
  · intro hall pre a post s he hpre
    subst he
    obtain ⟨s', hs⟩ := h.step_at hpre
    exact (hiff hpre hs).mpr (hall pre a post rfl)

/-- The newest value that `f` reads off an execution's actions. -/
def latest (f : A → Option B) (tr : List A) : Option B := tr.reverse.findSome? f

variable {f : A → Option B}

@[simp] theorem latest_nil : latest f [] = none := rfl

theorem latest_append : latest f (tr ++ tr') = (latest f tr').or (latest f tr) := by
  simp [latest, List.findSome?_append]

@[simp] theorem latest_snoc : latest f (tr ++ [a]) = (f a).or (latest f tr) := by
  rw [latest_append]
  simp [latest, List.findSome?_cons]
  cases f a <;> rfl

theorem latest_eq_none : latest f tr = none ↔ ∀ a ∈ tr, f a = none := by
  simp [latest, List.findSome?_eq_none_iff]

theorem latest_eq_some {v : B} : latest f tr = some v ↔
    ∃ pre a post, tr = pre ++ a :: post ∧ f a = some v ∧ ∀ b ∈ post, f b = none := by
  refine ⟨?_, ?_⟩
  · intro h
    obtain ⟨l₁, a, l₂, hl, ha, hnone⟩ := List.findSome?_eq_some_iff.mp h
    refine ⟨l₂.reverse, a, l₁.reverse, ?_, ha, by simpa using hnone⟩
    rw [← List.reverse_reverse tr, hl]
    simp
  · intro h
    obtain ⟨pre, a, post, rfl, ha, hnone⟩ := h
    rw [latest_append, ← List.singleton_append, latest_append, latest_eq_none.mpr hnone]
    simp [latest, ha]

/-- A value that every step sets to what `f` reads off the action, or keeps. -/
theorem Run.eq_latest {v : S → B} (h : Run step s₀ tr s)
    (hstep : ∀ s a s', step s a = some s' → v s' = (f a).getD (v s)) :
    v s = (latest f tr).getD (v s₀) := by
  induction h with
  | nil => rfl
  | @snoc tr s s' a _ hs ih =>
    rw [hstep _ _ _ hs, ih, latest_snoc]
    cases f a <;> rfl

end Peripherals.Execution
