import Mathlib.Data.List.Basic

namespace Peripherals.Attempt

variable {σ α β ι : Type} {s : σ} {Q Q' : α → σ → Prop} {R : β → σ → Prop} {E E' : σ → Prop}

/-- From the state `s` the block ends with a result and a state in `Q`, or
throws in a state in `E`. -/
def wp (x : OptionT (StateM σ) α) (Q : α → σ → Prop) (E : σ → Prop) (s : σ) : Prop :=
  match x.run s with
  | (some a, s') => Q a s'
  | (none, s') => E s'

variable {x : OptionT (StateM σ) α} {f : α → OptionT (StateM σ) β}

theorem run_bind : (x >>= f).run s = match x.run s with
    | (some a, s') => (f a).run s'
    | (none, s') => (none, s') := by
  have hbind : (x >>= f).run s = (fun r : Option α × σ ↦ (match r.1 with
    | some a => (f a).run
    | none => pure none : StateM σ (Option β)) r.2) (x.run s) := rfl
  rw [hbind]
  rcases x.run s with ⟨_ | a, s'⟩ <;> rfl

@[simp] theorem wp_pure (a : α) : wp (pure a) Q E s ↔ Q a s := Iff.rfl

@[simp] theorem wp_bind : wp (x >>= f) R E s ↔ wp x (fun a s' ↦ wp (f a) R E s') E s := by
  unfold wp
  rw [run_bind]
  rcases x.run s with ⟨_ | a, s'⟩ <;> rfl

@[simp] theorem wp_get {Q : σ → σ → Prop} : wp (get : OptionT (StateM σ) σ) Q E s ↔ Q s s :=
  Iff.rfl

@[simp] theorem wp_modify {Q : PUnit → σ → Prop} (g : σ → σ) :
    wp (modify g : OptionT (StateM σ) PUnit) Q E s ↔ Q ⟨⟩ (g s) := Iff.rfl

@[simp] theorem wp_ite {c : Prop} [Decidable c] {y : OptionT (StateM σ) α} :
    wp (if c then x else y) Q E s ↔ if c then wp x Q E s else wp y Q E s := by
  split <;> rfl

theorem wp_mono (hQ : ∀ a s', Q a s' → Q' a s') (hE : ∀ s', E s' → E' s') (h : wp x Q E s) :
    wp x Q' E' s := by
  unfold wp at h ⊢
  rcases hx : x.run s with ⟨_ | a, s'⟩
  · rw [hx] at h
    exact hE s' h
  · rw [hx] at h
    exact hQ a s' h

/-- A property of the state that a block keeps however it ends. -/
theorem wp_final {P : σ → Prop} (h : wp x (fun _ s' ↦ P s') P s) : P (x.run s).2 := by
  unfold wp at h
  rcases hx : x.run s with ⟨_ | a, s'⟩
  · rwa [hx] at h
  · rwa [hx] at h

/-- A loop without an early exit keeps an invariant that knows which elements have
been gone through. -/
theorem wp_forIn {l : List ι} {body : ι → PUnit → OptionT (StateM σ) (ForInStep PUnit)}
    {I : List ι → σ → Prop} (start : I [] s)
    (hstep : ∀ pre i post s, l = pre ++ i :: post → I pre s →
      wp (body i ⟨⟩) (fun r s' ↦ r = .yield ⟨⟩ ∧ I (pre ++ [i]) s') E s) :
    wp (forIn l ⟨⟩ body) (fun _ s' ↦ I l s') E s := by
  suffices hrest : ∀ rest pre s, l = pre ++ rest → I pre s →
      wp (forIn rest ⟨⟩ body) (fun _ s' ↦ I l s') E s from hrest l [] s rfl start
  intro rest
  induction rest with
  | nil =>
    intro pre s hl hpre
    rw [List.append_nil] at hl
    rw [List.forIn_nil, wp_pure, hl]
    exact hpre
  | cons i rest ih =>
    intro pre s hl hpre
    simp only [List.forIn_cons, wp_bind]
    apply wp_mono _ (fun _ h ↦ h) (hstep pre i rest s hl hpre)
    intro r s' hr
    obtain ⟨rfl, hs'⟩ := hr
    exact ih (pre ++ [i]) s' (by simp [hl]) hs'

section Faults

variable {clock : σ → ℕ} {faults : ℕ → Bool} {n b c j : ℕ}

/-- Of the calls from the number `n` on, the one after `j` others is the first that throws. -/
def FirstFault (faults : ℕ → Bool) (n j : ℕ) : Prop :=
  (∀ i < j, faults (n + i) = false) ∧ faults (n + j) = true

/-- The block makes `c` calls, which the clock counts. The call with the number
`i` throws if `faults i`, and it is the last one then. -/
def Makes (clock : σ → ℕ) (faults : ℕ → Bool) (x : OptionT (StateM σ) α) (c : ℕ) : Prop :=
  ∀ s, wp x
    (fun _ s' ↦ (∀ i < c, faults (clock s + i) = false) ∧ clock s' = clock s + c)
    (fun s' ↦ ∃ j < c, FirstFault faults (clock s) j ∧ clock s' = clock s + j + 1) s

theorem exists_firstFault (h : ¬ ∀ i < c, faults (n + i) = false) :
    ∃ j < c, FirstFault faults n j := by
  induction c with
  | zero => exact (h fun i hi ↦ (Nat.not_lt_zero i hi).elim).elim
  | succ c ih =>
    by_cases hc : ∀ i < c, faults (n + i) = false
    · refine ⟨c, Nat.lt_succ_self c, hc, ?_⟩
      by_contra hlast
      apply h
      intro i hi
      rcases Nat.lt_succ_iff_lt_or_eq.mp hi with hlt | rfl
      · exact hc i hlt
      · exact Bool.eq_false_iff.mpr hlast
    · obtain ⟨j, hj, hfirst⟩ := ih hc
      exact ⟨j, Nat.lt_succ_of_lt hj, hfirst⟩

theorem FirstFault.not_all (h : FirstFault faults n j) (hj : j < c) :
    ¬ ∀ i < c, faults (n + i) = false := by
  intro hall
  have hfault := h.2
  rw [hall j hj] at hfault
  cases hfault

theorem faultless_add (hb : ∀ i < b, faults (n + i) = false)
    (hc : ∀ i < c, faults (n + b + i) = false) : ∀ i < b + c, faults (n + i) = false := by
  intro i hi
  by_cases hib : i < b
  · exact hb i hib
  · have hi' := hc (i - b) (by omega)
    have heq : n + b + (i - b) = n + i := by omega
    rwa [heq] at hi'

theorem FirstFault.after (hb : ∀ i < b, faults (n + i) = false)
    (h : FirstFault faults (n + b) j) : FirstFault faults n (b + j) := by
  refine ⟨faultless_add hb h.1, ?_⟩
  rw [← Nat.add_assoc]
  exact h.2

theorem makes_pure (a : α) : Makes clock faults (pure a : OptionT (StateM σ) α) 0 := by
  intro s
  exact ⟨fun i hi ↦ (Nat.not_lt_zero i hi).elim, rfl⟩

theorem Makes.bind (hx : Makes clock faults x b) (hf : ∀ a, Makes clock faults (f a) c) :
    Makes clock faults (x >>= f) (b + c) := by
  intro s
  rw [wp_bind]
  apply wp_mono _ _ (hx s)
  · intro a s' hs'
    obtain ⟨hbefore, hclock⟩ := hs'
    apply wp_mono _ _ (hf a s')
    · intro _ s'' hs''
      obtain ⟨hafter, hclock'⟩ := hs''
      rw [hclock] at hafter hclock'
      exact ⟨faultless_add hbefore hafter, by omega⟩
    · intro s'' hs''
      obtain ⟨j, hj, hfirst, hclock'⟩ := hs''
      rw [hclock] at hfirst hclock'
      exact ⟨b + j, by omega, hfirst.after hbefore, by omega⟩
  · intro s' hs'
    obtain ⟨j, hj, hfirst, hclock⟩ := hs'
    exact ⟨j, by omega, hfirst, hclock⟩

theorem FirstFault.unique {k : ℕ} (hj : FirstFault faults n j) (hk : FirstFault faults n k) :
    j = k := by
  rcases Nat.lt_trichotomy j k with hlt | heq | hlt
  · exact (hj.not_all hlt hk.1).elim
  · exact heq
  · exact (hk.not_all hlt hj.1).elim

theorem Makes.run_faultless (hx : Makes clock faults x c)
    (h : ∀ i < c, faults (clock s + i) = false) :
    (x.run s).1.isSome = true ∧ clock (x.run s).2 = clock s + c := by
  have hs := hx s
  unfold wp at hs
  rcases hr : x.run s with ⟨_ | a, s'⟩
  · rw [hr] at hs
    obtain ⟨j, hj, hfirst, -⟩ := hs
    exact (hfirst.not_all hj h).elim
  · rw [hr] at hs
    exact ⟨rfl, hs.2⟩

theorem Makes.run_fault (hx : Makes clock faults x c) (hj : j < c)
    (h : FirstFault faults (clock s) j) :
    (x.run s).1.isSome = false ∧ clock (x.run s).2 = clock s + j + 1 := by
  have hs := hx s
  unfold wp at hs
  rcases hr : x.run s with ⟨_ | a, s'⟩
  · rw [hr] at hs
    obtain ⟨k, -, hfirst, hclock⟩ := hs
    rw [h.unique hfirst]
    exact ⟨rfl, hclock⟩
  · rw [hr] at hs
    exact (h.not_all hj hs.1).elim

theorem Makes.isSome_iff (hx : Makes clock faults x c) :
    (x.run s).1.isSome = true ↔ ∀ i < c, faults (clock s + i) = false := by
  refine ⟨?_, fun h ↦ (hx.run_faultless h).1⟩
  intro hsome
  by_contra h
  obtain ⟨j, hj, hfirst⟩ := exists_firstFault h
  rw [(hx.run_fault hj hfirst).1] at hsome
  cases hsome

/-- No call of a block throws if and only if none does of those that it made. -/
theorem Makes.faultless_iff (hx : Makes clock faults x c) :
    (∀ i, clock s ≤ i → i < clock (x.run s).2 → faults i = false) ↔
      ∀ i < c, faults (clock s + i) = false := by
  refine ⟨?_, ?_⟩
  · intro h
    by_contra hnot
    obtain ⟨j, hj, hfirst⟩ := exists_firstFault hnot
    have hclock := (hx.run_fault hj hfirst).2
    have hfault := hfirst.2
    rw [h _ (by omega) (by omega)] at hfault
    cases hfault
  · intro h i hle hlt
    have hclock := (hx.run_faultless h).2
    have hi := h (i - clock s) (by omega)
    rwa [Nat.add_sub_cancel' hle] at hi

theorem Makes.le (hx : Makes clock faults x c) : clock s ≤ clock (x.run s).2 := by
  by_cases hall : ∀ i < c, faults (clock s + i) = false
  · have hclock := (hx.run_faultless hall).2
    omega
  · obtain ⟨j, hj, hfirst⟩ := exists_firstFault hall
    have hclock := (hx.run_fault hj hfirst).2
    omega

/-- A second block that runs whether the first one throws or not, and that alone
gives the result. -/
theorem Makes.second_truthful_iff {y : OptionT (StateM σ) β} (hx : Makes clock faults x b)
    (hy : Makes clock faults y c) :
    ((y.run (x.run s).2).1.isSome = true ↔
      ∀ i, clock s ≤ i → i < clock (y.run (x.run s).2).2 → faults i = false) ↔
      ∀ j < b, FirstFault faults (clock s) j →
        ∃ i < c, faults (clock s + j + 1 + i) = true := by
  rw [hy.isSome_iff]
  have hsecond := hy.faultless_iff (s := (x.run s).2)
  by_cases hall : ∀ i < b, faults (clock s + i) = false
  · have hclock := (hx.run_faultless hall).2
    have hvacuous : ∀ j < b, FirstFault faults (clock s) j →
        ∃ i < c, faults (clock s + j + 1 + i) = true :=
      fun j hj hfirst ↦ (hfirst.not_all hj hall).elim
    refine iff_of_true ?_ hvacuous
    rw [← hsecond]
    refine ⟨?_, fun h i hle hlt ↦ h i (by omega) hlt⟩
    intro h i hle hlt
    by_cases hi : i < clock (x.run s).2
    · exact hx.faultless_iff.mpr hall i hle hi
    · exact h i (by omega) hlt
  · obtain ⟨j, hj, hfirst⟩ := exists_firstFault hall
    have hclock := (hx.run_fault hj hfirst).2
    have hle := hy.le (s := (x.run s).2)
    have hnot : ¬ ∀ i, clock s ≤ i → i < clock (y.run (x.run s).2).2 → faults i = false := by
      intro h
      have hfault := hfirst.2
      rw [h _ (by omega) (by omega)] at hfault
      cases hfault
    rw [iff_false_right hnot, hclock]
    refine ⟨?_, ?_⟩
    · intro h k hk hfirst'
      obtain rfl := hfirst.unique hfirst'
      simpa using h
    · intro h hfaultless
      obtain ⟨i, hi, hfault⟩ := h j hj hfirst
      rw [hfaultless i hi] at hfault
      cases hfault

end Faults

end Peripherals.Attempt
