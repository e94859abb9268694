import Mathlib.Algebra.Ring.Int.Defs
import Mathlib.Algebra.Ring.Nat
import Peripherals.Thunder

namespace Peripherals.UtilsString

open Thunder

variable {A B : Type} {toupper : A → B} {s t u : List A} {i : ℕ}

/-- The second text is in the first one from a position on, up to case. -/
def OccursAt (toupper : A → B) (s t : List A) (i : ℕ) : Prop :=
  i ≤ s.length ∧ t.map toupper <+: (s.drop i).map toupper

theorem occursAt_zero : OccursAt toupper s t 0 ↔ t.map toupper <+: s.map toupper := by
  simp [OccursAt]

theorem occursAt_succ {a : A} : OccursAt toupper (a :: s) t (i + 1) ↔ OccursAt toupper s t i := by
  simp [OccursAt]

theorem OccursAt.length_le (h : OccursAt toupper s t i) : i + t.length ≤ s.length := by
  obtain ⟨hi, hpre⟩ := h
  have hlength := hpre.length_le
  rw [List.length_map, List.length_map, List.length_drop] at hlength
  omega

/-- A match at the end is one of the empty text. -/
theorem OccursAt.eq_nil (h : OccursAt toupper s t s.length) : t = [] := by
  have hlength := h.length_le
  apply List.eq_nil_of_length_eq_zero
  omega

theorem occursAt_of_map_eq (h : s.map toupper = t.map toupper) : OccursAt toupper s t 0 :=
  occursAt_zero.mpr (h ▸ List.prefix_rfl)

/-- Of texts of one length, one is in the other only as a whole. -/
theorem OccursAt.map_eq (h : OccursAt toupper s t i) (hlength : s.length = t.length) :
    i = 0 ∧ s.map toupper = t.map toupper := by
  have hle := h.length_le
  obtain rfl : i = 0 := by omega
  exact ⟨rfl, ((occursAt_zero.mp h).eq_of_length (by simp [hlength])).symm⟩

variable [DecidableEq B]

def locEqual (toupper : A → B) (ch1 ch2 : A) : Bool := toupper ch1 = toupper ch2

def startsWith (pred : A → A → Bool) : List A → List A → Bool
  | _, [] => true
  | [], _ :: _ => false
  | a :: s, b :: t => pred a b && startsWith pred s t

/-- `std::search`, as the distance of the match from the begin of the first text,
or of its end if there is none. -/
def search (pred : A → A → Bool) : List A → List A → ℕ
  | [], _ => 0
  | a :: s, t => if startsWith pred (a :: s) t then 0 else search pred s t + 1

def findSubstrCi (toupper : A → B) (string substring : List A) : Int :=
  let it := search (locEqual toupper) string substring
  if it ≠ string.length then toInt it else -1

def equal (toupper : A → B) (string string2 : List A) : Bool :=
  let pos := findSubstrCi toupper string string2
  pos = 0 && string.length = string2.length

theorem startsWith_iff :
    startsWith (locEqual toupper) s t = true ↔ t.map toupper <+: s.map toupper := by
  induction s generalizing t with
  | nil =>
    cases t with
    | nil => simp [startsWith]
    | cons b t => simp [startsWith]
  | cons a s ih =>
    cases t with
    | nil => simp [startsWith]
    | cons b t =>
      rw [startsWith, Bool.and_eq_true, ih, locEqual, decide_eq_true_eq, List.map_cons,
        List.map_cons, List.cons_prefix_cons, eq_comm]

/-- The end stands for no match; what is found elsewhere is the first match. -/
theorem search_spec (toupper : A → B) (s t : List A) :
    (∀ j < search (locEqual toupper) s t, ¬ OccursAt toupper s t j) ∧
      (search (locEqual toupper) s t < s.length →
        OccursAt toupper s t (search (locEqual toupper) s t)) ∧
      search (locEqual toupper) s t ≤ s.length := by
  induction s with
  | nil => simp [search]
  | cons a s ih =>
    obtain ⟨hbefore, hfound, hle⟩ := ih
    rw [search]
    split
    next hstart =>
      refine ⟨by simp, ?_, Nat.zero_le _⟩
      intro _
      exact occursAt_zero.mpr (startsWith_iff.mp hstart)
    next hstart =>
      refine ⟨?_, ?_, Nat.succ_le_succ hle⟩
      · intro j hj
        cases j with
        | zero =>
          rw [occursAt_zero, ← startsWith_iff]
          exact hstart
        | succ j =>
          rw [occursAt_succ]
          exact hbefore j (Nat.lt_of_succ_lt_succ hj)
      · intro hlt
        rw [occursAt_succ]
        exact hfound (Nat.lt_of_succ_lt_succ hlt)

/-- Unless both texts are empty, the end is not the first match. -/
theorem findSubstrCi_cases (toupper : A → B) (hne : ¬ (s = [] ∧ t = [])) :
    (∃ i, OccursAt toupper s t i ∧ (∀ j < i, ¬ OccursAt toupper s t j) ∧
        findSubstrCi toupper s t = toInt i) ∨
      (∀ i, ¬ OccursAt toupper s t i) ∧ findSubstrCi toupper s t = -1 := by
  obtain ⟨hbefore, hfound, hle⟩ := search_spec toupper s t
  by_cases hend : search (locEqual toupper) s t = s.length
  · refine .inr ⟨?_, if_neg (not_not.mpr hend)⟩
    intro i hi
    rw [hend] at hbefore
    have hbound : i ≤ s.length := hi.1
    obtain hlt | rfl : i < s.length ∨ i = s.length := by omega
    · exact hbefore i hlt hi
    · have ht := hi.eq_nil
      subst ht
      cases s with
      | nil => exact hne ⟨rfl, rfl⟩
      | cons a s => exact hbefore 0 (Nat.succ_pos _) (occursAt_zero.mpr List.nil_prefix)
  · exact .inl ⟨_, hfound (by omega), hbefore, if_pos hend⟩

/-- The least position, or -1 if there is none. -/
structure IsLookup (toupper : A → B) (s t : List A) (pos : Int) : Prop where
  least : ∀ i, OccursAt toupper s t i → (∀ j < i, ¬ OccursAt toupper s t j) → pos = i
  none : pos = -1 ↔ ∀ i, ¬ OccursAt toupper s t i

theorem toInt_eq_natCast : toInt i = i ↔ i < 2 ^ 31 := by
  unfold toInt
  omega

theorem isLookup_iff (hne : ¬ (s = [] ∧ t = [])) :
    IsLookup toupper s t (findSubstrCi toupper s t) ↔
      ((∃ i, OccursAt toupper s t i) → ∃ i < 2 ^ 31, OccursAt toupper s t i) := by
  rcases findSubstrCi_cases toupper hne with ⟨i, hi, hfirst, hpos⟩ | ⟨hnone, hpos⟩
  · have hpos' : IsLookup toupper s t (findSubstrCi toupper s t) ↔ i < 2 ^ 31 := by
      rw [hpos, ← toInt_eq_natCast]
      refine ⟨fun h ↦ h.least i hi hfirst, ?_⟩
      intro hint
      refine ⟨?_, ?_⟩
      · intro j hj hfirst'
        have hge : ¬ j < i := fun hlt ↦ hfirst j hlt hj
        have hle : ¬ i < j := fun hlt ↦ hfirst' i hlt hi
        rw [hint]
        omega
      · rw [hint]
        refine iff_of_false (by omega) fun h ↦ h i hi
    rw [hpos']
    refine ⟨fun hlt _ ↦ ⟨i, hlt, hi⟩, ?_⟩
    intro h
    obtain ⟨j, hj, hoccurs⟩ := h ⟨i, hi⟩
    have hge : ¬ j < i := fun hlt ↦ hfirst j hlt hoccurs
    omega
  · refine iff_of_true ?_ ?_
    · rw [hpos]
      exact ⟨fun i hi ↦ (hnone i hi).elim, iff_of_true rfl hnone⟩
    · intro h
      obtain ⟨i, hi⟩ := h
      exact (hnone i hi).elim

theorem equal_iff (hne : ¬ (s = [] ∧ t = [])) :
    equal toupper s t = true ↔ s.map toupper = t.map toupper := by
  rw [equal, Bool.and_eq_true, decide_eq_true_eq, decide_eq_true_eq]
  rcases findSubstrCi_cases toupper hne with ⟨i, hi, -, hpos⟩ | ⟨hnone, hpos⟩
  · rw [hpos]
    refine ⟨fun h ↦ (hi.map_eq h.2).2, ?_⟩
    intro h
    have hlength : s.length = t.length := by simpa using congrArg List.length h
    obtain ⟨rfl, -⟩ := hi.map_eq hlength
    exact ⟨rfl, hlength⟩
  · rw [hpos]
    refine iff_of_false (by simp) ?_
    intro h
    exact hnone 0 (occursAt_of_map_eq h)

theorem not_isLookup_nil : ¬ IsLookup toupper [] [] (findSubstrCi toupper [] []) := by
  intro h
  exact h.none.mp rfl 0 (occursAt_of_map_eq rfl)

theorem equal_refl (hne : s ≠ []) : equal toupper s s = true :=
  (equal_iff fun h ↦ hne h.1).mpr rfl

/-- The lookup and the comparison are right if and only if one of the texts is not
empty and the text does not only occur at positions that do not fit into an `int`. -/
theorem lookup_iff (toupper : A → B) :
    (∀ s t, (IsLookup toupper s t (findSubstrCi toupper s t) ∧
        (equal toupper s t = true ↔ s.map toupper = t.map toupper)) ↔
      ¬ (s = [] ∧ t = []) ∧
        ((∃ i, OccursAt toupper s t i) → ∃ i < 2 ^ 31, OccursAt toupper s t i)) ∧
      Equivalence fun s t : { s : List A // s ≠ [] } ↦ equal toupper s.1 t.1 = true := by
  refine ⟨?_, ?_, ?_, ?_⟩
  · intro s t
    by_cases hne : s = [] ∧ t = []
    · obtain ⟨rfl, rfl⟩ := hne
      exact iff_of_false (fun h ↦ not_isLookup_nil h.1) fun h ↦ h.1 ⟨rfl, rfl⟩
    · rw [isLookup_iff hne, equal_iff hne]
      exact ⟨fun h ↦ ⟨hne, h.1⟩, fun h ↦ ⟨h.2, Iff.rfl⟩⟩
  · exact fun s ↦ equal_refl s.2
  · intro s t h
    rw [equal_iff fun h ↦ s.2 h.1] at h
    rw [equal_iff fun h ↦ t.2 h.1, h]
  · intro s t u hst htu
    rw [equal_iff fun h ↦ s.2 h.1] at hst
    rw [equal_iff fun h ↦ t.2 h.1] at htu
    rw [equal_iff fun h ↦ s.2 h.1, hst, htu]

/-- The empty text is not equal to itself. -/
theorem empty_not_equal : ¬ ∀ s t : List Char,
    IsLookup Char.toUpper s t (findSubstrCi Char.toUpper s t) ∧
      (equal Char.toUpper s t = true ↔ s.map Char.toUpper = t.map Char.toUpper) := by
  intro h
  have hequal := (h [] []).2.mpr rfl
  revert hequal
  decide

end Peripherals.UtilsString
