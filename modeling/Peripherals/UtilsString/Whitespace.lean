import Mathlib.Data.List.SplitBy
import Peripherals.CString
import Peripherals.Settings.CSettings

namespace Peripherals.UtilsString

open CString
open Settings (nul)

abbrev Text := List Char

/-- The inner loop of `removeExtraWhitespaces`: the index of the last space of a run. -/
def skipSpaces : ℕ → Text → ℕ → Option ℕ
  | 0, _, _ => none
  | fuel + 1, in_str, idx => do
    let next ← increment idx
    let c ← readAt nul in_str next
    if c = ' ' then skipSpaces fuel in_str next else some idx

/-- The outer loop; `none` where an index overflows or leaves the string, or where a loop
makes more than `fuel` iterations. -/
def collapseLoop : ℕ → Text → ℕ → Text → Option Text
  | 0, _, _, _ => none
  | fuel + 1, in_str, idx, out_str => do
    let c ← readAt nul in_str idx
    if c = nul then some out_str
    else
      let idx ← (if c = ' ' then skipSpaces fuel in_str idx else some idx : Option ℕ)
      let idx ← increment idx
      collapseLoop fuel in_str idx (out_str ++ [c])

def removeExtraWhitespaces (fuel : ℕ) (in_str out_str : Text) : Option (Bool × Text) :=
  if in_str = [] then some (false, out_str)
  else (collapseLoop fuel in_str 0 out_str).map fun out_str ↦ (true, out_str)

/-- The text with one space for every maximal run of spaces. -/
def collapsed (s : Text) : Text :=
  (s.splitBy fun a b ↦ a = ' ' ∧ b = ' ').flatMap fun run ↦
    if run.head? = some ' ' then [' '] else run

variable {s rest before in_str out_str : Text} {c : Char} {n fuel idx idx' : ℕ}

section Runs

/-- A text is built from runs of spaces and other characters. -/
theorem runs_induction {P : Text → Prop} (nil : P [])
    (other : ∀ c s, c ≠ ' ' → P s → P (c :: s))
    (run : ∀ n s, s.head? ≠ some ' ' → P s → P (List.replicate (n + 1) ' ' ++ s)) (s : Text) :
    P s := by
  induction hlength : s.length using Nat.strong_induction_on generalizing s with
  | _ length ih =>
    cases s with
    | nil => exact nil
    | cons c s =>
      rw [List.length_cons] at hlength
      by_cases hc : c = ' '
      · subst hc
        have hspaces : s.takeWhile (· = ' ') =
            List.replicate (s.takeWhile (· = ' ')).length ' ' := by
          apply List.eq_replicate_of_mem
          intro c hc
          simpa using List.mem_takeWhile_imp hc
        have hrest : (s.dropWhile (· = ' ')).head? ≠ some ' ' := by
          intro hhead
          have hnot := List.head?_dropWhile_not (· = ' ') s
          simp [hhead] at hnot
        have hdrop := run (s.takeWhile (· = ' ')).length _ hrest
          (ih _ (by have := (List.dropWhile_suffix (l := s) (· = ' ')).length_le; omega) _ rfl)
        rw [List.replicate_succ, ← hspaces, List.cons_append, List.takeWhile_append_dropWhile]
          at hdrop
        exact hdrop
      · exact other c s hc (ih s.length (by omega) s rfl)

theorem collapsed_nil : collapsed [] = [] := rfl

theorem collapsed_cons (hc : c ≠ ' ') (s : Text) : collapsed (c :: s) = c :: collapsed s := by
  have hsplit : (c :: s).splitBy (fun a b ↦ a = ' ' ∧ b = ' ') =
      [c] :: s.splitBy (fun a b ↦ a = ' ' ∧ b = ' ') := by
    rw [← List.singleton_append, List.splitBy_append]
    · rfl
    · simp [hc]
  rw [collapsed, hsplit, List.flatMap_cons, ← collapsed]
  simp [hc]

theorem collapsed_run (hs : s.head? ≠ some ' ') (n : ℕ) :
    collapsed (List.replicate (n + 1) ' ' ++ s) = ' ' :: collapsed s := by
  have hrun : (List.replicate (n + 1) ' ').splitBy (fun a b ↦ a = ' ' ∧ b = ' ') =
      [List.replicate (n + 1) ' '] := by
    apply List.splitBy_of_isChain (by simp)
    apply List.isChain_replicate_of_rel
    simp
  have hsplit : (List.replicate (n + 1) ' ' ++ s).splitBy (fun a b ↦ a = ' ' ∧ b = ' ') =
      List.replicate (n + 1) ' ' :: s.splitBy (fun a b ↦ a = ' ' ∧ b = ' ') := by
    rw [List.splitBy_append, hrun, List.singleton_append]
    intro a _ b hb
    have hb' : b ≠ ' ' := by
      rintro rfl
      exact hs hb
    simp [hb']
  rw [collapsed, hsplit, List.flatMap_cons, ← collapsed]
  simp [List.replicate_succ]

end Runs

section Loops

theorem getD_head?_ne (hrest : rest.head? ≠ some ' ') : rest.head?.getD nul ≠ ' ' := by
  cases rest with
  | nil => decide
  | cons c rest => simpa using hrest

theorem skipSpaces_run (hrest : rest.head? ≠ some ' ') (n fuel : ℕ) (before : Text)
    (hfuel : n < fuel) (hmax : before.length + n < intMax) :
    skipSpaces fuel (before ++ ' ' :: (List.replicate n ' ' ++ rest)) before.length =
      some (before.length + n) := by
  induction n generalizing fuel before with
  | zero =>
    obtain ⟨fuel, rfl⟩ := Nat.exists_eq_succ_of_ne_zero (show fuel ≠ 0 by omega)
    rw [List.replicate_zero, List.nil_append, skipSpaces,
      increment_of_lt (show before.length < intMax from hmax)]
    simp [readAt_succ, getD_head?_ne hrest]
  | succ n ih =>
    obtain ⟨fuel, rfl⟩ := Nat.exists_eq_succ_of_ne_zero (show fuel ≠ 0 by omega)
    have hskip := ih fuel (before ++ [' ']) (by omega)
      (by rw [List.length_append, List.length_singleton]; omega)
    rw [List.append_assoc, List.singleton_append, List.length_append, List.length_singleton]
      at hskip
    rw [List.replicate_succ, List.cons_append, skipSpaces,
      increment_of_lt (show before.length < intMax by omega)]
    simp only [Option.bind_eq_bind, Option.bind_some, readAt_succ, List.head?_cons,
      Option.getD_some, if_true, hskip]
    congr 1
    omega

/-- From any position that is not inside a run of spaces the loop collapses the rest. -/
theorem collapseLoop_eq (rest before out_str : Text) (fuel : ℕ) (hnul : nul ∉ rest)
    (hmax : (before ++ rest).length ≤ intMax) (hfuel : rest.length < fuel) :
    collapseLoop fuel (before ++ rest) before.length out_str =
      some (out_str ++ collapsed rest) := by
  induction rest using runs_induction generalizing before fuel out_str with
  | nil =>
    obtain ⟨fuel, rfl⟩ := Nat.exists_eq_succ_of_ne_zero (show fuel ≠ 0 by omega)
    rw [List.append_nil, collapseLoop, readAt_length]
    simp [collapsed_nil]
  | other c rest hc ih =>
    obtain ⟨fuel, rfl⟩ := Nat.exists_eq_succ_of_ne_zero (show fuel ≠ 0 by omega)
    obtain ⟨hc', hnul⟩ : nul ≠ c ∧ nul ∉ rest := by simpa using hnul
    rw [List.length_append, List.length_cons] at hmax
    rw [List.length_cons] at hfuel
    have hrest := ih (before ++ [c]) (out_str ++ [c]) fuel hnul (by simp; omega) (by omega)
    rw [List.append_assoc, List.singleton_append, List.length_append, List.length_singleton]
      at hrest
    rw [collapseLoop, readAt_append]
    simp [hc, Ne.symm hc', increment_of_lt (show before.length < intMax by omega), hrest,
      collapsed_cons hc]
  | run n rest hhead ih =>
    obtain ⟨fuel, rfl⟩ := Nat.exists_eq_succ_of_ne_zero (show fuel ≠ 0 by omega)
    have hnul' : nul ∉ rest := fun hmem ↦ hnul (List.mem_append_right _ hmem)
    simp only [List.length_append, List.length_replicate] at hmax hfuel
    have hrest := ih (before ++ List.replicate (n + 1) ' ') (out_str ++ [' ']) fuel hnul'
      (by simp; omega) (by omega)
    rw [List.append_assoc, List.length_append, List.length_replicate] at hrest
    have hskip := skipSpaces_run hhead n fuel before (by omega) (by omega)
    rw [collapsed_run hhead]
    rw [List.replicate_succ, List.cons_append] at hrest ⊢
    rw [collapseLoop, readAt_append]
    simp only [Option.bind_eq_bind, Option.bind_some, if_true, hskip,
      increment_of_lt (show before.length + n < intMax by omega), Nat.add_assoc, hrest]
    simp [show ' ' ≠ nul by decide]

theorem skipSpaces_le (hidx : idx ≤ intMax) (h : skipSpaces fuel in_str idx = some idx') :
    idx' ≤ intMax := by
  induction fuel generalizing idx with
  | zero => cases h
  | succ fuel ih =>
    obtain ⟨next, hnext, h⟩ := Option.bind_eq_some_iff.mp h
    obtain ⟨c, -, h⟩ := Option.bind_eq_some_iff.mp h
    obtain ⟨hlt, rfl⟩ := increment_eq_some.mp hnext
    split at h
    · exact ih hlt h
    · exact Option.some.inj h ▸ hidx

/-- In a string that is longer than the largest index the loop does not come to an end. -/
theorem collapseLoop_long (hnul : nul ∉ in_str) (hlong : intMax < in_str.length)
    (fuel : ℕ) (out_str : Text) (hidx : idx ≤ intMax) :
    collapseLoop fuel in_str idx out_str = none := by
  induction fuel generalizing idx out_str with
  | zero => rfl
  | succ fuel ih =>
    obtain ⟨c, hmem, hchar⟩ := readAt_mem nul (show idx < in_str.length by omega)
    have hc : c ≠ nul := ne_of_mem_of_not_mem hmem hnul
    have hskip : ∀ i, (if c = ' ' then skipSpaces fuel in_str idx else some idx) = some i →
        i ≤ intMax := by
      intro i hi
      split at hi
      · exact skipSpaces_le hidx hi
      · exact Option.some.inj hi ▸ hidx
    rw [collapseLoop, hchar]
    simp only [Option.bind_eq_bind, Option.bind_some, if_neg hc, Option.bind_eq_none_iff]
    intro i hi j hj
    obtain ⟨hlt, rfl⟩ := increment_eq_some.mp hj
    exact ih _ hlt

end Loops

section Collapsed

def NoAdjacentSpaces (s : Text) : Prop := s.IsChain fun a b ↦ ¬ (a = ' ' ∧ b = ' ')

theorem head?_collapsed (s : Text) : (collapsed s).head? = s.head? := by
  induction s using runs_induction with
  | nil => rfl
  | other c s hc _ => rw [collapsed_cons hc, List.head?_cons, List.head?_cons]
  | run n s hs _ => rw [collapsed_run hs, List.replicate_succ, List.cons_append, List.head?_cons,
      List.head?_cons]

theorem collapsed_noAdjacentSpaces (s : Text) : NoAdjacentSpaces (collapsed s) := by
  induction s using runs_induction with
  | nil => exact .nil
  | other c s hc ih =>
    rw [collapsed_cons hc]
    apply List.isChain_cons.mpr
    exact ⟨fun d _ hboth ↦ hc hboth.1, ih⟩
  | run n s hs ih =>
    rw [collapsed_run hs]
    apply List.isChain_cons.mpr
    refine ⟨?_, ih⟩
    intro d hd hboth
    rw [head?_collapsed, Option.mem_def, hboth.2] at hd
    exact hs hd

theorem collapsed_others (s : Text) :
    (collapsed s).filter (· ≠ ' ') = s.filter (· ≠ ' ') := by
  induction s using runs_induction with
  | nil => rfl
  | other c s hc ih =>
    rw [collapsed_cons hc, List.filter_cons, List.filter_cons, ih]
  | run n s hs ih =>
    rw [collapsed_run hs, List.filter_append, List.filter_replicate]
    simpa using ih

theorem collapsed_of_noAdjacentSpaces (h : NoAdjacentSpaces s) : collapsed s = s := by
  induction s using runs_induction with
  | nil => rfl
  | other c s hc ih => rw [collapsed_cons hc, ih (List.isChain_cons.mp h).2]
  | run n s hs ih =>
    cases n with
    | zero => rw [collapsed_run hs, ih (List.isChain_cons.mp h).2]; rfl
    | succ n =>
      rw [List.replicate_succ, List.replicate_succ, List.cons_append, List.cons_append] at h
      exact ((List.isChain_cons_cons.mp h).1 ⟨rfl, rfl⟩).elim

theorem nul_not_mem_collapsed (h : nul ∉ s) : nul ∉ collapsed s := by
  intro hmem
  have hfilter : nul ∈ (collapsed s).filter (· ≠ ' ') := by
    simp [hmem, show nul ≠ ' ' by decide]
  rw [collapsed_others] at hfilter
  exact h (List.mem_filter.mp hfilter).1

theorem collapsed_length_le (s : Text) : (collapsed s).length ≤ s.length := by
  induction s using runs_induction with
  | nil => rfl
  | other c s hc ih => rw [collapsed_cons hc, List.length_cons, List.length_cons]; omega
  | run n s hs ih =>
    rw [collapsed_run hs, List.length_cons, List.length_append, List.length_replicate]
    omega

end Collapsed

/-- On a fresh `out_str` the function returns the collapsed text, and its own output as
it is. -/
def RemovesExtra (in_str : Text) : Prop :=
  ∃ out_str, (∀ fuel, in_str.length < fuel →
      removeExtraWhitespaces fuel in_str [] = some (true, out_str)) ∧
    out_str = collapsed in_str ∧ NoAdjacentSpaces out_str ∧
    out_str.filter (· ≠ ' ') = in_str.filter (· ≠ ' ') ∧
    ∀ fuel, in_str.length < fuel → removeExtraWhitespaces fuel out_str [] = some (true, out_str)

theorem removeExtraWhitespaces_short (hne : in_str ≠ []) (hnul : nul ∉ in_str)
    (hmax : in_str.length ≤ intMax) (hfuel : in_str.length < fuel) :
    removeExtraWhitespaces fuel in_str [] = some (true, collapsed in_str) := by
  have hloop := collapseLoop_eq in_str [] [] fuel hnul hmax hfuel
  rw [List.nil_append, List.nil_append, List.length_nil] at hloop
  rw [removeExtraWhitespaces, if_neg hne, hloop]
  rfl

theorem not_removesExtra (hnul : nul ∉ in_str) (hlong : intMax < in_str.length) :
    ¬ RemovesExtra in_str := by
  intro h
  obtain ⟨out_str, hout, -⟩ := h
  have hne : in_str ≠ [] := by
    rintro rfl
    exact Nat.not_lt_zero _ hlong
  have hrun := hout _ (Nat.lt_succ_self _)
  rw [removeExtraWhitespaces, if_neg hne, collapseLoop_long hnul hlong _ _ (Nat.zero_le _)] at hrun
  cases hrun

/-- The extra spaces are removed if and only if the indices of the string, that of its
terminator included, fit into an `int`. -/
theorem removeExtraWhitespaces_iff (hne : in_str ≠ []) (hnul : nul ∉ in_str) :
    RemovesExtra in_str ↔ in_str.length < 2 ^ 31 := by
  refine ⟨?_, ?_⟩
  · intro h
    by_contra hlong
    refine not_removesExtra hnul ?_ h
    unfold intMax
    omega
  · intro hlt
    have hmax : in_str.length ≤ intMax := Nat.le_pred_of_lt hlt
    have hlength := collapsed_length_le in_str
    have hne' : collapsed in_str ≠ [] := by
      rw [ne_eq, ← List.head?_eq_none_iff, head?_collapsed, List.head?_eq_none_iff]
      exact hne
    refine ⟨collapsed in_str, fun fuel ↦ removeExtraWhitespaces_short hne hnul hmax, rfl,
      collapsed_noAdjacentSpaces in_str, collapsed_others in_str, ?_⟩
    intro fuel hfuel
    have hagain := removeExtraWhitespaces_short hne' (nul_not_mem_collapsed hnul)
      (hlength.trans hmax) (hlength.trans_lt hfuel)
    rwa [collapsed_of_noAdjacentSpaces (collapsed_noAdjacentSpaces in_str)] at hagain

theorem removeExtraWhitespaces_iff_runs :
    RemovesExtra "  a   b ".toList ↔ "  a   b ".toList.length < 2 ^ 31 :=
  removeExtraWhitespaces_iff (by decide) (by decide)

/-- The index overflows on a string of `2 ^ 31` characters. -/
theorem index_overflows : ¬ ∀ in_str : Text, in_str ≠ [] → nul ∉ in_str →
    RemovesExtra in_str := by
  intro h
  have hlength : (List.replicate (2 ^ 31) 'a').length = 2 ^ 31 := List.length_replicate
  have hnul : nul ∉ List.replicate (2 ^ 31) 'a' := by
    intro hmem
    cases List.eq_of_mem_replicate hmem
  have hlong : intMax < (List.replicate (2 ^ 31) 'a').length := by
    rw [hlength]
    exact Nat.sub_lt (Nat.two_pow_pos 31) Nat.zero_lt_one
  exact not_removesExtra hnul hlong (h _ (List.ne_nil_of_length_pos (Nat.zero_lt_of_lt hlong)) hnul)

end Peripherals.UtilsString
