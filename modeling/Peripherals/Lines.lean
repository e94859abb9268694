import Mathlib.Data.List.Basic

namespace Peripherals.Lines

variable {A S : Type*} [DecidableEq A] {a : A} {l l' : List A}

def lastIndexOf (a : A) : List A → Option ℕ
  | [] => none
  | b :: l =>
    match lastIndexOf a l with
    | some i => some (i + 1)
    | none => if b = a then some 0 else none

theorem lastIndexOf_eq_none : lastIndexOf a l = none ↔ a ∉ l := by
  induction l with
  | nil => simp [lastIndexOf]
  | cons b l ih =>
    cases hl : lastIndexOf a l with
    | none => simp [lastIndexOf, hl, ih.mp hl, eq_comm]
    | some i =>
      have ha : a ∈ l := by
        by_contra hn
        simp [ih.mpr hn] at hl
      simp [lastIndexOf, hl, ha]

/-- The last `a` parts a list into what is before it and an `a`-free rest. -/
theorem lastIndexOf_append (h : a ∉ l') : lastIndexOf a (l ++ a :: l') = some l.length := by
  induction l with
  | nil => simp [lastIndexOf, lastIndexOf_eq_none.mpr h]
  | cons b l ih => simp [lastIndexOf, ih]

theorem eq_append_of_mem_last (h : a ∈ l) : ∃ l₁ l₂, l = l₁ ++ a :: l₂ ∧ a ∉ l₂ := by
  induction l with
  | nil => simp at h
  | cons b l ih =>
    by_cases hl : a ∈ l
    · obtain ⟨l₁, l₂, rfl, hn⟩ := ih hl
      exact ⟨b :: l₁, l₂, rfl, hn⟩
    · obtain rfl : a = b := by simpa [hl] using h
      exact ⟨[], l, rfl, hl⟩

/-- Fold over the pieces between the separators of a text, the last piece
included; `line` is what has been taken in of the current piece. -/
def foldLines (sep : A) (f : S → List A → S) (s : S) (line : List A) : List A → S
  | [] => f s line
  | b :: text =>
    if b = sep then foldLines sep f (f s line) [] text
    else foldLines sep f s (line ++ [b]) text

variable {sep : A} {f : S → List A → S} {s : S}

theorem foldLines_append (h : sep ∉ l) (line text : List A) :
    foldLines sep f s line (l ++ text) = foldLines sep f s (line ++ l) text := by
  induction l generalizing line with
  | nil => simp
  | cons b l ih =>
    obtain ⟨hb, hl⟩ : sep ≠ b ∧ sep ∉ l := by simpa using h
    simp [foldLines, hb.symm, ih hl]

theorem foldLines_terminated {ls : List (List A)} (h : ∀ l ∈ ls, sep ∉ l) :
    foldLines sep f s [] (ls.flatMap (· ++ [sep])) = f (ls.foldl f s) [] := by
  induction ls generalizing s with
  | nil => simp [foldLines]
  | cons l ls ih =>
    obtain ⟨hl, hls⟩ := List.forall_mem_cons.mp h
    rw [List.flatMap_cons, List.append_assoc, foldLines_append hl]
    simp [foldLines, ih hls]

/-- The last piece need not be terminated. -/
theorem foldLines_torn {ls : List (List A)} {torn : List A} (h : ∀ l ∈ ls, sep ∉ l)
    (htorn : sep ∉ torn) :
    foldLines sep f s [] (ls.flatMap (· ++ [sep]) ++ torn) = f (ls.foldl f s) torn := by
  induction ls generalizing s with
  | nil =>
    have hend := foldLines_append (f := f) (s := s) htorn [] []
    rw [List.append_nil, List.nil_append] at hend
    exact hend
  | cons l ls ih =>
    obtain ⟨hl, hls⟩ := List.forall_mem_cons.mp h
    rw [List.flatMap_cons, List.append_assoc, List.append_assoc, foldLines_append hl]
    simp [foldLines, ih hls]

omit [DecidableEq A] in
/-- What a cut leaves of some terminated pieces: the first ones, and a part of the next. -/
theorem take_terminated {B : Type*} (g : B → List A) (sep : A) (bs : List B) (n : ℕ) :
    ∃ done rest torn, bs = done ++ rest ∧
      (bs.flatMap fun b ↦ g b ++ [sep]).take n = (done.flatMap fun b ↦ g b ++ [sep]) ++ torn ∧
        torn <+: (rest.head?.map g).getD [] := by
  induction bs generalizing n with
  | nil => exact ⟨[], [], [], rfl, by simp, by simp⟩
  | cons b bs ih =>
    by_cases hn : n ≤ (g b).length
    · refine ⟨[], b :: bs, (g b).take n, rfl, ?_, List.take_prefix n (g b)⟩
      simp [List.take_append_of_le_length hn]
    · obtain ⟨done, rest, torn, rfl, htake, hprefix⟩ := ih (n - ((g b).length + 1))
      refine ⟨b :: done, rest, torn, rfl, ?_, hprefix⟩
      have hfirst : (g b ++ [sep]).length ≤ n := by
        rw [List.length_append, List.length_singleton]
        omega
      rw [List.flatMap_cons, List.take_append, List.take_of_length_le hfirst, List.flatMap_cons,
        List.append_assoc (g b ++ [sep])]
      congr 1
      rw [← htake, List.length_append, List.length_singleton]

/-- A property that `f` keeps for every piece holds of the result. -/
theorem foldLines_invariant {I : S → Prop} (pres : ∀ s l, I s → I (f s l)) (line text : List A)
    (h : I s) : I (foldLines sep f s line text) := by
  induction text generalizing s line with
  | nil => exact pres _ _ h
  | cons b text ih =>
    rw [foldLines]
    split
    · exact ih _ (pres _ _ h)
    · exact ih _ h

def replaceEach (a : A) (replacement l : List A) : List A :=
  l.flatMap fun b ↦ if b = a then replacement else [b]

theorem replaceEach_append (a : A) (replacement l l' : List A) :
    replaceEach a replacement (l ++ l') =
      replaceEach a replacement l ++ replaceEach a replacement l' :=
  List.flatMap_append

theorem replaceEach_cons_self (a : A) (replacement l : List A) :
    replaceEach a replacement (a :: l) = replacement ++ replaceEach a replacement l := by
  simp [replaceEach]

theorem replaceEach_of_not_mem (h : a ∉ l) (replacement : List A) :
    replaceEach a replacement l = l := by
  induction l with
  | nil => rfl
  | cons b l ih =>
    obtain ⟨hb, hl⟩ : a ≠ b ∧ a ∉ l := by simpa using h
    rw [replaceEach, List.flatMap_cons, if_neg hb.symm, ← replaceEach, ih hl,
      List.singleton_append]

end Peripherals.Lines
