import Mathlib.Algebra.Ring.Nat
import Peripherals.GetFileContent.FileSystem

namespace Peripherals.UtilsString

/-- The largest `size_t`; arithmetic on sizes is modulo the number after it. -/
def npos : ℕ := 2 ^ 64 - 1

/-- A `std::string`: its size is less than `npos`. -/
structure StdString where
  chars : List Char
  size_lt : chars.length < npos

def findFirstOf (s delimiters : List Char) (pos : ℕ) : ℕ :=
  match (s.drop pos).findIdx? (delimiters.contains ·) with
  | some i => pos + i
  | none => npos

/-- `none` stands for the exception that a position after the end raises. -/
def substr (s : List Char) (pos n : ℕ) : Option (List Char) :=
  if pos ≤ s.length then some ((s.drop pos).take n) else none

/-- The loop of `split`, with the value of `next` before a round; `none` stands for
more than `fuel` rounds, and for an exception. -/
def splitLoop (s delimiters : List Char) :
    ℕ → List (List Char) → ℕ → Option (List (List Char))
  | 0, _, _ => none
  | fuel + 1, stringList, next =>
    let current := (next + 1) % 2 ^ 64
    let next := findFirstOf s delimiters current
    match substr s current ((next + 2 ^ 64 - current) % 2 ^ 64) with
    | none => none
    | some field =>
      let stringList := stringList ++ [field]
      if next ≠ npos then splitLoop s delimiters fuel stringList next else some stringList

def split (fuel : ℕ) (stringList : List (List Char)) (s : StdString) (delimiters : List Char) :
    Option (List (List Char)) := splitLoop s.chars delimiters fuel stringList npos

section SplitOnP

variable {A : Type*} {p : A → Bool} {l : List A} {i : ℕ}

theorem splitOnP_of_findIdx?_eq_none (h : l.findIdx? p = none) : l.splitOnP p = [l] :=
  List.splitOnP_eq_singleton (List.findIdx?_eq_none_iff.mp h)

theorem splitOnP_of_findIdx?_eq_some (h : l.findIdx? p = some i) :
    l.splitOnP p = l.take i :: (l.drop (i + 1)).splitOnP p := by
  obtain ⟨hi, hsep, hbefore⟩ := List.findIdx?_eq_some_iff_getElem.mp h
  have hl : l.take i ++ l[i] :: l.drop (i + 1) = l := by simp
  have hnone : ∀ a ∈ l.take i, p a = false := by
    intro a ha
    obtain ⟨j, hj, rfl⟩ := List.mem_take_iff_getElem.mp ha
    simpa using hbefore j (by omega)
  conv_lhs => rw [← hl]
  exact List.splitOnP_append_cons_of_forall_mem hnone l[i] hsep _

theorem length_splitOnP (p : A → Bool) (l : List A) :
    (l.splitOnP p).length = l.countP p + 1 := by
  induction l with
  | nil => rfl
  | cons a l ih =>
    rw [List.splitOnP_cons_eq_if_modifyHead, List.countP_cons]
    split
    · simp [ih]
    · simp [ih]

theorem not_of_mem_splitOnP {part : List A} {a : A} (hpart : part ∈ l.splitOnP p) (ha : a ∈ part) :
    p a = false := by
  induction l generalizing part with
  | nil =>
    obtain rfl : part = [] := by simpa using hpart
    exact (List.not_mem_nil ha).elim
  | cons b l ih =>
    rw [List.splitOnP_cons_eq_if_modifyHead] at hpart
    split at hpart
    · rcases List.mem_cons.mp hpart with rfl | hpart
      · exact (List.not_mem_nil ha).elim
      · exact ih hpart ha
    next hb =>
      obtain ⟨first, rest, hl⟩ := List.exists_cons_of_ne_nil (List.splitOnP_ne_nil p l)
      rw [hl, List.modifyHead_cons] at hpart
      rcases List.mem_cons.mp hpart with rfl | hpart
      · rcases List.mem_cons.mp ha with rfl | ha
        · simpa using hb
        · exact ih (by simp [hl]) ha
      · exact ih (by simp [hl, hpart]) ha

end SplitOnP

variable {s delimiters : List Char} {stringList : List (List Char)} {fuel next current : ℕ}

/-- A round starts after a delimiter, or at the start of the string. -/
theorem splitLoop_eq (hs : s.length < npos) (hnext : (next + 1) % 2 ^ 64 = current)
    (hcurrent : current ≤ s.length) (hfuel : s.length < current + fuel) :
    splitLoop s delimiters fuel stringList next =
      some (stringList ++ (s.drop current).splitOnP (delimiters.contains ·)) := by
  unfold npos at hs
  induction fuel generalizing stringList next current with
  | zero => omega
  | succ fuel ih =>
    have hsubstr (n : ℕ) : substr s current n = some ((s.drop current).take n) := if_pos hcurrent
    rw [splitLoop, hnext]
    dsimp only
    rw [hsubstr, findFirstOf]
    cases hi : (s.drop current).findIdx? (delimiters.contains ·) with
    | none =>
      have hlength : (npos + 2 ^ 64 - current) % 2 ^ 64 = npos - current := by
        unfold npos
        omega
      have htake : (s.drop current).take (npos - current) = s.drop current := by
        apply List.take_of_length_le
        rw [List.length_drop]
        unfold npos
        omega
      dsimp only
      rw [hlength, htake, if_neg (not_not.mpr rfl), splitOnP_of_findIdx?_eq_none hi]
    | some i =>
      have hlt : i < (s.drop current).length := (List.findIdx?_eq_some_iff_getElem.mp hi).1
      rw [List.length_drop] at hlt
      have hne : current + i ≠ npos := by
        unfold npos
        omega
      have hlength : (current + i + 2 ^ 64 - current) % 2 ^ 64 = i := by omega
      dsimp only
      rw [hlength, if_pos hne, splitOnP_of_findIdx?_eq_some hi, List.drop_drop,
        ih (show _ = current + (i + 1) by omega) (by omega) (by omega), List.append_assoc]
      rfl

theorem split_eq (s : StdString) (hfuel : s.chars.length < fuel) :
    split fuel stringList s delimiters =
      some (stringList ++ s.chars.splitOnP (delimiters.contains ·)) := by
  have hstart : (npos + 1) % 2 ^ 64 = 0 := rfl
  exact splitLoop_eq s.size_lt hstart (Nat.zero_le _) (by omega)

/-- Nothing is lost, and one more field than there are delimiters is appended. -/
theorem split_fields (stringList : List (List Char)) (s : StdString) (delimiters : List Char) :
    ∃ fields, (∀ fuel, s.chars.length < fuel →
        split fuel stringList s delimiters = some (stringList ++ fields)) ∧
      fields.length = s.chars.countP (delimiters.contains ·) + 1 ∧
      (∀ field ∈ fields, ∀ c ∈ field, c ∉ delimiters) ∧
      (List.zipWith (· ++ ·) fields
        ((s.chars.filter (delimiters.contains ·)).map ([·]) ++ [[]])).flatten = s.chars := by
  refine ⟨s.chars.splitOnP (delimiters.contains ·), ?_, length_splitOnP _ _, ?_,
    List.splitOnP_spec _⟩
  · exact fun fuel hfuel ↦ split_eq s hfuel
  · intro field hfield c hc
    have hnot := not_of_mem_splitOnP hfield hc
    simpa using hnot

theorem foldLines_eq_splitOnP (fields : List (List Char)) (line s : List Char) :
    Lines.foldLines '/' (fun stringList part ↦ stringList ++ [part]) fields line s =
      fields ++ (s.splitOnP (['/'].contains ·)).modifyHead (line ++ ·) := by
  induction s generalizing fields line with
  | nil => simp [Lines.foldLines]
  | cons c s ih =>
    rw [Lines.foldLines, List.splitOnP_cons_eq_if_modifyHead, ih, ih]
    split
    next hc =>
      obtain ⟨first, rest, hs⟩ := List.exists_cons_of_ne_nil
        (List.splitOnP_ne_nil (['/'].contains ·) s)
      rw [if_pos (by simp [hc]), hs]
      simp
    next hc =>
      rw [if_neg (by simp [hc]), List.modifyHead_modifyHead]
      congr 2
      funext part
      simp

/-- At slashes, the loop of `split` does what a search takes it to do. -/
theorem split_refines (s : StdString) (hfuel : s.chars.length < fuel) :
    split fuel [] s ['/'] = some (GetFileContent.split s.chars) := by
  obtain ⟨first, rest, hs⟩ := List.exists_cons_of_ne_nil
    (List.splitOnP_ne_nil (['/'].contains ·) s.chars)
  rw [split_eq s hfuel, GetFileContent.split, foldLines_eq_splitOnP, hs]
  rfl

end Peripherals.UtilsString
