import Mathlib.Data.List.TakeWhile

namespace Peripherals.Fgets

variable {A : Type*} [DecidableEq A] {sep : A} {n : ℕ} {l line rest : List A}

/-- The next `n` elements of a stream at most, with none after the first `sep`, and
what is left. -/
def nextChunk (sep : A) : ℕ → List A → List A × List A
  | 0, l => ([], l)
  | _ + 1, [] => ([], [])
  | n + 1, a :: l =>
    if a = sep then ([a], l) else (a :: (nextChunk sep n l).1, (nextChunk sep n l).2)

/-- A call with a buffer for `n` elements and a terminator; `none` at the end of the
stream. -/
def fgets (sep : A) (n : ℕ) (l : List A) : Option (List A × List A) :=
  if l = [] then none else some (nextChunk sep n l)

theorem nextChunk_append (sep : A) (n : ℕ) (l : List A) :
    (nextChunk sep n l).1 ++ (nextChunk sep n l).2 = l := by
  induction n generalizing l with
  | zero => rfl
  | succ n ih =>
    cases l with
    | nil => rfl
    | cons a l =>
      by_cases ha : a = sep
      · simp [nextChunk, ha]
      · simp [nextChunk, ha, ih]

theorem nextChunk_ne_nil (sep : A) (hn : 0 < n) (h : l ≠ []) : (nextChunk sep n l).1 ≠ [] := by
  obtain ⟨n, rfl⟩ := Nat.exists_eq_succ_of_ne_zero hn.ne'
  obtain ⟨a, l, rfl⟩ := List.exists_cons_of_ne_nil h
  by_cases ha : a = sep <;> simp [nextChunk, ha]

theorem nextChunk_length_lt (sep : A) (hn : 0 < n) (h : l ≠ []) :
    (nextChunk sep n l).2.length < l.length := by
  have hpos := List.length_pos_iff.mpr (nextChunk_ne_nil sep hn h)
  have hlength := congrArg List.length (nextChunk_append sep n l)
  rw [List.length_append] at hlength
  omega

/-- A line that fits into the buffer together with its end is read as it is. -/
theorem nextChunk_line (h : sep ∉ line) (hlength : line.length < n) (rest : List A) :
    nextChunk sep n (line ++ sep :: rest) = (line ++ [sep], rest) := by
  induction line generalizing n with
  | nil =>
    obtain ⟨n, rfl⟩ := Nat.exists_eq_succ_of_ne_zero (show n ≠ 0 by omega)
    simp [nextChunk]
  | cons a line ih =>
    obtain ⟨ha, hline⟩ : sep ≠ a ∧ sep ∉ line := by simpa using h
    obtain ⟨n, rfl⟩ := Nat.exists_eq_succ_of_ne_zero (show n ≠ 0 by omega)
    rw [List.length_cons] at hlength
    simp [nextChunk, ha.symm, ih hline (show line.length < n by omega)]

theorem nextChunk_last (h : sep ∉ line) (hlength : line.length ≤ n) :
    nextChunk sep n line = (line, []) := by
  induction line generalizing n with
  | nil => cases n <;> rfl
  | cons a line ih =>
    obtain ⟨ha, hline⟩ : sep ≠ a ∧ sep ∉ line := by simpa using h
    rw [List.length_cons] at hlength
    obtain ⟨n, rfl⟩ := Nat.exists_eq_succ_of_ne_zero (show n ≠ 0 by omega)
    simp [nextChunk, ha.symm, ih hline (show line.length ≤ n by omega)]

/-- What the calls of a loop read one after the other, with a buffer for `n + 1`
elements and a terminator. -/
def chunks (sep : A) (n : ℕ) (l : List A) : List (List A) :=
  if l = [] then [] else (nextChunk sep (n + 1) l).1 :: chunks sep n (nextChunk sep (n + 1) l).2
termination_by l.length
decreasing_by exact nextChunk_length_lt sep n.succ_pos ‹_›

theorem chunks_nil : chunks sep n [] = [] := by
  rw [chunks, if_pos rfl]

theorem chunks_of_ne_nil (h : l ≠ []) :
    chunks sep n l = (nextChunk sep (n + 1) l).1 :: chunks sep n (nextChunk sep (n + 1) l).2 := by
  rw [chunks, if_neg h]

theorem flatten_chunks (sep : A) (n : ℕ) (l : List A) : (chunks sep n l).flatten = l := by
  induction l using chunks.induct sep n with
  | case1 => rw [chunks_nil, List.flatten_nil]
  | case2 l h ih => rw [chunks_of_ne_nil h, List.flatten_cons, ih, nextChunk_append]

theorem chunks_eq_nil : chunks sep n l = [] ↔ l = [] := by
  by_cases h : l = []
  · simp [h, chunks_nil]
  · simp [h, chunks_of_ne_nil]

theorem chunks_line (h : sep ∉ line) (hlength : line.length ≤ n) (rest : List A) :
    chunks sep n (line ++ sep :: rest) = (line ++ [sep]) :: chunks sep n rest := by
  rw [chunks_of_ne_nil (by simp), nextChunk_line h (by omega)]

theorem chunks_last (h : sep ∉ line) (hne : line ≠ []) (hlength : line.length ≤ n + 1) :
    chunks sep n line = [line] := by
  rw [chunks_of_ne_nil hne, nextChunk_last h hlength, chunks_nil]

variable {S : Type*} {body : S → List A → S × Bool}

/-- The state after the chunks up to the first one at which `body` breaks. -/
def foldUntil (body : S → List A → S × Bool) (s : S) : List (List A) → S
  | [] => s
  | chunk :: rest =>
    if (body s chunk).2 then (body s chunk).1 else foldUntil body (body s chunk).1 rest

/-- `while (fgets(..)) body`, where `body` tells whether it breaks; `none` where `fuel`
calls are too few. -/
def whileFgets (sep : A) (n : ℕ) (body : S → List A → S × Bool) : ℕ → S → List A → Option S
  | 0, _, _ => none
  | fuel + 1, s, l =>
    match fgets sep n l with
    | none => some s
    | some (chunk, rest) =>
      if (body s chunk).2 then some (body s chunk).1
      else whileFgets sep n body fuel (body s chunk).1 rest

/-- The loop ends after finitely many calls, with the chunks read in order. -/
theorem whileFgets_eq {fuel : ℕ} (h : l.length < fuel) (s : S) :
    whileFgets sep (n + 1) body fuel s l = some (foldUntil body s (chunks sep n l)) := by
  induction fuel generalizing s l with
  | zero => omega
  | succ fuel ih =>
    by_cases hl : l = []
    · rw [whileFgets, fgets, if_pos hl, hl, chunks_nil]
      rfl
    · have hrest := nextChunk_length_lt (n := n + 1) sep n.succ_pos hl
      rw [whileFgets, fgets, if_neg hl, chunks_of_ne_nil hl, foldUntil]
      dsimp only
      split
      · rfl
      · exact ih (by omega) _

end Peripherals.Fgets
