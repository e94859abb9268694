import Mathlib.Data.List.TakeWhile

namespace Peripherals.IStream

variable {A : Type*} {text : List A} {failsAt : Option ℕ}

/-- An input stream: what can still be extracted, whether an I/O error stands behind it
instead of the end of the file, and the error state. -/
structure Stream (A : Type*) where
  rest : List A
  fails : Bool
  eofbit : Bool
  failbit : Bool
  badbit : Bool

/-- A stream on a file, of which a read fails once `failsAt` elements have been read. -/
def Stream.open (text : List A) (failsAt : Option ℕ) : Stream A :=
  match failsAt with
  | some i =>
    if i ≤ text.length then ⟨text.take i, true, false, false, false⟩
    else ⟨text, false, false, false, false⟩
  | none => ⟨text, false, false, false, false⟩

theorem open_fails : (Stream.open text failsAt).fails = true ↔
    ∃ i, failsAt = some i ∧ i ≤ text.length := by
  cases failsAt with
  | none => simp [Stream.open]
  | some i => by_cases h : i ≤ text.length <;> simp [Stream.open, h]

theorem open_of_not_fails (h : (Stream.open text failsAt).fails = false) :
    Stream.open text failsAt = ⟨text, false, false, false, false⟩ := by
  cases failsAt with
  | none => rfl
  | some i =>
    have hi : ¬ i ≤ text.length := by
      intro hle
      simp [Stream.open, hle] at h
    rw [Stream.open, if_neg hi]

theorem open_eofbit (text : List A) (failsAt : Option ℕ) :
    (Stream.open text failsAt).eofbit = false := by
  cases failsAt with
  | none => rfl
  | some i => by_cases h : i ≤ text.length <;> simp [Stream.open, h]

variable [DecidableEq A]

def Stream.good (s : Stream A) : Bool := !s.eofbit && !s.failbit && !s.badbit

/-- `std::getline`: on a stream that is not good it only sets the failbit, and one that
meets an I/O error extracts nothing. -/
def getline (sep : A) (s : Stream A) (content : List A) : List A × Stream A :=
  if s.good then
    if sep ∈ s.rest then
      (s.rest.takeWhile (· ≠ sep), { s with rest := (s.rest.dropWhile (· ≠ sep)).drop 1 })
    else if s.fails then ([], { s with failbit := true, badbit := true })
    else (s.rest, { s with rest := [], eofbit := true, failbit := s.rest.isEmpty })
  else (content, { s with failbit := true })

variable {sep : A} {line rest content : List A} {s : Stream A}

theorem getline_line (hgood : s.good = true) (hrest : s.rest = line ++ sep :: rest)
    (h : sep ∉ line) : getline sep s content = (line, { s with rest := rest }) := by
  have hline : ∀ a ∈ line, decide (a ≠ sep) = true := by
    intro a ha
    simpa using ne_of_mem_of_not_mem ha h
  rw [getline, if_pos hgood, hrest, if_pos (by simp), List.takeWhile_append_of_pos hline,
    List.dropWhile_append_of_pos hline]
  simp

theorem getline_last (hgood : s.good = true) (h : sep ∉ s.rest) (hfails : s.fails = false) :
    getline sep s content =
      (s.rest, { s with rest := [], eofbit := true, failbit := s.rest.isEmpty }) := by
  rw [getline, if_pos hgood, if_neg h, hfails]
  rfl

/-- A stream on which a read fails does not come to its end. -/
theorem getline_fails (sep : A) (content : List A) (hfails : s.fails = true)
    (heof : s.eofbit = false) :
    (getline sep s content).2.fails = true ∧ (getline sep s content).2.eofbit = false := by
  rw [getline]
  split
  · split
    · exact ⟨hfails, heof⟩
    · rw [hfails]
      exact ⟨rfl, heof⟩
  · exact ⟨hfails, heof⟩

end Peripherals.IStream
