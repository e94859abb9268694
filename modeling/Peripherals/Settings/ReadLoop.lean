import Peripherals.IStream
import Peripherals.Settings.CSettings

namespace Peripherals.Settings

open IStream Lines

namespace CSettings

/-- The loop of `readFromFile`; `none` where it makes more than `fuel` iterations. -/
def readLoop : ℕ → Stream Char → Text → Bool × JsonObject → Option (Bool × JsonObject)
  | 0, _, _, _ => none
  | fuel + 1, ifile, content, (retStatus, data) =>
    if ifile.eofbit then some (retStatus, data)
    else
      let (content, ifile) := getline '\n' ifile content
      readLoop fuel ifile content (true, readLine data content)

/-- `readFromFile` on a file of which a read fails at `failsAt`. -/
def readFromStream (failsAt : Option ℕ) (opens : Bool) (fuel : ℕ) (s : CSettings) :
    Option (Bool × CSettings) :=
  match s.file with
  | none => some (false, s)
  | some text =>
    if opens then
      (readLoop fuel (Stream.open text failsAt) [] (false, s.data)).map fun (retStatus, data) ↦
        (retStatus, { s with data })
    else some (false, s)

end CSettings

open CSettings

variable {text content : Text} {data : JsonObject} {fuel : ℕ} {opens : Bool} {failsAt : Option ℕ}

theorem readLoop_fails {ifile : Stream Char} (hfails : ifile.fails = true)
    (heof : ifile.eofbit = false) (fuel : ℕ) (content : Text) (r : Bool × JsonObject) :
    readLoop fuel ifile content r = none := by
  induction fuel generalizing ifile content r with
  | zero => rfl
  | succ fuel ih =>
    obtain ⟨hfails', heof'⟩ := getline_fails '\n' content hfails heof
    rw [readLoop, heof]
    exact ih hfails' heof' _ _

theorem foldLines_line {line rest : Text} (h : '\n' ∉ line) :
    foldLines '\n' readLine data [] (line ++ '\n' :: rest) =
      foldLines '\n' readLine (readLine data line) [] rest := by
  rw [foldLines_append h, List.nil_append, foldLines, if_pos rfl]

/-- Without an error each iteration takes a line, until the one that meets the end. -/
theorem readLoop_eq (hfuel : text.length + 1 < fuel) (content : Text) (r : Bool × JsonObject) :
    readLoop fuel ⟨text, false, false, false, false⟩ content r =
      some (true, foldLines '\n' readLine r.2 [] text) := by
  induction fuel generalizing text content r with
  | zero => omega
  | succ fuel ih =>
    rw [readLoop]
    by_cases hmem : '\n' ∈ text
    · obtain ⟨line, rest, rfl, hline⟩ := List.eq_append_cons_of_mem hmem
      rw [List.length_append, List.length_cons] at hfuel
      rw [getline_line rfl rfl hline, foldLines_line hline]
      exact ih (by omega) _ _
    · obtain ⟨fuel, rfl⟩ := Nat.exists_eq_succ_of_ne_zero (show fuel ≠ 0 by omega)
      have hlast := foldLines_append (f := readLine) (s := r.2) hmem [] []
      rw [List.append_nil] at hlast
      rw [getline_last rfl hmem rfl, hlast]
      rfl

/-- Without an error the reading is the one that `readFromFile` stands for. -/
theorem readFromStream_eq {s : CSettings} (htext : ∀ text, s.file = some text →
      text.length + 1 < fuel) (h : ∀ text, s.file = some text → opens = true →
      ∀ i, failsAt = some i → text.length < i) :
    readFromStream failsAt opens fuel s = some (readFromFile opens s) := by
  unfold readFromStream readFromFile
  cases hfile : s.file with
  | none => rfl
  | some text =>
    cases opens with
    | false => rfl
    | true =>
      have hgood : (Stream.open text failsAt).fails = false := by
        rw [Bool.eq_false_iff, ne_eq, open_fails]
        intro hfails
        obtain ⟨i, hi, hle⟩ := hfails
        exact absurd (h text hfile rfl i hi) (by omega)
      simp only [if_true, open_of_not_fails hgood, readLoop_eq (htext text hfile)]
      rfl

theorem readFromStream_fails {s : CSettings} {i : ℕ} (hfile : s.file = some text)
    (hi : i ≤ text.length) (fuel : ℕ) : readFromStream (some i) true fuel s = none := by
  have hfails : (Stream.open text (some i)).fails = true := open_fails.mpr ⟨i, rfl, hi⟩
  rw [readFromStream, hfile]
  simp only [if_true, readLoop_fails hfails (open_eofbit text (some i)), Option.map_none]

/-- The reading ends if and only if no I/O error comes up to the end of the file. -/
theorem readFromStream_ends_iff (failsAt : Option ℕ) (opens : Bool) (s : CSettings) :
    (∃ fuel, (readFromStream failsAt opens fuel s).isSome = true) ↔
      ∀ text, s.file = some text → opens = true → ∀ i, failsAt = some i → text.length < i := by
  refine ⟨?_, ?_⟩
  · intro h text hfile hopens i hi
    obtain ⟨fuel, hends⟩ := h
    by_contra hle
    rw [hi, hopens, readFromStream_fails hfile (Nat.not_lt.mp hle) fuel] at hends
    cases hends
  · intro h
    refine ⟨(s.file.elim 0 List.length) + 2, ?_⟩
    rw [readFromStream_eq _ h]
    · rfl
    · intro text htext
      rw [htext]
      exact Nat.lt_succ_self _

/-- A file that cannot be read at all keeps the constructor in the loop. -/
theorem unreadable_file : ¬ ∀ (failsAt : Option ℕ) (opens : Bool) (s : CSettings),
    ∃ fuel, (readFromStream failsAt opens fuel s).isSome = true := by
  intro h
  obtain ⟨fuel, hends⟩ := h (some 0) true { file := some ['a', '=', 'b'], data := ∅ }
  rw [readFromStream_fails rfl (Nat.zero_le _) fuel] at hends
  cases hends

end Peripherals.Settings
