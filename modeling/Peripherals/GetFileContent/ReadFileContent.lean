import Peripherals.Fgets
import Peripherals.GetFileContent.FileSystem
import Peripherals.Settings.CSettings

namespace Peripherals.GetFileContent

open Fgets
open Settings (nul cStr cStr_of_not_mem nul_not_mem_cStr)

def readBufferSize : ℕ := 1024

/-- The body of the loop of `readFileContent`: the buffer is appended as a C string. -/
def appendBuffer (s : Bool × Text) (buffer : Text) : (Bool × Text) × Bool :=
  ((true, s.2 ++ cStr buffer), false)

/-- A missing file stands for one that cannot be opened, and `none` for a loop that
calls `fgets` more than `fuel` times. -/
def readFileContent (file : Option Text) (fuel : ℕ) (content : Text) : Option (Bool × Text) :=
  match file with
  | some text => whileFgets '\n' (readBufferSize - 1) appendBuffer fuel (false, content) text
  | none => some (false, content)

variable {text content : Text} {fuel : ℕ}

theorem foldUntil_appendBuffer (found : Bool) (content : Text) (buffers : List Text) :
    foldUntil appendBuffer (found, content) buffers =
      (found || !buffers.isEmpty, content ++ buffers.flatMap cStr) := by
  induction buffers generalizing found content with
  | nil => simp [foldUntil]
  | cons buffer buffers ih =>
    rw [foldUntil]
    simp [appendBuffer, ih]

/-- The loop ends, and appends of every buffer what is before its first NUL. -/
theorem readFileContent_eq (hfuel : text.length < fuel) (content : Text) :
    readFileContent (some text) fuel content =
      some (!text.isEmpty, content ++ (chunks '\n' 1022 text).flatMap cStr) := by
  have hempty : (chunks '\n' 1022 text).isEmpty = text.isEmpty := by
    rw [Bool.eq_iff_iff, List.isEmpty_iff, List.isEmpty_iff, chunks_eq_nil]
  calc readFileContent (some text) fuel content
      = some (foldUntil appendBuffer (false, content) (chunks '\n' 1022 text)) :=
        whileFgets_eq hfuel _
    _ = some (!text.isEmpty, content ++ (chunks '\n' 1022 text).flatMap cStr) := by
        rw [foldUntil_appendBuffer, Bool.false_or, hempty]

theorem flatMap_cStr_chunks (text : Text) :
    (chunks '\n' 1022 text).flatMap cStr = text ↔ nul ∉ text := by
  have hflatten := flatten_chunks '\n' 1022 text
  refine ⟨?_, ?_⟩
  · intro h hmem
    rw [← h] at hmem
    obtain ⟨buffer, -, hbuffer⟩ := List.mem_flatMap.mp hmem
    exact nul_not_mem_cStr buffer hbuffer
  · intro h
    have hplain : ∀ buffer ∈ chunks '\n' 1022 text, cStr buffer = buffer := by
      intro buffer hbuffer
      apply cStr_of_not_mem
      intro hmem
      exact h (hflatten ▸ List.mem_flatten_of_mem hbuffer hmem)
    rw [List.flatMap_congr hplain, List.flatMap_id', hflatten]

/-- A file is read as a whole if and only if there is no NUL in it. -/
theorem readFileContent_whole_iff (text content : Text) :
    (∀ fuel, text.length < fuel →
      readFileContent (some text) fuel content = some (!text.isEmpty, content ++ text)) ↔
      nul ∉ text := by
  rw [← flatMap_cStr_chunks]
  refine ⟨?_, ?_⟩
  · intro h
    have hread := h _ (Nat.lt_succ_self _)
    rw [readFileContent_eq (Nat.lt_succ_self _)] at hread
    exact List.append_cancel_left (Prod.mk.inj (Option.some.inj hread)).2
  · intro h fuel hfuel
    rw [readFileContent_eq hfuel, h]

/-- The bytes after a NUL are lost up to the end of the line. -/
theorem readFileContent_nul : ¬ ∀ (text content : Text) (fuel : ℕ), text.length < fuel →
    readFileContent (some text) fuel content = some (!text.isEmpty, content ++ text) := by
  intro h
  have hread := h ['a', nul, 'b', '\n', 'c'] [] 6 (by decide)
  revert hread
  decide

end Peripherals.GetFileContent
