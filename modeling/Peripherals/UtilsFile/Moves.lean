import Peripherals.Execution
import Peripherals.UtilsFile
import Mathlib.Logic.Equiv.Basic

namespace Peripherals.UtilsFile

open Execution Function

variable {Path : Type*} [DecidableEq Path]

structure Move (Path : Type*) where
  fileFrom : Path
  fileTo : Path
  script : List Outcome

/-- The files, and the path where each of them was at first. -/
structure State (Path : Type*) where
  files : Files Path
  origin : Equiv.Perm Path

def State.start (files : Files Path) : State Path := ⟨files, Equiv.refl Path⟩

def step (s : State Path) (a : Move Path) : Option (State Path) :=
  match MoveFile s.files a.fileFrom a.fileTo a.script with
  | .done (true, files) => some ⟨files, (Equiv.swap a.fileFrom a.fileTo).trans s.origin⟩
  | .done (false, files) => some ⟨files, s.origin⟩
  | _ => none

inductive IsCut : Option (List UInt8) → Option (List UInt8) → Prop
  | none : IsCut none none
  | some {cut content : List UInt8} : cut <+: content → IsCut (some cut) (some content)

theorem IsCut.refl (file : Option (List UInt8)) : IsCut file file := by
  cases file with
  | none => exact .none
  | some content => exact .some (List.prefix_refl content)

theorem IsCut.trans {x y z : Option (List UInt8)} (h : IsCut x y) (h' : IsCut y z) :
    IsCut x z := by
  cases h with
  | none => exact h'
  | some hxy =>
    cases h' with
    | some hyz => exact .some (hxy.trans hyz)

theorem IsCut.antisymm {x y : Option (List UInt8)} (h : IsCut x y) (h' : IsCut y x) : x = y := by
  cases h with
  | none => rfl
  | some hxy =>
    cases h' with
    | some hyx => rw [hxy.eq_of_length_le hyx.length_le]

def ReadsWhole (s : State Path) (a : Move Path) : Prop :=
  ∀ content, s.files a.fileFrom = some content → s.files a.fileTo = none →
    ReadsToEnd content a.script

variable {s s' : State Path} {a : Move Path} {files : Files Path} {tr : List (Move Path)}
  {p : Path}

theorem movedPrefix_to {fileFrom fileTo : Path} {content : List UInt8} {n : ℕ}
    (hne : fileFrom ≠ fileTo) :
    movedPrefix files fileFrom fileTo content n fileTo = some (content.take n) := by
  rw [movedPrefix, update_of_ne hne.symm, update_self]

theorem movedPrefix_other {fileFrom fileTo : Path} {content : List UInt8} {n : ℕ}
    (hto : files fileTo = none) (hp : p ≠ fileTo) :
    movedPrefix files fileFrom fileTo content n p = files (Equiv.swap fileFrom fileTo p) := by
  unfold movedPrefix
  by_cases hfrom : p = fileFrom
  · rw [hfrom, update_self, Equiv.swap_apply_left, hto]
  · rw [update_of_ne hfrom, update_of_ne hp, Equiv.swap_apply_of_ne_of_ne hfrom hp]

/-- A step renames the files by a permutation of the paths, and cuts none of them off if
and only if the source is read to its end. -/
theorem step_moves (h : step s a = some s') : ∃ moved : Equiv.Perm Path,
    s'.origin = moved.trans s.origin ∧ (∀ p, IsCut (s'.files p) (s.files (moved p))) ∧
    ((∀ p, s'.files p = s.files (moved p)) ↔ ReadsWhole s a) := by
  unfold step at h
  split at h
  · rename_i files hdone
    obtain rfl := Option.some.inj h
    obtain ⟨hresult, -⟩ | ⟨-, content, len, hfrom, hto, hfailure, rfl⟩ := MoveFile_done hdone
    · cases hresult
    have hne : a.fileFrom ≠ a.fileTo := by
      intro he
      rw [he, hto] at hfrom
      cases hfrom
    refine ⟨Equiv.swap a.fileFrom a.fileTo, rfl, ?_⟩
    dsimp only
    refine ⟨fun p ↦ ?_, ?_, ?_⟩
    · by_cases hp : p = a.fileTo
      · rw [hp, movedPrefix_to hne, Equiv.swap_apply_right, hfrom]
        exact .some (List.take_prefix _ content)
      · rw [movedPrefix_other hto hp]
        exact .refl _
    · intro hsame content' hfrom' _ _ _
      obtain rfl : content = content' := Option.some.inj (hfrom.symm.trans hfrom')
      have hmoved := hsame a.fileTo
      rw [Equiv.swap_apply_right, hfrom] at hmoved
      exact (movedPrefix_eq_iff hne).mp hmoved
    · intro hwhole p
      by_cases hp : p = a.fileTo
      · have hle := hwhole content hfrom hto len hfailure
        rw [hp, movedPrefix_to hne, Equiv.swap_apply_right, hfrom, List.take_of_length_le hle]
      · exact movedPrefix_other hto hp
  · rename_i files hdone
    obtain rfl := Option.some.inj h
    obtain ⟨-, rfl, hnot⟩ | ⟨hresult, -⟩ := MoveFile_done hdone
    · refine ⟨Equiv.refl Path, rfl, fun p ↦ .refl _, iff_of_true (fun p ↦ rfl) ?_⟩
      intro content hfrom hto len hfailure
      exact (hnot content len hfrom hto hfailure).elim
    · cases hresult
  · cases h

/-- Every file is at the path that it has been moved to, if it has not been cut off. -/
structure Moved (files : Files Path) (tr : List (Move Path)) (s : State Path) : Prop where
  cut : ∀ p, IsCut (s.files p) (files (s.origin p))
  whole : (∀ p, s.files p = files (s.origin p)) ↔ Along step (.start files) ReadsWhole tr

/-- However opening, creating, reading and writing fail, the files are only renamed, one to
a path; and their contents are what they were if and only if every source has been read to
its end. -/
theorem run_moved (h : Run step (.start files) tr s) : Moved files tr s := by
  induction h with
  | nil => exact ⟨fun p ↦ .refl _, iff_of_true (fun p ↦ rfl) along_nil⟩
  | @snoc tr s s' a h hs ih =>
    obtain ⟨moved, horigin, hcut, hwhole⟩ := step_moves hs
    have horigin' : ∀ p, s'.origin p = s.origin (moved p) := fun p ↦ by rw [horigin]; rfl
    refine ⟨fun p ↦ ?_, ?_⟩
    · rw [horigin']
      exact (hcut p).trans (ih.cut (moved p))
    · rw [along_snoc h, ← ih.whole, ← hwhole]
      refine ⟨?_, ?_⟩
      · intro hsame
        have hbefore : ∀ p, s.files (moved p) = files (s.origin (moved p)) := by
          intro p
          refine (ih.cut (moved p)).antisymm ?_
          rw [← horigin', ← hsame p]
          exact hcut p
        refine ⟨fun p ↦ ?_, fun p ↦ ?_⟩
        · simpa using hbefore (moved.symm p)
        · rw [hsame p, horigin', hbefore p]
      · intro hboth p
        rw [hboth.2 p, hboth.1 (moved p), horigin']

/-- There, in a copy that fails at first, and back. -/
def thereAndBack : List (Move String) :=
  [⟨"from", "to", [.opened true, .created true, .read 2, .wrote 0]⟩, ⟨"from", "to", copied⟩,
    ⟨"to", "from", copied⟩]

theorem run_moved_thereAndBack : ∃ s, Run step (.start oneFile) thereAndBack s ∧
    Moved oneFile thereAndBack s := by
  obtain ⟨s, hs⟩ : ∃ s, Run step (.start oneFile) thereAndBack s := exists_run (by decide +kernel)
  exact ⟨s, hs, run_moved hs⟩

end Peripherals.UtilsFile
