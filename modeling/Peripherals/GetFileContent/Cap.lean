import Mathlib.Data.List.Perm.Subperm
import Peripherals.GetFileContent.Exactness
import Peripherals.GetFileContent.Wildcards

/-! The number of lines in the result of a search. -/

namespace Peripherals.GetFileContent

namespace Query

variable {N : Type} {q : Query N} {s : Search} {segments path : List Text} {segment : Text}
  {remaining : ℕ}

/-- The wildcards before the last segment select one entry at most in each directory
that the segments before them lead to. -/
def Narrow (q : Query N) (segments : List Text) : Prop :=
  ∀ path segment, q.LeadsTo segments path segment → path.length + 1 < segments.length →
    hasWildcard segment = true → (q.selected segment path).length ≤ 1

theorem last_capped (h : s.pathList.length ≤ path.length + 1) :
    (q.searchFilesRec (remaining + 1) path.length s).2.result.length ≤ s.result.length + 10 := by
  rw [searchFilesRec_last h]
  dsimp only
  split
  · cases q.fs.opendir (directoryPath (s.pathList.take path.length)) with
    | none => simp
    | some entries => exact searchEntries_length entries 0 (by omega) _ _
  · split
    · simp
    · omega

theorem searchFilesRec_capped (hn : q.Narrow segments) (hsegments : NoSlash segments)
    (hpasses : q.Passes segments path) (hpath : s.pathList = path ++ segments.drop path.length) :
    (q.searchFilesRec remaining path.length s).2.result.length ≤ s.result.length + 10 := by
  induction remaining generalizing path s with
  | zero => exact Nat.le_add_right _ _
  | succ remaining ih =>
    by_cases hinner : path.length + 1 < segments.length
    swap
    · refine last_capped ?_
      rw [hpath, List.length_append, List.length_drop]
      omega
    have hlt : path.length < segments.length := by omega
    obtain ⟨segment, hget⟩ : ∃ segment, segments[path.length] = segment := ⟨_, rfl⟩
    have hleads : q.LeadsTo segments path segment :=
      ⟨hpasses, List.getElem?_eq_some_iff.mpr ⟨hlt, hget⟩⟩
    have hdrop : segments.drop path.length = segment :: segments.drop (path.length + 1) := by
      rw [← hget]
      exact List.drop_eq_getElem_cons hlt
    have hsegment : s.pathList.getD path.length [] = segment := by
      rw [hpath, hdrop]
      simp
    have hnext {name : Text} (hname : name ∈ q.candidates segment path) {s' : Search}
        (hs' : s'.pathList = path ++ name :: segments.drop (path.length + 1)) :
        (q.searchFilesRec remaining (path.length + 1) s').2.result.length ≤
          s'.result.length + 10 := by
      have hpasses' := (passes_snoc hleads.segment).mpr ⟨hpasses, hname⟩
      have hle := ih hpasses' (by simpa using hs')
      rwa [List.length_append, List.length_singleton] at hle
    have htake : s.pathList.take path.length = path := by
      rw [hpath]
      simp
    have hlength : path.length + 1 < s.pathList.length := by
      rw [hpath, List.length_append, List.length_drop]
      omega
    rw [searchFilesRec_inner hlength, hsegment, htake,
      FileSystem.opendir_directoryPath (hpasses.noSlash hsegments)]
    by_cases hwild : hasWildcard segment = true
    · rw [if_pos hwild]
      cases hentries : q.fs.names path with
      | none => exact Nat.le_add_right _ _
      | some entries =>
        have hone := hn path _ hleads hinner hwild
        rw [Option.elim_some, ← selected_eq hentries]
        rcases hc : q.selected segment path with _ | ⟨name, _ | ⟨name', later⟩⟩
        · exact Nat.le_add_right _ _
        · have hname : name ∈ q.candidates segment path := by
            simp [candidates_of_wildcard hwild, hc]
          refine hnext hname ?_
          rw [hpath, hdrop]
          simp
        · rw [hc] at hone
          simp at hone
    · rw [if_neg hwild]
      have hname : segment ∈ q.candidates segment path := by
        simp [candidates_of_literal hwild]
      refine hnext hname ?_
      rw [hpath, hdrop]

def AtMostTen (q : Query N) (segments : List Text) : Prop :=
  ∃ paths : List (List Text), paths.length ≤ 10 ∧ ∀ path, q.Qualifies segments path → path ∈ paths

theorem length_le_iff {found : List (List Text)} (h : q.Found segments [] found) :
    found.length ≤ 10 ↔ q.AtMostTen segments := by
  have hqualifies (path : List Text) : path ∈ found ↔ q.Qualifies segments path :=
    h.exact path List.nil_prefix
  refine ⟨fun hle ↦ ⟨found, hle, fun path ↦ (hqualifies path).mpr⟩, ?_⟩
  intro hten
  obtain ⟨paths, hle, hpaths⟩ := hten
  have hsubset : found ⊆ paths := fun path hpath ↦ hpaths path ((hqualifies path).mp hpath)
  exact (h.nodup.subperm hsubset).length_le.trans hle

/-- A search that never branches before the last segment comes to it once, and one call
stays within the cap; a search that branches undisturbed has as many lines as paths qualify. -/
theorem searchFiles_capped (q : Query N) :
    (∀ inputPath, q.Narrow ((split inputPath).drop 1) →
      (q.searchFiles inputPath []).2.length ≤ 10) ∧
    ∀ path, q.Undisturbed (split path) →
      ((q.searchFiles ('/' :: path) []).2.length ≤ 10 ↔ q.AtMostTen (split path)) := by
  refine ⟨?_, ?_⟩
  · intro inputPath hn
    have hsegments : NoSlash ((split inputPath).drop 1) :=
      fun part hpart ↦ split_noSlash inputPath part (List.mem_of_mem_drop hpart)
    have hpasses : q.Passes ((split inputPath).drop 1) [] := by simp [Passes]
    exact (searchFilesRec_capped (s := ⟨_, []⟩) hn hsegments hpasses rfl).trans (by simp)
  · intro path hu
    obtain ⟨found, hresult, hfound⟩ := searchFiles_found q path hu
    rw [hresult, List.length_map]
    exact length_le_iff hfound

def letters : List Text := "abcdefghijk".toList.map ([·])

def elevenDirectories : Query Node := withRegex (directories letters (by decide) (by decide)) []

theorem searchFiles_capped_elevenDirectories :
    (elevenDirectories.searchFiles "/k*/x".toList []).2.length ≤ 10 ∧
      ((elevenDirectories.searchFiles "/*/x".toList []).2.length ≤ 10 ↔
        elevenDirectories.AtMostTen (split "*/x".toList)) := by
  refine ⟨(searchFiles_capped elevenDirectories).1 _ ?_,
    (searchFiles_capped elevenDirectories).2 _ (undisturbed_rootOnly _)⟩
  intro path segment hleads hinner hwild
  have hbound : path.length + 1 < 2 := hinner
  obtain rfl : path = [] := List.length_eq_zero_iff.mp (by omega)
  obtain rfl : "k*".toList = segment := Option.some.inj hleads.segment
  have hselected : elevenDirectories.selected "k*".toList [] = [['k']] := by
    decide +kernel
  rw [hselected]
  exact Nat.le_refl 1

/-- Each call counts anew, so eleven directories give eleven lines. -/
theorem eleven_results : ¬ ∀ (fs : FileSystem Node) (exclusions : List Text) (inputPath : Text),
    ((withRegex fs exclusions).searchFiles inputPath []).2.length ≤ 10 := by
  intro h
  have hcap := h elevenDirectories.fs [] "/*/x".toList
  revert hcap
  decide +kernel

end Query

end Peripherals.GetFileContent
