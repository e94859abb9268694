import Peripherals.GetFileContent.FileSystem

namespace Peripherals.GetFileContent

variable {N : Type}

/-- Where is searched and what for; `regexSearch` tells whether a name matches a segment. -/
structure Query (N : Type) where
  fs : FileSystem N
  regexSearch : Text → Text → Bool
  exclusions : List Text

/-- The segments as they stand, and the lines of the result. -/
structure Search where
  pathList : List Text
  result : List Text

def hasWildcard (segment : Text) : Bool := segment.contains '*' || segment.contains '?'

namespace Query

def isSelected (q : Query N) (segment fileName : Text) : Bool :=
  !(fileName = ['.'] || fileName = ['.', '.']) && q.regexSearch segment fileName &&
    !q.exclusions.contains fileName

/-- The loop over the entries of a directory at the last segment. -/
def searchEntries (q : Query N) (segment : Text) :
    List Text → Text → ℕ → List Text → List Text
  | [], _, _, result => result
  | fileName :: entries, inputPath, count, result =>
    if q.isSelected segment fileName then
      let inputPath := inputPath ++ fileName
      if q.fs.access inputPath then
        if 10 ≤ count + 1 then result ++ [inputPath]
        else q.searchEntries segment entries inputPath (count + 1) (result ++ [inputPath])
      else q.searchEntries segment entries inputPath count result
    else q.searchEntries segment entries inputPath count result

/-- `remaining` is the number of segments from `currentDepth` on. -/
def searchFilesRec (q : Query N) : ℕ → ℕ → Search → Bool × Search
  | 0, _, s => (false, s)
  | remaining + 1, currentDepth, s =>
    let inputPath := directoryPath (s.pathList.take currentDepth)
    let currentPath := s.pathList.getD currentDepth []
    if hasWildcard currentPath then
      match q.fs.opendir inputPath with
      | none => (false, s)
      | some entries =>
        if s.pathList.length - 1 ≤ currentDepth then
          (true, { s with result := q.searchEntries currentPath entries inputPath 0 s.result })
        else
          (true, entries.foldl (fun s fileName ↦
            if q.isSelected currentPath fileName then
              (q.searchFilesRec remaining (currentDepth + 1)
                { s with pathList := s.pathList.set currentDepth fileName }).2
            else s) s)
    else if s.pathList.length - 1 ≤ currentDepth then
      if q.fs.access (inputPath ++ currentPath) then
        (true, { s with result := s.result ++ [inputPath ++ currentPath] })
      else (true, s)
    else (true, (q.searchFilesRec remaining (currentDepth + 1) s).2)

/-- What is before the first slash of `inputPath` is dropped. -/
def searchFiles (q : Query N) (inputPath : Text) (result : List Text) : Bool × List Text :=
  let pathList := (split inputPath).drop 1
  let (found, s) := q.searchFilesRec pathList.length 0 ⟨pathList, result⟩
  (found, s.result)

variable {q : Query N} {entries names result : List Text} {segment name line inputPath : Text}
  {s : Search} {remaining depth count : ℕ}

theorem searchEntries_filter (entries : List Text) (inputPath : Text) (count : ℕ)
    (result : List Text) : q.searchEntries segment entries inputPath count result =
      q.searchEntries segment (entries.filter (q.isSelected segment)) inputPath count result := by
  induction entries generalizing inputPath count result with
  | nil => rfl
  | cons fileName entries ih =>
    rw [List.filter_cons]
    split
    next hselected =>
      rw [searchEntries, searchEntries, if_pos hselected, if_pos hselected]
      dsimp only
      split
      · split
        · rfl
        · exact ih _ _ _
      · exact ih _ _ _
    next hselected =>
      rw [searchEntries, if_neg hselected]
      exact ih _ _ _

theorem searchEntries_none (h : entries.filter (q.isSelected segment) = []) (inputPath : Text)
    (result : List Text) : q.searchEntries segment entries inputPath 0 result = result := by
  rw [searchEntries_filter, h, searchEntries]

theorem searchEntries_one (h : entries.filter (q.isSelected segment) = [name]) (inputPath : Text)
    (result : List Text) : q.searchEntries segment entries inputPath 0 result =
      if q.fs.access (inputPath ++ name) then result ++ [inputPath ++ name] else result := by
  have hname : name ∈ entries.filter (q.isSelected segment) := by simp [h]
  rw [searchEntries_filter, h, searchEntries, if_pos (List.of_mem_filter hname)]
  dsimp only
  split
  · split <;> simp [searchEntries]
  · rfl

theorem mem_searchEntries_cons (hname : q.isSelected segment name = true)
    (h : line ∈ q.searchEntries segment (name :: entries) inputPath count result) :
    line ∈ result ∨ line = inputPath ++ name ∨ ∃ count' result',
      (∀ other ∈ result', other ∈ result ∨ other = inputPath ++ name) ∧
        line ∈ q.searchEntries segment entries (inputPath ++ name) count' result' := by
  rw [searchEntries, if_pos hname] at h
  dsimp only at h
  split at h
  · have hadded : ∀ other ∈ result ++ [inputPath ++ name],
        other ∈ result ∨ other = inputPath ++ name := by simp
    split at h
    · exact (hadded line h).imp_right .inl
    · exact .inr (.inr ⟨count + 1, _, hadded, h⟩)
  · exact .inr (.inr ⟨count, result, fun _ ↦ .inl, h⟩)

/-- What the loop adds begins with the path that it has come to. -/
theorem prefix_of_mem_searchEntries
    (h : line ∈ q.searchEntries segment entries inputPath count result) :
    line ∈ result ∨ inputPath <+: line := by
  induction entries generalizing inputPath count result with
  | nil => exact .inl h
  | cons name entries ih =>
    have hfirst : inputPath <+: inputPath ++ name := List.prefix_append _ _
    by_cases hname : q.isSelected segment name = true
    · rcases mem_searchEntries_cons hname h with hline | rfl | ⟨count', result', hresult, hline⟩
      · exact .inl hline
      · exact .inr hfirst
      · rcases ih hline with hline | hpre
        · rcases hresult line hline with hline | rfl
          · exact .inl hline
          · exact .inr hfirst
        · exact .inr (hfirst.trans hpre)
    · rw [searchEntries, if_neg hname] at h
      exact ih h

/-- A second name is only tested behind the first one. -/
theorem mem_searchEntries_two {name' : Text}
    (hentries : entries.filter (q.isSelected segment) = name :: name' :: names)
    (h : line ∈ q.searchEntries segment entries inputPath count []) :
    line = inputPath ++ name ∨ inputPath ++ name ++ name' <+: line := by
  have hselected : ∀ other ∈ name :: name' :: names, q.isSelected segment other = true := by
    intro other hother
    exact List.of_mem_filter (hentries ▸ hother)
  rw [searchEntries_filter, hentries] at h
  rcases mem_searchEntries_cons (hselected name (by simp)) h with hnil | hline |
    ⟨count', result, hresult, hline⟩
  · cases hnil
  · exact .inl hline
  have hfirst : ∀ other ∈ result, other = inputPath ++ name := by
    intro other hother
    exact (hresult other hother).resolve_left List.not_mem_nil
  rcases mem_searchEntries_cons (hselected name' (by simp)) hline with hmem | rfl |
    ⟨count'', result', hresult', hline⟩
  · exact .inl (hfirst line hmem)
  · exact .inr (List.prefix_refl _)
  rcases prefix_of_mem_searchEntries hline with hmem | hpre
  · rcases hresult' line hmem with hmem | rfl
    · exact .inl (hfirst line hmem)
    · exact .inr (List.prefix_refl _)
  · exact .inr hpre

theorem searchEntries_length (entries : List Text) (count : ℕ) (hcount : count < 10)
    (inputPath : Text) (result : List Text) :
    (q.searchEntries segment entries inputPath count result).length ≤
      result.length + (10 - count) := by
  induction entries generalizing count inputPath result with
  | nil => simp [searchEntries]
  | cons fileName entries ih =>
    rw [searchEntries]
    split
    · dsimp only
      split
      · split
        · rw [List.length_append, List.length_singleton]
          omega
        · have hrest := ih (count + 1) (by omega) (inputPath ++ fileName)
            (result ++ [inputPath ++ fileName])
          rw [List.length_append, List.length_singleton] at hrest
          omega
      · exact ih count hcount _ _
    · exact ih count hcount _ _

/-- The calls for the entries of a directory before the last segment. -/
def visit (q : Query N) (remaining depth : ℕ) (s : Search) (names : List Text) : Search :=
  names.foldl (fun s name ↦ (q.searchFilesRec remaining (depth + 1)
    { s with pathList := s.pathList.set depth name }).2) s

/-- A call before the last segment. -/
theorem searchFilesRec_inner (h : depth + 1 < s.pathList.length) :
    (q.searchFilesRec (remaining + 1) depth s).2 =
      if hasWildcard (s.pathList.getD depth []) then
        (q.fs.opendir (directoryPath (s.pathList.take depth))).elim s fun entries ↦
          q.visit remaining depth s (entries.filter (q.isSelected (s.pathList.getD depth [])))
      else (q.searchFilesRec remaining (depth + 1) s).2 := by
  have hinner : ¬ s.pathList.length - 1 ≤ depth := by omega
  rw [searchFilesRec]
  simp only [hinner, if_false]
  split
  · cases q.fs.opendir (directoryPath (s.pathList.take depth)) with
    | none => rfl
    | some entries =>
      rw [Option.elim_some, visit, List.foldl_filter]
  · rfl

/-- A call at the last segment leaves the segments as they are. -/
theorem searchFilesRec_last (h : s.pathList.length ≤ depth + 1) :
    (q.searchFilesRec (remaining + 1) depth s).2 =
      let inputPath := directoryPath (s.pathList.take depth)
      let currentPath := s.pathList.getD depth []
      { s with
        result :=
          if hasWildcard currentPath then
            (q.fs.opendir inputPath).elim s.result fun entries ↦
              q.searchEntries currentPath entries inputPath 0 s.result
          else if q.fs.access (inputPath ++ currentPath) then
            s.result ++ [inputPath ++ currentPath]
          else s.result } := by
  have hlast : s.pathList.length - 1 ≤ depth := by omega
  rw [searchFilesRec]
  dsimp only
  simp only [hlast, if_true]
  split
  · cases q.fs.opendir (directoryPath (s.pathList.take depth)) with
    | none => rfl
    | some entries => rfl
  · split <;> rfl

end Query

end Peripherals.GetFileContent
