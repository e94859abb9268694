import Peripherals.GetFileContent.SearchFiles

namespace Peripherals.GetFileContent

namespace Query

variable {N : Type}

/-- The entries of a directory that match a segment and are not excluded. -/
def selected (q : Query N) (segment : Text) (path : List Text) : List Text :=
  ((q.fs.names path).getD []).filter (q.isSelected segment)

/-- Where a segment leads to from a directory. -/
def candidates (q : Query N) (segment : Text) (path : List Text) : List Text :=
  if hasWildcard segment then q.selected segment path else [segment]

/-- Every part of the path is one that the segment in its place leads to. -/
def Passes (q : Query N) (segments path : List Text) : Prop :=
  ∀ i name, path[i]? = some name →
    ∃ segment, segments[i]? = some segment ∧ name ∈ q.candidates segment (path.take i)

structure Qualifies (q : Query N) (segments path : List Text) : Prop where
  length : path.length = segments.length
  passes : q.Passes segments path
  found : q.fs.Exists path

/-- The segments before it lead to a directory for the segment. -/
structure LeadsTo (q : Query N) (segments path : List Text) (segment : Text) : Prop where
  passes : q.Passes segments path
  segment : segments[path.length]? = some segment

/-- No directory holds a second name for the last segment, and a wildcard before it
selects one name at most where it selects in several directories. -/
structure Undisturbed (q : Query N) (segments : List Text) : Prop where
  last : ∀ path segment, q.LeadsTo segments path segment → path.length + 1 = segments.length →
    (q.candidates segment path).length ≤ 1
  inner : ∀ path path' segment name, path ≠ path' → path'.length = path.length →
    path.length + 1 < segments.length → hasWildcard segment = true →
      q.LeadsTo segments path segment → name ∈ q.selected segment path →
        q.LeadsTo segments path' segment →
          hasWildcard name = false ∧ (∀ name' ∈ q.selected segment path', name' = name) ∧
            (q.fs.Exists (path' ++ [name]) → name ∈ q.selected segment path')

variable {q : Query N} {segments path path' : List Text} {segment name : Text}

theorem selected_eq {entries : List Text} (h : q.fs.names path = some entries) :
    q.selected segment path = entries.filter (q.isSelected segment) := by
  rw [selected, h]
  rfl

theorem selected_of_no_names (h : q.fs.names path = none) : q.selected segment path = [] := by
  rw [selected, h]
  rfl

theorem candidates_of_wildcard (h : hasWildcard segment = true) :
    q.candidates segment path = q.selected segment path := if_pos h

theorem candidates_of_literal (h : ¬ hasWildcard segment = true) :
    q.candidates segment path = [segment] := if_neg h

theorem noSlash_selected (q : Query N) (segment : Text) (path : List Text) :
    NoSlash (q.selected segment path) := by
  intro name hname
  cases hnames : q.fs.names path with
  | none =>
    rw [selected_of_no_names hnames] at hname
    cases hname
  | some entries =>
    rw [selected_eq hnames] at hname
    exact (FileSystem.isName_of_mem hnames (List.mem_of_mem_filter hname)).2

theorem nodup_selected (q : Query N) (segment : Text) (path : List Text) :
    (q.selected segment path).Nodup := by
  cases hnames : q.fs.names path with
  | none =>
    rw [selected_of_no_names hnames]
    exact List.nodup_nil
  | some entries =>
    rw [selected_eq hnames]
    exact (FileSystem.names_nodup hnames).filter _

theorem Passes.noSlash (h : q.Passes segments path) (hsegments : NoSlash segments) :
    NoSlash path := by
  intro part hpart
  obtain ⟨i, hi⟩ := List.mem_iff_getElem?.mp hpart
  obtain ⟨segment, hsegment, hname⟩ := h i part hi
  by_cases hwild : hasWildcard segment = true
  · rw [candidates_of_wildcard hwild] at hname
    exact noSlash_selected q segment _ part hname
  · rw [candidates_of_literal hwild, List.mem_singleton] at hname
    rw [hname]
    exact hsegments segment (List.mem_of_getElem? hsegment)

theorem Passes.shorter (h : q.Passes segments path') (hpre : path <+: path') :
    q.Passes segments path := by
  obtain ⟨rest, rfl⟩ := hpre
  intro i name hi
  have hlt : i < path.length := (List.getElem?_eq_some_iff.mp hi).1
  obtain ⟨segment, hsegment, hname⟩ := h i name (by rwa [List.getElem?_append_left hlt])
  rw [List.take_append_of_le_length (Nat.le_of_lt hlt)] at hname
  exact ⟨segment, hsegment, hname⟩

theorem passes_snoc (hsegment : segments[path.length]? = some segment) :
    q.Passes segments (path ++ [name]) ↔
      q.Passes segments path ∧ name ∈ q.candidates segment path := by
  refine ⟨?_, ?_⟩
  · intro h
    refine ⟨h.shorter (List.prefix_append path [name]), ?_⟩
    obtain ⟨segment', hsegment', hname⟩ := h path.length name (by simp)
    rw [hsegment] at hsegment'
    obtain rfl := Option.some.inj hsegment'
    simpa using hname
  · intro h i other hi
    obtain ⟨hpath, hname⟩ := h
    by_cases hlt : i < path.length
    · rw [List.getElem?_append_left hlt] at hi
      rw [List.take_append_of_le_length (Nat.le_of_lt hlt)]
      exact hpath i other hi
    · obtain rfl : i = path.length := by
        have hbound := (List.getElem?_eq_some_iff.mp hi).1
        rw [List.length_append, List.length_singleton] at hbound
        omega
      obtain rfl : name = other := by simpa using hi
      exact ⟨segment, hsegment, by simpa using hname⟩

/-- A qualifying path below a directory goes on to a name that the segment leads to. -/
theorem Qualifies.next (h : q.Qualifies segments path') (hpre : path <+: path')
    (hsegment : segments[path.length]? = some segment) :
    q.Passes segments path ∧ ∃ name ∈ q.candidates segment path, path ++ [name] <+: path' := by
  obtain ⟨rest, rfl⟩ := hpre
  cases rest with
  | nil =>
    have hbound := (List.getElem?_eq_some_iff.mp hsegment).1
    have hlength := h.length
    rw [List.append_nil] at hlength
    omega
  | cons name rest =>
    have hname : path ++ [name] <+: path ++ name :: rest := ⟨rest, by simp⟩
    obtain ⟨hpath, hcandidate⟩ := (passes_snoc hsegment).mp (h.passes.shorter hname)
    exact ⟨hpath, name, hcandidate, hname⟩

/-- The paths found below a directory are exactly those that qualify. -/
structure Found (q : Query N) (segments path : List Text) (found : List (List Text)) : Prop where
  nodup : found.Nodup
  exact : ∀ path', path <+: path' → (path' ∈ found ↔ q.Qualifies segments path')

structure FoundIn (q : Query N) (segments path : List Text) (names : List Text)
    (found : List (List Text)) : Prop where
  nodup : found.Nodup
  exact : ∀ name ∈ names, ∀ path', path ++ [name] <+: path' →
    (path' ∈ found ↔ q.Qualifies segments path')

variable {names : List Text} {found found' : List (List Text)}

theorem name_unique {name' : Text} (h : path ++ [name] <+: path')
    (h' : path ++ [name'] <+: path') : name = name' := by
  have heq := (List.prefix_of_prefix_length_le h h' (by simp)).eq_of_length (by simp)
  simpa using heq

theorem found_iff (hsegment : segments[path.length]? = some segment)
    (hfound : ∀ path' ∈ found, ∃ name ∈ names, path ++ [name] <+: path') :
    q.Found segments path found ↔ q.FoundIn segments path names found ∧
      (q.Passes segments path → ∀ name ∈ q.candidates segment path, name ∉ names →
        ∀ path', path ++ [name] <+: path' → ¬ q.Qualifies segments path') := by
  refine ⟨?_, ?_⟩
  · intro h
    refine ⟨⟨h.nodup, ?_⟩, ?_⟩
    · intro name _ path' hpre
      exact h.exact path' ((List.prefix_append path [name]).trans hpre)
    · intro _ name _ hname path' hpre hqualifies
      have hmem := (h.exact path' ((List.prefix_append path [name]).trans hpre)).mpr hqualifies
      obtain ⟨name', hname', hpre'⟩ := hfound path' hmem
      exact hname (name_unique hpre hpre' ▸ hname')
  · intro h
    obtain ⟨hin, hother⟩ := h
    refine ⟨hin.nodup, ?_⟩
    intro path' hpre
    refine ⟨?_, ?_⟩
    · intro hmem
      obtain ⟨name, hname, hpre'⟩ := hfound path' hmem
      exact (hin.exact name hname path' hpre').mp hmem
    · intro hqualifies
      obtain ⟨hpasses, name, hcandidate, hpre'⟩ := hqualifies.next hpre hsegment
      by_cases hname : name ∈ names
      · exact (hin.exact name hname path' hpre').mpr hqualifies
      · exact (hother hpasses name hcandidate hname path' hpre' hqualifies).elim

/-- The names of a directory are found one after the other. -/
theorem foundIn_cons (hname : name ∉ names) (hfound : ∀ path' ∈ found, path ++ [name] <+: path')
    (hfound' : ∀ path' ∈ found', ∃ name' ∈ names, path ++ [name'] <+: path') :
    q.FoundIn segments path (name :: names) (found ++ found') ↔
      q.Found segments (path ++ [name]) found ∧ q.FoundIn segments path names found' := by
  have hnot {path' : List Text} (hpre : path ++ [name] <+: path') : path' ∉ found' := by
    intro hmem
    obtain ⟨name', hname', hpre'⟩ := hfound' path' hmem
    exact hname (name_unique hpre hpre' ▸ hname')
  have hnot' {name' : Text} (hname' : name' ∈ names) {path' : List Text}
      (hpre : path ++ [name'] <+: path') : path' ∉ found := by
    intro hmem
    exact hname (name_unique hpre (hfound path' hmem) ▸ hname')
  refine ⟨?_, ?_⟩
  · intro h
    obtain ⟨hnodup, hexact⟩ := h
    obtain ⟨hleft, hright, -⟩ := List.nodup_append.mp hnodup
    refine ⟨⟨hleft, ?_⟩, hright, ?_⟩
    · intro path' hpre
      rw [← hexact name List.mem_cons_self path' hpre, List.mem_append]
      simp [hnot hpre]
    · intro name' hname' path' hpre
      rw [← hexact name' (List.mem_cons_of_mem name hname') path' hpre, List.mem_append]
      simp [hnot' hname' hpre]
  · intro h
    obtain ⟨⟨hnodup, hexact⟩, hnodup', hexact'⟩ := h
    refine ⟨?_, ?_⟩
    · refine List.nodup_append.mpr ⟨hnodup, hnodup', ?_⟩
      intro path' hmem path'' hmem' heq
      exact hnot (heq ▸ hfound path' hmem) hmem'
    · intro name' hname' path' hpre
      rw [List.mem_append]
      rcases List.mem_cons.mp hname' with rfl | hname'
      · simp [hnot hpre, hexact path' hpre]
      · simp [hnot' hname' hpre, hexact' name' hname' path' hpre]

/-- Below the directory of the last segment. -/
theorem qualifies_snoc (hsegment : segments[path.length]? = some segment)
    (hlast : path.length + 1 = segments.length) : q.Qualifies segments (path ++ [name]) ↔
      q.Passes segments path ∧ name ∈ q.candidates segment path ∧
        q.fs.Exists (path ++ [name]) := by
  refine ⟨?_, ?_⟩
  · intro h
    obtain ⟨hpath, hname⟩ := (passes_snoc hsegment).mp h.passes
    exact ⟨hpath, hname, h.found⟩
  · intro h
    obtain ⟨hpath, hname, hexists⟩ := h
    exact ⟨by simpa using hlast, (passes_snoc hsegment).mpr ⟨hpath, hname⟩, hexists⟩

theorem Qualifies.last (h : q.Qualifies segments path') (hpre : path <+: path')
    (hlast : path.length + 1 = segments.length) : ∃ name, path' = path ++ [name] := by
  obtain ⟨rest, rfl⟩ := hpre
  have hlength := h.length
  rw [List.length_append] at hlength
  have hone : rest.length = 1 := by omega
  obtain ⟨name, rfl⟩ := List.length_eq_one_iff.mp hone
  exact ⟨name, rfl⟩

theorem found_none (hsegment : segments[path.length]? = some segment)
    (hc : q.candidates segment path = []) : q.Found segments path [] := by
  refine ⟨List.nodup_nil, ?_⟩
  intro path' hpre
  refine iff_of_false List.not_mem_nil ?_
  intro h
  obtain ⟨-, name, hname, -⟩ := h.next hpre hsegment
  rw [hc] at hname
  cases hname

/-- The only name that the last segment leads to is found if it exists. -/
theorem found_last_one (hsegment : segments[path.length]? = some segment)
    (hlast : path.length + 1 = segments.length) (hc : q.candidates segment path = [name])
    (hpasses : q.Passes segments path) (hnodup : found.Nodup)
    (hmem : ∀ path', path' ∈ found ↔ path' = path ++ [name] ∧ q.fs.Exists path') :
    q.Found segments path found := by
  refine ⟨hnodup, ?_⟩
  intro path' hpre
  rw [hmem path']
  refine ⟨?_, ?_⟩
  · intro h
    obtain ⟨rfl, hexists⟩ := h
    rw [qualifies_snoc hsegment hlast]
    exact ⟨hpasses, by simp [hc], hexists⟩
  · intro h
    obtain ⟨other, rfl⟩ := h.last hpre hlast
    have hother := ((qualifies_snoc hsegment hlast).mp h).2.1
    rw [hc, List.mem_singleton] at hother
    rw [← hother]
    exact ⟨rfl, h.found⟩

end Query

end Peripherals.GetFileContent
