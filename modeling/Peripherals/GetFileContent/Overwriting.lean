import Peripherals.GetFileContent.Qualifying

/-! What a search does to the segments that it shares with its calls. -/

namespace Peripherals.GetFileContent

namespace Query

variable {N : Type} {q : Query N} {segments path : List Text} {name : Text}
  {pathList pathList' pathList'' : List Text} {s : Search} {depth remaining : ℕ}

theorem take_succ_getD (h : depth < pathList.length) :
    pathList.take (depth + 1) = pathList.take depth ++ [pathList.getD depth []] := by
  rw [List.take_succ_eq_append_getElem h]
  simp [h]

theorem take_set_succ (h : depth < pathList.length) (name : Text) :
    (pathList.set depth name).take (depth + 1) = pathList.take depth ++ [name] := by
  rw [List.take_succ_eq_append_getElem (by simpa using h), List.take_set_of_le (Nat.le_refl _)]
  simp

/-- Below a path that does not exist nothing is found and no segment is overwritten. -/
theorem searchFilesRec_dead (hslash : NoSlash s.pathList) (hlt : depth < s.pathList.length)
    (h : ¬ q.fs.Exists (s.pathList.take depth)) : (q.searchFilesRec remaining depth s).2 = s := by
  induction remaining generalizing depth with
  | zero => rfl
  | succ remaining ih =>
    have hpath := noSlash_take hslash depth
    have hdir : q.fs.opendir (directoryPath (s.pathList.take depth)) = none := by
      rw [FileSystem.opendir_directoryPath hpath, Option.eq_none_iff_forall_ne_some]
      exact fun names hnames ↦ h (FileSystem.exists_of_names hnames)
    have hnext : ¬ q.fs.Exists (s.pathList.take depth ++ [s.pathList.getD depth []]) :=
      fun hexists ↦ h hexists.shorter
    by_cases hinner : depth + 1 < s.pathList.length
    · rw [searchFilesRec_inner hinner, hdir]
      split
      · rfl
      · exact ih hinner (by rwa [take_succ_getD hlt])
    · have haccess : ¬ q.fs.access
          (directoryPath (s.pathList.take depth) ++ s.pathList.getD depth []) = true := by
        rw [directoryPath_append, FileSystem.access_iff (by simp)
          (noSlash_snoc hpath (noSlash_getD hslash depth))]
        exact hnext
      rw [searchFilesRec_last (by omega)]
      dsimp only
      rw [hdir, if_neg haccess]
      split <;> rfl

/-- A name that a wildcard before the last segment selects, and with which the
search overwrites the wildcard. -/
structure Overwrites (q : Query N) (segments path : List Text) (name : Text) : Prop where
  selected : ∃ segment, q.LeadsTo segments path segment ∧ hasWildcard segment = true ∧
    name ∈ q.selected segment path
  inner : path.length + 1 < segments.length

/-- The segments as a call below a path finds them. -/
structure Tracks (q : Query N) (segments path pathList : List Text) : Prop where
  length : pathList.length = segments.length
  here : pathList.take path.length = path
  kept : ∀ i, path.length ≤ i → pathList[i]? = segments[i]? ∨ ∃ other name,
    other.length = i ∧ ¬ path <+: other ∧ q.Overwrites segments other name ∧
      pathList[i]? = some name

/-- What a call below a path does to the segments. -/
structure Leaves (q : Query N) (segments path pathList pathList' : List Text) : Prop where
  length : pathList'.length = pathList.length
  here : pathList'.take path.length = pathList.take path.length
  changed : ∀ i, path.length ≤ i → pathList'[i]? = pathList[i]? ∨ ∃ other name,
    other.length = i ∧ path <+: other ∧ q.Overwrites segments other name ∧
      pathList'[i]? = some name

theorem Leaves.refl : q.Leaves segments path pathList pathList := ⟨rfl, rfl, fun _ _ ↦ .inl rfl⟩

theorem Leaves.trans (h : q.Leaves segments path pathList pathList')
    (h' : q.Leaves segments path pathList' pathList'') :
    q.Leaves segments path pathList pathList'' where
  length := h'.length.trans h.length
  here := h'.here.trans h.here
  changed i hi := by
    rcases h'.changed i hi with hsame | hnew
    · rw [hsame]
      exact h.changed i hi
    · exact .inr hnew

theorem Leaves.above (h : q.Leaves segments (path ++ [name]) pathList pathList') :
    q.Leaves segments path pathList pathList' where
  length := h.length
  here := by
    have hcut := congrArg (List.take path.length) h.here
    simpa [List.take_take] using hcut
  changed i hi := by
    by_cases heq : path.length = i
    · subst heq
      have hat := congrArg (fun l ↦ l[path.length]?) h.here
      exact .inl (by simpa [List.getElem?_take] using hat)
    · rcases h.changed i (by rw [List.length_append, List.length_singleton]; omega) with
        hsame | ⟨other, new, hlength, hpre, hover, hi⟩
      · exact .inl hsame
      · exact .inr ⟨other, new, hlength, (List.prefix_append path [name]).trans hpre, hover, hi⟩

theorem leaves_set (hover : q.Overwrites segments path name) (hlt : path.length < pathList.length) :
    q.Leaves segments path pathList (pathList.set path.length name) where
  length := List.length_set
  here := List.take_set_of_le (Nat.le_refl _)
  changed i hi := by
    by_cases heq : path.length = i
    · subst heq
      exact .inr ⟨path, name, rfl, List.prefix_refl path, hover, by simp [hlt]⟩
    · exact .inl (List.getElem?_set_ne heq)

theorem Tracks.noSlash (ht : q.Tracks segments path pathList) (hpasses : q.Passes segments path)
    (hsegments : NoSlash segments) : NoSlash pathList := by
  intro part hpart
  obtain ⟨i, hi⟩ := List.mem_iff_getElem?.mp hpart
  by_cases hlt : i < path.length
  · have hmem : part ∈ path := by
      rw [← ht.here]
      exact List.mem_of_getElem? (by rwa [List.getElem?_take_of_lt hlt])
    exact hpasses.noSlash hsegments part hmem
  · rcases ht.kept i (by omega) with hsame | ⟨other, name, -, -, hover, hname⟩
    · exact hsegments part (List.mem_of_getElem? (hsame ▸ hi))
    · obtain ⟨segment, -, -, hselected⟩ := hover.selected
      obtain rfl := Option.some.inj (hname.symm.trans hi)
      exact noSlash_selected q segment other name hselected

/-- The search goes on to a name of the directory. -/
theorem Tracks.next (ht : q.Tracks segments path pathList) (hlt : path.length < segments.length)
    (name : Text) : q.Tracks segments (path ++ [name]) (pathList.set path.length name) where
  length := by rw [List.length_set, ht.length]
  here := by
    rw [List.length_append, List.length_singleton, take_set_succ (by rwa [ht.length]), ht.here]
  kept i hi := by
    rw [List.length_append, List.length_singleton] at hi
    rw [List.getElem?_set_ne (by omega)]
    rcases ht.kept i (by omega) with hsame | ⟨other, new, hlength, hpre, hover, hi'⟩
    · exact .inl hsame
    · refine .inr ⟨other, new, hlength, ?_, hover, hi'⟩
      exact fun hbelow ↦ hpre ((List.prefix_append path [name]).trans hbelow)

/-- The search goes on to another name after it has been to one. -/
theorem Tracks.other {name' : Text} (hlt : path.length < segments.length) (hne : name ≠ name')
    (ht : q.Tracks segments (path ++ [name']) (pathList.set path.length name'))
    (hl : q.Leaves segments (path ++ [name]) (pathList.set path.length name) pathList') :
    q.Tracks segments (path ++ [name']) (pathList'.set path.length name') := by
  have hlength : pathList'.length = segments.length := by
    rw [hl.length, List.length_set, ← ht.length, List.length_set]
  have hhere : pathList'.take path.length = path := by
    have hpath := congrArg (List.take path.length) ht.here
    rw [List.take_take, List.take_set_of_le (by simp), List.take_left' rfl] at hpath
    rw [hl.above.here, List.take_set_of_le (Nat.le_refl _), ← hpath]
    simp
  refine ⟨by rw [List.length_set, hlength], ?_, ?_⟩
  · rw [List.length_append, List.length_singleton, take_set_succ (by rwa [hlength]), hhere]
  · intro i hi
    rw [List.length_append, List.length_singleton] at hi
    rcases hl.changed i (by simpa using hi) with hsame | ⟨other, new, hlength, hpre, hover, hnew⟩
    · have hkept := ht.kept i (by simpa using hi)
      rw [List.getElem?_set_ne (by omega)] at hsame hkept ⊢
      rwa [hsame]
    · rw [List.getElem?_set_ne (by omega)]
      exact .inr ⟨other, new, hlength, fun hpre' ↦ hne (name_unique hpre hpre'), hover, hnew⟩

end Query

end Peripherals.GetFileContent
