import Mathlib.Data.List.Nodup
import Peripherals.GetFileContent.Overwriting

namespace Peripherals.GetFileContent

namespace Query

variable {N : Type} {q : Query N} {segments path path' names pathList : List Text}
  {segment name : Text} {found : List (List Text)} {s s' : Search} {depth remaining : ℕ}

/-- A call below a path adds the paths that qualify there to the result. -/
structure Finds (q : Query N) (segments path : List Text) (s s' : Search)
    (found : List (List Text)) : Prop where
  result : s'.result = s.result ++ found.map pathOf
  leaves : q.Leaves segments path s.pathList s'.pathList
  below : ∀ path' ∈ found, path <+: path'
  found : q.Found segments path found

theorem Finds.none (h : q.Found segments path []) : q.Finds segments path s s [] :=
  ⟨by simp, .refl, by simp, h⟩

/-- The loop over the entries that are selected before the last segment. -/
theorem visit_finds
    (ih : ∀ name s, q.Passes segments (path ++ [name]) →
      q.Tracks segments (path ++ [name]) s.pathList →
        ∃ found, q.Finds segments (path ++ [name]) s
          (q.searchFilesRec remaining (path.length + 1) s).2 found)
    (hlt : path.length < segments.length) (hnodup : names.Nodup)
    (hnames : ∀ name ∈ names, q.Overwrites segments path name ∧ q.Passes segments (path ++ [name]))
    (ht : ∀ name ∈ names, q.Tracks segments (path ++ [name]) (s.pathList.set path.length name)) :
    ∃ found, (q.visit remaining path.length s names).result = s.result ++ found.map pathOf ∧
      q.Leaves segments path s.pathList (q.visit remaining path.length s names).pathList ∧
      (∀ path' ∈ found, ∃ name ∈ names, path ++ [name] <+: path') ∧
      q.FoundIn segments path names found := by
  induction names generalizing s with
  | nil => exact ⟨[], by simp [visit], .refl, by simp, List.nodup_nil, by simp⟩
  | cons name names ihnames =>
    obtain ⟨hname, hnodup⟩ := List.nodup_cons.mp hnodup
    obtain ⟨⟨hover, hpasses⟩, hnames⟩ := List.forall_mem_cons.mp hnames
    obtain ⟨htname, htnames⟩ := List.forall_mem_cons.mp ht
    obtain ⟨found, hresult, hleaves, hbelow, hfound⟩ := ih name
      { s with pathList := s.pathList.set path.length name } hpasses htname
    obtain ⟨found', hresult', hleaves', hbelow', hfound'⟩ := ihnames hnodup hnames
      (fun other hother ↦ (htnames other hother).other hlt
        (ne_of_mem_of_not_mem hother hname).symm hleaves)
    have hset : path.length < s.pathList.length := by
      have hlength := htname.length
      rw [List.length_set] at hlength
      omega
    refine ⟨found ++ found', ?_, ((leaves_set hover hset).trans hleaves.above).trans hleaves',
      ?_, (foundIn_cons hname hbelow hbelow').mpr ⟨hfound, hfound'⟩⟩
    · rw [List.map_append, ← List.append_assoc, ← hresult]
      exact hresult'
    · intro path' hpath'
      rcases List.mem_append.mp hpath' with hpath' | hpath'
      · exact ⟨name, List.mem_cons_self, hbelow path' hpath'⟩
      · obtain ⟨other, hother, hpre⟩ := hbelow' path' hpath'
        exact ⟨other, List.mem_cons_of_mem name hother, hpre⟩

theorem LeadsTo.getD (h : q.LeadsTo segments path segment)
    (hsame : pathList[path.length]? = segments[path.length]?) :
    pathList.getD path.length [] = segment := by
  rw [List.getD_eq_getElem?_getD, hsame, h.segment]
  rfl

/-- The only name that the last segment leads to is tested with `access`. -/
theorem access_finds (hsegments : NoSlash segments) (hleads : q.LeadsTo segments path segment)
    (hlast : path.length + 1 = segments.length) (hc : q.candidates segment path = [name])
    (hname : '/' ∉ name) : ∃ found, q.Finds segments path s { s with
      result := if q.fs.access (directoryPath path ++ name) then
        s.result ++ [directoryPath path ++ name] else s.result } found := by
  have haccess : q.fs.access (directoryPath path ++ name) = true ↔
      q.fs.Exists (path ++ [name]) := by
    rw [directoryPath_append]
    exact FileSystem.access_iff (by simp)
      (noSlash_snoc (hleads.passes.noSlash hsegments) hname)
  by_cases hexists : q.fs.Exists (path ++ [name])
  · rw [if_pos (haccess.mpr hexists), directoryPath_append]
    refine ⟨[path ++ [name]], rfl, .refl, by simp, ?_⟩
    apply found_last_one hleads.segment hlast hc hleads.passes (by simp)
    intro path'
    rw [List.mem_singleton]
    exact ⟨fun h ↦ ⟨h, h ▸ hexists⟩, fun h ↦ h.1⟩
  · rw [if_neg fun h ↦ hexists (haccess.mp h)]
    refine ⟨[], .none (found_last_one hleads.segment hlast hc hleads.passes (by simp) ?_)⟩
    intro path'
    refine iff_of_false List.not_mem_nil ?_
    intro h
    obtain ⟨rfl, h⟩ := h
    exact hexists h

theorem last_finds (hu : q.Undisturbed segments) (hsegments : NoSlash segments)
    (hleads : q.LeadsTo segments path segment) (hlast : path.length + 1 = segments.length)
    (ht : q.Tracks segments path s.pathList) :
    ∃ found, q.Finds segments path s (q.searchFilesRec (remaining + 1) path.length s).2 found := by
  have hpath := hleads.passes.noSlash hsegments
  have hsegment : s.pathList.getD path.length [] = segment := by
    apply hleads.getD
    rcases ht.kept path.length (Nat.le_refl _) with hsame | ⟨other, name, hlength, -, hover, -⟩
    · exact hsame
    · have hinner := hover.inner
      omega
  have hdir : q.fs.opendir (directoryPath path) = q.fs.names path :=
    FileSystem.opendir_directoryPath hpath
  rw [searchFilesRec_last (by rw [ht.length]; omega)]
  dsimp only
  rw [ht.here, hsegment, hdir]
  by_cases hwild : hasWildcard segment = true
  · rw [if_pos hwild]
    have hcandidates : q.candidates segment path = q.selected segment path :=
      candidates_of_wildcard hwild
    have hcount := hu.last path segment hleads hlast
    cases hentries : q.fs.names path with
    | none =>
      have hempty := hcandidates.trans (selected_of_no_names hentries)
      exact ⟨[], .none (found_none hleads.segment hempty)⟩
    | some entries =>
      rw [hcandidates, selected_eq hentries] at hcount
      rcases hc : entries.filter (q.isSelected segment) with _ | ⟨name, _ | ⟨name', later⟩⟩
      · have hempty := hcandidates.trans ((selected_eq hentries).trans hc)
        rw [Option.elim_some, searchEntries_none hc]
        exact ⟨[], .none (found_none hleads.segment hempty)⟩
      · have hsingle := hcandidates.trans ((selected_eq hentries).trans hc)
        have hname : '/' ∉ name := noSlash_selected q segment path name
          (by rw [← hcandidates, hsingle]; exact List.mem_singleton_self name)
        rw [Option.elim_some, searchEntries_one hc]
        exact access_finds hsegments hleads hlast hsingle hname
      · rw [hc] at hcount
        simp at hcount
  · rw [if_neg hwild]
    have hname : '/' ∉ segment := hsegments segment (List.mem_of_getElem? hleads.segment)
    exact access_finds hsegments hleads hlast (candidates_of_literal hwild) hname

/-- Where a segment before the last one leads to one name, that name may stand in its
place. -/
theorem single_finds (hc : q.candidates segment path = [name])
    (ih : q.Passes segments (path ++ [name]) → q.Tracks segments (path ++ [name]) s.pathList →
      ∃ found, q.Finds segments (path ++ [name]) s
        (q.searchFilesRec remaining (path.length + 1) s).2 found)
    (hleads : q.LeadsTo segments path segment) (hinner : path.length + 1 < segments.length)
    (ht : q.Tracks segments path s.pathList) (hname : s.pathList[path.length]? = some name)
    (hplain : ¬ hasWildcard name = true) :
    ∃ found, q.Finds segments path s (q.searchFilesRec (remaining + 1) path.length s).2 found := by
  have hgetD : s.pathList.getD path.length [] = name := by
    rw [List.getD_eq_getElem?_getD, hname]
    rfl
  have htnext : q.Tracks segments (path ++ [name]) s.pathList := by
    obtain ⟨hbound, hget⟩ := List.getElem?_eq_some_iff.mp hname
    have hset : s.pathList.set path.length name = s.pathList := by
      rw [← hget, List.set_getElem_self]
    exact hset ▸ ht.next (by omega) name
  have hpasses : q.Passes segments (path ++ [name]) :=
    (passes_snoc hleads.segment).mpr ⟨hleads.passes, by simp [hc]⟩
  obtain ⟨found, hresult, hleaves, hbelow, hfound⟩ := ih hpasses htnext
  rw [searchFilesRec_inner (by rwa [ht.length]), hgetD, if_neg hplain]
  refine ⟨found, hresult, hleaves.above, ?_, ?_⟩
  · intro path' hpath'
    exact (List.prefix_append path [name]).trans (hbelow path' hpath')
  · have hin : q.FoundIn segments path [name] (found ++ []) :=
      (foundIn_cons List.not_mem_nil hbelow (by simp)).mpr ⟨hfound, List.nodup_nil, by simp⟩
    rw [List.append_nil] at hin
    refine (found_iff hleads.segment fun path' hpath' ↦
      ⟨name, List.mem_singleton_self _, hbelow path' hpath'⟩).mpr ⟨hin, ?_⟩
    intro _ other hother hnot
    rw [hc] at hother
    exact (hnot hother).elim

/-- A wildcard that an earlier directory has overwritten leads to the same name here, or
nowhere. -/
theorem overwritten_finds (hu : q.Undisturbed segments) (hsegments : NoSlash segments)
    (ih : ∀ name s, q.Passes segments (path ++ [name]) →
      q.Tracks segments (path ++ [name]) s.pathList →
        ∃ found, q.Finds segments (path ++ [name]) s
          (q.searchFilesRec remaining (path.length + 1) s).2 found)
    (hleads : q.LeadsTo segments path segment) (hinner : path.length + 1 < segments.length)
    (ht : q.Tracks segments path s.pathList) {other : List Text}
    (hlength : other.length = path.length) (hother : ¬ path <+: other)
    (hover : q.Overwrites segments other name) (hname : s.pathList[path.length]? = some name) :
    ∃ found, q.Finds segments path s (q.searchFilesRec (remaining + 1) path.length s).2 found := by
  obtain ⟨segment', hleads', hwild, hselected⟩ := hover.selected
  obtain rfl : segment' = segment := by
    have hsegment := hleads'.segment
    rw [hlength, hleads.segment] at hsegment
    exact (Option.some.inj hsegment).symm
  have hne : other ≠ path := fun heq ↦ hother (heq ▸ List.prefix_refl path)
  obtain ⟨hplain, honly, hlisted⟩ := hu.inner other path _ name hne hlength.symm (by omega) hwild
    hleads' hselected hleads
  by_cases hmem : name ∈ q.selected segment' path
  · have hc : q.candidates segment' path = [name] := by
      rw [candidates_of_wildcard hwild]
      refine List.perm_singleton.mp ((List.perm_ext_iff_of_nodup (nodup_selected q segment' path)
        (List.nodup_singleton name)).mpr ?_)
      intro name'
      rw [List.mem_singleton]
      exact ⟨honly name', fun heq ↦ heq ▸ hmem⟩
    exact single_finds hc (ih name s) hleads hinner ht hname (by simp [hplain])
  · have hnone : q.selected segment' path = [] := by
      rw [List.eq_nil_iff_forall_not_mem]
      exact fun name' hname' ↦ hmem (honly name' hname' ▸ hname')
    have hlt : path.length + 1 < s.pathList.length := by rwa [ht.length]
    have hgetD : s.pathList.getD path.length [] = name := by
      rw [List.getD_eq_getElem?_getD, hname]
      rfl
    rw [searchFilesRec_inner hlt, hgetD, if_neg (by simp [hplain]),
      searchFilesRec_dead (ht.noSlash hleads.passes hsegments) hlt]
    · exact ⟨[], .none (found_none hleads.segment ((candidates_of_wildcard hwild).trans hnone))⟩
    · rw [take_succ_getD (by omega), ht.here, hgetD]
      exact fun hexists ↦ hmem (hlisted hexists)

theorem inner_finds (hu : q.Undisturbed segments) (hsegments : NoSlash segments)
    (ih : ∀ name s, q.Passes segments (path ++ [name]) →
      q.Tracks segments (path ++ [name]) s.pathList →
        ∃ found, q.Finds segments (path ++ [name]) s
          (q.searchFilesRec remaining (path.length + 1) s).2 found)
    (hleads : q.LeadsTo segments path segment) (hinner : path.length + 1 < segments.length)
    (ht : q.Tracks segments path s.pathList) :
    ∃ found, q.Finds segments path s (q.searchFilesRec (remaining + 1) path.length s).2 found := by
  rcases ht.kept path.length (Nat.le_refl _) with
    hsame | ⟨other, name, hlength, hother, hover, hname⟩
  swap
  · exact overwritten_finds hu hsegments ih hleads hinner ht hlength hother hover hname
  have hsegment := hleads.getD hsame
  have hlt : path.length < segments.length := by omega
  have hpasses {name : Text} (hname : name ∈ q.candidates segment path) :
      q.Passes segments (path ++ [name]) := (passes_snoc hleads.segment).mpr ⟨hleads.passes, hname⟩
  by_cases hwild : hasWildcard segment = true
  · rw [searchFilesRec_inner (by rwa [ht.length]), hsegment, ht.here,
      FileSystem.opendir_directoryPath (hleads.passes.noSlash hsegments), if_pos hwild]
    have hcandidates : q.candidates segment path = q.selected segment path :=
      candidates_of_wildcard hwild
    cases hentries : q.fs.names path with
    | none =>
      have hempty := hcandidates.trans (selected_of_no_names hentries)
      exact ⟨[], .none (found_none hleads.segment hempty)⟩
    | some entries =>
      rw [Option.elim_some, ← selected_eq hentries]
      obtain ⟨found, hresult, hleaves, hbelow, hfound⟩ := visit_finds (s := s) ih hlt
        (nodup_selected q segment path)
        (fun name hname ↦ ⟨⟨⟨segment, hleads, hwild, hname⟩, hinner⟩,
          hpasses (hcandidates.symm ▸ hname)⟩)
        (fun name _ ↦ ht.next hlt name)
      refine ⟨found, hresult, hleaves, ?_, (found_iff hleads.segment hbelow).mpr ⟨hfound, ?_⟩⟩
      · intro path' hpath'
        obtain ⟨name, -, hpre⟩ := hbelow path' hpath'
        exact (List.prefix_append path [name]).trans hpre
      · intro _ name hname hnot
        exact (hnot (hcandidates ▸ hname)).elim
  · exact single_finds (candidates_of_literal hwild) (ih segment s) hleads hinner ht
      (hsame.trans hleads.segment) hwild

theorem searchFilesRec_finds (hu : q.Undisturbed segments) (hsegments : NoSlash segments)
    (hpasses : q.Passes segments path) (h : path.length + remaining + 1 = segments.length)
    (ht : q.Tracks segments path s.pathList) :
    ∃ found, q.Finds segments path s (q.searchFilesRec (remaining + 1) path.length s).2 found := by
  have hlt : path.length < segments.length := by omega
  have hleads : q.LeadsTo segments path segments[path.length] :=
    ⟨hpasses, List.getElem?_eq_getElem hlt⟩
  induction remaining generalizing path s with
  | zero => exact last_finds hu hsegments hleads (by omega) ht
  | succ remaining ih =>
    refine inner_finds hu hsegments ?_ hleads (by omega) ht
    intro name s' hpasses' ht'
    have hnext : (path ++ [name]).length + remaining + 1 = segments.length := by
      rw [List.length_append, List.length_singleton]
      omega
    have hfinds := ih hpasses' hnext ht' (by omega) ⟨hpasses', List.getElem?_eq_getElem _⟩
    rwa [List.length_append, List.length_singleton] at hfinds

/-- There is one line for each path that qualifies, and no other. -/
structure Lists (q : Query N) (segments result : List Text) : Prop where
  nodup : result.Nodup
  exact : ∀ line, line ∈ result ↔ ∃ path, q.Qualifies segments path ∧ line = pathOf path

theorem Found.lists (h : q.Found segments [] found) (hsegments : NoSlash segments) :
    q.Lists segments (found.map pathOf) := by
  have hqualifies {path : List Text} : path ∈ found ↔ q.Qualifies segments path :=
    h.exact path List.nil_prefix
  have hslash {path : List Text} (hpath : path ∈ found) : NoSlash path :=
    (hqualifies.mp hpath).passes.noSlash hsegments
  refine ⟨List.Nodup.map_on (fun path hp path' hp' ↦ pathOf_injective (hslash hp) (hslash hp'))
    h.nodup, ?_⟩
  intro line
  rw [List.mem_map]
  refine exists_congr fun path ↦ ?_
  rw [hqualifies]
  exact and_congr_right fun _ ↦ eq_comm

theorem searchFiles_eq (q : Query N) (path : Text) (result : List Text) :
    (q.searchFiles ('/' :: path) result).2 =
      (q.searchFilesRec (split path).length 0 ⟨split path, result⟩).2.result := by
  have hsplit : split ('/' :: path) = [] :: split path := split_append List.not_mem_nil path
  rw [searchFiles, hsplit]
  rfl

theorem searchFiles_found (q : Query N) (path : Text) (hu : q.Undisturbed (split path)) :
    ∃ found, (q.searchFiles ('/' :: path) []).2 = found.map pathOf ∧
      q.Found (split path) [] found := by
  have hlength := List.length_pos_of_ne_nil (split_ne_nil path)
  have ht : q.Tracks (split path) [] (split path) := ⟨rfl, rfl, fun _ _ ↦ .inl rfl⟩
  obtain ⟨found, hfinds⟩ : ∃ found, q.Finds (split path) [] ⟨split path, []⟩
      (q.searchFilesRec ((split path).length - 1 + 1) 0 ⟨split path, []⟩).2 found :=
    searchFilesRec_finds hu (split_noSlash path) (by simp [Passes])
      (by rw [List.length_nil]; omega) ht
  rw [Nat.sub_add_cancel hlength] at hfinds
  exact ⟨found, (searchFiles_eq q path []).trans hfinds.result, hfinds.found⟩

/-- Only the last segment has a wildcard. -/
def Plain (segments : List Text) : Prop :=
  ∀ i segment, segments[i]? = some segment → i + 1 < segments.length →
    hasWildcard segment = false

theorem searchFilesRec_plain (hplain : Plain s.pathList)
    (h : depth + remaining + 1 = s.pathList.length) :
    (q.searchFilesRec (remaining + 1) depth s).2 =
      (q.searchFilesRec 1 (s.pathList.length - 1) s).2 := by
  induction remaining generalizing depth with
  | zero => rw [← h, Nat.zero_add, Nat.add_sub_cancel, Nat.add_zero]
  | succ remaining ih =>
    have hlt : depth < s.pathList.length := by omega
    have hliteral : hasWildcard (s.pathList.getD depth []) = false := by
      apply hplain depth _ _ (by omega)
      simp [hlt]
    rw [searchFilesRec_inner (by omega), hliteral, if_neg Bool.false_ne_true]
    exact ih (by omega)

theorem LeadsTo.eq_take (h : q.LeadsTo segments path segment) (hplain : Plain segments) :
    path = segments.take path.length := by
  have hlt := (List.getElem?_eq_some_iff.mp h.segment).1
  apply List.ext_getElem?
  intro i
  by_cases hi : i < path.length
  · obtain ⟨literal, hliteral, hmem⟩ := h.passes i _ (List.getElem?_eq_getElem hi)
    have hwild := hplain i literal hliteral (by omega)
    rw [candidates_of_literal (by simp [hwild]), List.mem_singleton] at hmem
    rw [List.getElem?_take_of_lt hi, hliteral, List.getElem?_eq_getElem hi, hmem]
  · rw [List.getElem?_eq_none (by omega), List.getElem?_eq_none (by simp; omega)]

theorem searchFiles_plain {path : Text} {directory entries : List Text}
    (hplain : Plain (split path)) (hleads : q.LeadsTo (split path) directory segment)
    (hlast : directory.length + 1 = (split path).length) (hwild : hasWildcard segment = true)
    (hentries : q.fs.names directory = some entries) :
    (q.searchFiles ('/' :: path) []).2 =
      q.searchEntries segment entries (directoryPath directory) 0 [] := by
  have hlength : (split path).length - 1 = directory.length := by omega
  have hdown : (q.searchFilesRec (directory.length + 1) 0 ⟨split path, []⟩).2 =
      (q.searchFilesRec 1 ((split path).length - 1) ⟨split path, []⟩).2 :=
    searchFilesRec_plain hplain (by rw [Nat.zero_add]; exact hlast)
  rw [searchFiles_eq, ← hlast, hdown, searchFilesRec_last (by dsimp only; omega), hlength]
  dsimp only
  rw [hleads.getD rfl, if_pos hwild, ← hleads.eq_take hplain,
    FileSystem.opendir_directoryPath (hleads.passes.noSlash (split_noSlash path)), hentries,
    Option.elim_some]

/-- A second name is missed, if it leads somewhere. -/
theorem second_missed {path : Text} {directory entries later : List Text} {name' : Text}
    (hplain : Plain (split path)) (hleads : q.LeadsTo (split path) directory segment)
    (hlast : directory.length + 1 = (split path).length) (hwild : hasWildcard segment = true)
    (hentries : q.fs.names directory = some entries)
    (hc : entries.filter (q.isSelected segment) = name :: name' :: later)
    (hexists : q.fs.Exists (directory ++ [name'])) :
    ¬ q.Lists (split path) (q.searchFiles ('/' :: path) []).2 := by
  intro h
  have hqualifies : q.Qualifies (split path) (directory ++ [name']) := by
    rw [qualifies_snoc hleads.segment hlast, candidates_of_wildcard hwild, selected_eq hentries, hc]
    exact ⟨hleads.passes, by simp, hexists⟩
  have hline := (h.exact _).mpr ⟨_, hqualifies, rfl⟩
  rw [searchFiles_plain hplain hleads hlast hwild hentries, ← directoryPath_append] at hline
  rcases mem_searchEntries_two hc hline with heq | hpre
  · have hnodup := hc ▸ (FileSystem.names_nodup hentries).filter (q.isSelected segment)
    have hname := List.append_cancel_left heq
    simp [hname] at hnodup
  · have hmem : name ∈ entries := List.mem_of_mem_filter (hc ▸ List.mem_cons_self)
    have hpos := List.length_pos_of_ne_nil (FileSystem.isName_of_mem hentries hmem).1
    have hle := hpre.length_le
    simp only [List.length_append] at hle
    omega

/-- Every name that is listed leads somewhere. -/
def NoDangling (fs : FileSystem N) : Prop :=
  ∀ directory names, fs.names directory = some names →
    ∀ name ∈ names, fs.Exists (directory ++ [name])

theorem Lists.undisturbed {path : Text} (hplain : Plain (split path)) (hfs : NoDangling q.fs)
    (h : q.Lists (split path) (q.searchFiles ('/' :: path) []).2) :
    q.Undisturbed (split path) := by
  refine ⟨?_, ?_⟩
  · intro directory segment hleads hlast
    by_cases hwild : hasWildcard segment = true
    swap
    · rw [candidates_of_literal hwild]
      exact Nat.le_refl 1
    rw [candidates_of_wildcard hwild]
    cases hentries : q.fs.names directory with
    | none =>
      rw [selected_of_no_names hentries]
      exact Nat.zero_le 1
    | some entries =>
      rw [selected_eq hentries]
      rcases hc : entries.filter (q.isSelected segment) with _ | ⟨name, _ | ⟨name', later⟩⟩
      · exact Nat.zero_le 1
      · exact Nat.le_refl 1
      · have hname' : name' ∈ entries.filter (q.isSelected segment) := by simp [hc]
        have hmem : name' ∈ entries := List.mem_of_mem_filter hname'
        have hexists := hfs directory entries hentries name' hmem
        exact (second_missed hplain hleads hlast hwild hentries hc hexists h).elim
  · intro directory directory' segment name _ _ hinner hwild hleads
    have hliteral := hplain _ segment hleads.segment hinner
    rw [hwild] at hliteral
    cases hliteral

/-- Each path that qualifies is found once and nothing else, where the names that the
segments lead to do not disturb each other; and only there, if only the last segment has
a wildcard and every name that is listed leads somewhere. -/
theorem searchFiles_exact (q : Query N) (path : Text) :
    (q.Undisturbed (split path) → q.Lists (split path) (q.searchFiles ('/' :: path) []).2) ∧
    (Plain (split path) → NoDangling q.fs →
      (q.Lists (split path) (q.searchFiles ('/' :: path) []).2 ↔
        q.Undisturbed (split path))) := by
  have hlists (hu : q.Undisturbed (split path)) :
      q.Lists (split path) (q.searchFiles ('/' :: path) []).2 := by
    obtain ⟨found, hresult, hfound⟩ := searchFiles_found q path hu
    rw [hresult]
    exact hfound.lists (split_noSlash path)
  refine ⟨hlists, ?_⟩
  intro hplain hfs
  exact ⟨Lists.undisturbed hplain hfs, hlists⟩

inductive Node
  | root
  | directory
  | file

/-- A root directory with directories of these names, each with a file `x`. -/
def directories (names : List Text) (hnodup : names.Nodup)
    (hnames : ∀ name ∈ names, name ≠ [] ∧ '/' ∉ name) : FileSystem Node where
  root := .root
  readdir
    | .root => some names
    | .directory => some [['x']]
    | .file => none
  lookup
    | .root, name =>
      if name = [] then some .root else if name ∈ names then some .directory else none
    | .directory, name =>
      if name = [] then some .directory else if name = ['x'] then some .file else none
    | .file, _ => none
  nodup {n entries} h := by
    cases n with
    | root => exact Option.some.inj h ▸ hnodup
    | directory =>
      obtain rfl := Option.some.inj h
      decide
    | file => cases h
  isName {n entries name} h hname := by
    cases n with
    | root => exact hnames name (Option.some.inj h ▸ hname)
    | directory =>
      obtain rfl := Option.some.inj h
      obtain rfl := List.mem_singleton.mp hname
      decide
    | file => cases h
  itself {n} h := by
    cases n with
    | file => cases h
    | _ => rfl
  directory {n name} h := by
    cases n with
    | file => cases h
    | _ => rfl

def anyName : Query Node :=
  ⟨directories [['a'], ['b']] (by decide) (by decide), fun _ _ ↦ true, []⟩

/-- One wildcard below the root directory disturbs nothing. -/
theorem undisturbed_rootOnly (q : Query N) : q.Undisturbed (split ['*', '/', 'x']) := by
  refine ⟨?_, ?_⟩
  · intro path segment hleads hlast
    have hlength : path.length = 1 := by simpa [split, Lines.foldLines] using hlast
    have hsegment := hleads.segment
    rw [hlength] at hsegment
    obtain rfl : ['x'] = segment := Option.some.inj hsegment
    rw [candidates_of_literal (by decide)]
    exact Nat.le_refl 1
  · intro path path' segment name hne hlength hinner
    have hzero : path.length = 0 := by
      have hbound : path.length + 1 < 2 := hinner
      omega
    rw [hzero] at hlength
    exact (hne ((List.length_eq_zero_iff.mp hzero).trans
      (List.length_eq_zero_iff.mp hlength).symm)).elim

theorem noDangling_directories (names : List Text) (hnodup : names.Nodup)
    (hnames : ∀ name ∈ names, name ≠ [] ∧ '/' ∉ name) :
    NoDangling (directories names hnodup hnames) := by
  intro directory entries hentries name hname
  obtain ⟨n, hn, hdir⟩ := Option.bind_eq_some_iff.mp hentries
  rw [FileSystem.Exists, FileSystem.walk_append, hn, Option.bind_some, FileSystem.walk]
  cases n with
  | root =>
    obtain rfl := Option.some.inj hdir
    simp [directories, hname, (hnames name hname).1, FileSystem.walk]
  | directory =>
    obtain rfl := Option.some.inj hdir
    obtain rfl := List.mem_singleton.mp hname
    rfl
  | file => cases hdir

theorem searchFiles_exact_anyName : anyName.Lists (split ['*', '/', 'x'])
    (anyName.searchFiles ['/', '*', '/', 'x'] []).2 ∧
      (anyName.Lists (split ['*']) (anyName.searchFiles ['/', '*'] []).2 ↔
        anyName.Undisturbed (split ['*'])) := by
  refine ⟨(searchFiles_exact anyName _).1 (undisturbed_rootOnly anyName),
    (searchFiles_exact anyName _).2 ?_ (noDangling_directories _ (by decide) (by decide))⟩
  intro i segment _ hinner
  have hbound : i + 1 < 1 := hinner
  omega

example : (anyName.searchFiles ['/', '*', '/', 'x'] []).2 =
    [['/', 'a', '/', 'x'], ['/', 'b', '/', 'x']] := by
  decide +kernel

theorem second_match_missing : (∃ paths : List (List Text), paths.length < 10 ∧
    ∀ path, anyName.Qualifies (split ['*']) path → path ∈ paths) ∧
    ¬ anyName.Lists (split ['*']) (anyName.searchFiles ['/', '*'] []).2 := by
  have hcandidates : anyName.candidates ['*'] [] = [['a'], ['b']] := by decide +kernel
  have hsegment : (split ['*'])[([] : List Text).length]? = some ['*'] := rfl
  have hqualifies (name : Text) : anyName.Qualifies (split ['*']) ([] ++ [name]) ↔ _ :=
    qualifies_snoc hsegment rfl
  refine ⟨⟨[[['a']], [['b']]], by decide, ?_⟩, ?_⟩
  · intro path h
    obtain ⟨name, rfl⟩ := h.last List.nil_prefix rfl
    obtain ⟨-, hname, -⟩ := (hqualifies name).mp h
    rw [hcandidates] at hname
    simpa using hname
  · intro h
    have hb : anyName.Qualifies (split ['*']) [['b']] := by
      apply (hqualifies ['b']).mpr
      refine ⟨by simp [Passes], by simp [hcandidates], rfl⟩
    have hline := (h.exact ['/', 'b']).mpr ⟨[['b']], hb, rfl⟩
    revert hline
    decide +kernel

end Query

end Peripherals.GetFileContent
