import Peripherals.GetFileContent.Definition
import Peripherals.Resolution.Lost

/-! Files with CR LF line endings. -/

namespace Peripherals.GetFileContent

open Lines Resolution

def crlf (text : Text) : Text := replaceEach '\n' ['\r', '\n'] text

def endedLines : Text → List Text
  | [] => []
  | c :: text =>
    if c = '\n' then [] :: endedLines text
    else match endedLines text with
      | [] => []
      | line :: rest => (c :: line) :: rest

def lastLine : Text → Option Text
  | [] => none
  | c :: text => if c = '\n' ∨ '\n' ∈ text then lastLine text else some (c :: text)

def endedEntries (text property : Text) : List (Entry Text Text) :=
  (endedLines text).filterMap (entryOf property)

def lastEntry (text property : Text) : Option (Entry Text Text) :=
  (lastLine text).bind (entryOf property)

variable {text property name line : Text} {entry : Entry Text Text} {c : Char}

section Split

theorem endedLines_eq_nil : endedLines text = [] ↔ '\n' ∉ text := by
  induction text with
  | nil => simp [endedLines]
  | cons c text ih =>
    rw [endedLines]
    split
    next hc => simp [hc]
    next hc =>
      rw [List.mem_cons, not_or, ← ih]
      cases endedLines text with
      | nil => simpa using Ne.symm hc
      | cons line rest => simp

theorem lines_eq (text : Text) : lines text = endedLines text ++ (lastLine text).toList := by
  induction text with
  | nil => rfl
  | cons c text ih =>
    by_cases hnew : '\n' ∈ c :: text
    · by_cases hc : c = '\n'
      · rw [lines, endedLines, lastLine, if_pos hc, if_pos hc, if_pos (.inl hc), ih]
        rfl
      · have hrest : '\n' ∈ text := by simpa [Ne.symm hc] using hnew
        obtain ⟨line, rest, hended⟩ :=
          List.exists_cons_of_ne_nil fun hnil ↦ endedLines_eq_nil.mp hnil hrest
        rw [hended] at ih
        rw [lines_cons hc ih, endedLines, if_neg hc, hended, lastLine, if_pos (.inr hrest)]
        rfl
    · have hrest : ¬ (c = '\n' ∨ '\n' ∈ text) := by simpa [eq_comm] using hnew
      rw [lines_of_not_mem (by simp) hnew, endedLines_eq_nil.mpr hnew, lastLine, if_neg hrest]
      rfl

theorem crlf_cons (hc : c ≠ '\n') (text : Text) : crlf (c :: text) = c :: crlf text := by
  simp [crlf, replaceEach, hc]

theorem crlf_newLine (text : Text) : crlf ('\n' :: text) = '\r' :: '\n' :: crlf text :=
  replaceEach_cons_self '\n' ['\r', '\n'] text

theorem crlf_of_not_mem (h : '\n' ∉ text) : crlf text = text :=
  replaceEach_of_not_mem h ['\r', '\n']

theorem newLine_mem_crlf : '\n' ∈ crlf text ↔ '\n' ∈ text := by
  refine ⟨?_, ?_⟩
  · intro h
    by_contra hnot
    rw [crlf_of_not_mem hnot] at h
    exact hnot h
  · intro h
    exact List.mem_flatMap.mpr ⟨'\n', h, by simp⟩

theorem endedLines_crlf (text : Text) :
    endedLines (crlf text) = (endedLines text).map (· ++ ['\r']) := by
  induction text with
  | nil => rfl
  | cons c text ih =>
    by_cases hc : c = '\n'
    · subst hc
      simp [crlf_newLine, endedLines, ih]
    · rw [crlf_cons hc, endedLines, endedLines, if_neg hc, if_neg hc, ih]
      cases endedLines text <;> rfl

theorem lastLine_crlf (text : Text) : lastLine (crlf text) = lastLine text := by
  induction text with
  | nil => rfl
  | cons c text ih =>
    by_cases hc : c = '\n'
    · subst hc
      simp [crlf_newLine, lastLine, ih]
    · rw [crlf_cons hc, lastLine, lastLine, ih]
      simp only [newLine_mem_crlf]
      split
      · rfl
      next hnot => rw [crlf_of_not_mem (not_or.mp hnot).2]

/-- Every line but the last one, which has no line ending, gets a CR. -/
theorem lines_crlf (text : Text) :
    lines (crlf text) = (endedLines text).map (· ++ ['\r']) ++ (lastLine text).toList := by
  rw [lines_eq, endedLines_crlf, lastLine_crlf]

end Split

section Entries

theorem start_iff : isLineOf property line = true ↔
    ∃ c, (c = ' ' ∨ c = '=') ∧ property ++ [c] <+: line := by
  rw [isLineOf, Bool.or_eq_true, List.isPrefixOf_iff_prefix, List.isPrefixOf_iff_prefix]
  refine ⟨?_, ?_⟩
  · intro h
    rcases h with hspace | hequals
    · exact ⟨' ', .inl rfl, hspace⟩
    · exact ⟨'=', .inr rfl, hequals⟩
  · intro h
    obtain ⟨c, rfl | rfl, hstart⟩ := h
    · exact .inl hstart
    · exact .inr hstart

theorem start_cr :
    isLineOf property (line ++ ['\r']) = true ↔ isLineOf property line = true := by
  rw [start_iff, start_iff]
  refine exists_congr fun c ↦ and_congr_right fun hc ↦ ?_
  rw [List.prefix_concat_iff]
  refine or_iff_right fun heq ↦ ?_
  obtain ⟨-, rfl⟩ := List.append_singleton_inj.mp heq
  simp at hc

theorem accepted_cr : Accepted property (line ++ ['\r']) ↔ Accepted property line := by
  have hhead : (line ++ ['\r']).head? = some '#' ↔ line.head? = some '#' := by
    cases line with
    | nil => simp
    | cons c line => rfl
  refine ⟨?_, ?_⟩
  · intro h
    exact ⟨mt hhead.mpr h.comment, start_cr.mp h.start⟩
  · intro h
    exact ⟨mt hhead.mp h.comment, start_cr.mpr h.start⟩

theorem not_accepted_marked (hline : '\r' ∉ line) :
    ¬ Accepted (name ++ ['\r']) line ∧ ¬ Accepted (name ++ ['\r']) (line ++ ['\r']) := by
  have hnot (c : Char) : ¬ name ++ ['\r'] ++ [c] <+: line := by
    intro h
    exact hline (h.subset (by simp))
  refine ⟨?_, ?_⟩
  · intro h
    obtain ⟨c, -, hstart⟩ := start_iff.mp h.start
    exact hnot c hstart
  · intro h
    obtain ⟨c, hc, hstart⟩ := start_iff.mp h.start
    rcases List.prefix_concat_iff.mp hstart with heq | hstart
    · obtain ⟨-, rfl⟩ := List.append_singleton_inj.mp heq
      simp at hc
    · exact hnot c hstart

theorem propertyContent_cr (line : Text) :
    propertyContent (line ++ ['\r']) = propertyContent line ++ ['\r'] := by
  unfold propertyContent
  by_cases h : '=' ∈ line
  · have hne : line.dropWhile (· ≠ '=') ≠ [] := by
      intro hnil
      simpa using List.dropWhile_eq_nil_iff.mp hnil '=' h
    obtain ⟨c, rest, hrest⟩ := List.exists_cons_of_ne_nil hne
    rw [if_pos h, if_pos (List.mem_append_left _ h), List.dropWhile_append, hrest]
    rfl
  · rw [if_neg h, if_neg (by simp [h])]

theorem popNewLine_cr (content : Text) : popNewLine (content ++ ['\r']) = content := by
  simp [popNewLine]

theorem popNewLine_plain {content : Text} (hcr : '\r' ∉ content) (hnew : '\n' ∉ content) :
    popNewLine content = content := by
  rcases (popNewLine_trimmed content).trimmed with heq | heq | heq
  · exact heq.symm
  · exact (hcr (heq ▸ by simp)).elim
  · exact (hnew (heq ▸ by simp)).elim

theorem entryOf_eq_none (h : ¬ Accepted property line) : entryOf property line = none := by
  cases hentry : entryOf property line with
  | none => rfl
  | some entry => exact (h (accepted_of_entryOf hentry)).elim

/-- The CR is dropped from a value, but not from the name of a reference. -/
theorem entryOf_cr (hcr : '\r' ∉ line) (hnew : '\n' ∉ line) :
    entryOf property (line ++ ['\r']) =
      (entryOf property line).map (Entry.lose (· ++ ['\r'])) := by
  by_cases haccepted : Accepted property line
  · have haccepted' := accepted_cr.mpr haccepted
    by_cases hhead : (propertyContent line).head? = some '$'
    · obtain ⟨name, hname⟩ := List.head?_eq_some_iff.mp hhead
      have hname' : propertyContent (line ++ ['\r']) = '$' :: (name ++ ['\r']) := by
        rw [propertyContent_cr, hname]
        rfl
      rw [entryOf_of_reference haccepted hname, entryOf_of_reference haccepted' hname']
      rfl
    · have hplain : (propertyContent (line ++ ['\r'])).head? ≠ some '$' := by
        rw [propertyContent_cr]
        cases hcontent : propertyContent line with
        | nil => simp
        | cons c content => simpa [hcontent] using hhead
      rw [entryOf_of_value haccepted hhead, entryOf_of_value haccepted' hplain,
        propertyContent_cr, popNewLine_cr, popNewLine_plain (mt mem_propertyContent hcr)
          (mt mem_propertyContent hnew)]
      rfl
  · rw [entryOf_eq_none haccepted, entryOf_eq_none (mt accepted_cr.mp haccepted)]
    rfl

theorem lastEntry_toList :
    (lastLine text).toList.filterMap (entryOf property) = (lastEntry text property).toList := by
  rw [lastEntry]
  cases lastLine text with
  | none => rfl
  | some line => cases hentry : entryOf property line <;> simp [hentry]

theorem entries_eq_whole (text : Text) :
    entries (some text) = whole (endedEntries text) (lastEntry text) := by
  funext property
  rw [entries, whole, Option.map_some, Option.getD_some, lines_eq, List.filterMap_append,
    lastEntry_toList, endedEntries]

theorem mem_endedLines (h : line ∈ endedLines text) : line ∈ lines text :=
  lines_eq text ▸ List.mem_append_left _ h

theorem crlf_loses (htext : '\r' ∉ text) :
    Loses (endedEntries text) (lastEntry text) (· ++ ['\r']) ('\r' ∉ ·)
      (entries (some (crlf text))) where
  eq property _ := by
    rw [entries, Option.map_some, Option.getD_some, lines_crlf, List.filterMap_append,
      lastEntry_toList, List.filterMap_map, endedEntries, List.map_filterMap]
    congr 1
    apply List.filterMap_congr
    intro line hline
    have hmem := mem_endedLines hline
    exact entryOf_cr (mt (mem_of_mem_lines hmem) htext) (newLine_not_mem_lines text line hmem)
  nothing property _ := by
    rw [entries, Option.map_some, Option.getD_some, lines_crlf, List.filterMap_eq_nil_iff]
    intro line hline
    apply entryOf_eq_none
    rcases List.mem_append.mp hline with hline | hline
    · obtain ⟨line, hmem, rfl⟩ := List.mem_map.mp hline
      exact (not_accepted_marked (mt (mem_of_mem_lines (mem_endedLines hmem)) htext)).2
    · have hmem : line ∈ lines text := lines_eq text ▸ List.mem_append_right _ hline
      exact (not_accepted_marked (mt (mem_of_mem_lines hmem) htext)).1
  closed property name _ hname := by
    rw [← entries_eq_whole] at hname
    obtain ⟨line, hline, -, hcontent⟩ := reference_mem_entries.mp hname
    intro hcr
    apply htext
    apply mem_of_mem_lines hline
    apply mem_propertyContent
    rw [hcontent]
    exact List.mem_cons_of_mem _ hcr

end Entries

theorem answer_injective : Function.Injective answer := by
  intro r r' h
  cases r <;> cases r' <;> simp_all [answer]

theorem returns_iff {file : Option Text} {r : Option Text} :
    (∃ fuel, readPropertyFromFile file fuel property = some (answer r)) ↔
      Gives (entries file) property r := by
  refine exists_congr fun fuel ↦ ?_
  rw [readPropertyFromFile_eq]
  refine ⟨?_, fun h ↦ h ▸ rfl⟩
  intro h
  obtain ⟨r', hr', hanswer⟩ := Option.map_eq_some_iff.mp h
  rw [hr', answer_injective hanswer]

/-- CR LF line endings make no difference if and only if the references that are
followed stand in a last line without a line ending or are not needed. -/
theorem readPropertyFromFile_crlf_iff {result : Bool × Text} (htext : '\r' ∉ text)
    (hproperty : '\r' ∉ property)
    (hresult : ∃ fuel, readPropertyFromFile (some text) fuel property = some result) :
    (∃ fuel, readPropertyFromFile (some (crlf text)) fuel property = some result) ↔
      Unaffected (endedEntries text) (lastEntry text) property := by
  obtain ⟨r, rfl⟩ : ∃ r, answer r = result := by
    obtain ⟨fuel, h⟩ := hresult
    rw [readPropertyFromFile_eq] at h
    obtain ⟨r, -, hr⟩ := Option.map_eq_some_iff.mp h
    exact ⟨r, hr⟩
  rw [returns_iff, entries_eq_whole] at hresult
  rw [returns_iff]
  exact (crlf_loses htext).gives_iff_unaffected hproperty hresult

theorem readPropertyFromFile_crlf_iff_last :
    (∃ fuel, readPropertyFromFile (some (crlf "B=1\nA=$B".toList)) fuel ['A'] =
        some (true, ['1'])) ↔
      Unaffected (endedEntries "B=1\nA=$B".toList) (lastEntry "B=1\nA=$B".toList) ['A'] :=
  readPropertyFromFile_crlf_iff (by decide) (by decide) ⟨2, by decide⟩

/-- The CR becomes a part of the name that is asked for. -/
theorem reference_lost : ¬ ∀ (text property : Text) (result : Bool × Text), '\r' ∉ text →
    '\r' ∉ property →
    (∃ fuel, readPropertyFromFile (some text) fuel property = some result) →
    ∃ fuel, readPropertyFromFile (some (crlf text)) fuel property = some result := by
  intro h
  obtain ⟨fuel, hfound⟩ := h "A=$B\nB=1\n".toList ['A'] (true, ['1']) (by decide) (by decide)
    ⟨2, by decide⟩
  have hlost : readPropertyFromFile (some (crlf "A=$B\nB=1\n".toList)) 2 ['A'] =
      some (false, []) := by decide
  have hfound' := readPropertyFromFile_mono (Nat.le_max_left fuel 2) hfound
  rw [readPropertyFromFile_mono (Nat.le_max_right fuel 2) hlost] at hfound'
  cases Option.some.inj hfound'

end Peripherals.GetFileContent
