import Peripherals.GetFileContent.Property

namespace Peripherals.GetFileContent

open Relation Resolution

/-- The loop of `readPropertyFromFile`; the recursive call gets the output parameter
as it stands. -/
def readLinesInto (readProperty : Text → Text → Option (Bool × Text)) (property : Text) :
    List Text → Text → Option (Bool × Text)
  | [], propertyValue => some (false, propertyValue)
  | line :: rest, propertyValue =>
    if line.head? = some '#' then readLinesInto readProperty property rest propertyValue
    else if isLineOf property line then
      match propertyContent line with
      | '$' :: expandedProperty =>
        match readProperty expandedProperty propertyValue with
        | none => none
        | some (true, value) => some (true, value)
        | some (false, value) => readLinesInto readProperty property rest value
      | content => some (true, popNewLine content)
    else readLinesInto readProperty property rest propertyValue

/-- `readPropertyFromFile` with what its output parameter holds before. -/
def readPropertyInto (file : Option Text) : ℕ → Text → Text → Option (Bool × Text)
  | 0, _, _ => none
  | fuel + 1, property, _ =>
    let propertyValue := []
    match file with
    | some text => readLinesInto (readPropertyInto file fuel) property (lines text) propertyValue
    | none => some (false, propertyValue)

variable {file : Option Text} {text property name value line : Text} {fuel : ℕ}

theorem readLinesInto_eq {readProperty : Text → Text → Option (Bool × Text)}
    {readProperty' : Text → Option (Bool × Text)}
    (h : ∀ name value, readProperty name value = readProperty' name) (property : Text)
    (ls : List Text) (value : Text) :
    readLinesInto readProperty property ls value = readLines readProperty' property ls value := by
  induction ls generalizing value with
  | nil => rfl
  | cons line ls ih =>
    rw [readLinesInto, readLines]
    split
    · exact ih value
    · split
      · rcases hcontent : propertyContent line with _ | ⟨c, name⟩
        · rfl
        · by_cases hc : c = '$'
          · subst hc
            simp only [h]
            rcases readProperty' name with _ | ⟨_ | _, value'⟩
            · rfl
            · exact ih value'
            · rfl
          · simp [hc]
      · exact ih value

theorem readPropertyInto_eq (file : Option Text) (fuel : ℕ) (property propertyValue : Text) :
    readPropertyInto file fuel property propertyValue =
      readPropertyFromFile file fuel property := by
  induction fuel generalizing property propertyValue with
  | zero => rfl
  | succ fuel ih =>
    cases file with
    | none => rfl
    | some text => exact readLinesInto_eq ih property (lines text) []

structure Accepted (property line : Text) : Prop where
  comment : line.head? ≠ some '#'
  start : isLineOf property line = true

def Refers (text property name : Text) : Prop :=
  ∃ line ∈ lines text, Accepted property line ∧ propertyContent line = '$' :: name

/-- A value text, and what is left of it without one CR or LF at its end. -/
structure Trimmed (content value : Text) : Prop where
  trimmed : content = value ∨ content = value ++ ['\r'] ∨ content = value ++ ['\n']
  whole : content = value → content.getLast? ≠ some '\r' ∧ content.getLast? ≠ some '\n'

theorem popNewLine_trimmed (content : Text) : Trimmed content (popNewLine content) := by
  unfold popNewLine
  cases hlast : content.getLast? with
  | none => exact ⟨.inl rfl, fun _ ↦ by simp [hlast]⟩
  | some c =>
    have hcontent : content = content.dropLast ++ [c] :=
      (List.dropLast_append_getLast? c hlast).symm
    dsimp only
    split
    next hc =>
      refine ⟨?_, ?_⟩
      · rcases hc with rfl | rfl
        · exact .inr (.inl hcontent)
        · exact .inr (.inr hcontent)
      · intro heq
        have hlength := congrArg List.length hcontent
        rw [← heq] at hlength
        simp at hlength
    next hc => exact ⟨.inl rfl, fun _ ↦ by simpa [hlast] using hc⟩

theorem entryOf_of_reference (h : Accepted property line)
    (hcontent : propertyContent line = '$' :: name) :
    entryOf property line = some (.reference name) := by
  rw [entryOf, if_neg h.comment, if_pos h.start, hcontent]
  rfl

theorem entryOf_of_value (h : Accepted property line)
    (hcontent : (propertyContent line).head? ≠ some '$') :
    entryOf property line = some (.value (popNewLine (propertyContent line))) := by
  rw [entryOf, if_neg h.comment, if_pos h.start]
  split
  next hname => simp [hname] at hcontent
  · rfl

theorem accepted_of_entryOf {entry : Entry Text Text} (h : entryOf property line = some entry) :
    Accepted property line := by
  unfold entryOf at h
  split at h
  · cases h
  next hcomment =>
    split at h
    next hstart => exact ⟨hcomment, hstart⟩
    · cases h

theorem entryOf_reference : entryOf property line = some (.reference name) ↔
    Accepted property line ∧ propertyContent line = '$' :: name := by
  refine ⟨?_, fun h ↦ entryOf_of_reference h.1 h.2⟩
  intro h
  refine ⟨accepted_of_entryOf h, ?_⟩
  rcases entryOf_cases h with ⟨_, hcontent, hname⟩ | ⟨-, hvalue⟩
  · rw [hcontent, Entry.reference.inj hname]
  · cases hvalue

theorem entryOf_value : entryOf property line = some (.value value) ↔
    Accepted property line ∧ (propertyContent line).head? ≠ some '$' ∧
      popNewLine (propertyContent line) = value := by
  refine ⟨?_, fun h ↦ h.2.2 ▸ entryOf_of_value h.1 h.2.1⟩
  intro h
  refine ⟨accepted_of_entryOf h, ?_⟩
  rcases entryOf_cases h with ⟨_, -, hreference⟩ | ⟨hplain, hvalue⟩
  · cases hreference
  · exact ⟨hplain, (Entry.value.inj hvalue).symm⟩

theorem reference_mem_entries :
    .reference name ∈ entries (some text) property ↔ Refers text property name := by
  simp [entries, Refers, entryOf_reference]

theorem value_mem_entries : .value value ∈ entries (some text) property ↔
    ∃ line ∈ lines text, Accepted property line ∧ (propertyContent line).head? ≠ some '$' ∧
      popNewLine (propertyContent line) = value := by
  simp [entries, entryOf_value]

/-- A value that is found stands at the end of a chain of references, and nothing is
left behind where none is found. -/
theorem readPropertyInto_sound (text : Text) (fuel : ℕ) (property propertyValue value : Text) :
    (readPropertyInto (some text) fuel property propertyValue = some (true, value) →
        ∃ last line, ReflTransGen (Refers text) property last ∧ line ∈ lines text ∧
          Accepted last line ∧ (propertyContent line).head? ≠ some '$' ∧
            Trimmed (propertyContent line) value) ∧
      (readPropertyInto (some text) fuel property propertyValue = some (false, value) →
        value = []) := by
  rw [readPropertyInto_eq, readPropertyFromFile_eq]
  refine ⟨?_, ?_⟩
  · intro h
    obtain ⟨r, hr, hanswer⟩ := Option.map_eq_some_iff.mp h
    cases r with
    | none => cases hanswer
    | some v =>
      obtain rfl : v = value := (Prod.mk.inj hanswer).2
      obtain ⟨last, hchain, hvalue⟩ := reaches_of_resolve hr
      obtain ⟨line, hline, haccepted, hplain, rfl⟩ := value_mem_entries.mp hvalue
      refine ⟨last, line, ?_, hline, haccepted, hplain, popNewLine_trimmed _⟩
      exact ReflTransGen.mono (fun _ _ ↦ reference_mem_entries.mp) _ _ hchain
  · intro h
    obtain ⟨r, -, hanswer⟩ := Option.map_eq_some_iff.mp h
    cases r with
    | none => exact (Prod.mk.inj hanswer).2.symm
    | some v => cases hanswer

example : readPropertyInto (some "A=$C\nA=$B\nB=7\r\n".toList) 2 "A".toList "before".toList =
    some (true, "7".toList) := by decide

end Peripherals.GetFileContent
