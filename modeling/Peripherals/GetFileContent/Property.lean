import Peripherals.GetFileContent.FileSystem
import Peripherals.Resolution

namespace Peripherals.GetFileContent

open Relation Resolution

/-- The lines that `std::getline` reads until the end of a file. -/
def lines : Text → List Text
  | [] => []
  | c :: text =>
    if c = '\n' then [] :: lines text
    else match lines text with
      | [] => [[c]]
      | line :: rest => (c :: line) :: rest

/-- `line.find(property + " ") == 0 || line.find(property + "=") == 0` -/
def isLineOf (property line : Text) : Bool :=
  (property ++ [' ']).isPrefixOf line || (property ++ ['=']).isPrefixOf line

/-- `line.substr(line.find("=") + 1)`: the whole line if there is no `=` in it. -/
def propertyContent (line : Text) : Text :=
  if '=' ∈ line then (line.dropWhile (· ≠ '=')).drop 1 else line

def popNewLine (propertyValue : Text) : Text :=
  match propertyValue.getLast? with
  | some c => if c = '\r' ∨ c = '\n' then propertyValue.dropLast else propertyValue
  | none => propertyValue

/-- The loop of `readPropertyFromFile` over the lines; `none` where a recursive
call does not return. -/
def readLines (readProperty : Text → Option (Bool × Text)) (property : Text) :
    List Text → Text → Option (Bool × Text)
  | [], propertyValue => some (false, propertyValue)
  | line :: rest, propertyValue =>
    if line.head? = some '#' then readLines readProperty property rest propertyValue
    else if isLineOf property line then
      match propertyContent line with
      | '$' :: expandedProperty =>
        match readProperty expandedProperty with
        | none => none
        | some (true, value) => some (true, value)
        | some (false, value) => readLines readProperty property rest value
      | content => some (true, popNewLine content)
    else readLines readProperty property rest propertyValue

/-- `none` stands for calls that nest deeper than `fuel`, and a missing file for
one that cannot be opened. -/
def readPropertyFromFile (file : Option Text) : ℕ → Text → Option (Bool × Text)
  | 0, _ => none
  | fuel + 1, property =>
    match file with
    | some text => readLines (readPropertyFromFile file fuel) property (lines text) []
    | none => some (false, [])

def entryOf (property line : Text) : Option (Entry Text Text) :=
  if line.head? = some '#' then none
  else if isLineOf property line then
    match propertyContent line with
    | '$' :: expandedProperty => some (.reference expandedProperty)
    | content => some (.value (popNewLine content))
  else none

/-- The file as a table of properties. -/
def entries (file : Option Text) (property : Text) : List (Entry Text Text) :=
  ((file.map lines).getD []).filterMap (entryOf property)

def answer : Option Text → Bool × Text
  | some value => (true, value)
  | none => (false, [])

variable {file : Option Text} {text property line before after : Text} {c : Char} {fuel : ℕ}

section Lines

theorem lines_ne_nil (h : text ≠ []) : lines text ≠ [] := by
  obtain ⟨c, text, rfl⟩ := List.exists_cons_of_ne_nil h
  rw [lines]
  split
  · simp
  · split <;> simp

theorem lines_cons {rest : List Text} (hc : c ≠ '\n')
    (h : lines text = line :: rest) : lines (c :: text) = (c :: line) :: rest := by
  rw [lines, if_neg hc, h]

theorem lines_append (before after : Text) :
    lines (before ++ '\n' :: after) = lines (before ++ ['\n']) ++ lines after := by
  induction before with
  | nil => simp [lines]
  | cons c before ih =>
    by_cases hc : c = '\n'
    · subst hc
      simp only [List.cons_append, lines, if_pos, ih]
    · obtain ⟨line, rest, hlines⟩ := List.exists_cons_of_ne_nil
        (lines_ne_nil (show before ++ ['\n'] ≠ [] by simp))
      rw [hlines] at ih
      rw [List.cons_append, List.cons_append, lines_cons hc ih, lines_cons hc hlines]
      rfl

theorem lines_of_not_mem (hne : line ≠ []) (h : '\n' ∉ line) : lines line = [line] := by
  induction line with
  | nil => exact (hne rfl).elim
  | cons c line ih =>
    obtain ⟨hc, hline⟩ : '\n' ≠ c ∧ '\n' ∉ line := by simpa using h
    cases line with
    | nil => simp [lines, Ne.symm hc]
    | cons d line => exact lines_cons (Ne.symm hc) (ih (by simp) hline)

theorem lines_ended (h : '\n' ∉ line) : lines (line ++ ['\n']) = [line] := by
  induction line with
  | nil => simp [lines]
  | cons c line ih =>
    obtain ⟨hc, hline⟩ : '\n' ≠ c ∧ '\n' ∉ line := by simpa using h
    exact lines_cons (Ne.symm hc) (ih hline)

theorem newLine_not_mem_lines (text : Text) : ∀ line ∈ lines text, '\n' ∉ line := by
  induction text with
  | nil => simp [lines]
  | cons c text ih =>
    rw [lines]
    split
    · exact List.forall_mem_cons.mpr ⟨List.not_mem_nil, ih⟩
    next hc =>
      split
      · exact List.forall_mem_singleton.mpr (by simpa using Ne.symm hc)
      next line rest hlines =>
        rw [hlines] at ih
        obtain ⟨hline, hrest⟩ := List.forall_mem_cons.mp ih
        refine List.forall_mem_cons.mpr ⟨?_, hrest⟩
        simp [Ne.symm hc, hline]

theorem mem_of_mem_lines (h : line ∈ lines text) (hc : c ∈ line) : c ∈ text := by
  induction text generalizing line with
  | nil => cases h
  | cons d text ih =>
    rw [lines] at h
    split at h
    · rcases List.mem_cons.mp h with rfl | h
      · cases hc
      · exact List.mem_cons_of_mem d (ih h hc)
    · split at h
      · rw [List.mem_singleton.mp h, List.mem_singleton] at hc
        exact hc ▸ List.mem_cons_self
      next first rest hlines =>
        rcases List.mem_cons.mp h with rfl | h
        · rcases List.mem_cons.mp hc with rfl | hc
          · exact List.mem_cons_self
          · exact List.mem_cons_of_mem d (ih (hlines ▸ List.mem_cons_self) hc)
        · exact List.mem_cons_of_mem d (ih (hlines ▸ List.mem_cons_of_mem first h) hc)

end Lines

theorem readLines_eq (f : Text → Option (Option Text)) (property : Text) (ls : List Text) :
    readLines (fun name ↦ (f name).map answer) property ls [] =
      (tryEach f (ls.filterMap (entryOf property))).map answer := by
  induction ls with
  | nil => rfl
  | cons line ls ih =>
    rw [readLines, List.filterMap_cons, entryOf]
    split
    · exact ih
    · split
      · split
        next name _ =>
          simp only [tryEach]
          rcases f name with _ | _ | value
          · rfl
          · exact ih
          · rfl
        · rfl
      · exact ih

theorem readPropertyFromFile_eq (file : Option Text) (fuel : ℕ) (property : Text) :
    readPropertyFromFile file fuel property =
      (resolve (entries file) fuel property).map answer := by
  induction fuel generalizing property with
  | zero => rfl
  | succ fuel ih =>
    have hrec : readPropertyFromFile file fuel =
        fun name ↦ (resolve (entries file) fuel name).map answer := funext ih
    cases file with
    | none => rfl
    | some text =>
      rw [readPropertyFromFile, hrec]
      exact readLines_eq _ property (lines text)

theorem readPropertyFromFile_mono {fuel' : ℕ} {r : Bool × Text} (hle : fuel ≤ fuel')
    (h : readPropertyFromFile file fuel property = some r) :
    readPropertyFromFile file fuel' property = some r := by
  rw [readPropertyFromFile_eq] at h ⊢
  obtain ⟨s, hs, rfl⟩ := Option.map_eq_some_iff.mp h
  rw [resolve_mono hle hs]
  rfl

theorem popNewLine_head? (s : Text) (h : s.head? ≠ some '$') : (popNewLine s).head? ≠ some '$' := by
  have hdrop : s.dropLast.head? ≠ some '$' := by
    rcases s with _ | ⟨c, _ | ⟨d, s⟩⟩
    · exact h
    · simp
    · exact h
  unfold popNewLine
  split
  · split
    · exact hdrop
    · exact h
  · exact h

theorem entryOf_cases {line : Text} {entry : Entry Text Text}
    (h : entryOf property line = some entry) :
    (∃ name, propertyContent line = '$' :: name ∧ entry = .reference name) ∨
      ((propertyContent line).head? ≠ some '$' ∧
        entry = .value (popNewLine (propertyContent line))) := by
  unfold entryOf at h
  split at h
  · cases h
  · split at h
    · split at h
      next name hcontent => exact .inl ⟨name, hcontent, (Option.some.inj h).symm⟩
      next hplain =>
        refine .inr ⟨?_, (Option.some.inj h).symm⟩
        intro hhead
        obtain ⟨rest, hrest⟩ := List.head?_eq_some_iff.mp hhead
        exact hplain rest hrest
    · cases h

/-- A value that is found is no reference. -/
theorem readPropertyFromFile_value {value : Text}
    (h : readPropertyFromFile file fuel property = some (true, value)) :
    value.head? ≠ some '$' := by
  rw [readPropertyFromFile_eq] at h
  obtain ⟨r, hr, hvalue⟩ := Option.map_eq_some_iff.mp h
  cases r with
  | none => cases hvalue
  | some v =>
    obtain rfl : v = value := (Prod.mk.inj hvalue).2
    obtain ⟨name, -, hname⟩ := reaches_of_resolve hr
    obtain ⟨line, -, hentry⟩ := List.mem_filterMap.mp hname
    rcases entryOf_cases hentry with ⟨_, -, hreference⟩ | ⟨hplain, hv⟩
    · cases hreference
    · rw [Entry.value.inj hv]
      exact popNewLine_head? _ hplain

def references (file : Option Text) : List Text :=
  ((file.map lines).getD []).filterMap fun line ↦
    match propertyContent line with
    | '$' :: expandedProperty => some expandedProperty
    | _ => none

theorem mem_references {name : Text} (h : .reference name ∈ entries file property) :
    name ∈ references file := by
  obtain ⟨line, hline, hentry⟩ := List.mem_filterMap.mp h
  refine List.mem_filterMap.mpr ⟨line, hline, ?_⟩
  rcases entryOf_cases hentry with ⟨_, hcontent, hname⟩ | ⟨-, hvalue⟩
  · rw [hcontent, Entry.reference.inj hname]
    rfl
  · cases hvalue

/-- The lookup of a property ends if and only if no chain of properties that are
asked for, from this one on, comes to one twice. -/
theorem readPropertyFromFile_ends_iff (file : Option Text) (property : Text) :
    (∃ fuel, (readPropertyFromFile file fuel property).isSome = true) ↔
      ∀ name, ReflTransGen (Tried (entries file)) property name →
        ¬ TransGen (Tried (entries file)) name name := by
  have hends : (∃ fuel, (readPropertyFromFile file fuel property).isSome = true) ↔
      Ends (entries file) property := by
    simp only [readPropertyFromFile_eq, Option.isSome_map, Ends]
  rw [hends]
  apply ends_iff_acyclic (references file).finite_toSet
  intro _ name hname
  exact mem_references hname

example : readPropertyFromFile (some "# names\nA=$B\nB=7\r\n".toList) 2 "A".toList =
    some (true, "7".toList) := by decide

def selfReference : Text := "A=$A\n".toList

theorem self_reference_never_ends : ¬ ∀ (file : Option Text) (property : Text),
    ∃ fuel, (readPropertyFromFile file fuel property).isSome = true := by
  intro h
  obtain ⟨fuel, hsome⟩ := h (some selfReference) ['A']
  rw [readPropertyFromFile_eq, Option.isSome_map] at hsome
  have htried : Tried (entries (some selfReference)) ['A'] ['A'] :=
    ⟨[], [], rfl, by simp, by simp⟩
  exact not_transGen_self (acc_of_isSome hsome) (.single htried)

end Peripherals.GetFileContent
