import Mathlib.Data.List.TakeWhile
import Peripherals.GetFileContent.Property

namespace Peripherals.GetFileContent

def endsVariable (c : Char) : Bool := c = ' ' || c = '/'

/-- `strchr(text, '$')`, with what is before the `$` and what is after it. -/
def nextVariable : Text → Option (Text × Text)
  | [] => none
  | c :: text =>
    if c = '$' then some ([], text)
    else (nextVariable text).map fun (gap, rest) ↦ (c :: gap, rest)

variable {text gap rest : Text}

theorem nextVariable_length (h : nextVariable text = some (gap, rest)) :
    rest.length < text.length := by
  induction text generalizing gap with
  | nil => cases h
  | cons c text ih =>
    rw [nextVariable] at h
    split at h
    · obtain ⟨-, rfl⟩ := Prod.mk.inj (Option.some.inj h)
      exact Nat.lt_succ_self _
    · obtain ⟨⟨gap', rest'⟩, hnext, heq⟩ := Option.map_eq_some_iff.mp h
      obtain ⟨-, rfl⟩ := Prod.mk.inj heq
      exact Nat.lt_succ_of_lt (ih hnext)

/-- The loop of `ExpandPropertiesInString` from the `$` at `variablePos` on, which
stands between `before` and `rest` in the input. What the loop appends up to the
next `$` is lost there, as `assign` starts the output again. -/
def expandLoop (readProperty : Text → Option (Bool × Text)) (before rest : Text) :
    Option (Bool × Text) :=
  let expandedString := before
  let variableName := rest.takeWhile (!endsVariable ·)
  let endPos := rest.dropWhile (!endsVariable ·)
  if endPos.isEmpty then
    match _ : nextVariable rest with
    | none => some (true, expandedString ++ rest)
    | some (gap, next) => expandLoop readProperty (before ++ '$' :: gap) next
  else
    match readProperty variableName with
    | none => none
    | some (false, _) => some (false, expandedString)
    | some (true, tempPropertyValue) =>
      match _ : nextVariable endPos with
      | none => some (true, expandedString ++ tempPropertyValue ++ endPos)
      | some (gap, next) => expandLoop readProperty (before ++ '$' :: variableName ++ gap) next
termination_by rest.length
decreasing_by
  · exact nextVariable_length ‹_›
  · exact Nat.lt_of_lt_of_le (nextVariable_length ‹_›) (List.length_dropWhile_le _ rest)

def continueAt (readProperty : Text → Option (Bool × Text)) (expandedString passed endPos : Text) :
    Option (Bool × Text) :=
  match nextVariable endPos with
  | none => some (true, expandedString ++ endPos)
  | some (gap, next) => expandLoop readProperty (passed ++ gap) next

theorem expandLoop_eq (readProperty : Text → Option (Bool × Text)) (before rest : Text) :
    expandLoop readProperty before rest =
      if (rest.dropWhile (!endsVariable ·)).isEmpty then
        continueAt readProperty before (before ++ ['$']) rest
      else
        match readProperty (rest.takeWhile (!endsVariable ·)) with
        | none => none
        | some (false, _) => some (false, before)
        | some (true, tempPropertyValue) =>
          continueAt readProperty (before ++ tempPropertyValue)
            (before ++ '$' :: rest.takeWhile (!endsVariable ·))
            (rest.dropWhile (!endsVariable ·)) := by
  rw [expandLoop]
  split
  · unfold continueAt
    split <;> simp_all
  · split
    · rfl
    · rfl
    · unfold continueAt
      split <;> simp_all

def expandPropertiesInString (file : Option Text) (fuel : ℕ) (input expandedString : Text) :
    Option (Bool × Text) :=
  match nextVariable input with
  | none => some (true, expandedString)
  | some (before, rest) => expandLoop (readPropertyFromFile file fuel) before rest

/-- A text up to its first variable, or in a variable, as the rest of this
variable, what follows up to the next one, and the later variables with what
follows each. -/
def scan : Bool → Text → Text × Text × List (Text × Text)
  | _, [] => ([], [], [])
  | false, c :: text =>
    if c = '$' then
      let (name, gap, later) := scan true text
      ([], [], (name, gap) :: later)
    else
      let (_, gap, later) := scan false text
      ([], c :: gap, later)
  | true, c :: text =>
    if endsVariable c then
      let (_, gap, later) := scan false text
      ([], c :: gap, later)
    else
      let (name, gap, later) := scan true text
      (c :: name, gap, later)

/-- The variables of a text: a `$` and the longest run of characters other than
a blank and a slash, each with the text up to the next variable. -/
def variablesOf (input : Text) : List (Text × Text) := (scan false input).2.2

def substitute (value : Text → Text) (input : Text) : Text :=
  (scan false input).2.1 ++ (variablesOf input).flatMap fun v ↦ value v.1 ++ v.2

def join (later : List (Text × Text)) : Text := later.flatMap fun v ↦ '$' :: v.1 ++ v.2

structure IsVariable (v : Text × Text) : Prop where
  name : ∀ c ∈ v.1, endsVariable c = false
  delimited : ∀ c s, v.2 = c :: s → endsVariable c = true
  gap : '$' ∉ v.2

structure Scanned (inVariable : Bool) (text : Text) (r : Text × Text × List (Text × Text)) :
    Prop where
  text_eq : text = r.1 ++ r.2.1 ++ join r.2.2
  outside : inVariable = false → r.1 = []
  delimited : inVariable = true → ∀ c s, r.2.1 = c :: s → endsVariable c = true
  name : ∀ c ∈ r.1, endsVariable c = false
  gap : '$' ∉ r.2.1
  later : ∀ v ∈ r.2.2, IsVariable v

theorem dollar_not_end {c : Char} (h : endsVariable c = true) : c ≠ '$' := by
  intro heq
  rw [heq] at h
  cases h

theorem scan_scanned (inVariable : Bool) (text : Text) :
    Scanned inVariable text (scan inVariable text) := by
  induction text generalizing inVariable with
  | nil =>
    rw [scan.eq_def]
    exact ⟨rfl, fun _ ↦ rfl, by simp, by simp, by simp, by simp⟩
  | cons c text ih =>
    cases inVariable with
    | false =>
      rw [scan]
      split
      next hdollar =>
        obtain ⟨htext, -, hdelimited, hname, hgap, hlater⟩ := ih true
        refine ⟨?_, fun _ ↦ rfl, by simp, by simp, by simp, ?_⟩
        · rw [hdollar]
          simpa [join] using htext
        · intro v hv
          rcases List.mem_cons.mp hv with rfl | hv
          · exact ⟨hname, hdelimited rfl, hgap⟩
          · exact hlater v hv
      next hother =>
        obtain ⟨htext, hnil, -, -, hgap, hlater⟩ := ih false
        refine ⟨?_, fun _ ↦ rfl, by simp, by simp, ?_, hlater⟩
        · rw [hnil rfl] at htext
          exact congrArg (c :: ·) htext
        · simp [hgap, Ne.symm hother]
    | true =>
      rw [scan]
      split
      next hend =>
        obtain ⟨htext, hnil, -, -, hgap, hlater⟩ := ih false
        refine ⟨?_, by simp, ?_, by simp, ?_, hlater⟩
        · rw [hnil rfl] at htext
          exact congrArg (c :: ·) htext
        · intro _ d s heq
          obtain ⟨rfl, -⟩ := List.cons.inj heq
          exact hend
        · simp [hgap, (dollar_not_end hend).symm]
      next hend =>
        obtain ⟨htext, -, hdelimited, hname, hgap, hlater⟩ := ih true
        refine ⟨congrArg (c :: ·) htext, by simp, hdelimited, ?_, hgap, hlater⟩
        intro d hd
        rcases List.mem_cons.mp hd with rfl | hd
        · exact Bool.eq_false_iff.mpr hend
        · exact hname d hd

theorem nextVariable_append (hgap : '$' ∉ gap) (rest : Text) :
    nextVariable (gap ++ '$' :: rest) = some (gap, rest) := by
  induction gap with
  | nil => simp [nextVariable]
  | cons c gap ih =>
    obtain ⟨hc, hgap⟩ : '$' ≠ c ∧ '$' ∉ gap := by simpa using hgap
    simp [nextVariable, hc.symm, ih hgap]

theorem nextVariable_none (hgap : '$' ∉ gap) : nextVariable gap = none := by
  induction gap with
  | nil => rfl
  | cons c gap ih =>
    obtain ⟨hc, hgap⟩ : '$' ≠ c ∧ '$' ∉ gap := by simpa using hgap
    simp [nextVariable, hc.symm, ih hgap]

variable {readProperty : Text → Option (Bool × Text)} {before : Text} {v : Text × Text}
  {value : Text → Text}

/-- One round of the loop, at a variable that is delimited. -/
theorem expandLoop_variable (hv : IsVariable v) (hne : v.2 ≠ [])
    (hread : readProperty v.1 = some (true, value v.1)) (before later : Text) :
    expandLoop readProperty before (v.1 ++ v.2 ++ later) =
      continueAt readProperty (before ++ value v.1) (before ++ '$' :: v.1) (v.2 ++ later) := by
  obtain ⟨c, s, hs⟩ := List.exists_cons_of_ne_nil hne
  have hc := hv.delimited c s hs
  have htake : (v.1 ++ v.2 ++ later).takeWhile (!endsVariable ·) = v.1 := by
    rw [List.append_assoc, List.takeWhile_append_of_pos (by simpa using hv.name), hs]
    simp [hc]
  have hdrop : (v.1 ++ v.2 ++ later).dropWhile (!endsVariable ·) = v.2 ++ later := by
    rw [List.append_assoc, List.dropWhile_append_of_pos (by simpa using hv.name), hs]
    simp [hc]
  have hsome : (v.2 ++ later).isEmpty = false := by simp [hne]
  rw [expandLoop_eq, htake, hdrop, hsome, hread]
  rfl

/-- Only the last variable is replaced in what the loop makes. -/
theorem expandLoop_last {init : List (Text × Text)} {last : Text × Text}
    (hvars : ∀ v ∈ init ++ [last], IsVariable v ∧ v.2 ≠ [] ∧
      readProperty v.1 = some (true, value v.1))
    (hrest : '$' :: rest = join (init ++ [last])) (before : Text) :
    expandLoop readProperty before rest =
      some (true, before ++ join init ++ value last.1 ++ last.2) := by
  induction init generalizing before rest with
  | nil =>
    obtain ⟨hv, hne, hread⟩ := hvars last (by simp)
    obtain rfl : rest = last.1 ++ last.2 ++ [] := by simpa [join] using hrest
    rw [expandLoop_variable hv hne hread, List.append_nil, continueAt, nextVariable_none hv.gap]
    simp [join]
  | cons v init ih =>
    obtain ⟨hv, hne, hread⟩ := hvars v (by simp)
    obtain ⟨next, hnext⟩ : ∃ next, join (init ++ [last]) = '$' :: next := by
      cases init with
      | nil => exact ⟨_, rfl⟩
      | cons w init => exact ⟨_, rfl⟩
    obtain rfl : rest = v.1 ++ v.2 ++ '$' :: next := by
      have heq : join (v :: init ++ [last]) = '$' :: (v.1 ++ v.2 ++ join (init ++ [last])) := rfl
      rw [heq, hnext] at hrest
      exact (List.cons.inj hrest).2
    rw [expandLoop_variable hv hne hread, continueAt, nextVariable_append hv.gap]
    dsimp only
    rw [ih (fun w hw ↦ hvars w (List.mem_cons_of_mem v hw)) hnext.symm]
    have hjoin : join (v :: init) = '$' :: v.1 ++ v.2 ++ join init := rfl
    rw [hjoin]
    simp only [List.append_assoc]

theorem expandLoop_mono {f g : Text → Option (Bool × Text)} {r : Bool × Text}
    (h : ∀ name r, f name = some r → g name = some r) {before rest : Text}
    (hr : expandLoop f before rest = some r) : expandLoop g before rest = some r := by
  induction hn : rest.length using Nat.strong_induction_on generalizing before rest with
  | _ n ih =>
    have hnext {expandedString passed endPos : Text} (hle : endPos.length ≤ rest.length)
        (hr : continueAt f expandedString passed endPos = some r) :
        continueAt g expandedString passed endPos = some r := by
      unfold continueAt at hr ⊢
      split at hr
      · exact hr
      next gap next heq =>
        exact ih next.length (hn ▸ Nat.lt_of_lt_of_le (nextVariable_length heq) hle) hr rfl
    rw [expandLoop_eq] at hr ⊢
    split at hr
    next hend =>
      rw [if_pos hend]
      exact hnext (Nat.le_refl _) hr
    next hend =>
      rw [if_neg hend]
      split at hr
      · cases hr
      next heq =>
        rw [h _ _ heq]
        exact hr
      next heq =>
        rw [h _ _ heq]
        exact hnext (List.length_dropWhile_le _ rest) hr

variable {file : Option Text} {input expandedString : Text} {fuel fuel' : ℕ} {r : Bool × Text}

theorem expandPropertiesInString_mono (hle : fuel ≤ fuel')
    (h : expandPropertiesInString file fuel input expandedString = some r) :
    expandPropertiesInString file fuel' input expandedString = some r := by
  unfold expandPropertiesInString at h ⊢
  split
  next heq => simpa [heq] using h
  next before rest heq =>
    rw [heq] at h
    exact expandLoop_mono (fun _ _ ↦ readPropertyFromFile_mono hle) h

theorem exists_fuel {later : List (Text × Text)}
    (h : ∀ v ∈ later, ∃ fuel, readPropertyFromFile file fuel v.1 = some (true, value v.1)) :
    ∃ fuel, ∀ v ∈ later, readPropertyFromFile file fuel v.1 = some (true, value v.1) := by
  induction later with
  | nil => exact ⟨0, by simp⟩
  | cons v later ih =>
    obtain ⟨fuel, hfuel⟩ := h v List.mem_cons_self
    obtain ⟨fuel', hfuel'⟩ := ih fun w hw ↦ h w (List.mem_cons_of_mem v hw)
    refine ⟨max fuel fuel', ?_⟩
    intro w hw
    rcases List.mem_cons.mp hw with rfl | hw
    · exact readPropertyFromFile_mono (Nat.le_max_left fuel fuel') hfuel
    · exact readPropertyFromFile_mono (Nat.le_max_right fuel fuel') (hfuel' w hw)

theorem text_eq (input : Text) : input = (scan false input).2.1 ++ join (variablesOf input) := by
  have hscanned := scan_scanned false input
  have htext := hscanned.text_eq
  rwa [hscanned.outside rfl] at htext

/-- The text before a variable stands in the output as it stands in the input. -/
theorem expand_last {init : List (Text × Text)} {last : Text × Text} (expandedString : Text)
    (hinput : variablesOf input = init ++ [last]) (hdelim : ∀ v ∈ variablesOf input, v.2 ≠ [])
    (hread : ∀ v ∈ variablesOf input,
      readPropertyFromFile file fuel v.1 = some (true, value v.1)) :
    expandPropertiesInString file fuel input expandedString =
      some (true, (scan false input).2.1 ++ join init ++ value last.1 ++ last.2) := by
  obtain ⟨-, -, -, -, hgap, hlater⟩ := scan_scanned false input
  have hvars : ∀ v ∈ init ++ [last], IsVariable v ∧ v.2 ≠ [] ∧
      readPropertyFromFile file fuel v.1 = some (true, value v.1) := by
    rw [← hinput]
    exact fun v hv ↦ ⟨hlater v hv, hdelim v hv, hread v hv⟩
  obtain ⟨rest, hrest⟩ : ∃ rest, join (init ++ [last]) = '$' :: rest := by
    cases init with
    | nil => exact ⟨_, rfl⟩
    | cons v init => exact ⟨_, rfl⟩
  have hsplit : input = (scan false input).2.1 ++ '$' :: rest := by
    rw [← hrest, ← hinput]
    exact text_eq input
  rw [expandPropertiesInString]
  have hnext : nextVariable input = some ((scan false input).2.1, rest) := by
    conv_lhs => rw [hsplit]
    exact nextVariable_append hgap rest
  rw [hnext]
  exact expandLoop_last hvars hrest.symm _

/-- Where every variable is delimited and found, the output is the input with
each variable replaced if and only if there is only one. -/
theorem expanded_iff (hdollar : '$' ∈ input) (hdelim : ∀ v ∈ variablesOf input, v.2 ≠ [])
    (hfound : ∀ v ∈ variablesOf input,
      ∃ fuel, readPropertyFromFile file fuel v.1 = some (true, value v.1))
    (expandedString : Text) :
    (∃ fuel, expandPropertiesInString file fuel input expandedString =
      some (true, substitute value input)) ↔ (variablesOf input).length = 1 := by
  obtain ⟨-, -, -, -, hgap, hlater⟩ := scan_scanned false input
  have hne : variablesOf input ≠ [] := by
    intro hempty
    rw [text_eq input, hempty] at hdollar
    exact hgap (by simpa [join] using hdollar)
  obtain ⟨init, last, hinput⟩ : ∃ init last, variablesOf input = init ++ [last] :=
    ⟨_, _, (List.dropLast_append_getLast hne).symm⟩
  obtain ⟨fuel, hread⟩ := exists_fuel hfound
  have hlast := expand_last expandedString hinput hdelim hread
  cases init with
  | nil =>
    have hone : (variablesOf input).length = 1 := by rw [hinput]; rfl
    refine iff_of_true ⟨fuel, ?_⟩ hone
    rw [hlast, substitute, hinput]
    simp [join]
  | cons v init =>
    have hmany : (variablesOf input).length ≠ 1 := by simp [hinput]
    refine iff_of_false ?_ hmany
    intro h
    obtain ⟨fuel', hsubst⟩ := h
    have hmax := expandPropertiesInString_mono (Nat.le_max_left fuel fuel') hlast
    rw [expandPropertiesInString_mono (Nat.le_max_right fuel fuel') hsubst, substitute, hinput]
      at hmax
    have hv : v ∈ variablesOf input := by simp [hinput]
    -- the first variable has kept its dollar, and no value has one in front
    have hvalue := readPropertyFromFile_value (hread v hv)
    obtain ⟨c, s, hs⟩ := List.exists_cons_of_ne_nil (hdelim v hv)
    have hc := dollar_not_end ((hlater v hv).delimited c s hs)
    have heq := (Prod.mk.inj (Option.some.inj hmax)).2
    simp only [join, List.cons_append, List.flatMap_cons, List.append_assoc,
      List.append_cancel_left_eq] at heq
    cases hval : value v.1 with
    | nil =>
      rw [hval, hs] at heq
      exact hc (List.cons.inj heq).1
    | cons d t =>
      rw [hval] at heq hvalue
      obtain rfl := (List.cons.inj heq).1
      exact hvalue rfl

theorem expanded_iff_one :
    (∃ fuel, expandPropertiesInString (some "A=x\n".toList) fuel "/$A/b".toList [] =
      some (true, substitute (fun _ ↦ ['x']) "/$A/b".toList)) ↔
        (variablesOf "/$A/b".toList).length = 1 := by
  have hvars : variablesOf "/$A/b".toList = [(['A'], ['/', 'b'])] := by decide
  refine expanded_iff (by decide) ?_ ?_ []
  · rw [hvars]
    decide
  · rw [hvars]
    exact List.forall_mem_singleton.mpr ⟨1, by decide⟩

def twoProperties : Text := "A=x\nB=y\n".toList

def twoVariables : Text := "$A/$B/".toList

def valueOf (name : Text) : Text := if name = ['A'] then ['x'] else ['y']

/-- Of two variables only the second is replaced. -/
theorem second_variable_only : ¬ ∀ (file : Option Text) (input expandedString : Text)
    (value : Text → Text), '$' ∈ input → (∀ v ∈ variablesOf input, v.2 ≠ []) →
    (∀ v ∈ variablesOf input,
      ∃ fuel, readPropertyFromFile file fuel v.1 = some (true, value v.1)) →
    ∃ fuel, expandPropertiesInString file fuel input expandedString =
      some (true, substitute value input) := by
  intro h
  have hvars : variablesOf twoVariables = [(['A'], ['/'])] ++ [(['B'], ['/'])] := by decide
  have hdelim : ∀ v ∈ variablesOf twoVariables, v.2 ≠ [] := by simp [hvars]
  have hread : ∀ v ∈ variablesOf twoVariables,
      readPropertyFromFile (some twoProperties) 1 v.1 = some (true, valueOf v.1) := by
    rw [hvars]
    decide
  obtain ⟨fuel, hsubst⟩ := h (some twoProperties) twoVariables [] valueOf (by decide) hdelim
    fun v hv ↦ ⟨1, hread v hv⟩
  have hlast := expandPropertiesInString_mono (Nat.le_max_left 1 fuel)
    (expand_last [] hvars hdelim hread)
  rw [expandPropertiesInString_mono (Nat.le_max_right 1 fuel) hsubst] at hlast
  exact absurd (Prod.mk.inj (Option.some.inj hlast)).2 (by decide)

end Peripherals.GetFileContent
