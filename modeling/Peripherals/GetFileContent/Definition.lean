import Mathlib.Data.List.TakeWhile
import Peripherals.GetFileContent.Chain

namespace Peripherals.GetFileContent

open Resolution

/-- The rest of a line that is no comment and consists of the property, spaces, a `=`
and the rest. -/
def definition (property line : Text) : Option Text :=
  if line.head? = some '#' then none
  else if property <+: line then
    match (line.drop property.length).dropWhile (· = ' ') with
    | '=' :: rest => some rest
    | _ => none
  else none

def dropCR (rest : Text) : Text := if rest.getLast? = some '\r' then rest.dropLast else rest

def definedValue (text property : Text) : Option Text :=
  ((lines text).findSome? (definition property)).map dropCR

instance (property line : Text) : Decidable (Accepted property line) :=
  decidable_of_iff (line.head? ≠ some '#' ∧ isLineOf property line = true)
    ⟨fun h ↦ ⟨h.1, h.2⟩, fun h ↦ ⟨h.comment, h.start⟩⟩

/-- The first line that `readPropertyFromFile` takes for one of the property. -/
def firstAccepted (text property : Text) : Option Text :=
  (lines text).find? (Accepted property ·)

variable {text property line rest value : Text} {fuel : ℕ}

theorem definition_eq_some : definition property line = some rest ↔
    line.head? ≠ some '#' ∧ ∃ n, line = property ++ List.replicate n ' ' ++ '=' :: rest := by
  unfold definition
  refine ⟨?_, ?_⟩
  · intro h
    split at h
    · cases h
    next hcomment =>
      refine ⟨hcomment, ?_⟩
      split at h
      next hpre =>
        obtain ⟨tail, rfl⟩ := hpre
        rw [List.drop_left] at h
        split at h
        next rest' hdrop =>
          obtain rfl := Option.some.inj h
          have hspaces : tail.takeWhile (· = ' ') =
              List.replicate (tail.takeWhile (· = ' ')).length ' ' := by
            apply List.eq_replicate_of_mem
            intro c hc
            simpa using List.mem_takeWhile_imp hc
          refine ⟨(tail.takeWhile (· = ' ')).length, ?_⟩
          rw [← hspaces, ← hdrop, List.append_assoc, List.takeWhile_append_dropWhile]
        · cases h
      · cases h
  · intro h
    obtain ⟨hcomment, n, rfl⟩ := h
    have hdrop : (List.replicate n ' ' ++ '=' :: rest).dropWhile (· = ' ') = '=' :: rest := by
      rw [List.dropWhile_append_of_pos (by simp)]
      simp
    rw [if_neg hcomment, if_pos ⟨_, (List.append_assoc _ _ _).symm⟩, List.append_assoc,
      List.drop_left, hdrop]
    rfl

theorem Accepted.shorter (h : Accepted property line) : property <+: line := by
  have hstart := h.start
  rw [isLineOf, Bool.or_eq_true, List.isPrefixOf_iff_prefix, List.isPrefixOf_iff_prefix] at hstart
  rcases hstart with hpre | hpre
  · exact (List.prefix_append property [' ']).trans hpre
  · exact (List.prefix_append property ['=']).trans hpre

theorem accepted_of_definition (h : definition property line = some rest) :
    Accepted property line := by
  obtain ⟨hcomment, n, rfl⟩ := definition_eq_some.mp h
  refine ⟨hcomment, ?_⟩
  rw [isLineOf, Bool.or_eq_true, List.isPrefixOf_iff_prefix, List.isPrefixOf_iff_prefix]
  cases n with
  | zero => exact .inr ⟨rest, by simp⟩
  | succ n => exact .inl ⟨List.replicate n ' ' ++ '=' :: rest, by simp [List.replicate_succ]⟩

theorem propertyContent_of_definition (hproperty : '=' ∉ property)
    (h : definition property line = some rest) : propertyContent line = rest := by
  obtain ⟨-, n, rfl⟩ := definition_eq_some.mp h
  have hbefore : ∀ c ∈ property ++ List.replicate n ' ', c ≠ '=' := by
    intro c hc heq
    rcases List.mem_append.mp hc with hc | hc
    · exact hproperty (heq ▸ hc)
    · rw [heq] at hc
      cases List.eq_of_mem_replicate hc
  rw [propertyContent, if_pos (by simp), List.dropWhile_append_of_pos (by simpa using hbefore)]
  simp

theorem mem_propertyContent {c : Char} (h : c ∈ propertyContent line) : c ∈ line := by
  unfold propertyContent at h
  split at h
  · exact List.dropWhile_subset _ (List.mem_of_mem_drop h)
  · exact h

theorem popNewLine_eq_dropCR (h : '\n' ∉ value) : popNewLine value = dropCR value := by
  unfold popNewLine dropCR
  cases hlast : value.getLast? with
  | none => simp
  | some c =>
    have hc : c ≠ '\n' := fun heq ↦ h (heq ▸ List.mem_of_getLast? hlast)
    simp [hc]

/-- Where no line of the property refers to another one, its first line decides. -/
theorem readLines_plain {readProperty : Text → Option (Bool × Text)} {ls : List Text}
    (hplain : ∀ line ∈ ls, Accepted property line → (propertyContent line).head? ≠ some '$') :
    readLines readProperty property ls [] =
      some ((ls.find? (Accepted property ·)).elim (false, [])
        fun line ↦ (true, popNewLine (propertyContent line))) := by
  induction ls with
  | nil => rfl
  | cons line ls ih =>
    obtain ⟨hline, hrest⟩ := List.forall_mem_cons.mp hplain
    rw [List.find?_cons]
    by_cases haccepted : Accepted property line
    · rw [decide_eq_true haccepted, readLines, if_neg haccepted.comment, if_pos haccepted.start]
      split
      next name hname => simp [hname] at hline; exact (hline haccepted).elim
      · rfl
    · rw [decide_eq_false haccepted, readLines, ih hrest]
      split
      · rfl
      next hcomment =>
        rw [if_neg fun hstart ↦ haccepted ⟨hcomment, hstart⟩]

theorem found_iff (value : Text) (hplain : ∀ line ∈ lines text, property <+: line →
      (propertyContent line).head? ≠ some '$') :
    (∃ fuel, readPropertyFromFile (some text) fuel property = some (true, value)) ↔
      ∃ line, firstAccepted text property = some line ∧ dropCR (propertyContent line) = value := by
  have hread (fuel : ℕ) : readPropertyFromFile (some text) (fuel + 1) property =
      some ((firstAccepted text property).elim (false, [])
        fun line ↦ (true, popNewLine (propertyContent line))) := by
    rw [readPropertyFromFile]
    apply readLines_plain
    intro line hline haccepted
    exact hplain line hline haccepted.shorter
  have hdrop {line : Text} (hline : firstAccepted text property = some line) :
      popNewLine (propertyContent line) = dropCR (propertyContent line) := by
    apply popNewLine_eq_dropCR
    intro hmem
    exact newLine_not_mem_lines text line (List.mem_of_find?_eq_some hline)
      (mem_propertyContent hmem)
  refine ⟨?_, ?_⟩
  · intro h
    obtain ⟨fuel, h⟩ := h
    cases fuel with
    | zero => cases h
    | succ fuel =>
      rw [hread fuel] at h
      cases hfirst : firstAccepted text property with
      | none => simp [hfirst] at h
      | some line =>
        refine ⟨line, rfl, ?_⟩
        rw [hfirst] at h
        rw [← hdrop hfirst]
        exact (Prod.mk.inj (Option.some.inj h)).2
  · intro h
    obtain ⟨line, hfirst, rfl⟩ := h
    refine ⟨1, ?_⟩
    rw [hread 0, hfirst, ← hdrop hfirst]
    rfl

theorem definedValue_of_first (hfirst : firstAccepted text property = some line)
    (hdefinition : definition property line = some rest) :
    definedValue text property = some (dropCR rest) := by
  obtain ⟨-, before, after, hlines, hbefore⟩ := List.find?_eq_some_iff_append.mp hfirst
  have hnone : before.findSome? (definition property) = none := by
    rw [List.findSome?_eq_none_iff]
    intro other hother
    cases hdef : definition property other with
    | none => rfl
    | some rest' =>
      have hnot := hbefore other hother
      simp [accepted_of_definition hdef] at hnot
  rw [definedValue, hlines, List.findSome?_append, hnone, Option.none_or, List.findSome?_cons,
    hdefinition]
  rfl

theorem exists_firstAccepted (h : definedValue text property = some value) :
    ∃ line, firstAccepted text property = some line := by
  obtain ⟨rest, hrest, -⟩ := Option.map_eq_some_iff.mp h
  obtain ⟨line, hline, hdefinition⟩ := List.exists_of_findSome?_eq_some hrest
  rw [← Option.isSome_iff_exists, firstAccepted, List.find?_isSome]
  exact ⟨line, hline, by simpa using accepted_of_definition hdefinition⟩

def FirstDefines (text property : Text) : Prop :=
  ∀ line, firstAccepted text property = some line → (definition property line).isSome = true

instance (text property : Text) : Decidable (FirstDefines text property) :=
  inferInstanceAs (Decidable (∀ line ∈ firstAccepted text property,
    (definition property line).isSome = true))

theorem FirstDefines.definedValue_eq (h : FirstDefines text property) (hproperty : '=' ∉ property)
    (hline : firstAccepted text property = some line) :
    definedValue text property = some (dropCR (propertyContent line)) := by
  obtain ⟨rest, hrest⟩ := Option.isSome_iff_exists.mp (h line hline)
  rw [definedValue_of_first hline hrest, propertyContent_of_definition hproperty hrest]

/-- The values that `readPropertyFromFile` finds are those of the first definition. -/
def Own (text property : Text) : Prop :=
  ∀ value, (∃ fuel, readPropertyFromFile (some text) fuel property = some (true, value)) ↔
    definedValue text property = some value

theorem FirstDefines.own (h : FirstDefines text property) (hproperty : '=' ∉ property)
    (hplain : ∀ line ∈ lines text, property <+: line →
      (propertyContent line).head? ≠ some '$') : Own text property := by
  intro value
  rw [found_iff value hplain]
  refine ⟨?_, ?_⟩
  · intro hfirst
    obtain ⟨line, hline, rfl⟩ := hfirst
    exact h.definedValue_eq hproperty hline
  · intro hdefined
    obtain ⟨line, hline⟩ := exists_firstAccepted hdefined
    rw [h.definedValue_eq hproperty hline] at hdefined
    exact ⟨line, hline, Option.some.inj hdefined⟩

/-- No line that is accepted and does not define the property says by chance what the
property is defined as. -/
def NoCoincidence (text property : Text) : Prop :=
  ∀ line ∈ lines text, Accepted property line → definition property line = none →
    definedValue text property ≠ some (dropCR (propertyContent line))

instance (text property : Text) : Decidable (NoCoincidence text property) :=
  inferInstanceAs (Decidable (∀ line ∈ lines text, Accepted property line →
    definition property line = none →
      definedValue text property ≠ some (dropCR (propertyContent line))))

theorem Own.firstDefines (h : Own text property)
    (hplain : ∀ line ∈ lines text, property <+: line →
      (propertyContent line).head? ≠ some '$')
    (hno : NoCoincidence text property) : FirstDefines text property := by
  intro line hline
  by_contra hnone
  have haccepted : Accepted property line := by simpa using List.find?_some hline
  have htaken := (h _).mp ((found_iff _ hplain).mpr ⟨line, hline, rfl⟩)
  exact hno line (List.mem_of_find?_eq_some hline) haccepted (by simpa using hnone) htaken

/-- A property is taken from its own definition where the first line that is accepted is
one, and only there, but for coincidences. -/
theorem own_definition (hproperty : '=' ∉ property)
    (hplain : ∀ line ∈ lines text, property <+: line →
      (propertyContent line).head? ≠ some '$') :
    (FirstDefines text property → Own text property) ∧
    (NoCoincidence text property → (Own text property ↔ FirstDefines text property)) := by
  refine ⟨fun h ↦ h.own hproperty hplain, ?_⟩
  intro hno
  exact ⟨fun h ↦ h.firstDefines hplain hno, fun h ↦ h.own hproperty hplain⟩

theorem own_definition_spaces : Own "A  =x\n".toList ['A'] ∧
    ¬ Own "A B=x\nA=y\n".toList ['A'] := by
  refine ⟨(own_definition (by decide) (by decide)).1 (by decide), ?_⟩
  rw [(own_definition (by decide) (by decide)).2 (by decide)]
  decide

/-- The value is taken from a line of another property. -/
theorem other_word_taken : ¬ ∀ text property : Text, property ≠ [] → ' ' ∉ property →
    '=' ∉ property → '$' ∉ property →
    (∀ line ∈ lines text, property <+: line → (propertyContent line).head? ≠ some '$') →
    Own text property := by
  intro h
  have htaken := (h "A B=x\n".toList ['A'] (by decide) (by decide) (by decide) (by decide)
    (by decide) ['x']).mp ⟨1, by decide⟩
  revert htaken
  decide

end Peripherals.GetFileContent
