import Mathlib.Data.List.Basic

namespace Peripherals.InputValidator

inductive ExpectedType
  | none
  | discrete
  | range
  | regExp
  deriving DecidableEq

structure Range (T : Type) where
  m_min : T
  m_max : T

/-- An `ExpectedValues<T>`; a `std::set` is the list of its elements, and `R` are the
regular expressions. -/
structure ExpectedValues (T R : Type) where
  m_type : ExpectedType
  m_range : Range T
  m_values : List T
  m_regex : R

namespace ExpectedValues

variable {T R : Type}

/-- `ExpectedValues()`: the range is not set, and the regular expression is the one
that the default constructor makes. -/
def empty (m_range : Range T) (m_regex : R) : ExpectedValues T R where
  m_type := .none
  m_range := m_range
  m_values := []
  m_regex := m_regex

section Assign

variable [DecidableEq T]

/-- `operator=(const ExpectedValues &copy)`, with what both objects are afterwards. -/
def copyAssign (self copy : ExpectedValues T R) : ExpectedValues T R × ExpectedValues T R :=
  let self := { self with m_type := copy.m_type }
  match self.m_type with
  | .discrete =>
    ({ self with
      m_values := copy.m_values.foldl (fun m_values value ↦ m_values.insert value) self.m_values },
      copy)
  | .range => ({ self with m_range := copy.m_range }, copy)
  | .regExp => ({ self with m_regex := copy.m_regex }, copy)
  | .none => (self, copy)

def copyConstruct (m_range : Range T) (m_regex : R) (copy : ExpectedValues T R) :
    ExpectedValues T R × ExpectedValues T R := copyAssign (empty m_range m_regex) copy

end Assign

/-- `operator=(ExpectedValues &&copy)`; `movedValues` and `movedRegex` are what a move
leaves behind. -/
def moveAssign (movedValues : List T) (movedRegex : R) (self copy : ExpectedValues T R) :
    ExpectedValues T R × ExpectedValues T R :=
  let type := self.m_type
  let self := { self with m_type := copy.m_type }
  let copy := { copy with m_type := type }
  match self.m_type with
  | .discrete => ({ self with m_values := copy.m_values }, { copy with m_values := movedValues })
  | .range => ({ self with m_range := copy.m_range }, copy)
  | .regExp => ({ self with m_regex := copy.m_regex }, { copy with m_regex := movedRegex })
  | .none => (self, copy)

def moveConstruct (movedValues : List T) (movedRegex : R) (m_range : Range T) (m_regex : R)
    (copy : ExpectedValues T R) : ExpectedValues T R × ExpectedValues T R :=
  moveAssign movedValues movedRegex (empty m_range m_regex) copy

section Source

variable [DecidableEq T] {a b : ExpectedValues T R}

theorem mem_foldl_insert {values values' : List T} {value : T} :
    value ∈ values.foldl (fun m_values v ↦ m_values.insert v) values' ↔
      value ∈ values ∨ value ∈ values' := by
  induction values generalizing values' with
  | nil => simp
  | cons v values ih =>
    rw [List.foldl_cons, ih, List.mem_insert_iff, List.mem_cons]
    tauto

theorem copyAssign_source : (copyAssign a b).2 = b := by
  unfold copyAssign
  dsimp only
  split <;> rfl

end Source

variable [DecidableEq T] [LE T] [DecidableLE T]

def validate (regexMatch : R → T → Bool) (e : ExpectedValues T R) (value : T) : Bool :=
  match e.m_type with
  | .discrete => e.m_values.contains value
  | .range => e.m_range.m_min ≤ value && value ≤ e.m_range.m_max
  | .regExp => regexMatch e.m_regex value
  | .none => true

def SameMeaning (regexMatch : R → T → Bool) (e e' : ExpectedValues T R) : Prop :=
  ∀ value, validate regexMatch e value = validate regexMatch e' value

variable {regexMatch : R → T → Bool} {a b : ExpectedValues T R}

/-- What is assigned is joined to the set that is there. -/
theorem copyAssign_sameMeaning_iff :
    SameMeaning regexMatch (copyAssign a b).1 b ↔
      (b.m_type = .discrete → ∀ value ∈ a.m_values, value ∈ b.m_values) := by
  cases hb : b.m_type with
  | discrete =>
    have hvalue (value : T) : validate regexMatch (copyAssign a b).1 value =
        validate regexMatch b value ↔ (value ∈ a.m_values → value ∈ b.m_values) := by
      rw [Bool.eq_iff_iff]
      simp only [copyAssign, validate, hb, List.contains_iff_mem, mem_foldl_insert]
      tauto
    exact (forall_congr' hvalue).trans ⟨fun h _ ↦ h, fun h ↦ h rfl⟩
  | range =>
    refine iff_of_true (fun value ↦ ?_) (by simp)
    simp [copyAssign, validate, hb]
  | regExp =>
    refine iff_of_true (fun value ↦ ?_) (by simp)
    simp [copyAssign, validate, hb]
  | none =>
    refine iff_of_true (fun value ↦ ?_) (by simp)
    simp [copyAssign, validate, hb]

theorem copyConstruct_sameMeaning (regexMatch : R → T → Bool) (m_range : Range T) (m_regex : R)
    (b : ExpectedValues T R) : SameMeaning regexMatch (copyConstruct m_range m_regex b).1 b :=
  copyAssign_sameMeaning_iff.mpr fun _ _ hvalue ↦ (List.not_mem_nil hvalue).elim

theorem moveAssign_sameMeaning (regexMatch : R → T → Bool) (movedValues : List T) (movedRegex : R)
    (a b : ExpectedValues T R) :
    SameMeaning regexMatch (moveAssign movedValues movedRegex a b).1 b := by
  intro value
  cases hb : b.m_type with
  | discrete => simp [moveAssign, validate, hb]
  | range => simp [moveAssign, validate, hb]
  | regExp => simp [moveAssign, validate, hb]
  | none => simp [moveAssign, validate, hb]

/-- All copies and moves keep the meaning, and copies that of the source, if and only
if the set that a discrete set is assigned to has no other values. -/
theorem copies_keep_meaning_iff (regexMatch : R → T → Bool) (movedValues : List T) (movedRegex : R)
    (m_range : Range T) (m_regex : R) (a b : ExpectedValues T R) :
    ((SameMeaning regexMatch (copyAssign a b).1 b ∧ SameMeaning regexMatch (copyAssign a b).2 b) ∧
      SameMeaning regexMatch (moveAssign movedValues movedRegex a b).1 b ∧
      (SameMeaning regexMatch (copyConstruct m_range m_regex b).1 b ∧
        SameMeaning regexMatch (copyConstruct m_range m_regex b).2 b) ∧
      SameMeaning regexMatch (moveConstruct movedValues movedRegex m_range m_regex b).1 b) ↔
      (b.m_type = .discrete → ∀ value ∈ a.m_values, value ∈ b.m_values) := by
  have hsource (a : ExpectedValues T R) : SameMeaning regexMatch (copyAssign a b).2 b := by
    rw [copyAssign_source]
    exact fun _ ↦ rfl
  rw [← copyAssign_sameMeaning_iff]
  refine ⟨fun h ↦ h.1.1, ?_⟩
  intro h
  exact ⟨⟨h, hsource a⟩, moveAssign_sameMeaning regexMatch movedValues movedRegex a b,
    ⟨copyConstruct_sameMeaning regexMatch m_range m_regex b, hsource _⟩,
    moveAssign_sameMeaning regexMatch movedValues movedRegex _ b⟩

/-- The set `{1}` accepts 1 also after `{2}` has been assigned to it. -/
theorem set_is_joined : ¬ ∀ a b : ExpectedValues ℕ Unit,
    SameMeaning (fun _ _ ↦ true) (copyAssign a b).1 b := by
  intro h
  have hone := h ⟨.discrete, ⟨0, 0⟩, [1], ()⟩ ⟨.discrete, ⟨0, 0⟩, [2], ()⟩ 1
  revert hone
  decide

end ExpectedValues

end Peripherals.InputValidator
