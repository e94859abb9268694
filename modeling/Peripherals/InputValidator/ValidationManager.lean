import Peripherals.Execution
import Peripherals.InputValidator

namespace Peripherals.InputValidator

open Execution

/-- What the constructors and moves of an `ExpectedValues` leave unset. -/
structure Unset (T R : Type) where
  m_range : Range T
  m_regex : R
  movedValues : List T
  movedRegex : R

namespace ExpectedValues

variable {T R : Type} (unset : Unset T R)

def ofRange (min max : T) : ExpectedValues T R :=
  { empty unset.m_range unset.m_regex with m_type := .range, m_range := ⟨min, max⟩ }

def ofRegex (regex : R) : ExpectedValues T R :=
  { empty unset.m_range unset.m_regex with m_type := .regExp, m_regex := regex }

def ofValues (values : List T) : ExpectedValues T R :=
  { empty unset.m_range unset.m_regex with m_type := .discrete, m_values := values }

def ofCStrings (values : List (Option T)) : ExpectedValues T R :=
  ofValues unset (values.filterMap id)

end ExpectedValues

/-- A `Validator<T>`, or an object of a class derived from it with a `validate`
of its own. -/
inductive Validator (T R : Type)
  | none
  | useExpectedValues (m_expectedValues : ExpectedValues T R)
  | customValidation (m_func : T → Bool)
  | derived (validate : T → Bool)

section Validator

variable {T R : Type} [DecidableEq T] [LE T] [DecidableLE T]

def Validator.validate (regexMatch : R → T → Bool) (value : T) : Validator T R → Bool
  | .none => false
  | .useExpectedValues m_expectedValues => m_expectedValues.validate regexMatch value
  | .customValidation m_func => m_func value
  | .derived validate => validate value

omit [DecidableEq T] [LE T] [DecidableLE T] in
/-- `create(ExpectedValues<T> &&)`. The values are moved twice, into the parameter
of the constructor and from there into the new object. -/
def Validator.create (unset : Unset T R) (expectedValues : ExpectedValues T R) : Validator T R :=
  let move := ExpectedValues.moveConstruct unset.movedValues unset.movedRegex unset.m_range
    unset.m_regex
  .useExpectedValues (move (move expectedValues).1).1

theorem Validator.validate_create (regexMatch : R → T → Bool) (unset : Unset T R)
    (expectedValues : ExpectedValues T R) (value : T) :
    (Validator.create unset expectedValues).validate regexMatch value =
      expectedValues.validate regexMatch value :=
  (ExpectedValues.moveAssign_sameMeaning regexMatch _ _ _ _ value).trans
    (ExpectedValues.moveAssign_sameMeaning regexMatch _ _ _ _ value)

end Validator

/-- The types that values are checked at, with what the code uses of them. The
texts are the name from `typeid` and what a stream writes for a value. -/
structure Types (Ty R : Type) where
  Val : Ty → Type
  decEq : ∀ T, DecidableEq (Val T)
  le : ∀ T, LE (Val T)
  decLe : ∀ T, @DecidableLE (Val T) (le T)
  regexMatch : ∀ T, R → Val T → Bool
  unset : ∀ T, Unset (Val T) R
  name : Ty → String
  print : ∀ T, Val T → String

attribute [instance] Types.decEq Types.le Types.decLe

variable {Ty R L : Type} {types : Types Ty R}

abbrev ValidatorBase (types : Types Ty R) := Σ T, Validator (types.Val T) R

/-- `L` are the loggers; a name without validators is one that the map does not have. -/
structure ValidationManager (types : Types Ty R) (L : Type) where
  m_validators : String → List (ValidatorBase types)
  m_logger : Option L

def ValidationManager.init : ValidationManager types L := ⟨fun _ ↦ [], none⟩

inductive Action (types : Types Ty R) (L : Type)
  | addValidator (name : String) (validator : ValidatorBase types)
  | addExpectedValues (name : String) (T : Ty) (expectedValues : ExpectedValues (types.Val T) R)
  | addFunction (name : String) (T : Ty) (func : types.Val T → Bool)
  | setLogger (logger : Option L)

def ValidationManager.addValidator (m : ValidationManager types L) (name : String)
    (validator : ValidatorBase types) : ValidationManager types L :=
  { m with m_validators := fun n ↦
      if n = name then m.m_validators n ++ [validator] else m.m_validators n }

def step (m : ValidationManager types L) : Action types L → Option (ValidationManager types L)
  | .addValidator name validator => some (m.addValidator name validator)
  | .addExpectedValues name T expectedValues =>
    some (m.addValidator name ⟨T, Validator.create (types.unset T) expectedValues⟩)
  | .addFunction name T func => some (m.addValidator name ⟨T, .customValidation func⟩)
  | .setLogger logger => some { m with m_logger := logger }

def Types.accepts (types : Types Ty R) (T : Ty) (value : types.Val T)
    (validator : Validator (types.Val T) R) : Bool :=
  validator.validate (types.regexMatch T) value

def Action.registers (name : String) : Action types L → Bool
  | .addValidator n _ | .addExpectedValues n _ _ | .addFunction n _ _ => n == name
  | .setLogger _ => false

def Action.type? : Action types L → Option Ty
  | .addValidator _ validator => some validator.1
  | .addExpectedValues _ T _ | .addFunction _ T _ => some T
  | .setLogger _ => none

/-- What is registered is for the type, and accepts the value as the caller gave it. -/
def Action.Accepts (T : Ty) (value : types.Val T) : Action types L → Prop
  | .addValidator _ validator =>
    ∃ h : validator.1 = T, types.accepts T value (h ▸ validator.2) = true
  | .addExpectedValues _ T' expectedValues =>
    ∃ h : T' = T, types.accepts T value (.useExpectedValues (h ▸ expectedValues)) = true
  | .addFunction _ T' func => ∃ h : T' = T, func (h ▸ value) = true
  | .setLogger _ => True

def Action.entry? (name : String) : Action types L → Option (ValidatorBase types)
  | .addValidator n validator => if n = name then some validator else none
  | .addExpectedValues n T expectedValues =>
    if n = name then some ⟨T, Validator.create (types.unset T) expectedValues⟩ else none
  | .addFunction n T func => if n = name then some ⟨T, .customValidation func⟩ else none
  | .setLogger _ => none

def Action.logger? : Action types L → Option (Option L)
  | .setLogger logger => some logger
  | _ => none

variable {m m' : ValidationManager types L} {a : Action types L} {tr : List (Action types L)}
  {name : String} {T : Ty} {value : types.Val T} {base : ValidatorBase types}
  {bases : List (ValidatorBase types)}

theorem addValidator_validators (name' : String) :
    (m.addValidator name' base).m_validators name =
      m.m_validators name ++ (if name' = name then some base else none).toList := by
  by_cases hname : name = name'
  · subst name'
    simp [ValidationManager.addValidator]
  · simp [ValidationManager.addValidator, hname, Ne.symm hname]

theorem step_validators (hs : step m a = some m') :
    m'.m_validators name = m.m_validators name ++ (a.entry? name).toList := by
  cases a with
  | addValidator n validator =>
    obtain rfl := Option.some.inj hs
    exact addValidator_validators n
  | addExpectedValues n T expectedValues =>
    obtain rfl := Option.some.inj hs
    exact addValidator_validators n
  | addFunction n T func =>
    obtain rfl := Option.some.inj hs
    exact addValidator_validators n
  | setLogger logger =>
    obtain rfl := Option.some.inj hs
    simp [Action.entry?]

theorem step_logger (m : ValidationManager types L) (a : Action types L)
    (m' : ValidationManager types L) (hs : step m a = some m') :
    m'.m_logger = a.logger?.getD m.m_logger := by
  cases a <;> obtain rfl := Option.some.inj hs <;> rfl

/-- The map holds the validators of a name in the order of their registration. -/
theorem run_validators (h : Run step .init tr m) (name : String) :
    m.m_validators name = tr.filterMap (Action.entry? name) := by
  induction h with
  | nil => rfl
  | @snoc tr m m' a _ hs ih =>
    rw [step_validators hs, ih, List.filterMap_append]
    cases ha : a.entry? name <;> simp [ha]

theorem run_logger (h : Run step .init tr m) :
    m.m_logger = (latest Action.logger? tr).getD none :=
  h.eq_latest step_logger

def Passes (T : Ty) (value : types.Val T) (base : ValidatorBase types) : Prop :=
  ∃ h : base.1 = T, types.accepts T value (h ▸ base.2) = true

theorem entry?_isSome : (a.entry? name).isSome = a.registers name := by
  cases a with
  | setLogger logger => rfl
  | _ =>
    simp only [Action.entry?, Action.registers]
    split <;> simp_all

/-- Moving the expected values into the map does not change what they accept. -/
theorem entry?_passes (hentry : a.entry? name = some base) :
    a.type? = some base.1 ∧ (a.Accepts T value ↔ Passes T value base) := by
  cases a with
  | addValidator n validator =>
    simp only [Action.entry?] at hentry
    split at hentry
    · obtain rfl := Option.some.inj hentry
      exact ⟨rfl, Iff.rfl⟩
    · cases hentry
  | addExpectedValues n T' expectedValues =>
    simp only [Action.entry?] at hentry
    split at hentry
    · obtain rfl := Option.some.inj hentry
      refine ⟨rfl, exists_congr fun hT ↦ ?_⟩
      change T' = T at hT
      subst hT
      rw [Types.accepts, Types.accepts, Validator.validate_create]
      rfl
    · cases hentry
  | addFunction n T' func =>
    simp only [Action.entry?] at hentry
    split at hentry
    · obtain rfl := Option.some.inj hentry
      refine ⟨rfl, exists_congr fun hT ↦ ?_⟩
      change T' = T at hT
      subst hT
      rfl
    · cases hentry
  | setLogger logger => cases hentry

variable [DecidableEq Ty] {found : Bool}

def dynamicCast (T : Ty) (v : ValidatorBase types) : Option (Validator (types.Val T) R) :=
  if h : v.1 = T then some (h ▸ v.2) else none

/-- The loop of `validate`: of the first validator that has another type or
refuses the value, whether it has the type. -/
def firstRefusal (T : Ty) (value : types.Val T) : List (ValidatorBase types) → Option Bool
  | [] => none
  | base :: rest =>
    match dynamicCast T base with
    | none => some false
    | some validator =>
      if types.accepts T value validator then firstRefusal T value rest else some true

def logText (types : Types Ty R) (name : String) (T : Ty) (value : types.Val T) (found : Bool) :
    String :=
  (if found then ""
    else "Validator not found for key \"" ++ name ++ "\" with type \"" ++ types.name T ++ "\"\n") ++
  "Validation failed for key \"" ++ name ++ "\" with type \"" ++ types.name T ++
    "\" & value \"" ++ types.print T value ++ "\"\n"

/-- The result, and what is logged. Without a logger the text goes to `std::cout`. -/
def validate (m : ValidationManager types L) (name : String) (T : Ty) (value : types.Val T) :
    Bool × Option (Option L × String) :=
  if (m.m_validators name).isEmpty then (false, none)
  else match firstRefusal T value (m.m_validators name) with
    | none => (true, none)
    | some found => (false, some (m.m_logger, logText types name T value found))

theorem firstRefusal_cons : firstRefusal T value (base :: bases) = none ↔
    Passes T value base ∧ firstRefusal T value bases = none := by
  by_cases hT : base.1 = T
  · subst hT
    cases haccepts : types.accepts base.1 value base.2 <;>
      simp [firstRefusal, dynamicCast, Passes, haccepts]
  · simp [firstRefusal, dynamicCast, Passes, hT]

theorem firstRefusal_none :
    firstRefusal T value bases = none ↔ ∀ base ∈ bases, Passes T value base := by
  induction bases with
  | nil => simp [firstRefusal]
  | cons base bases ih => rw [firstRefusal_cons, ih, List.forall_mem_cons]

theorem firstRefusal_some (h : firstRefusal T value bases = some found) :
    ∃ pre base post, bases = pre ++ base :: post ∧ (∀ b ∈ pre, Passes T value b) ∧
      ¬ Passes T value base ∧ found = decide (base.1 = T) := by
  induction bases with
  | nil => cases h
  | cons base bases ih =>
    by_cases hpasses : Passes T value base
    · have hrest : firstRefusal T value bases = some found := by
        obtain ⟨hT, haccepts⟩ := hpasses
        subst hT
        have haccepts' : types.accepts base.1 value base.2 = true := haccepts
        rw [← h]
        simp [firstRefusal, dynamicCast, haccepts']
      obtain ⟨pre, b, post, rfl, hpre, hb, hfound⟩ := ih hrest
      exact ⟨base :: pre, b, post, rfl, List.forall_mem_cons.mpr ⟨hpasses, hpre⟩, hb, hfound⟩
    · refine ⟨[], base, bases, rfl, by simp, hpasses, ?_⟩
      by_cases hT : base.1 = T
      · subst hT
        have haccepts : types.accepts base.1 value base.2 ≠ true := fun hyes ↦ hpasses ⟨rfl, hyes⟩
        simp only [firstRefusal, dynamicCast, dite_true] at h
        rw [if_neg haccepts] at h
        simpa using (Option.some.inj h).symm
      · simp only [firstRefusal, dynamicCast, dif_neg hT, Option.some.injEq] at h
        simp [← h, hT]

structure Verdict (tr : List (Action types L)) (name : String) (T : Ty) (value : types.Val T)
    (result : Bool × Option (Option L × String)) : Prop where
  accepted_iff : result.1 = true ↔ (∃ a ∈ tr, a.registers name = true) ∧
    ∀ a ∈ tr, a.registers name = true → a.Accepts T value
  logged_iff : result.2.isSome = true ↔
    result.1 = false ∧ ∃ a ∈ tr, a.registers name = true
  logged : ∀ log, result.2 = some log → log.1 = (latest Action.logger? tr).getD none ∧
    ∃ pre a post, tr = pre ++ a :: post ∧ a.registers name = true ∧ ¬ a.Accepts T value ∧
      (∀ b ∈ pre, b.registers name = true → b.Accepts T value) ∧
      log.2 = logText types name T value (a.type? = some T)

omit [DecidableEq Ty] in
theorem registered_iff (h : Run step .init tr m) :
    m.m_validators name ≠ [] ↔ ∃ a ∈ tr, a.registers name = true := by
  rw [run_validators h name, ne_eq, List.filterMap_eq_nil_iff]
  push Not
  refine exists_congr fun a ↦ and_congr_right fun _ ↦ ?_
  rw [← entry?_isSome, Option.isSome_iff_ne_none]

omit [DecidableEq Ty] in
theorem all_pass_iff (h : Run step .init tr m) :
    (∀ base ∈ m.m_validators name, Passes T value base) ↔
      ∀ a ∈ tr, a.registers name = true → a.Accepts T value := by
  rw [run_validators h name]
  refine ⟨?_, ?_⟩
  · intro hpasses a ha hreg
    rw [← entry?_isSome] at hreg
    obtain ⟨base, hbase⟩ := Option.isSome_iff_exists.mp hreg
    exact (entry?_passes hbase).2.mpr (hpasses base (List.mem_filterMap.mpr ⟨a, ha, hbase⟩))
  · intro haccepts base hbase
    obtain ⟨a, ha, hentry⟩ := List.mem_filterMap.mp hbase
    refine (entry?_passes hentry).2.mp (haccepts a ha ?_)
    rw [← entry?_isSome, hentry]
    rfl

/-- The validator that refuses first was registered before any other that refuses. -/
theorem refused_first (h : Run step .init tr m)
    (hrefusal : firstRefusal T value (m.m_validators name) = some found) :
    ∃ pre a post, tr = pre ++ a :: post ∧ a.registers name = true ∧ ¬ a.Accepts T value ∧
      (∀ b ∈ pre, b.registers name = true → b.Accepts T value) ∧
      found = decide (a.type? = some T) := by
  obtain ⟨pre, base, post, hsplit, hpre, hbase, hfound⟩ := firstRefusal_some hrefusal
  rw [run_validators h name] at hsplit
  obtain ⟨tr₁, tr₂, rfl, htr₁, htr₂⟩ := List.filterMap_eq_append_iff.mp hsplit
  obtain ⟨skip, a, tr₃, rfl, hskip, ha, -⟩ := List.filterMap_eq_cons_iff.mp htr₂
  obtain ⟨htype, hiff⟩ : a.type? = some base.1 ∧ (a.Accepts T value ↔ Passes T value base) :=
    entry?_passes ha
  refine ⟨tr₁ ++ skip, a, tr₃, by simp, ?_, hiff.not.mpr hbase, ?_, ?_⟩
  · rw [← entry?_isSome, ha]
    rfl
  · intro b hb hreg
    rw [← entry?_isSome] at hreg
    obtain ⟨entry, hentry⟩ := Option.isSome_iff_exists.mp hreg
    refine (entry?_passes hentry).2.mpr (hpre entry ?_)
    rcases List.mem_append.mp hb with hb | hb
    · rw [← htr₁]
      exact List.mem_filterMap.mpr ⟨b, hb, hentry⟩
    · rw [hskip b hb] at hentry
      cases hentry
  · rw [hfound, htype]
    simp

/-- A value is accepted if and only if something is registered for the name, and everything
that is has the type and accepts it; the log tells of the first check that does not. -/
theorem validate_verdict (h : Run step .init tr m) (name : String) (T : Ty) (value : types.Val T) :
    Verdict tr name T value (validate m name T value) := by
  by_cases hempty : m.m_validators name = []
  · have hnone : ¬ ∃ a ∈ tr, a.registers name = true := fun hreg ↦
      (registered_iff h).mpr hreg hempty
    have hresult : validate m name T value = (false, none) := by simp [validate, hempty]
    rw [hresult]
    exact ⟨by simp [hnone], by simp [hnone], fun log hlog ↦ by cases hlog⟩
  · have hsome := (registered_iff h).mp hempty
    cases hrefusal : firstRefusal T value (m.m_validators name) with
    | none =>
      have hresult : validate m name T value = (true, none) := by
        simp [validate, hempty, hrefusal]
      rw [hresult]
      have haccepts := (all_pass_iff h).mp (firstRefusal_none.mp hrefusal)
      refine ⟨?_, by simp, fun log hlog ↦ by cases hlog⟩
      simp only [true_iff]
      exact ⟨hsome, haccepts⟩
    | some found =>
      have hresult : validate m name T value =
          (false, some (m.m_logger, logText types name T value found)) := by
        simp [validate, hempty, hrefusal]
      have hnot : ¬ ∀ a ∈ tr, a.registers name = true → a.Accepts T value := by
        rw [← all_pass_iff h, ← firstRefusal_none, hrefusal]
        simp
      rw [hresult]
      refine ⟨?_, ?_, ?_⟩
      · simp only [Bool.false_eq_true, false_iff]
        exact fun hboth ↦ hnot hboth.2
      · simp only [Option.isSome_some, true_and, true_iff]
        exact hsome
      · intro log hlog
        obtain rfl := Option.some.inj hlog
        obtain ⟨pre, a, post, hsplit, hreg, hrefuses, hpre, rfl⟩ := refused_first h hrefusal
        exact ⟨run_logger h, pre, a, post, hsplit, hreg, hrefuses, hpre, rfl⟩

def numbers : Types Bool Unit where
  Val _ := ℕ
  decEq _ := inferInstance
  le _ := inferInstance
  decLe _ := inferInstance
  regexMatch _ _ _ := false
  unset _ := ⟨⟨0, 0⟩, (), [], ()⟩
  name T := if T then "i" else "j"
  print _ (n : ℕ) := toString n

def volumeChecks : List (Action numbers Unit) :=
  [.addExpectedValues "volume" true (.ofRange (numbers.unset true) (0 : ℕ) (100 : ℕ)),
    .setLogger (some ()), .addFunction "volume" true fun n : ℕ ↦ n != 50]

theorem validate_verdict_volumeChecks : ∃ m, Run step .init volumeChecks m ∧
    Verdict volumeChecks "volume" true (50 : ℕ) (validate m "volume" true (50 : ℕ)) := by
  obtain ⟨m, h⟩ : ∃ m, Run step .init volumeChecks m := ⟨_, run_iff_foldlM.mpr rfl⟩
  exact ⟨m, h, validate_verdict h "volume" true (50 : ℕ)⟩

end Peripherals.InputValidator
