import Mathlib.Algebra.Ring.Int.Defs
import Mathlib.Algebra.Ring.Nat
import Mathlib.Data.List.TakeWhile

namespace Peripherals.Thunder

inductive VariantType
  | empty | boolean | number | string | array | object | float | double
  deriving DecidableEq, Repr

/-- One JSON value, given by what the accessors of `Core::JSON::Variant`
return for it. The accessors are independent of each other here. -/
inductive Variant
  | mk (content : VariantType) (boolean : Bool) (number : Int) (string : String)
      (array : List Variant) (object : List (String × Variant))

abbrev JsonArray := List Variant

abbrev JsonObject := List (String × Variant)

namespace Variant

def content : Variant → VariantType
  | .mk c _ _ _ _ _ => c

def boolean : Variant → Bool
  | .mk _ b _ _ _ _ => b

def number : Variant → Int
  | .mk _ _ n _ _ _ => n

def string : Variant → String
  | .mk _ _ _ s _ _ => s

def array : Variant → JsonArray
  | .mk _ _ _ _ a _ => a

def object : Variant → JsonObject
  | .mk _ _ _ _ _ o => o

def missing : Variant := .mk .empty false 0 "" [] []

def ofBool (b : Bool) : Variant := .mk .boolean b 0 (if b then "true" else "false") [] []

def ofNat (n : Nat) : Variant := .mk .number false n (toString n) [] []

def ofString (s : String) : Variant := .mk .string false 0 s [] []

def ofArray (a : JsonArray) : Variant := .mk .array false 0 "" a []

def ofObject (o : JsonObject) : Variant := .mk .object false 0 "" [] o

end Variant

def JsonObject.hasLabel (o : JsonObject) (label : String) : Bool := o.any (·.1 == label)

def JsonObject.get (o : JsonObject) (label : String) : Variant :=
  ((o.find? (·.1 == label)).map Prod.snd).getD .missing

/-- An `int64_t` or other wide value stored in an `int`. -/
def toInt (n : Int) : Int := (n + 2 ^ 31) % 2 ^ 32 - 2 ^ 31

def toUnsigned (n : Int) : UInt32 := UInt32.ofInt n

def isSpace (c : Char) : Bool := c = ' ' || ('\t' ≤ c && c ≤ '\r')

/-- `std::stoi`: leading blanks, a sign, then at least one digit; `none` where
it throws `invalid_argument` or `out_of_range`. -/
def stoi (s : String) : Option Int :=
  let text := s.toList.dropWhile isSpace
  let (negative, text) : Bool × List Char := match text with
    | '-' :: rest => (true, rest)
    | '+' :: rest => (false, rest)
    | rest => (false, rest)
  let digits := text.takeWhile Char.isDigit
  let magnitude : Int := digits.foldl (fun n c ↦ 10 * n + (c.toNat - '0'.toNat : Nat)) 0
  let value := if negative then -magnitude else magnitude
  if digits.isEmpty then none
  else if -2 ^ 31 ≤ value ∧ value < 2 ^ 31 then some value
  else none

/-- What `getNumberParameter` and `getNumberParameterObject` assign, before the
conversion to the type of the variable. -/
def getNumberParameterObject (parameters : JsonObject) (paramName : String) : Int :=
  if (parameters.get paramName).content = .number then (parameters.get paramName).number
  else (stoi (parameters.get paramName).string).getD 0

def getBoolParameter (parameters : JsonObject) (paramName : String) : Bool :=
  if (parameters.get paramName).content = .boolean then (parameters.get paramName).boolean
  else (parameters.get paramName).string == "true" || (parameters.get paramName).string == "1"

theorem getBoolParameter_eq_true {parameters : JsonObject} {paramName : String}
    (h : getBoolParameter parameters paramName = true) :
    ((parameters.get paramName).content = .boolean ∧ (parameters.get paramName).boolean = true) ∨
      ((parameters.get paramName).content ≠ .boolean ∧
        ((parameters.get paramName).string = "true" ∨
          (parameters.get paramName).string = "1")) := by
  unfold getBoolParameter at h
  split at h
  · exact .inl ⟨‹_›, h⟩
  · exact .inr ⟨‹_›, by simpa using h⟩

theorem foldl_digits (digits : List Char) (n : ℕ) :
    digits.foldl (fun (n : Int) c ↦ 10 * n + (c.toNat - '0'.toNat : Nat)) n =
      (Nat.ofDigitChars 10 digits n : ℕ) := by
  induction digits generalizing n with
  | nil => simp
  | cons c digits ih =>
    rw [Nat.ofDigitChars_cons, ← ih]
    simp

theorem isSpace_of_isDigit {c : Char} (h : c.isDigit = true) : isSpace c = false := by
  have hle : '0' ≤ c := by
    simp only [Char.isDigit, Bool.and_eq_true, decide_eq_true_eq] at h
    exact h.1
  have hspace : c ≠ ' ' := by
    intro he
    simp [he] at h
  have hreturn : ¬ c ≤ '\r' := by
    intro hc
    exact absurd (Char.le_trans hle hc) (by decide)
  simp [isSpace, hspace, hreturn]

theorem stoi_of_digits {s : String} (hne : s.toList ≠ [])
    (hd : ∀ c ∈ s.toList, c.isDigit = true) :
    stoi s = if Nat.ofDigitChars 10 s.toList 0 < 2 ^ 31
      then some (Nat.ofDigitChars 10 s.toList 0 : Int) else none := by
  unfold stoi
  obtain ⟨c, digits, hs⟩ := List.exists_cons_of_ne_nil hne
  rw [hs] at hd ⊢
  have hc := hd c List.mem_cons_self
  have hminus : c ≠ '-' := by
    intro h
    simp [h] at hc
  have hplus : c ≠ '+' := by
    intro h
    simp [h] at hc
  have hall : (c :: digits).takeWhile Char.isDigit = c :: digits :=
    List.takeWhile_eq_self_iff.mpr hd
  have hfold := foldl_digits (c :: digits) 0
  rw [Int.natCast_zero] at hfold
  simp only [List.dropWhile_cons, isSpace_of_isDigit hc, Bool.false_eq_true, if_false]
  split
  next rest hrest => exact (hminus (List.cons.inj hrest).1).elim
  next rest hrest => exact (hplus (List.cons.inj hrest).1).elim
  · have hrange : (-2 ^ 31 ≤ (Nat.ofDigitChars 10 (c :: digits) 0 : Int) ∧
        (Nat.ofDigitChars 10 (c :: digits) 0 : Int) < 2 ^ 31) ↔
          Nat.ofDigitChars 10 (c :: digits) 0 < 2 ^ 31 := by omega
    simp only [hall, hfold, hrange, List.isEmpty_cons, Bool.false_eq_true, if_false]

/-- `std::stoi` reads a decimal back if its value is one of an `int`. -/
theorem stoi_toString (n : ℕ) :
    stoi (toString n) = if n < 2 ^ 31 then some (n : Int) else none := by
  have hdigits : (toString n).toList = Nat.toDigits 10 n := by
    rw [Nat.toString_eq_repr, Nat.toList_repr]
  have hs := stoi_of_digits (s := toString n) (by rw [hdigits]; exact Nat.toDigits_ne_nil) (by
    rw [hdigits]
    exact fun c hc ↦ Nat.isDigit_of_mem_toDigits (by decide) (by decide) hc)
  rwa [hdigits, Nat.ofDigitChars_ten_toDigits] at hs

theorem toUnsigned_toNat (t : UInt32) : toUnsigned t.toNat = t := by
  have ht := t.toNat_lt
  unfold toUnsigned UInt32.ofInt
  rw [Int.emod_eq_of_lt (by omega) (by omega)]
  simp

end Peripherals.Thunder
