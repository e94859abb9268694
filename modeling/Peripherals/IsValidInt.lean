import Mathlib.Data.List.TakeWhile
import Peripherals.CString
import Peripherals.Settings.CSettings

namespace Peripherals.IsValidInt

open CString
open Settings (nul)

abbrev Text := List Char

/-- The loop of both validators; `none` where the index overflows or leaves the string,
or where the loop makes more than `fuel` iterations. -/
def checkDigits : ℕ → Text → ℕ → Option Bool
  | 0, _, _ => none
  | fuel + 1, x, i => do
    let c ← readAt nul x i
    let i ← increment i
    if c.isDigit then
      let c ← readAt nul x i
      if c ≠ nul then checkDigits fuel x i else some true
    else some false

def isValidInt (fuel : ℕ) (x : Text) : Option Bool := do
  let c ← readAt nul x 0
  checkDigits fuel x (if c = '-' then 1 else 0)

def isValidUnsignedInt (fuel : ℕ) (x : Text) : Option Bool := checkDigits fuel x 0

def IsDigits (s : Text) : Prop := s ≠ [] ∧ ∀ c ∈ s, c.isDigit = true

def IsInt (s : Text) : Prop := IsDigits s ∨ ∃ digits, s = '-' :: digits ∧ IsDigits digits

/-- With any fuel from a bound on, `f` returns whether `P` holds. -/
def Decides (f : ℕ → Option Bool) (bound : ℕ) (P : Prop) : Prop :=
  ∀ fuel, bound < fuel → ∃ result, f fuel = some result ∧ (result = true ↔ P)

variable {before digits rest x : Text} {c : Char} {fuel : ℕ}

theorem isDigit_ne_nul (h : c.isDigit = true) : c ≠ nul := by
  rintro rfl
  revert h
  decide

/-- One iteration at a digit. -/
theorem checkDigits_digit (hc : c.isDigit = true) (hmax : before.length < intMax) (fuel : ℕ) :
    checkDigits (fuel + 1) (before ++ c :: rest) before.length =
      if rest.head?.getD nul ≠ nul then
        checkDigits fuel (before ++ c :: rest) (before.length + 1)
      else some true := by
  rw [checkDigits, readAt_append, increment_of_lt hmax]
  simp [hc, readAt_succ]

theorem checkDigits_other (hc : c.isDigit = false) (hmax : before.length < intMax) (fuel : ℕ) :
    checkDigits (fuel + 1) (before ++ c :: rest) before.length = some false := by
  rw [checkDigits, readAt_append, increment_of_lt hmax]
  simp [hc]

theorem checkDigits_empty (hmax : x.length < intMax) (fuel : ℕ) :
    checkDigits (fuel + 1) x x.length = some false := by
  rw [checkDigits, readAt_length, increment_of_lt hmax]
  simp [show nul.isDigit = false by decide]

/-- The digits before another character are skipped. -/
theorem checkDigits_skip (digits : Text) (hdigits : ∀ c ∈ digits, c.isDigit = true)
    (before : Text) (hc : c ≠ nul) (hmax : before.length + digits.length ≤ intMax) (fuel : ℕ) :
    checkDigits (fuel + digits.length) (before ++ (digits ++ c :: rest)) before.length =
      checkDigits fuel (before ++ (digits ++ c :: rest)) (before.length + digits.length) := by
  induction digits generalizing before with
  | nil => rfl
  | cons d digits ih =>
    obtain ⟨hd, hdigits⟩ := List.forall_mem_cons.mp hdigits
    rw [List.length_cons] at hmax ⊢
    have hnext : (digits ++ c :: rest).head?.getD nul ≠ nul := by
      cases digits with
      | nil => exact hc
      | cons e digits => exact isDigit_ne_nul (hdigits e List.mem_cons_self)
    have htail := ih hdigits (before ++ [d])
      (by rw [List.length_append, List.length_singleton]; omega)
    rw [List.append_assoc, List.singleton_append, List.length_append, List.length_singleton]
      at htail
    rw [List.cons_append, ← Nat.add_assoc,
      checkDigits_digit hd (show before.length < intMax by omega), if_pos hnext, htail,
      Nat.add_assoc, Nat.add_comm 1]

theorem checkDigits_all (hrest : IsDigits rest) (hmax : (before ++ rest).length ≤ intMax)
    (hfuel : rest.length < fuel) : checkDigits fuel (before ++ rest) before.length = some true := by
  obtain ⟨hne, hdigits⟩ := hrest
  obtain ⟨digits, c, rfl⟩ := List.eq_nil_or_concat' rest |>.resolve_left hne
  simp only [List.length_append, List.length_singleton] at hmax hfuel
  obtain ⟨k, rfl⟩ : ∃ k, fuel = k + 1 + digits.length :=
    ⟨fuel - 1 - digits.length, by omega⟩
  have hc : c.isDigit = true := hdigits c (by simp)
  rw [checkDigits_skip digits (fun d hd ↦ hdigits d (List.mem_append_left _ hd)) before
    (isDigit_ne_nul hc) (by omega), ← List.append_assoc, ← List.length_append,
    checkDigits_digit hc (by rw [List.length_append]; omega)]
  rfl

theorem checkDigits_stop (hdigits : ∀ c ∈ digits, c.isDigit = true) (hc : c.isDigit = false)
    (hnul : c ≠ nul) (hmax : before.length + digits.length < intMax)
    (hfuel : digits.length < fuel) :
    checkDigits fuel (before ++ (digits ++ c :: rest)) before.length = some false := by
  obtain ⟨k, rfl⟩ : ∃ k, fuel = k + 1 + digits.length :=
    ⟨fuel - 1 - digits.length, by omega⟩
  rw [checkDigits_skip digits hdigits before hnul hmax.le, ← List.append_assoc,
    ← List.length_append, checkDigits_other hc (by rw [List.length_append]; exact hmax)]

/-- After digits up to the largest index the next one overflows. -/
theorem checkDigits_overflow (hdigits : ∀ c ∈ digits, c.isDigit = true) (hnul : c ≠ nul)
    (hmax : before.length + digits.length = intMax) (hfuel : digits.length < fuel) :
    checkDigits fuel (before ++ (digits ++ c :: rest)) before.length = none := by
  obtain ⟨k, rfl⟩ : ∃ k, fuel = k + 1 + digits.length :=
    ⟨fuel - 1 - digits.length, by omega⟩
  rw [checkDigits_skip digits hdigits before hnul hmax.le, ← List.append_assoc,
    ← List.length_append, checkDigits, readAt_append, List.length_append, hmax, increment_intMax]
  rfl

/-- A text is digits up to its end, or up to the first character that is none. -/
theorem digits_or_stop (s : Text) : (∀ c ∈ s, c.isDigit = true) ∨ ∃ digits c rest,
    s = digits ++ c :: rest ∧ (∀ d ∈ digits, d.isDigit = true) ∧ c.isDigit = false := by
  induction s with
  | nil => exact .inl (by simp)
  | cons c s ih =>
    cases hc : c.isDigit with
    | false => exact .inr ⟨[], c, s, rfl, by simp, hc⟩
    | true =>
      rcases ih with hall | ⟨digits, d, rest, rfl, hdigits, hd⟩
      · exact .inl (List.forall_mem_cons.mpr ⟨hc, hall⟩)
      · exact .inr ⟨c :: digits, d, rest, rfl, List.forall_mem_cons.mpr ⟨hc, hdigits⟩, hd⟩

theorem not_isDigits_of_mem (hc : c.isDigit = false) (h : c ∈ rest) : ¬ IsDigits rest := by
  intro hdigits
  simp [hdigits.2 c h] at hc

theorem checkDigits_decides_iff (before : Text) (hnul : nul ∉ rest)
    (hbefore : before.length < intMax) :
    Decides (fun fuel ↦ checkDigits fuel (before ++ rest) before.length) (before ++ rest).length
        (IsDigits rest) ↔
      (before ++ rest).length ≤ intMax ∨ ¬ IsDigits (rest.take (intMax - before.length)) := by
  refine ⟨?_, ?_⟩
  · intro h
    by_contra! hnot
    obtain ⟨hlong, -, hdigits⟩ := hnot
    rw [List.length_append] at hlong
    obtain ⟨c, tail, htail⟩ : ∃ c tail, rest.drop (intMax - before.length) = c :: tail := by
      apply List.exists_cons_of_ne_nil
      rw [ne_eq, List.drop_eq_nil_iff]
      omega
    have hsplit : rest.take (intMax - before.length) ++ c :: tail = rest := by
      rw [← htail, List.take_append_drop]
    have hc : c ≠ nul := by
      rintro rfl
      exact hnul (hsplit ▸ by simp)
    have hlength : (rest.take (intMax - before.length)).length = intMax - before.length := by
      rw [List.length_take]
      omega
    obtain ⟨result, hresult, -⟩ := h (before.length + rest.length + 1)
      (by rw [List.length_append]; omega)
    have hnone : checkDigits (before.length + rest.length + 1)
        (before ++ (rest.take (intMax - before.length) ++ c :: tail)) before.length = none :=
      checkDigits_overflow hdigits hc (by omega) (by omega)
    rw [hsplit] at hnone
    cases hnone.symm.trans hresult
  · intro h fuel hfuel
    rw [List.length_append] at hfuel
    rcases digits_or_stop rest with hall | ⟨digits, c, tail, rfl, hdigits, hc⟩
    · by_cases hne : rest = []
      · subst hne
        obtain ⟨k, rfl⟩ := Nat.exists_eq_succ_of_ne_zero (show fuel ≠ 0 by omega)
        rw [List.append_nil]
        exact ⟨false, checkDigits_empty hbefore k, by simp [IsDigits]⟩
      · have hle : (before ++ rest).length ≤ intMax := by
          refine h.resolve_right (not_not_intro ⟨?_, ?_⟩)
          · rw [ne_eq, List.take_eq_nil_iff]
            simp only [hne, or_false]
            omega
          · intro c hc
            exact hall c (List.mem_of_mem_take hc)
        refine ⟨true, checkDigits_all ⟨hne, hall⟩ hle (by omega), ?_⟩
        exact iff_of_true rfl ⟨hne, hall⟩
    · have hmax : before.length + digits.length < intMax := by
        rcases h with hle | hnot
        · simp only [List.length_append, List.length_cons] at hle
          omega
        · by_contra hge
          refine hnot ⟨?_, ?_⟩
          · simp
            omega
          · intro d hd
            rw [List.take_append_of_le_length (by omega)] at hd
            exact hdigits d (List.mem_of_mem_take hd)
      have hc' : c ≠ nul := by
        rintro rfl
        exact hnul (by simp)
      simp only [List.length_append] at hfuel
      refine ⟨false, checkDigits_stop hdigits hc hc' hmax (by omega), ?_⟩
      exact iff_of_false (by simp) (not_isDigits_of_mem hc (by simp))

def Validates (x : Text) : Prop :=
  Decides (isValidInt · x) x.length (IsInt x) ∧
    Decides (isValidUnsignedInt · x) x.length (IsDigits x)

theorem isInt_minus (digits : Text) : IsInt ('-' :: digits) ↔ IsDigits digits := by
  refine ⟨?_, fun h ↦ .inr ⟨digits, rfl, h⟩⟩
  intro h
  rcases h with h | ⟨digits', heq, h⟩
  · exact (not_isDigits_of_mem (c := '-') rfl List.mem_cons_self h).elim
  · exact (List.cons.inj heq).2 ▸ h

theorem isInt_of_ne (hx : x.head? ≠ some '-') : IsInt x ↔ IsDigits x := by
  refine ⟨?_, .inl⟩
  intro h
  rcases h with h | ⟨digits, rfl, -⟩
  · exact h
  · exact (hx rfl).elim

theorem isValidUnsignedInt_decides_iff (hnul : nul ∉ x) :
    Decides (isValidUnsignedInt · x) x.length (IsDigits x) ↔
      x.length ≤ intMax ∨ ¬ IsDigits (x.take intMax) :=
  checkDigits_decides_iff [] hnul (by decide)

theorem isValidInt_decides_iff (hnul : nul ∉ x) :
    Decides (isValidInt · x) x.length (IsInt x) ↔ x.length ≤ intMax ∨ ¬ IsInt (x.take intMax) := by
  by_cases hminus : x.head? = some '-'
  · obtain ⟨digits, rfl⟩ : ∃ digits, x = '-' :: digits := List.head?_eq_some_iff.mp hminus
    have hcheck := checkDigits_decides_iff ['-'] (List.not_mem_of_not_mem_cons hnul) (by decide)
    have htake : ('-' :: digits).take intMax = '-' :: digits.take (intMax - 1) := rfl
    rw [isInt_minus, htake, isInt_minus]
    exact hcheck
  · have htake : (x.take intMax).head? ≠ some '-' := by
      rwa [List.head?_take, if_neg (by decide)]
    have hstart : (isValidInt · x) = (isValidUnsignedInt · x) := by
      funext fuel
      cases x with
      | nil => rfl
      | cons c x =>
        have hc : c ≠ '-' := by simpa using hminus
        simp [isValidInt, isValidUnsignedInt, readAt, hc]
    rw [hstart, isInt_of_ne hminus, isInt_of_ne htake]
    exact isValidUnsignedInt_decides_iff hnul

/-- The validators accept their grammars, with every index in bounds, if and only if the
string does not go on after `2 ^ 31 - 1` characters that are an integer. -/
theorem validates_iff (hnul : nul ∉ x) :
    Validates x ↔ x.length < 2 ^ 31 ∨ ¬ IsInt (x.take (2 ^ 31 - 1)) := by
  have hmax : x.length < 2 ^ 31 ↔ x.length ≤ intMax := by
    unfold intMax
    omega
  rw [Validates, isValidInt_decides_iff hnul, isValidUnsignedInt_decides_iff hnul, hmax,
    ← intMax]
  refine ⟨fun h ↦ h.1, fun h ↦ ⟨h, ?_⟩⟩
  rcases h with hle | hint
  · exact .inl hle
  · exact .inr fun hdigits ↦ hint (.inl hdigits)

theorem validates_iff_minus :
    Validates ['-'] ↔ (['-'] : Text).length < 2 ^ 31 ∨ ¬ IsInt ((['-'] : Text).take (2 ^ 31 - 1)) :=
  validates_iff (by decide)

/-- The index overflows on `2 ^ 31` digits. -/
theorem digits_overflow : ¬ ∀ x : Text, nul ∉ x → Validates x := by
  intro h
  have hlength : (List.replicate (2 ^ 31) '0').length = 2 ^ 31 := List.length_replicate
  have hnul : nul ∉ List.replicate (2 ^ 31) '0' := by
    intro hmem
    cases List.eq_of_mem_replicate hmem
  have htake : IsDigits ((List.replicate (2 ^ 31) '0').take intMax) := by
    refine ⟨?_, ?_⟩
    · apply List.ne_nil_of_length_pos
      rw [List.length_take, hlength]
      decide
    · intro c hc
      rw [List.eq_of_mem_replicate (List.mem_of_mem_take hc)]
      decide
  rcases (isValidUnsignedInt_decides_iff hnul).mp (h _ hnul).2 with hle | hnot
  · rw [hlength] at hle
    revert hle
    decide
  · exact hnot htake

end Peripherals.IsValidInt
