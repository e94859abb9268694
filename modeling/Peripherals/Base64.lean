import Mathlib.Algebra.Ring.Nat
import Mathlib.Data.List.Basic

/-! Base64 as in RFC 4648, with and without padding. -/

namespace Peripherals.Base64

def alphabet : List Char :=
  "ABCDEFGHIJKLMNOPQRSTUVWXYZabcdefghijklmnopqrstuvwxyz0123456789+/".toList

def digit (n : ℕ) : Char := alphabet.getD n '='

def value (c : Char) : Option ℕ := alphabet.idxOf? c

/-- The 24 bits of three bytes. -/
def quantum (a b c : UInt8) : ℕ := a.toNat * 2 ^ 16 + b.toNat * 2 ^ 8 + c.toNat

/-- The bits of the bytes in groups of six, from the left; in the last group zero
bits are added on the right. -/
def sextets : List UInt8 → List ℕ
  | a :: b :: c :: rest =>
    let n := quantum a b c
    n / 2 ^ 18 :: n / 2 ^ 12 % 64 :: n / 2 ^ 6 % 64 :: n % 64 :: sextets rest
  | [a, b] =>
    let n := quantum a b 0
    [n / 2 ^ 18, n / 2 ^ 12 % 64, n / 2 ^ 6 % 64]
  | [a] =>
    let n := quantum a 0 0
    [n / 2 ^ 18, n / 2 ^ 12 % 64]
  | [] => []

/-- How many characters the last group of four lacks. -/
def padLength (length : ℕ) : ℕ := (3 - length % 3) % 3

def encode (padding : Bool) (bytes : List UInt8) : List Char :=
  (sextets bytes).map digit ++
    if padding then List.replicate (padLength bytes.length) '=' else []

/-- The bytes whose bits the groups of six hold. -/
def octets : List ℕ → Option (List UInt8)
  | w :: x :: y :: z :: rest =>
    let n := ((w * 64 + x) * 64 + y) * 64 + z
    (octets rest).map fun bytes ↦
      UInt8.ofNat (n / 2 ^ 16) :: UInt8.ofNat (n / 2 ^ 8) :: UInt8.ofNat n :: bytes
  | [w, x, y] =>
    let n := (w * 64 + x) * 64 + y
    some [UInt8.ofNat (n / 2 ^ 10), UInt8.ofNat (n / 2 ^ 2)]
  | [w, x] => some [UInt8.ofNat ((w * 64 + x) / 2 ^ 4)]
  | [_] => none
  | [] => some []

/-- What is before the padding, if there is any, is decoded. -/
def decode (text : List Char) : Option (List UInt8) :=
  ((text.takeWhile (· ≠ '=')).mapM value).bind octets

variable {n : ℕ}

theorem digit_ne_pad (h : n < 64) : digit n ≠ '=' := by
  have hall : ∀ i < 64, digit i ≠ '=' := by decide +kernel
  exact hall n h

theorem value_digit (h : n < 64) : value (digit n) = some n := by
  have hall : ∀ i < 64, value (digit i) = some i := by decide +kernel
  exact hall n h

theorem quantum_lt (a b c : UInt8) : quantum a b c < 2 ^ 24 := by
  have ha := a.toNat_lt
  have hb := b.toNat_lt
  have hc := c.toNat_lt
  unfold quantum
  omega

theorem sextets_lt (bytes : List UInt8) : ∀ n ∈ sextets bytes, n < 64 := by
  have hfirst (a b c : UInt8) : quantum a b c / 2 ^ 18 < 64 := by
    have hlt := quantum_lt a b c
    omega
  have hmod (m : ℕ) : m % 64 < 64 := Nat.mod_lt m (by decide)
  induction bytes using sextets.induct with
  | case1 a b c rest ih =>
    simp only [sextets, List.forall_mem_cons]
    exact ⟨hfirst a b c, hmod _, hmod _, hmod _, ih⟩
  | case2 a b =>
    simp only [sextets, List.forall_mem_cons]
    exact ⟨hfirst a b 0, hmod _, hmod _, List.forall_mem_nil _⟩
  | case3 a =>
    simp only [sextets, List.forall_mem_cons]
    exact ⟨hfirst a 0 0, hmod _, List.forall_mem_nil _⟩
  | case4 => exact List.forall_mem_nil _

theorem byte_eq (a b c : UInt8) : UInt8.ofNat (quantum a b c / 2 ^ 16) = a ∧
    UInt8.ofNat (quantum a b c / 2 ^ 8) = b ∧ UInt8.ofNat (quantum a b c) = c := by
  have ha := a.toNat_lt
  have hb := b.toNat_lt
  have hc := c.toNat_lt
  refine ⟨?_, ?_, ?_⟩
  all_goals
    rw [← UInt8.toNat_inj, UInt8.toNat_ofNat', quantum]
    omega

theorem octets_sextets (bytes : List UInt8) : octets (sextets bytes) = some bytes := by
  induction bytes using sextets.induct with
  | case1 a b c rest ih =>
    have hlt := quantum_lt a b c
    have hjoin : ((quantum a b c / 2 ^ 18 * 64 + quantum a b c / 2 ^ 12 % 64) * 64 +
        quantum a b c / 2 ^ 6 % 64) * 64 + quantum a b c % 64 = quantum a b c := by
      omega
    obtain ⟨ha, hb, hc⟩ := byte_eq a b c
    rw [sextets, octets, hjoin, ha, hb, hc, ih]
    rfl
  | case2 a b =>
    have hlt := quantum_lt a b 0
    obtain ⟨ha, hb, -⟩ := byte_eq a b 0
    have hfirst : ((quantum a b 0 / 2 ^ 18 * 64 + quantum a b 0 / 2 ^ 12 % 64) * 64 +
        quantum a b 0 / 2 ^ 6 % 64) / 2 ^ 10 = quantum a b 0 / 2 ^ 16 := by
      omega
    have hsecond : ((quantum a b 0 / 2 ^ 18 * 64 + quantum a b 0 / 2 ^ 12 % 64) * 64 +
        quantum a b 0 / 2 ^ 6 % 64) / 2 ^ 2 = quantum a b 0 / 2 ^ 8 := by
      omega
    rw [sextets, octets, hfirst, hsecond, ha, hb]
  | case3 a =>
    have hlt := quantum_lt a 0 0
    obtain ⟨ha, -, -⟩ := byte_eq a 0 0
    have hfirst : (quantum a 0 0 / 2 ^ 18 * 64 + quantum a 0 0 / 2 ^ 12 % 64) / 2 ^ 4 =
        quantum a 0 0 / 2 ^ 16 := by
      omega
    rw [sextets, octets, hfirst, ha]
  | case4 => rfl

theorem padLength_add_three (n : ℕ) : padLength (n + 3) = padLength n := by
  unfold padLength
  omega

theorem mapM_value {digits : List ℕ} (h : ∀ n ∈ digits, n < 64) :
    (digits.map digit).mapM value = some digits := by
  induction digits with
  | nil => rfl
  | cons n digits ih =>
    obtain ⟨hn, hrest⟩ := List.forall_mem_cons.mp h
    simp [value_digit hn, ih hrest]

theorem takeWhile_encode (padding : Bool) (bytes : List UInt8) :
    (encode padding bytes).takeWhile (· ≠ '=') = (sextets bytes).map digit := by
  have hdigits : ∀ c ∈ (sextets bytes).map digit, c ≠ '=' := by
    intro c hc
    obtain ⟨n, hn, rfl⟩ := List.mem_map.mp hc
    exact digit_ne_pad (sextets_lt bytes n hn)
  rw [encode, List.takeWhile_append_of_pos (by simpa using hdigits)]
  cases padding with
  | false => simp
  | true => simp

theorem decode_encode (padding : Bool) (bytes : List UInt8) :
    decode (encode padding bytes) = some bytes := by
  rw [decode, takeWhile_encode, mapM_value (sextets_lt bytes)]
  exact octets_sextets bytes

theorem encode_inj {padding padding' : Bool} {bytes bytes' : List UInt8}
    (h : encode padding bytes = encode padding' bytes') : bytes = bytes' := by
  have hdecode := congrArg decode h
  rw [decode_encode, decode_encode] at hdecode
  exact Option.some.inj hdecode

end Peripherals.Base64
