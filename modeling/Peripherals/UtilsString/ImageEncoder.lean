import Mathlib.Algebra.Ring.Nat
import Peripherals.Base64

namespace Peripherals.UtilsString

def base64_chars : List Char :=
  "ABCDEFGHIJKLMNOPQRSTUVWXYZ".toList ++ "abcdefghijklmnopqrstuvwxyz".toList ++
    "0123456789+/".toList ++ ['\x00']

def charAt (i : UInt8) : Char := base64_chars.getD i.toNat '\x00'

structure Encoder where
  state : UInt8
  lastStuff : UInt8
  result : List Char

def Encoder.step (e : Encoder) (byte : UInt8) : Encoder :=
  if e.state = 0 then
    { state := 1
      lastStuff := (byte &&& 0x03) <<< 4
      result := e.result ++ [charAt ((byte &&& 0xFC) >>> 2)] }
  else if e.state = 1 then
    { state := 2
      lastStuff := (byte &&& 0x0F) <<< 2
      result := e.result ++ [charAt (((byte &&& 0xF0) >>> 4) ||| e.lastStuff)] }
  else if e.state = 2 then
    { e with
      state := 0
      result := e.result ++ [charAt (((byte &&& 0xC0) >>> 6) ||| e.lastStuff)] ++
        [charAt (byte &&& 0x3F)] }
  else e

def Encoder.finish (e : Encoder) (padding : Bool) : List Char :=
  if e.state ≠ 0 then
    let result := e.result ++ [charAt e.lastStuff]
    if padding then
      if e.state = 1 then result ++ "==".toList else result ++ "=".toList
    else result
  else e.result

def imageEncoder (object : List UInt8) (padding : Bool) (result : List Char) : List Char :=
  (object.foldl Encoder.step ⟨0, 0, result⟩).finish padding

theorem charAt_of_toNat {i : UInt8} {n : ℕ} (h : i.toNat = n) (hn : n < 64) :
    charAt i = Base64.digit n := by
  have hall : ∀ m < 64, base64_chars.getD m '\x00' = Base64.digit m := by decide +kernel
  rw [charAt, h]
  exact hall n hn

/-- Two bit fields side by side. -/
theorem or_toNat {high low : UInt8} {k m n : ℕ} (hhigh : high.toNat = 2 ^ k * m)
    (hlow : low.toNat = n) (hn : n < 2 ^ k) : (low ||| high).toNat = 2 ^ k * m + n := by
  rw [UInt8.toNat_or, hlow, hhigh, Nat.or_comm, Nat.two_pow_add_eq_or_of_lt hn]

variable {byte mask shift : UInt8} {j k : ℕ}

/-- The bits from the one with the number `k` on. -/
theorem high_toNat (hk : k < 8) (hshift : shift.toNat = k)
    (hmask : mask.toNat >>> k = 2 ^ (8 - k) - 1) :
    ((byte &&& mask) >>> shift).toNat = byte.toNat / 2 ^ k := by
  have hlt : byte.toNat / 2 ^ k < 2 ^ (8 - k) := by
    rw [Nat.div_lt_iff_lt_mul (Nat.two_pow_pos k), ← Nat.pow_add,
      Nat.sub_add_cancel (Nat.le_of_lt hk)]
    exact byte.toNat_lt
  rw [UInt8.toNat_shiftRight, UInt8.toNat_and, hshift, Nat.mod_eq_of_lt hk,
    Nat.shiftRight_and_distrib, hmask, Nat.and_two_pow_sub_one_eq_mod,
    Nat.shiftRight_eq_div_pow, Nat.mod_eq_of_lt hlt]

/-- The bits before the one with the number `j`, moved up. -/
theorem low_toNat (hj : j + k ≤ 8) (hk : k < 8) (hshift : shift.toNat = k)
    (hmask : mask.toNat = 2 ^ j - 1) :
    ((byte &&& mask) <<< shift).toNat = 2 ^ k * (byte.toNat % 2 ^ j) := by
  have hlt : byte.toNat % 2 ^ j * 2 ^ k < 2 ^ 8 := by
    calc byte.toNat % 2 ^ j * 2 ^ k < 2 ^ j * 2 ^ k :=
          Nat.mul_lt_mul_of_pos_right (Nat.mod_lt _ (Nat.two_pow_pos j)) (Nat.two_pow_pos k)
      _ = 2 ^ (j + k) := (Nat.pow_add 2 j k).symm
      _ ≤ 2 ^ 8 := Nat.pow_le_pow_right (by decide) hj
  rw [UInt8.toNat_shiftLeft, UInt8.toNat_and, hshift, Nat.mod_eq_of_lt hk, hmask,
    Nat.and_two_pow_sub_one_eq_mod, Nat.shiftLeft_eq, Nat.mod_eq_of_lt hlt, Nat.mul_comm]

open Base64

theorem first_char (a b c : UInt8) :
    charAt ((a &&& 0xFC) >>> 2) = digit (quantum a b c / 2 ^ 18) := by
  have ha := a.toNat_lt
  have hb := b.toNat_lt
  have hc := c.toNat_lt
  apply charAt_of_toNat
  · rw [high_toNat (k := 2) (by decide) rfl rfl, quantum]
    omega
  · unfold quantum
    omega

theorem second_char (a b c : UInt8) :
    charAt (((b &&& 0xF0) >>> 4) ||| ((a &&& 0x03) <<< 4)) =
      digit (quantum a b c / 2 ^ 12 % 64) := by
  have hb := b.toNat_lt
  have hc := c.toNat_lt
  apply charAt_of_toNat
  · rw [or_toNat (low_toNat (j := 2) (k := 4) (by decide) (by decide) rfl rfl)
      (high_toNat (k := 4) (by decide) rfl rfl) (by omega), quantum]
    omega
  · omega

theorem third_char (a b c : UInt8) :
    charAt (((c &&& 0xC0) >>> 6) ||| ((b &&& 0x0F) <<< 2)) =
      digit (quantum a b c / 2 ^ 6 % 64) := by
  have hc := c.toNat_lt
  apply charAt_of_toNat
  · rw [or_toNat (low_toNat (j := 4) (k := 2) (by decide) (by decide) rfl rfl)
      (high_toNat (k := 6) (by decide) rfl rfl) (by omega), quantum]
    omega
  · omega

theorem fourth_char (a b c : UInt8) : charAt (c &&& 0x3F) = digit (quantum a b c % 64) := by
  apply charAt_of_toNat
  · have hmask : (0x3F : UInt8).toNat = 2 ^ 6 - 1 := rfl
    rw [UInt8.toNat_and, hmask, Nat.and_two_pow_sub_one_eq_mod, quantum]
    omega
  · omega

/-- Between two groups of three bytes nothing is carried. -/
theorem foldl_finish (object : List UInt8) (padding : Bool) (lastStuff : UInt8)
    (result : List Char) : (object.foldl Encoder.step ⟨0, lastStuff, result⟩).finish padding =
      result ++ encode padding object := by
  induction object using sextets.induct generalizing lastStuff result with
  | case1 a b c rest ih =>
    have hgroup : (a :: b :: c :: rest).foldl Encoder.step ⟨0, lastStuff, result⟩ =
        rest.foldl Encoder.step ⟨0, (b &&& 0x0F) <<< 2, result ++
          [charAt ((a &&& 0xFC) >>> 2)] ++
          [charAt (((b &&& 0xF0) >>> 4) ||| ((a &&& 0x03) <<< 4))] ++
          [charAt (((c &&& 0xC0) >>> 6) ||| ((b &&& 0x0F) <<< 2))] ++ [charAt (c &&& 0x3F)]⟩ := rfl
    have hpad : padLength (a :: b :: c :: rest).length = padLength rest.length :=
      padLength_add_three rest.length
    rw [hgroup, ih, encode, encode, hpad, sextets, first_char a b c, second_char a b c,
      third_char a b c, fourth_char a b c]
    simp
  | case2 a b =>
    have hlast : charAt ((b &&& 0x0F) <<< 2) = digit (quantum a b 0 / 2 ^ 6 % 64) := by
      rw [← third_char]
      simp
    have hrest : ([a, b].foldl Encoder.step ⟨0, lastStuff, result⟩).finish padding =
        result ++ [charAt ((a &&& 0xFC) >>> 2)] ++
          [charAt (((b &&& 0xF0) >>> 4) ||| ((a &&& 0x03) <<< 4))] ++
          [charAt ((b &&& 0x0F) <<< 2)] ++ if padding then ['='] else [] := by
      cases padding <;> simp [Encoder.step, Encoder.finish]
    rw [hrest, first_char a b 0, second_char a b 0, hlast, encode, sextets]
    simp [padLength]
  | case3 a =>
    have hlast : charAt ((a &&& 0x03) <<< 4) = digit (quantum a 0 0 / 2 ^ 12 % 64) := by
      rw [← second_char]
      simp
    have hrest : ([a].foldl Encoder.step ⟨0, lastStuff, result⟩).finish padding =
        result ++ [charAt ((a &&& 0xFC) >>> 2)] ++ [charAt ((a &&& 0x03) <<< 4)] ++
          if padding then ['=', '='] else [] := by
      cases padding <;> simp [Encoder.step, Encoder.finish]
    rw [hrest, first_char a 0 0, hlast, encode, sextets]
    simp [padLength]
  | case4 => simp [encode, sextets, padLength, Encoder.finish]

/-- `imageEncoder` appends the base64 text of the bytes, from which they are decoded. -/
theorem imageEncoder_base64 (object : List UInt8) (padding : Bool) (result : List Char) :
    ∃ text, imageEncoder object padding result = result ++ text ∧ text = encode padding object ∧
      decode text = some object ∧ ∀ object' padding',
        imageEncoder object' padding' result = imageEncoder object padding result →
          object' = object := by
  refine ⟨encode padding object, foldl_finish object padding 0 result, rfl,
    decode_encode padding object, ?_⟩
  intro object' padding' h
  rw [imageEncoder, imageEncoder, foldl_finish, foldl_finish] at h
  exact encode_inj (List.append_cancel_left h)

example : imageEncoder [0x4D, 0x61] true "data:".toList = "data:TWE=".toList := by decide +kernel

end Peripherals.UtilsString
