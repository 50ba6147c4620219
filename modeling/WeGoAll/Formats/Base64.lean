import WeGoAll.Base.Libraries

/-!
# Formats — Base64

The base64 of `cppcodec`: three bytes to four characters, the last group padded with `=`.

* `base64Decode_base64Encode`: an encoded string is decoded to itself.
-/

namespace Wga.Format

/-- The character of a number below 64. -/
def base64Char (n : Nat) : UInt8 :=
  if n < 26 then UInt8.ofNat (n + 65)
  else if n < 52 then UInt8.ofNat (n + 71)
  else if n < 62 then UInt8.ofNat (n - 4)
  else if n = 62 then 43
  else 47

/-- The number of a character; `none` outside the alphabet. -/
def base64Value (c : UInt8) : Option Nat :=
  if 65 ≤ c ∧ c ≤ 90 then some (c.toNat - 65)
  else if 97 ≤ c ∧ c ≤ 122 then some (c.toNat - 71)
  else if 48 ≤ c ∧ c ≤ 57 then some (c.toNat + 4)
  else if c = 43 then some 62
  else if c = 47 then some 63
  else none

/-- The padding character. -/
def base64Pad : UInt8 := 61

theorem base64Value_base64Char {n : Nat} (h : n < 64) : base64Value (base64Char n) = some n := by
  revert n
  decide +kernel

theorem base64Char_ne_pad {n : Nat} (h : n < 64) : base64Char n ≠ base64Pad := by
  revert n
  decide +kernel

def base64Encode : Bytes → Bytes
  | [] => []
  | [a] => [base64Char (a.toNat / 4), base64Char (a.toNat % 4 * 16), base64Pad, base64Pad]
  | [a, b] =>
      [base64Char (a.toNat / 4), base64Char (a.toNat % 4 * 16 + b.toNat / 16),
        base64Char (b.toNat % 16 * 4), base64Pad]
  | a :: b :: c :: rest =>
      base64Char (a.toNat / 4) :: base64Char (a.toNat % 4 * 16 + b.toNat / 16) ::
        base64Char (b.toNat % 16 * 4 + c.toNat / 64) :: base64Char (c.toNat % 64) ::
          base64Encode rest

/-- The byte made of the low bits of `hi` and the high bits of `lo`, split at `2 ^ k`. -/
def base64Byte (hi lo k : Nat) : UInt8 := UInt8.ofNat (hi * (64 / 2 ^ k) % 256 + lo / 2 ^ k)

def base64Decode : Bytes → Option Bytes
  | [] => some []
  | p :: q :: r :: s :: rest => do
      let p ← base64Value p
      let q ← base64Value q
      if r = base64Pad then
        if s = base64Pad ∧ rest = [] then some [base64Byte p q 4] else none
      else
        let r ← base64Value r
        if s = base64Pad then
          if rest = [] then some [base64Byte p q 4, base64Byte q r 2] else none
        else
          let s ← base64Value s
          let tail ← base64Decode rest
          some (base64Byte p q 4 :: base64Byte q r 2 :: base64Byte r s 0 :: tail)
  | _ => none

/-- Eight bits split at any of the three places are put together again. -/
theorem base64Byte_eq (a : UInt8) {hi lo k : Nat}
    (h : hi * (64 / 2 ^ k) % 256 + lo / 2 ^ k = a.toNat) : base64Byte hi lo k = a := by
  rw [base64Byte, h]
  exact UInt8.ofNat_toNat

/-- **Decoding an encoded string.** -/
theorem base64Decode_base64Encode (s : Bytes) : base64Decode (base64Encode s) = some s := by
  induction s using base64Encode.induct with
  | case1 => rfl
  | case2 a =>
      have ha := a.toNat_lt
      rw [base64Encode, base64Decode, base64Value_base64Char (by omega),
        base64Value_base64Char (by omega)]
      have h₁ : base64Byte (a.toNat / 4) (a.toNat % 4 * 16) 4 = a := base64Byte_eq a (by omega)
      simp [h₁]
  | case3 a b =>
      have ha := a.toNat_lt
      have hb := b.toNat_lt
      rw [base64Encode, base64Decode, base64Value_base64Char (by omega),
        base64Value_base64Char (by omega), base64Value_base64Char (by omega)]
      have h₁ : base64Byte (a.toNat / 4) (a.toNat % 4 * 16 + b.toNat / 16) 4 = a :=
        base64Byte_eq a (by omega)
      have h₂ : base64Byte (a.toNat % 4 * 16 + b.toNat / 16) (b.toNat % 16 * 4) 2 = b :=
        base64Byte_eq b (by omega)
      simp [h₁, h₂, base64Char_ne_pad (show b.toNat % 16 * 4 < 64 by omega)]
  | case4 a b c rest ih =>
      have ha := a.toNat_lt
      have hb := b.toNat_lt
      have hc := c.toNat_lt
      rw [base64Encode, base64Decode, base64Value_base64Char (by omega),
        base64Value_base64Char (by omega), base64Value_base64Char (by omega),
        base64Value_base64Char (by omega), ih]
      have h₁ : base64Byte (a.toNat / 4) (a.toNat % 4 * 16 + b.toNat / 16) 4 = a :=
        base64Byte_eq a (by omega)
      have h₂ : base64Byte (a.toNat % 4 * 16 + b.toNat / 16) (b.toNat % 16 * 4 + c.toNat / 64) 2
          = b := base64Byte_eq b (by omega)
      have h₃ : base64Byte (b.toNat % 16 * 4 + c.toNat / 64) (c.toNat % 64) 0 = c :=
        base64Byte_eq c (by omega)
      simp [h₁, h₂, h₃, base64Char_ne_pad (show b.toNat % 16 * 4 + c.toNat / 64 < 64 by omega),
        base64Char_ne_pad (show c.toNat % 64 < 64 by omega)]

end Wga.Format
