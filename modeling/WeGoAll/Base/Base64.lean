import WeGoAll.Formats.Base64
import WeGoAll.Support.Except
import WeGoAll.Support.Loops

/-!
# Base — Base64

The base64 of `Base64.hpp`, which `MyPeer` and `CryptoHandler` use beside the one of `cppcodec`.  It
computes its bounds with `size_t` and does not look whether it stays in its strings: a read or a
write outside them is a fault here.

* `Encode_eq`: a string of two bytes or more is encoded as `cppcodec` encodes it, a shorter one is
  read out of bounds.
* `b64_round_trip`: where `Encode` returns, `Decode` gives the string back.
-/

namespace Wga

namespace B64

/-- `sEncodingTable`. -/
def sEncodingTable : Bytes := ascii
  ['A', 'B', 'C', 'D', 'E', 'F', 'G', 'H', 'I', 'J', 'K', 'L', 'M',
   'N', 'O', 'P', 'Q', 'R', 'S', 'T', 'U', 'V', 'W', 'X', 'Y', 'Z',
   'a', 'b', 'c', 'd', 'e', 'f', 'g', 'h', 'i', 'j', 'k', 'l', 'm',
   'n', 'o', 'p', 'q', 'r', 's', 't', 'u', 'v', 'w', 'x', 'y', 'z',
   '0', '1', '2', '3', '4', '5', '6', '7', '8', '9', '+', '/']

/-- `kDecodingTable`. -/
def kDecodingTable : List Nat :=
  List.replicate 43 64 ++ [62] ++ List.replicate 3 64 ++ [63] ++ List.range' 52 10 ++
    List.replicate 7 64 ++ List.range' 0 26 ++ List.replicate 6 64 ++ List.range' 26 26 ++
    List.replicate 133 64

/-- `a - b` on `size_t`. -/
def sizeSub (a b : Nat) : Nat := (a + (2 ^ 64 - b)) % 2 ^ 64

/-- `s[i]`: there is a `'\0'` behind the last byte. -/
def byte (s : Bytes) (i : Nat) : Except Fault Nat :=
  if i < s.length then .ok (s.getD i 0).toNat
  else if i = s.length then .ok 0
  else .error (.thrown "out of bounds")

/-- `*p++ = sEncodingTable[n]`, into a string of `outLen` bytes. -/
def put (outLen : Nat) (c : UInt8) (ret : Bytes) : Except Fault Bytes :=
  if ret.length < outLen then .ok (ret ++ [c]) else .error (.thrown "out of bounds")

/-- `sEncodingTable[n]`. -/
def encoded (n : Nat) : UInt8 := sEncodingTable.getD n 0

/-- The characters of the three bytes from `i` on, the body of the loop of `Encode`. -/
def encodeGroup (data : Bytes) (outLen i : Nat) (ret : Bytes) : Except Fault Bytes := do
  let a ← byte data i
  let b ← byte data (i + 1)
  let c ← byte data (i + 2)
  let ret ← put outLen (encoded (a >>> 2 &&& 0x3F)) ret
  let ret ← put outLen (encoded ((a &&& 0x3) <<< 4 ||| (b &&& 0xF0) >>> 4)) ret
  let ret ← put outLen (encoded ((b &&& 0xF) <<< 2 ||| (c &&& 0xC0) >>> 6)) ret
  put outLen (encoded (c &&& 0x3F)) ret

/-- What `Encode` does after its loop. -/
def encodeRest (data : Bytes) (outLen i : Nat) (ret : Bytes) : Except Fault Bytes := do
  if i < data.length then
    let a ← byte data i
    let ret ← put outLen (encoded (a >>> 2 &&& 0x3F)) ret
    if i = sizeSub data.length 1 then
      let ret ← put outLen (encoded ((a &&& 0x3) <<< 4)) ret
      let ret ← put outLen Format.base64Pad ret
      put outLen Format.base64Pad ret
    else
      let b ← byte data (i + 1)
      let ret ← put outLen (encoded ((a &&& 0x3) <<< 4 ||| (b &&& 0xF0) >>> 4)) ret
      let ret ← put outLen (encoded ((b &&& 0xF) <<< 2)) ret
      put outLen Format.base64Pad ret
  else .ok ret

/-- One look at the condition of the loop of `Encode`, and its body. -/
def encodeBody (data : Bytes) (outLen : Nat) :
    Nat × Bytes → Except Fault Bytes ⊕ (Nat × Bytes)
  | (i, ret) =>
      if i < sizeSub data.length 2 then
        match encodeGroup data outLen i ret with
        | .error e => .inl (.error e)
        | .ok ret => .inr (i + 3, ret)
      else .inl (encodeRest data outLen i ret)

/-- `Encode`.  The loop reads its group first, so it cannot go round more often than there are
bytes. -/
def Encode (data : Bytes) : Except Fault Bytes :=
  iterate (encodeBody data (4 * ((data.length + 2) / 3))) (fun _ => .error (.thrown "cut off"))
    (data.length + 1) (0, [])

/-- One of the four numbers `Decode` reads: a `=` counts as zero; `char` is signed. -/
def sextet (input : Bytes) (i : Nat) : Except Fault Nat := do
  let c ← byte input i
  if c = 61 then .ok 0
  else if c < 128 then .ok (kDecodingTable.getD c 64)
  else .error (.thrown "out of bounds")

/-- `if (j < out_len) out[j++] = b`. -/
def emit (outLen b : Nat) (out : Bytes) : Bytes :=
  if out.length < outLen then out ++ [UInt8.ofNat (b &&& 0xFF)] else out

/-- The loop of `Decode`; `n` groups are left. -/
def decodeLoop (input : Bytes) (outLen : Nat) : Nat → Bytes → Except Fault Bytes
  | 0, out => .ok out
  | n + 1, out => do
      let i := input.length - 4 * (n + 1)
      let a ← sextet input i
      let b ← sextet input (i + 1)
      let c ← sextet input (i + 2)
      let d ← sextet input (i + 3)
      let triple := (a <<< 18 + b <<< 12 + c <<< 6 + d) % 2 ^ 32
      decodeLoop input outLen n
        (emit outLen triple (emit outLen (triple >>> 8) (emit outLen (triple >>> 16) out)))

/-- The text `Decode` returns for a length that is no multiple of four. -/
def decodeError : Bytes :=
  ("Input data size is not a multiple of 4".toList).map fun c => UInt8.ofNat c.toNat

/-- `Decode`. -/
def Decode (input : Bytes) : Except Fault Bytes :=
  if input.length % 4 ≠ 0 then .ok decodeError
  else do
    let outLen := input.length / 4 * 3
    let last ← byte input (sizeSub input.length 1)
    let outLen := if last = 61 then sizeSub outLen 1 else outLen
    let beforeLast ← byte input (sizeSub input.length 2)
    let outLen := if beforeLast = 61 then sizeSub outLen 1 else outLen
    decodeLoop input outLen (input.length / 4) []

open Format

/-! ### Encoding -/

theorem sizeSub_eq {a b : Nat} (h : b ≤ a) (ha : a < 2 ^ 64) : sizeSub a b = a - b := by
  rw [sizeSub]
  omega

theorem encoded_eq {n : Nat} (h : n < 64) : encoded n = base64Char n := by
  revert n
  decide +kernel

theorem high_six {a : Nat} (h : a < 256) : a >>> 2 &&& 0x3F = a / 4 := by
  have hmod : a >>> 2 &&& 2 ^ 6 - 1 = a >>> 2 % 2 ^ 6 := Nat.and_two_pow_sub_one_eq_mod _ _
  rw [show (0x3F : Nat) = 2 ^ 6 - 1 from rfl, hmod, Nat.shiftRight_eq_div_pow]
  omega

/-- The low `k` bits of one byte before the high bits of the next one. -/
theorem join_bits {a b k : Nat} (hb : b < 2 ^ k) {n : Nat} :
    (a &&& 2 ^ n - 1) <<< k ||| b = a % 2 ^ n * 2 ^ k + b := by
  rw [← Nat.shiftLeft_add_eq_or_of_lt hb, Nat.and_two_pow_sub_one_eq_mod, Nat.shiftLeft_eq]

theorem masked_four {b : Nat} (h : b < 256) : (b &&& 0xF0) >>> 4 = b / 16 := by
  revert b
  decide +kernel

theorem masked_six {c : Nat} (h : c < 256) : (c &&& 0xC0) >>> 6 = c / 64 := by
  revert c
  decide +kernel

theorem low_six (c : Nat) : c &&& 0x3F = c % 64 := Nat.and_two_pow_sub_one_eq_mod c 6

variable {pre rest : Bytes} {a b c : UInt8} {outLen : Nat}

theorem byte_at : byte (pre ++ a :: rest) pre.length = .ok a.toNat := by
  simp [byte]

theorem byte_second : byte (pre ++ a :: b :: rest) (pre.length + 1) = .ok b.toNat := by
  simp [byte]

theorem byte_third : byte (pre ++ a :: b :: c :: rest) (pre.length + 2) = .ok c.toNat := by
  simp [byte]

theorem byte_fourth {d : UInt8} :
    byte (pre ++ a :: b :: c :: d :: rest) (pre.length + 3) = .ok d.toNat := by
  simp [byte]

/-- Four characters that fit. -/
theorem put_four {ret : Bytes} {x y z w : UInt8} (h : ret.length + 4 ≤ outLen) :
    (do
      let ret ← put outLen x ret
      let ret ← put outLen y ret
      let ret ← put outLen z ret
      put outLen w ret) = .ok (ret ++ [x, y, z, w]) := by
  have h₀ : ret.length < outLen := by omega
  have h₁ : (ret ++ [x]).length < outLen := by simp; omega
  have h₂ : (ret ++ [x] ++ [y]).length < outLen := by simp; omega
  have h₃ : (ret ++ [x] ++ [y] ++ [z]).length < outLen := by simp; omega
  simp only [put, if_pos h₀, ok_bind, if_pos h₁, if_pos h₂, if_pos h₃]
  simp

theorem base64Encode_length (data : Bytes) :
    (base64Encode data).length = 4 * ((data.length + 2) / 3) := by
  induction data using base64Encode.induct with
  | case1 => rfl
  | case2 a => simp [base64Encode]
  | case3 a b => simp [base64Encode]
  | case4 a b c rest ih =>
      simp only [base64Encode, List.length_cons, ih]
      omega

theorem encodeGroup_eq {ret : Bytes} (h : ret.length + 4 ≤ outLen) :
    encodeGroup (pre ++ a :: b :: c :: rest) outLen pre.length ret =
      .ok (ret ++ [base64Char (a.toNat / 4), base64Char (a.toNat % 4 * 16 + b.toNat / 16),
        base64Char (b.toNat % 16 * 4 + c.toNat / 64), base64Char (c.toNat % 64)]) := by
  have ha := a.toNat_lt
  have hb := b.toNat_lt
  have hc := c.toNat_lt
  have hab : (a.toNat &&& 0x3) <<< 4 ||| b.toNat / 16 = a.toNat % 4 * 16 + b.toNat / 16 :=
    join_bits (k := 4) (n := 2) (by omega)
  have hbc : (b.toNat &&& 0xF) <<< 2 ||| c.toNat / 64 = b.toNat % 16 * 4 + c.toNat / 64 :=
    join_bits (k := 2) (n := 4) (by omega)
  rw [encodeGroup, byte_at, byte_second, byte_third]
  simp only [ok_bind, high_six ha, masked_four hb, masked_six hc, hab, hbc]
  rw [put_four h, low_six, encoded_eq (by omega), encoded_eq (by omega), encoded_eq (by omega),
    encoded_eq (by omega)]

/-- A group that is not there. -/
theorem encodeGroup_short {data ret : Bytes} (h : data.length ≤ 1) :
    encodeGroup data outLen 0 ret = .error (.thrown "out of bounds") := by
  match data, h with
  | [], _ => rfl
  | [a], _ => rfl

theorem encodeRest_one {ret : Bytes} (h : ret.length + 4 ≤ outLen)
    (hlen : pre.length + 1 < 2 ^ 64) :
    encodeRest (pre ++ [a]) outLen pre.length ret = .ok (ret ++ base64Encode [a]) := by
  have ha := a.toNat_lt
  have hlast : pre.length = sizeSub (pre ++ [a]).length 1 := by
    rw [sizeSub_eq (by simp) (by simpa using hlen)]
    simp
  have hlow : (a.toNat &&& 0x3) <<< 4 = a.toNat % 4 * 16 := by
    rw [show (0x3 : Nat) = 2 ^ 2 - 1 from rfl, Nat.and_two_pow_sub_one_eq_mod, Nat.shiftLeft_eq]
  rw [encodeRest, if_pos (by simp), byte_at, ok_bind]
  simp only [← hlast, if_true, hlow, high_six ha]
  rw [put_four h, encoded_eq (by omega), encoded_eq (by omega)]
  rfl

theorem encodeRest_two {ret : Bytes} (h : ret.length + 4 ≤ outLen)
    (hlen : pre.length + 2 < 2 ^ 64) :
    encodeRest (pre ++ [a, b]) outLen pre.length ret = .ok (ret ++ base64Encode [a, b]) := by
  have ha := a.toNat_lt
  have hb := b.toNat_lt
  have hlast : pre.length ≠ sizeSub (pre ++ [a, b]).length 1 := by
    rw [sizeSub_eq (by simp) (by simpa using hlen)]
    simp
  have hab : (a.toNat &&& 0x3) <<< 4 ||| b.toNat / 16 = a.toNat % 4 * 16 + b.toNat / 16 :=
    join_bits (k := 4) (n := 2) (by omega)
  have hlow : (b.toNat &&& 0xF) <<< 2 = b.toNat % 16 * 4 := by
    rw [show (0xF : Nat) = 2 ^ 4 - 1 from rfl, Nat.and_two_pow_sub_one_eq_mod, Nat.shiftLeft_eq]
  rw [encodeRest, if_pos (by simp), byte_at, ok_bind]
  simp only [if_neg hlast, byte_second, ok_bind, high_six ha, masked_four hb, hab, hlow]
  rw [put_four h, encoded_eq (by omega), encoded_eq (by omega), encoded_eq (by omega)]
  rfl

/-- The loop, from any group on. -/
theorem encode_from (cut : Nat × Bytes → Except Fault Bytes) (fuel : Nat) (pre ret rest : Bytes)
    (hfuel : rest.length < fuel) (htwo : 2 ≤ (pre ++ rest).length)
    (hlen : (pre ++ rest).length < 2 ^ 64)
    (hfit : ret.length + (base64Encode rest).length ≤ outLen) :
    iterate (encodeBody (pre ++ rest) outLen) cut fuel (pre.length, ret) =
      .ok (ret ++ base64Encode rest) := by
  have hbound : sizeSub (pre ++ rest).length 2 = pre.length + rest.length - 2 := by
    rw [sizeSub_eq htwo hlen, List.length_append]
  obtain ⟨fuel, rfl⟩ : ∃ n, fuel = n + 1 := ⟨fuel - 1, by omega⟩
  induction rest using base64Encode.induct generalizing fuel pre ret with
  | case1 =>
      rw [iterate, encodeBody, if_neg (by rw [hbound]; simp)]
      simp [encodeRest, base64Encode]
  | case2 a =>
      rw [iterate, encodeBody, if_neg (by rw [hbound]; simp)]
      exact encodeRest_one hfit (by simpa using hlen)
  | case3 a b =>
      rw [iterate, encodeBody, if_neg (by rw [hbound]; simp)]
      exact encodeRest_two hfit (by simpa using hlen)
  | case4 a b c rest ih =>
      have hlt : pre.length < sizeSub (pre ++ a :: b :: c :: rest).length 2 := by
        rw [hbound]
        simp only [List.length_cons]
        omega
      simp only [base64Encode, List.length_cons] at hfit
      simp only [List.length_cons] at hfuel
      rw [iterate, encodeBody, if_pos hlt, encodeGroup_eq (by omega)]
      have happ : pre ++ a :: b :: c :: rest = (pre ++ [a, b, c]) ++ rest := by simp
      obtain ⟨n, rfl⟩ : ∃ n, fuel = n + 1 := ⟨fuel - 1, by omega⟩
      have hrest := ih (pre ++ [a, b, c])
        (ret ++ [base64Char (a.toNat / 4), base64Char (a.toNat % 4 * 16 + b.toNat / 16),
          base64Char (b.toNat % 16 * 4 + c.toNat / 64), base64Char (c.toNat % 64)])
        (by rw [← happ]; exact htwo) (by rw [← happ]; exact hlen)
        (by simp only [List.length_append, List.length_cons, List.length_nil]; omega)
        (by
          rw [← happ, hbound]
          simp only [List.length_append, List.length_cons, List.length_nil]
          omega) n (by omega)
      rw [← happ, List.length_append] at hrest
      refine hrest.trans ?_
      rw [base64Encode]
      simp

theorem Encode_eq {data : Bytes} (hlen : data.length < 2 ^ 64) :
    Encode data = if 2 ≤ data.length then .ok (base64Encode data)
      else .error (.thrown "out of bounds") := by
  split
  · rename_i htwo
    have hfit : ([] : Bytes).length + (base64Encode data).length ≤ 4 * ((data.length + 2) / 3) := by
      rw [base64Encode_length]
      simp
    exact encode_from (fun _ => .error (.thrown "cut off")) (data.length + 1) [] [] data
      (Nat.lt_succ_self _) htwo hlen hfit
  · rename_i htwo
    match data, htwo with
    | [], _ => rw [Encode, iterate, encodeBody, if_pos (by decide), encodeGroup_short (by simp)]
    | [a], _ =>
        rw [Encode, iterate, encodeBody, if_pos (by simp [sizeSub]), encodeGroup_short (by simp)]
    | _ :: _ :: _, htwo => exact absurd (by simp) htwo

/-! ### Decoding -/

theorem kDecodingTable_base64Char {n : Nat} (h : n < 64) :
    kDecodingTable.getD (base64Char n).toNat 64 = n ∧ (base64Char n).toNat < 128 := by
  revert n
  decide +kernel

theorem base64Char_toNat {n : Nat} (h : n < 64) : (base64Char n).toNat ≠ 61 := by
  revert n
  decide +kernel

theorem sextet_char {s : Bytes} {i n : Nat} (hn : n < 64)
    (h : byte s i = .ok (base64Char n).toNat) : sextet s i = .ok n := by
  obtain ⟨htable, hascii⟩ := kDecodingTable_base64Char hn
  rw [sextet, h, ok_bind, if_neg (base64Char_toNat hn), if_pos hascii, htable]

theorem sextet_pad {s : Bytes} {i : Nat} (h : byte s i = .ok base64Pad.toNat) :
    sextet s i = .ok 0 := by
  rw [sextet, h]
  rfl

theorem emit_eq (out : Bytes) (n : Nat) (h : out.length < outLen) (hn : n % 256 = a.toNat) :
    emit outLen n out = out ++ [a] := by
  have hmod : n &&& 2 ^ 8 - 1 = n % 2 ^ 8 := Nat.and_two_pow_sub_one_eq_mod _ _
  rw [emit, if_pos h, show (0xFF : Nat) = 2 ^ 8 - 1 from rfl, hmod,
    show n % 2 ^ 8 = a.toNat from hn, UInt8.ofNat_toNat]

theorem emit_full {out : Bytes} {n : Nat} (h : outLen ≤ out.length) : emit outLen n out = out :=
  if_neg (Nat.not_lt.mpr h)

/-- A group whose characters are read. -/
theorem decodeLoop_succ {input out : Bytes} (pre : Bytes) {n p q r s : Nat}
    (hi : input.length = pre.length + 4 * (n + 1)) (hp : sextet input pre.length = .ok p)
    (hq : sextet input (pre.length + 1) = .ok q) (hr : sextet input (pre.length + 2) = .ok r)
    (hs : sextet input (pre.length + 3) = .ok s) {triple : Nat}
    (htriple : p * 262144 + q * 4096 + r * 64 + s = triple) (hlt : triple < 2 ^ 32) :
    decodeLoop input outLen (n + 1) out =
      decodeLoop input outLen n
        (emit outLen triple (emit outLen (triple / 256) (emit outLen (triple / 65536) out))) := by
  have hstart : input.length - 4 * (n + 1) = pre.length := by omega
  rw [decodeLoop]
  simp only [hstart, hp, hq, hr, hs, ok_bind, Nat.shiftLeft_eq, Nat.shiftRight_eq_div_pow]
  rw [show p * 2 ^ 18 + q * 2 ^ 12 + r * 2 ^ 6 + s = triple from htriple, Nat.mod_eq_of_lt hlt]

/-- The loop, from any group on. -/
theorem decode_from (pre out : Bytes) (houtLen : outLen = out.length + rest.length) :
    decodeLoop (pre ++ base64Encode rest) outLen ((base64Encode rest).length / 4) out =
      .ok (out ++ rest) := by
  induction rest using base64Encode.induct generalizing pre out with
  | case1 => simp [base64Encode, decodeLoop]
  | case2 a =>
      have ha := a.toNat_lt
      simp only [List.length_cons, List.length_nil] at houtLen
      have hone : (base64Encode [a]).length / 4 = 0 + 1 := by simp [base64Encode]
      rw [hone, base64Encode]
      refine (decodeLoop_succ pre (n := 0) (@List.length_append _ pre [_, _, _, _])
        (sextet_char (n := a.toNat / 4) (by omega) byte_at)
        (sextet_char (n := a.toNat % 4 * 16) (by omega) byte_second) (sextet_pad byte_third)
        (sextet_pad byte_fourth) rfl (by omega)).trans ?_
      have hfirst : emit outLen ((a.toNat / 4 * 262144 + a.toNat % 4 * 16 * 4096 + 0 * 64 + 0) /
          65536) out = out ++ [a] := emit_eq out _ (by omega) (by omega)
      have hfull : ∀ n, emit outLen n (out ++ [a]) = out ++ [a] := fun n =>
        emit_full (by simp [houtLen])
      rw [hfirst, hfull, hfull, decodeLoop]
  | case3 a b =>
      have ha := a.toNat_lt
      have hb := b.toNat_lt
      simp only [List.length_cons, List.length_nil] at houtLen
      have hone : (base64Encode [a, b]).length / 4 = 0 + 1 := by simp [base64Encode]
      have htriple : a.toNat / 4 * 262144 + (a.toNat % 4 * 16 + b.toNat / 16) * 4096 +
          b.toNat % 16 * 4 * 64 + 0 = a.toNat * 65536 + b.toNat * 256 := by omega
      rw [hone, base64Encode]
      refine (decodeLoop_succ pre (n := 0) (@List.length_append _ pre [_, _, _, _])
        (sextet_char (n := a.toNat / 4) (by omega) byte_at)
        (sextet_char (n := a.toNat % 4 * 16 + b.toNat / 16) (by omega) byte_second)
        (sextet_char (n := b.toNat % 16 * 4) (by omega) byte_third)
        (sextet_pad byte_fourth) htriple (by omega)).trans ?_
      have hfirst : emit outLen ((a.toNat * 65536 + b.toNat * 256) / 65536) out = out ++ [a] :=
        emit_eq out _ (by omega) (by omega)
      have hsecond : emit outLen ((a.toNat * 65536 + b.toNat * 256) / 256) (out ++ [a]) =
          out ++ [a] ++ [b] := emit_eq _ _ (by simp [houtLen]) (by omega)
      rw [hfirst, hsecond, emit_full (by simp [houtLen]), decodeLoop]
      simp
  | case4 a b c rest ih =>
      have ha := a.toNat_lt
      have hb := b.toNat_lt
      have hc := c.toNat_lt
      simp only [List.length_cons] at houtLen
      have hgroups : (base64Encode (a :: b :: c :: rest)).length / 4 =
          (base64Encode rest).length / 4 + 1 := by
        simp only [base64Encode, List.length_cons]
        omega
      have hfour : (base64Encode rest).length = 4 * ((base64Encode rest).length / 4) := by
        rw [base64Encode_length]
        omega
      have htriple : a.toNat / 4 * 262144 + (a.toNat % 4 * 16 + b.toNat / 16) * 4096 +
          (b.toNat % 16 * 4 + c.toNat / 64) * 64 + c.toNat % 64 =
            a.toNat * 65536 + b.toNat * 256 + c.toNat := by omega
      rw [hgroups, base64Encode]
      refine (decodeLoop_succ pre (by simp; omega)
        (sextet_char (n := a.toNat / 4) (by omega) byte_at)
        (sextet_char (n := a.toNat % 4 * 16 + b.toNat / 16) (by omega) byte_second)
        (sextet_char (n := b.toNat % 16 * 4 + c.toNat / 64) (by omega) byte_third)
        (sextet_char (n := c.toNat % 64) (by omega) byte_fourth)
        htriple (by omega)).trans ?_
      clear htriple
      generalize htriple : a.toNat * 65536 + b.toNat * 256 + c.toNat = triple
      have hfirst : emit outLen (triple / 65536) out = out ++ [a] :=
        emit_eq out _ (by omega) (by omega)
      have hsecond : emit outLen (triple / 256) (out ++ [a]) = out ++ [a] ++ [b] :=
        emit_eq _ _ (by simp; omega) (by omega)
      have hthird : emit outLen triple (out ++ [a] ++ [b]) = out ++ [a] ++ [b] ++ [c] :=
        emit_eq _ _ (by simp; omega) (by omega)
      rw [hfirst, hsecond, hthird]
      have hrest := ih (pre ++ [base64Char (a.toNat / 4),
        base64Char (a.toNat % 4 * 16 + b.toNat / 16), base64Char (b.toNat % 16 * 4 + c.toNat / 64),
        base64Char (c.toNat % 64)]) (out ++ [a] ++ [b] ++ [c]) (by simp; omega)
      simpa using hrest

/-- The last two characters tell how long the last group was. -/
theorem base64Encode_end {data : Bytes} (h : data ≠ []) :
    ∃ front x y, base64Encode data = front ++ [x, y] ∧
      (y.toNat = 61 ↔ data.length % 3 ≠ 0) ∧ (x.toNat = 61 ↔ data.length % 3 = 1) := by
  induction data using base64Encode.induct with
  | case1 => exact absurd rfl h
  | case2 a => exact ⟨[_, _], base64Pad, base64Pad, rfl, by simp [base64Pad], by simp [base64Pad]⟩
  | case3 a b =>
      have hb := b.toNat_lt
      exact ⟨[_, _], _, base64Pad, rfl, by simp [base64Pad],
        by simpa using base64Char_toNat (n := b.toNat % 16 * 4) (by omega)⟩
  | case4 a b c rest ih =>
      have hc := c.toNat_lt
      have hb := b.toNat_lt
      by_cases hrest : rest = []
      · subst hrest
        refine ⟨[_, _], _, _, rfl, ?_, ?_⟩
        · simpa using base64Char_toNat (n := c.toNat % 64) (by omega)
        · simpa using base64Char_toNat (n := b.toNat % 16 * 4 + c.toNat / 64) (by omega)
      · obtain ⟨front, x, y, heq, hy, hx⟩ := ih hrest
        refine ⟨_ :: _ :: _ :: _ :: front, x, y, by rw [base64Encode, heq]; rfl, ?_, ?_⟩
        · rw [hy]
          simp only [List.length_cons]
          omega
        · rw [hx]
          simp only [List.length_cons]
          omega

/-- What was encoded is decoded. -/
theorem Decode_base64Encode {data : Bytes} (h : data ≠ []) (hlen : data.length < 2 ^ 62) :
    Decode (base64Encode data) = .ok data := by
  obtain ⟨front, x, y, heq, hy, hx⟩ := base64Encode_end h
  have hlength := base64Encode_length data
  have hpos := List.length_pos_iff.mpr h
  have hfront : (base64Encode data).length = front.length + 2 := by simp [heq]
  have hlast : byte (base64Encode data) (sizeSub (base64Encode data).length 1) = .ok y.toNat := by
    rw [sizeSub_eq (by omega) (by omega), hfront, heq]
    exact byte_second
  have hbefore : byte (base64Encode data) (sizeSub (base64Encode data).length 2) =
      .ok x.toNat := by
    rw [sizeSub_eq (by omega) (by omega), hfront, heq]
    exact byte_at
  rw [Decode, if_neg (by omega), hlast]
  simp only [ok_bind, hbefore, hy, hx]
  have houtLen : (if data.length % 3 = 1 then
      sizeSub (if data.length % 3 ≠ 0 then
        sizeSub ((base64Encode data).length / 4 * 3) 1
        else (base64Encode data).length / 4 * 3) 1
      else if data.length % 3 ≠ 0 then
        sizeSub ((base64Encode data).length / 4 * 3) 1
        else (base64Encode data).length / 4 * 3) = data.length := by
    have hone : sizeSub ((base64Encode data).length / 4 * 3) 1 =
        (base64Encode data).length / 4 * 3 - 1 := sizeSub_eq (by omega) (by omega)
    rw [hone]
    split_ifs
    · rw [sizeSub_eq (by omega) (by omega)]
      omega
    all_goals omega
  rw [houtLen]
  exact decode_from [] [] (by simp)

/-- **The base64 of `Base64.hpp`.**  `Encode` returns exactly for strings of two bytes or more; it
returns what `cppcodec` returns, and `Decode` gives the string back. -/
theorem b64_round_trip {data : Bytes} (hlen : data.length < 2 ^ 62) :
    ((∃ s, Encode data = .ok s) ↔ 2 ≤ data.length) ∧
    ∀ s, Encode data = .ok s → s = base64Encode data ∧ Decode s = .ok data := by
  rw [Encode_eq (by omega)]
  split
  · rename_i htwo
    refine ⟨iff_of_true ⟨_, rfl⟩ htwo, fun s hs => ?_⟩
    cases hs
    exact ⟨rfl, Decode_base64Encode (List.length_pos_iff.mp (by omega)) hlen⟩
  · rename_i htwo
    exact ⟨iff_of_false nofun htwo, nofun⟩

/-- The public key of one side, there and back. -/
theorem b64_round_trip_key : ∃ s, Encode (List.replicate 32 255) = .ok s ∧
    Decode s = .ok (List.replicate 32 255) := by
  have h := b64_round_trip (show (List.replicate 32 (255 : UInt8)).length < 2 ^ 62 by simp)
  obtain ⟨s, hs⟩ := h.1.mpr (by simp)
  exact ⟨s, hs, (h.2 s hs).2⟩

end B64

end Wga

