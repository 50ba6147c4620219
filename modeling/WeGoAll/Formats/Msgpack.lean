import Mathlib.Data.Vector.Zip
import WeGoAll.Base.RpcId
import WeGoAll.Formats.Base64

/-!
# Formats — Msgpack

The msgpack format on the objects the program exchanges, a cache that evicts the oldest keys, and
a toy cipher: together libraries that meet every law the program relies on, so the laws are
consistent and a run can be computed.

The format is msgpack's on fixints, 64-bit integers, strings and maps below `2 ^ 32` entries; the
lengths msgpack cannot carry go behind the byte it leaves unused.

* `unpackAll_packAll`: a packed sequence of objects is unpacked to itself.
* `Libraries.standIn`: the libraries.
-/

namespace Wga.Format

/-! ### Lengths and integers -/

/-- The `k` low bytes of `n`, most significant first. -/
def bigEndian (k n : Nat) : Bytes := (littleEndian k n).reverse

def ofBigEndian (s : Bytes) : Nat := ofLittleEndian s.reverse

@[simp] theorem length_bigEndian (k n : Nat) : (bigEndian k n).length = k := by
  simp [bigEndian]

/-- A number that fits into `k` bytes is read back from them. -/
theorem ofBigEndian_bigEndian {k n : Nat} (h : n < 256 ^ k) : ofBigEndian (bigEndian k n) = n := by
  rw [ofBigEndian, bigEndian, List.reverse_reverse, ofLittleEndian_littleEndian,
    Nat.mod_eq_of_lt h]

/-- The first `n` bytes and the others; `none` when there are fewer. -/
def takeBytes (n : Nat) (s : Bytes) : Option (Bytes × Bytes) :=
  if s.length < n then none else some (s.take n, s.drop n)

/-- As many bytes as were put in front are taken. -/
theorem takeBytes_append (s rest : Bytes) : takeBytes s.length (s ++ rest) = some (s, rest) := by
  simp [takeBytes]

/-- The number in the next `k` bytes. -/
def takeNat (k : Nat) (s : Bytes) : Option (Nat × Bytes) :=
  (takeBytes k s).map fun (n, rest) => (ofBigEndian n, rest)

/-- A number put in front is taken. -/
theorem takeNat_bigEndian {k n : Nat} (h : n < 256 ^ k) (rest : Bytes) :
    takeNat k (bigEndian k n ++ rest) = some (n, rest) := by
  have ht := takeBytes_append (bigEndian k n) rest
  rw [length_bigEndian] at ht
  simp [takeNat, ht, ofBigEndian_bigEndian h]

/-- A length msgpack has no form for, in unary. -/
def takeUnary : Bytes → Option (Nat × Bytes)
  | [] => none
  | b :: rest => if b = 0 then some (0, rest) else (takeUnary rest).map fun (n, r) => (n + 1, r)

/-- A unary number ends at its zero. -/
theorem takeUnary_replicate (n : Nat) (rest : Bytes) :
    takeUnary (List.replicate n 1 ++ 0 :: rest) = some (n, rest) := by
  induction n with
  | zero => simp [takeUnary]
  | succ n ih => simp [List.replicate_succ, takeUnary, ih]

/-! ### Strings -/

/-- What stands before a string of length `n`: `fixstr`, `str 8`, `str 32`. -/
def strHeader (n : Nat) : Bytes :=
  if n < 32 then [UInt8.ofNat (0xa0 + n)]
  else if n < 256 then 0xd9 :: bigEndian 1 n
  else if n < 256 ^ 4 then 0xdb :: bigEndian 4 n
  else 0xc1 :: 0 :: (List.replicate n 1 ++ [0])

def packStr (s : Bytes) : Bytes := strHeader s.length ++ s

/-- The length of the string that starts with `b`. -/
def strLength (b : UInt8) (rest : Bytes) : Option (Nat × Bytes) :=
  if 0xa0 ≤ b ∧ b < 0xc0 then some (b.toNat - 0xa0, rest)
  else if b = 0xd9 then takeNat 1 rest
  else if b = 0xdb then takeNat 4 rest
  else if b = 0xc1 then
    match rest with
    | 0 :: rest => takeUnary rest
    | _ => none
  else none

def unpackStr : Bytes → Option (Bytes × Bytes)
  | [] => none
  | b :: rest => do
      let (n, rest) ← strLength b rest
      takeBytes n rest

theorem strHeader_spec (n : Nat) (rest : Bytes) :
    ∃ b t, strHeader n ++ rest = b :: t ∧ 0x90 ≤ b ∧ b < 0xe0 ∧ b ≠ 0xc0 ∧ b ≠ 0xcf ∧ b ≠ 0xd3 ∧
      b ≠ 0xdf ∧ (b = 0xc1 → t.head? = some 0) ∧ strLength b t = some (n, rest) := by
  unfold strHeader
  split_ifs with h₁ h₂ h₃
  · have key : ∀ n < 32, (0x90 : UInt8) ≤ UInt8.ofNat (0xa0 + n) ∧ UInt8.ofNat (0xa0 + n) < 0xe0 ∧
        UInt8.ofNat (0xa0 + n) ≠ 0xc0 ∧ UInt8.ofNat (0xa0 + n) ≠ 0xcf ∧
        UInt8.ofNat (0xa0 + n) ≠ 0xd3 ∧ UInt8.ofNat (0xa0 + n) ≠ 0xdf ∧
        UInt8.ofNat (0xa0 + n) ≠ 0xc1 ∧ 0xa0 ≤ UInt8.ofNat (0xa0 + n) ∧
        UInt8.ofNat (0xa0 + n) < 0xc0 ∧ (UInt8.ofNat (0xa0 + n)).toNat - 0xa0 = n := by
      decide +kernel
    obtain ⟨k₁, k₂, k₃, k₄, k₅, k₆, k₇, k₈, k₉, k₁₀⟩ := key n h₁
    exact ⟨_, rest, rfl, k₁, k₂, k₃, k₄, k₅, k₆, fun h => absurd h k₇,
      by simp only [strLength, k₈, k₉, and_self, if_true, k₁₀]⟩
  · refine ⟨0xd9, bigEndian 1 n ++ rest, rfl, by decide, by decide, by decide, by decide, by decide,
      by decide, fun h => absurd h (by decide), ?_⟩
    have hn : n < 256 ^ 1 := by omega
    simp [strLength, takeNat_bigEndian hn]
  · refine ⟨0xdb, bigEndian 4 n ++ rest, rfl, by decide, by decide, by decide, by decide, by decide,
      by decide, fun h => absurd h (by decide), ?_⟩
    simp [strLength, takeNat_bigEndian h₃]
  · refine ⟨0xc1, 0 :: (List.replicate n 1 ++ [0]) ++ rest, rfl, by decide, by decide, by decide,
      by decide, by decide, by decide, fun _ => rfl, ?_⟩
    have hu := takeUnary_replicate n rest
    simpa [strLength] using hu

/-- A packed string is unpacked, and what is behind it is left. -/
theorem unpackStr_packStr (s rest : Bytes) : unpackStr (packStr s ++ rest) = some (s, rest) := by
  rw [packStr, List.append_assoc]
  obtain ⟨b, t, hb, -, -, -, -, -, -, -, hl⟩ := strHeader_spec s.length (s ++ rest)
  simp [hb, unpackStr, hl, takeBytes_append]

/-! ### Maps -/

def packEntry (e : Bytes × Bytes) : Bytes := packStr e.1 ++ packStr e.2

def unpackEntries : Nat → Bytes → Option (List (Bytes × Bytes) × Bytes)
  | 0, s => some ([], s)
  | n + 1, s => do
      let (k, s) ← unpackStr s
      let (v, s) ← unpackStr s
      let (es, s) ← unpackEntries n s
      some ((k, v) :: es, s)

/-- So are the entries of a map. -/
theorem unpackEntries_packEntry (es : List (Bytes × Bytes)) (rest : Bytes) :
    unpackEntries es.length (es.flatMap packEntry ++ rest) = some (es, rest) := by
  induction es with
  | nil => rfl
  | cons e es ih =>
      simp only [List.flatMap_cons, List.length_cons, packEntry, List.append_assoc, unpackEntries]
      simp only [unpackStr_packStr, Option.bind_eq_bind, Option.bind_some]
      have ih' : unpackEntries es.length (es.flatMap packEntry ++ rest) = some (es, rest) := ih
      simp [ih']

/-- What stands before a map of `n` entries: `fixmap`, `map 32`. -/
def mapHeader (n : Nat) : Bytes :=
  if n < 16 then [UInt8.ofNat (0x80 + n)]
  else if n < 256 ^ 4 then 0xdf :: bigEndian 4 n
  else 0xc1 :: 1 :: (List.replicate n 1 ++ [0])

/-! ### Objects -/

def packObject : MsgObject → Bytes
  | .integer v =>
      if 0 ≤ v.val then
        if v.val < 128 then [UInt8.ofNat v.val.toNat] else 0xcf :: bigEndian 8 v.val.toNat
      else if -32 ≤ v.val then [UInt8.ofNat (256 + v.val).toNat]
      else 0xd3 :: bigEndian 8 (v.val + 2 ^ 64).toNat
  | .str s => packStr s
  | .map es => mapHeader es.length ++ es.flatMap packEntry
  | .other => [0xc0]

/-- The integer object of a number, if msgpack can carry it. -/
def integerObject (v : Int) : Option MsgObject :=
  if h : -2 ^ 63 ≤ v ∧ v < 2 ^ 64 then some (.integer ⟨v, h.1, h.2⟩) else none

/-- What is in the range of an integer is one. -/
theorem integerObject_val (v : WireInteger) : integerObject v.val = some (.integer v) := by
  have h : -2 ^ 63 ≤ v.val ∧ v.val < 2 ^ 64 := ⟨v.lower, v.upper⟩
  simp only [integerObject, h, and_self, dif_pos]

/-- An integer in eight bytes; `value` is the one their number stands for. -/
def takeInteger (value : Nat → Int) (s : Bytes) : Option (MsgObject × Bytes) :=
  (takeNat 8 s).bind fun p => (integerObject (value p.1)).map (·, p.2)

/-- An integer of eight bytes. -/
theorem takeInteger_bigEndian (value : Nat → Int) {n : Nat} (v : WireInteger)
    (hn : n < 2 ^ 64) (hv : value n = v.val) (rest : Bytes) :
    takeInteger value (bigEndian 8 n ++ rest) = some (.integer v, rest) := by
  rw [takeInteger, takeNat_bigEndian (by omega), Option.bind_some, hv, integerObject_val]
  rfl

/-- The first object of a string, and the rest. -/
def unpackObject : Bytes → Option (MsgObject × Bytes)
  | [] => none
  | b :: rest =>
      if b < 0x80 then (integerObject b.toNat).map (·, rest)
      else if 0xe0 ≤ b then (integerObject (b.toNat - 256)).map (·, rest)
      else if b = 0xcf then takeInteger (fun n => n) rest
      else if b = 0xd3 then takeInteger (fun n => n - 2 ^ 64) rest
      else if b = 0xc0 then some (.other, rest)
      else if b < 0x90 then do
        let (es, rest) ← unpackEntries (b.toNat - 0x80) rest
        some (.map es, rest)
      else if b = 0xdf then do
        let (n, rest) ← takeNat 4 rest
        let (es, rest) ← unpackEntries n rest
        some (.map es, rest)
      else if b = 0xc1 ∧ rest.head? = some 1 then do
        let (n, rest) ← takeUnary rest.tail
        let (es, rest) ← unpackEntries n rest
        some (.map es, rest)
      else (unpackStr (b :: rest)).map fun (s, rest) => (.str s, rest)

theorem unpackObject_str (s rest : Bytes) :
    unpackObject (packStr s ++ rest) = some (.str s, rest) := by
  have hs := unpackStr_packStr s rest
  obtain ⟨b, t, hb, h₁, h₂, h₃, h₄, h₅, h₆, h₇, -⟩ := strHeader_spec s.length (s ++ rest)
  rw [packStr, List.append_assoc, hb] at hs ⊢
  have k₁ : ¬ b < 0x80 := fun h => by
    rw [UInt8.lt_iff_toNat_lt] at h
    rw [UInt8.le_iff_toNat_le] at h₁
    simp at h h₁
    omega
  have k₂ : ¬ 0xe0 ≤ b := UInt8.not_le.mpr h₂
  have k₃ : ¬ b < 0x90 := UInt8.not_lt.mpr h₁
  have k₄ : ¬ (b = 0xc1 ∧ t.head? = some 1) := fun ⟨hc, ht⟩ => by
    rw [h₇ hc] at ht
    exact absurd ht (by decide)
  simp only [unpackObject, k₁, k₂, k₃, k₄, h₃, h₄, h₅, h₆, if_false, hs, Option.map_some]

theorem unpackObject_integer (v : WireInteger) (rest : Bytes) :
    unpackObject (packObject (.integer v) ++ rest) = some (.integer v, rest) := by
  have hv := integerObject_val v
  have hl := v.lower
  have hu := v.upper
  simp only [packObject]
  split_ifs with h₀ h₁ h₂
  · have hn : v.val.toNat < 128 := by omega
    have k₂ : (UInt8.ofNat v.val.toNat).toNat = v.val.toNat :=
      UInt8.toNat_ofNat_of_lt' (hn.trans (by decide))
    have k₁ : UInt8.ofNat v.val.toNat < 0x80 := UInt8.lt_iff_toNat_lt.mpr (by rw [k₂]; exact hn)
    have hi : ((UInt8.ofNat v.val.toNat).toNat : Int) = v.val := by rw [k₂]; omega
    simp only [List.singleton_append, unpackObject, k₁, if_true, hi, hv, Option.map_some]
  · have ht := takeInteger_bigEndian (fun n => n) (n := v.val.toNat) v (by omega)
      (by omega) rest
    simp only [List.cons_append, unpackObject, ht]
    simp
  · have hn : 224 ≤ (256 + v.val).toNat ∧ (256 + v.val).toNat < 256 := by omega
    have k₃ : (UInt8.ofNat (256 + v.val).toNat).toNat = (256 + v.val).toNat :=
      UInt8.toNat_ofNat_of_lt' hn.2
    have k₂ : 0xe0 ≤ UInt8.ofNat (256 + v.val).toNat :=
      UInt8.le_iff_toNat_le.mpr (by rw [k₃]; exact hn.1)
    have k₁ : ¬ UInt8.ofNat (256 + v.val).toNat < 0x80 := fun h => by
      have := UInt8.lt_iff_toNat_lt.mp h
      rw [k₃] at this
      exact absurd (hn.1.trans_lt this) (by decide)
    have hi : ((UInt8.ofNat (256 + v.val).toNat).toNat : Int) - 256 = v.val := by rw [k₃]; omega
    simp only [List.singleton_append, unpackObject, k₁, k₂, if_true, if_false, hi, hv,
      Option.map_some]
  · have ht := takeInteger_bigEndian (fun n => n - 2 ^ 64) (n := (v.val + 2 ^ 64).toNat) v
      (by omega) (by omega) rest
    simp only [List.cons_append, unpackObject, ht]
    simp

theorem unpackObject_map (es : List (Bytes × Bytes)) (rest : Bytes) :
    unpackObject (packObject (.map es) ++ rest) = some (.map es, rest) := by
  have he := unpackEntries_packEntry es rest
  simp only [packObject, mapHeader]
  split_ifs with h₁ h₂
  · have key : ∀ n < 16, ¬ UInt8.ofNat (0x80 + n) < 0x80 ∧ ¬ 0xe0 ≤ UInt8.ofNat (0x80 + n) ∧
        UInt8.ofNat (0x80 + n) ≠ 0xcf ∧ UInt8.ofNat (0x80 + n) ≠ 0xd3 ∧
        UInt8.ofNat (0x80 + n) ≠ 0xc0 ∧ UInt8.ofNat (0x80 + n) < 0x90 ∧
        (UInt8.ofNat (0x80 + n)).toNat - 0x80 = n := by decide +kernel
    obtain ⟨k₁, k₂, k₃, k₄, k₅, k₆, k₇⟩ := key _ h₁
    simp only [List.cons_append, List.nil_append, unpackObject, k₁, k₂, k₃, k₄, k₅, k₆, k₇,
      if_true, if_false, he, Option.bind_eq_bind, Option.bind_some]
  · have ht := takeNat_bigEndian h₂ (es.flatMap packEntry ++ rest)
    simp [unpackObject, ht, he]
  · have ht := takeUnary_replicate es.length (es.flatMap packEntry ++ rest)
    have ht' : takeUnary (List.replicate es.length 1 ++ 0 :: (es.flatMap packEntry ++ rest)) =
      some (es.length, es.flatMap packEntry ++ rest) := ht
    simp [unpackObject, ht', he]

/-- A packed object is unpacked, and what is behind it is left. -/
theorem unpackObject_packObject (o : MsgObject) (rest : Bytes) :
    unpackObject (packObject o ++ rest) = some (o, rest) := by
  cases o with
  | integer v => exact unpackObject_integer v rest
  | str s => exact unpackObject_str s rest
  | map es => exact unpackObject_map es rest
  | other => rfl

/-! ### Sequences of objects -/

/-- What a writer has packed. -/
def packAll (objects : List MsgObject) : Bytes := objects.flatMap packObject

/-- Unpacks objects until the string ends; each takes a byte or more, so the length of the string
is `fuel` enough. -/
def unpackLoop : Nat → Bytes → Unpacked
  | _, [] => ⟨[], .finished⟩
  | 0, _ => ⟨[], .truncated⟩
  | fuel + 1, b :: s =>
      match unpackObject (b :: s) with
      | some (o, rest) =>
          let later := unpackLoop fuel rest
          ⟨o :: later.objects, later.ending⟩
      | none => ⟨[], if b = 0xc1 then .malformed else .truncated⟩

def unpackAll (s : Bytes) : Unpacked := unpackLoop s.length s

/-- An object takes a byte or more. -/
theorem packObject_ne_nil (o : MsgObject) : packObject o ≠ [] := fun h => by
  have ho := unpackObject_packObject o []
  rw [h] at ho
  cases ho

/-- The loop reads every object, and then is finished. -/
theorem unpackLoop_packAll (objects : List MsgObject) {fuel : Nat}
    (h : objects.length ≤ fuel) :
    unpackLoop fuel (packAll objects) = ⟨objects, .finished⟩ := by
  induction objects generalizing fuel with
  | nil => cases fuel <;> rfl
  | cons o objects ih =>
      cases fuel with
      | zero => simp at h
      | succ fuel =>
          have ho := unpackObject_packObject o (packAll objects)
          have hp : packAll (o :: objects) = packObject o ++ packAll objects := rfl
          obtain ⟨b, t, hb⟩ := List.exists_cons_of_ne_nil (packObject_ne_nil o)
          rw [hp]
          rw [hb, List.cons_append] at ho ⊢
          rw [unpackLoop, ho]
          simp only [ih (Nat.le_of_succ_le_succ h)]

/-- There are no more objects than bytes. -/
theorem length_le_packAll (objects : List MsgObject) :
    objects.length ≤ (packAll objects).length := by
  induction objects with
  | nil => simp
  | cons o objects ih =>
      have ho := List.length_pos_of_ne_nil (packObject_ne_nil o)
      have hp : packAll (o :: objects) = packObject o ++ packAll objects := rfl
      rw [hp, List.length_append, List.length_cons]
      omega

/-- **Unpacking what was packed.** -/
theorem unpackAll_packAll (objects : List MsgObject) :
    unpackAll (packAll objects) = ⟨objects, .finished⟩ :=
  unpackLoop_packAll objects (length_le_packAll objects)

/-! ### The toy cipher -/

/-- The authenticator of a box or of a secret box: half of the key. -/
def authenticator (key : SessionKey) : ByteArr 16 := ⟨key.toList.take 16, by simp⟩

/-- What the two sides of a box share. -/
def sharedKey (p : PublicKey) (s : PrivateKey) : SessionKey :=
  List.Vector.zipWith (fun a b => a ^^^ b) p s

theorem sharedKey_comm (a b : PrivateKey) : sharedKey a b = sharedKey b a := by
  refine List.Vector.ext fun i => ?_
  simp only [sharedKey, List.Vector.zipWith_get, UInt8.xor_comm]

end Wga.Format

namespace Wga

open Format

/-- Libraries that meet the laws. -/
def Libraries.standIn : Libraries where
  pack := packAll
  unpack := unpackAll
  unpack_pack := unpackAll_packAll
  encode := base64Encode
  decode := base64Decode
  decode_encode := base64Decode_base64Encode
  scalarmultBase s := s
  box m _ p s := authenticator (sharedKey p s) ++ m
  boxOpen c _ p s :=
    if c.toList.take 16 = (authenticator (sharedKey p s)).toList then some (c.drop 16) else none
  secretbox m _ k := (authenticator k).toList ++ m
  secretboxOpen c _ k :=
    if c.take 16 = (authenticator k).toList then some (c.drop 16) else none
  boxOpen_box m n s r := by
    have hc : (authenticator (sharedKey r s) ++ m).toList =
        (authenticator (sharedKey r s)).toList ++ m.toList := rfl
    rw [hc, List.take_left' (by simp), if_pos (by rw [sharedKey_comm])]
    refine congrArg some (List.Vector.eq _ _ ?_)
    rw [List.Vector.toList_drop, hc]
    exact List.drop_left' (by simp)
  secretboxOpen_secretbox m n k := by simp
  secretbox_length m n k := by simp; omega
  evict n keys := keys.take n
  evict_subset n keys := List.take_subset n keys
  evict_length_le n keys := by simp
  evict_of_length_le n keys h := List.take_of_length_le h

end Wga
