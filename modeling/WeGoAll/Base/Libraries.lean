import Mathlib.Data.List.AList
import Mathlib.Data.Vector.Basic

/-!
# Base — Libraries

What the program takes from outside its own tree: msgpack, base64, libsodium and the cache
class.  None of it is in the repository, so it enters as the parameter `Libraries`, one field
per function the program calls and one per documented fact the program relies on.

* `MsgObject`, `Unpacked`: what a `msgpack::unpacker` yields on a byte string, object by object,
  and how it ends.
* `Libraries`: the functions with their laws; every definition that needs one takes it as `L`.
-/

namespace Wga

/-- The bytes of a `std::string`. -/
abbrev Bytes := List UInt8

/-- The bytes of an ASCII literal. -/
def ascii (s : List Char) : Bytes := s.map fun c => UInt8.ofNat c.toNat

/-- How a call ends the process instead of returning. -/
inductive Fault where
  /-- `LOGFATAL` or `LOG(FATAL)`: the process aborts. -/
  | fatal (text : String)
  /-- An exception leaves the function. -/
  | thrown (what : String)
  deriving DecidableEq, Repr

/-- `unordered_map`; the order of `entries` is the iteration order. -/
abbrev UnorderedMap (κ ν : Type) := AList fun _ : κ => ν

namespace UnorderedMap

variable {κ ν : Type} [DecidableEq κ]

/-- `emplace` and `insert`: an existing entry is kept. -/
def emplace (k : κ) (v : ν) (m : UnorderedMap κ ν) : UnorderedMap κ ν :=
  if k ∈ m then m else m.insert k v

omit [DecidableEq κ] in
theorem entries_eq_nil {m : UnorderedMap κ ν} : m.entries = [] ↔ ∀ k, k ∉ m := by
  simp only [AList.mem_keys, AList.keys, List.keys]
  constructor
  · intro h k
    simp [h]
  · intro h
    cases he : m.entries with
    | nil => rfl
    | cons a l => exact absurd (by simp [he]) (h a.1)

/-- The first entry of a map is one of its entries. -/
theorem lookup_of_head {m : UnorderedMap κ ν} {e : Σ _ : κ, ν} (h : e ∈ m.entries.head?) :
    m.lookup e.1 = some e.2 :=
  AList.mem_lookup_iff.mpr (List.mem_of_mem_head? h)

theorem mem_of_head {m : UnorderedMap κ ν} {e : Σ _ : κ, ν} (h : e ∈ m.entries.head?) :
    e.1 ∈ m :=
  AList.lookup_isSome.mp (Option.isSome_of_eq_some (lookup_of_head h))

/-- An entry that is erased is one fewer. -/
theorem length_erase {m : UnorderedMap κ ν} {k : κ} (h : k ∈ m) :
    (m.erase k).entries.length + 1 = m.entries.length := by
  have hkeys : ∀ m : UnorderedMap κ ν, m.entries.length = m.keys.length := fun m => by
    rw [AList.keys, List.keys, List.length_map]
  rw [hkeys, hkeys, AList.keys_erase, List.length_erase_of_mem (AList.mem_keys.mp h)]
  exact Nat.sub_add_cancel (List.length_pos_of_mem (AList.mem_keys.mp h))

end UnorderedMap

/-! ### msgpack -/

/-- An integer msgpack can carry: an `int64_t` or a `uint64_t`. -/
structure WireInteger where
  val : Int
  lower : -2 ^ 63 ≤ val
  upper : val < 2 ^ 64
  deriving DecidableEq

/-- The value an `int64_t` holds after `v` is stored into it. -/
def WireInteger.ofInt64 (v : Int) : WireInteger where
  val := v.bmod (2 ^ 64)
  lower := by have := Int.le_bmod (x := v) (m := 2 ^ 64) (by decide); omega
  upper := by have := Int.bmod_lt (x := v) (m := 2 ^ 64) (by decide); omega

theorem WireInteger.ofInt64_val {v : Int} (h₁ : -2 ^ 63 ≤ v) (h₂ : v < 2 ^ 63) :
    (ofInt64 v).val = v := by
  simp only [ofInt64]
  exact Int.bmod_eq_of_le (by omega) (by omega)

/-- A msgpack object, as far as the readers of the program tell objects apart. -/
inductive MsgObject where
  | integer (v : WireInteger)
  /-- A string or binary object. -/
  | str (s : Bytes)
  /-- A map from strings to strings. -/
  | map (entries : List (Bytes × Bytes))
  /-- Any other object; no reader of the program converts it. -/
  | other
  deriving DecidableEq

/-- What stops `unpacker::next` after the last object it yields. -/
inductive Ending where
  /-- No byte is left. -/
  | finished
  /-- The bytes left start an object and break off. -/
  | truncated
  /-- The bytes left start no object: `next` throws. -/
  | malformed
  deriving DecidableEq

/-- The objects `unpacker::next` yields on a byte string, and how the string ends. -/
structure Unpacked where
  objects : List MsgObject
  ending : Ending
  deriving DecidableEq

/-- msgpack's packer and unpacker. -/
structure Msgpack where
  pack : List MsgObject → Bytes
  unpack : Bytes → Unpacked
  /-- A written sequence of values is read back. -/
  unpack_pack : ∀ objects, unpack (pack objects) = ⟨objects, .finished⟩

/-! ### base64 -/

/-- cppcodec's base64; `decode` is `none` where it throws. -/
structure Base64 where
  encode : Bytes → Bytes
  decode : Bytes → Option Bytes
  decode_encode : ∀ b, decode (encode b) = some b

/-! ### libsodium -/

/-- `array<uint8_t, n>`. -/
abbrev ByteArr (n : Nat) := List.Vector UInt8 n

abbrev Nonce := ByteArr 24
abbrev SessionKey := ByteArr 32
abbrev PublicKey := ByteArr 32
abbrev PrivateKey := ByteArr 32

/-- A session key as it travels: nonce, authenticator and encrypted key. -/
abbrev EncryptedSessionKey := ByteArr 72

/-- `crypto_box` on session keys and `crypto_secretbox` on strings; opening is partial. -/
structure Sodium where
  scalarmultBase : PrivateKey → PublicKey
  box : SessionKey → Nonce → PublicKey → PrivateKey → ByteArr 48
  boxOpen : ByteArr 48 → Nonce → PublicKey → PrivateKey → Option SessionKey
  secretbox : Bytes → Nonce → SessionKey → Bytes
  secretboxOpen : Bytes → Nonce → SessionKey → Option Bytes
  boxOpen_box : ∀ m n s r,
    boxOpen (box m n (scalarmultBase r) s) n (scalarmultBase s) r = some m
  secretboxOpen_secretbox : ∀ m n k, secretboxOpen (secretbox m n k) n k = some m
  /-- The authenticator is `crypto_secretbox_MACBYTES` long. -/
  secretbox_length : ∀ m n k, (secretbox m n k).length = m.length + 16

/-! ### The cache -/

/-- `lru_cache`, seen through its keys: `evict n` is what inserting leaves of a list of keys,
newest first, in a cache of capacity `n`. -/
structure LruPolicy where
  evict : {κ : Type} → Nat → List κ → List κ
  evict_subset : ∀ {κ : Type} (n : Nat) (keys : List κ), evict n keys ⊆ keys
  evict_length_le : ∀ {κ : Type} (n : Nat) (keys : List κ), (evict n keys).length ≤ keys.length
  /-- Nothing is evicted within the capacity. -/
  evict_of_length_le : ∀ {κ : Type} (n : Nat) (keys : List κ), keys.length ≤ n →
    evict n keys = keys

/-- Everything the program takes from outside. -/
structure Libraries extends Msgpack, Base64, Sodium, LruPolicy

/-- The keys of an `lru_cache<K, bool>`, newest first. -/
structure LruCache (κ : Type) where
  keys : List κ

namespace LruCache

variable {κ : Type} [DecidableEq κ]

def empty : LruCache κ := ⟨[]⟩

/-- `exists`. -/
def contains (c : LruCache κ) (k : κ) : Bool := k ∈ c.keys

/-- `put`, on a cache built with capacity `n`. -/
def put (P : LruPolicy) (n : Nat) (k : κ) (c : LruCache κ) : LruCache κ :=
  ⟨P.evict n (k :: c.keys.erase k)⟩

@[simp] theorem contains_iff {c : LruCache κ} {k : κ} : c.contains k = true ↔ k ∈ c.keys := by
  simp [contains]

omit [DecidableEq κ] in
@[simp] theorem keys_empty : (empty : LruCache κ).keys = [] := rfl

/-- A `put` adds no key but its own. -/
theorem mem_put {P : LruPolicy} {n : Nat} {k a : κ} {c : LruCache κ} (h : a ∈ (c.put P n k).keys) :
    a = k ∨ a ∈ c.keys := by
  have h' : a ∈ k :: c.keys.erase k := P.evict_subset n _ h
  rcases List.mem_cons.mp h' with rfl | h'
  · exact Or.inl rfl
  · exact Or.inr (List.mem_of_mem_erase h')

/-- A `put` below the capacity forgets nothing. -/
theorem mem_put_of_length_lt {P : LruPolicy} {n : Nat} {k a : κ} {c : LruCache κ}
    (hn : c.keys.length < n) : a ∈ (c.put P n k).keys ↔ a = k ∨ a ∈ c.keys := by
  refine ⟨mem_put, fun h => ?_⟩
  have hle : (k :: c.keys.erase k).length ≤ n := by
    have := List.length_erase_le (a := k) (l := c.keys)
    simp only [List.length_cons]
    omega
  simp only [put, P.evict_of_length_le n _ hle, List.mem_cons]
  rcases h with rfl | h
  · exact Or.inl rfl
  · by_cases e : a = k
    · exact Or.inl e
    · exact Or.inr ((List.mem_erase_of_ne e).mpr h)

theorem length_put_le {P : LruPolicy} {n : Nat} {k : κ} {c : LruCache κ} :
    (c.put P n k).keys.length ≤ c.keys.length + 1 := by
  refine (P.evict_length_le n _).trans ?_
  have := List.length_erase_le (a := k) (l := c.keys)
  simp only [List.length_cons]
  omega

end LruCache

end Wga
