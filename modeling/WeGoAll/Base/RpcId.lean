import WeGoAll.Base.Libraries

/-!
# Base — RpcId

The identifier of a request: the barrier it was issued under and the half of a uuid.  A class is
written to the wire as its memory, so the memory image and its inverse are here too.
-/

namespace Wga

/-- `RpcId`. -/
structure RpcId where
  barrier : Int64
  id : UInt64
  deriving DecidableEq, Repr

/-- `SESSION_KEY_RPCID`. -/
def SESSION_KEY_RPCID : RpcId := ⟨0, 1⟩

/-- An identifier and the payload that goes with it. -/
structure IdPayload where
  id : RpcId
  payload : Bytes
  deriving DecidableEq

/-- The `k` low bytes of `n`, least significant first. -/
def littleEndian : Nat → Nat → Bytes
  | 0, _ => []
  | k + 1, n => UInt8.ofNat n :: littleEndian k (n / 256)

def ofLittleEndian : Bytes → Nat
  | [] => 0
  | b :: bs => b.toNat + 256 * ofLittleEndian bs

@[simp] theorem length_littleEndian (k n : Nat) : (littleEndian k n).length = k := by
  induction k generalizing n with
  | zero => rfl
  | succ k ih => simp [littleEndian, ih]

theorem ofLittleEndian_littleEndian (k n : Nat) :
    ofLittleEndian (littleEndian k n) = n % 256 ^ k := by
  induction k generalizing n with
  | zero => simp [littleEndian, ofLittleEndian, Nat.mod_one]
  | succ k ih =>
      have hb : (UInt8.ofNat n).toNat = n % 256 := by simp
      rw [littleEndian, ofLittleEndian, ih, hb, Nat.pow_succ', Nat.mod_mul]

namespace RpcId

/-- The sixteen bytes of an identifier in memory. -/
def memory (r : RpcId) : Bytes :=
  littleEndian 8 r.barrier.toUInt64.toNat ++ littleEndian 8 r.id.toNat

/-- The identifier sixteen bytes are copied into. -/
def ofMemory (s : Bytes) : RpcId where
  barrier := (UInt64.ofNat (ofLittleEndian (s.take 8))).toInt64
  id := UInt64.ofNat (ofLittleEndian (s.drop 8))

@[simp] theorem length_memory (r : RpcId) : r.memory.length = 16 := by
  simp [memory]

private theorem ofNat_littleEndian (x : UInt64) :
    UInt64.ofNat (ofLittleEndian (littleEndian 8 x.toNat)) = x := by
  rw [ofLittleEndian_littleEndian, Nat.mod_eq_of_lt (by have := x.toNat_lt; omega)]
  exact UInt64.ofNat_toNat

/-- An identifier read from its own memory is itself. -/
@[simp] theorem ofMemory_memory (r : RpcId) : ofMemory r.memory = r := by
  have h : (littleEndian 8 r.barrier.toUInt64.toNat).length = 8 := length_littleEndian _ _
  simp only [ofMemory, memory, List.take_left' h, List.drop_left' h, ofNat_littleEndian,
    Int64.toInt64_toUInt64]

end RpcId

end Wga
