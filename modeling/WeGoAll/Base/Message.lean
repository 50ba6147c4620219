import WeGoAll.Base.RpcId

/-!
# Base — Message

`MessageReader` and `MessageWriter`.  A loaded message is the list of objects its unpacker will
yield and the way it ends; a written one is the list of objects packed so far.  Reading fails as
the source does: an exception when no object comes, when it is of the wrong type, or when a class
is not of its size.
-/

namespace Wga

/-! ### Objects the program writes -/

/-- `writePrimitive<int64_t>`. -/
def MsgObject.int64 (v : Int) : MsgObject := .integer (.ofInt64 v)

/-- `writePrimitive<unsigned char>`. -/
def MsgObject.byte (v : UInt8) : MsgObject :=
  .integer ⟨v.toNat, by omega, by have := v.toNat_lt; omega⟩

/-- `writeClass<RpcId>`. -/
def MsgObject.rpcId (id : RpcId) : MsgObject := .str id.memory

/-! ### `MessageReader` -/

/-- A reader: what is left of the loaded message. -/
abbrev MessageReader := Unpacked

namespace MessageReader

/-- `load`. -/
def load (M : Msgpack) (s : Bytes) : MessageReader := M.unpack s

/-- `unpackHandler.next`: `none` when the bytes left hold no whole object. -/
def next (r : MessageReader) : Except Fault (Option (MsgObject × MessageReader)) :=
  match r.objects, r.ending with
  | o :: rest, ending => .ok (some (o, ⟨rest, ending⟩))
  | [], .malformed => .error (.thrown "msgpack::parse_error")
  | [], _ => .ok none

/-- `readPrimitive<T>`; `convert` is msgpack's conversion to `T`, `none` where it throws. -/
def readPrimitive {α : Type} (convert : MsgObject → Option α) (r : MessageReader) :
    Except Fault (α × MessageReader) := do
  match ← r.next with
  | none => .error (.thrown "Read failed")
  | some (o, r) =>
      match convert o with
      | none => .error (.thrown "msgpack::type_error")
      | some a => .ok (a, r)

/-- The conversion to `unsigned char`, which throws beyond a byte. -/
def toUnsignedChar : MsgObject → Option UInt8
  | .integer v => if 0 ≤ v.val ∧ v.val < 256 then some (UInt8.ofNat v.val.toNat) else none
  | _ => none

/-- The conversion to `int64_t`, which throws from `2 ^ 63` on. -/
def toInt64 : MsgObject → Option Int
  | .integer v => if v.val < 2 ^ 63 then some v.val else none
  | _ => none

def toString : MsgObject → Option Bytes
  | .str s => some s
  | _ => none

def toMap : MsgObject → Option (List (Bytes × Bytes))
  | .map entries => some entries
  | _ => none

/-- `readPrimitive<unsigned char>`. -/
def readUnsignedChar (r : MessageReader) : Except Fault (UInt8 × MessageReader) :=
  r.readPrimitive toUnsignedChar

/-- `readPrimitive<int64_t>`. -/
def readInt64 (r : MessageReader) : Except Fault (Int × MessageReader) :=
  r.readPrimitive toInt64

/-- `readPrimitive<string>`. -/
def readString (r : MessageReader) : Except Fault (Bytes × MessageReader) :=
  r.readPrimitive toString

/-- `readMap`: here a missing object is fatal, not an exception. -/
def readMap (r : MessageReader) : Except Fault (List (Bytes × Bytes) × MessageReader) := do
  match ← r.next with
  | none => .error (.fatal "Error: ")
  | some (o, r) =>
      match toMap o with
      | none => .error (.thrown "msgpack::type_error")
      | some m => .ok (m, r)

/-- `readClass<RpcId>`. -/
def readRpcId (r : MessageReader) : Except Fault (RpcId × MessageReader) := do
  let (s, r) ← r.readString
  if s.length ≠ 16 then .error (.thrown "Invalid Class Size")
  else .ok (RpcId.ofMemory s, r)

/-- Whether `sizeRemaining()` is not zero. -/
def sizeRemaining (r : MessageReader) : Bool :=
  !(r.objects.isEmpty && r.ending = .finished)

/-! ### Reading what was written -/

@[simp] theorem load_pack (M : Msgpack) (objects : List MsgObject) :
    load M (M.pack objects) = ⟨objects, .finished⟩ := M.unpack_pack objects

@[simp] theorem readUnsignedChar_byte (v : UInt8) (rest : List MsgObject) (ending : Ending) :
    readUnsignedChar ⟨.byte v :: rest, ending⟩ = .ok (v, ⟨rest, ending⟩) := by
  have hv : (0 : Int) ≤ v.toNat ∧ (v.toNat : Int) < 256 := by have := v.toNat_lt; omega
  simp [readUnsignedChar, readPrimitive, next, toUnsignedChar, MsgObject.byte, hv, bind,
    Except.bind]

@[simp] theorem readString_str (s : Bytes) (rest : List MsgObject) (ending : Ending) :
    readString ⟨.str s :: rest, ending⟩ = .ok (s, ⟨rest, ending⟩) := rfl

@[simp] theorem readRpcId_rpcId (id : RpcId) (rest : List MsgObject) (ending : Ending) :
    readRpcId ⟨.rpcId id :: rest, ending⟩ = .ok (id, ⟨rest, ending⟩) := by
  simp [readRpcId, MsgObject.rpcId, bind, Except.bind]

/-- An `int64_t` comes back as the value it was stored as. -/
@[simp] theorem readInt64_int64 (v : Int) (rest : List MsgObject) (ending : Ending) :
    readInt64 ⟨.int64 v :: rest, ending⟩ = .ok (v.bmod (2 ^ 64), ⟨rest, ending⟩) := by
  have h : v.bmod (2 ^ 64) < 2 ^ 63 := by
    have := Int.bmod_lt (x := v) (m := 2 ^ 64) (by decide); omega
  simp only [readInt64, readPrimitive, next, MsgObject.int64, bind, Except.bind, toInt64,
    WireInteger.ofInt64, h, if_true]

@[simp] theorem readMap_map (m : List (Bytes × Bytes)) (rest : List MsgObject) (ending : Ending) :
    readMap ⟨.map m :: rest, ending⟩ = .ok (m, ⟨rest, ending⟩) := rfl

@[simp] theorem sizeRemaining_nil : sizeRemaining ⟨[], .finished⟩ = false := rfl

@[simp] theorem sizeRemaining_cons (o : MsgObject) (rest : List MsgObject) (ending : Ending) :
    sizeRemaining ⟨o :: rest, ending⟩ = true := rfl

end MessageReader

end Wga
