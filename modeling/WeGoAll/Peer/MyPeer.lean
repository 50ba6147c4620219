import WeGoAll.Base.ChronoMap
import WeGoAll.Base.Message

/-!
# Peer — MyPeer

How a peer records its inputs and broadcasts what changed, and what the update loop of another
peer does with a broadcast.
-/

namespace Wga

def INPUT_SEND_WINDOW_SIZE : Nat := 3

/-- The members of `MyPeer` that `updateState` reads and writes. -/
structure MyInputs where
  /-- `myData->playerInputData`. -/
  playerInputData : ChronoMap Bytes Bytes
  lastSendBuffer : List (Block Bytes Bytes)

namespace MyPeer

/-- The members of a peer that has no inputs yet. -/
def noInputs : MyInputs := ⟨.new, []⟩

/-- The objects of one block in a broadcast. -/
def blockObjects (b : Block Bytes Bytes) : List MsgObject :=
  [.int64 b.startTime, .int64 b.endTime, .map (b.data.entries.map fun e => (e.1, e.2))]

/-- The blocks a broadcast carries: the buffer, and its last block again until there are enough. -/
def window (lastSendBuffer : List (Block Bytes Bytes)) : List (Block Bytes Bytes) :=
  match lastSendBuffer.getLast? with
  | none => []
  | some back =>
      lastSendBuffer ++ List.replicate (INPUT_SEND_WINDOW_SIZE - lastSendBuffer.length) back

/-- `updateState`, with the string given to `broadcast`. -/
def updateState (L : Libraries) (timestamp : Int) (data : UnorderedMap Bytes Bytes)
    (self : MyInputs) : Except Fault (Bytes × MyInputs) := do
  let lastExpirationTime := self.playerInputData.expirationTime
  let changedData := self.playerInputData.getChanges data
  let playerInputData ← self.playerInputData.put lastExpirationTime timestamp changedData
  let lastSendBuffer := self.lastSendBuffer ++ [⟨lastExpirationTime, timestamp, changedData⟩]
  -- pops from the front while there are more than the window holds
  let lastSendBuffer := lastSendBuffer.drop (lastSendBuffer.length - INPUT_SEND_WINDOW_SIZE)
  .ok (L.pack ((window lastSendBuffer).flatMap blockObjects), ⟨playerInputData, lastSendBuffer⟩)

/-- The `unordered_map` a msgpack map is converted to. -/
def toUnorderedMap (entries : List (Bytes × Bytes)) : UnorderedMap Bytes Bytes :=
  entries.foldl (fun m e => m.insert e.1 e.2) ∅

/-- The loop of `update` over the blocks of one request. -/
def readBlocks :
    Nat → MessageReader → ChronoMap Bytes Bytes → Except Fault (ChronoMap Bytes Bytes)
  | 0, _, playerInputData => .ok playerInputData
  | n + 1, reader, playerInputData => do
      let (startTime, reader) ← reader.readInt64
      let (endTime, reader) ← reader.readInt64
      let (m, reader) ← reader.readMap
      let playerInputData ← playerInputData.put startTime endTime (toUnorderedMap m)
      readBlocks n reader playerInputData

/-- What `update` does with the payload of an incoming request. -/
def readInputs (L : Libraries) (payload : Bytes) (playerInputData : ChronoMap Bytes Bytes) :
    Except Fault (ChronoMap Bytes Bytes) :=
  readBlocks INPUT_SEND_WINDOW_SIZE (MessageReader.load L.toMsgpack payload) playerInputData

end MyPeer

end Wga
