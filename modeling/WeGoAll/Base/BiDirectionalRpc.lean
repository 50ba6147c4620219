import Mathlib.Data.Finset.Basic
import WeGoAll.Base.Message
import WeGoAll.Base.ClockSynchronizer

/-!
# Base — BiDirectionalRpc

The members and the methods of `BiDirectionalRpc`.  `Self τ` is an object of a class derived from
it: the base members `rpc`, the members `sub` the subclass adds, and the values the environment
will hand out (`Env`).  A virtual method a base method calls is an argument of that base method;
`Virtuals` collects them for the methods called from outside.

A table's `entries` are its iteration order.  The methods look at that order only where the source
does, at `begin()` and in its loops.

`Rpc.history` is a history variable: the methods append to it and none reads it.
-/

namespace Wga

/-- The values an object will get from `rand()`, `time(NULL)`, the time handler's shifted clock
and `randombytes_buf`. -/
structure Env where
  rand : Nat → Nat
  time : Nat → Int
  clock : Nat → Int
  nonce : Nat → Nonce

instance : Inhabited Env := ⟨⟨fun _ => 0, fun _ => 1, fun _ => 0, fun _ => .replicate 24 0⟩⟩

/-- What happened at an endpoint. -/
inductive Event where
  /-- `request` made this request. -/
  | requested (id : RpcId) (payload : Bytes)
  /-- `requestOneWay` made this request. -/
  | requestedOneWay (id : RpcId) (payload : Bytes)
  /-- A request entered `incomingRequests`. -/
  | accepted (id : RpcId) (payload : Bytes)
  /-- `reply` moved the request out of `incomingRequests`. -/
  | replied (id : RpcId) (payload : Bytes)
  /-- A reply took its request out of `outgoingRequests`. -/
  | completed (id : RpcId)
  /-- A reply entered `incomingReplies`. -/
  | queued (id : RpcId) (payload : Bytes)
  /-- A reply was handed to the application. -/
  | handed (id : RpcId) (payload : Bytes)
  deriving DecidableEq

/-- The members of `BiDirectionalRpc`. -/
structure Rpc where
  delayedRequests : UnorderedMap RpcId Bytes
  outgoingRequests : UnorderedMap RpcId Bytes
  incomingRequests : UnorderedMap RpcId Bytes
  oneWayRequests : Finset RpcId
  outgoingReplies : UnorderedMap RpcId Bytes
  incomingReplies : UnorderedMap RpcId Bytes
  processedRequests : LruCache RpcId
  processedReplies : LruCache RpcId
  onBarrier : Int64
  flaky : Bool
  shuttingDown : Bool
  clock : ClockSynchronizer
  history : List Event

/-- An object of a class that adds the members `τ` to `BiDirectionalRpc`. -/
structure Self (τ : Type) where
  rpc : Rpc
  sub : τ
  env : Env

namespace Self

variable {τ : Type}

def rand (self : Self τ) : Nat × Self τ :=
  (self.env.rand 0, { self with env.rand := fun n => self.env.rand (n + 1) })

/-- `time(NULL)`. -/
def time (self : Self τ) : Int × Self τ :=
  (self.env.time 0, { self with env.time := fun n => self.env.time (n + 1) })

/-- `timeHandler->currentTimeMicros() + timeHandler->getTimeShift()`. -/
def now (self : Self τ) : Int × Self τ :=
  (self.env.clock 0, { self with env.clock := fun n => self.env.clock (n + 1) })

/-- `randombytes_buf` into a `Nonce`. -/
def nonce (self : Self τ) : Nonce × Self τ :=
  (self.env.nonce 0, { self with env.nonce := fun n => self.env.nonce (n + 1) })

@[simp] theorem rand_rpc (self : Self τ) : self.rand.2.rpc = self.rpc := rfl
@[simp] theorem rand_sub (self : Self τ) : self.rand.2.sub = self.sub := rfl
@[simp] theorem time_rpc (self : Self τ) : self.time.2.rpc = self.rpc := rfl
@[simp] theorem time_sub (self : Self τ) : self.time.2.sub = self.sub := rfl
@[simp] theorem now_rpc (self : Self τ) : self.now.2.rpc = self.rpc := rfl
@[simp] theorem now_sub (self : Self τ) : self.now.2.sub = self.sub := rfl
@[simp] theorem nonce_rpc (self : Self τ) : self.nonce.2.rpc = self.rpc := rfl
@[simp] theorem nonce_sub (self : Self τ) : self.nonce.2.sub = self.sub := rfl

end Self

/-! ### Constants of the wire -/

/-- `enum RpcHeader`. -/
def REQUEST : UInt8 := 1
def REPLY : UInt8 := 2
def ACKNOWLEDGE : UInt8 := 3

def PING : Bytes := ascii ['P', 'I', 'N', 'G']
def PONG : Bytes := ascii ['P', 'O', 'N', 'G']
def SHUTDOWN : Bytes := ascii ['S', 'H', 'U', 'T', 'D', 'O', 'W', 'N']
def SHUTDOWN_REPLY : Bytes :=
  ascii ['S', 'H', 'U', 'T', 'D', 'O', 'W', 'N', '_', 'R', 'E', 'P', 'L', 'Y']
def ACK_OK : Bytes := ascii ['A', 'C', 'K', '_', 'O', 'K']

/-- The capacity of `processedRequests` and of `processedReplies`. -/
def processedCapacity : Nat := 128 * 1024

namespace BiDirectionalRpc

variable {τ : Type}

/-- The constructor. -/
def new (flaky : Bool) : Rpc where
  delayedRequests := ∅
  outgoingRequests := ∅
  incomingRequests := ∅
  oneWayRequests := ∅
  outgoingReplies := ∅
  incomingReplies := ∅
  processedRequests := .empty
  processedReplies := .empty
  onBarrier := 0
  flaky := flaky
  shuttingDown := false
  clock := .new
  history := []

/-! ### Sending -/

/-- The loop of `sendRequest` and of `sendReply` that attaches more entries of `table` to the
packet; `write` packs one entry.  `fuel` bounds the iterations: each puts one more identifier into
`rpcsSent`, and the loop stops when there are as many as entries. -/
def attach (L : Libraries) (table : List (Σ _ : RpcId, Bytes))
    (write : RpcId → Bytes → Self τ → Except Fault (List MsgObject × Self τ)) :
    Nat → List RpcId → List MsgObject → Self τ → Except Fault (List MsgObject × Self τ)
  | 0, _, writer, self => .ok (writer, self)
  | fuel + 1, rpcsSent, writer, self =>
      if rpcsSent.length < table.length then
        let (n, self) := self.rand
        match table[n % table.length]? with
        | none => .ok (writer, self)
        | some ⟨id, payload⟩ =>
            -- drew an rpc that is already in the packet
            if id ∈ rpcsSent then .ok (writer, self)
            -- too big; sizeof(RpcId) is 16
            else if 16 + payload.length + (L.pack writer).length > 400 then .ok (writer, self)
            else do
              let (objects, self) ← write id payload self
              attach L table write fuel (id :: rpcsSent) (writer ++ objects) self
      else .ok (writer, self)

/-- The objects of one request in a packet. -/
def requestObjects (id : RpcId) (payload : Bytes) : List MsgObject :=
  [.rpcId id, .str payload]

/-- The objects of one reply in a packet. -/
def replyObjects (id : RpcId) (requestReceiveTime replySendTime : Int) (payload : Bytes) :
    List MsgObject :=
  [.rpcId id, .int64 requestReceiveTime, .int64 replySendTime, .str payload]

/-- `sendRequest`: the request, and with `batch` others in flight behind it. -/
def sendRequest (L : Libraries) (send : Bytes → Self τ → Except Fault (Self τ)) (id : RpcId)
    (payload : Bytes) (batch : Bool) (self : Self τ) : Except Fault (Self τ) := do
  let writer := .byte REQUEST :: requestObjects id payload
  let table := self.rpc.outgoingRequests.entries
  let (writer, self) ←
    if batch then
      attach L table (fun id payload self => .ok (requestObjects id payload, self))
        table.length [id] writer self
    else .ok (writer, self)
  send (L.pack writer) self

/-- One reply as `sendReply` packs it, with the duration read now. -/
def writeReply (id : RpcId) (payload : Bytes) (self : Self τ) :
    Except Fault (List MsgObject × Self τ) := do
  let (now, self) := self.now
  let (requestReceiveTime, replySendTime) ← self.rpc.clock.getReplyDuration id now
  .ok (replyObjects id requestReceiveTime replySendTime payload, self)

/-- `sendReply`: the reply, and with `batch` other stored ones behind it. -/
def sendReply (L : Libraries) (send : Bytes → Self τ → Except Fault (Self τ)) (id : RpcId)
    (payload : Bytes) (batch : Bool) (self : Self τ) : Except Fault (Self τ) := do
  let (objects, self) ← writeReply id payload self
  let writer := .byte REPLY :: objects
  let table := self.rpc.outgoingReplies.entries
  let (writer, self) ←
    if batch then attach L table writeReply table.length [id] writer self
    else .ok (writer, self)
  send (L.pack writer) self

/-- The objects of an acknowledgement. -/
def acknowledgeObjects (uid : RpcId) (payload : Bytes) : List MsgObject :=
  [.byte ACKNOWLEDGE, .rpcId uid, .str payload]

def sendAcknowledge (L : Libraries) (send : Bytes → Self τ → Except Fault (Self τ))
    (uid : RpcId) (self : Self τ) : Except Fault (Self τ) :=
  send (L.pack (acknowledgeObjects uid ACK_OK)) self

/-- `DRAW_FROM_UNORDERED` on a table. -/
def draw (table : UnorderedMap RpcId Bytes) (self : Self τ) :
    Option (Σ _ : RpcId, Bytes) × Self τ :=
  let (n, self) := self.rand
  (table.entries[n % table.entries.length]?, self)

/-- `resendRandomOutgoingMessage`: a stored reply before a request in flight. -/
def resendRandomOutgoingMessage (L : Libraries) (send : Bytes → Self τ → Except Fault (Self τ))
    (self : Self τ) : Except Fault (Self τ) :=
  if self.rpc.outgoingReplies.entries ≠ [] then
    match draw self.rpc.outgoingReplies self with
    | (some ⟨id, payload⟩, self) => sendReply L send id payload true self
    | (none, self) => .ok self
  else if self.rpc.outgoingRequests.entries ≠ [] then
    match draw self.rpc.outgoingRequests self with
    | (some ⟨id, payload⟩, self) => sendRequest L send id payload true self
    | (none, self) => .ok self
  else .ok self

/-! ### Requests of this side -/

/-- Puts a request into `outgoingRequests` and sends it. -/
def sendNow (L : Libraries) (send : Bytes → Self τ → Except Fault (Self τ)) (id : RpcId)
    (payload : Bytes) (self : Self τ) : Except Fault (Self τ) := do
  let (now, self) := self.now
  let clock ← self.rpc.clock.createRequest id now
  sendRequest L send id payload false
    { self with
      rpc.outgoingRequests := self.rpc.outgoingRequests.insert id payload
      rpc.clock := clock }

/-- `requestWithId`: the request is sent, or delayed where the first one in flight is not of the
current barrier. -/
def requestWithId (L : Libraries) (send : Bytes → Self τ → Except Fault (Self τ))
    (idPayload : IdPayload) (self : Self τ) : Except Fault (Self τ) :=
  match self.rpc.outgoingRequests.entries with
  | [] => sendNow L send idPayload.id idPayload.payload self
  | ⟨first, _⟩ :: _ =>
      if first.barrier = self.rpc.onBarrier then
        sendNow L send idPayload.id idPayload.payload self
      else
        -- we have to wait for existing requests from an older barrier
        .ok { self with
          rpc.delayedRequests :=
            self.rpc.delayedRequests.insert idPayload.id idPayload.payload }

/-- The second loop of `tryToSendBarrier`, over the entries `delayed` had when it started. -/
def releaseBarrier (L : Libraries) (send : Bytes → Self τ → Except Fault (Self τ))
    (lowestBarrier : Int64) :
    List (Σ _ : RpcId, Bytes) → Self τ → Except Fault (Self τ)
  | [], self => .ok self
  | ⟨id, payload⟩ :: rest, self =>
      if id.barrier = lowestBarrier then do
        let self ← sendNow L send id payload self
        releaseBarrier L send lowestBarrier rest
          { self with rpc.delayedRequests := self.rpc.delayedRequests.erase id }
      else releaseBarrier L send lowestBarrier rest self

def tryToSendBarrier (L : Libraries) (send : Bytes → Self τ → Except Fault (Self τ))
    (self : Self τ) : Except Fault (Self τ) :=
  match self.rpc.delayedRequests.entries with
  | [] => .ok self
  | ⟨first, payload⟩ :: rest =>
      if self.rpc.outgoingRequests.entries = [] then
        let lowestBarrier := rest.foldl (fun b it => min b it.1.barrier) first.barrier
        releaseBarrier L send lowestBarrier (⟨first, payload⟩ :: rest) self
      else .ok self

/-! ### Requests of the other side -/

/-- `addIncomingRequest`: the request is queued for the application. -/
def addIncomingRequest (idPayload : IdPayload) (self : Self τ) : Except Fault (Self τ) := do
  let (now, self) := self.now
  let clock ← self.rpc.clock.receiveRequest idPayload.id now
  .ok { self with
    rpc.clock := clock
    rpc.incomingRequests :=
      self.rpc.incomingRequests.emplace idPayload.id idPayload.payload
    rpc.history := self.rpc.history ++ [.accepted idPayload.id idPayload.payload] }

def reply (L : Libraries) (send : Bytes → Self τ → Except Fault (Self τ)) (rpcId : RpcId)
    (payload : Bytes) (self : Self τ) : Except Fault (Self τ) :=
  if rpcId ∈ self.rpc.incomingRequests then
    sendReply L send rpcId payload false
      { self with
        rpc.incomingRequests := self.rpc.incomingRequests.erase rpcId
        rpc.processedRequests :=
          self.rpc.processedRequests.put L.toLruPolicy processedCapacity rpcId
        rpc.outgoingReplies := self.rpc.outgoingReplies.insert rpcId payload
        rpc.history := self.rpc.history ++ [.replied rpcId payload] }
  else .error (.fatal "Tried to reply but had no request: ")

def shutdown (self : Self τ) : Self τ := { self with rpc.shuttingDown := true }

def handleRequest (L : Libraries) (send : Bytes → Self τ → Except Fault (Self τ))
    (addIncomingRequest : IdPayload → Self τ → Except Fault (Self τ))
    (reply : RpcId → Bytes → Self τ → Except Fault (Self τ))
    (rpcId : RpcId) (payload : Bytes) (self : Self τ) : Except Fault (Self τ) := do
  if rpcId ∈ self.rpc.incomingRequests ∨ self.rpc.processedRequests.contains rpcId then
    .ok self
  else
    match self.rpc.outgoingReplies.lookup rpcId with
    | some stored =>
        -- we already processed this request, send the reply again
        sendReply L send rpcId stored false self
    | none =>
        let self ← addIncomingRequest ⟨rpcId, payload⟩ self
        match self.rpc.incomingRequests.lookup rpcId with
        | some text =>
            if text = PING then reply rpcId PONG self
            else if text = SHUTDOWN then reply rpcId SHUTDOWN_REPLY (shutdown self)
            else .ok self
        | none => .ok self

/-! ### Replies to this side -/

/-- `addIncomingReply`: the reply is queued for the application. -/
def addIncomingReply (uid : RpcId) (payload : Bytes) (self : Self τ) : Except Fault (Self τ) :=
  .ok { self with
    rpc.incomingReplies := self.rpc.incomingReplies.emplace uid payload
    rpc.history := self.rpc.history ++ [.queued uid payload] }

def handleReply (L : Libraries) (send : Bytes → Self τ → Except Fault (Self τ))
    (sendAcknowledge : RpcId → Self τ → Except Fault (Self τ))
    (addIncomingReply : RpcId → Bytes → Self τ → Except Fault (Self τ))
    (rpcId : RpcId) (payload : Bytes) (requestReceiveTime replySendTime : Int)
    (self : Self τ) : Except Fault (Self τ) := do
  if rpcId ∈ self.rpc.incomingReplies ∨ self.rpc.processedReplies.contains rpcId then
    -- we already received this reply
    sendAcknowledge rpcId self
  else if rpcId ∈ self.rpc.outgoingRequests then
    let self ← tryToSendBarrier L send
      { self with
        rpc.outgoingRequests := self.rpc.outgoingRequests.erase rpcId
        rpc.history := self.rpc.history ++ [.completed rpcId] }
    let self ←
      if rpcId ∈ self.rpc.oneWayRequests then
        .ok { self with rpc.oneWayRequests := self.rpc.oneWayRequests.erase rpcId }
      else addIncomingReply rpcId payload self
    let self ← sendAcknowledge rpcId self
    let (now, self) := self.now
    let clock ← self.rpc.clock.handleReply rpcId requestReceiveTime replySendTime now
    .ok { self with rpc.clock := clock }
  else
    -- we must have processed both this request and reply
    sendAcknowledge rpcId self

/-- The case `ACKNOWLEDGE` of `receive`. -/
def handleAcknowledge (uid : RpcId) (self : Self τ) : Except Fault (Self τ) := do
  if uid ∈ self.rpc.outgoingReplies then
    let clock ← self.rpc.clock.eraseRequestRecieveTime uid
    .ok { self with
      rpc.clock := clock
      rpc.outgoingReplies := self.rpc.outgoingReplies.erase uid }
  else .ok self

/-! ### The application's side -/

/-- `getFirstIncomingReply`; the reply it returns is the `handed` event. -/
def getFirstIncomingReply (L : Libraries) (self : Self τ) : Except Fault (Self τ) :=
  match self.rpc.incomingReplies.entries with
  | [] => .error (.fatal "Tried to get reply when there was none")
  | ⟨id, payload⟩ :: _ =>
      .ok { self with
        rpc.processedReplies :=
          self.rpc.processedReplies.put L.toLruPolicy processedCapacity id
        rpc.incomingReplies := self.rpc.incomingReplies.erase id
        rpc.history := self.rpc.history ++ [.handed id payload] }

/-- `consumeIncomingReplyWithId`; the payload it returns is in the `handed` event. -/
def consumeIncomingReplyWithId (L : Libraries) (rpcId : RpcId) (self : Self τ) :
    Except Fault (Self τ) :=
  match self.rpc.incomingReplies.lookup rpcId with
  | none => .error (.fatal "Tried to get a reply that didn't exist!")
  | some payload =>
      .ok { self with
        rpc.processedReplies :=
          self.rpc.processedReplies.put L.toLruPolicy processedCapacity rpcId
        rpc.incomingReplies := self.rpc.incomingReplies.erase rpcId
        rpc.history := self.rpc.history ++ [.handed rpcId payload] }

/-- `hasWork`: an entry counts where its payload is not empty. -/
def hasWork (r : Rpc) : Bool :=
  r.delayedRequests.entries.any (fun it => !it.2.isEmpty) ||
  r.outgoingRequests.entries.any (fun it => !it.2.isEmpty) ||
  r.incomingRequests.entries.any (fun it => !it.2.isEmpty) ||
  r.incomingReplies.entries.any (fun it => !it.2.isEmpty)

/-- `onBarrier++`; signed overflow is undefined. -/
def barrier (self : Self τ) : Except Fault (Self τ) :=
  if self.rpc.onBarrier = Int64.maxValue then .error (.thrown "signed overflow")
  else .ok { self with rpc.onBarrier := self.rpc.onBarrier + 1 }

end BiDirectionalRpc

/-! ### Methods that dispatch to the subclass -/

/-- The virtual methods of an object. -/
structure Virtuals (τ : Type) where
  send : Bytes → Self τ → Except Fault (Self τ)
  sendAcknowledge : RpcId → Self τ → Except Fault (Self τ)
  requestWithId : IdPayload → Self τ → Except Fault (Self τ)
  reply : RpcId → Bytes → Self τ → Except Fault (Self τ)
  addIncomingRequest : IdPayload → Self τ → Except Fault (Self τ)
  addIncomingReply : RpcId → Bytes → Self τ → Except Fault (Self τ)
  handleReply : RpcId → Bytes → Int → Int → Self τ → Except Fault (Self τ)
  readyToSend : Self τ → Bool

namespace BiDirectionalRpc

variable {τ : Type} (L : Libraries) (V : Virtuals τ)

/-- `request`; `uuid` is what `uuid4` drew. -/
def request (uuid : UInt64) (payload : Bytes) (self : Self τ) : Except Fault (Self τ) :=
  let id : RpcId := ⟨self.rpc.onBarrier, uuid⟩
  V.requestWithId ⟨id, payload⟩
    { self with rpc.history := self.rpc.history ++ [.requested id payload] }

def requestOneWay (uuid : UInt64) (payload : Bytes) (self : Self τ) : Except Fault (Self τ) :=
  let id : RpcId := ⟨self.rpc.onBarrier, uuid⟩
  V.requestWithId ⟨id, payload⟩
    { self with
      rpc.oneWayRequests := insert id self.rpc.oneWayRequests
      rpc.history := self.rpc.history ++ [.requestedOneWay id payload] }

def sendShutdown (uuid : UInt64) (self : Self τ) : Except Fault (Self τ) :=
  if self.rpc.shuttingDown then .ok self
  else requestOneWay V uuid SHUTDOWN self

def heartbeat (uuid : UInt64) (self : Self τ) : Except Fault (Self τ) :=
  if self.rpc.outgoingReplies.entries ≠ [] ∨ self.rpc.outgoingRequests.entries ≠ [] then
    resendRandomOutgoingMessage L V.send self
  else if V.readyToSend self ∧ ¬ self.rpc.shuttingDown then
    requestOneWay V uuid PING self
  else .ok self

/-- `validatePacket` of this class.  It is not virtual, so it is the one `receive` calls. -/
def validatePacket (_rpcId : RpcId) (_payload : Bytes) : Bool := true

/-- The loop of the case `REQUEST` of `receive`; an iteration reads two objects or more, so the
number of objects is `fuel` enough. -/
def receiveRequests : Nat → MessageReader → Self τ → Except Fault (Bool × Self τ)
  | 0, _, self => .ok (true, self)
  | fuel + 1, reader, self =>
      if reader.sizeRemaining then do
        let (rpcId, reader) ← reader.readRpcId
        let (payload, reader) ← reader.readString
        if !validatePacket rpcId payload then return (false, self)
        let self ← handleRequest L V.send V.addIncomingRequest V.reply rpcId payload self
        receiveRequests fuel reader self
      else .ok (true, self)

/-- The loop of the case `REPLY` of `receive`. -/
def receiveReplies : Nat → MessageReader → Self τ → Except Fault (Bool × Self τ)
  | 0, _, self => .ok (true, self)
  | fuel + 1, reader, self =>
      if reader.sizeRemaining then do
        let (uid, reader) ← reader.readRpcId
        let (requestReceiveTime, reader) ← reader.readInt64
        let (replySendTime, reader) ← reader.readInt64
        let (payload, reader) ← reader.readString
        if !validatePacket uid payload then return (false, self)
        let self ← V.handleReply uid payload requestReceiveTime replySendTime self
        receiveReplies fuel reader self
      else .ok (true, self)

/-- The case `ACKNOWLEDGE` of `receive`. -/
def receiveAcknowledge (reader : MessageReader) (self : Self τ) :
    Except Fault (Bool × Self τ) := do
  let (uid, reader) ← reader.readRpcId
  let (payload, _) ← reader.readString
  if !validatePacket uid payload then return (false, self)
  let self ← handleAcknowledge uid self
  return (true, self)

/-- `flaky && (rand() % 100 == 0)`. -/
def flake (self : Self τ) : Bool × Self τ :=
  if self.rpc.flaky then
    let (n, self) := self.rand
    (n % 100 = 0, self)
  else (false, self)

def receive (message : Bytes) (self : Self τ) : Except Fault (Bool × Self τ) := do
  let (header, reader) ← (MessageReader.load L.toMsgpack message).readUnsignedChar
  let (flaked, self) := flake self
  if flaked then
    -- pretend we never got the message
    return (true, self)
  else if header = REQUEST then
    receiveRequests L V (reader.objects.length + 1) reader self
  else if header = REPLY then
    receiveReplies V (reader.objects.length + 1) reader self
  else if header = ACKNOWLEDGE then
    receiveAcknowledge reader self
  else .error (.fatal "Got invalid header: ")

end BiDirectionalRpc

/-! ### What an application calls -/

/-- A call of a public method of an endpoint. -/
inductive Call where
  | request (uuid : UInt64) (payload : Bytes)
  | requestOneWay (uuid : UInt64) (payload : Bytes)
  | reply (rpcId : RpcId) (payload : Bytes)
  | getFirstIncomingReply
  | consumeIncomingReplyWithId (rpcId : RpcId)
  | barrier
  | heartbeat (uuid : UInt64)
  | resendRandomOutgoingMessage
  | sendShutdown (uuid : UInt64)
  | shutdown
  deriving DecidableEq

/-- The method a call names. -/
def Call.run {τ : Type} (L : Libraries) (V : Virtuals τ) (self : Self τ) :
    Call → Except Fault (Self τ)
  | .request uuid payload => BiDirectionalRpc.request V uuid payload self
  | .requestOneWay uuid payload => BiDirectionalRpc.requestOneWay V uuid payload self
  | .reply rpcId payload => V.reply rpcId payload self
  | .getFirstIncomingReply => BiDirectionalRpc.getFirstIncomingReply L self
  | .consumeIncomingReplyWithId rpcId => BiDirectionalRpc.consumeIncomingReplyWithId L rpcId self
  | .barrier => BiDirectionalRpc.barrier self
  | .heartbeat uuid => BiDirectionalRpc.heartbeat L V uuid self
  | .resendRandomOutgoingMessage => BiDirectionalRpc.resendRandomOutgoingMessage L V.send self
  | .sendShutdown uuid => BiDirectionalRpc.sendShutdown V uuid self
  | .shutdown => .ok (BiDirectionalRpc.shutdown self)

end Wga
