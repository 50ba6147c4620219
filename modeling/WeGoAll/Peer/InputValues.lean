import WeGoAll.Peer.MyPeer

/-!
# Peer — InputValues

The members of a peer that the inputs of a game pass through, and what it does with them.

`getAllInputValues` runs in the thread of its caller while another thread runs the update loop, so
the stores and the endpoints may change between two looks it takes at them.  It is a step function
on its frame: one step is what it does at one moment.
-/

namespace Wga

/-- What travels between the endpoints of two peers; a request is known by its number. -/
inductive InputMessage where
  | request (sender receiver : Bytes) (id : Nat) (payload : Bytes)
  | reply (sender receiver : Bytes) (id : Nat)
  /-- The request `SHUTDOWN`. -/
  | shutdown (sender receiver : Bytes)
  deriving DecidableEq

def InputMessage.receiver : InputMessage → Bytes
  | .request _ receiver _ _ | .reply _ receiver _ | .shutdown _ receiver => receiver

/-- The members of an endpoint that the inputs depend on. -/
structure InputEndpoint where
  outgoingRequests : List Nat
  shuttingDown : Bool

/-- The members of `MyPeer` that its inputs pass through, and those of its `rpcServer`. -/
structure InputPeer where
  userId : Bytes
  inputs : MyInputs
  /-- The keys of `peerData`, in their order. -/
  peerIds : List Bytes
  /-- `peerData[id]->playerInputData`, of the other peers. -/
  peerData : Bytes → ChronoMap Bytes Bytes
  /-- `rpcServer->endpoints[id]`, of the other peers. -/
  endpoints : Bytes → InputEndpoint
  /-- The broadcasts made. -/
  broadcasts : Nat
  /-- `rpcServer->sendShutdown` has been called. -/
  sentShutdown : Bool

namespace InputPeer

/-- A peer at the start of a game. -/
def new (peerIds : List Bytes) (userId : Bytes) : InputPeer :=
  ⟨userId, MyPeer.noInputs, peerIds, fun _ => .new, fun _ => ⟨[], false⟩, 0, false⟩

/-- The keys of `rpcServer->endpoints`. -/
def endpointIds (self : InputPeer) : List Bytes := self.peerIds.filter (· ≠ self.userId)

/-- `peerData[id]->playerInputData`; a peer's own is that of `myData`. -/
def playerInputData (id : Bytes) (self : InputPeer) : ChronoMap Bytes Bytes :=
  if id = self.userId then self.inputs.playerInputData else self.peerData id

def isPeerShutDown (peerId : Bytes) (self : InputPeer) : Bool :=
  if self.endpointIds.contains peerId then (self.endpoints peerId).shuttingDown else false

/-- `rpcServer->hasWork()`, as far as requests go; a connection that is found dead has none. -/
def hasWork (isConnectionDead : Bytes → Bool) (self : InputPeer) : Bool :=
  self.endpointIds.any fun id =>
    if isConnectionDead id then false else !(self.endpoints id).outgoingRequests.isEmpty

/-- `rpcServer->broadcast`, with what it sends. -/
def broadcast (payload : Bytes) (self : InputPeer) : InputPeer × List InputMessage :=
  ({ self with
      endpoints := fun id => { self.endpoints id with
        outgoingRequests := (self.endpoints id).outgoingRequests ++ [self.broadcasts] }
      broadcasts := self.broadcasts + 1 },
    self.endpointIds.map fun id => .request self.userId id self.broadcasts payload)

def updateState (L : Libraries) (timestamp : Int) (data : UnorderedMap Bytes Bytes)
    (self : InputPeer) : Except Fault (InputPeer × List InputMessage) := do
  let (s, inputs) ← MyPeer.updateState L timestamp data self.inputs
  .ok (broadcast s { self with inputs := inputs })

/-- `rpcServer->sendShutdown`, with what it sends; an endpoint that is shut down skips it. -/
def sendShutdown (self : InputPeer) : InputPeer × List InputMessage :=
  ({ self with sentShutdown := true },
    (self.endpointIds.filter fun id => !(self.endpoints id).shuttingDown).map fun id =>
      .shutdown self.userId id)

/-- What arrives: the update loop takes the inputs out of a request and replies, a reply ends its
request, and `SHUTDOWN` marks the endpoint. -/
def receive (L : Libraries) (self : InputPeer) :
    InputMessage → Except Fault (InputPeer × List InputMessage)
  | .request sender receiver id payload => do
      let playerInputData ← MyPeer.readInputs L payload (self.peerData sender)
      .ok ({ self with peerData := Function.update self.peerData sender playerInputData },
        [.reply receiver sender id])
  | .reply sender _ id =>
      .ok ({ self with
        endpoints := Function.update self.endpoints sender { self.endpoints sender with
          outgoingRequests := (self.endpoints sender).outgoingRequests.filter (· ≠ id) } }, [])
  | .shutdown sender _ =>
      .ok ({ self with
        endpoints := Function.update self.endpoints sender { self.endpoints sender with
          shuttingDown := true } }, [])

end InputPeer

/-! ### The loop over the peers -/

/-- Where the body of the loop stands. -/
inductive LoopStage where
  /-- Before `isPeerShutDown` at its beginning. -/
  | begin
  /-- Before `waitForExpirationTime`. -/
  | wait
  /-- Before `getAll`. -/
  | read
  /-- Before `isPeerShutDown` after a time-out. -/
  | timedOut
  deriving DecidableEq

/-- The frame of a call of `getAllInputValues`. -/
structure InputCall where
  timestamp : Int
  /-- The keys of `peerData` the loop has not finished with. -/
  remaining : List Bytes
  stage : LoopStage
  values : UnorderedMap Bytes (UnorderedMap Bytes Bytes)

namespace InputCall

/-- The call has returned. -/
def Returned (self : InputCall) : Prop := self.remaining = []

/-- The loop goes on to the next peer. -/
def next (self : InputCall) : InputCall :=
  { self with remaining := self.remaining.tail, stage := .begin }

end InputCall

namespace InputPeer

/-- The call of `getAllInputValues`. -/
def getAllInputValues (timestamp : Int) (self : InputPeer) : InputCall :=
  ⟨timestamp, self.peerIds, .begin, ∅⟩

/-- The loop over the values of a peer. -/
def addValues (peerId : Bytes) (allKeyValuesForPeer : UnorderedMap Bytes Bytes)
    (values : UnorderedMap Bytes (UnorderedMap Bytes Bytes)) :
    UnorderedMap Bytes (UnorderedMap Bytes Bytes) :=
  allKeyValuesForPeer.entries.foldl (fun values it2 =>
    values.insert it2.1 (((values.lookup it2.1).getD ∅).emplace peerId it2.2)) values

/-- What the call does next, when the loop is at `peerId`. -/
def resumeAt (self : InputPeer) (peerId : Bytes) (call : InputCall) : Except Fault InputCall :=
  match call.stage with
  | .begin => .ok (if self.isPeerShutDown peerId then call.next else { call with stage := .wait })
  | .wait =>
      -- `waitForExpirationTime` returns whether the time has come, at the latest after a second
      .ok { call with
        stage := if (self.playerInputData peerId).expirationTime > call.timestamp then .read
          else .timedOut }
  | .read => do
      let allKeyValuesForPeer ← (self.playerInputData peerId).getAll call.timestamp
      .ok { call.next with values := addValues peerId allKeyValuesForPeer call.values }
  | .timedOut =>
      .ok (if self.isPeerShutDown peerId then call.next else { call with stage := .wait })

end InputPeer

end Wga
