import WeGoAll.Base.RpcId

/-!
# Base — ClockSynchronizer

The two tables of time stamps the clock keeps for the requests of an endpoint: when each
outstanding request was sent, and when each request not yet acknowledged was received.  A stamp is
a reading of `timeHandler->currentTimeMicros() + timeHandler->getTimeShift()`, passed in by the
caller as `now`.
-/

namespace Wga

/-- The arguments of one call of `updateDrift`. -/
structure DriftSample where
  requestSendTime : Int
  requestReceiptTime : Int
  replySendTime : Int
  replyReceiveTime : Int
  deriving DecidableEq

/-- The tables of `ClockSynchronizer`, and the samples `updateDrift` was given. -/
structure ClockSynchronizer where
  requestSendTimeMap : UnorderedMap RpcId Int
  requestReceiveTimeMap : UnorderedMap RpcId Int
  samples : List DriftSample

namespace ClockSynchronizer

def new : ClockSynchronizer := ⟨∅, ∅, []⟩

/-- `createRequest`: the request is sent now. -/
def createRequest (id : RpcId) (now : Int) (c : ClockSynchronizer) :
    Except Fault ClockSynchronizer :=
  if id ∈ c.requestSendTimeMap then .error (.fatal "Duplicate request")
  else .ok { c with requestSendTimeMap := c.requestSendTimeMap.insert id now }

/-- `receiveRequest`: the request is received now. -/
def receiveRequest (id : RpcId) (now : Int) (c : ClockSynchronizer) :
    Except Fault ClockSynchronizer :=
  if id ∈ c.requestReceiveTimeMap then .error (.fatal "Duplicate request")
  else .ok { c with requestReceiveTimeMap := c.requestReceiveTimeMap.insert id now }

/-- `getReplyDuration`: when the request was received, and the time now; `at` throws where no
receipt is kept. -/
def getReplyDuration (id : RpcId) (now : Int) (c : ClockSynchronizer) :
    Except Fault (Int × Int) :=
  match c.requestReceiveTimeMap.lookup id with
  | none => .error (.thrown "std::out_of_range")
  | some sendTime => .ok (sendTime, now)

def eraseRequestRecieveTime (id : RpcId) (c : ClockSynchronizer) :
    Except Fault ClockSynchronizer :=
  if id ∈ c.requestReceiveTimeMap then
    .ok { c with requestReceiveTimeMap := c.requestReceiveTimeMap.erase id }
  else .error (.fatal "Tried to remove request time that didn't exist")

/-- `handleReply`: the four stamps go to `updateDrift`, and the request has no send time any more.
-/
def handleReply (id : RpcId) (requestReceiveTime replySendTime now : Int)
    (c : ClockSynchronizer) : Except Fault ClockSynchronizer :=
  match c.requestSendTimeMap.lookup id with
  | none => .error (.thrown "std::out_of_range")
  | some requestSendTime =>
      .ok { c with
        requestSendTimeMap := c.requestSendTimeMap.erase id
        samples := c.samples ++ [⟨requestSendTime, requestReceiveTime, replySendTime, now⟩] }

end ClockSynchronizer

end Wga
