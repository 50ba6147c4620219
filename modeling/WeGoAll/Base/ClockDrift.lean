import WeGoAll.Base.ClockSynchronizer
import WeGoAll.Base.TimeHandler

/-!
# Base — ClockDrift

The other members of `ClockSynchronizer`: `updateDrift`, what it computes from the four time stamps
of a request and its reply, and the time shift it sets while the baseline is being measured and
after.

* `ClockHost`: a host with its clock and its synchronizer; the stamps come from its `TimeHandler`.
-/

namespace Wga

/-- `ping` in `updateDrift`. -/
def DriftSample.ping (s : DriftSample) : Int :=
  (s.replyReceiveTime - s.requestSendTime) - (s.replySendTime - s.requestReceiptTime)

/-- Half the difference of the two differences that cross the wire. -/
def DriftSample.offset (s : DriftSample) : Int :=
  ((s.replyReceiveTime - s.replySendTime) - (s.requestReceiptTime - s.requestSendTime)).tdiv 2

/-- The members of `ClockSynchronizer` that `updateDrift` reads and writes. -/
structure ClockDrift (F : Doubles) where
  pingEstimator : SlidingWindowEstimator F
  count : Int
  connectedToHost : Bool
  baselineOffset : Int

namespace ClockDrift

variable {F : Doubles}

def new (connectedToHost : Bool) : ClockDrift F := ⟨.new, 0, connectedToHost, 0⟩

/-- `ping_2` in `updateDrift`. -/
def ping_2 (self : ClockDrift F) : Int :=
  F.toInt64 (F.div self.pingEstimator.getMean (F.ofInt 2))

/-- `timeOffset` in `updateDrift`. -/
def timeOffset (s : DriftSample) (self : ClockDrift F) : Int :=
  let timeOffsetRequest := -1 * ((s.requestReceiptTime - s.requestSendTime) - self.ping_2)
  let timeOffsetReply := (s.replyReceiveTime - s.replySendTime) - self.ping_2
  (timeOffsetRequest + timeOffsetReply).tdiv 2

/-- The branches on `count` in `updateDrift`, where `count` counts this sample. -/
def measure (timeOffset : Int) (self : ClockDrift F) (timeHandler : TimeHandler F) :
    ClockDrift F × TimeHandler F :=
  if self.count < 10 then
    ({ self with baselineOffset := self.baselineOffset + timeOffset }, timeHandler)
  else if self.count = 10 then
    ({ self with baselineOffset := (self.baselineOffset + timeOffset).tdiv self.count },
      timeHandler)
  else
    (self, { timeHandler with
      offsetOptimizer := timeHandler.offsetOptimizer.updateWithLabel
        (F.div (F.ofInt (timeOffset - self.baselineOffset)) (F.ofInt 1000000))
      offsetEstimator := timeHandler.offsetEstimator.addSample
        (F.ofInt (timeOffset - self.baselineOffset)) })

/-- `newTimeShift` in `updateDrift`. -/
def newTimeShift (self : ClockDrift F) (timeHandler : TimeHandler F) : Int :=
  F.toInt64 (F.mul (F.ofInt 1000000) timeHandler.offsetOptimizer.getCurrentValue) +
    self.baselineOffset

def updateDrift (s : DriftSample) (self : ClockDrift F) (timeHandler : TimeHandler F) :
    ClockDrift F × TimeHandler F :=
  let timeOffset := self.timeOffset s
  let self := { self with
    pingEstimator :=
      self.pingEstimator.addSample (F.min (F.ofInt (1000 * 1000)) (F.ofInt s.ping))
    count := self.count + 1 }
  if self.connectedToHost then
    let (self, timeHandler) := self.measure timeOffset timeHandler
    (self, timeHandler.setTimeShift (self.newTimeShift timeHandler))
  else (self, timeHandler)

/-- **The running half ping cancels.** -/
theorem timeOffset_eq (s : DriftSample) (self : ClockDrift F) :
    self.timeOffset s = s.offset := by
  simp only [timeOffset, DriftSample.offset]
  congr 1
  omega

@[simp] theorem measure_noiseShift (timeOffset : Int) (self : ClockDrift F)
    (timeHandler : TimeHandler F) :
    (self.measure timeOffset timeHandler).2.noiseShift = timeHandler.noiseShift := by
  rw [measure]
  split
  · rfl
  · split
    · rfl
    · rfl

@[simp] theorem updateDrift_noiseShift (s : DriftSample) (self : ClockDrift F)
    (timeHandler : TimeHandler F) :
    (self.updateDrift s timeHandler).2.noiseShift = timeHandler.noiseShift := by
  rw [updateDrift]
  split
  · simp
  · rfl

end ClockDrift

/-! ### A host -/

/-- A host: how far `now()` is ahead of real time, the `TimeHandler`, and the synchronizer of the
connection to the other host in its two parts. -/
structure ClockHost (F : Doubles) where
  ahead : Int
  timeHandler : TimeHandler F
  clock : ClockSynchronizer
  drift : ClockDrift F

namespace ClockHost

variable {F : Doubles}

/-- `now()` at a real time. -/
def now (time : Int) (self : ClockHost F) : Int := time + self.ahead

/-- What the clock reads at a real time before any time shift is applied. -/
def rawClock (time : Int) (self : ClockHost F) : Int :=
  self.now time - self.timeHandler.noiseShift

def createRequest (id : RpcId) (time : Int) (self : ClockHost F) :
    Except Fault (ClockHost F) := do
  let clock ← self.clock.createRequest id (self.timeHandler.stamp (self.now time))
  .ok { self with clock := clock }

def receiveRequest (id : RpcId) (time : Int) (self : ClockHost F) :
    Except Fault (ClockHost F) := do
  let clock ← self.clock.receiveRequest id (self.timeHandler.stamp (self.now time))
  .ok { self with clock := clock }

def getReplyDuration (id : RpcId) (time : Int) (self : ClockHost F) :
    Except Fault (Int × Int) :=
  self.clock.getReplyDuration id (self.timeHandler.stamp (self.now time))

def eraseRequestRecieveTime (id : RpcId) (self : ClockHost F) : Except Fault (ClockHost F) := do
  let clock ← self.clock.eraseRequestRecieveTime id
  .ok { self with clock := clock }

def handleReply (id : RpcId) (requestReceiveTime replySendTime time : Int)
    (self : ClockHost F) : Except Fault (ClockHost F) :=
  match self.clock.requestSendTimeMap.lookup id with
  | none => .error (.thrown "std::out_of_range")
  | some requestSendTime =>
      let sample : DriftSample := ⟨requestSendTime, requestReceiveTime, replySendTime,
        self.timeHandler.stamp (self.now time)⟩
      let clock := { self.clock with
        requestSendTimeMap := self.clock.requestSendTimeMap.erase id
        samples := self.clock.samples ++ [sample] }
      let (drift, timeHandler) := self.drift.updateDrift sample self.timeHandler
      .ok { self with clock := clock, drift := drift, timeHandler := timeHandler }

def setTimeShift (timeShift : Int) (self : ClockHost F) : ClockHost F :=
  { self with timeHandler := self.timeHandler.setTimeShift timeShift }

/-- `updateDrift` is given the sample that the tables record. -/
theorem handleReply_ok {self host : ClockHost F} {id : RpcId}
    {requestReceiveTime replySendTime time : Int}
    (h : self.handleReply id requestReceiveTime replySendTime time = .ok host) :
    ∃ requestSendTime, self.clock.requestSendTimeMap.lookup id = some requestSendTime ∧
      let sample : DriftSample := ⟨requestSendTime, requestReceiveTime, replySendTime,
        self.timeHandler.stamp (self.now time)⟩
      self.clock.handleReply id requestReceiveTime replySendTime
        (self.timeHandler.stamp (self.now time)) = .ok host.clock ∧
      host.clock = { self.clock with
        requestSendTimeMap := self.clock.requestSendTimeMap.erase id
        samples := self.clock.samples ++ [sample] } ∧
      (host.drift, host.timeHandler) = self.drift.updateDrift sample self.timeHandler ∧
      host.ahead = self.ahead := by
  rw [handleReply] at h
  split at h
  · cases h
  · rename_i requestSendTime hsent
    cases h
    refine ⟨_, hsent, ?_, rfl, rfl, rfl⟩
    rw [ClockSynchronizer.handleReply, hsent]

/-- A stamp is a reading of the raw clock. -/
theorem stamp_now (self : ClockHost F) (time : Int) :
    self.timeHandler.stamp (self.now time) = self.rawClock time := TimeHandler.stamp_eq _ _

end ClockHost

end Wga
