import Mathlib.Algebra.Order.Group.Abs
import Mathlib.Algebra.Order.Group.Int
import WeGoAll.Base.ClockDrift
import WeGoAll.Support.Runs

/-!
# Clock — Exchange

Two hosts measure how far their clocks are apart.  The requester stamps a request when it is made
and again when its reply is handled; the responder stamps it when it arrives and again for every
copy of the reply.  Between the stamps time passes and both hosts make any other calls: they set
their time shifts, handle the replies of other requests, and send and receive as they like.

* `clockPair`: the system.
* `Exchange`: a request and its reply in a run.
* `Exchange.offset_within_half_ping`: the ping is the time under way, and the offset is off by no
  more than half of it.
-/

namespace Wga

/-- A call of a host's clock. -/
inductive ClockCall where
  | createRequest (id : RpcId)
  | receiveRequest (id : RpcId)
  | getReplyDuration (id : RpcId)
  | eraseRequestRecieveTime (id : RpcId)
  | handleReply (id : RpcId) (requestReceiveTime replySendTime : Int)
  | setTimeShift (timeShift : Int)

/-- What a call made at a real time does. -/
def ClockHost.call {F : Doubles} (time : Int) (self : ClockHost F) :
    ClockCall → Except Fault (ClockHost F)
  | .createRequest id => self.createRequest id time
  | .receiveRequest id => self.receiveRequest id time
  | .getReplyDuration id => do
      let _ ← self.getReplyDuration id time
      .ok self
  | .eraseRequestRecieveTime id => self.eraseRequestRecieveTime id
  | .handleReply id requestReceiveTime replySendTime =>
      self.handleReply id requestReceiveTime replySendTime time
  | .setTimeShift timeShift => .ok (self.setTimeShift timeShift)

/-- Two hosts at a moment of real time. -/
structure ClockPair (F : Doubles) where
  time : Int
  requester : ClockHost F
  responder : ClockHost F

inductive ClockEvent where
  /-- Time passes. -/
  | wait (duration : Nat)
  | requester (call : ClockCall)
  | responder (call : ClockCall)

namespace ClockPair

variable {F : Doubles}

def step (s : ClockPair F) : ClockEvent → Except Fault (ClockPair F)
  | .wait duration => .ok { s with time := s.time + duration }
  | .requester call => do
      let host ← s.requester.call s.time call
      .ok { s with requester := host }
  | .responder call => do
      let host ← s.responder.call s.time call
      .ok { s with responder := host }

/-- The raw clock of the responder minus that of the requester. -/
def theta (s : ClockPair F) : Int := s.responder.rawClock s.time - s.requester.rawClock s.time

end ClockPair

/-- A host with a new synchronizer and a new optimizer, whatever its clock reads. -/
structure ClockHost.Fresh {F : Doubles} (self : ClockHost F) : Prop where
  clock : self.clock = .new
  drift : ∃ connectedToHost, self.drift = .new connectedToHost
  optimizer : self.timeHandler.offsetOptimizer.getCurrentValue = F.ofInt 0

/-- Two fresh hosts and what happens to them. -/
def clockPair (F : Doubles) : System (ClockPair F) ClockEvent :=
  System.ofStep (fun s => s.requester.Fresh ∧ s.responder.Fresh) ClockPair.step

/-- The event does not handle a reply to the request. -/
def Unanswered (id : RpcId) (e : ClockEvent) : Prop :=
  ∀ requestReceiveTime replySendTime,
    e ≠ .requester (.handleReply id requestReceiveTime replySendTime)

/-- The event does not forget when the request was received. -/
def Unacknowledged (id : RpcId) (e : ClockEvent) : Prop :=
  e ≠ .responder (.eraseRequestRecieveTime id)

/-- **A request and its reply.**  The request is made in `s₁`, it arrives in `s₂`, a copy of the
reply leaves in `s₃` with the stamps `requestReceiveTime` and `replySendTime`, and that copy is the
one handled in `s₄`.  Everything else may happen in between. -/
structure Exchange {F : Doubles} (id : RpcId) (requestReceiveTime replySendTime : Int)
    (s₁ s₂ s₃ s₄ s : ClockPair F) : Prop where
  request : ∃ s₁', (clockPair F).step s₁ (.requester (.createRequest id)) s₁' ∧
    ((clockPair F).only (Unanswered id)).Leads s₁' s₂
  received : ∃ s₂', (clockPair F).step s₂ (.responder (.receiveRequest id)) s₂' ∧
    ((clockPair F).only fun e => Unanswered id e ∧ Unacknowledged id e).Leads s₂' s₃
  reply : s₃.responder.getReplyDuration id s₃.time = .ok (requestReceiveTime, replySendTime)
  arrives : ((clockPair F).only (Unanswered id)).Leads s₃ s₄
  handled : (clockPair F).step s₄
    (.requester (.handleReply id requestReceiveTime replySendTime)) s

/-! ### What a call does -/

namespace ClockHost

variable {F : Doubles} {self host : ClockHost F} {time : Int} {id : RpcId}

theorem createRequest_ok (h : self.createRequest id time = .ok host) :
    id ∉ self.clock.requestSendTimeMap ∧
    host = { self with clock := { self.clock with
      requestSendTimeMap := self.clock.requestSendTimeMap.insert id (self.rawClock time) } } := by
  rw [createRequest, bind_ok] at h
  obtain ⟨clock, hclock, h⟩ := h
  rw [ClockSynchronizer.createRequest, stamp_now] at hclock
  split at hclock
  · cases hclock
  · rename_i hnew
    cases hclock
    cases h
    exact ⟨hnew, rfl⟩

theorem receiveRequest_ok (h : self.receiveRequest id time = .ok host) :
    id ∉ self.clock.requestReceiveTimeMap ∧
    host = { self with clock := { self.clock with
      requestReceiveTimeMap :=
        self.clock.requestReceiveTimeMap.insert id (self.rawClock time) } } := by
  rw [receiveRequest, bind_ok] at h
  obtain ⟨clock, hclock, h⟩ := h
  rw [ClockSynchronizer.receiveRequest, stamp_now] at hclock
  split at hclock
  · cases hclock
  · rename_i hnew
    cases hclock
    cases h
    exact ⟨hnew, rfl⟩

theorem getReplyDuration_ok {r : Int × Int} (h : self.getReplyDuration id time = .ok r) :
    self.clock.requestReceiveTimeMap.lookup id = some r.1 ∧ r.2 = self.rawClock time := by
  rw [getReplyDuration, ClockSynchronizer.getReplyDuration, stamp_now] at h
  split at h
  · cases h
  · rename_i sendTime hsent
    cases h
    exact ⟨hsent, rfl⟩

theorem eraseRequestRecieveTime_ok (h : self.eraseRequestRecieveTime id = .ok host) :
    host = { self with clock := { self.clock with
      requestReceiveTimeMap := self.clock.requestReceiveTimeMap.erase id } } := by
  rw [eraseRequestRecieveTime, bind_ok] at h
  obtain ⟨clock, hclock, h⟩ := h
  rw [ClockSynchronizer.eraseRequestRecieveTime] at hclock
  split at hclock
  · cases hclock
    cases h
    rfl
  · cases hclock

/-- A handled reply leaves the raw clock and the other requests alone. -/
theorem handleReply_frame {requestReceiveTime replySendTime : Int}
    (h : self.handleReply id requestReceiveTime replySendTime time = .ok host) :
    (∀ t, host.rawClock t = self.rawClock t) ∧
    host.clock.requestSendTimeMap = self.clock.requestSendTimeMap.erase id ∧
    host.clock.requestReceiveTimeMap = self.clock.requestReceiveTimeMap := by
  obtain ⟨requestSendTime, -, -, hclock, hdrift, hahead⟩ := handleReply_ok h
  refine ⟨fun t => ?_, by rw [hclock], by rw [hclock]⟩
  have hnoise : host.timeHandler.noiseShift = self.timeHandler.noiseShift :=
    (congrArg (fun r => r.2.noiseShift) hdrift).trans (ClockDrift.updateDrift_noiseShift _ _ _)
  simp only [rawClock, now, hahead, hnoise]

/-- No call changes the raw clock. -/
theorem call_rawClock {call : ClockCall} (h : self.call time call = .ok host) (t : Int) :
    host.rawClock t = self.rawClock t := by
  cases call with
  | createRequest id => rw [(createRequest_ok h).2]; rfl
  | receiveRequest id => rw [(receiveRequest_ok h).2]; rfl
  | getReplyDuration id =>
      obtain ⟨_, _, h⟩ := bind_ok.mp h
      cases h
      rfl
  | eraseRequestRecieveTime id => rw [eraseRequestRecieveTime_ok h]; rfl
  | handleReply id requestReceiveTime replySendTime => exact (handleReply_frame h).1 t
  | setTimeShift timeShift =>
      cases h
      rfl

/-- The stamp of a request stays until a reply to it is handled. -/
theorem call_sent {call : ClockCall} {t : Int} (h : self.call time call = .ok host)
    (hcall : ∀ rr rs, call ≠ .handleReply id rr rs)
    (hs : self.clock.requestSendTimeMap.lookup id = some t) :
    host.clock.requestSendTimeMap.lookup id = some t := by
  cases call with
  | createRequest id' =>
      obtain ⟨hnew, rfl⟩ := createRequest_ok h
      have hne : id ≠ id' := by
        rintro rfl
        exact hnew (AList.lookup_isSome.mp (by simp [hs]))
      simp only [AList.lookup_insert_ne hne, hs]
  | receiveRequest id' =>
      obtain ⟨-, rfl⟩ := receiveRequest_ok h
      exact hs
  | getReplyDuration id' =>
      obtain ⟨_, _, h⟩ := bind_ok.mp h
      cases h
      exact hs
  | eraseRequestRecieveTime id' =>
      rw [eraseRequestRecieveTime_ok h]
      exact hs
  | handleReply id' rr rs =>
      have hne : id ≠ id' := by
        rintro rfl
        exact hcall rr rs rfl
      rw [(handleReply_frame h).2.1, AList.lookup_erase_ne hne, hs]
  | setTimeShift timeShift =>
      cases h
      exact hs

/-- The stamp of an arrival stays until it is erased. -/
theorem call_received {call : ClockCall} {t : Int} (h : self.call time call = .ok host)
    (hcall : call ≠ .eraseRequestRecieveTime id)
    (hs : self.clock.requestReceiveTimeMap.lookup id = some t) :
    host.clock.requestReceiveTimeMap.lookup id = some t := by
  cases call with
  | createRequest id' =>
      obtain ⟨-, rfl⟩ := createRequest_ok h
      exact hs
  | receiveRequest id' =>
      obtain ⟨hnew, rfl⟩ := receiveRequest_ok h
      have hne : id ≠ id' := by
        rintro rfl
        exact hnew (AList.lookup_isSome.mp (by simp [hs]))
      simp only [AList.lookup_insert_ne hne, hs]
  | getReplyDuration id' =>
      obtain ⟨_, _, h⟩ := bind_ok.mp h
      cases h
      exact hs
  | eraseRequestRecieveTime id' =>
      have hne : id ≠ id' := by
        rintro rfl
        exact hcall rfl
      rw [eraseRequestRecieveTime_ok h]
      simp only [AList.lookup_erase_ne hne, hs]
  | handleReply id' rr rs =>
      rw [(handleReply_frame h).2.2, hs]
  | setTimeShift timeShift =>
      cases h
      exact hs

end ClockHost

/-! ### What a step keeps -/

namespace ClockPair

variable {F : Doubles} {s s' : ClockPair F} {e : ClockEvent} {id : RpcId} {t : Int}

/-- A step changes no raw clock. -/
theorem step_rawClock (h : (clockPair F).step s e s') (t : Int) :
    s'.requester.rawClock t = s.requester.rawClock t ∧
      s'.responder.rawClock t = s.responder.rawClock t := by
  cases e with
  | wait duration =>
      cases h
      exact ⟨rfl, rfl⟩
  | requester call =>
      obtain ⟨host, hcall, h⟩ := bind_ok.mp h
      cases h
      exact ⟨ClockHost.call_rawClock hcall t, rfl⟩
  | responder call =>
      obtain ⟨host, hcall, h⟩ := bind_ok.mp h
      cases h
      exact ⟨rfl, ClockHost.call_rawClock hcall t⟩

theorem step_sent (h : (clockPair F).step s e s') (he : Unanswered id e)
    (hs : s.requester.clock.requestSendTimeMap.lookup id = some t) :
    s'.requester.clock.requestSendTimeMap.lookup id = some t := by
  cases e with
  | wait duration =>
      cases h
      exact hs
  | requester call =>
      obtain ⟨host, hcall, h⟩ := bind_ok.mp h
      cases h
      exact ClockHost.call_sent hcall (fun rr rs hc => he rr rs (hc ▸ rfl)) hs
  | responder call =>
      obtain ⟨host, hcall, h⟩ := bind_ok.mp h
      cases h
      exact hs

theorem step_received (h : (clockPair F).step s e s') (he : Unacknowledged id e)
    (hs : s.responder.clock.requestReceiveTimeMap.lookup id = some t) :
    s'.responder.clock.requestReceiveTimeMap.lookup id = some t := by
  cases e with
  | wait duration =>
      cases h
      exact hs
  | requester call =>
      obtain ⟨host, hcall, h⟩ := bind_ok.mp h
      cases h
      exact hs
  | responder call =>
      obtain ⟨host, hcall, h⟩ := bind_ok.mp h
      cases h
      exact ClockHost.call_received hcall (fun hc => he (hc ▸ rfl)) hs

/-- Time does not go back. -/
theorem leads_time {P : ClockEvent → Prop} (h : ((clockPair F).only P).Leads s s') :
    s.time ≤ s'.time := by
  refine System.Leads.keeps (I := fun s' => s.time ≤ s'.time) ?_ h le_rfl
  rintro s₁ e s₂ h₁ ⟨-, h⟩
  cases e with
  | wait duration =>
      cases h
      exact h₁.trans (Int.le_add_of_nonneg_right (Int.natCast_nonneg duration))
  | requester call =>
      obtain ⟨host, -, h⟩ := bind_ok.mp h
      cases h
      exact h₁
  | responder call =>
      obtain ⟨host, -, h⟩ := bind_ok.mp h
      cases h
      exact h₁

/-- No events change a raw clock. -/
theorem leads_rawClock {P : ClockEvent → Prop} (h : ((clockPair F).only P).Leads s s') :
    s'.requester.rawClock = s.requester.rawClock ∧
      s'.responder.rawClock = s.responder.rawClock := by
  refine System.Leads.keeps (I := fun s' => s'.requester.rawClock = s.requester.rawClock ∧
    s'.responder.rawClock = s.responder.rawClock) ?_ h ⟨rfl, rfl⟩
  rintro s₁ e s₂ ⟨h₁, h₂⟩ ⟨-, h⟩
  exact ⟨(funext fun t => (step_rawClock h t).1).trans h₁,
    (funext fun t => (step_rawClock h t).2).trans h₂⟩

/-- The stamp of a request stays while no reply to it is handled. -/
theorem leads_sent {P : ClockEvent → Prop} (hP : ∀ e, P e → Unanswered id e)
    (h : ((clockPair F).only P).Leads s s')
    (hs : s.requester.clock.requestSendTimeMap.lookup id = some t) :
    s'.requester.clock.requestSendTimeMap.lookup id = some t := by
  refine System.Leads.keeps (I := fun s => s.requester.clock.requestSendTimeMap.lookup id = some t)
    ?_ h hs
  rintro s₁ e s₂ h₁ ⟨he, h⟩
  exact step_sent h (hP e he) h₁

/-- The stamp of an arrival stays while it is not erased. -/
theorem leads_received {P : ClockEvent → Prop} (hP : ∀ e, P e → Unacknowledged id e)
    (h : ((clockPair F).only P).Leads s s')
    (hs : s.responder.clock.requestReceiveTimeMap.lookup id = some t) :
    s'.responder.clock.requestReceiveTimeMap.lookup id = some t := by
  refine System.Leads.keeps
    (I := fun s => s.responder.clock.requestReceiveTimeMap.lookup id = some t) ?_ h hs
  rintro s₁ e s₂ h₁ ⟨he, h⟩
  exact step_received h (hP e he) h₁

end ClockPair

/-! ### What is measured -/

namespace Exchange

variable {F : Doubles} {id : RpcId} {requestReceiveTime replySendTime : Int}
  {s₁ s₂ s₃ s₄ s : ClockPair F}

/-- What the four stamps are. -/
theorem stamps (x : Exchange id requestReceiveTime replySendTime s₁ s₂ s₃ s₄ s) :
    ∃ sample : DriftSample,
      s.requester.clock.samples = s₄.requester.clock.samples ++ [sample] ∧
      (s.requester.drift, s.requester.timeHandler) =
        s₄.requester.drift.updateDrift sample s₄.requester.timeHandler ∧
      sample.requestSendTime = s₁.requester.rawClock s₁.time ∧
      sample.requestReceiptTime = s₁.responder.rawClock s₂.time ∧
      sample.replySendTime = s₁.responder.rawClock s₃.time ∧
      sample.replyReceiveTime = s₁.requester.rawClock s₄.time := by
  obtain ⟨⟨s₁', h₁, hl₁⟩, ⟨s₂', h₂, hl₂⟩, hreply, hl₃, h⟩ := x
  obtain ⟨host₁, hcreate, h₁⟩ := bind_ok.mp h₁
  obtain ⟨host₂, hreceive, h₂⟩ := bind_ok.mp h₂
  obtain ⟨host, hhandled, h⟩ := bind_ok.mp h
  cases h₁
  cases h₂
  cases h
  -- the raw clocks are the same throughout
  have hraw₁ := funext (ClockHost.call_rawClock hcreate)
  have hraw₂ := funext (ClockHost.call_rawClock hreceive)
  obtain ⟨hq₁, hr₁⟩ := ClockPair.leads_rawClock hl₁
  obtain ⟨hq₂, hr₂⟩ := ClockPair.leads_rawClock hl₂
  obtain ⟨hq₃, hr₃⟩ := ClockPair.leads_rawClock hl₃
  simp only at hq₁ hr₁ hq₂ hr₂ hraw₁ hraw₂
  -- the stamp of the request
  have hsent : host₁.clock.requestSendTimeMap.lookup id = some (s₁.requester.rawClock s₁.time) := by
    obtain ⟨-, rfl⟩ := ClockHost.createRequest_ok hcreate
    exact AList.lookup_insert _
  have hsent := ClockPair.leads_sent (fun _ h => h) hl₁ hsent
  have hsent := ClockPair.leads_sent (s := ⟨_, _, host₂⟩) (fun _ h => h.1) hl₂ hsent
  have hsent := ClockPair.leads_sent (fun _ h => h) hl₃ hsent
  -- the stamp of its arrival
  have hreceived :
      host₂.clock.requestReceiveTimeMap.lookup id = some (s₂.responder.rawClock s₂.time) := by
    obtain ⟨-, rfl⟩ := ClockHost.receiveRequest_ok hreceive
    exact AList.lookup_insert _
  have hreceived := ClockPair.leads_received (fun _ h => h.2) hl₂ hreceived
  obtain ⟨hrr, hrs⟩ := ClockHost.getReplyDuration_ok hreply
  obtain ⟨requestSendTime, hsample, -, hclock, hdrift, -⟩ := ClockHost.handleReply_ok hhandled
  refine ⟨_, by rw [hclock], hdrift, ?_, ?_, ?_, ?_⟩
  · exact Option.some.inj (hsample.symm.trans hsent)
  · exact (Option.some.inj (hrr.symm.trans hreceived)).trans (congrFun hr₁ _)
  · exact hrs.trans (congrFun ((hr₂.trans hraw₂).trans hr₁) _)
  · exact (ClockHost.stamp_now _ _).trans (congrFun (((hq₃.trans hq₂).trans hq₁).trans hraw₁) _)

/-- Neither packet is under way for less than no time. -/
theorem delays (x : Exchange id requestReceiveTime replySendTime s₁ s₂ s₃ s₄ s) :
    s₁.time ≤ s₂.time ∧ s₃.time ≤ s₄.time := by
  obtain ⟨⟨s₁', h₁, hl₁⟩, -, -, hl₃, -⟩ := x
  obtain ⟨host, -, h₁⟩ := bind_ok.mp h₁
  cases h₁
  have h := ClockPair.leads_time hl₁
  exact ⟨h, ClockPair.leads_time hl₃⟩

/-- Halving rounds by one half at most. -/
private theorem twice_tdiv_two (a : Int) : a - 1 ≤ 2 * a.tdiv 2 ∧ 2 * a.tdiv 2 ≤ a + 1 := by
  have h := Int.mul_tdiv_add_tmod a 2
  have h₁ := Int.tmod_lt_of_pos a (b := 2) (by decide)
  have h₂ := Int.lt_tmod_of_pos a (b := 2) (by decide)
  omega

/-- **The clock offset is off by no more than half the round trip.**  With the delay of the request
from the call of `createRequest` to its arrival and that of the copy of the reply that is handled,
`updateDrift` computes their sum as the ping, and an offset that differs from that of the raw
clocks by half of it at most, up to the rounding. -/
theorem offset_within_half_ping
    (x : Exchange id requestReceiveTime replySendTime s₁ s₂ s₃ s₄ s) {d₁ d₂ θ : Int}
    (hd₁ : s₂.time = s₁.time + d₁) (hd₂ : s₄.time = s₃.time + d₂) (hθ : s₁.theta = θ) :
    ∃ sample : DriftSample,
      s.requester.clock.samples = s₄.requester.clock.samples ++ [sample] ∧
      (s.requester.drift, s.requester.timeHandler) =
        s₄.requester.drift.updateDrift sample s₄.requester.timeHandler ∧
      sample.ping = d₁ + d₂ ∧
      |2 * (s₄.requester.drift.timeOffset sample + θ)| ≤ d₁ + d₂ + 1 := by
  obtain ⟨sample, hsamples, hdrift, hrs, hrr, hps, hpr⟩ := x.stamps
  obtain ⟨h₁, h₂⟩ := x.delays
  simp only [ClockPair.theta, ClockHost.rawClock, ClockHost.now] at hrs hrr hps hpr hθ
  have hping : sample.ping = d₁ + d₂ := by
    simp only [DriftSample.ping]
    omega
  refine ⟨sample, hsamples, hdrift, hping, ?_⟩
  rw [ClockDrift.timeOffset_eq, DriftSample.offset]
  have hdelta : (sample.replyReceiveTime - sample.replySendTime) -
      (sample.requestReceiptTime - sample.requestSendTime) = d₂ - d₁ - 2 * θ := by omega
  rw [hdelta]
  have hround := twice_tdiv_two (d₂ - d₁ - 2 * θ)
  exact abs_le.mpr ⟨by omega, by omega⟩

/-- A host with new members whose `now()` is so far ahead. -/
def newHost (ahead : Int) : ClockHost .exact := ⟨ahead, .new, .new, .new true⟩

/-- A request is ten under way and its reply twenty; both hosts set their time shifts meanwhile. -/
private theorem measured : ∃ rr rs, ∃ s₁ s₂ s₃ s₄ s : ClockPair .exact,
    Exchange ⟨0, 7⟩ rr rs s₁ s₂ s₃ s₄ s ∧
      s₂.time = s₁.time + 10 ∧ s₄.time = s₃.time + 20 ∧ s₁.theta = 100 := by
  refine ⟨_, _, ⟨0, newHost 0, newHost 100⟩, _, _, _, _,
    ⟨⟨_, rfl, .tail (.single ⟨.requester (.setTimeShift 7), ?_, rfl⟩) ⟨.wait 10, ?_, rfl⟩⟩,
      ⟨_, rfl, .tail (.single ⟨.responder (.setTimeShift 9), ⟨?_, ?_⟩, rfl⟩)
        ⟨.wait 5, ⟨?_, ?_⟩, rfl⟩⟩,
      rfl, .single ⟨.wait 20, ?_, rfl⟩, rfl⟩, rfl, rfl, rfl⟩
  all_goals simp [Unanswered, Unacknowledged]

theorem offset_within_half_ping_measured : ∃ (s₄ s : ClockPair .exact) (sample : DriftSample),
    s.requester.clock.samples = s₄.requester.clock.samples ++ [sample] ∧ sample.ping = 30 ∧
      |2 * (s₄.requester.drift.timeOffset sample + 100)| ≤ 31 := by
  obtain ⟨rr, rs, s₁, s₂, s₃, s₄, s, x, h₁, h₂, hθ⟩ := measured
  obtain ⟨sample, hsamples, -, hping, hoffset⟩ := x.offset_within_half_ping h₁ h₂ hθ
  exact ⟨s₄, s, sample, hsamples, hping, hoffset⟩

end Exchange

end Wga
