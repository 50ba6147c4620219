import WeGoAll.Base.EncryptedMultiEndpointHandler
import WeGoAll.Peer.InputValues
import WeGoAll.Rpc.Consistency

/-!
# Peer — NetPeer

A peer with the endpoints its inputs travel through: what `updateState` broadcasts, what `update`
takes out of the endpoints, and the stages of `shutdown`.

* `NetPeer`: the peer; `view` is what a call of `getAllInputValues` sees of it.
* `forEach_ok`: a method of all endpoints.
* `readRequests_drains`, `readReplies_drains`: the loops of `update` leave nothing behind.
-/

namespace Wga

/-- Where `shutdown` stands. -/
inductive ShutdownStage where
  /-- It has not been called, or waits for work to flush. -/
  | running
  | flushed
  /-- After `rpcServer->sendShutdown`. -/
  | sentShutdown
  | shuttingDown
  | updateFinished
  /-- The endpoints are gone and the socket is closed. -/
  | finished
  deriving DecidableEq

/-- The members of `MyPeer` that its inputs pass through, and the endpoints of its `rpcServer`. -/
structure NetPeer where
  userId : Bytes
  inputs : MyInputs
  /-- The keys of `peerData`, in their order. -/
  peerIds : List Bytes
  /-- `peerData[id]->playerInputData`, of the other peers. -/
  peerData : Bytes → ChronoMap Bytes Bytes
  /-- `rpcServer->endpoints[id]`, of the other peers. -/
  endpoints : Bytes → PlainRpc
  updateCounter : Nat
  stage : ShutdownStage

namespace NetPeer

/-- A peer at the start of a game. -/
def new (peerIds : List Bytes) (userId : Bytes) (flaky : Bool) (env : Bytes → Env) : NetPeer :=
  ⟨userId, MyPeer.noInputs, peerIds, fun _ => .new, fun id => .new flaky (env id), 0, .running⟩

/-- The keys of `rpcServer->endpoints`. -/
def endpointIds (self : NetPeer) : List Bytes := self.peerIds.filter (· ≠ self.userId)

def sentShutdown (self : NetPeer) : Bool :=
  match self.stage with
  | .running | .flushed => false
  | .sentShutdown | .shuttingDown | .updateFinished | .finished => true

/-- What a call of `getAllInputValues` sees of the peer. -/
def view (self : NetPeer) : InputPeer where
  userId := self.userId
  inputs := self.inputs
  peerIds := self.peerIds
  peerData := self.peerData
  endpoints := fun id => ⟨[], (self.endpoints id).rpc.shuttingDown⟩
  broadcasts := 0
  sentShutdown := self.sentShutdown

def setEndpoint (id : Bytes) (endpoint : PlainRpc) (self : NetPeer) : NetPeer :=
  { self with endpoints := Function.update self.endpoints id endpoint }

variable (L : Libraries)

/-- A method of the endpoint of `id`. -/
def call (id : Bytes) (c : Call) (self : NetPeer) : Except Fault NetPeer := do
  let endpoint ← c.run L (PlainRpc.virtuals L) (self.endpoints id)
  .ok (self.setEndpoint id endpoint)

/-- `for (auto it : endpoints)` over a method. -/
def forEach (c : Bytes → Call) (self : NetPeer) : Except Fault NetPeer :=
  self.endpointIds.foldlM (fun self id => self.call L id (c id)) self

/-- `rpcServer->hasWork()`; the clock decides which connections are dead. -/
def hasWork (isConnectionDead : Bytes → Bool) (self : NetPeer) : Bool :=
  self.endpointIds.any fun id =>
    if isConnectionDead id then false else BiDirectionalRpc.hasWork (self.endpoints id).rpc

/-- `updateState`; `uuid` draws the identifier of each request. -/
def updateState (uuid : Bytes → UInt64) (timestamp : Int) (data : UnorderedMap Bytes Bytes)
    (self : NetPeer) : Except Fault NetPeer := do
  let (s, inputs) ← MyPeer.updateState L timestamp data self.inputs
  forEach L (fun id => .requestOneWay (uuid id) s) { self with inputs := inputs }

/-! ### The update loop -/

/-- The body of the loop over the incoming requests of `peerKey`. -/
def readRequest (peerKey : Bytes) (idPayload : IdPayload) (self : NetPeer) :
    Except Fault NetPeer := do
  let playerInputData ← MyPeer.readInputs L idPayload.payload (self.peerData peerKey)
  let self := { self with peerData := Function.update self.peerData peerKey playerInputData }
  -- `replyOneWay`
  self.call L peerKey (.reply idPayload.id OK)

/-- `while (endpointHandler->hasIncomingRequest())`; an iteration takes one request out. -/
def readRequests (peerKey : Bytes) : Nat → NetPeer → Except Fault NetPeer
  | 0, self => .ok self
  | fuel + 1, self =>
      match (self.endpoints peerKey).rpc.incomingRequests.entries with
      | [] => .ok self
      | ⟨id, payload⟩ :: _ => do
          let self ← self.readRequest L peerKey ⟨id, payload⟩
          readRequests peerKey fuel self

/-- `while (endpointHandler->hasIncomingReply())`; an iteration takes one reply out. -/
def readReplies (peerKey : Bytes) : Nat → NetPeer → Except Fault NetPeer
  | 0, self => .ok self
  | fuel + 1, self =>
      match (self.endpoints peerKey).rpc.incomingReplies.entries with
      | [] => .ok self
      | _ :: _ => do
          let self ← self.call L peerKey .getFirstIncomingReply
          readReplies peerKey fuel self

/-- The body of the loop over `peerData`. -/
def readPeer (self : NetPeer) (peerKey : Bytes) : Except Fault NetPeer := do
  let self ← self.readRequests L peerKey
    (self.endpoints peerKey).rpc.incomingRequests.entries.length
  self.readReplies L peerKey (self.endpoints peerKey).rpc.incomingReplies.entries.length

/-- `update`; `uuid` draws the identifiers of its heartbeats. -/
def update (uuid : Bytes → UInt64) (self : NetPeer) : Except Fault NetPeer := do
  let self ← (if self.updateCounter % 100 = 0 then self.forEach L fun id => .heartbeat (uuid id)
    else .ok self)
  let self ← self.endpointIds.foldlM (readPeer L) self
  -- signed overflow is undefined
  if self.updateCounter = 2 ^ 31 - 1 then .error (.thrown "signed overflow")
  else
    .ok { self with
      updateCounter := self.updateCounter + 1
      stage := if self.stage = .shuttingDown then .updateFinished else self.stage }

/-! ### Shutting down -/

/-- What `shutdown` does next; it waits where there is work to flush. -/
def shutdown (uuid : Bytes → UInt64) (isConnectionDead : Bytes → Bool) (self : NetPeer) :
    Except Fault NetPeer :=
  match self.stage with
  | .running =>
      .ok (if self.hasWork isConnectionDead then self else { self with stage := .flushed })
  | .flushed => do
      let self ← self.forEach L fun id => .sendShutdown (uuid id)
      .ok { self with stage := .sentShutdown }
  | .sentShutdown =>
      .ok (if self.hasWork isConnectionDead then self else { self with stage := .shuttingDown })
  -- until `updateFinished`
  | .shuttingDown => .ok self
  | .updateFinished => .ok { self with stage := .finished }
  | .finished => .ok self

variable {L} {self self' : NetPeer}

/-! ### What the methods change -/

@[simp] theorem setEndpoint_self (id : Bytes) (v : PlainRpc) (self : NetPeer) :
    (self.setEndpoint id v).endpoints id = v := Function.update_self _ _ _

theorem setEndpoint_of_ne {q id : Bytes} (hq : q ≠ id) (v : PlainRpc) (self : NetPeer) :
    (self.setEndpoint id v).endpoints q = self.endpoints q := Function.update_of_ne hq _ _

theorem call_ok {id : Bytes} {c : Call} (h : self.call L id c = .ok self') :
    c.run L (PlainRpc.virtuals L) (self.endpoints id) = .ok (self'.endpoints id) ∧
      (∀ q, q ≠ id → self'.endpoints q = self.endpoints q) ∧
      self' = { self with endpoints := self'.endpoints } := by
  obtain ⟨v, hv, h⟩ := bind_ok.mp h
  cases h
  exact ⟨by rw [hv, setEndpoint_self], fun q hq => setEndpoint_of_ne hq v self, rfl⟩

theorem calls_ok {c : Bytes → Call} {l : List Bytes} (hl : l.Nodup)
    (h : l.foldlM (fun self id => self.call L id (c id)) self = .ok self') :
    (∀ id ∈ l, (c id).run L (PlainRpc.virtuals L) (self.endpoints id) =
        .ok (self'.endpoints id)) ∧
      (∀ q, q ∉ l → self'.endpoints q = self.endpoints q) ∧
      self' = { self with endpoints := self'.endpoints } := by
  induction l generalizing self with
  | nil =>
      cases h
      exact ⟨fun id hid => absurd hid List.not_mem_nil, fun _ _ => rfl, rfl⟩
  | cons a l ih =>
      rw [List.foldlM_cons] at h
      obtain ⟨self₁, h₁, h⟩ := bind_ok.mp h
      obtain ⟨ha, hl⟩ := List.nodup_cons.mp hl
      obtain ⟨hcall, hrest₁, heq₁⟩ := call_ok h₁
      obtain ⟨hcalls, hrest, heq⟩ := ih hl h
      refine ⟨fun id hid => ?_, fun q hq => ?_, ?_⟩
      · rcases List.mem_cons.mp hid with rfl | hid
        · rw [hrest id ha]
          exact hcall
        · rw [← hrest₁ id fun heq => ha (heq ▸ hid)]
          exact hcalls id hid
      · rw [List.mem_cons, not_or] at hq
        rw [hrest q hq.2, hrest₁ q hq.1]
      · rw [heq, heq₁]

/-- **A method of all endpoints** is that method of each. -/
theorem forEach_ok {c : Bytes → Call} (hids : self.peerIds.Nodup)
    (h : self.forEach L c = .ok self') :
    (∀ id ∈ self.endpointIds, (c id).run L (PlainRpc.virtuals L) (self.endpoints id) =
        .ok (self'.endpoints id)) ∧
      (∀ q, q ∉ self.endpointIds → self'.endpoints q = self.endpoints q) ∧
      self' = { self with endpoints := self'.endpoints } :=
  calls_ok (hids.filter _) h

theorem updateState_ok {uuid : Bytes → UInt64} {timestamp : Int}
    {data : UnorderedMap Bytes Bytes} (hids : self.peerIds.Nodup)
    (h : self.updateState L uuid timestamp data = .ok self') :
    ∃ payload inputs, MyPeer.updateState L timestamp data self.inputs = .ok (payload, inputs) ∧
      (∀ id ∈ self.endpointIds,
        (Call.requestOneWay (uuid id) payload).run L (PlainRpc.virtuals L) (self.endpoints id) =
          .ok (self'.endpoints id)) ∧
      self' = { self with inputs := inputs, endpoints := self'.endpoints } := by
  obtain ⟨⟨payload, inputs⟩, hup, h⟩ := bind_ok.mp h
  have hids' : NetPeer.peerIds { self with inputs := inputs } = self.peerIds := rfl
  obtain ⟨hcalls, -, heq⟩ := forEach_ok (hids'.symm ▸ hids) h
  exact ⟨payload, inputs, hup, hcalls, heq⟩

/-- Without work to flush, an endpoint has no work unless its connection is dead. -/
theorem endpoint_hasWork {isConnectionDead : Bytes → Bool}
    (hwork : self.hasWork isConnectionDead = false) {q : Bytes} (hq : q ∈ self.endpointIds)
    (hlive : isConnectionDead q = false) :
    BiDirectionalRpc.hasWork (self.endpoints q).rpc = false := by
  have hnone := List.any_eq_false.mp hwork q hq
  rwa [hlive, if_neg Bool.false_ne_true, Bool.not_eq_true] at hnone

/-- **What `shutdown` can do.** -/
theorem shutdown_ok {uuid : Bytes → UInt64} {isConnectionDead : Bytes → Bool}
    (h : self.shutdown L uuid isConnectionDead = .ok self') :
    self' = self ∨
    (self.stage = .running ∧ self.hasWork isConnectionDead = false ∧
      self' = { self with stage := .flushed }) ∨
    (self.stage = .flushed ∧ ∃ self₁,
      self.forEach L (fun id => .sendShutdown (uuid id)) = .ok self₁ ∧
      self' = { self₁ with stage := .sentShutdown }) ∨
    (self.stage = .sentShutdown ∧ self.hasWork isConnectionDead = false ∧
      self' = { self with stage := .shuttingDown }) ∨
    (self.stage = .updateFinished ∧ self' = { self with stage := .finished }) := by
  rw [shutdown] at h
  split at h
  · rename_i hstage
    cases h
    split
    · exact .inl rfl
    · rename_i hwork
      exact .inr (.inl ⟨hstage, Bool.not_eq_true _ ▸ hwork, rfl⟩)
  · rename_i hstage
    obtain ⟨self₁, h₁, h⟩ := bind_ok.mp h
    cases h
    exact .inr (.inr (.inl ⟨hstage, self₁, h₁, rfl⟩))
  · rename_i hstage
    cases h
    split
    · exact .inl rfl
    · rename_i hwork
      exact .inr (.inr (.inr (.inl ⟨hstage, Bool.not_eq_true _ ▸ hwork, rfl⟩)))
  · cases h
    exact .inl rfl
  · rename_i hstage
    cases h
    exact .inr (.inr (.inr (.inr ⟨hstage, rfl⟩)))
  · cases h
    exact .inl rfl

/-! ### The loops end -/

theorem readRequest_ok {peerKey : Bytes} {idPayload : IdPayload}
    (h : self.readRequest L peerKey idPayload = .ok self') :
    ∃ playerInputData, MyPeer.readInputs L idPayload.payload (self.peerData peerKey) =
        .ok playerInputData ∧
      (Call.reply idPayload.id OK).run L (PlainRpc.virtuals L) (self.endpoints peerKey) =
        .ok (self'.endpoints peerKey) ∧
      (∀ q, q ≠ peerKey → self'.endpoints q = self.endpoints q) ∧
      self' = { self with
        peerData := Function.update self.peerData peerKey playerInputData
        endpoints := self'.endpoints } := by
  obtain ⟨m, hm, h⟩ := bind_ok.mp h
  obtain ⟨hcall, hrest, heq⟩ := call_ok h
  exact ⟨m, hm, hcall, hrest, heq⟩

/-- The loop over the requests leaves none, and no other endpoint changes. -/
theorem readRequests_drains {peerKey : Bytes} {fuel : Nat}
    (hfuel : (self.endpoints peerKey).rpc.incomingRequests.entries.length ≤ fuel)
    (h : self.readRequests L peerKey fuel = .ok self') :
    (self'.endpoints peerKey).rpc.incomingRequests.entries = [] ∧
      ∀ q, q ≠ peerKey → self'.endpoints q = self.endpoints q := by
  induction fuel generalizing self with
  | zero =>
      cases h
      exact ⟨List.length_eq_zero_iff.mp (Nat.le_zero.mp hfuel), fun _ _ => rfl⟩
  | succ fuel ih =>
      rw [readRequests] at h
      split at h
      · rename_i hnil
        cases h
        exact ⟨hnil, fun _ _ => rfl⟩
      · rename_i id payload rest hcons
        obtain ⟨self₁, h₁, h⟩ := bind_ok.mp h
        obtain ⟨m, -, hcall, hrest₁, -⟩ := readRequest_ok h₁
        have hin := UnorderedMap.mem_of_head (List.head?_eq_some_iff.mpr ⟨rest, hcons⟩)
        have hrpc := BiDirectionalRpc.reply_rpc (R := PlainRpc.anything) PlainRpc.send_within hcall
        have hlen := UnorderedMap.length_erase hin
        obtain ⟨hnil, hrest⟩ :=
          ih (by rw [hrpc]; exact Nat.le_of_succ_le_succ (hlen.trans_le hfuel)) h
        exact ⟨hnil, fun q hq => (hrest q hq).trans (hrest₁ q hq)⟩

theorem getFirstIncomingReply_rpc {e e' : PlainRpc} {id : RpcId} {p : Bytes}
    {rest : List (Σ _ : RpcId, Bytes)} (hcons : e.rpc.incomingReplies.entries = ⟨id, p⟩ :: rest)
    (h : Call.getFirstIncomingReply.run L (PlainRpc.virtuals L) e = .ok e') :
    e'.rpc = { e.rpc with
      processedReplies := e.rpc.processedReplies.put L.toLruPolicy processedCapacity id
      incomingReplies := e.rpc.incomingReplies.erase id
      history := e.rpc.history ++ [.handed id p] } := by
  simp only [Call.run, BiDirectionalRpc.getFirstIncomingReply, hcons] at h
  cases h
  rfl

/-- The loop over the replies leaves none, and no request and no other endpoint changes. -/
theorem readReplies_drains {peerKey : Bytes} {fuel : Nat}
    (hfuel : (self.endpoints peerKey).rpc.incomingReplies.entries.length ≤ fuel)
    (h : self.readReplies L peerKey fuel = .ok self') :
    (self'.endpoints peerKey).rpc.incomingReplies.entries = [] ∧
      (self'.endpoints peerKey).rpc.incomingRequests =
        (self.endpoints peerKey).rpc.incomingRequests ∧
      ∀ q, q ≠ peerKey → self'.endpoints q = self.endpoints q := by
  induction fuel generalizing self with
  | zero =>
      cases h
      exact ⟨List.length_eq_zero_iff.mp (Nat.le_zero.mp hfuel), rfl, fun _ _ => rfl⟩
  | succ fuel ih =>
      rw [readReplies] at h
      split at h
      · rename_i hnil
        cases h
        exact ⟨hnil, rfl, fun _ _ => rfl⟩
      · rename_i e rest hcons
        obtain ⟨self₁, h₁, h⟩ := bind_ok.mp h
        obtain ⟨hcall, hrest₁, -⟩ := call_ok h₁
        have hrpc := getFirstIncomingReply_rpc hcons hcall
        have hin := UnorderedMap.mem_of_head (List.head?_eq_some_iff.mpr ⟨rest, hcons⟩)
        have hlen := UnorderedMap.length_erase hin
        obtain ⟨hnil, hsame, hrest⟩ :=
          ih (by rw [hrpc]; exact Nat.le_of_succ_le_succ (hlen.trans_le hfuel)) h
        exact ⟨hnil, by rw [hsame, hrpc], fun q hq => (hrest q hq).trans (hrest₁ q hq)⟩

end NetPeer

end Wga
