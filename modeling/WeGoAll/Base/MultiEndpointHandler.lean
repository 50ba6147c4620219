import WeGoAll.Base.BiDirectionalRpc
import WeGoAll.Support.Order

/-!
# Base — MultiEndpointHandler

`UdpBiDirectionalRpc` and `MultiEndpointHandler`: which endpoint of the peer messages go to, and
when another one is tried.  A draw takes the element of a set at an index that `rand()` gives, in
the order of the set: by address, then by port.

`Handler κ` holds the members of both classes and the members `κ` of a class derived from them.
-/

namespace Wga

/-- `udp::endpoint`; the default one is `0.0.0.0:0`. -/
structure Endpoint where
  address : UInt32 := 0
  port : UInt16 := 0
  deriving DecidableEq, Repr

namespace Endpoint

/-- `operator<=`: the addresses decide, and then the ports. -/
instance : LE Endpoint where
  le a b := a.address < b.address ∨ a.address = b.address ∧ a.port ≤ b.port

instance : DecidableLE Endpoint := fun a b =>
  inferInstanceAs (Decidable (a.address < b.address ∨ a.address = b.address ∧ a.port ≤ b.port))

instance : Std.Total (α := Endpoint) (· ≤ ·) where
  total a b := by
    by_cases h : a.address = b.address
    · exact (UInt16.le_total a.port b.port).imp (fun hp => .inr ⟨h, hp⟩) fun hp => .inr ⟨h.symm, hp⟩
    · exact (UInt32.lt_or_lt_of_ne h).imp .inl .inl

instance : IsTrans Endpoint (· ≤ ·) where
  trans a b c hab hbc := by
    rcases hab with hab | ⟨hab, hpab⟩
    · rcases hbc with hbc | ⟨hbc, -⟩
      · exact .inl (UInt32.lt_trans hab hbc)
      · exact .inl (hbc ▸ hab)
    · rcases hbc with hbc | ⟨hbc, hpbc⟩
      · exact .inl (hab ▸ hbc)
      · exact .inr ⟨hab.trans hbc, UInt16.le_trans hpab hpbc⟩

instance : Std.Antisymm (α := Endpoint) (· ≤ ·) where
  antisymm a b hab hba := by
    rcases hab with hab | ⟨hab, hpab⟩
    · rcases hba with hba | ⟨hba, -⟩
      · exact absurd hba (UInt32.lt_asymm hab)
      · exact absurd hab (hba ▸ UInt32.lt_irrefl _)
    · rcases hba with hba | ⟨-, hpba⟩
      · exact absurd hba (hab ▸ UInt32.lt_irrefl _)
      · cases a
        cases b
        exact congrArg₂ Endpoint.mk hab (UInt16.le_antisymm hpab hpba)

end Endpoint

/-- `std::set<udp::endpoint>`. -/
abbrev EndpointSet := Finset Endpoint

namespace EndpointSet

/-- `DRAW_FROM_UNORDERED`; `n` is the number `rand()` returned. -/
def draw (n : Nat) (s : EndpointSet) : Option Endpoint :=
  (inOrder s)[n % (inOrder s).length]?

theorem mem_of_draw {n : Nat} {s : EndpointSet} {e : Endpoint} (h : s.draw n = some e) : e ∈ s :=
  mem_inOrder.mp (List.mem_of_getElem? h)

/-- A draw from a set that has an element finds one. -/
theorem draw_isSome {n : Nat} {s : EndpointSet} {e : Endpoint} (h : e ∈ s) :
    ∃ a, s.draw n = some a := by
  have hn : n % (inOrder s).length < (inOrder s).length :=
    Nat.mod_lt _ (List.length_pos_of_mem (mem_inOrder.mpr h))
  exact ⟨_, List.getElem?_eq_getElem hn⟩

end EndpointSet

/-- The members of `UdpBiDirectionalRpc` and `MultiEndpointHandler`, with the messages handed to
`netEngine->post`, and the members of a class derived from them. -/
structure Handler (κ : Type) where
  activeEndpoint : Endpoint
  lastSendTime : Int
  sendBytes : Nat
  doubleSends : Bool
  posted : List Bytes
  lastUpdateTime : Int
  lastUnrepliedSendTime : Int
  lastUnrepliedSendOrKillTime : Int
  alternativeEndpoints : EndpointSet
  deadEndpoints : EndpointSet
  bannedEndpoints : EndpointSet
  derived : κ

namespace UdpBiDirectionalRpc

variable {κ : Type}

/-- `send`; the delay of a flaky object is left to the network. -/
def send (message : Bytes) (self : Self (Handler κ)) : Self (Handler κ) :=
  let (now, self) := self.time
  let self :=
    if self.sub.lastSendTime ≠ now then
      let (now, self) := self.time
      { self with sub.lastSendTime := now, sub.sendBytes := 0 }
    else self
  let self := { self with sub.sendBytes := self.sub.sendBytes + message.length }
  if self.sub.sendBytes > 20 * 1024 then self
  else
    { self with
      sub.posted := self.sub.posted ++
        List.replicate (if self.sub.doubleSends then 2 else 1) message }

end UdpBiDirectionalRpc

namespace MultiEndpointHandler

variable {κ : Type}

/-- The constructor; `now` is what `time(NULL)` returned. -/
def new (endpoints : List Endpoint) (now : Int) (derived : κ) : Except Fault (Handler κ) :=
  match endpoints with
  | [] => .error (.fatal "Passed an empty endpoints array")
  | first :: rest =>
      .ok {
        activeEndpoint := first
        lastSendTime := 0
        sendBytes := 0
        doubleSends := true
        posted := []
        lastUpdateTime := now
        lastUnrepliedSendTime := 0
        lastUnrepliedSendOrKillTime := 0
        alternativeEndpoints := rest.foldl (fun s e => insert e s) ∅
        deadEndpoints := ∅
        bannedEndpoints := ∅
        derived := derived }

/-! ### The roles of the endpoints -/

/-- `addEndpoint`: an endpoint with no role yet becomes an alternative. -/
def addEndpoint (newEndpoint : Endpoint) (h : Handler κ) : Handler κ :=
  if newEndpoint ∈ h.bannedEndpoints then h
  else if h.activeEndpoint = newEndpoint then h
  else if newEndpoint ∈ h.alternativeEndpoints then h
  else if newEndpoint ∈ h.deadEndpoints then h
  else { h with alternativeEndpoints := insert newEndpoint h.alternativeEndpoints }

def addEndpoints (newEndpoints : List Endpoint) (h : Handler κ) : Handler κ :=
  newEndpoints.foldl (fun h e => addEndpoint e h) h

def isEndpointBanned (e : Endpoint) (h : Handler κ) : Bool := e ∈ h.bannedEndpoints

/-- `aliveEndpoints`: the active endpoint and the alternatives. -/
def aliveEndpoints (h : Handler κ) : EndpointSet :=
  insert h.activeEndpoint h.alternativeEndpoints

/-- `hasEndpointAndResurrectIfFound`: an endpoint of the peer that is not banned becomes the active
one. -/
def hasEndpointAndResurrectIfFound (endpoint : Endpoint) (h : Handler κ) : Bool × Handler κ :=
  if endpoint ∈ h.bannedEndpoints then (false, h)
  else if endpoint = h.activeEndpoint then (true, h)
  else if endpoint ∈ h.alternativeEndpoints then
    -- promote alternative to active
    (true, { h with
      alternativeEndpoints :=
        (insert h.activeEndpoint h.alternativeEndpoints).erase endpoint
      activeEndpoint := endpoint })
  else if endpoint ∈ h.deadEndpoints then
    -- promote dead to active
    (true, { h with
      deadEndpoints := h.deadEndpoints.erase endpoint
      alternativeEndpoints := insert h.activeEndpoint h.alternativeEndpoints
      activeEndpoint := endpoint })
  else (false, h)

/-- `killEndpoint`: the active endpoint dies, and an alternative takes its place, or with none left
one of the dead, itself among them. -/
def killEndpoint (self : Self (Handler κ)) : Except Fault (Self (Handler κ)) := do
  let self := { self with
    sub.deadEndpoints := insert self.sub.activeEndpoint self.sub.deadEndpoints }
  let (n, self) := self.rand
  let self ←
    match self.sub.alternativeEndpoints.draw n with
    | some e =>
        .ok { self with
          sub.activeEndpoint := e
          sub.alternativeEndpoints := self.sub.alternativeEndpoints.erase e }
    | none =>
        -- we have no alternatives, try a dead endpoint
        match self.sub.deadEndpoints.draw n with
        | some e =>
            .ok { self with
              sub.activeEndpoint := e
              sub.deadEndpoints := self.sub.deadEndpoints.erase e }
        | none => .error (.fatal "No endpoints to try!")
  let (now, self) := self.time
  .ok { self with sub.lastUnrepliedSendOrKillTime := now }

/-- `banEndpoint`: an active endpoint is killed first; then the banned one is erased from both sets.
-/
def banEndpoint (newEndpoint : Endpoint) (self : Self (Handler κ)) :
    Except Fault (Self (Handler κ)) := do
  let self := { self with
    sub.bannedEndpoints := insert newEndpoint self.sub.bannedEndpoints }
  let self ← if self.sub.activeEndpoint = newEndpoint then killEndpoint self else .ok self
  .ok { self with
    sub.alternativeEndpoints := self.sub.alternativeEndpoints.erase newEndpoint
    sub.deadEndpoints := self.sub.deadEndpoints.erase newEndpoint }

/-! ### Sending -/

/-- `update`: after five seconds without a reply the active endpoint is killed. -/
def update (self : Self (Handler κ)) : Except Fault (Self (Handler κ)) :=
  if self.sub.lastUnrepliedSendTime = 0 then .ok self
  else
    let (now, self) := self.time
    if self.sub.lastUnrepliedSendOrKillTime + 5 < now then killEndpoint self else .ok self

/-- `if (lastUnrepliedSendTime == 0)` at both ends of `send`. -/
def noteUnrepliedSend (self : Self (Handler κ)) : Self (Handler κ) :=
  if self.sub.lastUnrepliedSendTime = 0 then
    let (now, self) := self.time
    { self with sub.lastUnrepliedSendTime := now, sub.lastUnrepliedSendOrKillTime := now }
  else self

def send (message : Bytes) (self : Self (Handler κ)) : Except Fault (Self (Handler κ)) := do
  let self := noteUnrepliedSend self
  let (now, self) := self.time
  let self ←
    if now ≠ self.sub.lastUpdateTime then
      let (now, self) := self.time
      update { self with sub.lastUpdateTime := now }
    else .ok self
  .ok (noteUnrepliedSend (UdpBiDirectionalRpc.send message self))

/-- `isConnectionDead`; `now` is what `time(NULL)` returned. -/
def isConnectionDead (now : Int) (h : Handler κ) : Bool := h.lastUnrepliedSendTime + 5 < now

/-- `hasWork`: a dead connection has no work. -/
def hasWork (now : Int) (self : Self (Handler κ)) : Bool :=
  if isConnectionDead now self.sub then false else BiDirectionalRpc.hasWork self.rpc

/-- `handleReply`, over the base method `base`. -/
def handleReply (base : RpcId → Bytes → Int → Int → Self (Handler κ) →
      Except Fault (Self (Handler κ)))
    (rpcId : RpcId) (payload : Bytes) (requestReceiveTime replySendTime : Int)
    (self : Self (Handler κ)) : Except Fault (Self (Handler κ)) :=
  base rpcId payload requestReceiveTime replySendTime
    { self with sub.lastUnrepliedSendTime := 0, sub.lastUnrepliedSendOrKillTime := 0 }

end MultiEndpointHandler

end Wga
