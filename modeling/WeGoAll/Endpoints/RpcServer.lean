import WeGoAll.Endpoints.Multiplexer
import WeGoAll.Formats.Msgpack
import WeGoAll.Support.Order

/-!
# Endpoints — RpcServer

The handlers of all peers under the ids of the peers.  The map holds pointers to the recipients of
the multiplexer, here their indices; what the methods for all peers do, they do in the order of
the ids.  The latencies are left out.

* `rpcServers`: the system.
* `Run.sound`: every run of a server is a run of its multiplexer.
* `forEach_independent`: a method for all peers is the method for each peer on its own.
-/

namespace Wga

/-- The members of `RpcServer` and of `PortMultiplexer`. -/
structure RpcServer where
  mux : PortMultiplexer
  endpoints : UnorderedMap Bytes Nat

namespace RpcServer

variable (L : Libraries)

/-- The constructor. -/
def new : RpcServer := ⟨.new, ∅⟩

def addEndpoint (id : Bytes) (endpoint : EncryptedHandler) (self : RpcServer) :
    Except Fault RpcServer := do
  let mux ← self.mux.addRecipient endpoint
  .ok ⟨mux, self.endpoints.emplace id self.mux.recipients.length⟩

/-- `it.second->`, a method of the recipient with this index. -/
def call (i : Nat) (c : OwnerCall) (self : RpcServer) : Except Fault RpcServer :=
  match self.mux.recipients[i]? with
  | none => .ok self
  | some r => do
      let r ← c.run L r
      .ok { self with mux.recipients := self.mux.recipients.set i r }

/-- `for (auto it : endpoints)` over a method. -/
def forEach (c : Bytes → OwnerCall) (self : RpcServer) : Except Fault RpcServer :=
  (entriesInOrder self.endpoints).foldlM (fun self it => self.call L it.2 (c it.1)) self

/-- `endpoints.find(id)` and a method of what it finds. -/
def callAt (id : Bytes) (fault : Fault) (c : OwnerCall) (self : RpcServer) :
    Except Fault RpcServer :=
  match self.endpoints.lookup id with
  | none => .error fault
  | some i => self.call L i c

/-- `broadcast`; `uuid` draws the identifier of each request. -/
def broadcast (uuid : Bytes → UInt64) (payload : Bytes) : RpcServer → Except Fault RpcServer :=
  forEach L fun id => .rpc (.requestOneWay (uuid id) payload)

def request (userId : Bytes) (uuid : UInt64) (payload : Bytes) :
    RpcServer → Except Fault RpcServer :=
  callAt L userId (.fatal "Tried to send to an invalid endpoint: ") (.rpc (.request uuid payload))

def reply (id : Bytes) (rpcId : RpcId) (payload : Bytes) : RpcServer → Except Fault RpcServer :=
  callAt L id (.fatal "Could not find endpoint") (.rpc (.reply rpcId payload))

/-- The handler of a peer. -/
def getEndpointHandler (key : Bytes) (self : RpcServer) : Except Fault EncryptedHandler :=
  match (self.endpoints.lookup key).bind (self.mux.recipients[·]?) with
  | none => .error (.fatal "Invalid endpoint handler: ")
  | some r => .ok r

/-- The first request of the first peer that has one. -/
def getIncomingRequest (self : RpcServer) : Option (Bytes × RpcId × Bytes) :=
  (entriesInOrder self.endpoints).findSome? fun it =>
    (self.mux.recipients[it.2]?).bind fun r =>
      r.rpc.incomingRequests.entries.head?.map fun e => (it.1, e.1, e.2)

/-- The first reply of the first peer that has one is taken. -/
def getIncomingReply (self : RpcServer) : Except Fault RpcServer :=
  match (entriesInOrder self.endpoints).find? fun it =>
      (self.mux.recipients[it.2]?).any fun r => r.rpc.incomingReplies.entries ≠ [] with
  | none => .ok self
  | some it => self.call L it.2 (.rpc .getFirstIncomingReply)

def heartbeat (uuid : Bytes → UInt64) : RpcServer → Except Fault RpcServer :=
  forEach L fun id => .rpc (.heartbeat (uuid id))

def resendRandomOutgoingMessage : RpcServer → Except Fault RpcServer :=
  forEach L fun _ => .rpc .resendRandomOutgoingMessage

/-- `for (auto it : endpoints)` over a condition. -/
def allEndpoints (p : EncryptedHandler → Bool) (self : RpcServer) : Bool :=
  (entriesInOrder self.endpoints).all fun it => (self.mux.recipients[it.2]?).all p

def readyToSend : RpcServer → Bool := allEndpoints EncryptedMultiEndpointHandler.readyToSend

def sendShutdown (uuid : Bytes → UInt64) : RpcServer → Except Fault RpcServer :=
  forEach L fun id => .rpc (.sendShutdown (uuid id))

def finish (self : RpcServer) : RpcServer := { self with endpoints := ∅ }

/-- `hasWork`; `now` is what `time(NULL)` returns meanwhile. -/
def hasWork (now : Int) (self : RpcServer) : Bool :=
  !self.allEndpoints fun r => !MultiEndpointHandler.hasWork now r

def getLivingPeerCount (self : RpcServer) : Nat :=
  (entriesInOrder self.endpoints).countP fun it =>
    (self.mux.recipients[it.2]?).any fun r => !r.rpc.shuttingDown

def isPeerShutDown (peerId : Bytes) (self : RpcServer) : Bool :=
  match (self.endpoints.lookup peerId).bind (self.mux.recipients[·]?) with
  -- peer hasn't started yet
  | none => false
  | some r => r.rpc.shuttingDown

def getPeerIds (self : RpcServer) : List Bytes := (entriesInOrder self.endpoints).map Prod.fst

def hasPeer (id : Bytes) (self : RpcServer) : Bool := id ∈ self.endpoints

/-- `addEndpoints`; `endpoints[key]` of a peer that is not there is a null pointer. -/
def addEndpoints (key : Bytes) (newEndpoints : List Endpoint) :
    RpcServer → Except Fault RpcServer :=
  callAt L key (.thrown "null pointer") (.addEndpoints newEndpoints)

end RpcServer

/-! ### A server at work -/

/-- An event at a server. -/
inductive ServerEvent where
  /-- A handler is constructed and added under an id. -/
  | addEndpoint (id : Bytes) (c : Construction)
  /-- A datagram arrives. -/
  | receive (source : Endpoint) (packet : Bytes)
  /-- A method of the handler of one peer. -/
  | callAt (id : Bytes) (fault : Fault) (c : OwnerCall)
  /-- A method of the handlers of all peers. -/
  | forEach (c : Bytes → OwnerCall)
  | getIncomingReply
  | finish

def RpcServer.step (L : Libraries) (self : RpcServer) : ServerEvent → Except Fault RpcServer
  | .addEndpoint id c => do
      let endpoint ← c.make L
      self.addEndpoint id endpoint
  | .receive source packet => do
      let mux ← self.mux.handleReceive L source packet
      .ok { self with mux := mux }
  | .callAt id fault c => self.callAt L id fault c
  | .forEach c => self.forEach L c
  | .getIncomingReply => self.getIncomingReply L
  | .finish => .ok self.finish

/-- The runs of a server in which the process survives. -/
def rpcServers (L : Libraries) : System RpcServer ServerEvent :=
  .ofStep (· = .new) (RpcServer.step L)

namespace RpcServer

variable {L : Libraries} {s s' : RpcServer} {c : Bytes → OwnerCall}

/-- The handler of a peer, if it has one. -/
def handler (s : RpcServer) (id : Bytes) : Option EncryptedHandler :=
  (s.endpoints.lookup id).bind (s.mux.recipients[·]?)

/-- Each id has a recipient of its own. -/
structure Indexed (s : RpcServer) : Prop where
  lt : ∀ id i, s.endpoints.lookup id = some i → i < s.mux.recipients.length
  inj : ∀ a b i, s.endpoints.lookup a = some i → s.endpoints.lookup b = some i → a = b

theorem indexed_empty (mux : PortMultiplexer) : Indexed ⟨mux, ∅⟩ := by
  refine ⟨fun id i h => ?_, fun a b i h => ?_⟩
  · rw [AList.lookup_empty] at h
    cases h
  · rw [AList.lookup_empty] at h
    cases h

/-! ### Calls -/

theorem call_ok {i : Nat} {d : OwnerCall} (h : s.call L i d = .ok s') :
    s'.endpoints = s.endpoints ∧ s'.mux.recipients.length = s.mux.recipients.length ∧
      (∀ r, s.mux.recipients[i]? = some r →
        ∃ r', d.run L r = .ok r' ∧ s'.mux.recipients[i]? = some r') ∧
      ∀ j ≠ i, s'.mux.recipients[j]? = s.mux.recipients[j]? := by
  rw [call] at h
  split at h
  · rename_i hnone
    cases h
    exact ⟨rfl, rfl, fun r hr => by simp [hnone] at hr, fun j _ => rfl⟩
  · rename_i r hr
    obtain ⟨r', h', h⟩ := bind_ok.mp h
    cases h
    have hlt : i < s.mux.recipients.length := (List.getElem?_eq_some_iff.mp hr).1
    refine ⟨rfl, List.length_set, fun a ha => ?_, fun j hj => List.getElem?_set_ne hj.symm⟩
    cases hr.symm.trans ha
    exact ⟨r', h', List.getElem?_set_self hlt⟩

theorem call_ends {i : Nat} {d : OwnerCall}
    (h : ∀ r, s.mux.recipients[i]? = some r → ∃ r', d.run L r = .ok r') :
    ∃ s', s.call L i d = .ok s' := by
  rw [call]
  split
  · exact ⟨s, rfl⟩
  · rename_i r hr
    obtain ⟨r', h'⟩ := h r hr
    exact ⟨_, bind_ok.mpr ⟨r', h', rfl⟩⟩

/-- Calls at distinct recipients. -/
theorem foldlM_call_ok {l : List (Bytes × Nat)} (hd : (l.map Prod.snd).Nodup)
    (h : l.foldlM (fun self it => self.call L it.2 (c it.1)) s = .ok s') :
    s'.endpoints = s.endpoints ∧ s'.mux.recipients.length = s.mux.recipients.length ∧
      (∀ it ∈ l, ∀ r, s.mux.recipients[it.2]? = some r →
        ∃ r', (c it.1).run L r = .ok r' ∧ s'.mux.recipients[it.2]? = some r') ∧
      ∀ i ∉ l.map Prod.snd, s'.mux.recipients[i]? = s.mux.recipients[i]? := by
  induction l generalizing s with
  | nil =>
      cases h
      exact ⟨rfl, rfl, fun it hit => absurd hit List.not_mem_nil, fun i _ => rfl⟩
  | cons a l ih =>
      rw [List.foldlM_cons] at h
      obtain ⟨s₁, h₁, h⟩ := bind_ok.mp h
      obtain ⟨hends₁, hlen₁, hself₁, hrest₁⟩ := call_ok h₁
      rw [List.map_cons, List.nodup_cons] at hd
      obtain ⟨hends, hlen, hself, hrest⟩ := ih hd.2 h
      refine ⟨hends.trans hends₁, hlen.trans hlen₁, fun it hit r hr => ?_, fun i hi => ?_⟩
      · rcases List.mem_cons.mp hit with rfl | hit
        · obtain ⟨r', hrun, hr'⟩ := hself₁ r hr
          exact ⟨r', hrun, (hrest _ hd.1).trans hr'⟩
        · have hne : it.2 ≠ a.2 := fun heq => hd.1 (heq ▸ List.mem_map_of_mem hit)
          exact hself it hit r ((hrest₁ _ hne).trans hr)
      · rw [List.map_cons, List.mem_cons, not_or] at hi
        exact (hrest i hi.2).trans (hrest₁ i hi.1)

theorem foldlM_call_ends {l : List (Bytes × Nat)} (hd : (l.map Prod.snd).Nodup)
    (h : ∀ it ∈ l, ∀ r, s.mux.recipients[it.2]? = some r → ∃ r', (c it.1).run L r = .ok r') :
    ∃ s', l.foldlM (fun self it => self.call L it.2 (c it.1)) s = .ok s' := by
  induction l generalizing s with
  | nil => exact ⟨s, rfl⟩
  | cons a l ih =>
      rw [List.map_cons, List.nodup_cons] at hd
      obtain ⟨s₁, h₁⟩ := call_ends (L := L) (h a List.mem_cons_self)
      obtain ⟨-, -, -, hrest₁⟩ := call_ok h₁
      obtain ⟨s', h'⟩ := ih (s := s₁) hd.2 fun it hit r hr => by
        have hne : it.2 ≠ a.2 := fun heq => hd.1 (heq ▸ List.mem_map_of_mem hit)
        exact h it (List.mem_cons_of_mem _ hit) r ((hrest₁ _ hne).symm.trans hr)
      exact ⟨s', by rw [List.foldlM_cons, h₁, ok_bind, h']⟩

theorem Indexed.nodup (hs : s.Indexed) : ((entriesInOrder s.endpoints).map Prod.snd).Nodup := by
  have hkeys : ((entriesInOrder s.endpoints).map Prod.fst).Nodup :=
    (entriesInOrder_keys s.endpoints).nodup_iff.mpr s.endpoints.nodupKeys
  refine List.Nodup.map_on (fun a ha b hb hab => ?_) hkeys.of_map
  have hfst := hs.inj a.1 b.1 a.2 (mem_entriesInOrder.mp ha) (hab ▸ mem_entriesInOrder.mp hb)
  exact Prod.ext hfst hab

/-- **A method for all peers is the method for each peer.**  It ends the process exactly when it
would for one of them, and otherwise leaves each handler as its own call leaves it. -/
theorem forEach_ok (hs : s.Indexed) :
    ((∃ s', s.forEach L c = .ok s') ↔
      ∀ id r, s.handler id = some r → ∃ r', (c id).run L r = .ok r') ∧
    ∀ s', s.forEach L c = .ok s' → ∀ id r, s.handler id = some r →
      ∃ r', (c id).run L r = .ok r' ∧ s'.handler id = some r' := by
  have each : ∀ s', s.forEach L c = .ok s' → ∀ id r, s.handler id = some r →
      ∃ r', (c id).run L r = .ok r' ∧ s'.handler id = some r' := fun s' h id r hr => by
    obtain ⟨i, hi, hr⟩ := Option.bind_eq_some_iff.mp hr
    obtain ⟨hends, -, hself, -⟩ := foldlM_call_ok hs.nodup h
    obtain ⟨r', hrun, hr'⟩ := hself (id, i) (mem_entriesInOrder.mpr hi) r hr
    exact ⟨r', hrun, Option.bind_eq_some_iff.mpr ⟨i, hends ▸ hi, hr'⟩⟩
  refine ⟨⟨fun ⟨s', h⟩ id r hr => ?_, fun h => ?_⟩, each⟩
  · obtain ⟨r', hrun, -⟩ := each s' h id r hr
    exact ⟨r', hrun⟩
  · exact foldlM_call_ends hs.nodup fun it hit r hr =>
      h it.1 r (Option.bind_eq_some_iff.mpr ⟨it.2, mem_entriesInOrder.mp hit, hr⟩)

/-! ### Every run -/

theorem call_mux {i : Nat} {d : OwnerCall} (h : s.call L i d = .ok s') :
    s.mux.step L (.call i d) = .ok s'.mux := by
  rw [call] at h
  simp only [PortMultiplexer.step]
  cases hr : s.mux.recipients[i]? with
  | none =>
      rw [hr] at h
      cases h
      rfl
  | some r =>
      rw [hr] at h
      obtain ⟨r', h', h⟩ := bind_ok.mp h
      cases h
      exact bind_ok.mpr ⟨r', h', rfl⟩

/-- The multiplexer is one that some run reaches, and each id has its recipient. -/
def Sound (L : Libraries) (s : RpcServer) : Prop := (multiplexer L).Reachable s.mux ∧ s.Indexed

theorem Sound.call (hs : s.Sound L) {i : Nat} {d : OwnerCall} (h : s.call L i d = .ok s') :
    s'.Sound L := by
  obtain ⟨hends, hlen, -, -⟩ := call_ok h
  refine ⟨hs.1.step (e := .call i d) (call_mux h), fun id j hj => ?_, fun a b j ha hb => ?_⟩
  · rw [hends] at hj
    exact hlen ▸ hs.2.lt id j hj
  · rw [hends] at ha hb
    exact hs.2.inj a b j ha hb

/-- More recipients take no id's recipient away. -/
theorem Sound.mux (hs : s.Sound L) {mux : PortMultiplexer} {e : MuxEvent}
    (h : s.mux.step L e = .ok mux) (hlen : s.mux.recipients.length ≤ mux.recipients.length) :
    ({ s with mux := mux } : RpcServer).Sound L :=
  ⟨hs.1.step h, fun id j hj => (hs.2.lt id j hj).trans_le hlen, hs.2.inj⟩

theorem handleReceive_length {source : Endpoint} {packet : Bytes} {mux mux' : PortMultiplexer}
    (h : mux.handleReceive L source packet = .ok mux') :
    mux'.recipients.length = mux.recipients.length := by
  rcases PortMultiplexer.handleReceive_cases h with rfl | ⟨_, _, _, _, -, -, -, -, rfl⟩ |
    ⟨_, _, _, _, -, -, -, -, -, -, rfl⟩ <;> simp

theorem Sound.addEndpoint (hs : s.Sound L) {id : Bytes} {d : Construction}
    (h : s.step L (.addEndpoint id d) = .ok s') : s'.Sound L := by
  obtain ⟨r, hr, h⟩ := bind_ok.mp h
  obtain ⟨mux, hmux, h⟩ := bind_ok.mp h
  cases h
  have hstep : s.mux.step L (.addRecipient d) = .ok mux := bind_ok.mpr ⟨r, hr, hmux⟩
  obtain ⟨a, rs, -, hrecipients, hrest⟩ := PortMultiplexer.addRecipient_cases hstep
  have hlen : mux.recipients.length = s.mux.recipients.length + 1 := by
    rw [hrecipients, List.length_append, hrest.length_eq]
    rfl
  have hs' := hs.mux hstep (by omega)
  rw [UnorderedMap.emplace]
  split
  · exact hs'
  · refine ⟨hs'.1, fun k j hj => ?_, fun k k' j hk hk' => ?_⟩
    · by_cases hkey : k = id
      · subst hkey
        rw [AList.lookup_insert, Option.some.injEq] at hj
        simp only
        omega
      · exact hs'.2.lt k j (AList.lookup_insert_ne hkey ▸ hj)
    · -- the index of the new recipient is nobody else's
      have fresh : ∀ k, (s.endpoints.insert id s.mux.recipients.length).lookup k = some j →
          (k = id ↔ j = s.mux.recipients.length) := fun k hk => by
        by_cases hkey : k = id
        · subst hkey
          rw [AList.lookup_insert, Option.some.injEq] at hk
          exact iff_of_true rfl hk.symm
        · rw [AList.lookup_insert_ne hkey] at hk
          exact iff_of_false hkey (hs.2.lt k j hk).ne
      by_cases hj : j = s.mux.recipients.length
      · rw [(fresh k hk).mpr hj, (fresh k' hk').mpr hj]
      · have hne := mt (fresh k hk).mp hj
        have hne' := mt (fresh k' hk').mp hj
        rw [AList.lookup_insert_ne hne] at hk
        rw [AList.lookup_insert_ne hne'] at hk'
        exact hs.2.inj k k' j hk hk'

theorem Sound.step (hs : s.Sound L) {e : ServerEvent} (h : s.step L e = .ok s') : s'.Sound L := by
  cases e with
  | addEndpoint id d => exact hs.addEndpoint h
  | receive source packet =>
      obtain ⟨mux, hmux, h⟩ := bind_ok.mp h
      cases h
      exact hs.mux (e := .receive source packet) hmux (handleReceive_length hmux).ge
  | callAt id fault d =>
      simp only [RpcServer.step, callAt] at h
      split at h
      · cases h
      · exact hs.call h
  | forEach d =>
      exact foldlM_invariant (I := Sound L) (fun s it s' _ hs h => hs.call h) hs h
  | getIncomingReply =>
      simp only [RpcServer.step, getIncomingReply] at h
      split at h
      · cases h
        exact hs
      · exact hs.call h
  | finish =>
      cases h
      exact ⟨hs.1, indexed_empty _⟩

/-- **Every run of a server is a run of its multiplexer**, and each id keeps a recipient of its
own. -/
theorem Run.sound {es : List ServerEvent} (r : (rpcServers L).Run es s) : s.Sound L := by
  refine r.invariant ?_ fun s e s' hs h => hs.step h
  rintro s rfl
  exact ⟨⟨[], .start rfl⟩, indexed_empty _⟩

end RpcServer

/-- A recipient of a multiplexer is a handler that some run of its own reaches. -/
theorem PortMultiplexer.recipients_reachable {L : Libraries} {es : List MuxEvent}
    {mux : PortMultiplexer} (hr : (multiplexer L).Run es mux) :
    ∀ r ∈ mux.recipients, (handlers L).Reachable r := by
  refine recipients_invariant hr (fun c r _ h => ⟨[], .start ⟨c, h⟩⟩) (fun i c r r' _ hr h => ?_)
    (fun {ep r r'} hr h => ?_) (fun source r hr => ?_) (fun source r hr => ?_)
    (fun contents r r' hr h => ?_)
  · exact hr.step (e := .owner c) h
  · exact hr.step (e := .owner (.banEndpoint ep)) h
  · exact hr.step (e := .resurrect source) rfl
  · exact hr.step (e := .owner (.addEndpoints [source])) rfl
  · exact hr.step (e := .receive contents) (EncryptedMultiEndpointHandler.step_receive h)

/-- **The handlers of a server are independent.**  In every run of a server its multiplexer is as
after a run of the multiplexer alone, and each handler as after a run of the handler alone; distinct
ids have distinct handlers.  What `broadcast`, `heartbeat`, `resendRandomOutgoingMessage` and
`sendShutdown` do is the method of every handler on its own: they end the process exactly when one
of them would. -/
theorem forEach_independent {L : Libraries} {es : List ServerEvent} {s : RpcServer}
    (r : (rpcServers L).Run es s) (c : Bytes → OwnerCall) :
    (multiplexer L).Reachable s.mux ∧
    (∀ id h, s.handler id = some h → (handlers L).Reachable h) ∧
    (∀ a b i, s.endpoints.lookup a = some i → s.endpoints.lookup b = some i → a = b) ∧
    ((∃ s', s.forEach L c = .ok s') ↔
      ∀ id h, s.handler id = some h → ∃ h', (c id).run L h = .ok h') ∧
    ∀ s', s.forEach L c = .ok s' → ∀ id h, s.handler id = some h →
      ∃ h', (c id).run L h = .ok h' ∧ s'.handler id = some h' := by
  obtain ⟨hmux, hindexed⟩ := RpcServer.Run.sound r
  obtain ⟨hends, heach⟩ := RpcServer.forEach_ok (L := L) (c := c) hindexed
  obtain ⟨es', r'⟩ := hmux
  refine ⟨⟨es', r'⟩, fun id h hh => ?_, hindexed.inj, hends, heach⟩
  obtain ⟨i, -, hi⟩ := Option.bind_eq_some_iff.mp hh
  exact PortMultiplexer.recipients_reachable r' h (List.mem_of_getElem? hi)

/-- A server that has met two peers. -/
def twoPeers : List ServerEvent :=
  let peer (n : UInt8) (port : UInt16) : ServerEvent :=
    .addEndpoint [n] ⟨.replicate 32 0, .replicate 32 n, [⟨1, port⟩], 1, false, default, []⟩
  [peer 1 1, peer 2 2]

theorem twoPeers_ends : ∃ s, twoPeers.foldlM (RpcServer.step .standIn) .new = .ok s ∧
    s.endpoints.lookup [1] = some 0 ∧ s.endpoints.lookup [2] = some 1 ∧
    ∃ s', s.forEach .standIn (fun _ => .rpc (.heartbeat 7)) = .ok s' ∧
      s'.endpoints.lookup [1] = some 0 := by
  decide +kernel

/-- Its heartbeats are those of the handlers of two peers. -/
theorem forEach_independent_twoPeers : ∃ s s', (rpcServers .standIn).Run twoPeers s ∧
    s.endpoints.lookup [1] = some 0 ∧ s.endpoints.lookup [2] = some 1 ∧
    s.forEach .standIn (fun _ => .rpc (.heartbeat 7)) = .ok s' ∧
    (multiplexer .standIn).Reachable s.mux ∧
    (∀ id h, s.handler id = some h → (handlers .standIn).Reachable h) ∧
    (∀ a b i, s.endpoints.lookup a = some i → s.endpoints.lookup b = some i → a = b) ∧
    (∀ id h, s.handler id = some h → ∃ h', (OwnerCall.rpc (.heartbeat 7)).run .standIn h = .ok h') ∧
    ∀ id h, s.handler id = some h → ∃ h',
      (OwnerCall.rpc (.heartbeat 7)).run .standIn h = .ok h' ∧ s'.handler id = some h' := by
  obtain ⟨s, hs, hfirst, hsecond, s', hbeat, -⟩ := twoPeers_ends
  have r : (rpcServers .standIn).Run twoPeers s := System.run_from.mpr hs
  obtain ⟨hmux, hreach, hinj, hends, heach⟩ :=
    forEach_independent r fun _ => .rpc (.heartbeat 7)
  exact ⟨s, s', r, hfirst, hsecond, hbeat, hmux, hreach, hinj, hends.mp ⟨s', hbeat⟩, heach s' hbeat⟩

end Wga
