import WeGoAll.Peer.NetPeer
import WeGoAll.Rpc.Shutdown

/-!
# Peer — Network

The peers of a game over their endpoints, and a network that loses, repeats, delays and reorders
what the endpoints send.

* `network`: the system.
* `Network.run_met`: the endpoints two peers have for each other are a run of `exchange`.
* `update_drains`: an update leaves no request and no reply waiting.
-/

namespace Wga

/-- The peers, and the calls of `getAllInputValues` made so far, each with its caller. -/
structure Network where
  peers : Bytes → NetPeer
  calls : List (Bytes × InputCall)

namespace Network

/-- The endpoint that `p` has for `q`. -/
def endpoint (s : Network) (p q : Bytes) : PlainRpc := (s.peers p).endpoints q

def set (p : Bytes) (r : NetPeer) (s : Network) : Network :=
  { s with peers := Function.update s.peers p r }

def setEndpoint (p q : Bytes) (v : PlainRpc) (s : Network) : Network :=
  s.set p ((s.peers p).setEndpoint q v)

/-- The endpoints two peers have for each other. -/
def pair (s : Network) (p q : Bytes) : Pair
  | .left => s.endpoint p q
  | .right => s.endpoint q p

/-- The call `i` is at the peer `p`. -/
def At (s : Network) (i : Nat) (x : Bytes) (call : InputCall) (p : Bytes) : Prop :=
  s.calls[i]? = some (x, call) ∧ call.remaining.head? = some p

end Network

/-- What happens to the peers; where a method makes requests, `uuid` draws their identifiers. -/
inductive NetEvent where
  | updateState (p : Bytes) (uuid : Bytes → UInt64) (timestamp : Int)
      (data : UnorderedMap Bytes Bytes)
  /-- A message arrives at the endpoint that `p` has for `q`. -/
  | deliver (p q : Bytes) (message : Bytes)
  | update (p : Bytes) (uuid : Bytes → UInt64)
  /-- One of the requests of `initTimeShift`. -/
  | initTimeShift (p q : Bytes) (uuid : UInt64)
  | shutdown (p : Bytes) (uuid : Bytes → UInt64) (isConnectionDead : Bytes → Bool)
  | getAllInputValues (x : Bytes) (timestamp : Int)
  /-- The call `i` goes on. -/
  | resume (i : Nat)
  | rehash (p q : Bytes)

/-- What an event does. -/
inductive Network.Step (L : Libraries) (ids : List Bytes) :
    Network → NetEvent → Network → Prop where
  | updateState {s : Network} {p : Bytes} {uuid : Bytes → UInt64} {timestamp : Int}
      {data : UnorderedMap Bytes Bytes} {r : NetPeer} (hp : p ∈ ids)
      (hstage : (s.peers p).stage = .running) (ht : timestamp < 2 ^ 63)
      (h : (s.peers p).updateState L uuid timestamp data = .ok r) :
      Step L ids s (.updateState p uuid timestamp data) (s.set p r)
  | deliver {s : Network} {p q message : Bytes} {b : Bool} {v : PlainRpc} (hp : p ∈ ids)
      (hq : q ∈ ids) (hpq : p ≠ q) (hstage : (s.peers p).stage ≠ .finished)
      (hm : ∃ m ∈ (s.endpoint q p).sub, m.message = message)
      (h : BiDirectionalRpc.receive L (PlainRpc.virtuals L) message (s.endpoint p q) =
        .ok (b, v)) :
      Step L ids s (.deliver p q message) (s.setEndpoint p q v)
  | update {s : Network} {p : Bytes} {uuid : Bytes → UInt64} {r : NetPeer} (hp : p ∈ ids)
      (hstage : (s.peers p).stage ≠ .updateFinished ∧ (s.peers p).stage ≠ .finished)
      (h : (s.peers p).update L uuid = .ok r) :
      Step L ids s (.update p uuid) (s.set p r)
  | initTimeShift {s : Network} {p q : Bytes} {uuid : UInt64} {r : NetPeer} (hp : p ∈ ids)
      (hq : q ∈ ids) (hpq : p ≠ q) (hstage : (s.peers p).stage = .running)
      (h : (s.peers p).call L q (.request uuid PING) = .ok r) :
      Step L ids s (.initTimeShift p q uuid) (s.set p r)
  | shutdown {s : Network} {p : Bytes} {uuid : Bytes → UInt64} {isConnectionDead : Bytes → Bool}
      {r : NetPeer} (hp : p ∈ ids) (h : (s.peers p).shutdown L uuid isConnectionDead = .ok r) :
      Step L ids s (.shutdown p uuid isConnectionDead) (s.set p r)
  | getAllInputValues {s : Network} {x : Bytes} {timestamp : Int} (hx : x ∈ ids)
      (hlive : (s.peers x).sentShutdown = false) :
      Step L ids s (.getAllInputValues x timestamp)
        { s with calls := s.calls ++ [(x, (s.peers x).view.getAllInputValues timestamp)] }
  | resume {s : Network} {i : Nat} {x p : Bytes} {call call' : InputCall}
      (hat : s.At i x call p) (hlive : (s.peers x).sentShutdown = false)
      (h : (s.peers x).view.resumeAt p call = .ok call') :
      Step L ids s (.resume i) { s with calls := s.calls.set i (x, call') }
  | rehash {s : Network} {p q : Bytes} {r : Rpc} (hp : p ∈ ids)
      (h : (s.endpoint p q).rpc.Rehashed r) :
      Step L ids s (.rehash p q) (s.setEndpoint p q { s.endpoint p q with rpc := r })

/-- The runs of the peers `ids` in which no process ends by itself. -/
def network (L : Libraries) (ids : List Bytes) : System Network NetEvent where
  init s := (∀ p, ∃ flaky env, s.peers p = .new ids p flaky env) ∧ s.calls = []
  step := Network.Step L ids

variable {L : Libraries}

/-! ### Two endpoints that nobody shuts down -/

/-- A state of two endpoints whose own peers do not call `shutdown` on them. -/
def Pair.Untold (L : Libraries) (s : Pair) : Prop :=
  ∃ es, (exchange L).Run es s ∧ ∀ x, .call x .shutdown ∉ es

namespace Pair.Untold

variable {s s' : Pair} {x : Side}

/-- What holds of every pair of endpoints that has run. -/
theorem linked (h : Untold L s) : s.Linked L := run_linked h.choose_spec.1

theorem controlled (h : Untold L s) (x : Side) : (s x).rpc.Controlled :=
  (run_controlled h.choose_spec.1 x).1

/-- An endpoint shuts down when it accepts a `SHUTDOWN`. -/
theorem shuts (h : Untold L s) (x : Side) :
    (s x).rpc.shuttingDown = true ↔ ∃ id, .accepted id SHUTDOWN ∈ (s x).rpc.history := by
  obtain ⟨es, r, hes⟩ := h
  exact (run_controlled r x).2.trans (or_iff_right (hes x))

/-- A step that is no call of `shutdown`. -/
theorem step {e : PairEvent} (h : Untold L s) (he : ∀ x, e ≠ .call x .shutdown)
    (hstep : Pair.Step L s e s') : Untold L s' := by
  obtain ⟨es, r, hes⟩ := h
  refine ⟨es ++ [e], r.snoc hstep, fun x hx => ?_⟩
  rcases List.mem_append.mp hx with hx | hx
  · exact hes x hx
  · exact he x (List.mem_singleton.mp hx).symm

/-- What arrives makes an endpoint answer control words only. -/
theorem deliver_replied {message : Bytes} (h : Untold L s)
    (hstep : Pair.Step L s (.deliver x message) s') {id : RpcId} {q : Bytes}
    (hq : .replied id q ∈ (s' x).rpc.history) : .replied id q ∈ (s x).rpc.history ∨
      ∃ text, .accepted id text ∈ (s' x).rpc.history ∧ BiDirectionalRpc.Control text q := by
  obtain ⟨es, r, -⟩ := h
  refine ((run_sourced (r.snoc hstep) x).replied id q hq).imp_left fun hc => ?_
  rcases List.mem_append.mp hc with hc | hc
  · exact run_replied r hc
  · cases List.mem_singleton.mp hc

/-- Nothing is known yet of a request that is new. -/
theorem unknown (h : Untold L s) {id : RpcId}
    (hnew : ∀ payload, ¬ Issued (s .left).rpc.history id payload) :
    (∀ a, .replied id a ∉ (s .right).rpc.history) ∧ .completed id ∉ (s .left).rpc.history := by
  have hreplied : ∀ a, .replied id a ∉ (s .right).rpc.history := fun a ha => by
    obtain ⟨payload, hacc⟩ := (h.linked.inv .right).answering.replied id a ha
    exact hnew payload ((h.linked.link .left).accepted id payload hacc).1
  refine ⟨hreplied, fun hcomp => ?_⟩
  obtain ⟨a, ha⟩ := (h.linked.link .left).completed id hcomp
  exact hreplied a ha

end Pair.Untold

/-- An endpoint after some calls, none of them of `shutdown`. -/
def Called (L : Libraries) : PlainRpc → PlainRpc → Prop :=
  Relation.ReflTransGen fun a b => ∃ c : Call, c ≠ .shutdown ∧ c.run L (PlainRpc.virtuals L) a = .ok b

theorem Called.call {a b : PlainRpc} {c : Call} (hc : c ≠ .shutdown)
    (h : c.run L (PlainRpc.virtuals L) a = .ok b) : Called L a b := .single ⟨c, hc, h⟩

/-- Calls only add to the history. -/
theorem Called.history {a b : PlainRpc} (h : Called L a b) : a.rpc.history <+: b.rpc.history := by
  induction h with
  | refl => exact List.prefix_rfl
  | tail _ h ih =>
      obtain ⟨c, -, hc⟩ := h
      exact ih.trans (PlainRpc.call_path hc).history

/-- Calls on one side of a pair. -/
theorem Pair.Untold.called {s : Pair} (h : Untold L s) (x : Side) {v : PlainRpc}
    (hv : Called L (s x) v) : Untold L (Function.update s x v) := by
  induction hv with
  | refl => rwa [Function.update_eq_self]
  | @tail b c _ hc ih =>
      obtain ⟨c, hne, hc⟩ := hc
      have hstep : Pair.Step L (Function.update s x b) (.call x c) _ :=
        .call (by rw [Function.update_self]; exact hc)
      rw [Function.update_idem] at hstep
      exact ih.step (fun y heq => hne (PairEvent.call.inj heq).2) hstep

/-! ### What the methods of a peer do -/

namespace NetPeer

/-- The peer after some calls of its endpoints. -/
structure Acts (L : Libraries) (a b : NetPeer) : Prop where
  userId : b.userId = a.userId
  peerIds : b.peerIds = a.peerIds
  stage : b.stage = a.stage
  called : ∀ q, Called L (a.endpoints q) (b.endpoints q)

variable {self self' self'' : NetPeer}

theorem Acts.refl (a : NetPeer) : Acts L a a := ⟨rfl, rfl, rfl, fun _ => .refl⟩

theorem Acts.trans (h : Acts L self self') (h' : Acts L self' self'') : Acts L self self'' :=
  ⟨h'.userId.trans h.userId, h'.peerIds.trans h.peerIds, h'.stage.trans h.stage, fun q =>
    (h.called q).trans (h'.called q)⟩

/-- The endpoints of a peer stand under the same ids. -/
theorem Acts.endpointIds (h : Acts L self self') : self'.endpointIds = self.endpointIds := by
  rw [NetPeer.endpointIds, NetPeer.endpointIds, h.userId, h.peerIds]

/-- One call at one endpoint. -/
theorem call_acts {id : Bytes} {c : Call} (h : self.call L id c = .ok self')
    (hc : c ≠ .shutdown) : Acts L self self' := by
  obtain ⟨hcall, hrest, heq⟩ := call_ok h
  refine ⟨by rw [heq], by rw [heq], by rw [heq], fun q => ?_⟩
  by_cases hq : q = id
  · subst hq
    exact .call hc hcall
  · rw [hrest q hq]
    exact .refl

/-- One call at each endpoint. -/
theorem forEach_acts {c : Bytes → Call} (h : self.forEach L c = .ok self')
    (hc : ∀ id, c id ≠ .shutdown) : Acts L self self' :=
  foldlM_invariant (I := Acts L self) (fun _ _ _ _ hs h => hs.trans (call_acts h (hc _)))
    (.refl self) h

theorem updateState_acts {uuid : Bytes → UInt64} {timestamp : Int}
    {data : UnorderedMap Bytes Bytes} (h : self.updateState L uuid timestamp data = .ok self') :
    Acts L self self' := by
  obtain ⟨⟨s, inputs⟩, -, h⟩ := bind_ok.mp h
  have hacts := forEach_acts h (by simp)
  exact ⟨hacts.userId, hacts.peerIds, hacts.stage, hacts.called⟩

/-- Taking a request in is a reply at one endpoint. -/
theorem readRequest_acts {peerKey : Bytes} {idPayload : IdPayload}
    (h : self.readRequest L peerKey idPayload = .ok self') : Acts L self self' := by
  obtain ⟨m, -, h⟩ := bind_ok.mp h
  have hacts := call_acts h (by simp)
  exact ⟨hacts.userId, hacts.peerIds, hacts.stage, hacts.called⟩

theorem readRequests_acts {peerKey : Bytes} {fuel : Nat}
    (h : self.readRequests L peerKey fuel = .ok self') : Acts L self self' := by
  induction fuel generalizing self with
  | zero =>
      cases h
      exact .refl _
  | succ fuel ih =>
      rw [readRequests] at h
      split at h
      · cases h
        exact .refl _
      · obtain ⟨self₁, h₁, h⟩ := bind_ok.mp h
        exact (readRequest_acts h₁).trans (ih h)

/-- Handing replies out is calls at one endpoint. -/
theorem readReplies_acts {peerKey : Bytes} {fuel : Nat}
    (h : self.readReplies L peerKey fuel = .ok self') : Acts L self self' := by
  induction fuel generalizing self with
  | zero =>
      cases h
      exact .refl _
  | succ fuel ih =>
      rw [readReplies] at h
      split at h
      · cases h
        exact .refl _
      · obtain ⟨self₁, h₁, h⟩ := bind_ok.mp h
        exact (call_acts h₁ (by simp)).trans (ih h)

theorem readPeer_acts {peerKey : Bytes} (h : self.readPeer L peerKey = .ok self') :
    Acts L self self' := by
  obtain ⟨self₁, h₁, h⟩ := bind_ok.mp h
  exact (readRequests_acts h₁).trans (readReplies_acts h)

/-- The parts of an update: perhaps heartbeats, and the loop over the peers. -/
theorem update_ok {uuid : Bytes → UInt64} (h : self.update L uuid = .ok self') :
    ∃ self₁ self₂, (self₁ = self ∨ self.forEach L (fun id => .heartbeat (uuid id)) = .ok self₁) ∧
      self₁.endpointIds.foldlM (readPeer L) self₁ = .ok self₂ ∧
      self' = { self₂ with
        updateCounter := self₂.updateCounter + 1
        stage := if self₂.stage = .shuttingDown then .updateFinished else self₂.stage } := by
  obtain ⟨self₁, h₁, h⟩ := bind_ok.mp h
  obtain ⟨self₂, h₂, h⟩ := bind_ok.mp h
  refine ⟨self₁, self₂, ?_, h₂, ?_⟩
  · split at h₁
    · exact .inr h₁
    · cases h₁
      exact .inl rfl
  · split at h
    · cases h
    · cases h
      rfl

/-- An update is calls at the endpoints, and it may end the updates. -/
theorem update_acts {uuid : Bytes → UInt64} (h : self.update L uuid = .ok self') :
    Acts L self { self' with stage := self.stage } ∧
      self'.stage = if self.stage = .shuttingDown then .updateFinished else self.stage := by
  obtain ⟨self₁, self₂, hbeat, hread, rfl⟩ := update_ok h
  have h₁ : Acts L self self₁ := by
    rcases hbeat with rfl | hbeat
    · exact .refl _
    · exact forEach_acts hbeat (by simp)
  have h₂ : Acts L self self₂ :=
    foldlM_invariant (I := Acts L self) (fun _ _ _ _ hs h => hs.trans (readPeer_acts h)) h₁ hread
  exact ⟨⟨h₂.userId, h₂.peerIds, rfl, h₂.called⟩, by rw [h₂.stage]⟩

/-- So is `shutdown`, which moves from stage to stage. -/
theorem shutdown_acts {uuid : Bytes → UInt64} {isConnectionDead : Bytes → Bool}
    (h : self.shutdown L uuid isConnectionDead = .ok self') :
    Acts L self { self' with stage := self.stage } := by
  have same : Acts L self { self with stage := self.stage } := .refl self
  rcases shutdown_ok h with rfl | ⟨-, -, rfl⟩ | ⟨-, self₁, h₁, rfl⟩ | ⟨-, -, rfl⟩ | ⟨-, rfl⟩
  · exact same
  · exact same
  · have hacts := forEach_acts h₁ (by simp)
    exact ⟨hacts.userId, hacts.peerIds, rfl, hacts.called⟩
  · exact same
  · exact same

/-! ### What an update leaves -/

/-- Nothing waits for the update loop at an endpoint. -/
def Emptied (e : PlainRpc) : Prop :=
  e.rpc.incomingRequests.entries = [] ∧ e.rpc.incomingReplies.entries = []

/-- The endpoint for one peer is emptied, and no other changes. -/
theorem readPeer_drains {peerKey : Bytes} (h : self.readPeer L peerKey = .ok self') :
    Emptied (self'.endpoints peerKey) ∧
      ∀ q, q ≠ peerKey → self'.endpoints q = self.endpoints q := by
  obtain ⟨self₁, h₁, h⟩ := bind_ok.mp h
  obtain ⟨hrequests, hrest₁⟩ := readRequests_drains le_rfl h₁
  obtain ⟨hreplies, hsame, hrest⟩ := readReplies_drains le_rfl h
  exact ⟨⟨hsame ▸ hrequests, hreplies⟩, fun q hq => (hrest q hq).trans (hrest₁ q hq)⟩

/-- The endpoints for some peers. -/
theorem readPeers_drains {l : List Bytes} (h : l.foldlM (readPeer L) self = .ok self') :
    ∀ q, (q ∈ l → Emptied (self'.endpoints q)) ∧
      (q ∉ l → self'.endpoints q = self.endpoints q) := by
  induction l generalizing self with
  | nil =>
      cases h
      exact fun q => ⟨fun hq => absurd hq List.not_mem_nil, fun _ => rfl⟩
  | cons a l ih =>
      rw [List.foldlM_cons] at h
      obtain ⟨self₁, h₁, h⟩ := bind_ok.mp h
      obtain ⟨hdrained, hrest₁⟩ := readPeer_drains h₁
      intro q
      obtain ⟨hin, hout⟩ := ih h q
      refine ⟨fun hq => ?_, fun hq => ?_⟩
      · by_cases hl : q ∈ l
        · exact hin hl
        · rw [hout hl, (List.mem_cons.mp hq).resolve_right hl]
          exact hdrained
      · rw [List.mem_cons, not_or] at hq
        exact (hout hq.2).trans (hrest₁ q hq.1)

/-- **An update leaves nothing waiting.** -/
theorem update_drains {uuid : Bytes → UInt64} (h : self.update L uuid = .ok self') {q : Bytes}
    (hq : q ∈ self.endpointIds) : Emptied (self'.endpoints q) := by
  obtain ⟨self₁, self₂, hbeat, hread, rfl⟩ := update_ok h
  have hids : self₁.endpointIds = self.endpointIds := by
    rcases hbeat with rfl | hbeat
    · rfl
    · exact (forEach_acts hbeat (by simp)).endpointIds
  exact (readPeers_drains hread q).1 (hids ▸ hq)

end NetPeer

/-! ### Every run -/

namespace Network

variable {ids : List Bytes} {s s' : Network}

/-- Who is who. -/
def Named (ids : List Bytes) (s : Network) : Prop :=
  ∀ p, (s.peers p).userId = p ∧ (s.peers p).peerIds = ids

/-- A peer has an endpoint for every other peer. -/
theorem Named.mem_endpointIds (h : s.Named ids) {p q : Bytes} :
    q ∈ (s.peers p).endpointIds ↔ q ∈ ids ∧ p ≠ q := by
  rw [NetPeer.endpointIds, (h p).1, (h p).2, List.mem_filter, decide_eq_true_eq, ne_comm]

theorem Named.nodup (h : s.Named ids) (hids : ids.Nodup) (p : Bytes) : (s.peers p).peerIds.Nodup :=
  (h p).2.symm ▸ hids

/-- The endpoints of any two peers are a state of two endpoints. -/
def Met (L : Libraries) (ids : List Bytes) (s : Network) : Prop :=
  ∀ p ∈ ids, ∀ q ∈ ids, p ≠ q → (s.pair p q).Untold L

theorem set_peers (s : Network) (p : Bytes) (r : NetPeer) (q : Bytes) :
    (s.set p r).peers q = if q = p then r else s.peers q := Function.update_apply _ _ _ _

theorem set_peers_self (s : Network) (p : Bytes) (r : NetPeer) : (s.set p r).peers p = r :=
  Function.update_self _ _ _

theorem set_self (s : Network) (p : Bytes) : s.set p (s.peers p) = s := by
  rw [set, Function.update_eq_self]

theorem set_set (s : Network) (p : Bytes) (r r' : NetPeer) : (s.set p r).set p r' = s.set p r' := by
  simp [set]

theorem endpoint_set_self (s : Network) (p : Bytes) (r : NetPeer) (x : Bytes) :
    (s.set p r).endpoint p x = r.endpoints x := by
  rw [endpoint, set_peers_self]

/-- A step of `p` leaves the endpoints of the others. -/
theorem endpoint_set_of_ne (s : Network) (r : NetPeer) {p q : Bytes} (hq : q ≠ p) (x : Bytes) :
    (s.set p r).endpoint q x = s.endpoint q x := by
  rw [endpoint, set_peers, if_neg hq]
  rfl

/-- A step of `p` is one on the left of its pairs, -/
theorem pair_set_left (s : Network) (r : NetPeer) {p q : Bytes} (hpq : p ≠ q) :
    (s.set p r).pair p q = Function.update (s.pair p q) .left (r.endpoints q) := by
  funext x
  cases x with
  | left => simp [pair, endpoint, set_peers]
  | right => simp [pair, endpoint, set_peers, hpq.symm]

/-- and on the right of the same pairs seen from the others; -/
theorem pair_set_right (s : Network) (r : NetPeer) {p q : Bytes} (hpq : p ≠ q) :
    (s.set p r).pair q p = Function.update (s.pair q p) .right (r.endpoints q) := by
  funext x
  cases x with
  | left => simp [pair, endpoint, set_peers, hpq.symm]
  | right => simp [pair, endpoint, set_peers]

/-- pairs of others stay. -/
theorem pair_set_other (s : Network) (r : NetPeer) {p a b : Bytes} (ha : a ≠ p) (hb : b ≠ p) :
    (s.set p r).pair a b = s.pair a b := by
  funext x
  cases x with
  | left => simp [pair, endpoint, set_peers, ha]
  | right => simp [pair, endpoint, set_peers, hb]

/-- A step of the peer `p`, seen from each pair of peers. -/
theorem Met.of_left {p : Bytes} {r : NetPeer} (hs : s.Met L ids)
    (hl : ∀ q ∈ ids, p ≠ q → p ∈ ids → ((s.set p r).pair p q).Untold L)
    (hr : ∀ q ∈ ids, p ≠ q → p ∈ ids → ((s.set p r).pair q p).Untold L) :
    (s.set p r).Met L ids := by
  intro a ha b hb hab
  by_cases hap : a = p
  · subst hap
    exact hl b hb hab ha
  by_cases hbp : b = p
  · subst hbp
    exact hr a ha (Ne.symm hab) hb
  rw [pair_set_other s r hap hbp]
  exact hs a ha b hb hab

/-- Calls at the endpoints of one peer. -/
theorem Met.called {p : Bytes} {r : NetPeer} (hs : s.Met L ids)
    (hr : ∀ q, Called L (s.endpoint p q) (r.endpoints q)) : (s.set p r).Met L ids := by
  refine hs.of_left (fun q hq hpq hp => ?_) fun q hq hpq hp => ?_
  · rw [pair_set_left s r hpq]
    exact (hs p hp q hq hpq).called .left (hr q)
  · rw [pair_set_right s r hpq]
    exact (hs q hq p hp hpq.symm).called .right (hr q)

/-- What a step does to one endpoint of `p`, where calls of others are not `shutdown`. -/
theorem Met.setEndpoint {p q : Bytes} {v : PlainRpc} (hs : s.Met L ids)
    (hstep : ∀ x : Side, ∀ t : Pair, t.Untold L → t x = s.endpoint p q →
      t x.other = s.endpoint q p → Pair.Untold L (Function.update t x v)) :
    (s.setEndpoint p q v).Met L ids := by
  have same : ∀ {b}, b ≠ q → ∀ t : Pair, ∀ x : Side, t x = s.endpoint p b →
      Function.update t x (((s.peers p).setEndpoint q v).endpoints b) = t := fun hb t x ht => by
    rw [NetPeer.setEndpoint_of_ne hb]
    exact (congrArg (Function.update t x) ht.symm).trans (Function.update_eq_self x t)
  refine hs.of_left (fun b hb hpb hp => ?_) fun b hb hpb hp => ?_
  · rw [pair_set_left s _ hpb]
    by_cases hbq : b = q
    · subst hbq
      rw [NetPeer.setEndpoint_self]
      exact hstep .left _ (hs p hp b hb hpb) rfl rfl
    · rw [same hbq _ .left rfl]
      exact hs p hp b hb hpb
  · rw [pair_set_right s _ hpb]
    by_cases hbq : b = q
    · subst hbq
      rw [NetPeer.setEndpoint_self]
      exact hstep .right _ (hs b hb p hp hpb.symm) rfl rfl
    · rw [same hbq _ .right rfl]
      exact hs b hb p hp hpb.symm

/-- **A step of the network is a step of each two endpoints**, or some. -/
theorem Step.met {e : NetEvent} (h : Step L ids s e s') (hs : s.Met L ids) : s'.Met L ids := by
  cases h with
  | updateState hp hstage ht h => exact hs.called (NetPeer.updateState_acts h).called
  | @deliver p q message b v hp hq hpq hstage hm h =>
      refine hs.setEndpoint fun x t ht hx hother => ht.step (e := .deliver x message)
        (fun _ h => by cases h) ?_
      exact .deliver (hother ▸ hm) (hx ▸ h)
  | update hp hstage h => exact hs.called (NetPeer.update_acts h).1.called
  | initTimeShift hp hq hpq hstage h => exact hs.called (NetPeer.call_acts h (by simp)).called
  | shutdown hp h => exact hs.called (NetPeer.shutdown_acts h).called
  | getAllInputValues hx hlive => exact hs
  | resume hat hlive h => exact hs
  | @rehash p q r hp h =>
      refine hs.setEndpoint fun x t ht hx hother => ht.step (e := .rehash x)
        (fun _ h => by cases h) ?_
      have hstep : Pair.Step L t (.rehash x) _ := .rehash (hx ▸ h)
      rwa [hx] at hstep

/-- What a step does to a peer, apart from what arrives and from its tables. -/
theorem Step.names {e : NetEvent} (h : Step L ids s e s') (x : Bytes) :
    (s'.peers x).userId = (s.peers x).userId ∧ (s'.peers x).peerIds = (s.peers x).peerIds := by
  have acts : ∀ {p r stage}, (s.peers p).Acts L { r with stage := stage } →
      ((s.set p r).peers x).userId = (s.peers x).userId ∧
        ((s.set p r).peers x).peerIds = (s.peers x).peerIds := fun {p r stage} hr => by
    rw [set_peers]
    split
    · rename_i hx
      exact hx ▸ ⟨hr.userId, hr.peerIds⟩
    · exact ⟨rfl, rfl⟩
  have endpoint : ∀ {p q v}, ((s.setEndpoint p q v).peers x).userId = (s.peers x).userId ∧
      ((s.setEndpoint p q v).peers x).peerIds = (s.peers x).peerIds := fun {p q v} => by
    rw [setEndpoint, set_peers]
    split
    · rename_i hx
      exact hx ▸ ⟨rfl, rfl⟩
    · exact ⟨rfl, rfl⟩
  cases h with
  | updateState hp hstage ht h => exact acts (NetPeer.updateState_acts h)
  | deliver hp hq hpq hstage hm h => exact endpoint
  | update hp hstage h => exact acts (NetPeer.update_acts h).1
  | initTimeShift hp hq hpq hstage h => exact acts (NetPeer.call_acts h (by simp))
  | shutdown hp h => exact acts (NetPeer.shutdown_acts h)
  | getAllInputValues hx hlive => exact ⟨rfl, rfl⟩
  | resume hat hlive h => exact ⟨rfl, rfl⟩
  | rehash hp h => exact endpoint

/-- Peers keep their names. -/
theorem run_named {es : List NetEvent} (r : (network L ids).Run es s) : s.Named ids := by
  refine r.invariant (I := Named ids) (fun s hs p => ?_) fun s e s' hs h p => ?_
  · obtain ⟨flaky, env, hp⟩ := hs.1 p
    rw [hp]
    exact ⟨rfl, rfl⟩
  · obtain ⟨hid, hids⟩ := Step.names h p
    exact ⟨hid.trans (hs p).1, hids.trans (hs p).2⟩

/-- Who calls. -/
theorem run_callers {es : List NetEvent} (r : (network L ids).Run es s) {c : Bytes × InputCall}
    (hc : c ∈ s.calls) : c.1 ∈ ids := by
  refine r.invariant (I := fun s => ∀ c ∈ s.calls, c.1 ∈ ids) (fun s hs c hc => ?_)
    (fun s e s' hs h c hc => ?_) c hc
  · rw [hs.2] at hc
    cases hc
  · cases h with
    | getAllInputValues hx hlive =>
        rcases List.mem_append.mp hc with hc | hc
        · exact hs c hc
        · exact List.mem_singleton.mp hc ▸ hx
    | @resume i x p call call' hat hlive h =>
        rcases List.mem_or_eq_of_mem_set hc with hc | rfl
        · exact hs c hc
        · exact hs (x, call) (List.mem_of_getElem? hat.1)
    | _ => exact hs c hc

/-- **The endpoints of any two peers are a run of `exchange`.** -/
theorem run_met {es : List NetEvent} (r : (network L ids).Run es s) : s.Met L ids := by
  refine r.invariant (I := Met L ids) (fun s hs p hp q hq hpq => ?_) fun s e s' hs h => Step.met h hs
  refine ⟨[], .start fun x => ?_, fun _ => List.not_mem_nil⟩
  cases x with
  | left =>
      obtain ⟨flaky, env, hpeer⟩ := hs.1 p
      exact ⟨flaky, env q, congrFun (congrArg NetPeer.endpoints hpeer) q⟩
  | right =>
      obtain ⟨flaky, env, hpeer⟩ := hs.1 q
      exact ⟨flaky, env p, congrFun (congrArg NetPeer.endpoints hpeer) p⟩

/-! ### Computing a run -/

/-- The peers `ids` before their first event. -/
def new (ids : List Bytes) : Network := ⟨fun p => .new ids p false fun _ => default, []⟩

/-- The step of an event, computed; that of `rehash` is no function of its event. -/
def exec (L : Libraries) (ids : List Bytes) (s : Network) : NetEvent → Except Fault Network
  | .updateState p uuid timestamp data =>
      if ids.contains p = true ∧ (s.peers p).stage = .running ∧ timestamp < 2 ^ 63 then do
        let r ← (s.peers p).updateState L uuid timestamp data
        .ok (s.set p r)
      else .error (.thrown "no such step")
  | .deliver p q message =>
      if ids.contains p = true ∧ ids.contains q = true ∧ p ≠ q ∧ (s.peers p).stage ≠ .finished ∧
          (s.endpoint q p).sub.any (fun m => m.message == message) = true then do
        let r ← BiDirectionalRpc.receive L (PlainRpc.virtuals L) message (s.endpoint p q)
        .ok (s.setEndpoint p q r.2)
      else .error (.thrown "no such step")
  | .update p uuid =>
      if ids.contains p = true ∧ (s.peers p).stage ≠ .updateFinished ∧
          (s.peers p).stage ≠ .finished then do
        let r ← (s.peers p).update L uuid
        .ok (s.set p r)
      else .error (.thrown "no such step")
  | .initTimeShift p q uuid =>
      if ids.contains p = true ∧ ids.contains q = true ∧ p ≠ q ∧ (s.peers p).stage = .running then do
        let r ← (s.peers p).call L q (.request uuid PING)
        .ok (s.set p r)
      else .error (.thrown "no such step")
  | .shutdown p uuid isConnectionDead =>
      if ids.contains p = true then do
        let r ← (s.peers p).shutdown L uuid isConnectionDead
        .ok (s.set p r)
      else .error (.thrown "no such step")
  | .getAllInputValues x timestamp =>
      if ids.contains x = true ∧ (s.peers x).sentShutdown = false then
        .ok { s with calls := s.calls ++ [(x, (s.peers x).view.getAllInputValues timestamp)] }
      else .error (.thrown "no such step")
  | .resume i =>
      match s.calls[i]? with
      | none => .error (.thrown "no such step")
      | some (x, call) =>
          match call.remaining.head? with
          | none => .error (.thrown "no such step")
          | some p =>
              if (s.peers x).sentShutdown = false then do
                let call' ← (s.peers x).view.resumeAt p call
                .ok { s with calls := s.calls.set i (x, call') }
              else .error (.thrown "no such step")
  | .rehash .. => .error (.thrown "no such step")

/-- What is computed is a step. -/
theorem exec_step {e : NetEvent} (h : exec L ids s e = .ok s') : Step L ids s e s' := by
  cases e with
  | updateState p uuid timestamp data =>
      rw [exec] at h
      split at h
      · rename_i hc
        obtain ⟨r, hr, h⟩ := bind_ok.mp h
        cases h
        exact .updateState (List.contains_iff_mem.mp hc.1) hc.2.1 hc.2.2 hr
      · cases h
  | deliver p q message =>
      rw [exec] at h
      split at h
      · rename_i hc
        obtain ⟨hp, hq, hpq, hstage, hm⟩ := hc
        obtain ⟨m, hm, heq⟩ := List.any_eq_true.mp hm
        obtain ⟨⟨b, v⟩, hr, h⟩ := bind_ok.mp h
        cases h
        exact .deliver (List.contains_iff_mem.mp hp) (List.contains_iff_mem.mp hq) hpq hstage
          ⟨m, hm, eq_of_beq heq⟩ hr
      · cases h
  | update p uuid =>
      rw [exec] at h
      split at h
      · rename_i hc
        obtain ⟨r, hr, h⟩ := bind_ok.mp h
        cases h
        exact .update (List.contains_iff_mem.mp hc.1) hc.2 hr
      · cases h
  | initTimeShift p q uuid =>
      rw [exec] at h
      split at h
      · rename_i hc
        obtain ⟨r, hr, h⟩ := bind_ok.mp h
        cases h
        exact .initTimeShift (List.contains_iff_mem.mp hc.1) (List.contains_iff_mem.mp hc.2.1)
          hc.2.2.1 hc.2.2.2 hr
      · cases h
  | shutdown p uuid isConnectionDead =>
      rw [exec] at h
      split at h
      · rename_i hc
        obtain ⟨r, hr, h⟩ := bind_ok.mp h
        cases h
        exact .shutdown (List.contains_iff_mem.mp hc) hr
      · cases h
  | getAllInputValues x timestamp =>
      rw [exec] at h
      split at h
      · rename_i hc
        cases h
        exact .getAllInputValues (List.contains_iff_mem.mp hc.1) hc.2
      · cases h
  | resume i =>
      rw [exec] at h
      split at h
      · cases h
      · rename_i x call hcall
        split at h
        · cases h
        · rename_i p hp
          split at h
          · rename_i hlive
            obtain ⟨call', hr, h⟩ := bind_ok.mp h
            cases h
            exact .resume ⟨hcall, hp⟩ hlive hr
          · cases h
  | rehash p q => cases h

/-- What is computed from the start is a run. -/
theorem exec_run {es : List NetEvent} (h : es.foldlM (exec L ids) (new ids) = .ok s) :
    (network L ids).Run es s := by
  have h₀ : (network L ids).init (new ids) := ⟨fun _ => ⟨false, fun _ => default, rfl⟩, rfl⟩
  exact .of_foldlM (fun _ _ _ => exec_step) h₀ h

end Network

end Wga
