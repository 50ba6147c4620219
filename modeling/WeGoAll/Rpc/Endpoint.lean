import WeGoAll.Rpc.Once
import WeGoAll.Rpc.Paths
import WeGoAll.Rpc.Reading
import WeGoAll.Support.Runs

/-!
# Rpc — Endpoint

A `BiDirectionalRpc` by itself: a derived class that adds nothing but the list of the messages
handed to `send`, each with the history up to that moment.

* `endpoints`: one endpoint, any calls, messages of any bytes, and hash tables in any order.
* `PlainRpc.Inv`: its invariant.  `Act.inv` shows it for each move and each message sent.
* `call_path`, `handlePacket_path`: calls and packets are paths with the rights they need.
-/

namespace Wga

/-- A message handed to `send`. -/
structure Sent where
  history : List Event
  message : Bytes

/-- A `BiDirectionalRpc` and what it sent. -/
abbrev PlainRpc := Self (List Sent)

namespace PlainRpc

variable (L : Libraries)

def new (flaky : Bool) (env : Env) : PlainRpc := ⟨BiDirectionalRpc.new flaky, [], env⟩

def send (message : Bytes) (self : PlainRpc) : Except Fault PlainRpc :=
  .ok { self with sub := self.sub ++ [⟨self.rpc.history, message⟩] }

/-- The methods of `BiDirectionalRpc` itself. -/
def virtuals : Virtuals (List Sent) where
  send := send
  sendAcknowledge := BiDirectionalRpc.sendAcknowledge L send
  requestWithId := BiDirectionalRpc.requestWithId L send
  reply := BiDirectionalRpc.reply L send
  addIncomingRequest := BiDirectionalRpc.addIncomingRequest
  addIncomingReply := BiDirectionalRpc.addIncomingReply
  handleReply := BiDirectionalRpc.handleReply L send (BiDirectionalRpc.sendAcknowledge L send)
    BiDirectionalRpc.addIncomingReply
  readyToSend := fun _ => true

end PlainRpc

/-! ### Rights -/

/-- The rights of an operation that stores what it is given and drops nothing. -/
def Rights.plain (may : Rpc → Event → Prop) (discards : RpcId → Prop) : Rights where
  may := may
  discards := discards
  rewrites := fun p q => q = p
  drops := False
  greets := False

theorem Rights.plain_faithful (may : Rpc → Event → Prop) (discards : RpcId → Prop) :
    (Rights.plain may discards).Faithful := ⟨fun _ _ h => h, id, id⟩

/-- The rights of a call. -/
def Call.rights (c : Call) : Rights := .plain (fun _ => c.may) fun _ => False

/-- The events a packet may make an endpoint record. -/
def Packet.may : Packet → Rpc → Event → Prop
  | .request es, _, .accepted id q => ⟨id, q⟩ ∈ es
  | .request _, r, .replied id q =>
      ∃ text, r.incomingRequests.lookup id = some text ∧ BiDirectionalRpc.Control text q
  | .reply es, _, .completed id => ∃ e ∈ es, e.id = id
  | .reply es, _, .queued id q => ∃ e ∈ es, e.id = id ∧ e.payload = q
  | _, _, _ => False

/-- The rights of a packet. -/
def Packet.rights (p : Packet) : Rights :=
  .plain p.may fun uid => ∃ q, p = .acknowledge uid q

/-- The packets an endpoint sends are added to those it sent. -/
def Posts (L : Libraries) (R : Rights) (ph : Phase) (r : Rpc) (t t' : List Sent) : Prop :=
  ∃ p, Sends R ph r p ∧ t' = t ++ [⟨r.history, p.message L⟩]

variable {L : Libraries} {R : Rights}

theorem PlainRpc.send_within : SendsWithin L R (Posts L R) PlainRpc.send := by
  rintro ph p s _ hp ⟨⟩
  exact ⟨rfl, p, hp, rfl⟩

namespace PlainRpc

variable {s s' : PlainRpc}

theorem call_path {c : Call} (h : c.run L (virtuals L) s = .ok s') :
    Path L c.rights (Posts L c.rights) (s.at .idle) (s'.at .idle) := by
  refine Call.run_path send_within (fun _ => Call.may_of_does) (fun id p s₁ s₂ h₁ => ?_)
    (fun id p hc h₁ => ?_) h
  · exact BiDirectionalRpc.requestWithId_path send_within rfl h₁
  · subst hc
    exact BiDirectionalRpc.reply_path send_within rfl h₁

theorem handlePacket_path {p : Packet} (hc : s.rpc.Consistent .idle)
    (h : BiDirectionalRpc.handlePacket L (virtuals L) p s = .ok s') :
    Path L p.rights (Posts L p.rights) (s.at .idle) (s'.at .idle) := by
  refine BiDirectionalRpc.handlePacket_path (fun es e hp he s₁ s₂ _ h₁ => ?_)
    (fun es e hp he t₁ t₂ s₁ s₂ hc₁ h₁ => ?_) (fun uid q hp => ⟨q, hp⟩) hc h
  · subst hp
    refine BiDirectionalRpc.handleRequest_path send_within (fun s₃ hin hproc hout h₃ => ?_)
      (fun s₃ s₄ text q _ htext hq h₃ => ?_) h₁
    · exact BiDirectionalRpc.addIncomingRequest_path he hin hproc hout h₃
    · exact BiDirectionalRpc.reply_path send_within ⟨text, htext, hq⟩ h₃
  · subst hp
    refine BiDirectionalRpc.handleReply_path send_within ⟨e, he, rfl⟩ hc₁
      (fun ph s₃ s₄ hs h₃ => BiDirectionalRpc.sendAcknowledge_path send_within hs h₃)
      (fun s₃ s₄ _ hord hone h₃ => ?_) h₁
    exact BiDirectionalRpc.addIncomingReply_path ⟨e, he, rfl, rfl⟩ hord hone h₃

/-- A message that unpacks to a packet. -/
theorem receive_path {p : Packet} {message : Bytes} {b : Bool} (hc : s.rpc.Consistent .idle)
    (hp : L.unpack message = ⟨p.objects, .finished⟩)
    (h : BiDirectionalRpc.receive L (virtuals L) message s = .ok (b, s')) :
    Path L p.rights (Posts L p.rights) (s.at .idle) (s'.at .idle) := by
  rw [BiDirectionalRpc.receive_eq hp] at h
  rw [← BiDirectionalRpc.flake_at s]
  split at h
  · cases h
    exact .refl _
  · cases hh : BiDirectionalRpc.handlePacket L (virtuals L) p (BiDirectionalRpc.flake s).2 with
    | error f =>
        rw [hh] at h
        cases h
    | ok s₁ =>
        rw [hh] at h
        cases h
        refine handlePacket_path ?_ hh
        rwa [BiDirectionalRpc.flake_rpc]

/-- Any message: it is some packet. -/
theorem receive_any_path {message : Bytes} {b : Bool} (hc : s.rpc.Consistent .idle)
    (h : BiDirectionalRpc.receive L (virtuals L) message s = .ok (b, s')) :
    ∃ p : Packet, Path L p.rights (Posts L p.rights) (s.at .idle) (s'.at .idle) := by
  rw [← BiDirectionalRpc.flake_at s]
  rcases BiDirectionalRpc.receive_cases h with rfl | ⟨p, hp⟩
  · exact ⟨.request [], .refl _⟩
  · refine ⟨p, handlePacket_path ?_ hp⟩
    rwa [BiDirectionalRpc.flake_rpc]

end PlainRpc

/-! ### The invariant -/

/-- Whatever was issued under a smaller barrier is completed. -/
def InOrder (h : List Event) (id : RpcId) : Prop :=
  ∀ a p, Issued h a p → a.barrier < id.barrier → .completed a ∈ h

/-- What an endpoint sent has its reason in the history of that moment, and what it sent as a
request is in flight until it is completed. -/
def Packet.Backed (r : Rpc) (h : List Event) : Packet → Prop
  | .request es => ∀ e ∈ es, Issued h e.id e.payload ∧ InOrder h e.id ∧
      InOrder r.history e.id ∧ (e.id ∈ r.outgoingRequests ∨ .completed e.id ∈ r.history)
  | .reply es => ∀ e ∈ es, .replied e.id e.payload ∈ h
  | .acknowledge _ _ => True

namespace PlainRpc

/-- The invariant of an endpoint inside an operation. -/
structure Inv (L : Libraries) (a : Point (List Sent)) : Prop where
  consistent : a.rpc.Consistent a.phase
  requesting : a.rpc.Requesting a.phase
  answering : a.rpc.Answering
  receiving : a.rpc.Receiving
  sent : ∀ m ∈ a.sub, m.history <+: a.rpc.history ∧
    ∃ p : Packet, m.message = p.message L ∧ p.Backed a.rpc m.history

theorem inv_new (flaky : Bool) (env : Env) : Inv L ((new flaky env).at .idle) where
  consistent := Rpc.consistent_new flaky
  requesting := .new flaky
  answering := .new flaky
  receiving := .new flaky
  sent := by
    intro m hm
    cases hm

/-- A request in flight goes out in order. -/
theorem Inv.inOrder {a : Point (List Sent)} (h : Inv L a) {id : RpcId}
    (hid : id ∈ a.rpc.outgoingRequests) : InOrder a.rpc.history id := by
  intro b p hb hlt
  rcases h.requesting.issued b p hb with ho | hd | hc | ⟨q, hq⟩
  · exact absurd (h.consistent.same b ho id hid) (Int64.ne_of_lt hlt)
  · exact absurd (Int64.lt_of_lt_of_le hlt (h.consistent.le_delayed id hid b hd))
      Int64.lt_irrefl
  · exact hc
  · rcases h.consistent.issuing b q hq with heq | ⟨hnil, -⟩
    · have hle := h.consistent.outgoing_le id hid
      rw [heq] at hlt
      exact absurd (Int64.lt_of_lt_of_le hlt hle) Int64.lt_irrefl
    · exact absurd hid (UnorderedMap.entries_eq_nil.mp hnil id)

end PlainRpc

/-- A request in flight stays in flight until it is completed. -/
theorem Move.inFlight {ph ph' : Phase} {r r' : Rpc} (hm : Move L R ph r ph' r') {id : RpcId}
    (h : id ∈ r.outgoingRequests ∨ .completed id ∈ r.history) :
    id ∈ r'.outgoingRequests ∨ .completed id ∈ r'.history := by
  refine h.elim (fun hid => ?_) fun hc => .inr (hm.history.subset hc)
  cases hm with
  | start | release => exact .inl ((AList.mem_insert _).mpr (.inr hid))
  | @complete _ a =>
      by_cases heq : id = a
      · exact .inr (List.mem_append_right _ (List.mem_singleton.mpr (by rw [heq])))
      · exact .inl (AList.mem_erase.mpr ⟨heq, hid⟩)
  | request | requestOneWay | greet | delay | unqueue | accept | answer | queue | forget | drop
  | stopClock | take | discard | advance | close => exact .inl hid
  | rehash hr => exact .inl ((AList.mem_of_perm hr.outgoingRequests).mp hid)

/-- What was issued is issued when a move ends, under the barrier of that time. -/
theorem Move.issued {ph ph' : Phase} {r r' : Rpc} (hm : Move L R ph r ph' r') {id : RpcId}
    {p : Bytes} (h : Issued r'.history id p) :
    Issued r.history id p ∨ id.barrier = r.onBarrier := by
  cases hm with
  | @request _ a q hmay hid =>
      rcases h with h | h
      · rcases List.mem_append.mp h with h | h
        · exact .inl (.inl h)
        · cases List.mem_singleton.mp h
          exact .inr hid
      · rcases List.mem_append.mp h with h | h
        · exact .inl (.inr h)
        · cases List.mem_singleton.mp h
  | @requestOneWay _ a q hmay hid =>
      rcases h with h | h
      · rcases List.mem_append.mp h with h | h
        · exact .inl (.inl h)
        · cases List.mem_singleton.mp h
      · rcases List.mem_append.mp h with h | h
        · exact .inl (.inr h)
        · cases List.mem_singleton.mp h
          exact .inr hid
  | accept | answer | complete | queue | take =>
      refine .inl (h.imp (fun h => ?_) fun h => ?_) <;>
        exact (List.mem_append.mp h).resolve_right (by simp)
  | greet | start | delay | release | unqueue | forget | drop | stopClock | discard | advance
  | close => exact .inl h
  | rehash hr =>
      rw [hr.rest] at h
      exact .inl h

/-- A request that goes out in order stays in order: nothing is issued under a smaller barrier
later. -/
theorem Move.inOrder {ph ph' : Phase} {r r' : Rpc} (hm : Move L R ph r ph' r') {id : RpcId}
    (hle : id.barrier ≤ r.onBarrier) (h : InOrder r.history id) : InOrder r'.history id := by
  intro a p ha hlt
  rcases hm.issued ha with ha | hbar
  · exact hm.history.subset (h a p ha hlt)
  · rw [hbar] at hlt
    exact absurd (Int64.lt_of_lt_of_le hlt hle) Int64.lt_irrefl

theorem Packet.Backed.move {ph ph' : Phase} {r r' : Rpc} (hm : Move L R ph r ph' r')
    {h : List Event} (hpre : h <+: r.history) (hr : r.Requesting ph) {p : Packet}
    (hp : p.Backed r h) : p.Backed r' h := by
  cases p with
  | request es =>
      intro e he
      obtain ⟨hi, ho, ho', hf⟩ := hp e he
      exact ⟨hi, ho, hm.inOrder (hr.barrier _ _ (hi.mono hpre)) ho', hm.inFlight hf⟩
  | reply es => exact hp
  | acknowledge uid q => exact hp

/-- **What an endpoint does keeps its invariant.** -/
theorem Act.inv (hR : R.Faithful) {a b : Point (List Sent)} (h : Act L R (Posts L R) a b)
    (ha : PlainRpc.Inv L a) : PlainRpc.Inv L b := by
  cases h with
  | move hm =>
      refine ⟨hm.consistent ha.consistent, hm.requesting hR ha.requesting,
        hm.answering ha.answering, hm.receiving ha.receiving, fun m hm' => ?_⟩
      obtain ⟨hpre, p, hp, hb⟩ := ha.sent m hm'
      exact ⟨hpre.trans hm.history, p, hp, hb.move hm hpre ha.requesting⟩
  | quiet hq =>
      obtain ⟨p, hp, rfl⟩ := hq
      refine { ha with sent := fun m hm => ?_ }
      rcases List.mem_append.mp hm with hm | hm
      · exact ha.sent m hm
      · cases List.mem_singleton.mp hm
        refine ⟨List.prefix_rfl, p, rfl, ?_⟩
        cases p with
        | request es =>
            intro e he
            have hlook := hp e he
            have hmem : e.id ∈ _ := AList.lookup_isSome.mp (Option.isSome_of_eq_some hlook)
            have hord := ha.inOrder hmem
            exact ⟨ha.requesting.outgoing _ _ hlook, hord, hord, .inl hmem⟩
        | reply es => exact fun e he => ha.answering.stored _ _ (hp e he)
        | acknowledge uid q => trivial

theorem Path.inv (hR : R.Faithful) {a b : Point (List Sent)} (h : Path L R (Posts L R) a b)
    (ha : PlainRpc.Inv L a) : PlainRpc.Inv L b :=
  h.invariant (fun _ _ ha hab => hab.inv hR ha) ha

/-! ### One endpoint -/

/-- An event at an endpoint. -/
inductive EndpointEvent where
  | call (c : Call)
  | receive (message : Bytes)
  | rehash

/-- What an event does. -/
inductive PlainRpc.Step (L : Libraries) : PlainRpc → EndpointEvent → PlainRpc → Prop where
  | call {s s' : PlainRpc} {c : Call} (h : c.run L (virtuals L) s = .ok s') :
      Step L s (.call c) s'
  | receive {s s' : PlainRpc} {message : Bytes} {b : Bool}
      (h : BiDirectionalRpc.receive L (virtuals L) message s = .ok (b, s')) :
      Step L s (.receive message) s'
  | rehash {s : PlainRpc} {r : Rpc} (h : s.rpc.Rehashed r) :
      Step L s .rehash { s with rpc := r }

/-- The runs of an endpoint in which the process survives. -/
def endpoints (L : Libraries) : System PlainRpc EndpointEvent where
  init s := ∃ flaky env, s = .new flaky env
  step := PlainRpc.Step L

theorem PlainRpc.rehash_path {s : PlainRpc} {r : Rpc} (h : s.rpc.Rehashed r) :
    Path L R (Posts L R) (s.at .idle) (Self.at { s with rpc := r } .idle) :=
  .move (.rehash h)

/-- **The invariant of an endpoint on its own**, whatever it receives. -/
theorem PlainRpc.run_inv {es : List EndpointEvent} {s : PlainRpc} (r : (endpoints L).Run es s) :
    Inv L (s.at .idle) := by
  refine r.invariant (I := fun s => Inv L (s.at .idle)) ?_ ?_
  · rintro _ ⟨flaky, env, rfl⟩
    exact inv_new flaky env
  · intro s e s' hs h
    cases h with
    | call h => exact (call_path h).inv (Rights.plain_faithful _ _) hs
    | receive h =>
        obtain ⟨p, hp⟩ := receive_any_path hs.consistent h
        exact hp.inv (Rights.plain_faithful _ _) hs
    | rehash h => exact (rehash_path h).inv (Rights.plain_faithful (fun _ _ => False) fun _ => False) hs

/-! ### Runs that are computed -/

namespace PlainRpc

variable {s s' : PlainRpc}

/-- An event as a computation; `rehash` changes nothing here. -/
def exec (L : Libraries) (s : PlainRpc) : EndpointEvent → Except Fault PlainRpc
  | .call c => c.run L (virtuals L) s
  | .receive message => do
      let (_, s) ← BiDirectionalRpc.receive L (virtuals L) message s
      .ok s
  | .rehash => .ok s

theorem exec_step {e : EndpointEvent} (h : exec L s e = .ok s') :
    Step L s e s' := by
  cases e with
  | call c => exact .call h
  | receive message =>
      obtain ⟨⟨b, s₁⟩, h₁, h⟩ := bind_ok.mp h
      cases h
      exact .receive h₁
  | rehash =>
      cases h
      exact .rehash ⟨.refl _, .refl _, .refl _, .refl _, .refl _, rfl⟩

theorem exec_run {flaky : Bool} {env : Env} {es : List EndpointEvent}
    (h : es.foldlM (exec L) (.new flaky env) = .ok s) : (endpoints L).Run es s := by
  have h₀ : (endpoints L).init (.new flaky env) := ⟨flaky, env, rfl⟩
  exact .of_foldlM (fun _ _ _ => exec_step) h₀ h

end PlainRpc

end Wga
