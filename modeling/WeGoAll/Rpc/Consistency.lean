import WeGoAll.Formats.Msgpack
import WeGoAll.Rpc.Endpoint
import WeGoAll.Rpc.Progress

/-!
# Rpc — Consistency

The six tables of one endpoint and the two of its clock, whatever packets arrive, and what follows
for the methods that rely on them: none of them fails.

* `Rpc.TablesAgree`: the tables between two operations.
* `Move.oneWay`: a request nobody waits for is in flight or delayed.
* `tables_agree`: in every state of an endpoint the tables agree, every proper call returns and
  every packet is received to its end.
-/

namespace Wga

open BiDirectionalRpc PlainRpc

/-! ### Requests nobody waits for -/

/-- They are in flight or delayed, apart from the one the operation is at. -/
def Rpc.OneWay (ph : Phase) (r : Rpc) : Prop :=
  ∀ id ∈ r.oneWayRequests, id ∈ r.outgoingRequests ∨ id ∈ r.delayedRequests ∨
    (∃ p, ph = .issuing id p) ∨ ph = .completing id

/-- A move that takes no request out of the tables and finishes none. -/
theorem Rpc.OneWay.mono {r r' : Rpc} {ph ph' : Phase} (h : r.OneWay ph)
    (hone : r'.oneWayRequests = r.oneWayRequests)
    (hout : ∀ a ∈ r.outgoingRequests, a ∈ r'.outgoingRequests)
    (hdel : ∀ a ∈ r.delayedRequests, a ∈ r'.outgoingRequests ∨ a ∈ r'.delayedRequests)
    (hiss : ∀ a p, ph = .issuing a p →
      a ∈ r'.outgoingRequests ∨ a ∈ r'.delayedRequests)
    (hcomp : ∀ a, ph = .completing a → ph' = .completing a) : r'.OneWay ph' := by
  intro a ha
  rw [hone] at ha
  rcases h a ha with h | h | ⟨p, h⟩ | h
  · exact .inl (hout a h)
  · exact (hdel a h).imp_right .inl
  · exact (hiss a p h).imp_right .inl
  · exact .inr (.inr (.inr (hcomp a h)))

section Moves

variable {L : Libraries} {R : Rights} {ph ph' : Phase} {r r' : Rpc}

/-- **Every move keeps them there**, when no reply is dropped. -/
theorem Move.oneWay (hR : ¬ R.drops) (hm : Move L R ph r ph' r') (h : r.OneWay ph) :
    r'.OneWay ph' := by
  -- between two operations they are in the tables
  have tables : ph = .idle → ∀ a ∈ r.oneWayRequests,
      a ∈ r.outgoingRequests ∨ a ∈ r.delayedRequests := fun hph a ha => by
    subst hph
    rcases h a ha with h | h | ⟨p, h⟩ | h
    · exact .inl h
    · exact .inr h
    · cases h
    · cases h
  have new : ∀ {r' : Rpc} {b : RpcId} {p : Bytes}, ph = .idle →
      r'.oneWayRequests = insert b r.oneWayRequests →
      r'.outgoingRequests = r.outgoingRequests → r'.delayedRequests = r.delayedRequests →
      r'.OneWay (.issuing b p) := by
    intro r' b p hph hone hout hdel a ha
    rw [hone] at ha
    rcases Finset.mem_insert.mp ha with rfl | ha
    · exact .inr (.inr (.inl ⟨p, rfl⟩))
    · rw [hout, hdel]
      exact (tables hph a ha).imp_right .inl
  cases hm with
  | request hmay hid => exact h.mono rfl (fun _ => id) (fun _ => .inr) nofun nofun
  | requestOneWay hmay hid => exact new rfl rfl rfl rfl
  | greet hmay hnone hid => exact new rfl rfl rfl rfl
  | start hp hf hc =>
      refine h.mono rfl (fun a ha => (AList.mem_insert _).mpr (.inr ha)) (fun _ => .inr) ?_ nofun
      rintro a p ⟨⟩
      exact .inl ((AList.mem_insert _).mpr (.inl rfl))
  | delay hp hf =>
      refine h.mono rfl (fun _ => id) (fun a ha => .inr ((AList.mem_insert _).mpr (.inr ha))) ?_
        nofun
      rintro a p ⟨⟩
      exact .inr ((AList.mem_insert _).mpr (.inl rfl))
  | release hid hout hmin hc =>
      exact h.mono rfl (fun a ha => (AList.mem_insert _).mpr (.inr ha)) (fun _ => .inr) nofun
        fun _ => id
  | @unqueue _ c b hid =>
      refine h.mono rfl (fun _ => id) (fun a ha => ?_) nofun fun _ => id
      by_cases hab : a = b
      · exact .inl (hab ▸ hid)
      · exact .inr (AList.mem_erase.mpr ⟨hab, ha⟩)
  | @complete _ b hmay hout hin hproc =>
      intro a ha
      by_cases hab : a = b
      · exact .inr (.inr (.inr (hab ▸ rfl)))
      · exact (tables rfl a ha).imp (fun h => AList.mem_erase.mpr ⟨hab, h⟩) .inl
  | @queue _ b p hmay hord hone =>
      intro a ha
      rcases h a ha with h | h | ⟨p, h⟩ | h
      · exact .inl h
      · exact .inr (.inl h)
      · cases h
      · cases h
        exact absurd ha hone
  | @forget _ b hord hone =>
      intro a ha
      obtain ⟨hab, ha⟩ := Finset.mem_erase.mp ha
      rcases h a ha with h | h | ⟨p, h⟩ | h
      · exact .inl h
      · exact .inr (.inl h)
      · cases h
      · cases h
        exact absurd rfl hab
  | drop hmay hord => exact absurd hmay hR
  | stopClock | accept | answer | take | discard | advance | close =>
      exact h.mono rfl (fun _ => id) (fun _ => .inr) nofun nofun
  | rehash hr =>
      refine h.mono (by rw [hr.rest]) (fun a => (AList.mem_of_perm hr.outgoingRequests).mp)
        (fun a ha => .inr ((AList.mem_of_perm hr.delayedRequests).mp ha)) nofun nofun

theorem Path.oneWay {τ : Type} {Q : Phase → Rpc → τ → τ → Prop} {a b : Point τ}
    (hR : ¬ R.drops) (h : Path L R Q a b) (ha : a.rpc.OneWay a.phase) : b.rpc.OneWay b.phase :=
  h.invariant_rpc (I := fun ph r => r.OneWay ph) (fun _ _ _ _ hr hm => hm.oneWay hR hr) ha

end Moves

/-! ### Where the methods end -/

namespace PlainRpc

variable {L : Libraries} {s s' : PlainRpc}

/-- What the caller of a method sees to: requests have fresh identifiers, replies are to requests
that wait, and a reply that is asked for is there. -/
def Proper (r : Rpc) : Call → Prop
  | .request uuid _ | .requestOneWay uuid _ | .heartbeat uuid | .sendShutdown uuid =>
      ∀ p, ¬ Issued r.history ⟨r.onBarrier, uuid⟩ p
  | .reply id _ => id ∈ r.incomingRequests
  | .getFirstIncomingReply => r.incomingReplies.entries ≠ []
  | .consumeIncomingReplyWithId id => id ∈ r.incomingReplies
  | .barrier => r.onBarrier ≠ Int64.maxValue
  | .resendRandomOutgoingMessage | .shutdown => True

theorem send_ends (m : Bytes) (s : PlainRpc) : ∃ s', send m s = .ok s' := ⟨_, rfl⟩

/-- A fresh request has no time stamp. -/
theorem unstamped {id : RpcId} (hc : s.rpc.Consistent .idle) (hr : s.rpc.Requesting .idle)
    (hnew : ∀ p, ¬ Issued s.rpc.history id p) : id ∉ s.rpc.clock.requestSendTimeMap := by
  intro hm
  rcases (hc.sendTime id).mp hm with hm | hm | hm
  · obtain ⟨p, hp⟩ := hr.outgoing_mem hm
    exact hnew p hp
  · cases hm
  · cases hm

/-- **A proper call returns.** -/
theorem call_ends {c : Call} (hc : s.rpc.Consistent .idle) (hr : s.rpc.Requesting .idle)
    (hp : Proper s.rpc c) : ∃ s', c.run L (virtuals L) s = .ok s' := by
  have oneWay : ∀ uuid p, (∀ p, ¬ Issued s.rpc.history ⟨s.rpc.onBarrier, uuid⟩ p) →
      ∃ s', BiDirectionalRpc.requestOneWay (virtuals L) uuid p s = .ok s' := fun uuid p hnew =>
    have hnew := unstamped hc hr hnew
    requestWithId_ends send_ends (by exact hnew)
  cases c with
  | request uuid p =>
      have hnew := unstamped hc hr hp
      exact requestWithId_ends send_ends (by exact hnew)
  | requestOneWay uuid p => exact oneWay uuid p hp
  | reply id p => exact reply_ends send_ends hc hp
  | getFirstIncomingReply =>
      simp only [Call.run, getFirstIncomingReply]
      split
      · exact absurd ‹_› hp
      · exact ⟨_, rfl⟩
  | consumeIncomingReplyWithId id =>
      obtain ⟨p, hp⟩ := Option.isSome_iff_exists.mp (AList.lookup_isSome.mpr hp)
      simp only [Call.run, consumeIncomingReplyWithId, hp]
      exact ⟨_, rfl⟩
  | barrier => exact ⟨_, if_neg hp⟩
  | heartbeat uuid =>
      simp only [Call.run, heartbeat]
      split
      · exact resend_ends send_ends hc
      · split
        · exact oneWay uuid PING hp
        · exact ⟨_, rfl⟩
  | resendRandomOutgoingMessage => exact resend_ends send_ends hc
  | sendShutdown uuid =>
      simp only [Call.run, sendShutdown]
      split
      · exact ⟨_, rfl⟩
      · exact oneWay uuid SHUTDOWN hp
  | shutdown => exact ⟨_, rfl⟩

/-- The rights of an endpoint of which nothing is asked. -/
def anything : Rights := .plain (fun _ _ => True) fun _ => True

/-- An entry of a `REQUEST` packet is handled to its end. -/
theorem handleRequest_ends (id : RpcId) (p : Bytes) (hc : s.rpc.Consistent .idle) :
    ∃ s', handleRequest L (virtuals L).send (virtuals L).addIncomingRequest (virtuals L).reply
      id p s = .ok s' := by
  refine BiDirectionalRpc.handleRequest_ends send_ends hc
    (fun hin hout => addIncomingRequest_ends hc hin hout)
    fun hin hproc hout s₁ s₂ q h₁ hs₂ hin₁ => ?_
  have hpath : Path L anything (Posts L anything) (s.at .idle) (s₁.at .idle) :=
    addIncomingRequest_path trivial hin hproc hout h₁
  have hc₁ : s₁.rpc.Consistent .idle := hpath.consistent hc
  rcases hs₂ with rfl | rfl
  · exact reply_ends send_ends hc₁ hin₁
  · refine reply_ends send_ends ?_ hin₁
    exact { hc₁ with }

/-- An entry of a `REPLY` packet is handled to its end. -/
theorem handleReply_ends (id : RpcId) (p : Bytes) (t₁ t₂ : Int) (hc : s.rpc.Consistent .idle) :
    ∃ s', (virtuals L).handleReply id p t₁ t₂ s = .ok s' :=
  BiDirectionalRpc.handleReply_ends (R := anything) send_ends (fun _ _ _ h => by cases h; rfl)
    send_within trivial hc (fun _ _ _ hs h => sendAcknowledge_path send_within hs h)
    (fun _ _ _ hord hone h => addIncomingReply_path trivial hord hone h)
    (fun _ _ _ => ⟨_, rfl⟩) fun _ _ _ => ⟨_, rfl⟩

/-- **A packet is handled to its end.** -/
theorem handlePacket_ends (hc : s.rpc.Consistent .idle) (p : Packet) :
    ∃ s', handlePacket L (virtuals L) p s = .ok s' := by
  have consistent : ∀ {p : Packet} {s s' : PlainRpc}, s.rpc.Consistent .idle →
      handlePacket L (virtuals L) p s = .ok s' → s'.rpc.Consistent .idle := fun hc h =>
    (handlePacket_path hc h).consistent hc
  cases p with
  | request es =>
      have step : ∀ (s : PlainRpc) (e : IdPayload), e ∈ es → s.rpc.Consistent .idle → ∃ s',
          handleRequest L (virtuals L).send (virtuals L).addIncomingRequest (virtuals L).reply
            e.id e.payload s = .ok s' ∧ s'.rpc.Consistent .idle := fun s e _ hc => by
        obtain ⟨s', h⟩ := handleRequest_ends (L := L) e.id e.payload hc
        refine ⟨s', h, consistent (p := .request [e]) hc ?_⟩
        exact bind_ok.mpr ⟨s', h, rfl⟩
      obtain ⟨s', h, -⟩ := foldlM_ok step hc
      exact ⟨s', h⟩
  | reply es =>
      have step : ∀ (s : PlainRpc) (e : ReplyEntry), e ∈ es → s.rpc.Consistent .idle → ∃ s',
          (virtuals L).handleReply e.id e.payload (int64Of e.requestReceiveTime)
            (int64Of e.replySendTime) s = .ok s' ∧ s'.rpc.Consistent .idle := fun s e _ hc => by
        obtain ⟨s', h⟩ := handleReply_ends (L := L) e.id e.payload
          (int64Of e.requestReceiveTime) (int64Of e.replySendTime) hc
        refine ⟨s', h, consistent (p := .reply [e]) hc ?_⟩
        exact bind_ok.mpr ⟨s', h, rfl⟩
      obtain ⟨s', h, -⟩ := foldlM_ok step hc
      exact ⟨s', h⟩
  | acknowledge uid q => exact handleAcknowledge_ends hc

end PlainRpc

/-! ### Every state -/

/-- **The tables of an endpoint between two operations.** -/
structure Rpc.TablesAgree (r : Rpc) : Prop where
  sendTime : ∀ id, id ∈ r.clock.requestSendTimeMap ↔ id ∈ r.outgoingRequests
  receiveTime : ∀ id, id ∈ r.clock.requestReceiveTimeMap ↔
    id ∈ r.incomingRequests ∨ id ∈ r.outgoingReplies
  answered : ∀ id ∈ r.incomingRequests, id ∉ r.outgoingReplies
  delayed : ∀ id ∈ r.outgoingRequests, id ∉ r.delayedRequests
  oneWay : ∀ id ∈ r.oneWayRequests, id ∈ r.outgoingRequests ∨ id ∈ r.delayedRequests

section

variable {L : Libraries} {s : PlainRpc}

/-- Nothing an endpoint does drops a reply. -/
theorem PlainRpc.run_oneWay {es : List EndpointEvent} (r : (endpoints L).Run es s) :
    s.rpc.OneWay .idle := by
  refine (r.invariant (I := fun s => Inv L (s.at .idle) ∧ s.rpc.OneWay .idle) ?_ ?_).2
  · rintro _ ⟨flaky, env, rfl⟩
    refine ⟨inv_new flaky env, fun id hid => ?_⟩
    exact absurd hid (Finset.notMem_empty id)
  · rintro s e s' ⟨hs, hone⟩ h
    cases h with
    | call h =>
        have hp := call_path h
        exact ⟨hp.inv (Rights.plain_faithful _ _) hs, hp.oneWay id hone⟩
    | receive h =>
        obtain ⟨p, hp⟩ := receive_any_path hs.consistent h
        exact ⟨hp.inv (Rights.plain_faithful _ _) hs, hp.oneWay id hone⟩
    | rehash h =>
        have hp := rehash_path (L := L) (R := anything) h
        exact ⟨hp.inv (Rights.plain_faithful _ _) hs, hp.oneWay id hone⟩

/-- **The tables of an endpoint agree** in every state it reaches, whatever it receives, and so
every proper call returns and every packet is received to its end. -/
theorem tables_agree {es : List EndpointEvent} (r : (endpoints L).Run es s) :
    s.rpc.TablesAgree ∧ (∀ c, Proper s.rpc c → ∃ s', c.run L (virtuals L) s = .ok s') ∧
    ∀ message (p : Packet), p.Reads (L.unpack message) →
      ∃ b s', receive L (virtuals L) message s = .ok (b, s') := by
  obtain ⟨hc, hreq, -⟩ := run_inv r
  refine ⟨?_, fun c => call_ends hc hreq, fun message p hp => ?_⟩
  · have hord := hc.ordered (by simp [Self.at])
    exact {
      sendTime := fun id => by simpa [Self.at] using hc.sendTime id
      receiveTime := hc.receiveTime
      answered := hc.disjoint
      delayed := fun id hout hdel => Int64.lt_irrefl (hord.lt_delayed id hout id hdel)
      oneWay := fun id hid => by simpa using run_oneWay r id hid }
  · have hc' : (flake s).2.rpc.Consistent .idle := by
      rw [flake_rpc]
      exact hc
    refine (receive_ends_iff message).mpr ⟨hp.headed, ?_⟩
    cases hf : (flake s).1 with
    | true => exact .inl rfl
    | false => exact .inr ⟨rfl, p, hp, handlePacket_ends hc' p⟩

end

/-- A heartbeat arrives twice. -/
def pinged : List EndpointEvent :=
  let ping := (Packet.request [⟨⟨0, 7⟩, PING⟩, ⟨⟨0, 7⟩, PING⟩]).message .standIn
  [.receive ping, .receive ping]

theorem pinged_ends : ∃ s, pinged.foldlM (PlainRpc.exec .standIn) (.new false default) = .ok s ∧
    s.rpc.outgoingReplies.lookup ⟨0, 7⟩ = some PONG := by
  decide +kernel

/-- The tables in that run. -/
theorem tables_agree_pinged : ∃ s, (endpoints .standIn).Run pinged s ∧ s.rpc.TablesAgree ∧
    (∀ c, Proper s.rpc c → ∃ s', c.run .standIn (virtuals .standIn) s = .ok s') ∧
    ∀ message (p : Packet), p.Reads (Libraries.standIn.unpack message) →
      ∃ b s', receive .standIn (virtuals .standIn) message s = .ok (b, s') := by
  obtain ⟨s, h, -⟩ := pinged_ends
  have hr := PlainRpc.exec_run h
  exact ⟨s, hr, tables_agree hr⟩

end Wga
