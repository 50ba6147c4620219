import Mathlib.Data.Finset.Card
import Mathlib.Data.Prod.Lex
import WeGoAll.Rpc.Batches
import WeGoAll.Rpc.Consistency
import WeGoAll.Rpc.Entries
import WeGoAll.Rpc.Retention

/-!
# Rpc — Recovery

No state two endpoints reach is a dead end.  Whatever the network lost, resends, the arrivals of
what they send, and the answers of the applications lead to a state in which every request is
answered and nothing is stored for the other side any more.

* `Rpc.Recovering`: what these events leave of an endpoint.
* `Pair.answered`, `Pair.drained`, `Pair.offered`: what can be done next.
* `never_wedged`: every run can be prolonged to a state in which nothing is outstanding.
-/

namespace Wga

open BiDirectionalRpc PlainRpc

variable {L : Libraries} {R : Rights}

/-! ### Events that issue nothing -/

/-- The request was made and is not completed. -/
def Rpc.Awaits (r : Rpc) (id : RpcId) : Prop := id ∈ r.outgoingRequests ∨ id ∈ r.delayedRequests

/-- Nothing is outstanding. -/
def Rpc.Drained (r : Rpc) : Prop :=
  r.outgoingRequests.entries = [] ∧ r.delayedRequests.entries = [] ∧
    r.incomingRequests.entries = [] ∧ r.outgoingReplies.entries = []

/-- The rights of an operation that makes no request. -/
structure Rights.Issueless (R : Rights) : Prop where
  requested : ∀ r id p, ¬ R.may r (.requested id p)
  requestedOneWay : ∀ r id p, ¬ R.may r (.requestedOneWay id p)
  greets : ¬ R.greets

theorem Packet.rights_issueless (p : Packet) : p.rights.Issueless := by
  refine ⟨fun r id q h => ?_, fun r id q h => ?_, id⟩
  · cases p <;> exact h
  · cases p <;> exact h

/-- What an operation that makes no request leaves of an endpoint. -/
structure Rpc.Recovering (r r' : Rpc) : Prop where
  pending : ∀ id, r'.Awaits id → r.Awaits id
  delayed : ∀ id ∈ r'.delayedRequests, id ∈ r.delayedRequests
  issued : issuedIds r'.history = issuedIds r.history
  history : r.history <+: r'.history
  flaky : r'.flaky = r.flaky

namespace Rpc.Recovering

variable {r r' r'' : Rpc}

theorem refl (r : Rpc) : r.Recovering r :=
  ⟨fun _ h => h, fun _ h => h, Eq.refl _, List.prefix_rfl, Eq.refl _⟩

theorem trans (h₁ : r.Recovering r') (h₂ : r'.Recovering r'') : r.Recovering r'' where
  pending id h := h₁.pending id (h₂.pending id h)
  delayed id h := h₁.delayed id (h₂.delayed id h)
  issued := h₂.issued.trans h₁.issued
  history := h₁.history.trans h₂.history
  flaky := h₂.flaky.trans h₁.flaky

end Rpc.Recovering

theorem Move.flaky {ph ph' : Phase} {r r' : Rpc} (hm : Move L R ph r ph' r') :
    r'.flaky = r.flaky := by
  cases hm with
  | rehash hr => rw [hr.rest]
  | _ => rfl

/-- A move that makes no request. -/
theorem Move.recovering {ph ph' : Phase} {r r' : Rpc} (hR : R.Issueless)
    (hph : ∀ id p, ph ≠ .issuing id p) (hm : Move L R ph r ph' r') :
    r.Recovering r' ∧ ∀ id p, ph' ≠ .issuing id p := by
  refine ⟨⟨fun id h => ?_, fun id h => ?_, ?_, hm.history, hm.flaky⟩, ?_⟩
  · rcases h with h | h
    · rcases hm.outgoing h with h | ⟨q, h⟩ | h
      · exact .inl h
      · exact absurd h (hph id q)
      · exact .inr h
    · exact .inr ((hm.delayed h).resolve_right fun ⟨q, h⟩ => hph id q h)
  · exact (hm.delayed h).resolve_right fun ⟨q, h⟩ => hph id q h
  · rcases hm.recorded with heq | ⟨e, hmay, heq⟩
    · rw [heq]
    · rw [heq, issuedIds, issuedIds, List.filterMap_append]
      cases e with
      | requested id p => exact absurd hmay (hR.requested r id p)
      | requestedOneWay id p => exact absurd hmay (hR.requestedOneWay r id p)
      | _ => exact List.append_nil _
  · rintro id p rfl
    rcases hm.issuing with h | h | h
    · exact hR.requested r id p h
    · exact hR.requestedOneWay r id p h
    · exact hR.greets h

theorem Path.recovering {τ : Type} {Q : Phase → Rpc → τ → τ → Prop} {a b : Point τ}
    (hR : R.Issueless) (ha : ∀ id p, a.phase ≠ .issuing id p) (h : Path L R Q a b) :
    a.rpc.Recovering b.rpc :=
  (h.invariant_rpc (I := fun ph r => a.rpc.Recovering r ∧ ∀ id p, ph ≠ .issuing id p)
    (fun _ _ _ _ hr hm =>
      have hm := hm.recovering hR hr.2
      ⟨hr.1.trans hm.1, hm.2⟩) ⟨.refl _, ha⟩).1

/-! ### The steps of an endpoint -/

namespace PlainRpc

variable {s s' : PlainRpc}

/-- The messages sent are kept. -/
theorem path_sent {a b : Point (List Sent)} (h : Path L R (Posts L R) a b) : a.sub <+: b.sub :=
  h.invariant (I := fun c => a.sub <+: c.sub) (fun c d hc hcd => by
    cases hcd with
    | move hm => exact hc
    | quiet hq =>
        obtain ⟨p, -, rfl⟩ := hq
        exact hc.trans (List.prefix_append _ _)) List.prefix_rfl

/-- The entry drawn from a table that has one. -/
theorem draw_some {table : UnorderedMap RpcId Bytes} (h : table.entries ≠ []) (s : PlainRpc) :
    ∃ id p, (draw table s).1 = some ⟨id, p⟩ ∧ table.lookup id = some p := by
  have hlt : s.rand.1 % table.entries.length < table.entries.length :=
    Nat.mod_lt _ (List.length_pos_iff.mpr h)
  refine ⟨_, _, List.getElem?_eq_getElem hlt, ?_⟩
  exact AList.mem_lookup_iff.mpr (List.getElem_mem hlt)

/-- **A stored reply is sent again**, perhaps with others. -/
theorem resend_replies (hc : s.rpc.Consistent .idle) (h : s.rpc.outgoingReplies.entries ≠ []) :
    ∃ (e : ReplyEntry) (es : List ReplyEntry) (s' : PlainRpc),
      resendRandomOutgoingMessage L send s = .ok s' ∧ e.id ∈ s.rpc.outgoingReplies ∧
      s'.rpc = s.rpc ∧ ∃ m ∈ s'.sub, m.message = (Packet.reply (e :: es)).message L := by
  obtain ⟨id, p, hdraw, hlookup⟩ := draw_some h s
  have hrecorded : ∀ id ∈ (draw s.rpc.outgoingReplies s).2.rpc.outgoingReplies,
      id ∈ (draw s.rpc.outgoingReplies s).2.rpc.clock.requestReceiveTimeMap := fun id hid =>
    (hc.receiveTime id).mpr (.inr hid)
  obtain ⟨e, es, env, ⟨hfirst, -, -⟩, -, hsend⟩ := sendReply_batch L send hrecorded
    hlookup
  have hid : e.id = id := congrArg Prod.fst (Option.some.inj hfirst)
  refine ⟨e, es, ⟨s.rpc, s.sub ++ [⟨s.rpc.history, (Packet.reply (e :: es)).message L⟩], env⟩, ?_,
    hid ▸ AList.lookup_isSome.mp (Option.isSome_of_eq_some hlookup), rfl,
    ⟨s.rpc.history, _⟩, List.mem_append_right _ (List.mem_singleton.mpr rfl), rfl⟩
  rw [resendRandomOutgoingMessage, if_pos h]
  split
  · rename_i id' p' s₁ heq
    obtain ⟨h₁, rfl⟩ := Prod.mk.inj heq
    cases h₁.symm.trans hdraw
    exact hsend
  · rename_i s₁ heq
    cases (Prod.mk.inj heq).1.symm.trans hdraw

/-- **A request in flight is sent again**, perhaps with others, when no reply is stored. -/
theorem resend_requests (hnone : s.rpc.outgoingReplies.entries = [])
    (h : s.rpc.outgoingRequests.entries ≠ []) :
    ∃ (e : IdPayload) (es : List IdPayload) (s' : PlainRpc),
      resendRandomOutgoingMessage L send s = .ok s' ∧ e.id ∈ s.rpc.outgoingRequests ∧
      s'.rpc = s.rpc ∧ ∃ m ∈ s'.sub, m.message = (Packet.request (e :: es)).message L := by
  obtain ⟨id, p, hdraw, hlookup⟩ := draw_some h s
  have hdrawn : (draw s.rpc.outgoingRequests s).2.rpc.outgoingRequests.lookup id = some p := hlookup
  obtain ⟨es, env, ⟨hfirst, -, -⟩, -, hsend⟩ := sendRequest_batch L send hdrawn
  obtain ⟨es, rfl⟩ := List.head?_eq_some_iff.mp hfirst
  refine ⟨⟨id, p⟩, es,
    ⟨s.rpc, s.sub ++ [⟨s.rpc.history, (Packet.request (⟨id, p⟩ :: es)).message L⟩], env⟩, ?_,
    AList.lookup_isSome.mp (Option.isSome_of_eq_some hlookup), rfl,
    ⟨s.rpc.history, _⟩, List.mem_append_right _ (List.mem_singleton.mpr rfl), rfl⟩
  rw [resendRandomOutgoingMessage, if_neg (not_not_intro hnone), if_pos h]
  split
  · rename_i id' p' s₁ heq
    obtain ⟨h₁, rfl⟩ := Prod.mk.inj heq
    cases h₁.symm.trans hdraw
    exact hsend
  · rename_i s₁ heq
    cases (Prod.mk.inj heq).1.symm.trans hdraw

/-- **A packet arrives** at an endpoint that does not pretend to lose it. -/
theorem receive_ends (hc : s.rpc.Consistent .idle) (hsteady : s.rpc.flaky = false) (p : Packet) :
    ∃ s', receive L (virtuals L) (p.message L) s = .ok (true, s') ∧
      handlePacket L (virtuals L) p s = .ok s' := by
  have hflake : flake s = (false, s) := by rw [flake, hsteady, if_neg Bool.false_ne_true]
  obtain ⟨s', h⟩ := handlePacket_ends (L := L) hc p
  refine ⟨s', ?_, h⟩
  have hreceive : receive L (virtuals L) (p.message L) s = _ := receive_eq (L.unpack_pack _) s
  rw [hreceive, hflake, if_neg Bool.false_ne_true, h]
  rfl

/-- The acknowledgement that was just sent. -/
theorem sendAcknowledge_sent {id : RpcId} (h : sendAcknowledge L send id s = .ok s') :
    ∃ m ∈ s'.sub, m.message = (Packet.acknowledge id ACK_OK).message L := by
  cases h
  exact ⟨⟨s.rpc.history, _⟩, List.mem_append_right _ (List.mem_singleton.mpr rfl), rfl⟩

/-- A reply that arrives is acknowledged. -/
theorem handleReply_acknowledges {id : RpcId} {p : Bytes} {t₁ t₂ : Int}
    (h : (virtuals L).handleReply id p t₁ t₂ s = .ok s') :
    ∃ m ∈ s'.sub, m.message = (Packet.acknowledge id ACK_OK).message L := by
  simp only [virtuals, handleReply] at h
  split at h
  · exact sendAcknowledge_sent h
  · split at h
    · obtain ⟨s₁, -, h⟩ := bind_ok.mp h
      split at h
      all_goals
        obtain ⟨s₂, -, h⟩ := bind_ok.mp h
        obtain ⟨s₃, h₃, h⟩ := bind_ok.mp h
        obtain ⟨clock, -, h⟩ := bind_ok.mp h
        cases h
        obtain ⟨m, hm, heq⟩ := sendAcknowledge_sent h₃
        exact ⟨m, hm, heq⟩
    · exact sendAcknowledge_sent h

/-- So is every reply of a packet. -/
theorem handleReplies_acknowledges {es : List ReplyEntry} (hc : s.rpc.Consistent .idle)
    (h : handlePacket L (virtuals L) (.reply es) s = .ok s') {e : ReplyEntry} (he : e ∈ es) :
    ∃ m ∈ s'.sub, m.message = (Packet.acknowledge e.id ACK_OK).message L := by
  induction es generalizing s with
  | nil => exact absurd he List.not_mem_nil
  | cons a es ih =>
      rw [handlePacket, handleReplies, List.foldlM_cons] at h
      obtain ⟨s₁, h₁, hrest⟩ := bind_ok.mp h
      have hone : handlePacket L (virtuals L) (.reply [a]) s = .ok s₁ := bind_ok.mpr ⟨s₁, h₁, rfl⟩
      have hc₁ : s₁.rpc.Consistent .idle := (handlePacket_path hc hone).consistent hc
      rcases List.mem_cons.mp he with rfl | he
      · obtain ⟨m, hm, heq⟩ := handleReply_acknowledges h₁
        exact ⟨m, (path_sent (handlePacket_path (p := .reply es) hc₁ hrest)).subset hm, heq⟩
      · exact ih hc₁ hrest he

/-- An acknowledgement that arrives ends the reply. -/
theorem handleAcknowledge_ok {uid : RpcId} (h : handleAcknowledge uid s = .ok s') :
    uid ∉ s'.rpc.outgoingReplies ∧ (∀ id ∈ s'.rpc.outgoingReplies, id ∈ s.rpc.outgoingReplies) ∧
      s'.rpc.incomingRequests = s.rpc.incomingRequests := by
  simp only [handleAcknowledge] at h
  split at h
  · obtain ⟨clock, -, h⟩ := bind_ok.mp h
    cases h
    exact ⟨fun hm => (AList.mem_erase.mp hm).1 rfl, fun id hm => (AList.mem_erase.mp hm).2, rfl⟩
  · rename_i hout
    cases h
    exact ⟨hout, fun _ hm => hm, rfl⟩

/-- **A request that arrives for the first time is accepted.** -/
theorem handleRequest_accepts {id : RpcId} {p : Bytes} (hin : id ∉ s.rpc.incomingRequests)
    (hproc : id ∉ s.rpc.processedRequests.keys) (hout : id ∉ s.rpc.outgoingReplies)
    (h : handleRequest L (virtuals L).send (virtuals L).addIncomingRequest (virtuals L).reply id p s
      = .ok s') : .accepted id p ∈ s'.rpc.history := by
  have hreply : ∀ {s₁ s₂ : PlainRpc} {q : Bytes}, .accepted id p ∈ s₁.rpc.history →
      (virtuals L).reply id q s₁ = .ok s₂ → .accepted id p ∈ s₂.rpc.history := fun hacc h => by
    rw [reply_rpc (R := anything) send_within h]
    exact List.mem_append_left _ hacc
  have hnew : ¬ (id ∈ s.rpc.incomingRequests ∨ s.rpc.processedRequests.contains id = true) := by
    rw [LruCache.contains_iff, not_or]
    exact ⟨hin, hproc⟩
  rw [handleRequest, if_neg hnew, AList.lookup_eq_none.mpr hout] at h
  obtain ⟨s₁, h₁, h⟩ := bind_ok.mp h
  obtain ⟨clock, -, h₁⟩ := bind_ok.mp h₁
  cases h₁
  have hacc : .accepted id p ∈ s.rpc.history ++ [.accepted id p] :=
    List.mem_append_right _ (List.mem_singleton.mpr rfl)
  split at h
  · split at h
    · exact hreply hacc h
    · split at h
      · exact hreply hacc h
      · cases h
        exact hacc
  · cases h
    exact hacc

/-- Requests of a packet are accepted when they arrive for the first time. -/
theorem handleRequests_accepts {e : IdPayload} {es : List IdPayload}
    (hin : e.id ∉ s.rpc.incomingRequests) (hproc : e.id ∉ s.rpc.processedRequests.keys)
    (hout : e.id ∉ s.rpc.outgoingReplies) (hc : s.rpc.Consistent .idle)
    (h : handlePacket L (virtuals L) (.request (e :: es)) s = .ok s') :
    .accepted e.id e.payload ∈ s'.rpc.history := by
  rw [handlePacket, handleRequests, List.foldlM_cons] at h
  obtain ⟨s₁, h₁, hrest⟩ := bind_ok.mp h
  have hone : handlePacket L (virtuals L) (.request [e]) s = .ok s₁ := bind_ok.mpr ⟨s₁, h₁, rfl⟩
  have hc₁ : s₁.rpc.Consistent .idle := (handlePacket_path hc hone).consistent hc
  exact (handlePacket_path (p := .request es) hc₁ hrest).history.subset
    (handleRequest_accepts hin hproc hout h₁)

end PlainRpc

/-! ### Both endpoints -/

/-- An event that makes no request: an application answers, an endpoint resends, a message
arrives. -/
def PairEvent.Recovers (answer : Side → RpcId → Bytes) : PairEvent → Prop
  | .call x (.reply id q) => q = answer x id
  | .call _ .resendRandomOutgoingMessage | .deliver _ _ => True
  | _ => False

/-- The runs of two endpoints whose applications only answer. -/
def recovery (L : Libraries) (answer : Side → RpcId → Bytes) : System Pair PairEvent :=
  (exchange L).only (PairEvent.Recovers answer)

namespace Pair

/-- What these runs leave of both endpoints. -/
def Recovering (s s' : Pair) : Prop := ∀ x, (s x).rpc.Recovering (s' x).rpc

variable {answer : Side → RpcId → Bytes} {s s' : Pair}

theorem step_recovering {e : PairEvent} (hs : (exchange L).Reachable s) (he : e.Recovers answer)
    (h : Pair.Step L s e s') : s.Recovering s' := by
  obtain ⟨es, r⟩ := hs
  obtain ⟨R, hg, hother, hpath⟩ := h.path (run_linked r).inv
  have hR : R.Issueless := by
    cases hg with
    | call x c =>
        cases c with
        | reply a q => exact ⟨fun _ _ _ h => (nomatch h), fun _ _ _ h => (nomatch h), id⟩
        | resendRandomOutgoingMessage => exact ⟨fun _ _ _ h => h, fun _ _ _ h => h, id⟩
        | _ => exact he.elim
    | deliver => exact Packet.rights_issueless _
    | rehash => exact he.elim
  refine (Side.forall_iff e.side).mpr ⟨hpath.recovering hR (by simp [Self.at]), ?_⟩
  rw [hother]
  exact .refl _

theorem leads_recovering (hs : (exchange L).Reachable s) (h : (recovery L answer).Leads s s') :
    (exchange L).Reachable s' ∧ s.Recovering s' := by
  induction h with
  | refl => exact ⟨hs, fun x => .refl _⟩
  | tail _ h ih =>
      obtain ⟨e, he, h⟩ := h
      exact ⟨ih.1.step h, fun x => (ih.2 x).trans (step_recovering ih.1 he h x)⟩

/-! ### What is left to do -/

/-- The requests of one side that the other side has not accepted. -/
def unaccepted (s : Pair) (x : Side) : Finset RpcId :=
  ((s x).rpc.outgoingRequests.keys ++ (s x).rpc.delayedRequests.keys).toFinset.filter
    (· ∉ acceptedIds (s x.other).rpc.history)

/-- The requests that wait for an answer of one side. -/
def waiting (s : Pair) (x : Side) : Finset RpcId := (s x).rpc.incomingRequests.keys.toFinset

/-- The answers one side stores. -/
def stored (s : Pair) (x : Side) : Finset RpcId := (s x).rpc.outgoingReplies.keys.toFinset

/-- How many there are on both sides. -/
def total (f : Side → Finset RpcId) : Nat := (f .left).card + (f .right).card

theorem total_le {f g : Side → Finset RpcId} (h : ∀ x, f x ⊆ g x) : total f ≤ total g :=
  Nat.add_le_add (Finset.card_le_card (h .left)) (Finset.card_le_card (h .right))

theorem total_lt {f g : Side → Finset RpcId} (h : ∀ x, f x ⊆ g x) {x : Side} {id : RpcId}
    (hg : id ∈ g x) (hf : id ∉ f x) : total f < total g := by
  have hlt : (f x).card < (g x).card :=
    Finset.card_lt_card ⟨h x, fun hsub => hf (hsub hg)⟩
  cases x
  · exact Nat.add_lt_add_of_lt_of_le hlt (Finset.card_le_card (h .right))
  · exact Nat.add_lt_add_of_le_of_lt (Finset.card_le_card (h .left)) hlt

/-- Nothing comes before a request that is not accepted, and an answer comes before a stored one. -/
def measure (s : Pair) : ℕ ×ₗ ℕ ×ₗ ℕ :=
  toLex (total s.unaccepted, toLex (total s.waiting, total s.stored))

theorem mem_unaccepted {x : Side} {id : RpcId} : id ∈ s.unaccepted x ↔
    (s x).rpc.Awaits id ∧ ∀ p, .accepted id p ∉ (s x.other).rpc.history := by
  simp only [unaccepted, Finset.mem_filter, List.mem_toFinset, List.mem_append, AList.mem_keys,
    mem_acceptedIds, not_exists, Rpc.Awaits]

theorem mem_waiting {x : Side} {id : RpcId} :
    id ∈ s.waiting x ↔ id ∈ (s x).rpc.incomingRequests := by
  simp only [waiting, List.mem_toFinset, AList.mem_keys]

theorem mem_stored {x : Side} {id : RpcId} :
    id ∈ s.stored x ↔ id ∈ (s x).rpc.outgoingReplies := by
  simp only [stored, List.mem_toFinset, AList.mem_keys]

theorem Recovering.unaccepted (h : s.Recovering s') (x : Side) :
    s'.unaccepted x ⊆ s.unaccepted x := fun id hid => by
  obtain ⟨hpend, hacc⟩ := mem_unaccepted.mp hid
  exact mem_unaccepted.mpr ⟨(h x).pending id hpend, fun p hp =>
    hacc p ((h x.other).history.subset hp)⟩

/-- One more event. -/
theorem leads_step {s₁ s₂ : Pair} {e : PairEvent} (h : (recovery L answer).Leads s s₁)
    (hs : Pair.Step L s₁ e s₂) (he : e.Recovers answer) : (recovery L answer).Leads s s₂ :=
  h.tail ⟨e, he, hs⟩

/-- **A request that waits is answered.** -/
theorem answered (answer : Side → RpcId → Bytes) (hs : (exchange L).Reachable s)
    {x : Side} {id : RpcId} (hid : id ∈ s.waiting x) :
    ∃ s', (recovery L answer).Leads s s' ∧ (∀ z, s'.waiting z ⊆ s.waiting z) ∧
      id ∉ s'.waiting x := by
  obtain ⟨es, r⟩ := hs
  have hc := ((run_linked r).inv x).consistent
  obtain ⟨v, hv⟩ := reply_ends (L := L) PlainRpc.send_ends (p := answer x id) hc
    (mem_waiting.mp hid)
  have hrpc := reply_rpc (R := PlainRpc.anything) PlainRpc.send_within hv
  refine ⟨Function.update s x v, leads_step .refl (.call (c := .reply id (answer x id)) hv) rfl,
    fun z a ha => ?_, fun ha => ?_⟩
  · rw [mem_waiting] at ha ⊢
    by_cases hz : z = x
    · subst hz
      rw [Function.update_self, hrpc] at ha
      exact (AList.mem_erase.mp ha).2
    · rwa [Function.update_of_ne hz] at ha
  · rw [mem_waiting, Function.update_self, hrpc] at ha
    exact (AList.mem_erase.mp ha).1 rfl

/-- What a packet without requests leaves of the requests that wait and of the stored answers. -/
theorem path_tables {p : Packet} {a b : Point (List Sent)} (hp : ∀ es, p ≠ .request es)
    (hnone : ∀ id, id ∉ a.rpc.incomingRequests) (h : Path L p.rights (Posts L p.rights) a b) :
    (∀ id, id ∉ b.rpc.incomingRequests) ∧
      ∀ id ∈ b.rpc.outgoingReplies, id ∈ a.rpc.outgoingReplies := by
  refine h.invariant_rpc (I := fun _ r => (∀ id, id ∉ r.incomingRequests) ∧
    ∀ id ∈ r.outgoingReplies, id ∈ a.rpc.outgoingReplies) (fun ph r ph' r' hr hm => ?_)
    ⟨hnone, fun _ h => h⟩
  refine ⟨fun id hid => ?_, fun id hid => ?_⟩
  · rcases hm.incoming hid with hid | ⟨q, hmay⟩
    · exact hr.1 id hid
    · cases p with
      | request es => exact hp es rfl
      | reply es => exact hmay
      | acknowledge uid q => exact hmay
  · exact hr.2 id ((hm.stored hid).resolve_right (hr.1 id))

/-- **A stored answer is resent until it is acknowledged.** -/
theorem drained (answer : Side → RpcId → Bytes) (hs : (exchange L).Reachable s)
    (hsteady : ∀ x, (s x).rpc.flaky = false)
    (hnone : ∀ x id, id ∉ (s x).rpc.incomingRequests) {y : Side}
    (hstored : (s y).rpc.outgoingReplies.entries ≠ []) :
    ∃ s' id, (recovery L answer).Leads s s' ∧ (∀ z, s'.waiting z ⊆ s.waiting z) ∧
      (∀ z, s'.stored z ⊆ s.stored z) ∧ id ∈ s.stored y ∧ id ∉ s'.stored y := by
  obtain ⟨es, r⟩ := hs
  have hc := fun x => ((run_linked r).inv x).consistent
  -- `y` resends, its peer disposes of the reply, and `y` gets the acknowledgement
  obtain ⟨e, rest, y₁, hresend, hid, hy₁, m, hm, hmsg⟩ := PlainRpc.resend_replies (L := L) (hc y)
    hstored
  have hstep₁ : Pair.Step L s (.call y .resendRandomOutgoingMessage) (Function.update s y y₁) :=
    .call hresend
  obtain ⟨x₁, hreceive, hhandle⟩ := PlainRpc.receive_ends (L := L) (hc y.other) (hsteady y.other)
    (.reply (e :: rest))
  obtain ⟨m', hm', hmsg'⟩ := PlainRpc.handleReplies_acknowledges (hc y.other) hhandle
    List.mem_cons_self
  have hstep₂ : Pair.Step L (Function.update s y y₁) (.deliver y.other m.message)
      (Function.update (Function.update s y y₁) y.other x₁) := by
    refine .deliver (b := true) ⟨m, ?_, rfl⟩ ?_
    · rw [Side.other_other, Function.update_self]
      exact hm
    · rw [Function.update_of_ne y.other_ne, hmsg]
      exact hreceive
  have hpath := PlainRpc.handlePacket_path (hc y.other) hhandle
  obtain ⟨hnone₁, hstored₁⟩ := path_tables (fun _ => by simp) (hnone y.other) hpath
  have hc₁ : y₁.rpc.Consistent .idle := hy₁.symm ▸ hc y
  obtain ⟨y₂, hreceive', hhandle'⟩ := PlainRpc.receive_ends (L := L) hc₁
    ((congrArg Rpc.flaky hy₁).trans (hsteady y)) (.acknowledge e.id ACK_OK)
  obtain ⟨hgone, hstored₂, hin⟩ := PlainRpc.handleAcknowledge_ok hhandle'
  rw [hy₁] at hstored₂ hin
  have hstep₃ : Pair.Step L (Function.update (Function.update s y y₁) y.other x₁)
      (.deliver y m'.message)
      (Function.update (Function.update (Function.update s y y₁) y.other x₁) y y₂) := by
    refine .deliver (b := true) ⟨m', ?_, rfl⟩ ?_
    · rw [Function.update_self]
      exact hm'
    · rw [Function.update_of_ne y.other_ne.symm, Function.update_self, hmsg']
      exact hreceive'
  refine ⟨_, e.id, leads_step (leads_step (leads_step .refl hstep₁ trivial) hstep₂ trivial)
    hstep₃ trivial, (Side.forall_iff y).mpr ⟨fun a ha => ?_, fun a ha => ?_⟩,
    (Side.forall_iff y).mpr ⟨fun a ha => ?_, fun a ha => ?_⟩, mem_stored.mpr hid, fun ha => ?_⟩
  · rw [mem_waiting, Function.update_self, hin] at ha
    exact mem_waiting.mpr ha
  · rw [mem_waiting, Function.update_of_ne y.other_ne, Function.update_self] at ha
    exact absurd ha (hnone₁ a)
  · rw [mem_stored, Function.update_self] at ha
    exact mem_stored.mpr (hstored₂ a ha)
  · rw [mem_stored, Function.update_of_ne y.other_ne, Function.update_self] at ha
    exact mem_stored.mpr (hstored₁ a ha)
  · rw [mem_stored, Function.update_self] at ha
    exact hgone ha

/-- **A request in flight is resent until it is accepted.** -/
theorem offered (answer : Side → RpcId → Bytes) (hs : (exchange L).Reachable s)
    (hfresh : ∀ x, FreshIds (s x).rpc.history) (hsteady : ∀ x, (s x).rpc.flaky = false)
    (hnone : ∀ x id, id ∉ (s x).rpc.incomingRequests)
    (hstored : ∀ x id, id ∉ (s x).rpc.outgoingReplies) {x : Side}
    (hout : (s x).rpc.outgoingRequests.entries ≠ []) :
    ∃ s' id, (recovery L answer).Leads s s' ∧ id ∈ s.unaccepted x ∧ id ∉ s'.unaccepted x := by
  obtain ⟨es, r⟩ := hs
  have hinv := (run_linked r).inv
  obtain ⟨e, rest, x₁, hresend, hid, hx₁, m, hm, hmsg⟩ := PlainRpc.resend_requests (L := L)
    (UnorderedMap.entries_eq_nil.mpr (hstored x)) hout
  have hstep₁ : Pair.Step L s (.call x .resendRandomOutgoingMessage) (Function.update s x x₁) :=
    .call hresend
  obtain ⟨y₁, hreceive, hhandle⟩ := PlainRpc.receive_ends (L := L) (hinv x.other).consistent
    (hsteady x.other) (.request (e :: rest))
  have hstep₂ : Pair.Step L (Function.update s x x₁) (.deliver x.other m.message)
      (Function.update (Function.update s x x₁) x.other y₁) := by
    refine .deliver (b := true) ⟨m, ?_, rfl⟩ ?_
    · rw [Side.other_other, Function.update_self]
      exact hm
    · rw [Function.update_of_ne x.other_ne, hmsg]
      exact hreceive
  -- an answer to it would be stored, since the request is not completed
  have hans := (hinv x.other).answering
  have hunanswered : ∀ q, .replied e.id q ∉ (s x.other).rpc.history := fun q hq =>
    ((run_kept r hfresh x).stored e.id q hq).elim (hstored x.other e.id)
      ((run_once r x (hfresh x)).outgoing e.id hid)
  have hunaccepted : ∀ p, .accepted e.id p ∉ (s x.other).rpc.history := fun p hp => by
    rcases hans.accepted e.id p hp with hin | ⟨q, hq⟩
    · exact hnone x.other e.id hin
    · exact hunanswered q hq
  have hunprocessed : e.id ∉ (s x.other).rpc.processedRequests.keys := fun hproc => by
    obtain ⟨q, hq⟩ := hans.processed e.id hproc
    exact hunanswered q hq
  have hacc := PlainRpc.handleRequests_accepts (hnone x.other e.id) hunprocessed
    (hstored x.other e.id) (hinv x.other).consistent hhandle
  refine ⟨_, e.id, leads_step (leads_step .refl hstep₁ trivial) hstep₂ trivial,
    mem_unaccepted.mpr ⟨.inl hid, hunaccepted⟩, fun hmem => ?_⟩
  refine (mem_unaccepted.mp hmem).2 e.payload ?_
  rw [Function.update_self]
  exact hacc

/-- **While anything is outstanding, less can be.** -/
theorem lower (answer : Side → RpcId → Bytes) (hs : (exchange L).Reachable s)
    (hfresh : ∀ x, FreshIds (s x).rpc.history) (hsteady : ∀ x, (s x).rpc.flaky = false)
    (hdone : ¬ ∀ x, (s x).rpc.Drained) :
    ∃ s', (recovery L answer).Leads s s' ∧ s'.measure < s.measure := by
  have unaccepted_le : ∀ {s'}, (recovery L answer).Leads s s' →
      total s'.unaccepted ≤ total s.unaccepted := fun h =>
    total_le (leads_recovering hs h).2.unaccepted
  by_cases hwaiting : ∃ x id, id ∈ s.waiting x
  · obtain ⟨x, id, hid⟩ := hwaiting
    obtain ⟨s', h, hsub, hgone⟩ := answered answer hs hid
    exact ⟨s', h, Prod.Lex.lt_iff'.mpr ⟨unaccepted_le h, fun _ =>
      Prod.Lex.lt_iff.mpr (.inl (total_lt hsub hid hgone))⟩⟩
  have hnone : ∀ x id, id ∉ (s x).rpc.incomingRequests := fun x id hid =>
    hwaiting ⟨x, id, mem_waiting.mpr hid⟩
  by_cases hstored : ∃ x, (s x).rpc.outgoingReplies.entries ≠ []
  · obtain ⟨x, hx⟩ := hstored
    obtain ⟨s', id, h, hsub, hsub', hid, hgone⟩ := drained answer hs hsteady hnone hx
    exact ⟨s', h, Prod.Lex.lt_iff'.mpr ⟨unaccepted_le h, fun _ =>
      Prod.Lex.lt_iff'.mpr ⟨total_le hsub, fun _ => total_lt hsub' hid hgone⟩⟩⟩
  have hempty : ∀ x, (s x).rpc.outgoingReplies.entries = [] := fun x =>
    not_not.mp fun hx => hstored ⟨x, hx⟩
  -- only requests in flight are left
  obtain ⟨x, hx⟩ := not_forall.mp hdone
  have hout : (s x).rpc.outgoingRequests.entries ≠ [] := fun hout => by
    obtain ⟨es, r⟩ := hs
    have hord := ((run_linked r).inv x).consistent.ordered (by simp [Self.at])
    exact hx ⟨hout, hord.empty hout, UnorderedMap.entries_eq_nil.mpr (hnone x), hempty x⟩
  obtain ⟨s', id, h, hid, hgone⟩ := offered answer hs hfresh hsteady hnone
    (fun x => UnorderedMap.entries_eq_nil.mp (hempty x)) hout
  exact ⟨s', h, Prod.Lex.lt_iff.mpr
    (.inl (total_lt (leads_recovering hs h).2.unaccepted hid hgone))⟩

/-- Where nothing is outstanding, every request was answered, and the answer is in. -/
theorem idle_answered (hs : (exchange L).Reachable s) (hfresh : ∀ x, FreshIds (s x).rpc.history)
    {x : Side} (hidle : (s x).rpc.Drained) {id : RpcId} {p : Bytes}
    (hid : Issued (s x).rpc.history id p) :
    .completed id ∈ (s x).rpc.history ∧ (∃ q, .replied id q ∈ (s x.other).rpc.history) ∧
      (.requested id p ∈ (s x).rpc.history → ∃ q, .queued id q ∈ (s x).rpc.history ∧
        .replied id q ∈ (s x.other).rpc.history) := by
  obtain ⟨es, r⟩ := hs
  obtain ⟨hout, hdelayed, -, -⟩ := hidle
  have hlink := (run_linked r).link x
  have hcomp : .completed id ∈ (s x).rpc.history := by
    rcases ((run_linked r).inv x).requesting.issued id p hid with h | h | h | ⟨q, h⟩
    · exact absurd h (UnorderedMap.entries_eq_nil.mp hout id)
    · exact absurd h (UnorderedMap.entries_eq_nil.mp hdelayed id)
    · exact h
    · cases h
  refine ⟨hcomp, hlink.completed id hcomp, fun hreq => ?_⟩
  rcases (run_once r x (hfresh x)).disposed id hcomp with h | ⟨q, hq⟩ | ⟨q, hq⟩
  · cases h
  · exact ⟨q, hq, hlink.queued id q hq⟩
  · exact absurd hq ((hfresh x).not_both hreq)

end Pair

/-- **No state is a dead end.**  Whatever the network lost so far, resends, the arrivals of what
they send and the answers of the applications prolong every run to a state in which nothing is
outstanding on either side: no request is made on the way, and every request made was answered, the
answer to a two-way request being one the other side gave. -/
theorem never_wedged {es : List PairEvent} {s : Pair} (r : (exchange L).Run es s)
    (hfresh : ∀ x, FreshIds (s x).rpc.history) (hsteady : ∀ x, (s x).rpc.flaky = false)
    (answer : Side → RpcId → Bytes) :
    ∃ es' s', (exchange L).Run (es ++ es') s' ∧ (∀ e ∈ es', e.Recovers answer) ∧
      ∀ x, (s' x).rpc.Drained ∧ issuedIds (s' x).rpc.history = issuedIds (s x).rpc.history ∧
        ∀ id p, Issued (s x).rpc.history id p →
          .completed id ∈ (s' x).rpc.history ∧
          (∃ q, .replied id q ∈ (s' x.other).rpc.history) ∧
          (.requested id p ∈ (s x).rpc.history → ∃ q, .queued id q ∈ (s' x).rpc.history ∧
            .replied id q ∈ (s' x.other).rpc.history) := by
  have fresh : ∀ {s'}, s.Recovering s' → ∀ x, FreshIds (s' x).rpc.history := fun h x => by
    rw [FreshIds, (h x).issued]
    exact hfresh x
  obtain ⟨s', h, ⟨hs', hrec⟩, hidle⟩ := System.Leads.progress (S := recovery L answer)
    (I := fun s' => (exchange L).Reachable s' ∧ s.Recovering s')
    Pair.measure (fun s₁ hs₁ (hdone : ¬ ∀ x, (s₁ x).rpc.Drained) => by
      obtain ⟨hreach, hrec⟩ := hs₁
      obtain ⟨s', h, hlt⟩ := Pair.lower answer hreach (fresh hrec)
        (fun x => (hrec x).flaky.trans (hsteady x)) hdone
      obtain ⟨hreach', hrec'⟩ := Pair.leads_recovering hreach h
      exact ⟨s', h, ⟨hreach', fun x => (hrec x).trans (hrec' x)⟩, hlt⟩)
    ⟨⟨es, r⟩, fun x => .refl _⟩
  obtain ⟨es', r', hes'⟩ := r.prolong h
  refine ⟨es', s', r', hes', fun x => ⟨hidle x, (hrec x).issued, fun id p hid => ?_⟩⟩
  obtain ⟨hcomp, hrep, hqueued⟩ := Pair.idle_answered hs' (fresh hrec) (hidle x)
    (hid.mono (hrec x).history)
  exact ⟨hcomp, hrep, fun hreq => hqueued ((hrec x).history.subset hreq)⟩

/-- Two requests of which nothing has arrived. -/
def silence : List PairEvent :=
  [.call .left (.request 0 greeting), .call .right (.requestOneWay 1 PING)]

theorem silence_ends : ∃ s, silence.foldlM (Pair.exec .standIn) Pair.new = .ok s ∧
    FreshIds (s .left).rpc.history ∧ FreshIds (s .right).rpc.history ∧
    (s .left).rpc.flaky = false ∧ (s .right).rpc.flaky = false ∧
    .requested ⟨0, 0⟩ greeting ∈ (s .left).rpc.history := by
  decide +kernel

/-- After them, the first can still be answered. -/
theorem never_wedged_silence : ∃ es' s', (exchange .standIn).Run (silence ++ es') s' ∧
    (s' .left).rpc.Drained ∧ ∃ q, .queued ⟨0, 0⟩ q ∈ (s' .left).rpc.history ∧
      .replied ⟨0, 0⟩ q ∈ (s' .right).rpc.history := by
  obtain ⟨s, hs, hleft, hright, hsteady, hsteady', hreq⟩ := silence_ends
  have r : (exchange .standIn).Run silence s := Pair.exec_run (fun _ => ⟨false, default, rfl⟩) hs
  have hfresh : ∀ x, FreshIds (s x).rpc.history := (Side.forall_iff .left).mpr ⟨hleft, hright⟩
  have hflaky : ∀ x, (s x).rpc.flaky = false := (Side.forall_iff .left).mpr ⟨hsteady, hsteady'⟩
  obtain ⟨es', s', r', -, h⟩ := never_wedged r hfresh hflaky fun _ _ => PONG
  obtain ⟨hidle, -, hall⟩ := h .left
  exact ⟨es', s', r', hidle, (hall ⟨0, 0⟩ greeting (.inl hreq)).2.2 hreq⟩

end Wga
