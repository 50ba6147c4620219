import WeGoAll.Peer.Simulation

/-!
# Peer — Departures

What the peers have of each other's inputs over their endpoints, and what a peer has when it leaves.

* `network_inputs`: what a call of `getAllInputValues` returns.
* `Network.Parted`: what the stages of `shutdown` wait for.
* `network_departure`: what the others have of a peer that leaves.
-/

namespace Wga

open BiDirectionalRpc

variable {L : Libraries} {ids : List Bytes}

namespace Game

/-- A peer that has sent `SHUTDOWN` has done so later. -/
theorem leads_sentShutdown {s s' : Game} (hl : (game L ids).Leads s s') {p : Bytes}
    (hsent : (s.peers p).sentShutdown = true) : (s'.peers p).sentShutdown = true :=
  hl.keeps (I := fun s => (s.peers p).sentShutdown = true)
    (fun _ _ _ hs h => ((Step.effect h).later p |>.sentShutdown hs).1) hsent

/-- A call is told of the departure of another peer that has left. -/
theorem told_left {es : List GameEvent} {s : Game} (r : (game L ids).Run es s) {i : Nat}
    {x p : Bytes} {call : InputCall} (hi : s.calls[i]? = some (x, call))
    (ht : WasTold L ids es i p) : (s.peers p).sentShutdown = true ∧ p ≠ x := by
  obtain ⟨es₁, s₁, hpre, r₁, y, call₁, hat, -, hdown⟩ := ht
  have hl := run_leads r₁ r ((List.prefix_append _ _).trans hpre)
  obtain ⟨hne, hsent⟩ := (run_wired r₁).shutDown hdown
  obtain ⟨call', hi', -⟩ := leads_call r₁ hl hat.1
  cases hi.symm.trans hi'
  exact ⟨leads_sentShutdown hl hsent, hne⟩

/-- Where every broadcast of `p` has been handled, its inputs are at hand. -/
theorem complete_get {es : List GameEvent} {s : Game} (r : (game L ids).Run es s) {x p : Bytes}
    (hx : x ≠ p) (hall : ∀ i < (s.peers p).broadcasts, .reply x p i ∈ s.posted) (t : Int)
    (k : Bytes) : (s.store x p).get t k = (s.store p p).get t k := by
  have hexp := run_complete r hx hall
  rcases lt_or_ge t (s.store x p).expirationTime with hlt | hge
  · exact ((run_shared r x p).get t hlt k).symm
  · rw [ChronoMap.get_eq, ChronoMap.get_eq, ← hexp, if_pos hge, if_pos hge]

end Game

/-- **What a call returns over the endpoints.**  If no endpoint draws an identifier twice, a call of
`getAllInputValues` that has returned has, of each peer, exactly the inputs that peer itself has
recorded for the time stamp; or nothing, of another peer that has sent `SHUTDOWN`. -/
theorem network_inputs (hL : L.toMsgpack.Ascii) (hids : ids.Nodup) {es : List NetEvent}
    {s : Network} (r : (network L ids).Run es s) (hfresh : s.Fresh ids) {i : Nat} {x : Bytes} {call : InputCall}
    (hi : s.calls[i]? = some (x, call)) (hreturned : call.Returned) {p : Bytes} (hp : p ∈ ids) :
    (∀ k v, valueOf call.values k p = some v ↔
      (s.peers p).inputs.playerInputData.get call.timestamp k = .ok (some v)) ∨
    ((s.peers p).sentShutdown = true ∧ p ≠ x ∧ ∀ k, valueOf call.values k p = none) := by
  obtain ⟨gs, g, rg, hs, -⟩ := Network.run_shows hL hids r hfresh
  rw [← hs.calls] at hi
  have hf := Game.run_follows hids rg hi
  have hnot : p ∉ call.remaining := by
    rw [hreturned]
    exact List.not_mem_nil
  rcases hf.done p hp hnot with ⟨htold, hnone⟩ | ⟨-, -, hvalues⟩
  · obtain ⟨hsent, hne⟩ := Game.told_left rg hi htold
    exact .inr ⟨(hs.peers p).sentShutdown.symm.trans hsent, hne, hnone⟩
  · rw [(Game.run_wired rg).own, (hs.peers p).inputs] at hvalues
    exact .inl hvalues

/-- A call that returned before a departure. -/
theorem network_inputs_parting : ∃ s call, (network .standIn Network.duo).Run Network.parting s ∧
    s.calls[0]? = some ([2], call) ∧ call.Returned ∧
    ((∀ k v, valueOf call.values k [1] = some v ↔
      (s.peers [1]).inputs.playerInputData.get call.timestamp k = .ok (some v)) ∨
    ((s.peers [1]).sentShutdown = true ∧ ([1] : Bytes) ≠ [2] ∧
      ∀ k, valueOf call.values k [1] = none)) := by
  obtain ⟨s, hs, hfresh, hcalls, -⟩ := Network.parting_ends
  have r := Network.exec_run hs
  obtain ⟨⟨x, call⟩, rest, heq, hcall, -⟩ := List.map_eq_cons_iff.mp hcalls
  simp only [Prod.mk.injEq] at hcall
  obtain ⟨rfl, -, hempty⟩ := hcall
  have hi : s.calls[0]? = some ([2], call) := by rw [heq]; rfl
  have hreturned : call.Returned := List.isEmpty_iff.mp hempty
  have hp : [1] ∈ Network.duo := by decide
  exact ⟨s, call, r, hi, hreturned,
    network_inputs (L := .standIn) Network.standIn_ascii (by decide) r hfresh hi hreturned hp⟩

/-! ### The stages of `shutdown` -/

/-- `shutdown` has heard from the others. -/
def ShutdownStage.answered : ShutdownStage → Bool
  | .running | .flushed | .sentShutdown => false
  | .shuttingDown | .updateFinished | .finished => true

namespace NetPeer

/-- What `shutdown` has done at the endpoint for `q`: it sent `SHUTDOWN`, unless that was shut down,
and then waited for the reply. -/
structure Parted (a : NetPeer) (q : Bytes) : Prop where
  sent : a.sentShutdown = true → (a.endpoints q).rpc.shuttingDown = true ∨
    ∃ id, Issued (a.endpoints q).rpc.history id SHUTDOWN
  answered : a.stage.answered = true → (a.endpoints q).rpc.shuttingDown = true ∨
    ∃ id, Issued (a.endpoints q).rpc.history id SHUTDOWN ∧
      .completed id ∈ (a.endpoints q).rpc.history

/-- `sendShutdown` of an endpoint makes the request, unless it is shut down. -/
theorem sendShutdown_issued {e v : PlainRpc} {uuid : UInt64}
    (h : (Call.sendShutdown uuid).run L (PlainRpc.virtuals L) e = .ok v) :
    v.rpc.shuttingDown = true ∨ ∃ id, Issued v.rpc.history id SHUTDOWN := by
  simp only [Call.run, BiDirectionalRpc.sendShutdown] at h
  split at h
  · rename_i hshut
    cases h
    exact .inl hshut
  · have hrecord : v.rpc.history =
        e.rpc.history ++ [.requestedOneWay ⟨e.rpc.onBarrier, uuid⟩ SHUTDOWN] :=
      PlainRpc.requestOneWay_history h
    refine .inr ⟨⟨e.rpc.onBarrier, uuid⟩, .inr ?_⟩
    rw [hrecord]
    exact List.mem_append_right _ (List.mem_singleton.mpr rfl)

variable {self self' : NetPeer} {q : Bytes}

/-- **A step of `shutdown`.** -/
theorem Parted.shutdown {uuid : Bytes → UInt64} {isConnectionDead : Bytes → Bool}
    (hlive : isConnectionDead q = false) (hparted : self.Parted q) (hnd : self.peerIds.Nodup)
    (hq : q ∈ self.endpointIds) (hr : (self.endpoints q).rpc.Requesting .idle)
    (hf : FreshIds (self.endpoints q).rpc.history)
    (h : self.shutdown L uuid isConnectionDead = .ok self') :
    self'.Parted q := by
  rcases NetPeer.shutdown_ok h with rfl | ⟨-, -, rfl⟩ | ⟨-, self₁, h₁, rfl⟩ |
    ⟨hstage, hwork, rfl⟩ | ⟨hstage, rfl⟩
  · exact hparted
  · exact ⟨fun h => absurd h Bool.false_ne_true, fun h => absurd h Bool.false_ne_true⟩
  · obtain ⟨hcalls, -, -⟩ := forEach_ok hnd h₁
    exact ⟨fun _ => sendShutdown_issued (hcalls q hq), fun h => absurd h Bool.false_ne_true⟩
  · have hsent := hparted.sent (by rw [sentShutdown, hstage])
    have hnone := endpoint_hasWork hwork hq hlive
    refine ⟨fun _ => hsent, fun _ => ?_⟩
    rcases hsent with hshut | ⟨id, hid⟩
    · exact .inl hshut
    · exact .inr ⟨id, hid, Network.completed_of_hasWork hr hf hnone hid (by decide)⟩
  · have hanswered := hparted.answered (by rw [hstage]; rfl)
    have hsent := hparted.sent (by rw [sentShutdown, hstage])
    exact ⟨fun _ => hsent, fun _ => hanswered⟩

end NetPeer

namespace Network

variable {s s' : Network} {p q : Bytes}

/-- An endpoint stays shut down. -/
theorem Step.shuttingDown {e : NetEvent} (hmet : s.Met L ids) (h : Step L ids s e s') (hp : p ∈ ids)
    (hq : q ∈ ids) (hpq : p ≠ q) (hs : (s.endpoint p q).rpc.shuttingDown = true) :
    (s'.endpoint p q).rpc.shuttingDown = true := by
  obtain ⟨id, hid⟩ := ((hmet p hp q hq hpq).shuts .left).mp hs
  exact ((h.met hmet p hp q hq hpq).shuts .left).mpr
    ⟨id, (h.history hmet hp hq hpq).subset hid⟩

/-- The stages move in `shutdown` only, but for the end of the updates. -/
theorem Step.stage {e : NetEvent} (h : Step L ids s e s') (p : Bytes) :
    (s'.peers p).stage = (s.peers p).stage ∨
    ((s.peers p).stage = .shuttingDown ∧ (s'.peers p).stage = .updateFinished) ∨
    ∃ uuid dead r, e = .shutdown p uuid dead ∧ (s.peers p).shutdown L uuid dead = .ok r ∧
      s' = s.set p r := by
  have other : ∀ {x r}, (x = p → r.stage = (s.peers p).stage) →
      ((s.set x r).peers p).stage = (s.peers p).stage := fun {x r} hr => by
    rw [set_peers]
    split
    · rename_i hx
      exact hr hx.symm
    · rfl
  cases h with
  | updateState hp hstage ht h =>
      exact .inl (other fun hx => by subst hx; exact (NetPeer.updateState_acts h).stage)
  | deliver hp hq hpq hstage hm h => exact .inl (other fun hx => by subst hx; rfl)
  | @update x uuid r hp hstage h =>
      have hst := (NetPeer.update_acts h).2
      by_cases hx : x = p
      · subst hx
        rw [set_peers_self]
        split at hst
        · exact .inr (.inl ⟨‹_›, hst⟩)
        · exact .inl hst
      · exact .inl (other fun heq => absurd heq hx)
  | initTimeShift hp hq hpq hstage h =>
      exact .inl (other fun hx => by subst hx; exact (NetPeer.call_acts h (by simp)).stage)
  | @shutdown x uuid dead r hp h =>
      by_cases hx : x = p
      · subst hx
        exact .inr (.inr ⟨uuid, dead, r, rfl, h, rfl⟩)
      · exact .inl (other fun heq => absurd heq hx)
  | getAllInputValues hx hlive => exact .inl rfl
  | resume hat hlive h => exact .inl rfl
  | rehash hp h => exact .inl (other fun hx => by subst hx; rfl)

/-- **Every step keeps what the stages say.** -/
theorem Step.parted {e : NetEvent}
    (hlive : ∀ uuid isConnectionDead, e = .shutdown p uuid isConnectionDead →
      isConnectionDead q = false)
    (h : Step L ids s e s') (hmet : s.Met L ids) (hname : s.Named ids) (hnd : ids.Nodup)
    (hfresh : s.Fresh ids) (hp : p ∈ ids) (hq : q ∈ ids) (hpq : p ≠ q)
    (hparted : (s.peers p).Parted q) : (s'.peers p).Parted q := by
  have later : ((s'.peers p).sentShutdown = true → (s.peers p).sentShutdown = true) →
      ((s'.peers p).stage.answered = true → (s.peers p).stage.answered = true) →
      (s'.peers p).Parted q := fun hsent hanswered =>
    ⟨fun hs => (hparted.sent (hsent hs)).imp (h.shuttingDown hmet hp hq hpq) fun ⟨id, hid⟩ =>
        ⟨id, hid.mono (h.history hmet hp hq hpq)⟩,
      fun hs => (hparted.answered (hanswered hs)).imp (h.shuttingDown hmet hp hq hpq)
        fun ⟨id, hid, hcomp⟩ => ⟨id, hid.mono (h.history hmet hp hq hpq),
          (h.history hmet hp hq hpq).subset hcomp⟩⟩
  rcases h.stage p with hst | ⟨hst, hst'⟩ | ⟨uuid, dead, r, rfl, hshut, rfl⟩
  · refine later ?_ ?_
    · rw [NetPeer.sentShutdown, NetPeer.sentShutdown, hst]
      exact id
    · rw [hst]
      exact id
  · refine later ?_ ?_
    · rw [NetPeer.sentShutdown, NetPeer.sentShutdown, hst, hst']
      exact id
    · rw [hst, hst']
      exact id
  · rw [set_peers_self]
    exact hparted.shutdown (hlive uuid dead rfl) (hname.nodup hnd p)
      (hname.mem_endpointIds.mpr ⟨hq, hpq⟩)
      ((hmet p hp q hq hpq).linked.inv .left).requesting (hfresh p hp q hq hpq) hshut

/-- The connection that `p` has to `q` was not dead where `shutdown` of `p` asked. -/
def Reaches (es : List NetEvent) (p q : Bytes) : Prop :=
  ∀ uuid isConnectionDead, NetEvent.shutdown p uuid isConnectionDead ∈ es →
    isConnectionDead q = false

theorem run_parted (hnd : ids.Nodup) {es : List NetEvent} (r : (network L ids).Run es s)
    (hlive : Reaches es p q) (hfresh : s.Fresh ids) (hp : p ∈ ids) (hq : q ∈ ids) (hpq : p ≠ q) :
    (s.peers p).Parted q := by
  induction r with
  | start h =>
      obtain ⟨flaky, env, hpeer⟩ := h.1 p
      rw [hpeer]
      exact ⟨fun h => absurd h Bool.false_ne_true, fun h => absurd h Bool.false_ne_true⟩
  | snoc r h ih =>
      have hback := hfresh.back (run_met r) h
      have hold := ih (fun uuid dead hmem => hlive uuid dead (List.mem_append_left _ hmem)) hback
      refine Step.parted (fun uuid dead he => ?_) h (run_met r) (run_named r) hnd hback hp hq hpq
        hold
      exact hlive uuid dead (List.mem_append_right _ (he ▸ List.mem_cons_self))

end Network

/-- **A departure over the endpoints.**  If no endpoint draws an identifier twice: a peer that is
seen shut down has sent `SHUTDOWN`.  And another peer, if the connection to it was not dead where
`shutdown` asked, has taken in all the inputs of a peer whose work has been flushed; and once that
has waited for the replies to `SHUTDOWN`, it sees it shut down or has sent `SHUTDOWN` itself. -/
theorem network_departure (hL : L.toMsgpack.Ascii) (hids : ids.Nodup) {es : List NetEvent}
    {s : Network} (r : (network L ids).Run es s) (hfresh : s.Fresh ids)
    {p q : Bytes} (hp : p ∈ ids) (hq : q ∈ ids) (hpq : p ≠ q) :
    ((s.endpoint q p).rpc.shuttingDown = true → (s.peers p).sentShutdown = true) ∧
    (Network.Reaches es p q →
      ((s.peers p).stage ≠ .running → ∀ t k, ((s.peers q).peerData p).get t k =
        (s.peers p).inputs.playerInputData.get t k) ∧
      ((s.peers p).stage.answered = true → (s.endpoint q p).rpc.shuttingDown = true ∨
        (s.peers q).sentShutdown = true)) := by
  obtain ⟨gs, g, rg, hs, -⟩ := Network.run_shows hL hids r hfresh
  have hw := Game.run_wired rg
  have hmarked : ∀ {a b}, a ∈ ids → b ∈ ids → a ≠ b →
      (s.endpoint b a).rpc.shuttingDown = true → (s.peers a).sentShutdown = true :=
    fun {a b} ha hb hab h => by
      rw [← (hs.peers a).sentShutdown]
      exact hw.marked b a ((hs.carried b hb a ha hab.symm).marked.trans h)
  refine ⟨hmarked hp hq hpq, fun hlive => ⟨fun hstage t k => ?_, fun hanswered => ?_⟩⟩
  · obtain ⟨uuid, dead, hmem, hdone⟩ := hs.flushed p hp hstage
    have hflushed := hdone q hq hpq (hlive uuid dead hmem)
    have hall : ∀ i < (g.peers p).broadcasts, .reply q p i ∈ g.posted := fun i hi => by
      refine (hw.outstanding p q hq hpq.symm i hi).resolve_left fun hout => ?_
      rw [hs.outgoing hp hq hpq hflushed] at hout
      cases hout
    have hget := Game.complete_get rg hpq.symm hall t k
    have hother : g.store q p = (g.peers q).peerData p :=
      if_neg fun h => hpq (h.trans (hw.userId q))
    rwa [hother, hw.own, (hs.peers q).peerData, (hs.peers p).inputs] at hget
  · have hu := Network.run_met r p hp q hq hpq
    rcases (Network.run_parted hids r hlive hfresh hp hq hpq).answered hanswered with hshut |
      ⟨id, hid, hcomp⟩
    · exact .inr (hmarked hq hp hpq.symm hshut)
    · obtain ⟨a, ha⟩ := (hu.linked.link .left).completed id hcomp
      obtain ⟨text, hacc⟩ := (hu.linked.inv .right).answering.replied id a ha
      have htext := (hfresh p hp q hq hpq).payload_unique
        ((hu.linked.link .left).accepted id text hacc).1 hid
      exact .inl ((hu.shuts .right).mpr ⟨id, htext ▸ hacc⟩)

theorem Network.parting_reaches : Network.Reaches Network.parting [1] [2] := by
  intro uuid dead hmem
  obtain ⟨-, rfl⟩ | ⟨-, rfl⟩ : (uuid = (fun _ => 9) ∧ dead = fun _ => false) ∨
      (uuid = (fun _ => 10) ∧ dead = fun _ => false) := by
    simpa [Network.parting, Network.duo] using hmem
  · rfl
  · rfl

/-- One of two peers has left. -/
theorem network_departure_parting : ∃ s, (network .standIn Network.duo).Run Network.parting s ∧
    (s.peers [1]).stage = .shuttingDown ∧
    (∀ t k, ((s.peers [2]).peerData [1]).get t k = (s.peers [1]).inputs.playerInputData.get t k) ∧
    ((s.endpoint [2] [1]).rpc.shuttingDown = true ∨ (s.peers [2]).sentShutdown = true) := by
  obtain ⟨s, hs, hfresh, -, hstage⟩ := Network.parting_ends
  have r := Network.exec_run hs
  obtain ⟨-, hrest⟩ := network_departure Network.standIn_ascii (by decide) r hfresh (p := [1])
    (q := [2]) (by decide) (by decide) (by decide)
  obtain ⟨hinputs, hseen⟩ := hrest Network.parting_reaches
  refine ⟨s, r, hstage, hinputs ?_, hseen ?_⟩
  · rw [hstage]
    decide
  · rw [hstage]
    rfl

end Wga
