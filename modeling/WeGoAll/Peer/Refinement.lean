import WeGoAll.Peer.Broadcasts
import WeGoAll.Peer.Sharing

/-!
# Peer — Refinement

The peers over their endpoints play the game.

* `Network.Shows`: what a game has of a network.  The request that a peer makes with its `n`-th
  broadcast is the `n`-th plain one in the history of each of its endpoints.
* `Shows.quiets`: a step that broadcasts nothing keeps it.
* `Shows.readRequest`: a request that is read is a broadcast that arrives.
* `Shows.update`: an update of a peer keeps it.
-/

namespace Wga

open BiDirectionalRpc

variable {L : Libraries} {ids : List Bytes} {es : List NetEvent}

/-! ### The game, seen from an endpoint -/

/-- What of a game its application sees. -/
def GameEvent.visible : GameEvent → Option GameEvent
  | .deliver _ | .sendShutdown .. => none
  | e => some e

/-- What of a network its applications see. -/
def NetEvent.visible : NetEvent → Option GameEvent
  | .updateState p _ timestamp data => some (.updateState p timestamp data)
  | .getAllInputValues x timestamp => some (.getAllInputValues x timestamp)
  | .resume i => some (.resume i)
  | .deliver .. | .update .. | .initTimeShift .. | .shutdown .. | .rehash .. => none

/-- The connections a game finds dead are those that `shutdown` has found dead in a network. -/
def GameEvent.Asked (es : List NetEvent) : GameEvent → Prop
  | .sendShutdown p isConnectionDead => ∃ uuid, NetEvent.shutdown p uuid isConnectionDead ∈ es
  | _ => True

theorem GameEvent.Asked.mono {es' : List NetEvent} {e : GameEvent} (h : e.Asked es)
    (hes : es ⊆ es') : e.Asked es' := by
  cases e with
  | sendShutdown p isConnectionDead => exact h.imp fun _ hmem => hes hmem
  | _ => trivial

namespace Game

/-- Some steps that no application sees. -/
def Hides (L : Libraries) (ids : List Bytes) (es : List NetEvent) : Game → Game → Prop :=
  ((game L ids).only (fun e => e.visible = none ∧ e.Asked es)).Leads

theorem Hides.refl (g : Game) : Hides L ids es g g := Relation.ReflTransGen.refl

theorem Hides.trans {g g' g'' : Game} (h : Hides L ids es g g') (h' : Hides L ids es g' g'') :
    Hides L ids es g g'' := Relation.ReflTransGen.trans h h'

def setEndpoint (p q : Bytes) (e : InputEndpoint) (g : Game) : Game :=
  { g with peers := Function.update g.peers p { g.peers p with
      endpoints := Function.update (g.peers p).endpoints q e } }

variable {g : Game} {p q : Bytes}

theorem hides_deliver {m : InputMessage} {r : InputPeer × List InputMessage} (hm : m ∈ g.posted)
    (h : (g.peers m.receiver).receive L m = .ok r) : Hides L ids es g (g.set m.receiver r) :=
  .single ⟨.deliver m, ⟨rfl, trivial⟩, .deliver hm h⟩

theorem hides_reply {n : Nat} (hm : .reply q p n ∈ g.posted) :
    Hides L ids es g (g.setEndpoint p q { (g.peers p).endpoints q with
      outgoingRequests := ((g.peers p).endpoints q).outgoingRequests.filter (· ≠ n) }) := by
  have h : Hides L ids es g _ := hides_deliver hm rfl
  rwa [Game.set, List.append_nil] at h

theorem hides_shutdown (hm : .shutdown q p ∈ g.posted) :
    Hides L ids es g (g.setEndpoint p q { (g.peers p).endpoints q with shuttingDown := true }) := by
  have h : Hides L ids es g _ := hides_deliver hm rfl
  rwa [Game.set, List.append_nil] at h

theorem setEndpoint_peers (g : Game) (p q : Bytes) (e : InputEndpoint) (x : Bytes) :
    (g.setEndpoint p q e).peers x = if x = p then { g.peers p with
      endpoints := Function.update (g.peers p).endpoints q e } else g.peers x :=
  Function.update_apply _ _ _ _

/-- Several replies arrive. -/
theorem hides_replies (ns : List Nat) (h : ∀ n ∈ ns, .reply q p n ∈ g.posted) :
    ∃ e : InputEndpoint, Hides L ids es g (g.setEndpoint p q e) ∧
      e.shuttingDown = ((g.peers p).endpoints q).shuttingDown ∧
      ∀ n ∈ e.outgoingRequests, n ∈ ((g.peers p).endpoints q).outgoingRequests ∧ n ∉ ns := by
  induction ns with
  | nil =>
      refine ⟨(g.peers p).endpoints q, ?_, rfl, fun n hn => ⟨hn, List.not_mem_nil⟩⟩
      rw [setEndpoint, Function.update_eq_self, Function.update_eq_self]
      exact .refl g
  | cons n ns ih =>
      obtain ⟨e, hl, hshut, hout⟩ := ih fun m hm => h m (List.mem_cons_of_mem _ hm)
      have hposted : .reply q p n ∈ (g.setEndpoint p q e).posted := h n List.mem_cons_self
      have hstep : Hides L ids es (g.setEndpoint p q e) _ := hides_reply hposted
      refine ⟨{ e with outgoingRequests := e.outgoingRequests.filter (· ≠ n) }, hl.trans ?_, hshut,
        fun m hm => ?_⟩
      · simpa [setEndpoint] using hstep
      · obtain ⟨hm, hne⟩ := List.mem_filter.mp hm
        obtain ⟨hin, hns⟩ := hout m hm
        refine ⟨hin, fun hmem => ?_⟩
        rcases List.mem_cons.mp hmem with rfl | hmem
        · exact absurd rfl (of_decide_eq_true hne)
        · exact hns hmem

end Game

/-! ### What a game has of a network -/

/-- The game has the members of the peer. -/
structure NetPeer.Shown (a : NetPeer) (b : InputPeer) : Prop where
  userId : b.userId = a.userId
  inputs : b.inputs = a.inputs
  peerIds : b.peerIds = a.peerIds
  peerData : b.peerData = a.peerData
  sentShutdown : b.sentShutdown = a.sentShutdown

/-- Calls at its endpoints change nothing of this. -/
theorem NetPeer.Shown.called {a a' : NetPeer} {b : InputPeer} (h : a.Shown b)
    (ha : a' = { a with endpoints := a'.endpoints }) : a'.Shown b := by
  rw [ha]
  exact ⟨h.userId, h.inputs, h.peerIds, h.peerData, h.sentShutdown⟩

namespace Network

/-- The game has what the endpoint `e` of `p` has for `q`, and the endpoint `e'` of `q` for `p`. -/
structure Carried (g : Game) (p q : Bytes) (e e' : PlainRpc) : Prop where
  requested : ∀ id payload, .requested id payload ∈ e.rpc.history → payload = PING
  nonempty : ∀ b ∈ broadcastsOf e.rpc.history, b.2 ≠ []
  count : (broadcastsOf e.rpc.history).length = (g.peers p).broadcasts
  request : ∀ n id payload, (broadcastsOf e.rpc.history)[n]? = some (id, payload) →
    .request p q n payload ∈ g.posted
  reply : ∀ n id payload a, (broadcastsOf e.rpc.history)[n]? = some (id, payload) →
    .replied id a ∈ e'.rpc.history → .reply q p n ∈ g.posted
  outgoing : ∀ n ∈ ((g.peers p).endpoints q).outgoingRequests, ∃ id payload,
    (broadcastsOf e.rpc.history)[n]? = some (id, payload) ∧ .completed id ∉ e.rpc.history
  shutdown : ∀ id, Issued e.rpc.history id SHUTDOWN → .shutdown p q ∈ g.posted
  marked : ((g.peers p).endpoints q).shuttingDown = e.rpc.shuttingDown

/-- The broadcasts of an endpoint have been answered. -/
def Flushed (e : PlainRpc) : Prop :=
  ∀ b ∈ broadcastsOf e.rpc.history, .completed b.1 ∈ e.rpc.history

/-- What is not broadcast does not change this. -/
theorem Flushed.later {e v : PlainRpc} (h : Flushed e) (hhist : e.rpc.history <+: v.rpc.history)
    (hb : broadcastsOf v.rpc.history = broadcastsOf e.rpc.history) : Flushed v :=
  fun b hmem => hhist.subset (h b (hb ▸ hmem))

/-- `shutdown` of `p` has flushed the endpoints whose connections it did not find dead. -/
def Flushes (ids : List Bytes) (es : List NetEvent) (p : Bytes) (endpoints : Bytes → PlainRpc) :
    Prop :=
  ∃ uuid isConnectionDead, NetEvent.shutdown p uuid isConnectionDead ∈ es ∧
    ∀ q ∈ ids, p ≠ q → isConnectionDead q = false → Flushed (endpoints q)

/-- Endpoints that keep what is flushed. -/
theorem Flushes.later {es' : List NetEvent} {p : Bytes} {endpoints endpoints' : Bytes → PlainRpc}
    (h : Flushes ids es p endpoints) (hes : es ⊆ es')
    (hkeep : ∀ q ∈ ids, p ≠ q → Flushed (endpoints q) → Flushed (endpoints' q)) :
    Flushes ids es' p endpoints' := by
  obtain ⟨uuid, dead, hmem, hdone⟩ := h
  exact ⟨uuid, dead, hes hmem, fun q hq hpq hlive => hkeep q hq hpq (hdone q hq hpq hlive)⟩

/-- The game is what the network shows of itself after the events `es`. -/
structure Shows (ids : List Bytes) (es : List NetEvent) (s : Network) (g : Game) : Prop where
  calls : g.calls = s.calls
  peers : ∀ p, (s.peers p).Shown (g.peers p)
  carried : ∀ p ∈ ids, ∀ q ∈ ids, p ≠ q → Carried g p q (s.endpoint p q) (s.endpoint q p)
  flushed : ∀ p ∈ ids, (s.peers p).stage ≠ .running → Flushes ids es p (s.endpoint p)

variable {s s' : Network} {g g' : Game} {p q : Bytes} {r : NetPeer} {e e' e₁ e₁' : PlainRpc}

/-- More is posted, and `q` answers more. -/
theorem Carried.grow (h : Carried g p q e e')
    (hp : (g'.peers p).broadcasts = (g.peers p).broadcasts)
    (hq : (g'.peers p).endpoints q = (g.peers p).endpoints q) (hposted : g.posted ⊆ g'.posted)
    (hrep : ∀ n id payload a, (broadcastsOf e.rpc.history)[n]? = some (id, payload) →
      .replied id a ∈ e₁'.rpc.history → .replied id a ∈ e'.rpc.history ∨
        .reply q p n ∈ g'.posted) : Carried g' p q e e₁' where
  requested := h.requested
  nonempty := h.nonempty
  count := h.count.trans hp.symm
  request n id payload hn := hposted (h.request n id payload hn)
  reply n id payload a hn ha := (hrep n id payload a hn ha).elim
    (fun ha => hposted (h.reply n id payload a hn ha)) fun hm => hm
  outgoing n hn := h.outgoing n (hq ▸ hn)
  shutdown id hid := hposted (h.shutdown id hid)
  marked := hq ▸ h.marked

/-- **A step of the peer `p`.** -/
theorem Shows.set (hs : Shows ids es s g) (hcalls : g'.calls = g.calls)
    (hpeers : ∀ x, x ≠ p → g'.peers x = g.peers x) (hposted : g.posted ⊆ g'.posted)
    (hr : r.Shown (g'.peers p))
    (hout : ∀ q ∈ ids, p ≠ q → Carried g' p q (r.endpoints q) (s.endpoint q p))
    (hin : ∀ q ∈ ids, p ≠ q → ∀ n id payload a,
      (broadcastsOf (s.endpoint q p).rpc.history)[n]? = some (id, payload) →
      .replied id a ∈ (r.endpoints q).rpc.history →
        .replied id a ∈ (s.endpoint p q).rpc.history ∨ .reply p q n ∈ g'.posted)
    (hflushed : r.stage ≠ .running → Flushes ids es p r.endpoints) :
    Shows ids es (s.set p r) g' where
  calls := hcalls.trans hs.calls
  peers x := by
    rw [set_peers]
    split
    · rename_i hx
      exact hx ▸ hr
    · rename_i hx
      exact hpeers x hx ▸ hs.peers x
  carried a ha b hb hab := by
    rw [endpoint, endpoint, set_peers, set_peers]
    by_cases hap : a = p
    · subst hap
      rw [if_pos rfl, if_neg hab.symm]
      exact hout b hb hab
    by_cases hbp : b = p
    · subst hbp
      rw [if_pos rfl, if_neg hab]
      refine (hs.carried a ha b hb hab).grow ?_ ?_ hposted (hin a ha hab.symm)
      · rw [hpeers a hap]
      · rw [hpeers a hap]
    · rw [if_neg hap, if_neg hbp]
      refine (hs.carried a ha b hb hab).grow ?_ ?_ hposted fun _ _ _ _ _ h => .inl h
      · rw [hpeers a hap]
      · rw [hpeers a hap]
  flushed a ha hstage := by
    by_cases hap : a = p
    · subst hap
      rw [set_peers_self] at hstage
      exact (hflushed hstage).later (List.Subset.refl es) fun q _ _ h => by
        rwa [endpoint_set_self]
    · rw [set_peers, if_neg hap] at hstage
      exact (hs.flushed a ha hstage).later (List.Subset.refl es) fun q _ _ h => by
        rwa [endpoint_set_of_ne s r hap]

/-! ### What broadcasts nothing -/

/-- The endpoint `e` of `p` for `q` becomes `e₁`, and what it sent and answered is posted. -/
structure Quieted (g : Game) (p q : Bytes) (e' e e₁ : PlainRpc) : Prop where
  quiets : Quiets e.rpc.history e₁.rpc.history
  shuttingDown : e₁.rpc.shuttingDown = e.rpc.shuttingDown
  issued : ∀ id, Issued e₁.rpc.history id SHUTDOWN → Issued e.rpc.history id SHUTDOWN ∨
    .shutdown p q ∈ g.posted
  replied : ∀ n id payload a, (broadcastsOf e'.rpc.history)[n]? = some (id, payload) →
    .replied id a ∈ e₁.rpc.history → .replied id a ∈ e.rpc.history ∨ .reply p q n ∈ g.posted

theorem Quieted.of_eq (h : e₁ = e) : Quieted g p q e' e e₁ :=
  h ▸ ⟨.refl _, rfl, fun _ => .inl, fun _ _ _ _ _ => .inl⟩

/-- A call does so. -/
theorem Quieted.call {c : Call} (hc : c.Quiet)
    (h : c.run L (PlainRpc.virtuals L) e = .ok e₁)
    (hsent : (∃ uuid, c = .sendShutdown uuid) → e.rpc.shuttingDown = false →
      .shutdown p q ∈ g.posted)
    (hrep : ∀ n id payload a, (broadcastsOf e'.rpc.history)[n]? = some (id, payload) →
      c = .reply id a → .reply p q n ∈ g.posted) : Quieted g p q e' e e₁ where
  quiets := hc.quiets h
  shuttingDown := by
    have hne : c ≠ .shutdown := by
      rintro rfl
      exact hc
    rw [PlainRpc.call_shutting h, decide_eq_false hne, Bool.or_false]
  issued id hid := (hc.issued h hid).imp_right fun ⟨hc, hshut⟩ => hsent hc hshut
  replied n id payload a hn ha := (hc.replied h ha).imp_right (hrep n id payload a hn)

/-- **A step of `p` that broadcasts nothing.** -/
theorem Shows.quiets (hs : Shows ids es s g) (hp : p ∈ ids) (hcalls : g'.calls = g.calls)
    (hpeers : ∀ x, x ≠ p → g'.peers x = g.peers x) (hposted : g.posted ⊆ g'.posted)
    (hr : r.Shown (g'.peers p)) (hcount : (g'.peers p).broadcasts = (g.peers p).broadcasts)
    (hends : (g'.peers p).endpoints = (g.peers p).endpoints)
    (hstage : r.stage ≠ .running → (s.peers p).stage ≠ .running)
    (hq : ∀ q ∈ ids, p ≠ q → Quieted g' p q (s.endpoint q p) (s.endpoint p q) (r.endpoints q)) :
    Shows ids es (s.set p r) g' := by
  refine hs.set hcalls hpeers hposted hr (fun q hqin hpq => ?_) (fun q hqin hpq => ?_)
    fun hst => ?_
  · have hc := hs.carried p hp q hqin hpq
    obtain ⟨hquiet, hshut, hiss, -⟩ := hq q hqin hpq
    exact {
      requested := fun id payload hid =>
        (hquiet.requested id payload hid).elim (hc.requested id payload) fun h => h
      nonempty := hquiet.broadcasts ▸ hc.nonempty
      count := by rw [hquiet.broadcasts, hc.count, hcount]
      request := fun n id payload hn => hposted (hc.request n id payload (hquiet.broadcasts ▸ hn))
      reply := fun n id payload a hn ha =>
        hposted (hc.reply n id payload a (hquiet.broadcasts ▸ hn) ha)
      outgoing := fun n hn => by
        rw [hends] at hn
        obtain ⟨id, payload, hat, hcomp⟩ := hc.outgoing n hn
        exact ⟨id, payload, hquiet.broadcasts ▸ hat, fun hc => hcomp (hquiet.completed id hc)⟩
      shutdown := fun id hid => (hiss id hid).elim (fun h => hposted (hc.shutdown id h)) fun h => h
      marked := by rw [hends, hc.marked, hshut] }
  · exact (hq q hqin hpq).replied
  · refine (hs.flushed p hp (hstage hst)).later (List.Subset.refl es) fun q hqin hpq hf => ?_
    have hquiet := (hq q hqin hpq).quiets
    exact hf.later hquiet.history hquiet.broadcasts

/-- Such a step, of which the game has nothing. -/
theorem Shows.rest (hs : Shows ids es s g) (hp : p ∈ ids) (hr : r.Shown (g.peers p))
    (hstage : r.stage ≠ .running → (s.peers p).stage ≠ .running)
    (hq : ∀ q ∈ ids, p ≠ q → Quieted g p q (s.endpoint q p) (s.endpoint p q) (r.endpoints q)) :
    Shows ids es (s.set p r) g :=
  hs.quiets hp rfl (fun _ _ => rfl) (List.Subset.refl _) hr rfl rfl hstage hq

/-- The heartbeats of an update. -/
theorem Shows.beats (hs : Shows ids es s g) (hname : s.Named ids) (hnd : ids.Nodup) (hp : p ∈ ids)
    {uuid : Bytes → UInt64}
    (h : (s.peers p).forEach L (fun id => .heartbeat (uuid id)) = .ok r) :
    Shows ids es (s.set p r) g := by
  obtain ⟨hcalls, -, heq⟩ := NetPeer.forEach_ok (hname.nodup hnd p) h
  refine hs.rest hp ((hs.peers p).called heq) (fun hst => by rwa [heq] at hst) fun q hq hpq => ?_
  have hquiet : (Call.heartbeat (uuid q)).Quiet := trivial
  exact .call hquiet (hcalls q (hname.mem_endpointIds.mpr ⟨hq, hpq⟩))
    (fun ⟨uuid, hu⟩ => by cases hu) fun _ _ _ _ _ h => by cases h

/-- **One quiet call** of `p`. -/
theorem Shows.call (hs : Shows ids es s g) (hp : p ∈ ids) {c : Call} (hc : c.Quiet)
    (hplain : (∀ uuid, c ≠ .sendShutdown uuid) ∧ ∀ id a, c ≠ .reply id a)
    (h : (s.peers p).call L q c = .ok r) : Shows ids es (s.set p r) g := by
  obtain ⟨hcall, hrest, heq⟩ := NetPeer.call_ok h
  refine hs.rest hp ((hs.peers p).called heq) (fun hst => by rwa [heq] at hst) fun b hb hpb => ?_
  by_cases hbq : b = q
  · subst hbq
    exact .call hc hcall (fun ⟨uuid, hu⟩ => absurd hu (hplain.1 uuid))
      fun n id payload a hn ha => absurd ha (hplain.2 id a)
  · exact .of_eq (hrest b hbq)

/-! ### What the update loop reads -/

/-- **The broadcast behind a request that waits.** -/
theorem Shows.broadcast_of (hs : Shows ids es s g) (hmet : s.Met L ids) (hp : p ∈ ids)
    (hq : q ∈ ids) (hpq : p ≠ q) {id : RpcId} {payload : Bytes}
    (hin : (s.endpoint p q).rpc.incomingRequests.lookup id = some payload) :
    ∃ n, (broadcastsOf (s.endpoint q p).rpc.history)[n]? = some (id, payload) ∧
      .request q p n payload ∈ g.posted := by
  have hu := hmet p hp q hq hpq
  have hacc := (hu.linked.inv .left).answering.incoming id payload hin
  have hissued := ((hu.linked.link .right).accepted id payload hacc).1
  have hwaits := (hu.controlled .left).waiting id payload hin
  have hc := hs.carried q hq p hp hpq.symm
  have hping : payload ≠ PING := fun h => hwaits PONG (h ▸ .ping)
  have hbr : (id, payload) ∈ broadcastsOf (s.endpoint q p).rpc.history := by
    rcases hissued with hreq | hreq
    · exact absurd (hc.requested id payload hreq) hping
    · exact mem_broadcastsOf.mpr ⟨hreq, hping, fun h => hwaits SHUTDOWN_REPLY (h ▸ .shutdown)⟩
  obtain ⟨n, hn⟩ := List.mem_iff_getElem?.mp hbr
  exact ⟨n, hn, hc.request n id payload hn⟩

/-- **A request that is read is a broadcast that arrives.** -/
theorem Shows.readRequest (hs : Shows ids es s g) (hmet : s.Met L ids) (hp : p ∈ ids) (hq : q ∈ ids)
    (hpq : p ≠ q) (hfresh : FreshIds (s.endpoint q p).rpc.history) {id : RpcId} {payload : Bytes}
    (hin : (s.endpoint p q).rpc.incomingRequests.lookup id = some payload)
    (h : (s.peers p).readRequest L q ⟨id, payload⟩ = .ok r) :
    ∃ g', Game.Hides L ids es g g' ∧ Shows ids es (s.set p r) g' := by
  obtain ⟨n, hn, hposted⟩ := hs.broadcast_of hmet hp hq hpq hin
  obtain ⟨m, hm, hcall, hrest, heq⟩ := NetPeer.readRequest_ok h
  have hshown := hs.peers p
  have hreceive : (g.peers p).receive L (.request q p n payload) =
      .ok ({ g.peers p with peerData := Function.update (g.peers p).peerData q m },
        [.reply p q n]) := by
    rw [InputPeer.receive, hshown.peerData, hm]
    rfl
  refine ⟨_, Game.hides_deliver hposted hreceive, ?_⟩
  have hself : ∀ x : InputPeer × List InputMessage, (g.set p x).peers p = x.1 := fun x => by
    rw [Game.set_peers, if_pos rfl]
  refine hs.quiets hp rfl (fun x hx => ?_) (List.subset_append_left _ _) ?_ ?_ ?_ ?_
    fun b hb hpb => ?_
  · rw [InputMessage.receiver, Game.set_peers, if_neg hx]
  · rw [heq, InputMessage.receiver, hself]
    refine ⟨hshown.userId, hshown.inputs, hshown.peerIds, ?_, hshown.sentShutdown⟩
    rw [hshown.peerData]
  · rw [InputMessage.receiver, hself]
  · rw [InputMessage.receiver, hself]
  · rw [heq]
    exact fun h => h
  · by_cases hbq : b = q
    · subst hbq
      have hquiet : (Call.reply id OK).Quiet := trivial
      refine .call hquiet hcall (fun ⟨uuid, hu⟩ => by cases hu) fun k id' payload' a hk ha => ?_
      cases ha
      cases hfresh.broadcast_unique hn hk
      exact List.mem_append_right _ (List.mem_singleton.mpr rfl)
    · exact .of_eq (hrest b hbq)

/-- The requests of `q` are taken in, one by one. -/
theorem Shows.readRequests (hs : Shows ids es s g) (hmet : s.Met L ids) (hp : p ∈ ids)
    (hq : q ∈ ids) (hpq : p ≠ q) (hfresh : FreshIds (s.endpoint q p).rpc.history) {fuel : Nat}
    (h : (s.peers p).readRequests L q fuel = .ok r) :
    ∃ g', Game.Hides L ids es g g' ∧ Shows ids es (s.set p r) g' := by
  induction fuel generalizing s g with
  | zero =>
      cases h
      exact ⟨g, .refl g, (set_self s p).symm ▸ hs⟩
  | succ fuel ih =>
      rw [NetPeer.readRequests] at h
      split at h
      · cases h
        exact ⟨g, .refl g, (set_self s p).symm ▸ hs⟩
      · rename_i id payload rest hcons
        obtain ⟨r₁, h₁, h⟩ := bind_ok.mp h
        obtain ⟨g₁, hl₁, hs₁⟩ :=
          hs.readRequest hmet hp hq hpq hfresh
            (UnorderedMap.lookup_of_head (List.head?_eq_some_iff.mpr ⟨rest, hcons⟩)) h₁
        rw [← set_peers_self s p r₁] at h
        obtain ⟨g', hl, hs'⟩ := ih hs₁ (hmet.called (NetPeer.readRequest_acts h₁).called)
          (by rwa [endpoint_set_of_ne s r₁ hpq.symm]) h
        exact ⟨g', hl₁.trans hl, set_set s p r₁ r ▸ hs'⟩

/-- Its replies are handed out. -/
theorem Shows.readReplies (hs : Shows ids es s g) (hp : p ∈ ids) {fuel : Nat}
    (h : (s.peers p).readReplies L q fuel = .ok r) : Shows ids es (s.set p r) g := by
  induction fuel generalizing s with
  | zero =>
      cases h
      exact (set_self s p).symm ▸ hs
  | succ fuel ih =>
      rw [NetPeer.readReplies] at h
      split at h
      · cases h
        exact (set_self s p).symm ▸ hs
      · obtain ⟨r₁, h₁, h⟩ := bind_ok.mp h
        have hquiet : Call.getFirstIncomingReply.Quiet := trivial
        have hs₁ := hs.call hp hquiet ⟨by simp, by simp⟩ h₁
        rw [← set_peers_self s p r₁] at h
        exact set_set s p r₁ r ▸ ih hs₁ h

/-- The loop over the peers. -/
theorem Shows.readPeers (hs : Shows ids es s g) (hmet : s.Met L ids) (hp : p ∈ ids) {l : List Bytes}
    (hl : ∀ q ∈ l, q ∈ ids ∧ p ≠ q)
    (hfresh : ∀ q ∈ ids, p ≠ q → FreshIds (s.endpoint q p).rpc.history)
    (h : l.foldlM (NetPeer.readPeer L) (s.peers p) = .ok r) :
    ∃ g', Game.Hides L ids es g g' ∧ Shows ids es (s.set p r) g' := by
  induction l generalizing s g with
  | nil =>
      cases h
      exact ⟨g, .refl g, (set_self s p).symm ▸ hs⟩
  | cons q l ih =>
      rw [List.foldlM_cons] at h
      obtain ⟨r₂, h₂, h⟩ := bind_ok.mp h
      have hacts := NetPeer.readPeer_acts h₂
      obtain ⟨r₁, hrequests, hreplies⟩ := bind_ok.mp h₂
      obtain ⟨hq, hpq⟩ := hl q List.mem_cons_self
      obtain ⟨g₁, hl₁, hs₁⟩ := hs.readRequests hmet hp hq hpq (hfresh q hq hpq) hrequests
      rw [← set_peers_self s p r₁] at hreplies
      have hs₂ := set_set s p r₁ r₂ ▸ hs₁.readReplies hp hreplies
      rw [← set_peers_self s p r₂] at h
      obtain ⟨g', hl', hs'⟩ := ih hs₂ (hmet.called hacts.called)
        (fun b hb => hl b (List.mem_cons_of_mem q hb))
        (fun b hb hpb => by rw [endpoint_set_of_ne s r₂ hpb.symm]; exact hfresh b hb hpb) h
      exact ⟨g', hl₁.trans hl', set_set s p r₂ r ▸ hs'⟩

/-- **An update** takes in what waits. -/
theorem Shows.update (hs : Shows ids es s g) (hmet : s.Met L ids) (hname : s.Named ids)
    (hnd : ids.Nodup) (hp : p ∈ ids)
    (hfresh : ∀ q ∈ ids, p ≠ q → FreshIds (s.endpoint q p).rpc.history) {uuid : Bytes → UInt64}
    (h : (s.peers p).update L uuid = .ok r) :
    ∃ g', Game.Hides L ids es g g' ∧ Shows ids es (s.set p r) g' := by
  obtain ⟨r₁, r₂, hbeat, hread, rfl⟩ := NetPeer.update_ok h
  have hbeaten : Shows ids es (s.set p r₁) g ∧ (s.peers p).Acts L r₁ := by
    rcases hbeat with rfl | hbeat
    · exact ⟨(set_self s p).symm ▸ hs, .refl _⟩
    · exact ⟨hs.beats hname hnd hp hbeat, NetPeer.forEach_acts hbeat (by simp)⟩
  obtain ⟨hs₁, hacts⟩ := hbeaten
  rw [← set_peers_self s p r₁] at hread
  obtain ⟨g', hl, hs₂⟩ := hs₁.readPeers (hmet.called hacts.called) hp
    (fun q hq => hname.mem_endpointIds.mp (by rwa [set_peers_self, hacts.endpointIds] at hq))
    (fun q hq hpq => by rw [endpoint_set_of_ne s r₁ hpq.symm]; exact hfresh q hq hpq) hread
  rw [set_set] at hs₂
  have hshown := hs₂.peers p
  rw [set_peers_self] at hshown
  rw [← set_set s p r₂]
  refine ⟨g', hl, hs₂.rest hp ⟨hshown.userId, hshown.inputs, hshown.peerIds, hshown.peerData, ?_⟩ ?_
    fun q _ _ => .of_eq ?_⟩
  · rw [hshown.sentShutdown]
    simp only [NetPeer.sentShutdown]
    cases r₂.stage <;> rfl
  · rw [set_peers_self]
    intro hst heq
    simp [heq] at hst
  · rw [endpoint_set_self]

end Network

end Wga
