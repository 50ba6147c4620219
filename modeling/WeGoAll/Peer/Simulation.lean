import WeGoAll.Peer.Lockstep
import WeGoAll.Peer.Refinement

/-!
# Peer — Simulation

Every run of the peers over their endpoints is a run of the game.

* `Shows.deliver`: what arrives at an endpoint is replies, and perhaps `SHUTDOWN`, that arrive.
* `Shows.broadcast`: `updateState`.
* `Shows.flush`, `Shows.sendShutdown`: the stages of `shutdown`.
* `network_refines_game`: the refinement.
-/

namespace Wga

open BiDirectionalRpc

variable {L : Libraries} {ids : List Bytes}

namespace Network

variable {es : List NetEvent} {s s' : Network} {g g' : Game} {p q : Bytes} {r : NetPeer}

/-- No endpoint drew an identifier twice. -/
def Fresh (ids : List Bytes) (s : Network) : Prop :=
  ∀ p ∈ ids, ∀ q ∈ ids, p ≠ q → FreshIds (s.endpoint p q).rpc.history

instance (ids : List Bytes) (s : Network) : Decidable (s.Fresh ids) :=
  inferInstanceAs (Decidable (∀ p ∈ ids, ∀ q ∈ ids, p ≠ q → FreshIds (s.endpoint p q).rpc.history))

/-! ### What arrives -/

/-- What a packet leaves of the requests an endpoint made. -/
structure Arrival (e v : PlainRpc) : Prop where
  history : e.rpc.history <+: v.rpc.history
  broadcasts : broadcastsOf v.rpc.history = broadcastsOf e.rpc.history
  requested : ∀ id payload, .requested id payload ∈ v.rpc.history →
    .requested id payload ∈ e.rpc.history
  issued : ∀ id payload, Issued v.rpc.history id payload → Issued e.rpc.history id payload

theorem arrival {e v : PlainRpc} {message : Bytes} {b : Bool} (hc : e.rpc.Consistent .idle)
    (h : BiDirectionalRpc.receive L (PlainRpc.virtuals L) message e = .ok (b, v)) :
    Arrival e v := by
  obtain ⟨packet, hpath⟩ := PlainRpc.receive_any_path hc h
  have hmay : ∀ r a, packet.rights.may r a → (∀ id payload, a ≠ .requested id payload) ∧
      ∀ id payload, a ≠ .requestedOneWay id payload := fun r a ha => by
    refine ⟨?_, ?_⟩ <;>
      · rintro id payload rfl
        cases packet <;> exact ha
  have hreq : ∀ id payload, .requested id payload ∈ v.rpc.history →
      .requested id payload ∈ e.rpc.history := fun id payload hm =>
    hpath.mem_history (fun r ha => (hmay r _ ha).1 id payload rfl) hm
  refine ⟨hpath.history, hpath.filterMap_history fun r a ha => ?_, hreq, fun id payload hi => ?_⟩
  · cases a with
    | requestedOneWay id payload => exact absurd rfl ((hmay r _ ha).2 id payload)
    | _ => rfl
  · exact hi.imp (hreq id payload) fun hm =>
      hpath.mem_history (fun r ha => (hmay r _ ha).2 id payload rfl) hm

/-- The broadcasts that are completed. -/
theorem exists_completed (h : List Event) : ∃ ns : List Nat, ∀ n, n ∈ ns ↔
    ∃ id payload, (broadcastsOf h)[n]? = some (id, payload) ∧ .completed id ∈ h := by
  classical
  refine ⟨(List.range (broadcastsOf h).length).filter fun n => ∃ id payload,
    (broadcastsOf h)[n]? = some (id, payload) ∧ Event.completed id ∈ h, fun n => ?_⟩
  rw [List.mem_filter, List.mem_range, decide_eq_true_eq]
  refine and_iff_right_of_imp fun ⟨id, payload, hn, _⟩ => ?_
  exact (List.getElem?_eq_some_iff.mp hn).1

/-- What the endpoint `v` of `p` for `q` has of the one that `q` has for `p`. -/
theorem untold_left {v : PlainRpc} (h : Pair.Untold L (Function.update (s.pair p q) .left v)) :
    Link v.rpc (s.endpoint q p).rpc ∧ Link (s.endpoint q p).rpc v.rpc ∧
      (v.rpc.shuttingDown = true ↔ ∃ id, .accepted id SHUTDOWN ∈ v.rpc.history) := by
  have hlink := h.linked.link .left
  have hback := h.linked.link .right
  have hshuts := h.shuts .left
  rw [Function.update_self] at hshuts
  rw [show Side.left.other = .right from rfl, Function.update_self,
    Function.update_of_ne (by decide)] at hlink
  rw [show Side.right.other = .left from rfl, Function.update_self,
    Function.update_of_ne (by decide)] at hback
  exact ⟨hlink, hback, hshuts⟩

/-- **The replies arrive, and perhaps `SHUTDOWN`.** -/
theorem Shows.arrives (hs : Shows ids es s g) (hp : p ∈ ids) (hq : q ∈ ids) (hpq : p ≠ q)
    {v : PlainRpc} (hu : (s.pair p q).Untold L)
    (hu' : Pair.Untold L (Function.update (s.pair p q) .left v))
    (harr : Arrival (s.endpoint p q) v) :
    ∃ e : InputEndpoint, Game.Hides L ids es g (g.setEndpoint p q e) ∧
      e.shuttingDown = v.rpc.shuttingDown ∧
      ∀ n ∈ e.outgoingRequests, ∃ id payload,
        (broadcastsOf v.rpc.history)[n]? = some (id, payload) ∧ .completed id ∉ v.rpc.history := by
  obtain ⟨hlink, hback, hshuts⟩ := untold_left hu'
  have hc := hs.carried p hp q hq hpq
  -- the replies of the broadcasts that are completed now
  obtain ⟨ns, hns⟩ := exists_completed v.rpc.history
  have hreplies : ∀ n ∈ ns, .reply q p n ∈ g.posted := fun n hn => by
    obtain ⟨id, payload, hat, hcomp⟩ := (hns n).mp hn
    obtain ⟨a, ha⟩ := hlink.completed id hcomp
    exact hc.reply n id payload a (harr.broadcasts ▸ hat) ha
  obtain ⟨e, hl, hmark, hout⟩ : ∃ e : InputEndpoint,
      Game.Hides L ids es g (g.setEndpoint p q e) ∧ _ :=
    Game.hides_replies ns hreplies
  have hopen : ∀ n ∈ e.outgoingRequests, ∃ id payload,
      (broadcastsOf v.rpc.history)[n]? = some (id, payload) ∧
        .completed id ∉ v.rpc.history := fun n hn => by
    obtain ⟨hold, hnot⟩ := hout n hn
    obtain ⟨id, payload, hat, -⟩ := hc.outgoing n hold
    rw [← harr.broadcasts] at hat
    exact ⟨id, payload, hat, fun hcomp => hnot ((hns n).mpr ⟨id, payload, hat, hcomp⟩)⟩
  cases hv : v.rpc.shuttingDown with
  | false =>
      refine ⟨e, hl, ?_, hopen⟩
      rw [hmark, hc.marked, ← Bool.not_eq_true]
      intro he
      obtain ⟨id, hid⟩ := (hu.shuts .left).mp he
      exact Bool.false_ne_true (hv.symm.trans (hshuts.mpr ⟨id, harr.history.subset hid⟩))
  | true =>
      obtain ⟨id, hid⟩ := hshuts.mp hv
      have hposted := (hs.carried q hq p hp hpq.symm).shutdown id
        (hback.accepted id SHUTDOWN hid).1
      refine ⟨{ e with shuttingDown := true }, hl.trans ?_, rfl, hopen⟩
      have hposted' : .shutdown q p ∈ (g.setEndpoint p q e).posted := hposted
      have hhides : Game.Hides L ids es (g.setEndpoint p q e) _ := Game.hides_shutdown hposted'
      simpa [Game.setEndpoint] using hhides

/-- What arrives at the endpoint of `p` for `q` leaves its broadcasts. -/
theorem Carried.arrives {e e' v : PlainRpc} (hc : Carried g p q e e') (harr : Arrival e v)
    (hposted : g.posted ⊆ g'.posted) (hcount : (g'.peers p).broadcasts = (g.peers p).broadcasts)
    (hmark : ((g'.peers p).endpoints q).shuttingDown = v.rpc.shuttingDown)
    (hopen : ∀ n ∈ ((g'.peers p).endpoints q).outgoingRequests, ∃ id payload,
      (broadcastsOf v.rpc.history)[n]? = some (id, payload) ∧ .completed id ∉ v.rpc.history) :
    Carried g' p q v e' where
  requested id payload hid := hc.requested id payload (harr.requested id payload hid)
  nonempty := harr.broadcasts ▸ hc.nonempty
  count := by rw [harr.broadcasts, hc.count, hcount]
  request n id payload hn := hposted (hc.request n id payload (harr.broadcasts ▸ hn))
  reply n id payload a hn ha := hposted (hc.reply n id payload a (harr.broadcasts ▸ hn) ha)
  outgoing := hopen
  shutdown id hid := hposted (hc.shutdown id (harr.issued id SHUTDOWN hid))
  marked := hmark

/-- What arrives makes `p` answer no broadcast of `q`. -/
theorem answers_no_broadcast (hu : (s.pair p q).Untold L)
    (hf : FreshIds (s.endpoint q p).rpc.history)
    {message : Bytes} {v : PlainRpc} (hstep : Pair.Step L (s.pair p q) (.deliver .left message)
      (Function.update (s.pair p q) .left v)) {n : Nat} {id : RpcId} {payload a : Bytes}
    (hn : (broadcastsOf (s.endpoint q p).rpc.history)[n]? = some (id, payload))
    (ha : .replied id a ∈ v.rpc.history) : .replied id a ∈ (s.endpoint p q).rpc.history := by
  have hlink :=
    (untold_left (hu.step (e := .deliver .left message) (fun _ h => by cases h) hstep)).2.1
  have ha' : .replied id a ∈ (Function.update (s.pair p q) .left v .left).rpc.history := by
    rwa [Function.update_self]
  refine (hu.deliver_replied hstep ha').resolve_right fun ⟨text, hacc, hcontrol⟩ => ?_
  rw [Function.update_self] at hacc
  -- it answers control words only, and a broadcast is none
  obtain ⟨hone, hping, hshut⟩ := mem_broadcastsOf.mp (List.mem_of_getElem? hn)
  have htext := hf.payload_unique (hlink.accepted id text hacc).1 (.inr hone)
  subst htext
  cases hcontrol with
  | ping => exact hping rfl
  | shutdown => exact hshut rfl

/-- **What arrives** is replies, and perhaps `SHUTDOWN`, that arrive. -/
theorem Shows.deliver (hs : Shows ids es s g) (hmet : s.Met L ids) (hfresh : s.Fresh ids)
    (hp : p ∈ ids) (hq : q ∈ ids) (hpq : p ≠ q) {message : Bytes} {b : Bool} {v : PlainRpc}
    (hm : ∃ m ∈ (s.endpoint q p).sub, m.message = message)
    (h : BiDirectionalRpc.receive L (PlainRpc.virtuals L) message (s.endpoint p q) = .ok (b, v)) :
    ∃ g', Game.Hides L ids es g g' ∧ Shows ids es (s.setEndpoint p q v) g' := by
  have hu := hmet p hp q hq hpq
  have hstep : Pair.Step L (s.pair p q) (.deliver .left message) _ := .deliver hm h
  have hu' := hu.step (e := .deliver .left message) (fun _ h => by cases h) hstep
  have harr : Arrival (s.endpoint p q) v := arrival (hu.linked.inv .left).consistent h
  obtain ⟨e, hl, hmark, hopen⟩ := hs.arrives hp hq hpq hu hu' harr
  have hends : ((g.setEndpoint p q e).peers p).endpoints =
      Function.update (g.peers p).endpoints q e := by
    rw [Game.setEndpoint_peers, if_pos rfl]
  have hcount : ((g.setEndpoint p q e).peers p).broadcasts = (g.peers p).broadcasts := by
    rw [Game.setEndpoint_peers, if_pos rfl]
  refine ⟨_, hl, hs.set rfl (fun x hx => ?_) (List.Subset.refl _) ?_ (fun x hx hpx => ?_)
    (fun x hx hpx n id payload a hn ha => .inl ?_) fun hst => ?_⟩
  · rw [Game.setEndpoint_peers, if_neg hx]
  · rw [Game.setEndpoint_peers, if_pos rfl]
    exact ⟨(hs.peers p).userId, (hs.peers p).inputs, (hs.peers p).peerIds, (hs.peers p).peerData,
      (hs.peers p).sentShutdown⟩
  · by_cases hxq : x = q
    · subst hxq
      rw [NetPeer.setEndpoint_self]
      refine (hs.carried p hp x hx hpx).arrives harr (List.Subset.refl _) hcount ?_ ?_
      · rw [hends, Function.update_self, hmark]
      · rw [hends, Function.update_self]
        exact hopen
    · rw [NetPeer.setEndpoint_of_ne hxq]
      refine (hs.carried p hp x hx hpx).grow hcount ?_ (List.Subset.refl _) fun _ _ _ _ _ => .inl
      rw [hends]
      exact Function.update_of_ne hxq _ _
  · by_cases hxq : x = q
    · subst hxq
      rw [NetPeer.setEndpoint_self] at ha
      exact answers_no_broadcast hu (hfresh x hx p hp hpx.symm) hstep hn ha
    · rw [NetPeer.setEndpoint_of_ne hxq] at ha
      exact ha
  · refine (hs.flushed p hp hst).later (List.Subset.refl es) fun x hx hpx hf => ?_
    by_cases hxq : x = q
    · subst hxq
      rw [NetPeer.setEndpoint_self]
      exact hf.later harr.history harr.broadcasts
    · rw [NetPeer.setEndpoint_of_ne hxq]
      exact hf

/-! ### What is broadcast -/

/-- The broadcast of `payload` at the endpoint `e` of `p` for `q`, recorded as `id`. -/
theorem Carried.broadcast {e e' v : PlainRpc} {id : RpcId} {payload : Bytes}
    (hc : Carried g p q e e') (hplain : Plain payload)
    (hrecord : v.rpc.history = e.rpc.history ++ [.requestedOneWay id payload])
    (hshut : v.rpc.shuttingDown = e.rpc.shuttingDown)
    (hunknown : (∀ a, .replied id a ∉ e'.rpc.history) ∧ .completed id ∉ e.rpc.history)
    (hposted : g.posted ⊆ g'.posted)
    (hnew : .request p q (g.peers p).broadcasts payload ∈ g'.posted)
    (hcount : (g'.peers p).broadcasts = (g.peers p).broadcasts + 1)
    (hout : ((g'.peers p).endpoints q).outgoingRequests =
      ((g.peers p).endpoints q).outgoingRequests ++ [(g.peers p).broadcasts])
    (hmark : ((g'.peers p).endpoints q).shuttingDown = ((g.peers p).endpoints q).shuttingDown) :
    Carried g' p q v e' where
  requested a b ha := by
    rw [hrecord, List.mem_append] at ha
    rcases ha with ha | ha
    · exact hc.requested a b ha
    · cases List.mem_singleton.mp ha
  nonempty b hb := by
    rw [hrecord, broadcastsOf_snoc _ _ hplain, List.mem_append] at hb
    rcases hb with hb | hb
    · exact hc.nonempty b hb
    · exact List.mem_singleton.mp hb ▸ hplain.nonempty
  count := by rw [hrecord, broadcastsOf_snoc _ _ hplain, List.length_append, hc.count, hcount]; rfl
  request n a b hn := by
    rw [hrecord] at hn
    rcases getElem?_broadcastsOf_snoc hplain hn with hn | ⟨rfl, rfl, rfl⟩
    · exact hposted (hc.request n a b hn)
    · rw [hc.count]
      exact hnew
  reply n a b d hn hd := by
    rw [hrecord] at hn
    rcases getElem?_broadcastsOf_snoc hplain hn with hn | ⟨-, rfl, -⟩
    · exact hposted (hc.reply n a b d hn hd)
    · exact absurd hd (hunknown.1 d)
  outgoing n hn := by
    have hcompleted : ∀ a, .completed a ∈ v.rpc.history → .completed a ∈ e.rpc.history :=
      fun a ha => by simpa [hrecord] using ha
    rw [hrecord, broadcastsOf_snoc _ _ hplain]
    rw [hout, List.mem_append] at hn
    rcases hn with hn | hn
    · obtain ⟨a, b, hat, hcomp⟩ := hc.outgoing n hn
      obtain ⟨hlt, -⟩ := List.getElem?_eq_some_iff.mp hat
      refine ⟨a, b, (List.getElem?_append_left hlt).trans hat, fun h => hcomp ?_⟩
      exact hcompleted a (hrecord ▸ h)
    · rw [List.mem_singleton.mp hn, ← hc.count]
      exact ⟨id, payload, List.getElem?_concat_length, fun h =>
        hunknown.2 (hcompleted id (hrecord ▸ h))⟩
  shutdown a ha := by
    refine hposted (hc.shutdown a ?_)
    rw [hrecord] at ha
    simpa [Issued, hplain.shutdown.symm] using ha
  marked := by rw [hmark, hc.marked, hshut]

/-- **`updateState` is `updateState`.** -/
theorem Shows.broadcast (hL : L.toMsgpack.Ascii) (hs : Shows ids es s g) (hmet : s.Met L ids)
    (hname : s.Named ids) (hnd : ids.Nodup) (hp : p ∈ ids) (hstage : (s.peers p).stage = .running)
    {uuid : Bytes → UInt64} {timestamp : Int} {data : UnorderedMap Bytes Bytes}
    (ht : timestamp < 2 ^ 63) (h : (s.peers p).updateState L uuid timestamp data = .ok r)
    (hfresh : (s.set p r).Fresh ids) :
    ∃ g', Game.Step L ids g (.updateState p timestamp data) g' ∧ Shows ids es (s.set p r) g' := by
  obtain ⟨payload, inputs, hup, hcalls, heq⟩ := NetPeer.updateState_ok (hname.nodup hnd p) h
  have hids := fun q => hname.mem_endpointIds (p := p) (q := q)
  have hplain := MyPeer.updateState_plain hL hup
  have hshown := hs.peers p
  have hlive : (g.peers p).sentShutdown = false := by
    rw [hshown.sentShutdown, NetPeer.sentShutdown, hstage]
  have hups : (g.peers p).updateState L timestamp data =
      .ok (InputPeer.broadcast payload { g.peers p with inputs := inputs }) := by
    rw [InputPeer.updateState, hshown.inputs, hup]
    rfl
  have hrecord : ∀ q ∈ ids, p ≠ q → (r.endpoints q).rpc.history =
      (s.endpoint p q).rpc.history ++
        [.requestedOneWay ⟨(s.endpoint p q).rpc.onBarrier, uuid q⟩ payload] := fun q hq hpq =>
    PlainRpc.requestOneWay_history (hcalls q ((hids q).mpr ⟨hq, hpq⟩))
  refine ⟨_, .updateState hp hlive ht hups, hs.set rfl (fun x hx => ?_) ?_ ?_ (fun q hq hpq => ?_)
    (fun q hq hpq n id a b hn hb => .inl ?_) fun hst => ?_⟩
  · rw [Game.set_peers, if_neg hx]
  · rw [Game.set_posted]
    exact List.subset_append_left _ _
  · rw [Game.set_peers, if_pos rfl, heq]
    exact ⟨hshown.userId, rfl, hshown.peerIds, hshown.peerData, hshown.sentShutdown⟩
  · have hcall := hcalls q ((hids q).mpr ⟨hq, hpq⟩)
    have hunknown := (hmet p hp q hq hpq).unknown (by
      have hf := hfresh p hp q hq hpq
      rw [endpoint_set_self, hrecord q hq hpq] at hf
      exact hf.notIssued (.inr rfl))
    refine (hs.carried p hp q hq hpq).broadcast hplain (hrecord q hq hpq) ?_ hunknown ?_ ?_ ?_ ?_ ?_
    · rw [PlainRpc.call_shutting hcall]
      exact Bool.or_false _
    · rw [Game.set_posted]
      exact List.subset_append_left _ _
    · have hmem : q ∈ (g.peers p).endpointIds := by
        have hin := (hids q).mpr ⟨hq, hpq⟩
        rwa [NetPeer.endpointIds, ← hshown.peerIds, ← hshown.userId] at hin
      rw [Game.set_posted]
      refine List.mem_append_right _ (List.mem_map.mpr ⟨q, hmem, ?_⟩)
      rw [hshown.userId, (hname p).1]
    · rw [Game.set_peers, if_pos rfl]
      rfl
    · rw [Game.set_peers, if_pos rfl]
      rfl
    · rw [Game.set_peers, if_pos rfl]
      rfl
  · rw [hrecord q hq hpq, List.mem_append] at hb
    refine hb.resolve_right fun hb => ?_
    cases List.mem_singleton.mp hb
  · rw [heq] at hst
    exact absurd hstage hst

/-! ### Shutting down -/

/-- **Without work, what was requested is completed.** -/
theorem completed_of_hasWork {e : PlainRpc} (hr : e.rpc.Requesting .idle)
    (hf : FreshIds e.rpc.history) (hwork : BiDirectionalRpc.hasWork e.rpc = false) {id : RpcId}
    {payload : Bytes} (hi : Issued e.rpc.history id payload) (hne : payload ≠ []) :
    .completed id ∈ e.rpc.history := by
  simp only [BiDirectionalRpc.hasWork, Bool.or_eq_false_iff, List.any_eq_false, Bool.not_eq_true',
    Bool.not_eq_false, List.isEmpty_iff] at hwork
  obtain ⟨⟨⟨hdelayed, hout⟩, -⟩, -⟩ := hwork
  -- what is still in a table has the payload it was made with
  have none : ∀ {table : UnorderedMap RpcId Bytes}, (∀ e ∈ table.entries, e.2 = []) →
      (∀ p, table.lookup id = some p → Issued e.rpc.history id p) → id ∉ table :=
    fun {table} hall hissued hmem => by
      obtain ⟨p, hp⟩ := Option.isSome_iff_exists.mp (AList.lookup_isSome.mpr hmem)
      have heq := hf.payload_unique (hissued p hp) hi
      exact hne (heq ▸ hall ⟨id, p⟩ (AList.mem_lookup_iff.mp hp))
  rcases hr.issued id payload hi with hmem | hmem | hcomp | ⟨q, hph⟩
  · exact absurd hmem (none hout (hr.outgoing id))
  · exact absurd hmem (none hdelayed (hr.delayed id))
  · exact hcomp
  · cases hph

/-- **What is flushed has been answered.** -/
theorem Shows.flush (hs : Shows ids es s g) (hmet : s.Met L ids) (hname : s.Named ids)
    (hfresh : s.Fresh ids) (hp : p ∈ ids) (hstage : (s.peers p).stage = .running)
    {uuid : Bytes → UInt64} {isConnectionDead : Bytes → Bool}
    (he : .shutdown p uuid isConnectionDead ∈ es)
    (hwork : (s.peers p).hasWork isConnectionDead = false) :
    Shows ids es (s.set p { s.peers p with stage := .flushed }) g := by
  have hshown := hs.peers p
  refine hs.set rfl (fun _ _ => rfl) (List.Subset.refl _) ?_
    (fun q hq hpq => hs.carried p hp q hq hpq)
    (fun q hq hpq n id payload a _ ha => .inl ha) fun _ =>
      ⟨uuid, isConnectionDead, he, fun q hq hpq hlive b hb => ?_⟩
  · refine ⟨hshown.userId, hshown.inputs, hshown.peerIds, hshown.peerData, ?_⟩
    rw [hshown.sentShutdown, NetPeer.sentShutdown, hstage]
    rfl
  · have hnone := NetPeer.endpoint_hasWork hwork (hname.mem_endpointIds.mpr ⟨hq, hpq⟩) hlive
    obtain ⟨hone, -⟩ := mem_broadcastsOf.mp hb
    exact completed_of_hasWork ((hmet p hp q hq hpq).linked.inv .left).requesting
      (hfresh p hp q hq hpq) hnone (.inr hone) ((hs.carried p hp q hq hpq).nonempty b hb)

/-- An endpoint that is flushed waits for no reply. -/
theorem Shows.outgoing (hs : Shows ids es s g) (hp : p ∈ ids) (hq : q ∈ ids) (hpq : p ≠ q)
    (hf : Flushed (s.endpoint p q)) : ((g.peers p).endpoints q).outgoingRequests = [] := by
  rw [List.eq_nil_iff_forall_not_mem]
  intro n hn
  obtain ⟨id, payload, hat, hcomp⟩ := (hs.carried p hp q hq hpq).outgoing n hn
  exact hcomp (hf (id, payload) (List.mem_of_getElem? hat))

/-- **A peer that is flushed may send `SHUTDOWN`.** -/
theorem Shows.hasWork (hs : Shows ids es s g) (hname : s.Named ids) (hp : p ∈ ids)
    (hstage : (s.peers p).stage ≠ .running) :
    ∃ uuid isConnectionDead, NetEvent.shutdown p uuid isConnectionDead ∈ es ∧
      (g.peers p).hasWork isConnectionDead = false := by
  obtain ⟨uuid, dead, hmem, hdone⟩ := hs.flushed p hp hstage
  refine ⟨uuid, dead, hmem, List.any_eq_false.mpr fun q hq => ?_⟩
  have hshown := hs.peers p
  rw [InputPeer.endpointIds, hshown.peerIds, hshown.userId] at hq
  obtain ⟨hq, hpq⟩ := hname.mem_endpointIds.mp hq
  cases hdead : dead q with
  | true => simp
  | false => simp [hs.outgoing hp hq hpq (hdone q hq hpq hdead)]

theorem Shows.sendShutdown (hs : Shows ids es s g) (hname : s.Named ids) (hnd : ids.Nodup)
    (hp : p ∈ ids) (hstage : (s.peers p).stage = .flushed) {uuid : Bytes → UInt64}
    (h : (s.peers p).forEach L (fun id => .sendShutdown (uuid id)) = .ok r) :
    ∃ g', Game.Hides L ids es g g' ∧
      Shows ids es (s.set p { r with stage := .sentShutdown }) g' := by
  obtain ⟨hcalls, -, heq⟩ := NetPeer.forEach_ok (hname.nodup hnd p) h
  have hshown := hs.peers p
  have hlive : (g.peers p).sentShutdown = false := by
    rw [hshown.sentShutdown, NetPeer.sentShutdown, hstage]
  obtain ⟨uuid₀, dead, hasked, hwork⟩ := hs.hasWork hname hp (by simp [hstage])
  have hself : (g.set p (g.peers p).sendShutdown).peers p = (g.peers p).sendShutdown.1 := by
    rw [Game.set_peers, if_pos rfl]
  refine ⟨g.set p (g.peers p).sendShutdown, .single ⟨.sendShutdown p dead, ⟨rfl, uuid₀, hasked⟩,
    .sendShutdown hp hlive hwork⟩, hs.quiets hp rfl (fun x hx => ?_)
      (List.subset_append_left _ _) ?_ ?_ ?_ (fun _ hst => ?_) fun q hq hpq => ?_⟩
  · rw [Game.set_peers, if_neg hx]
  · rw [hself, heq]
    exact ⟨hshown.userId, hshown.inputs, hshown.peerIds, hshown.peerData, rfl⟩
  · rw [hself]
    rfl
  · rw [hself]
    rfl
  · rw [hstage] at hst
    cases hst
  · have hquiet : (Call.sendShutdown (uuid q)).Quiet := trivial
    refine .call hquiet (hcalls q (hname.mem_endpointIds.mpr ⟨hq, hpq⟩)) (fun _ hshut => ?_)
      fun _ _ _ _ _ h => by cases h
    have hmem : q ∈ (g.peers p).endpointIds := by
      rw [InputPeer.endpointIds, hshown.peerIds, hshown.userId]
      exact hname.mem_endpointIds.mpr ⟨hq, hpq⟩
    have hmark : (!((g.peers p).endpoints q).shuttingDown) = true := by
      rw [(hs.carried p hp q hq hpq).marked, hshut]
      rfl
    refine List.mem_append_right _ (List.mem_map.mpr ⟨q, List.mem_filter.mpr ⟨hmem, hmark⟩, ?_⟩)
    rw [hshown.userId, (hname p).1]

/-- **`shutdown` goes on.** -/
theorem Shows.shutdown (hs : Shows ids es s g) (hmet : s.Met L ids) (hname : s.Named ids)
    (hnd : ids.Nodup) (hfresh : s.Fresh ids) (hp : p ∈ ids) {uuid : Bytes → UInt64}
    {isConnectionDead : Bytes → Bool} (he : .shutdown p uuid isConnectionDead ∈ es)
    (h : (s.peers p).shutdown L uuid isConnectionDead = .ok r) :
    ∃ g', Game.Hides L ids es g g' ∧ Shows ids es (s.set p r) g' := by
  have hshown := hs.peers p
  -- a stage that is as much, or as little, after `sendShutdown`
  have stage : ∀ st, NetPeer.sentShutdown { s.peers p with stage := st } =
      (s.peers p).sentShutdown → (st ≠ .running → (s.peers p).stage ≠ .running) →
      Shows ids es (s.set p { s.peers p with stage := st }) g := fun st hsent hst => by
    refine hs.rest hp ⟨hshown.userId, hshown.inputs, hshown.peerIds, hshown.peerData, ?_⟩ hst
      fun q _ _ => .of_eq rfl
    rw [hsent, hshown.sentShutdown]
  rcases NetPeer.shutdown_ok h with rfl | ⟨hstage, hwork, rfl⟩ | ⟨hstage, r₁, h₁, rfl⟩ |
    ⟨hstage, -, rfl⟩ | ⟨hstage, rfl⟩
  · exact ⟨g, .refl g, (set_self s p).symm ▸ hs⟩
  · exact ⟨g, .refl g, hs.flush hmet hname hfresh hp hstage he hwork⟩
  · exact hs.sendShutdown hname hnd hp hstage h₁
  · refine ⟨g, .refl g, stage .shuttingDown ?_ fun _ => by simp [hstage]⟩
    rw [NetPeer.sentShutdown, NetPeer.sentShutdown, hstage]
  · refine ⟨g, .refl g, stage .finished ?_ fun _ => by simp [hstage]⟩
    rw [NetPeer.sentShutdown, NetPeer.sentShutdown, hstage]

/-! ### The calls of `getAllInputValues` -/

/-- A call sees of the peer what it sees of the one in the game. -/
theorem Shows.isPeerShutDown (hs : Shows ids es s g) (hname : s.Named ids) (hp : p ∈ ids)
    (q : Bytes) : (s.peers p).view.isPeerShutDown q = (g.peers p).isPeerShutDown q := by
  have hshown := hs.peers p
  have hends : (g.peers p).endpointIds = (s.peers p).endpointIds := by
    rw [InputPeer.endpointIds, NetPeer.endpointIds, hshown.peerIds, hshown.userId]
  rw [InputPeer.isPeerShutDown, InputPeer.isPeerShutDown, hends]
  refine if_ctx_congr Iff.rfl (fun hq => ?_) fun _ => rfl
  obtain ⟨hq, hpq⟩ := hname.mem_endpointIds.mp (List.contains_iff_mem.mp hq)
  exact (hs.carried p hp q hq hpq).marked.symm

theorem Shows.playerInputData (hs : Shows ids es s g) (p q : Bytes) :
    (s.peers p).view.playerInputData q = (g.peers p).playerInputData q := by
  have hshown := hs.peers p
  rw [InputPeer.playerInputData, InputPeer.playerInputData, hshown.userId, hshown.inputs,
    hshown.peerData]
  rfl

theorem Shows.resumeAt (hs : Shows ids es s g) (hname : s.Named ids) (hp : p ∈ ids) (q : Bytes)
    (call : InputCall) :
    (s.peers p).view.resumeAt q call = (g.peers p).resumeAt q call := by
  rw [InputPeer.resumeAt, InputPeer.resumeAt, hs.isPeerShutDown hname hp q, hs.playerInputData p q]

/-- Only the calls change. -/
theorem Shows.called (hs : Shows ids es s g) (calls : List (Bytes × InputCall)) :
    Shows ids es { s with calls := calls } { g with calls := calls } where
  calls := rfl
  peers := hs.peers
  carried p hp q hq hpq :=
    (hs.carried p hp q hq hpq).grow rfl rfl (List.Subset.refl _) fun _ _ _ _ _ => .inl
  flushed := hs.flushed

end Network

/-! ### Every step -/

namespace Game

/-- Steps of the game of which `seen` is what its applications see. -/
inductive Advances (L : Libraries) (ids : List Bytes) (es : List NetEvent) (g : Game) :
    Option GameEvent → Game → Prop where
  | hidden {g' : Game} (h : Hides L ids es g g') : Advances L ids es g none g'
  | seen {g' : Game} {e : GameEvent} (he : e.visible = some e) (h : Step L ids g e g') :
      Advances L ids es g (some e) g'

/-- What the applications see is no `SHUTDOWN`. -/
theorem asked_of_visible {es : List NetEvent} {e : GameEvent} (he : e.visible = some e) :
    e.Asked es := by
  cases e with
  | sendShutdown p isConnectionDead => cases he
  | _ => trivial

theorem Advances.run {es : List NetEvent} {g g' : Game} {seen : Option GameEvent}
    (h : Advances L ids es g seen g') {gs : List GameEvent} (r : (game L ids).Run gs g) :
    ∃ gs', (game L ids).Run (gs ++ gs') g' ∧ gs'.filterMap GameEvent.visible = seen.toList ∧
      ∀ e ∈ gs', e.Asked es := by
  cases h with
  | hidden h =>
      obtain ⟨gs', r', hgs⟩ := r.prolong h
      exact ⟨gs', r', List.filterMap_eq_nil_iff.mpr fun e he => (hgs e he).1,
        fun e he => (hgs e he).2⟩
  | @seen _ e he h =>
      refine ⟨[e], r.snoc h, by rw [List.filterMap_cons_some he]; rfl, fun a ha => ?_⟩
      exact List.mem_singleton.mp ha ▸ asked_of_visible he

end Game

namespace Network

variable {es : List NetEvent} {s s' : Network} {g g' : Game}

theorem Shows.mono {es' : List NetEvent} (hs : Shows ids es s g) (h : es ⊆ es') :
    Shows ids es' s g where
  calls := hs.calls
  peers := hs.peers
  carried := hs.carried
  flushed p hp hst := (hs.flushed p hp hst).later h fun _ _ _ hf => hf

/-- **Every step of the network is steps of the game**, and the applications see the same. -/
theorem Shows.step (hL : L.toMsgpack.Ascii) (hnd : ids.Nodup) {e : NetEvent}
    (hs : Shows ids es s g) (hmet : s.Met L ids) (hname : s.Named ids)
    (hcallers : ∀ c ∈ s.calls, c.1 ∈ ids) (hfresh : s.Fresh ids) (hfresh' : s'.Fresh ids)
    (h : Step L ids s e s') :
    ∃ g', Game.Advances L ids (es ++ [e]) g e.visible g' ∧ Shows ids (es ++ [e]) s' g' := by
  replace hs := hs.mono (List.subset_append_left es [e])
  have he : e ∈ es ++ [e] := List.mem_append_right _ List.mem_cons_self
  generalize es ++ [e] = es' at hs he ⊢
  have hidden : (∃ g', Game.Hides L ids es' g g' ∧ Shows ids es' s' g') → e.visible = none →
      ∃ g', Game.Advances L ids es' g e.visible g' ∧ Shows ids es' s' g' := fun ⟨g', hl, hs'⟩ he =>
    ⟨g', he ▸ .hidden hl, hs'⟩
  cases h with
  | updateState hp hstage ht h =>
      obtain ⟨g', hstep, hs'⟩ := hs.broadcast hL hmet hname hnd hp hstage ht h hfresh'
      exact ⟨g', .seen rfl hstep, hs'⟩
  | deliver hp hq hpq hstage hm h => exact hidden (hs.deliver hmet hfresh hp hq hpq hm h) rfl
  | @update p uuid r hp hstage h =>
      exact hidden (hs.update hmet hname hnd hp (fun q hq hpq => hfresh q hq p hp hpq.symm) h) rfl
  | @initTimeShift p q uuid r hp hq hpq hstage h =>
      have hquiet : (Call.request uuid PING).Quiet := rfl
      exact hidden ⟨g, .refl g, hs.call hp hquiet
        ⟨by simp, by simp⟩ h⟩ rfl
  | shutdown hp h => exact hidden (hs.shutdown hmet hname hnd hfresh hp he h) rfl
  | @getAllInputValues x timestamp hx hon =>
      have hshown := hs.peers x
      have hcall : (s.peers x).view.getAllInputValues timestamp =
          (g.peers x).getAllInputValues timestamp := by
        rw [InputPeer.getAllInputValues, InputPeer.getAllInputValues, hshown.peerIds]
        rfl
      refine ⟨_, .seen rfl (.getAllInputValues hx (hshown.sentShutdown.trans hon)), ?_⟩
      rw [hcall, ← hs.calls]
      exact hs.called _
  | @resume i x p call call' hat hon h =>
      have hx := hcallers (x, call) (List.mem_of_getElem? hat.1)
      have hshown := hs.peers x
      rw [hs.resumeAt hname hx p call] at h
      refine ⟨_, .seen rfl (.resume (x := x) (p := p) ⟨hs.calls ▸ hat.1, hat.2⟩
        (hshown.sentShutdown.trans hon) h), ?_⟩
      rw [← hs.calls]
      exact hs.called _
  | @rehash p q r hp h =>
      have hshown := hs.peers p
      have hhist : r.history = (s.endpoint p q).rpc.history := by rw [h.rest]
      have hshut : r.shuttingDown = (s.endpoint p q).rpc.shuttingDown := by rw [h.rest]
      refine hidden ⟨g, .refl g, hs.rest hp ⟨hshown.userId, hshown.inputs, hshown.peerIds,
        hshown.peerData, hshown.sentShutdown⟩ (fun hst => hst) fun b hb hpb => ?_⟩ rfl
      by_cases hbq : b = q
      · subst hbq
        rw [NetPeer.setEndpoint_self]
        exact ⟨hhist.symm ▸ .refl _, hshut, fun id hid => .inl (hhist ▸ hid),
          fun n id payload a _ ha => .inl (hhist ▸ ha)⟩
      · rw [NetPeer.setEndpoint_of_ne hbq]
        exact .of_eq rfl

/-! ### Every run -/

/-- What a step leaves of a history. -/
theorem Step.history {e : NetEvent} (hmet : s.Met L ids) (h : Step L ids s e s') {a b : Bytes}
    (ha : a ∈ ids) (hb : b ∈ ids) (hab : a ≠ b) :
    (s.endpoint a b).rpc.history <+: (s'.endpoint a b).rpc.history := by
  have called : ∀ {p r}, (∀ q, Called L (s.endpoint p q) (r.endpoints q)) →
      (s.endpoint a b).rpc.history <+: ((s.set p r).endpoint a b).rpc.history := fun {p r} hr => by
    by_cases hap : a = p
    · subst hap
      rw [endpoint_set_self]
      exact (hr b).history
    · rw [endpoint_set_of_ne s r hap]
  have one : ∀ {p q v}, (a = p → b = q → (s.endpoint a b).rpc.history <+: v.rpc.history) →
      (s.endpoint a b).rpc.history <+: ((s.setEndpoint p q v).endpoint a b).rpc.history :=
    fun {p q v} hv => by
      by_cases hap : a = p
      · subst hap
        rw [setEndpoint, endpoint_set_self]
        by_cases hbq : b = q
        · subst hbq
          rw [NetPeer.setEndpoint_self]
          exact hv rfl rfl
        · rw [NetPeer.setEndpoint_of_ne hbq]
          exact List.prefix_rfl
      · rw [setEndpoint, endpoint_set_of_ne s _ hap]
  cases h with
  | updateState hp hstage ht h => exact called (NetPeer.updateState_acts h).called
  | deliver hp hq hpq hstage hm h =>
      refine one fun hap hbq => ?_
      subst hap hbq
      exact (arrival ((hmet a ha b hb hab).linked.inv .left).consistent h).history
  | update hp hstage h => exact called (NetPeer.update_acts h).1.called
  | initTimeShift hp hq hpq hstage h => exact called (NetPeer.call_acts h (by simp)).called
  | shutdown hp h => exact called (NetPeer.shutdown_acts h).called
  | getAllInputValues hx hlive => exact List.prefix_rfl
  | resume hat hlive h => exact List.prefix_rfl
  | rehash hp h =>
      refine one fun hap hbq => ?_
      subst hap hbq
      rw [h.rest]

theorem Fresh.back {e : NetEvent} (hmet : s.Met L ids) (h : Step L ids s e s')
    (hs' : s'.Fresh ids) : s.Fresh ids := fun a ha b hb hab =>
  (hs' a ha b hb hab).of_isPrefix (h.history hmet ha hb hab)

theorem Shows.start (hs : (network L ids).init s) : Shows ids [] s (.start ids) where
  calls := hs.2.symm
  peers p := by
    obtain ⟨flaky, env, hp⟩ := hs.1 p
    rw [hp]
    exact ⟨rfl, rfl, rfl, rfl, rfl⟩
  carried p hp q hq hpq := by
    obtain ⟨flaky, env, hpeer⟩ := hs.1 p
    obtain ⟨flaky', env', hpeer'⟩ := hs.1 q
    have hnil : (s.endpoint p q).rpc.history = [] := by
      rw [endpoint, hpeer]
      rfl
    exact {
      requested := by simp [hnil]
      nonempty := by simp [hnil, broadcastsOf]
      count := by rw [hnil]; rfl
      request := by simp [hnil, broadcastsOf]
      reply := by simp [hnil, broadcastsOf]
      outgoing := by simp [Game.start, InputPeer.new]
      shutdown := by simp [hnil, Issued]
      marked := by rw [endpoint, hpeer]; rfl }
  flushed p hp hst := by
    obtain ⟨flaky, env, hpeer⟩ := hs.1 p
    rw [hpeer] at hst
    exact absurd rfl hst

/-- **Every run shows a run of the game.** -/
theorem run_shows (hL : L.toMsgpack.Ascii) (hnd : ids.Nodup) {es : List NetEvent}
    (r : (network L ids).Run es s) (hfresh : s.Fresh ids) :
    ∃ gs g, (game L ids).Run gs g ∧ Shows ids es s g ∧
      gs.filterMap GameEvent.visible = es.filterMap NetEvent.visible ∧ ∀ e ∈ gs, e.Asked es := by
  refine r.simulate (fun _ s => s.Fresh ids) (fun es s gs g => Shows ids es s g ∧
    gs.filterMap GameEvent.visible = es.filterMap NetEvent.visible ∧ ∀ e ∈ gs, e.Asked es)
    (fun es s e s' r h hs' => hs'.back (run_met r) h)
    (fun s hs => ⟨_, rfl, .start hs, rfl, fun _ he => absurd he List.not_mem_nil⟩)
    (fun es s e s' gs g r h hs' rg hrel => ?_) hfresh
  obtain ⟨hs, htrace, hasked⟩ := hrel
  obtain ⟨g', hadv, hshows⟩ := hs.step hL hnd (run_met r) (run_named r)
    (fun _ hc => run_callers r hc) (hs'.back (run_met r) h) hs' h
  obtain ⟨gs', rg', hseen, hasked'⟩ := hadv.run rg
  refine ⟨gs ++ gs', g', rg', hshows, ?_, fun a ha => ?_⟩
  · rw [List.filterMap_append, List.filterMap_append, htrace, hseen]
    cases hv : e.visible with
    | none => rw [List.filterMap_cons_none hv]; rfl
    | some a => rw [List.filterMap_cons_some hv]; rfl
  · rcases List.mem_append.mp ha with ha | ha
    · exact (hasked a ha).mono (List.subset_append_left _ _)
    · exact hasked' a ha

end Network

/-- **The peers over their endpoints play the game.**  Whatever the network between the endpoints
loses, repeats, delays and reorders: if no endpoint draws an identifier twice, every run is matched
by a run of the game with the same calls of the applications in the same order, in which a peer that
sends `SHUTDOWN` has found those connections dead that its `shutdown` has.  It leaves every call of
`getAllInputValues`, every store, and every mark of a shutdown the same. -/
theorem network_refines_game (hL : L.toMsgpack.Ascii) (hids : ids.Nodup) {es : List NetEvent}
    {s : Network} (r : (network L ids).Run es s) (hfresh : s.Fresh ids) :
    ∃ gs g, (game L ids).Run gs g ∧
      gs.filterMap GameEvent.visible = es.filterMap NetEvent.visible ∧
      (∀ e ∈ gs, e.Asked es) ∧ g.calls = s.calls ∧ (∀ p, (s.peers p).Shown (g.peers p)) ∧
      ∀ p ∈ ids, ∀ q ∈ ids, p ≠ q →
        ((g.peers p).endpoints q).shuttingDown = (s.endpoint p q).rpc.shuttingDown ∧
        (g.peers p).broadcasts = (broadcastsOf (s.endpoint p q).rpc.history).length := by
  obtain ⟨gs, g, rg, hs, htrace, hasked⟩ := Network.run_shows hL hids r hfresh
  refine ⟨gs, g, rg, htrace, hasked, hs.calls, hs.peers, fun p hp q hq hpq => ?_⟩
  have hc := hs.carried p hp q hq hpq
  exact ⟨hc.marked, hc.count.symm⟩

/-! ### A departure -/

namespace Network

/-- Two peers. -/
def duo : List Bytes := [[1], [2]]

/-- The packet with the first broadcast of `p`. -/
def firstPacket (p : Bytes) : Bytes :=
  let L := Libraries.standIn
  (Packet.request [⟨⟨0, 7⟩, L.pack ((MyPeer.window [⟨0, 10, Game.firstInput p⟩]).flatMap
    MyPeer.blockObjects)⟩]).message L

/-- The packet with the reply to the request `uuid`. -/
def replyPacket (uuid : UInt64) (payload : Bytes) : Bytes :=
  (Packet.reply [⟨⟨0, uuid⟩, 0, 0, payload⟩]).message .standIn

/-- Each takes in the other's first input, and `[2]` asks for those at 5; the request of `[1]`
arrives twice.  Then `[1]` flushes, sends `SHUTDOWN` and hears of its arrival. -/
def parting : List NetEvent :=
  duo.map (fun p => .updateState p (fun _ => 7) 10 (Game.firstInput p)) ++
  [.deliver [2] [1] (firstPacket [1]), .deliver [1] [2] (firstPacket [2]),
    .update [1] (fun _ => 8), .update [2] (fun _ => 8), .deliver [2] [1] (firstPacket [1]),
    .deliver [1] [2] (replyPacket 7 OK), .deliver [2] [1] (replyPacket 7 OK)] ++
  .getAllInputValues [2] 5 :: List.replicate 6 (.resume 0) ++
  [.shutdown [1] (fun _ => 9) fun _ => false, .shutdown [1] (fun _ => 9) fun _ => false,
    .deliver [2] [1] ((Packet.request [⟨⟨0, 9⟩, SHUTDOWN⟩]).message .standIn),
    .deliver [1] [2] (replyPacket 9 SHUTDOWN_REPLY),
    .shutdown [1] (fun _ => 10) fun _ => false]

theorem parting_ends : ∃ s, parting.foldlM (exec .standIn duo) (new duo) = .ok s ∧ s.Fresh duo ∧
    s.calls.map (fun c => (c.1, c.2.timestamp, c.2.remaining.isEmpty)) = [([2], 5, true)] ∧
    (s.peers [1]).stage = .shuttingDown := by
  decide +kernel

/-- In msgpack, a byte below 128 is an integer by itself. -/
theorem unpackObject_ascii {b : UInt8} (hb : b < 0x80) (s : Bytes) :
    ∃ v, Format.unpackObject (b :: s) = some (.integer v, s) := by
  have hlt : b.toNat < 256 := b.toNat_lt
  have hv : -2 ^ 63 ≤ (b.toNat : Int) ∧ (b.toNat : Int) < 2 ^ 64 := by omega
  refine ⟨⟨b.toNat, hv.1, hv.2⟩, ?_⟩
  simp only [Format.unpackObject, hb, if_true]
  exact congrArg (Option.map (·, s)) (Format.integerObject_val ⟨b.toNat, hv.1, hv.2⟩)

theorem unpackLoop_ascii (fuel : Nat) : ∀ s : Bytes, (∀ b ∈ s, b < 0x80) →
    ∀ o ∈ (Format.unpackLoop fuel s).objects, ∃ v, o = .integer v := by
  induction fuel with
  | zero =>
      intro s _ o ho
      cases s <;> cases ho
  | succ fuel ih =>
      intro s hs o ho
      cases s with
      | nil => cases ho
      | cons b s =>
          obtain ⟨v, hobj⟩ := unpackObject_ascii (hs b List.mem_cons_self) s
          rw [Format.unpackLoop, hobj] at ho
          rcases List.mem_cons.mp ho with rfl | ho
          · exact ⟨v, rfl⟩
          · exact ih s (fun b hb => hs b (List.mem_cons_of_mem _ hb)) o ho

theorem standIn_ascii : Libraries.standIn.toMsgpack.Ascii :=
  fun s hs => unpackLoop_ascii s.length s hs

end Network

/-- A departure over the endpoints, as a run of the game. -/
theorem network_refines_game_parting : ∃ s gs g,
    (network .standIn Network.duo).Run Network.parting s ∧
    (game .standIn Network.duo).Run gs g ∧
    gs.filterMap GameEvent.visible = Network.parting.filterMap NetEvent.visible ∧
    g.calls = s.calls := by
  obtain ⟨s, hs, hfresh, -⟩ := Network.parting_ends
  have r := Network.exec_run hs
  obtain ⟨gs, g, rg, htrace, -, hcalls, -⟩ :=
    network_refines_game Network.standIn_ascii (by decide) r hfresh
  exact ⟨s, gs, g, r, rg, htrace, hcalls⟩

end Wga
