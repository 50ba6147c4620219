import WeGoAll.Rpc.Retention

/-!
# Rpc — Eviction

`processedRequests` forgets.  What a plain endpoint does when its operation goes through is computed
here, and a run of two endpoints fills the cache of one of them until it forgets its first request.

* `request_eq`, `receive_request_eq`, `reply_eq`, `receive_acknowledge_eq`: the operations.
* `Crowded`: the first request is done, and others followed.  `Crowded.round` adds one more.
* `evicted_reply_erased`: the first request is answered again, and the reply is erased although the
  requester never saw it.
-/

namespace Wga

namespace PlainRpc

open BiDirectionalRpc

variable {L : Libraries} {s : PlainRpc} {id : RpcId} {p : Bytes}

theorem sendNow_eq (hnew : id ∉ s.rpc.clock.requestSendTimeMap) :
    ∃ clock env, sendNow L send id p s = .ok ⟨{ s.rpc with
        outgoingRequests := s.rpc.outgoingRequests.insert id p, clock := clock },
      s.sub ++ [⟨s.rpc.history, (Packet.request [⟨id, p⟩]).message L⟩], env⟩ := by
  refine ⟨{ s.rpc.clock with
    requestSendTimeMap := s.rpc.clock.requestSendTimeMap.insert id s.now.1 }, s.now.2.env, ?_⟩
  simp only [sendNow, ClockSynchronizer.createRequest]
  rw [if_neg (by simpa using hnew)]
  rfl

/-- A request that finds no older barrier in flight goes out. -/
theorem request_eq (hf : s.rpc.FirstIsCurrent) (hid : s.rpc.onBarrier = id.barrier)
    (hnew : id ∉ s.rpc.clock.requestSendTimeMap) :
    ∃ v clock h, Call.run L (virtuals L) s (.request id.id p) = .ok v ∧
      v.rpc = { s.rpc with
        outgoingRequests := s.rpc.outgoingRequests.insert id p
        clock := clock
        history := s.rpc.history ++ [.requested id p] } ∧
      v.sub = s.sub ++ [⟨h, (Packet.request [⟨id, p⟩]).message L⟩] := by
  obtain ⟨clock, env, heq⟩ := sendNow_eq (L := L) (p := p)
    (s := { s with rpc.history := s.rpc.history ++ [.requested id p] }) hnew
  refine ⟨⟨_, s.sub ++ [⟨s.rpc.history ++ [.requested id p],
    (Packet.request [⟨id, p⟩]).message L⟩], env⟩, clock, _, ?_, rfl, rfl⟩
  have hnow : (⟨s.rpc.onBarrier, id.id⟩ : RpcId) = id := by rw [hid]
  simp only [Call.run, BiDirectionalRpc.request, virtuals, requestWithId, hnow]
  split
  · exact heq
  · rename_i first payload rest hcons
    have hb : first.barrier = s.rpc.onBarrier :=
      hf ⟨first, payload⟩ (by rw [show s.rpc.outgoingRequests.entries = _ from hcons]; rfl)
    rw [if_pos hb]
    exact heq

/-- A request that is not known is accepted. -/
theorem receive_request_eq (hflaky : s.rpc.flaky = false) (hin : id ∉ s.rpc.incomingRequests)
    (hproc : id ∉ s.rpc.processedRequests.keys) (hout : id ∉ s.rpc.outgoingReplies)
    (hclock : id ∉ s.rpc.clock.requestReceiveTimeMap) (hp : p ≠ PING ∧ p ≠ SHUTDOWN) :
    ∃ v, receive L (virtuals L) ((Packet.request [⟨id, p⟩]).message L) s = .ok (true, v) ∧
      v.rpc = { s.rpc with
        incomingRequests := s.rpc.incomingRequests.insert id p
        clock := { s.rpc.clock with
          requestReceiveTimeMap := s.rpc.clock.requestReceiveTimeMap.insert id s.now.1 }
        history := s.rpc.history ++ [.accepted id p] } := by
  have hlook : s.rpc.outgoingReplies.lookup id = none := by
    cases h : s.rpc.outgoingReplies.lookup id with
    | none => rfl
    | some q => exact absurd (AList.lookup_isSome.mp (Option.isSome_of_eq_some h)) hout
  have hnew : (s.rpc.incomingRequests.insert id p).lookup id = some p := AList.lookup_insert _
  refine ⟨⟨_, s.sub, s.now.2.env⟩, ?_, rfl⟩
  refine (receive_eq (L.unpack_pack _) s).trans ?_
  simp only [flake, hflaky, Bool.false_eq_true, if_false, handlePacket, handleRequests,
    List.foldlM_cons, List.foldlM_nil, handleRequest, LruCache.contains_iff, hin, hproc, or_self,
    hlook, virtuals, addIncomingRequest, Self.now, ClockSynchronizer.receiveRequest, hclock,
    ok_bind, UnorderedMap.emplace_eq_insert hin, hnew, hp.1, hp.2]
  rfl

/-- A request that waits is replied to. -/
theorem reply_eq (id : RpcId) (q : Bytes) (hin : id ∈ s.rpc.incomingRequests)
    (hclock : id ∈ s.rpc.clock.requestReceiveTimeMap) :
    ∃ v, Call.run L (virtuals L) s (.reply id q) = .ok v ∧
      v.rpc = { s.rpc with
        incomingRequests := s.rpc.incomingRequests.erase id
        processedRequests := s.rpc.processedRequests.put L.toLruPolicy processedCapacity id
        outgoingReplies := s.rpc.outgoingReplies.insert id q
        history := s.rpc.history ++ [.replied id q] } := by
  obtain ⟨sendTime, ht⟩ := Option.isSome_iff_exists.mp (AList.lookup_isSome.mpr hclock)
  refine ⟨⟨_, s.sub ++ [⟨s.rpc.history ++ [.replied id q],
    (Packet.reply [⟨id, sendTime, s.now.1, q⟩]).message L⟩], s.now.2.env⟩, ?_, rfl⟩
  simp only [Call.run, virtuals, reply, if_pos hin, sendReply, writeReply, Self.now,
    ClockSynchronizer.getReplyDuration, ht, ok_bind, Bool.false_eq_true, if_false]
  rfl

/-- An acknowledgement of a stored reply discards it. -/
theorem receive_acknowledge_eq (id : RpcId) (q : Bytes) (hflaky : s.rpc.flaky = false)
    (hout : id ∈ s.rpc.outgoingReplies) (hclock : id ∈ s.rpc.clock.requestReceiveTimeMap) :
    ∃ v, receive L (virtuals L) ((Packet.acknowledge id q).message L) s = .ok (true, v) ∧
      v.rpc = { s.rpc with
        clock := { s.rpc.clock with
          requestReceiveTimeMap := s.rpc.clock.requestReceiveTimeMap.erase id }
        outgoingReplies := s.rpc.outgoingReplies.erase id } := by
  refine ⟨⟨_, s.sub, s.env⟩, ?_, rfl⟩
  refine (receive_eq (L.unpack_pack _) s).trans ?_
  simp only [flake, hflaky, Bool.false_eq_true, if_false, handlePacket, handleAcknowledge,
    if_pos hout, ClockSynchronizer.eraseRequestRecieveTime, if_pos hclock, ok_bind]
  rfl

end PlainRpc

namespace Pair

variable {L : Libraries}

/-- What one side never issued the other does not know. -/
theorem Linked.unknown {s : Pair} (hs : s.Linked L) {x : Side} {id : RpcId}
    (hid : ∀ p, ¬ Issued (s x).rpc.history id p) :
    id ∉ (s x.other).rpc.incomingRequests ∧ id ∉ (s x.other).rpc.processedRequests.keys ∧
      id ∉ (s x.other).rpc.outgoingReplies := by
  have hans := (hs.inv x.other).answering
  have hacc : ∀ p, .accepted id p ∉ (s x.other).rpc.history := fun p hp =>
    hid p ((hs.link x).accepted id p hp).1
  have hrep : ∀ q, .replied id q ∉ (s x.other).rpc.history := fun q hq =>
    let ⟨p, hp⟩ := hans.replied id q hq
    hacc p hp
  refine ⟨fun hin => ?_, fun hproc => ?_, fun hout => ?_⟩
  · obtain ⟨p, hp⟩ := Option.isSome_iff_exists.mp (AList.lookup_isSome.mpr hin)
    exact hacc p (hans.incoming id p hp)
  · obtain ⟨q, hq⟩ := hans.processed id hproc
    exact hrep q hq
  · obtain ⟨q, hq⟩ := Option.isSome_iff_exists.mp (AList.lookup_isSome.mpr hout)
    exact hrep q (hans.stored id q hq)

end Pair

/-! ### The crowd -/

theorem take_cons_take {α : Type*} {n : Nat} (hn : 0 < n) (a : α) (l : List α) :
    (a :: l.take n).take n = (a :: l).take n := by
  obtain ⟨m, rfl⟩ := Nat.exists_eq_succ_of_ne_zero hn.ne'
  simp [List.take_take]

/-- The `k`-th identifier under the first barrier. -/
def nthId (k : Nat) : RpcId := ⟨0, UInt64.ofNat k⟩

theorem nthId_injective {j k : Nat} (hj : j < 2 ^ 64) (hk : k < 2 ^ 64)
    (h : nthId j = nthId k) : j = k := by
  have h' := congrArg (fun id => id.id.toNat) h
  simp only [nthId, UInt64.toNat_ofNat', Nat.mod_eq_of_lt hj, Nat.mod_eq_of_lt hk] at h'
  exact h'

/-- The second reply. -/
def secondReply : Bytes := ascii ['H', 'O']

/-- The first request was answered with `PONG` and acknowledged, and `k` were issued and answered
in all. -/
structure Crowded (k : Nat) (s : Pair) : Prop where
  barrier : (s .left).rpc.onBarrier = 0
  current : (s .left).rpc.FirstIsCurrent
  issued : issuedIds (s .left).rpc.history = (List.range k).map nthId
  requested : .requested (nthId 0) greeting ∈ (s .left).rpc.history
  queued : ∀ q, .queued (nthId 0) q ∈ (s .left).rpc.history → q = PONG
  request : ∃ m ∈ (s .left).sub, m.message = (Packet.request [⟨nthId 0, greeting⟩]).message .standIn
  acknowledge : ∃ m ∈ (s .left).sub,
    m.message = (Packet.acknowledge (nthId 0) ACK_OK).message .standIn
  steady : (s .right).rpc.flaky = false
  silent : issuedIds (s .right).rpc.history = []
  incoming : nthId 0 ∉ (s .right).rpc.incomingRequests
  stored : nthId 0 ∉ (s .right).rpc.outgoingReplies
  processed : (s .right).rpc.processedRequests.keys =
    ((List.range k).map nthId).reverse.take processedCapacity

namespace Crowded

variable {k : Nat} {s : Pair}

theorem fresh (h : Crowded k s) (hk : k < 2 ^ 64) (x : Side) : FreshIds (s x).rpc.history := by
  cases x with
  | left =>
      rw [FreshIds, h.issued]
      refine List.Nodup.map_on (fun i hi j hj => ?_) List.nodup_range
      have := List.mem_range.mp hi
      have := List.mem_range.mp hj
      exact nthId_injective (by omega) (by omega)
  | right =>
      rw [FreshIds, h.silent]
      exact List.nodup_nil

theorem not_issued (h : Crowded k s) (hk : k < 2 ^ 64) (p : Bytes) :
    ¬ Issued (s .left).rpc.history (nthId k) p := by
  intro hi
  have hmem := mem_issuedIds.mpr ⟨p, hi⟩
  rw [h.issued] at hmem
  obtain ⟨j, hj, heq⟩ := List.mem_map.mp hmem
  have hlt := List.mem_range.mp hj
  have := nthId_injective (by omega) hk heq
  omega

/-- One more request on the left, accepted and answered on the right. -/
theorem grow (h : Crowded k s) {s' : Pair}
    {clock clock' : ClockSynchronizer} {m : Sent} (hne : nthId 0 ≠ nthId k)
    (hproc : nthId k ∉ (s .right).rpc.processedRequests.keys)
    (hleft : (s' .left).rpc = { (s .left).rpc with
      outgoingRequests := (s .left).rpc.outgoingRequests.insert (nthId k) greeting
      clock := clock
      history := (s .left).rpc.history ++ [.requested (nthId k) greeting] })
    (hsub : (s' .left).sub = (s .left).sub ++ [m])
    (hright : (s' .right).rpc = { (s .right).rpc with
      incomingRequests :=
        ((s .right).rpc.incomingRequests.insert (nthId k) greeting).erase (nthId k)
      processedRequests := (s .right).rpc.processedRequests.put Libraries.standIn.toLruPolicy
        processedCapacity (nthId k)
      outgoingReplies := (s .right).rpc.outgoingReplies.insert (nthId k) PONG
      clock := clock'
      history := (s .right).rpc.history ++ [.accepted (nthId k) greeting] ++
        [.replied (nthId k) PONG] }) : Crowded (k + 1) s' where
  barrier := by
    rw [hleft]
    exact h.barrier
  current := by
    rw [hleft]
    intro e he
    cases (he : some _ = some e)
    exact h.barrier.symm
  issued := by
    rw [hleft, List.range_succ, List.map_append, ← h.issued]
    exact List.filterMap_append
  requested := by
    rw [hleft]
    exact List.mem_append_left _ h.requested
  queued := by
    intro q hq
    rw [hleft] at hq
    exact h.queued q ((List.mem_append.mp hq).resolve_right (by simp))
  request := by
    obtain ⟨m, hm, heq⟩ := h.request
    exact ⟨m, hsub ▸ List.mem_append_left _ hm, heq⟩
  acknowledge := by
    obtain ⟨m, hm, heq⟩ := h.acknowledge
    exact ⟨m, hsub ▸ List.mem_append_left _ hm, heq⟩
  steady := by
    rw [hright]
    exact h.steady
  silent := by
    rw [hright, issuedIds, List.filterMap_append, List.filterMap_append,
      show List.filterMap _ _ = [] from h.silent]
    rfl
  incoming := by
    rw [hright]
    intro hin
    rcases (AList.mem_insert _).mp (AList.mem_erase.mp hin).2 with heq | hin
    · exact hne heq
    · exact h.incoming hin
  stored := by
    rw [hright]
    exact fun hout => ((AList.mem_insert _).mp hout).elim hne h.stored
  processed := by
    rw [hright]
    -- the key is new, so it only pushes the others on
    have herase := List.erase_of_not_mem hproc
    show List.take processedCapacity (nthId k :: List.erase _ _) = _
    rw [herase, h.processed, List.range_succ, List.map_append, List.reverse_append]
    exact take_cons_take (by decide) _ _

/-- **One more request.** -/
theorem round {es : List PairEvent} (r : (exchange .standIn).Run es s) (h : Crowded k s)
    (h₀ : 0 < k) (hk : k < 2 ^ 64) :
    ∃ es' s', (exchange .standIn).Run es' s' ∧ Crowded (k + 1) s' := by
  have hs := Pair.run_linked r
  have hnew := h.not_issued hk
  obtain ⟨hin, hproc, hout⟩ := hs.unknown hnew
  have hne : nthId 0 ≠ nthId k := fun heq => by
    have := nthId_injective (by omega) hk heq
    omega
  -- the left side requests
  have hsend : nthId k ∉ (s .left).rpc.clock.requestSendTimeMap := by
    intro hmem
    rcases ((hs.inv .left).consistent.sendTime _).mp hmem with hmem | hph | hph
    · obtain ⟨p, hp⟩ := Option.isSome_iff_exists.mp (AList.lookup_isSome.mpr hmem)
      exact hnew p ((hs.inv .left).requesting.outgoing _ p hp)
    · cases hph
    · cases hph
  obtain ⟨v, clock, hist, hreq, hv, hsub⟩ := PlainRpc.request_eq (L := .standIn)
    (p := greeting) h.current h.barrier hsend
  have r₁ := r.snoc (Pair.Step.call hreq)
  -- the request arrives
  have hclock : nthId k ∉ (s .right).rpc.clock.requestReceiveTimeMap := fun hmem =>
    (((hs.inv .right).consistent.receiveTime _).mp hmem).elim hin hout
  obtain ⟨w, hacc, hw⟩ := PlainRpc.receive_request_eq (L := .standIn) (p := greeting) h.steady hin
    hproc hout hclock (by decide)
  have r₂ := r₁.snoc (Pair.Step.deliver (x := .right) ⟨_, by
    rw [show Function.update s .left v (Side.other .right) = v from Function.update_self .., hsub]
    exact List.mem_append_right _ (List.mem_singleton.mpr rfl), rfl⟩ hacc)
  -- and is answered
  obtain ⟨w', hrep, hw'⟩ := PlainRpc.reply_eq (L := .standIn) (s := w) (nthId k) PONG
    (by rw [hw]; exact (AList.mem_insert _).mpr (.inl rfl))
    (by rw [hw]; exact (AList.mem_insert _).mpr (.inl rfl))
  have r₃ := r₂.snoc (Pair.Step.call (x := .right) hrep)
  rw [hw] at hw'
  exact ⟨_, _, r₃, h.grow hne hproc hv hsub hw'⟩

/-- **As many as wanted.** -/
theorem reach {es : List PairEvent} (r : (exchange .standIn).Run es s) (h : Crowded 1 s) {n : Nat}
    (hn : n < 2 ^ 64) : ∃ es' s', (exchange .standIn).Run es' s' ∧ Crowded (n + 1) s' := by
  induction n with
  | zero => exact ⟨es, s, r, h⟩
  | succ n ih =>
      obtain ⟨es', s', r', h'⟩ := ih (by omega)
      exact h'.round r' (by omega) hn

end Crowded

theorem firstExchange_ends :
    ∃ s, firstExchange.foldlM (Pair.exec .standIn) Pair.new = .ok s ∧
      (s .left).rpc.onBarrier = 0 ∧ (s .left).rpc.outgoingRequests.entries = [] ∧
      (s .left).rpc.history = [.requested (nthId 0) greeting, .completed (nthId 0),
        .queued (nthId 0) PONG] ∧
      (s .left).sub.map Sent.message = [(Packet.request [⟨nthId 0, greeting⟩]).message .standIn,
        (Packet.acknowledge (nthId 0) ACK_OK).message .standIn] ∧
      (s .right).rpc.flaky = false ∧ (s .right).rpc.incomingRequests.entries = [] ∧
      (s .right).rpc.outgoingReplies.entries = [] ∧
      (s .right).rpc.processedRequests.keys = [nthId 0] ∧
      (s .right).rpc.history = [.accepted (nthId 0) greeting, .replied (nthId 0) PONG] := by
  decide +kernel

theorem crowded_one : ∃ es s, (exchange .standIn).Run es s ∧ Crowded 1 s := by
  obtain ⟨s, hs, hbar, hout, hleft, hsub, hflaky, hin, hrep, hproc, hright⟩ := firstExchange_ends
  have hmem : ∀ message ∈ (s .left).sub.map Sent.message,
      ∃ m ∈ (s .left).sub, m.message = message := fun _ hm => List.mem_map.mp hm
  refine ⟨_, s, Pair.exec_run (fun _ => ⟨false, default, rfl⟩) hs, ?_⟩
  exact {
    barrier := hbar
    current := by simp [Rpc.FirstIsCurrent, hout]
    issued := by rw [hleft]; rfl
    requested := by simp [hleft]
    queued := by simp [hleft]
    request := hmem _ (by simp [hsub])
    acknowledge := hmem _ (by simp [hsub])
    steady := hflaky
    silent := by rw [hright]; rfl
    incoming := UnorderedMap.entries_eq_nil.mp hin _
    stored := UnorderedMap.entries_eq_nil.mp hrep _
    processed := by rw [hproc]; rfl }

/-- The cache has forgotten the first request. -/
theorem Crowded.forgotten {s : Pair} (h : Crowded (processedCapacity + 1) s) :
    nthId 0 ∉ (s .right).rpc.processedRequests.keys := by
  rw [h.processed, List.range_succ_eq_map, List.map_cons, List.reverse_cons,
    List.take_left' (by simp)]
  intro hmem
  simp only [List.map_map, List.mem_reverse, List.mem_map, List.mem_range,
    Function.comp_apply] at hmem
  obtain ⟨j, hj, heq⟩ := hmem
  have hcap : processedCapacity < 2 ^ 64 := by decide
  have := nthId_injective (by omega) (by omega) heq
  omega

/-- **A reply its requester never saw is erased.**  When `processedRequests` has forgotten the first
request, its duplicate is accepted and answered again, and the old acknowledgement erases the second
reply, although only the first one was ever queued. -/
theorem evicted_reply_erased : ∃ es s e s' id p q, (exchange .standIn).Run es s ∧
    (∀ x, FreshIds (s x).rpc.history) ∧ Pair.Step .standIn s e s' ∧
    (s .right).rpc.outgoingReplies.lookup id = some q ∧
    id ∉ (s' .right).rpc.outgoingReplies ∧ .requested id p ∈ (s .left).rpc.history ∧
    .queued id q ∉ (s .left).rpc.history := by
  obtain ⟨es₁, s₁, r₁, h₁⟩ := crowded_one
  have hcap : processedCapacity + 1 < 2 ^ 64 := by decide
  obtain ⟨es, s, r, h⟩ := h₁.reach r₁ (n := processedCapacity) (by omega)
  have hs := Pair.run_linked r
  have hclock : nthId 0 ∉ (s .right).rpc.clock.requestReceiveTimeMap := fun hmem =>
    (((hs.inv .right).consistent.receiveTime _).mp hmem).elim h.incoming h.stored
  -- the first request comes again and is answered again
  obtain ⟨w, hacc, hw⟩ := PlainRpc.receive_request_eq (L := .standIn) (p := greeting) h.steady
    h.incoming h.forgotten h.stored hclock (by decide)
  have r₂ := r.snoc (Pair.Step.deliver (x := .right) h.request hacc)
  obtain ⟨w', hrep, hw'⟩ := PlainRpc.reply_eq (L := .standIn) (s := w) (nthId 0) secondReply
    (by rw [hw]; exact (AList.mem_insert _).mpr (.inl rfl))
    (by rw [hw]; exact (AList.mem_insert _).mpr (.inl rfl))
  have r₃ := r₂.snoc (Pair.Step.call (x := .right) hrep)
  rw [hw] at hw'
  -- the old acknowledgement erases the second reply
  obtain ⟨w'', hack, hw''⟩ := PlainRpc.receive_acknowledge_eq (L := .standIn) (s := w')
    (nthId 0) ACK_OK (by rw [hw']; exact h.steady)
    (by rw [hw']; exact (AList.mem_insert _).mpr (.inl rfl))
    (by rw [hw']; exact (AList.mem_insert _).mpr (.inl rfl))
  refine ⟨_, _, _, _, nthId 0, greeting, secondReply, r₃, ?_,
    Pair.Step.deliver (x := .right) h.acknowledge hack, ?_, ?_, h.requested, ?_⟩
  · intro x
    cases x with
    | left => exact h.fresh hcap .left
    | right =>
        show FreshIds w'.rpc.history
        rw [hw', FreshIds, issuedIds, List.filterMap_append, List.filterMap_append,
          show List.filterMap _ _ = [] from h.silent]
        exact List.nodup_nil
  · show w'.rpc.outgoingReplies.lookup (nthId 0) = some secondReply
    rw [hw']
    exact AList.lookup_insert _
  · show nthId 0 ∉ w''.rpc.outgoingReplies
    rw [hw'']
    exact fun hmem => (AList.mem_erase.mp hmem).1 rfl
  · intro hq
    have heq := h.queued _ hq
    exact absurd heq (by decide)

end Wga
