import WeGoAll.Rpc.Tables

/-!
# Rpc — Paths

The methods of `BiDirectionalRpc` are paths: where a method returns, it moved the endpoint from the
phase it starts in to the phase it ends in, sending only what may be sent.  The virtual methods a
method calls are assumed to be paths themselves.

* `tryToSendBarrier_path`: the delayed requests of the lowest barrier go out, and the barrier order
  is restored.
* `handleRequest_path`, `handleReply_path`: the entries of a packet.
* `handlePacket_path`: a packet.
* `Call.run_path`: the calls of an application.
-/

namespace Wga

variable {τ : Type} {L : Libraries} {R : Rights} {Q : Phase → Rpc → τ → τ → Prop}

namespace BiDirectionalRpc

/-- The least barrier of a list, as the first loop of `tryToSendBarrier` finds it. -/
theorem foldl_min_le (l : List (Σ _ : RpcId, Bytes)) (b : Int64) :
    l.foldl (fun b it => min b it.1.barrier) b ≤ b ∧
    ∀ e ∈ l, l.foldl (fun b it => min b it.1.barrier) b ≤ e.1.barrier := by
  induction l generalizing b with
  | nil => exact ⟨Int64.le_refl b, by simp⟩
  | cons a l ih =>
      obtain ⟨h₁, h₂⟩ := ih (min b a.1.barrier)
      refine ⟨Int64.le_trans h₁ Std.min_le_left, fun e he => ?_⟩
      rcases List.mem_cons.mp he with rfl | he
      · exact Int64.le_trans h₁ Std.min_le_right
      · exact h₂ e he

theorem foldl_min_attained (l : List (Σ _ : RpcId, Bytes)) (b : Int64) :
    l.foldl (fun b it => min b it.1.barrier) b = b ∨
    ∃ e ∈ l, e.1.barrier = l.foldl (fun b it => min b it.1.barrier) b := by
  induction l generalizing b with
  | nil => exact .inl rfl
  | cons a l ih =>
      rcases ih (min b a.1.barrier) with h | ⟨e, he, h⟩
      · rcases Std.min_eq_or (a := b) (b := a.1.barrier) with hm | hm
        · exact .inl (h.trans hm)
        · exact .inr ⟨a, List.mem_cons_self, (h.trans hm).symm⟩
      · exact .inr ⟨e, List.mem_cons_of_mem _ he, h⟩

/-- What the loop over the delayed requests does to the tables. -/
structure Released (b : Int64) (l : List (Σ _ : RpcId, Bytes)) (r r' : Rpc) : Prop where
  barrier : ∀ a ∈ r'.outgoingRequests, a.barrier = b
  sent : ∀ e ∈ l, e.1.barrier = b → e.1 ∈ r'.outgoingRequests
  kept : ∀ a ∈ r.outgoingRequests, a ∈ r'.outgoingRequests
  left : ∀ d ∈ r'.delayedRequests, d ∈ r.delayedRequests
  gone : ∀ e ∈ l, e.1.barrier = b → e.1 ∉ r'.delayedRequests
  rest : ∃ o d c, r' = { r with outgoingRequests := o, delayedRequests := d, clock := c }

/-- A request with another barrier stays where it is. -/
theorem Released.skip {b : Int64} {e : Σ _ : RpcId, Bytes} {l : List (Σ _ : RpcId, Bytes)}
    {r r' : Rpc} (hb : e.1.barrier ≠ b) (h : Released b l r r') : Released b (e :: l) r r' where
  barrier := h.barrier
  sent e he hbe := by
    rcases List.mem_cons.mp he with rfl | he
    · exact absurd hbe hb
    · exact h.sent e he hbe
  kept := h.kept
  left := h.left
  gone e he hbe := by
    rcases List.mem_cons.mp he with rfl | he
    · exact absurd hbe hb
    · exact h.gone e he hbe
  rest := h.rest

/-- A request of the barrier is in flight and no longer delayed. -/
theorem Released.cons {b : Int64} {id : RpcId} {p : Bytes} {clock : ClockSynchronizer}
    {l : List (Σ _ : RpcId, Bytes)} {r r' : Rpc}
    (h : Released b l { r with
      outgoingRequests := r.outgoingRequests.insert id p
      delayedRequests := r.delayedRequests.erase id
      clock := clock } r') : Released b (⟨id, p⟩ :: l) r r' where
  barrier := h.barrier
  sent e he hbe := by
    rcases List.mem_cons.mp he with rfl | he
    · exact h.kept _ ((AList.mem_insert _).mpr (.inl rfl))
    · exact h.sent e he hbe
  kept a ha := h.kept a ((AList.mem_insert _).mpr (.inr ha))
  left d hd := (AList.mem_erase.mp (h.left d hd)).2
  gone e he hbe hd := by
    rcases List.mem_cons.mp he with rfl | he
    · exact (AList.mem_erase.mp (h.left _ hd)).1 rfl
    · exact h.gone e he hbe hd
  rest := h.rest

/-! ### Sending -/

/-- A step that leaves the tables alone is a path. -/
theorem path_of_rpc_eq {ph : Phase} {s s' : Self τ} (hr : s'.rpc = s.rpc)
    (hq : Q ph s.rpc s.sub s'.sub) : Path L R Q (s.at ph) (s'.at ph) := by
  unfold Self.at
  rw [hr]
  exact .quiet hq

section Sending

variable {send : Bytes → Self τ → Except Fault (Self τ)} (hsend : SendsWithin L R Q send)

include hsend

/-- A packet that may be sent changes no table. -/
theorem send_path {ph : Phase} {p : Packet} (s : Self τ) {s' : Self τ} (hp : Sends R ph s.rpc p)
    (h : send (p.message L) s = .ok s') :
    s'.rpc = s.rpc ∧ Path L R Q (s.at ph) (s'.at ph) := by
  obtain ⟨hr, hq⟩ := hsend ph p s s' hp h
  exact ⟨hr, path_of_rpc_eq hr hq⟩

/-- A request that is in flight may be sent. -/
theorem sendRequest_within (ph : Phase) {id : RpcId} {p : Bytes} {batch : Bool} {s s' : Self τ}
    (hid : s.rpc.outgoingRequests.lookup id = some p)
    (h : sendRequest L send id p batch s = .ok s') :
    s'.rpc = s.rpc ∧ Q ph s.rpc s.sub s'.sub := by
  obtain ⟨es, env, hes, he⟩ := sendRequest_eq L send id p batch s
  rw [he] at h
  have hp : Sends R ph s.rpc (.request (⟨id, p⟩ :: es)) := by
    intro e hm
    rcases List.mem_cons.mp hm with rfl | hm
    · exact hid
    · exact AList.mem_lookup_iff.mpr (hes e hm)
  exact hsend ph _ { s with env := env } s' hp h

theorem sendRequest_path (ph : Phase) {id : RpcId} {p : Bytes} {batch : Bool} {s s' : Self τ}
    (hid : s.rpc.outgoingRequests.lookup id = some p)
    (h : sendRequest L send id p batch s = .ok s') :
    s'.rpc = s.rpc ∧ Path L R Q (s.at ph) (s'.at ph) := by
  obtain ⟨hr, hq⟩ := sendRequest_within hsend ph hid h
  exact ⟨hr, path_of_rpc_eq hr hq⟩

/-- A reply that is stored may be sent. -/
theorem sendReply_within (ph : Phase) {id : RpcId} {p : Bytes} {batch : Bool} {s s' : Self τ}
    (hid : s.rpc.outgoingReplies.lookup id = some p)
    (h : sendReply L send id p batch s = .ok s') :
    s'.rpc = s.rpc ∧ Q ph s.rpc s.sub s'.sub := by
  obtain ⟨e₀, es, env, hid₀, hp₀, hes, h⟩ := sendReply_ok h
  have hp : Sends R ph s.rpc (.reply (e₀ :: es)) := by
    intro e hm
    rcases List.mem_cons.mp hm with rfl | hm
    · rw [hid₀, hp₀]
      exact hid
    · exact AList.mem_lookup_iff.mpr (hes e hm)
  exact hsend ph _ { s with env := env } s' hp h

theorem sendReply_path (ph : Phase) {id : RpcId} {p : Bytes} {batch : Bool} {s s' : Self τ}
    (hid : s.rpc.outgoingReplies.lookup id = some p)
    (h : sendReply L send id p batch s = .ok s') :
    s'.rpc = s.rpc ∧ Path L R Q (s.at ph) (s'.at ph) := by
  obtain ⟨hr, hq⟩ := sendReply_within hsend ph hid h
  exact ⟨hr, path_of_rpc_eq hr hq⟩

theorem sendAcknowledge_path {ph : Phase} {uid : RpcId} {s s' : Self τ}
    (huid : Sends R ph s.rpc (.acknowledge uid ACK_OK))
    (h : sendAcknowledge L send uid s = .ok s') :
    s'.rpc = s.rpc ∧ Path L R Q (s.at ph) (s'.at ph) :=
  send_path hsend s huid h

/-- What is sent again is stored: nothing moves. -/
theorem resend_path {s s' : Self τ} (h : resendRandomOutgoingMessage L send s = .ok s') :
    Path L R Q (s.at .idle) (s'.at .idle) := by
  simp only [resendRandomOutgoingMessage, draw, Self.rand] at h
  split at h
  · split at h
    · rename_i heq
      obtain ⟨hget, rfl⟩ := Prod.mk.inj heq
      have hmem := AList.mem_lookup_iff.mpr (List.mem_of_getElem? hget)
      refine ((sendReply_path hsend .idle ?_ h).2 :)
      exact hmem
    · rename_i heq
      obtain ⟨-, rfl⟩ := Prod.mk.inj heq
      cases h
      exact .refl _
  · split at h
    · split at h
      · rename_i heq
        obtain ⟨hget, rfl⟩ := Prod.mk.inj heq
        have hmem := AList.mem_lookup_iff.mpr (List.mem_of_getElem? hget)
        refine ((sendRequest_path hsend .idle ?_ h).2 :)
        exact hmem
      · rename_i heq
        obtain ⟨-, rfl⟩ := Prod.mk.inj heq
        cases h
        exact .refl _
    · cases h
      exact .refl _

/-- A request goes out by a move that puts it among those in flight. -/
theorem sendNow_path (ph ph' : Phase) {id : RpcId} {p : Bytes} {s s' : Self τ}
    (hmove : ∀ now clock, s.rpc.clock.createRequest id now = .ok clock →
      Move L R ph s.rpc ph' { s.rpc with
        outgoingRequests := s.rpc.outgoingRequests.insert id p, clock := clock })
    (h : sendNow L send id p s = .ok s') :
    Path L R Q (s.at ph) (s'.at ph') ∧ ∃ clock, s'.rpc = { s.rpc with
      outgoingRequests := s.rpc.outgoingRequests.insert id p, clock := clock } := by
  simp only [sendNow, Self.now, bind_ok] at h
  obtain ⟨clock, hc, h⟩ := h
  have hlookup : (s.rpc.outgoingRequests.insert id p).lookup id = some p := AList.lookup_insert _
  obtain ⟨hr, hpath⟩ := sendRequest_path hsend ph' (by exact hlookup) h
  exact ⟨.trans (.move (hmove _ _ hc)) hpath, clock, hr⟩

/-- A request is sent or delayed, and the call is over. -/
theorem requestWithId_path {id : RpcId} {p p' : Bytes} {s s' : Self τ} (hp : R.rewrites p p')
    (h : requestWithId L send ⟨id, p'⟩ s = .ok s') :
    Path L R Q (s.at (.issuing id p)) (s'.at .idle) := by
  simp only [requestWithId] at h
  split at h
  · rename_i hnil
    refine (sendNow_path hsend _ _ (fun now clock hc => .start hp ?_ hc) h).1
    intro e he
    rw [hnil] at he
    cases he
  · rename_i first payload rest hcons
    have hhead : ∀ e ∈ s.rpc.outgoingRequests.entries.head?, e = ⟨first, payload⟩ := by
      intro e he
      rw [hcons] at he
      exact (Option.some.inj he).symm
    split at h
    · rename_i hb
      refine (sendNow_path hsend _ _ (fun now clock hc => .start hp ?_ hc) h).1
      intro e he
      rw [hhead e he]
      exact hb
    · rename_i hb
      cases h
      exact .move (.delay hp ⟨⟨first, payload⟩, by rw [hcons]; rfl, hb⟩)

/-! ### Delayed requests -/

/-- Every delayed request with the least barrier is sent. -/
theorem releaseBarrier_path {c : RpcId} {b : Int64} {l : List (Σ _ : RpcId, Bytes)}
    {s s' : Self τ} (hnd : (l.map Sigma.fst).Nodup)
    (hl : ∀ e ∈ l, s.rpc.delayedRequests.lookup e.1 = some e.2)
    (hout : ∀ a ∈ s.rpc.outgoingRequests, a.barrier = b)
    (hmin : ∀ d ∈ s.rpc.delayedRequests, b ≤ d.barrier)
    (h : releaseBarrier L send b l s = .ok s') :
    Path L R Q (s.at (.completing c)) (s'.at (.completing c)) ∧ Released b l s.rpc s'.rpc := by
  induction l generalizing s with
  | nil =>
      cases h
      exact ⟨.refl _, hout, by simp, fun _ ha => ha, fun _ hd => hd, by simp, _, _, _, rfl⟩
  | cons e l ih =>
      obtain ⟨id, p⟩ := e
      obtain ⟨hid, hnd⟩ := List.nodup_cons.mp hnd
      rw [releaseBarrier] at h
      split at h
      · rename_i hb
        obtain ⟨s₁, h₁, h⟩ := bind_ok.mp h
        have hlook := hl ⟨id, p⟩ List.mem_cons_self
        obtain ⟨hpath₁, clock, hr₁⟩ := sendNow_path hsend (.completing c) (.completing c)
          (fun now clock hc => .release hlook (hb ▸ hout) (hb ▸ hmin) hc) h₁
        have hmem : id ∈ s₁.rpc.outgoingRequests := by
          rw [hr₁]
          exact (AList.mem_insert _).mpr (.inl rfl)
        have hpath₂ : Path L R Q (s₁.at (.completing c)) (Self.at
            { s₁ with rpc.delayedRequests := s₁.rpc.delayedRequests.erase id }
            (.completing c)) := .move (.unqueue hmem)
        have hlook' : ∀ e ∈ l, (s₁.rpc.delayedRequests.erase id).lookup e.1 = some e.2 := by
          intro e he
          have hne : e.1 ≠ id := fun heq => hid (List.mem_map.mpr ⟨e, he, heq⟩)
          rw [AList.lookup_erase_ne hne, hr₁]
          exact hl e (List.mem_cons_of_mem _ he)
        have hout' : ∀ a ∈ s₁.rpc.outgoingRequests, a.barrier = b := by
          intro a ha
          rw [hr₁] at ha
          rcases (AList.mem_insert _).mp ha with rfl | ha
          · exact hb
          · exact hout a ha
        have hmin' : ∀ d ∈ s₁.rpc.delayedRequests.erase id, b ≤ d.barrier := by
          intro d hd
          have hd' := (AList.mem_erase.mp hd).2
          rw [hr₁] at hd'
          exact hmin d hd'
        obtain ⟨hpath, hrel⟩ := ih (s := { s₁ with
          rpc.delayedRequests := s₁.rpc.delayedRequests.erase id }) hnd hlook' hout' hmin' h
        rw [hr₁] at hrel
        exact ⟨(hpath₁.trans hpath₂).trans hpath, hrel.cons⟩
      · rename_i hb
        obtain ⟨hpath, hrel⟩ := ih hnd (fun e he => hl e (List.mem_cons_of_mem _ he)) hout hmin h
        exact ⟨hpath, hrel.skip hb⟩

/-- **The delayed requests of the lowest barrier go out**, and the barrier order is restored. -/
theorem tryToSendBarrier_path {c : RpcId} {s s' : Self τ}
    (hc : s.rpc.Consistent (.completing c))
    (hord : s.rpc.outgoingRequests.entries ≠ [] → s.rpc.BarrierOrdered)
    (h : tryToSendBarrier L send s = .ok s') :
    Path L R Q (s.at (.completing c)) (s'.at (.completing c)) ∧ s'.rpc.BarrierOrdered ∧
      ∃ o d k, s'.rpc = { s.rpc with
        outgoingRequests := o, delayedRequests := d, clock := k } := by
  simp only [tryToSendBarrier] at h
  split at h
  · rename_i hnil
    cases h
    refine ⟨.refl _, ?_, _, _, _, rfl⟩
    have hnone := UnorderedMap.entries_eq_nil.mp hnil
    exact ⟨hc.same, fun a _ d hd => absurd hd (hnone d), hc.outgoing_le, hc.delayed_le,
      fun _ => hnil⟩
  · rename_i first payload rest hcons
    split at h
    · rename_i hout
      have hnone := UnorderedMap.entries_eq_nil.mp hout
      obtain ⟨hle₁, hle₂⟩ := foldl_min_le rest first.barrier
      have hall : ∀ d, d ∈ s.rpc.delayedRequests ↔
          ∃ e ∈ (⟨first, payload⟩ :: rest : List (Σ _ : RpcId, Bytes)), e.1 = d := by
        intro d
        rw [AList.mem_keys, AList.keys, List.keys, hcons, List.mem_map]
      have hmin : ∀ d ∈ s.rpc.delayedRequests,
          rest.foldl (fun b it => min b it.1.barrier) first.barrier ≤ d.barrier := by
        intro d hd
        obtain ⟨e, he, rfl⟩ := (hall d).mp hd
        rcases List.mem_cons.mp he with rfl | he
        · exact hle₁
        · exact hle₂ e he
      have hnd : ((⟨first, payload⟩ :: rest : List (Σ _ : RpcId, Bytes)).map Sigma.fst).Nodup :=
        hcons ▸ s.rpc.delayedRequests.nodupKeys
      obtain ⟨hpath, hrel⟩ := releaseBarrier_path hsend (c := c) hnd
        (fun e he => AList.mem_lookup_iff.mpr (hcons ▸ he))
        (fun a ha => absurd ha (hnone a)) hmin h
      have hc' : s'.rpc.Consistent (.completing c) := hpath.consistent hc
      refine ⟨hpath, ⟨hc'.same, fun a ha d hd => ?_, hc'.outgoing_le, hc'.delayed_le,
        fun hnil => ?_⟩, hrel.rest⟩
      · have hd₀ := hrel.left d hd
        rw [hrel.barrier a ha]
        refine Int64.lt_of_le_of_ne (hmin d hd₀) fun heq => ?_
        obtain ⟨e, he, rfl⟩ := (hall d).mp hd₀
        exact hrel.gone e he heq.symm hd
      · have hnone' := UnorderedMap.entries_eq_nil.mp hnil
        rcases foldl_min_attained rest first.barrier with heq | ⟨e, he, heq⟩
        · exact absurd (hrel.sent _ List.mem_cons_self heq.symm) (hnone' _)
        · exact absurd (hrel.sent e (List.mem_cons_of_mem _ he) heq) (hnone' _)
    · rename_i hout
      cases h
      exact ⟨.refl _, hord hout, _, _, _, rfl⟩

/-! ### Requests of the other side -/

theorem reply_path {id : RpcId} {p : Bytes} {s s' : Self τ} (hmay : R.may s.rpc (.replied id p))
    (h : reply L send id p s = .ok s') : Path L R Q (s.at .idle) (s'.at .idle) := by
  simp only [reply] at h
  split at h
  · rename_i hin
    have hlookup : (s.rpc.outgoingReplies.insert id p).lookup id = some p := AList.lookup_insert _
    have hpath := (sendReply_path hsend .idle (by exact hlookup) h).2
    exact .trans (.move (.answer hmay hin)) hpath
  · cases h

end Sending

/-- What a reply that returns does to the tables. -/
theorem reply_rpc {send : Bytes → Self τ → Except Fault (Self τ)}
    (hsend : SendsWithin L R Q send) {id : RpcId} {p : Bytes} {s s' : Self τ}
    (h : reply L send id p s = .ok s') : s'.rpc = { s.rpc with
      incomingRequests := s.rpc.incomingRequests.erase id
      processedRequests := s.rpc.processedRequests.put L.toLruPolicy processedCapacity id
      outgoingReplies := s.rpc.outgoingReplies.insert id p
      history := s.rpc.history ++ [.replied id p] } := by
  simp only [reply] at h
  split at h
  · have hlookup : (s.rpc.outgoingReplies.insert id p).lookup id = some p := AList.lookup_insert _
    exact (sendReply_path hsend .idle (by exact hlookup) h).1
  · cases h

/-- What it sends it may send when the reply is stored. -/
theorem reply_within {send : Bytes → Self τ → Except Fault (Self τ)}
    (hsend : SendsWithin L R Q send) {id : RpcId} {p : Bytes} {s s' : Self τ}
    (h : reply L send id p s = .ok s') : Q .idle s'.rpc s.sub s'.sub := by
  rw [reply_rpc hsend h]
  simp only [reply] at h
  split at h
  · have hlookup : (s.rpc.outgoingReplies.insert id p).lookup id = some p := AList.lookup_insert _
    exact (sendReply_within hsend .idle (by exact hlookup) h).2
  · cases h

/-- A request issued while none is in flight goes out at once. -/
theorem requestWithId_first {send : Bytes → Self τ → Except Fault (Self τ)}
    (hsend : SendsWithin L R Q send) {id : RpcId} {p : Bytes} {s s' : Self τ}
    (hnone : s.rpc.outgoingRequests.entries = [])
    (h : requestWithId L send ⟨id, p⟩ s = .ok s') :
    (∃ clock, s'.rpc = { s.rpc with
      outgoingRequests := s.rpc.outgoingRequests.insert id p, clock := clock }) ∧
      Q .idle s'.rpc s.sub s'.sub := by
  simp only [requestWithId, hnone, sendNow, Self.now, bind_ok] at h
  obtain ⟨clock, -, h⟩ := h
  have hlookup : (s.rpc.outgoingRequests.insert id p).lookup id = some p := AList.lookup_insert _
  obtain ⟨hr, hq⟩ := sendRequest_within hsend .idle (by exact hlookup) h
  rw [hr]
  exact ⟨⟨clock, rfl⟩, hq⟩

theorem reply_replied {send : Bytes → Self τ → Except Fault (Self τ)}
    (hsend : SendsWithin L R Q send) {id : RpcId} {p : Bytes} {s s' : Self τ}
    (h : reply L send id p s = .ok s') : .replied id p ∈ s'.rpc.history := by
  rw [reply_rpc hsend h]
  exact List.mem_append_right _ (List.mem_singleton.mpr rfl)

/-- A request that may be accepted is accepted. -/
theorem addIncomingRequest_path {id : RpcId} {p : Bytes} {s s' : Self τ}
    (hmay : R.may s.rpc (.accepted id p)) (hin : id ∉ s.rpc.incomingRequests)
    (hproc : id ∉ s.rpc.processedRequests.keys) (hout : id ∉ s.rpc.outgoingReplies)
    (h : addIncomingRequest ⟨id, p⟩ s = .ok s') : Path L R Q (s.at .idle) (s'.at .idle) := by
  simp only [addIncomingRequest, Self.now, bind_ok] at h
  obtain ⟨clock, hc, h⟩ := h
  cases h
  have hm : Move L R .idle s.rpc .idle { s.rpc.record (.accepted id p) with
      clock := clock, incomingRequests := s.rpc.incomingRequests.insert id p } :=
    .accept hmay hin hproc hout hc
  rw [← UnorderedMap.emplace_eq_insert hin] at hm
  exact .move hm

theorem shutdown_path (s : Self τ) : Path L R Q (s.at .idle) ((shutdown s).at .idle) :=
  .move .close

/-- The reply `handleRequest` gives by itself. -/
inductive Control : Bytes → Bytes → Prop where
  | ping : Control PING PONG
  | shutdown : Control SHUTDOWN SHUTDOWN_REPLY

/-- **An entry of a `REQUEST` packet**: it is known, or its reply is sent again, or it is accepted
and perhaps answered at once. -/
theorem handleRequest_path {send : Bytes → Self τ → Except Fault (Self τ)}
    (hsend : SendsWithin L R Q send) {add : IdPayload → Self τ → Except Fault (Self τ)}
    {rep : RpcId → Bytes → Self τ → Except Fault (Self τ)} {id : RpcId} {p : Bytes}
    {s s' : Self τ}
    (hadd : ∀ s', id ∉ s.rpc.incomingRequests → id ∉ s.rpc.processedRequests.keys →
      id ∉ s.rpc.outgoingReplies → add ⟨id, p⟩ s = .ok s' →
      Path L R Q (s.at .idle) (s'.at .idle))
    (hrep : ∀ s₁ s₂ text q, Path L R Q (s.at .idle) (s₁.at .idle) →
      s₁.rpc.incomingRequests.lookup id = some text → Control text q → rep id q s₁ = .ok s₂ →
      Path L R Q (s₁.at .idle) (s₂.at .idle))
    (h : handleRequest L send add rep id p s = .ok s') :
    Path L R Q (s.at .idle) (s'.at .idle) := by
  simp only [handleRequest] at h
  split at h
  · cases h
    exact .refl _
  · rename_i hnew
    rw [LruCache.contains_iff, not_or] at hnew
    split at h
    · rename_i stored hstored
      exact (sendReply_path hsend .idle hstored h).2
    · rename_i hnone
      have hout : id ∉ s.rpc.outgoingReplies := fun hm => by
        have := AList.lookup_isSome.mpr hm
        rw [hnone] at this
        cases this
      obtain ⟨s₁, h₁, h⟩ := bind_ok.mp h
      have hpath := hadd s₁ hnew.1 hnew.2 hout h₁
      refine hpath.trans ?_
      split at h
      · rename_i text htext
        split at h
        · rename_i hping
          exact hrep _ _ _ _ hpath htext (hping ▸ .ping) h
        · split at h
          · rename_i hshut
            have hshutdown := shutdown_path (L := L) (R := R) (Q := Q) s₁
            exact hshutdown.trans
              (hrep (shutdown s₁) _ _ _ (hpath.trans hshutdown) htext (hshut ▸ .shutdown) h)
          · cases h
            exact .refl _
      · cases h
        exact .refl _

/-! ### Replies to this side -/

/-- A reply that may be queued is queued. -/
theorem addIncomingReply_path {id : RpcId} {p : Bytes} {s s' : Self τ}
    (hmay : R.may s.rpc (.queued id p)) (hord : s.rpc.BarrierOrdered)
    (hone : id ∉ s.rpc.oneWayRequests) (h : addIncomingReply id p s = .ok s') :
    Path L R Q (s.at (.completing id)) (s'.at (.settled id)) := by
  cases h
  exact .move (.queue hmay hord hone)

/-- **An entry of a `REPLY` packet**: it is acknowledged, and if it is the first answer its request
is completed, delayed requests go out and the reply is disposed of before that. -/
theorem handleReply_path {send : Bytes → Self τ → Except Fault (Self τ)}
    (hsend : SendsWithin L R Q send) {ack : RpcId → Self τ → Except Fault (Self τ)}
    {add : RpcId → Bytes → Self τ → Except Fault (Self τ)} {id : RpcId} {p : Bytes} {t₁ t₂ : Int}
    {s s' : Self τ} (hmay : R.may s.rpc (.completed id)) (hc : s.rpc.Consistent .idle)
    (hack : ∀ ph s s', Sends R ph s.rpc (.acknowledge id ACK_OK) → ack id s = .ok s' →
      s'.rpc = s.rpc ∧ Path L R Q (s.at ph) (s'.at ph))
    (hadd : ∀ s₁ s₂, Path L R Q (s.at .idle) (s₁.at (.completing id)) →
      s₁.rpc.BarrierOrdered → id ∉ s₁.rpc.oneWayRequests → add id p s₁ = .ok s₂ →
      Path L R Q (s₁.at (.completing id)) (s₂.at (.settled id)))
    (h : handleReply L send ack add id p t₁ t₂ s = .ok s') :
    Path L R Q (s.at .idle) (s'.at .idle) := by
  simp only [handleReply] at h
  split at h
  · rename_i hknown
    rw [LruCache.contains_iff] at hknown
    refine (hack .idle s s' (.inr ⟨rfl, hmay, ?_⟩) h).2
    exact hknown.imp_right .inl
  · rename_i hnew
    rw [LruCache.contains_iff, not_or] at hnew
    split at h
    · rename_i hout
      obtain ⟨s₂, h₂, h⟩ := bind_ok.mp h
      have hm : Move L R .idle s.rpc (.completing id) { s.rpc.record (.completed id) with
          outgoingRequests := s.rpc.outgoingRequests.erase id } :=
        .complete hmay hout hnew.1 hnew.2
      have hc₁ := hm.consistent hc
      have hord := hc.ordered (by simp)
      have hord₁ : (s.rpc.outgoingRequests.erase id).entries ≠ [] →
          BarrierOrder (s.rpc.outgoingRequests.erase id) s.rpc.delayedRequests s.rpc.onBarrier :=
        fun hne => ⟨hc₁.same, fun a ha => hord.lt_delayed a (AList.mem_erase.mp ha).2,
          hc₁.outgoing_le, hc₁.delayed_le, fun hnil => absurd hnil hne⟩
      have htry := fun hc hord => tryToSendBarrier_path hsend (c := id) hc hord h₂
      obtain ⟨hpath, hord₂, -⟩ := htry hc₁ hord₁
      have hpath₁ : Path L R Q (s.at .idle) (s₂.at (.completing id)) := .trans (.move hm) hpath
      -- the acknowledgement and the clock, once the reply is disposed of
      have rest : ∀ s₃ : Self τ, Path L R Q (s₂.at (.completing id)) (s₃.at (.settled id)) →
          (ack id s₃ >>= fun self => do
            let clock ← self.now.2.rpc.clock.handleReply id t₁ t₂ self.now.1
            Except.ok { self.now.2 with rpc.clock := clock }) = .ok s' →
          Path L R Q (s.at .idle) (s'.at .idle) := by
        intro s₃ hp₃ h₃
        simp only [bind_ok, Self.now] at h₃
        obtain ⟨s₄, h₄, clock, hclock, h₅⟩ := h₃
        cases h₅
        obtain ⟨-, hp₄⟩ := hack (.settled id) s₃ s₄ (.inl rfl) h₄
        exact ((hpath₁.trans hp₃).trans hp₄).trans (.move (.stopClock hclock))
      split at h
      · rename_i hone
        rw [ok_bind] at h
        refine rest _ ?_ h
        exact .move (.forget hord₂ hone)
      · rename_i hone
        obtain ⟨s₃, h₃, h⟩ := bind_ok.mp h
        exact rest s₃ (hadd s₂ s₃ hpath₁ hord₂ hone h₃) h
    · rename_i hout
      exact (hack .idle s s' (.inr ⟨rfl, hmay, .inr (.inr hout)⟩) h).2

/-- An acknowledgement discards the reply. -/
theorem handleAcknowledge_path {uid : RpcId} {s s' : Self τ} (hmay : R.discards uid)
    (h : handleAcknowledge uid s = .ok s') : Path L R Q (s.at .idle) (s'.at .idle) := by
  simp only [handleAcknowledge] at h
  split at h
  · rename_i hout
    obtain ⟨clock, hc, h⟩ := bind_ok.mp h
    cases h
    exact .move (.discard hmay hout hc)
  · cases h
    exact .refl _

/-! ### The application's side -/

theorem getFirstIncomingReply_path {s s' : Self τ} (hmay : ∀ id p, R.may s.rpc (.handed id p))
    (h : getFirstIncomingReply L s = .ok s') : Path L R Q (s.at .idle) (s'.at .idle) := by
  simp only [getFirstIncomingReply] at h
  split at h
  · cases h
  · rename_i id p rest hcons
    cases h
    refine .move (.take (hmay id p) (AList.mem_lookup_iff.mpr ?_))
    rw [hcons]
    exact List.mem_cons_self

theorem consumeIncomingReplyWithId_path {id : RpcId} {s s' : Self τ}
    (hmay : ∀ id p, R.may s.rpc (.handed id p))
    (h : consumeIncomingReplyWithId L id s = .ok s') :
    Path L R Q (s.at .idle) (s'.at .idle) := by
  simp only [consumeIncomingReplyWithId] at h
  split at h
  · cases h
  · rename_i p hp
    cases h
    exact .move (.take (hmay id p) hp)

theorem barrier_path {s s' : Self τ} (h : barrier s = .ok s') :
    Path L R Q (s.at .idle) (s'.at .idle) := by
  simp only [barrier] at h
  split at h
  · cases h
  · rename_i hmax
    cases h
    exact .move (.advance hmax)

@[simp] theorem flake_at (s : Self τ) (ph : Phase) : (flake s).2.at ph = s.at ph := by
  simp only [flake]
  split <;> rfl

/-! ### Packets and calls -/

/-- **A packet is a path**, when its entries are. -/
theorem handlePacket_path {V : Virtuals τ} {p : Packet} {s s' : Self τ}
    (hreq : ∀ es e, p = .request es → e ∈ es → ∀ s s', s.rpc.Consistent .idle →
      handleRequest L V.send V.addIncomingRequest V.reply e.id e.payload s = .ok s' →
      Path L R Q (s.at .idle) (s'.at .idle))
    (hrep : ∀ es e, p = .reply es → e ∈ es → ∀ t₁ t₂ s s', s.rpc.Consistent .idle →
      V.handleReply e.id e.payload t₁ t₂ s = .ok s' → Path L R Q (s.at .idle) (s'.at .idle))
    (hack : ∀ uid q, p = .acknowledge uid q → R.discards uid) (hc : s.rpc.Consistent .idle)
    (h : handlePacket L V p s = .ok s') : Path L R Q (s.at .idle) (s'.at .idle) := by
  cases p with
  | request es =>
      refine foldlM_invariant (I := fun s₁ => Path L R Q (s.at .idle) (s₁.at .idle))
        (fun s₁ e s₂ he hpath h₂ => ?_) (.refl _) h
      exact hpath.trans (hreq es e rfl he s₁ s₂ (hpath.consistent hc) h₂)
  | reply es =>
      refine foldlM_invariant (I := fun s₁ => Path L R Q (s.at .idle) (s₁.at .idle))
        (fun s₁ e s₂ he hpath h₂ => ?_) (.refl _) h
      exact hpath.trans (hrep es e rfl he _ _ s₁ s₂ (hpath.consistent hc) h₂)
  | acknowledge uid q => exact handleAcknowledge_path (hack uid q rfl) h

end BiDirectionalRpc

/-- The events a call may record. -/
def Call.may : Call → Event → Prop
  | .request _ p, e => ∃ id, e = .requested id p
  | .requestOneWay _ p, e => ∃ id, e = .requestedOneWay id p
  | .reply id p, e => e = .replied id p
  | .getFirstIncomingReply, e => ∃ id p, e = .handed id p
  | .consumeIncomingReplyWithId _, e => ∃ id p, e = .handed id p
  | .heartbeat _, e => ∃ id, e = .requestedOneWay id PING
  | .sendShutdown _, e => ∃ id, e = .requestedOneWay id SHUTDOWN
  | .barrier, _ | .resendRandomOutgoingMessage, _ | .shutdown, _ => False

/-- The events a call on `s` records, a reply apart. -/
def Call.does (V : Virtuals τ) (s : Self τ) : Call → Event → Prop
  | .request uuid p, e => e = .requested ⟨s.rpc.onBarrier, uuid⟩ p
  | .requestOneWay uuid p, e => e = .requestedOneWay ⟨s.rpc.onBarrier, uuid⟩ p
  | .getFirstIncomingReply, e => ∃ id p, e = .handed id p
  | .consumeIncomingReplyWithId _, e => ∃ id p, e = .handed id p
  | .heartbeat uuid, e =>
      V.readyToSend s = true ∧ e = .requestedOneWay ⟨s.rpc.onBarrier, uuid⟩ PING
  | .sendShutdown uuid, e =>
      s.rpc.shuttingDown = false ∧ e = .requestedOneWay ⟨s.rpc.onBarrier, uuid⟩ SHUTDOWN
  | .reply _ _, _ | .barrier, _ | .resendRandomOutgoingMessage, _ | .shutdown, _ => False

theorem Call.may_of_does {V : Virtuals τ} {s : Self τ} {c : Call} {e : Event}
    (h : c.does V s e) : c.may e := by
  cases c with
  | request | requestOneWay => exact ⟨_, h⟩
  | getFirstIncomingReply | consumeIncomingReplyWithId => exact h
  | heartbeat | sendShutdown => exact ⟨_, h.2⟩
  | reply | barrier | resendRandomOutgoingMessage | shutdown => exact h.elim

section Calls

open BiDirectionalRpc

variable {V : Virtuals τ} {c : Call} {s s' : Self τ}

theorem requestOneWay_path {uuid : UInt64} {p : Bytes}
    (hmay : R.may s.rpc (.requestedOneWay ⟨s.rpc.onBarrier, uuid⟩ p))
    (hreq : ∀ id s₁ s', s₁.sub = s.sub → V.requestWithId ⟨id, p⟩ s₁ = .ok s' →
      Path L R Q (s₁.at (.issuing id p)) (s'.at .idle))
    (h : requestOneWay V uuid p s = .ok s') : Path L R Q (s.at .idle) (s'.at .idle) :=
  .trans (.move (.requestOneWay hmay rfl)) (hreq _ _ _ (by rfl) h)

/-- **A call is a path**, when the virtual methods it calls are where they are called. -/
theorem Call.run_path_from (hsend : SendsWithin L R Q V.send)
    (hmay : ∀ e, c.does V s e → R.may s.rpc e)
    (hreq : ∀ id p s₁ s', s₁.sub = s.sub → V.requestWithId ⟨id, p⟩ s₁ = .ok s' →
      Path L R Q (s₁.at (.issuing id p)) (s'.at .idle))
    (hrep : ∀ id p, c = .reply id p → V.reply id p s = .ok s' →
      Path L R Q (s.at .idle) (s'.at .idle))
    (h : c.run L V s = .ok s') : Path L R Q (s.at .idle) (s'.at .idle) := by
  cases c with
  | request uuid p => exact .trans (.move (.request (hmay _ rfl) rfl)) (hreq _ _ _ _ (by rfl) h)
  | requestOneWay uuid p => exact requestOneWay_path (hmay _ rfl) (fun id => hreq id p) h
  | reply id p => exact hrep id p rfl h
  | getFirstIncomingReply =>
      exact getFirstIncomingReply_path (fun id p => hmay _ ⟨id, p, rfl⟩) h
  | consumeIncomingReplyWithId id =>
      exact consumeIncomingReplyWithId_path (fun id p => hmay _ ⟨id, p, rfl⟩) h
  | barrier => exact barrier_path h
  | heartbeat uuid =>
      simp only [Call.run, BiDirectionalRpc.heartbeat] at h
      split at h
      · exact resend_path hsend h
      · split at h
        · rename_i hready
          exact requestOneWay_path (hmay _ ⟨hready.1, rfl⟩) (fun id => hreq id PING) h
        · cases h
          exact .refl _
  | resendRandomOutgoingMessage => exact resend_path hsend h
  | sendShutdown uuid =>
      simp only [Call.run, BiDirectionalRpc.sendShutdown] at h
      split at h
      · cases h
        exact .refl _
      · rename_i hopen
        exact requestOneWay_path (hmay _ ⟨by simpa using hopen, rfl⟩)
          (fun id => hreq id SHUTDOWN) h
  | shutdown =>
      cases h
      exact shutdown_path s

/-- A call is a path, when the virtual methods it calls are wherever they are called. -/
theorem Call.run_path (hsend : SendsWithin L R Q V.send)
    (hmay : ∀ e, c.does V s e → R.may s.rpc e)
    (hreq : ∀ id p s s', V.requestWithId ⟨id, p⟩ s = .ok s' →
      Path L R Q (s.at (.issuing id p)) (s'.at .idle))
    (hrep : ∀ id p, c = .reply id p → V.reply id p s = .ok s' →
      Path L R Q (s.at .idle) (s'.at .idle))
    (h : c.run L V s = .ok s') : Path L R Q (s.at .idle) (s'.at .idle) :=
  Call.run_path_from hsend hmay (fun id p s₁ s₂ _ => hreq id p s₁ s₂) hrep h

end Calls

end Wga
