import WeGoAll.Rpc.Paths

/-!
# Rpc — Progress

The methods of `BiDirectionalRpc` end.  On tables that fit together no time stamp is missing or in
the way, so a method fails only where a method it calls does.

* `tryToSendBarrier_ends`, `sendReply_ends`, `addIncomingRequest_ends`: the time stamps are there.
* `handleRequest_ends`, `handleReply_ends`: the entries of a packet end where the virtual methods
  do.
* `handleAcknowledge_ends`: an acknowledgement ends.
-/

namespace Wga

variable {τ : Type} {L : Libraries} {R : Rights} {Q : Phase → Rpc → τ → τ → Prop}

namespace ClockSynchronizer

variable {id : RpcId} {c : ClockSynchronizer}

/-- The clock takes the request it has no entry of. -/
theorem createRequest_ends {now : Int} (h : id ∉ c.requestSendTimeMap) :
    ∃ c', c.createRequest id now = .ok c' := ⟨_, if_neg h⟩

theorem receiveRequest_ends {now : Int} (h : id ∉ c.requestReceiveTimeMap) :
    ∃ c', c.receiveRequest id now = .ok c' := ⟨_, if_neg h⟩

theorem eraseRequestRecieveTime_ends (h : id ∈ c.requestReceiveTimeMap) :
    ∃ c', c.eraseRequestRecieveTime id = .ok c' := ⟨_, if_pos h⟩

/-- The clock knows how long ago it received a request it has an entry of. -/
theorem getReplyDuration_ends (now : Int) (h : id ∈ c.requestReceiveTimeMap) :
    ∃ t, c.getReplyDuration id now = .ok t := by
  obtain ⟨t, ht⟩ := Option.isSome_iff_exists.mp (AList.lookup_isSome.mpr h)
  exact ⟨(t, now), by rw [getReplyDuration, ht]⟩

theorem handleReply_ends {t₁ t₂ now : Int} (h : id ∈ c.requestSendTimeMap) :
    ∃ c', c.handleReply id t₁ t₂ now = .ok c' := by
  obtain ⟨t, ht⟩ := Option.isSome_iff_exists.mp (AList.lookup_isSome.mpr h)
  exact ⟨_, by rw [handleReply, ht]⟩

end ClockSynchronizer

namespace BiDirectionalRpc

/-- A reply is written for a request the clock has an entry of. -/
theorem writeReply_ends {id : RpcId} {p : Bytes} {s : Self τ}
    (h : id ∈ s.rpc.clock.requestReceiveTimeMap) : ∃ r, writeReply id p s = .ok r := by
  obtain ⟨t, ht⟩ := ClockSynchronizer.getReplyDuration_ends s.now.1 h
  exact ⟨_, by simp only [writeReply, Self.now]; exact bind_ok.mpr ⟨t, ht, rfl⟩⟩

/-- The loop that attaches replies ends when every entry of the table has its time stamp. -/
theorem attach_ends {table : List (Σ _ : RpcId, Bytes)} (fuel : Nat) (sent : List RpcId)
    (writer : List MsgObject) (s : Self τ)
    (h : ∀ e ∈ table, e.1 ∈ s.rpc.clock.requestReceiveTimeMap) :
    ∃ r, attach L table writeReply fuel sent writer s = .ok r := by
  induction fuel generalizing sent writer s with
  | zero => exact ⟨_, rfl⟩
  | succ fuel ih =>
      rw [attach]
      split
      · simp only [Self.rand]
        split
        · exact ⟨_, rfl⟩
        · rename_i id payload hget
          split
          · exact ⟨_, rfl⟩
          · split
            · exact ⟨_, rfl⟩
            · refine bind_ends (writeReply_ends (h _ (List.mem_of_getElem? hget)))
                fun r hr => ?_
              obtain ⟨e, env, -, -, rfl⟩ := writeReply_ok hr
              exact ih _ _ _ h
      · exact ⟨_, rfl⟩

section Sending

variable {send : Bytes → Self τ → Except Fault (Self τ)}
  (hends : ∀ m s, ∃ s', send m s = .ok s')

include hends

/-- A request is sent, whatever the tables hold. -/
theorem sendRequest_ends (id : RpcId) (p : Bytes) (batch : Bool) (s : Self τ) :
    ∃ s', sendRequest L send id p batch s = .ok s' := by
  obtain ⟨es, env, -, he⟩ := sendRequest_eq L send id p batch s
  rw [he]
  exact hends _ _

/-- A reply that is kept is sent. -/
theorem sendReply_ends {ph : Phase} {id : RpcId} {p : Bytes} {batch : Bool} {s : Self τ}
    (hc : s.rpc.Consistent ph) (hid : id ∈ s.rpc.outgoingReplies) :
    ∃ s', sendReply L send id p batch s = .ok s' := by
  have hstamp : ∀ a ∈ s.rpc.outgoingReplies, a ∈ s.rpc.clock.requestReceiveTimeMap :=
    fun a ha => (hc.receiveTime a).mpr (.inr ha)
  refine bind_ends (writeReply_ends (hstamp id hid)) fun r hr => ?_
  obtain ⟨e, env, -, -, rfl⟩ := writeReply_ok hr
  cases batch with
  | false => exact hends _ _
  | true =>
      refine bind_ends ?_ fun r _ => hends _ _
      refine attach_ends _ _ _ _ fun e he => hstamp e.1 ?_
      exact AList.mem_keys.mpr (List.mem_map_of_mem he)

/-- A message drawn from consistent tables is sent. -/
theorem resend_ends {ph : Phase} {s : Self τ} (hc : s.rpc.Consistent ph) :
    ∃ s', resendRandomOutgoingMessage L send s = .ok s' := by
  simp only [resendRandomOutgoingMessage, draw, Self.rand]
  split
  · split
    · rename_i heq
      obtain ⟨hget, rfl⟩ := Prod.mk.inj heq
      exact sendReply_ends hends hc
        (AList.mem_keys.mpr (List.mem_map_of_mem (List.mem_of_getElem? hget)))
    · exact ⟨_, rfl⟩
  · split
    · split
      · exact sendRequest_ends hends _ _ _ _
      · exact ⟨_, rfl⟩
    · exact ⟨_, rfl⟩

/-- A request is sent at once if the clock has no entry of it. -/
theorem sendNow_ends {id : RpcId} {p : Bytes} {s : Self τ}
    (hnew : id ∉ s.rpc.clock.requestSendTimeMap) : ∃ s', sendNow L send id p s = .ok s' :=
  bind_ends (ClockSynchronizer.createRequest_ends hnew) fun _ _ => sendRequest_ends hends _ _ _ _

/-- A request is sent or delayed if the clock has no entry of it. -/
theorem requestWithId_ends {e : IdPayload} {s : Self τ}
    (hnew : e.id ∉ s.rpc.clock.requestSendTimeMap) :
    ∃ s', requestWithId L send e s = .ok s' := by
  simp only [requestWithId]
  split
  · exact sendNow_ends hends hnew
  · split
    · exact sendNow_ends hends hnew
    · exact ⟨_, rfl⟩

/-- A request that fails to go out has the identifier of one that has a time stamp. -/
theorem requestWithId_error {e : IdPayload} {s : Self τ} {f : Fault}
    (h : requestWithId L send e s = .error f) :
    f = .fatal "Duplicate request" ∧ e.id ∈ s.rpc.clock.requestSendTimeMap := by
  have now : sendNow L send e.id e.payload s = .error f →
      f = .fatal "Duplicate request" ∧ e.id ∈ s.rpc.clock.requestSendTimeMap := fun h => by
    rcases bind_error.mp h with h | ⟨clock, -, h⟩
    · simp only [ClockSynchronizer.createRequest] at h
      split at h
      · rename_i hid
        cases h
        exact ⟨rfl, hid⟩
      · cases h
    · obtain ⟨s', hs'⟩ := sendRequest_ends hends e.id e.payload false _
      rw [hs'] at h
      cases h
  simp only [requestWithId] at h
  split at h
  · exact now h
  · split at h
    · exact now h
    · cases h

/-- A request that waits is replied to. -/
theorem reply_ends {id : RpcId} {p : Bytes} {s : Self τ} (hc : s.rpc.Consistent .idle)
    (hin : id ∈ s.rpc.incomingRequests) : ∃ s', reply L send id p s = .ok s' := by
  rw [reply, if_pos hin]
  refine sendReply_ends hends (show Rpc.Consistent .idle _ from ?_)
    ((AList.mem_insert _).mpr (.inl rfl))
  exact { hc.answer hin with }

/-- A request is handled if the two virtual methods that it may call end.  They are called only for
a request that is in none of the tables, `reply` after the request was added. -/
theorem handleRequest_ends {add : IdPayload → Self τ → Except Fault (Self τ)}
    {rep : RpcId → Bytes → Self τ → Except Fault (Self τ)} {id : RpcId} {p : Bytes} {s : Self τ}
    (hc : s.rpc.Consistent .idle)
    (hadd : id ∉ s.rpc.incomingRequests → id ∉ s.rpc.outgoingReplies →
      ∃ s', add ⟨id, p⟩ s = .ok s')
    (hrep : id ∉ s.rpc.incomingRequests → id ∉ s.rpc.processedRequests.keys →
      id ∉ s.rpc.outgoingReplies → ∀ s₁ s₂ q, add ⟨id, p⟩ s = .ok s₁ →
      s₂ = s₁ ∨ s₂ = shutdown s₁ → id ∈ s₁.rpc.incomingRequests → ∃ s', rep id q s₂ = .ok s') :
    ∃ s', handleRequest L send add rep id p s = .ok s' := by
  simp only [handleRequest]
  split
  · exact ⟨_, rfl⟩
  · rename_i hnew
    rw [LruCache.contains_iff, not_or] at hnew
    have hrep := hrep hnew.1 hnew.2
    split
    · rename_i stored hstored
      exact sendReply_ends hends hc (AList.lookup_isSome.mp (Option.isSome_of_eq_some hstored))
    · rename_i hnone
      have hout : id ∉ s.rpc.outgoingReplies := fun hm => by
        have := AList.lookup_isSome.mpr hm
        rw [hnone] at this
        cases this
      refine bind_ends (hadd hnew.1 hout) fun s₁ h₁ => ?_
      split
      · rename_i text htext
        have hin := AList.lookup_isSome.mp (Option.isSome_of_eq_some htext)
        split
        · exact hrep hout s₁ _ _ h₁ (.inl rfl) hin
        · split
          · exact hrep hout s₁ _ _ h₁ (.inr rfl) hin
          · exact ⟨_, rfl⟩
      · exact ⟨_, rfl⟩

end Sending

/-! ### Delayed requests -/

section Delayed

variable {send : Bytes → Self τ → Except Fault (Self τ)}
  (hends : ∀ m s, ∃ s', send m s = .ok s') (hrpc : ∀ m s s', send m s = .ok s' → s'.rpc = s.rpc)

include hends hrpc

/-- The loop over the delayed requests ends when none of them has a time stamp yet. -/
theorem releaseBarrier_ends {b : Int64} {l : List (Σ _ : RpcId, Bytes)} {s : Self τ}
    (hnd : (l.map Sigma.fst).Nodup) (hnew : ∀ e ∈ l, e.1 ∉ s.rpc.clock.requestSendTimeMap) :
    ∃ s', releaseBarrier L send b l s = .ok s' := by
  induction l generalizing s with
  | nil => exact ⟨s, rfl⟩
  | cons e l ih =>
      obtain ⟨id, p⟩ := e
      obtain ⟨hid, hnd⟩ := List.nodup_cons.mp hnd
      rw [releaseBarrier]
      split
      · refine bind_ends (sendNow_ends hends (hnew _ List.mem_cons_self)) fun s₁ h₁ => ?_
        simp only [sendNow, Self.now, bind_ok] at h₁
        obtain ⟨clock, hclock, h₁⟩ := h₁
        obtain ⟨es, env, -, hsend⟩ := sendRequest_eq L send id p false { s with
          rpc.outgoingRequests := s.rpc.outgoingRequests.insert id p
          rpc.clock := clock
          env.clock := fun n => s.env.clock (n + 1) }
        have hr := hrpc _ _ _ (hsend ▸ h₁)
        refine ih hnd fun e he hm => ?_
        -- only the request that went out has a time stamp now
        obtain ⟨-, rfl⟩ := ClockSynchronizer.createRequest_ok hclock
        have hm : e.1 ∈ s₁.rpc.clock.requestSendTimeMap := hm
        rw [hr] at hm
        rcases (AList.mem_insert _).mp hm with heq | hm
        · exact hid (List.mem_map.mpr ⟨e, he, heq⟩)
        · exact hnew e (List.mem_cons_of_mem _ he) hm
      · exact ih hnd fun e he => hnew e (List.mem_cons_of_mem _ he)

/-- The delayed requests of the next barrier, if it is its turn, are sent. -/
theorem tryToSendBarrier_ends {c : RpcId} {s : Self τ}
    (hc : s.rpc.Consistent (.completing c)) : ∃ s', tryToSendBarrier L send s = .ok s' := by
  simp only [tryToSendBarrier]
  split
  · exact ⟨s, rfl⟩
  · rename_i first payload rest hcons
    split
    · rename_i hout
      refine releaseBarrier_ends hends hrpc (hcons ▸ s.rpc.delayedRequests.nodupKeys)
        fun e he hm => ?_
      have hdel : e.1 ∈ s.rpc.delayedRequests :=
        AList.mem_keys.mpr (List.mem_map_of_mem (hcons ▸ he))
      rcases (hc.sendTime _).mp hm with hm | hm | hm
      · exact UnorderedMap.entries_eq_nil.mp hout _ hm
      · exact (hc.apart _ (.inl hm)).2 hdel
      · cases hm
    · exact ⟨s, rfl⟩

theorem handleReply_ends (hsend : SendsWithin L R Q send)
    {ack : RpcId → Self τ → Except Fault (Self τ)}
    {add : RpcId → Bytes → Self τ → Except Fault (Self τ)} {id : RpcId} {p : Bytes} {t₁ t₂ : Int}
    {s : Self τ} (hmay : R.may s.rpc (.completed id)) (hc : s.rpc.Consistent .idle)
    (hack : ∀ ph s s', Sends R ph s.rpc (.acknowledge id ACK_OK) → ack id s = .ok s' →
      s'.rpc = s.rpc ∧ Path L R Q (s.at ph) (s'.at ph))
    (hadd : ∀ s₁ s₂, Path L R Q (s.at .idle) (s₁.at (.completing id)) →
      s₁.rpc.BarrierOrdered → id ∉ s₁.rpc.oneWayRequests → add id p s₁ = .ok s₂ →
      Path L R Q (s₁.at (.completing id)) (s₂.at (.settled id)))
    (hackEnds : ∀ ph s₁, Path L R Q (s.at .idle) (s₁.at ph) → ∃ s₂, ack id s₁ = .ok s₂)
    (haddEnds : ∀ s₁, Path L R Q (s.at .idle) (s₁.at (.completing id)) →
      id ∉ s₁.rpc.oneWayRequests → ∃ s₂, add id p s₁ = .ok s₂) :
    ∃ s', handleReply L send ack add id p t₁ t₂ s = .ok s' := by
  simp only [handleReply]
  split
  · exact hackEnds .idle s (.refl _)
  · rename_i hnew
    rw [LruCache.contains_iff, not_or] at hnew
    split
    · rename_i hout
      have hm : Move L R .idle s.rpc (.completing id) { s.rpc.record (.completed id) with
          outgoingRequests := s.rpc.outgoingRequests.erase id } :=
        .complete hmay hout hnew.1 hnew.2
      have hc₁ := hm.consistent hc
      have hord := hc.ordered (by simp)
      have hord₁ : (s.rpc.outgoingRequests.erase id).entries ≠ [] →
          BarrierOrder (s.rpc.outgoingRequests.erase id) s.rpc.delayedRequests s.rpc.onBarrier :=
        fun hne => ⟨hc₁.same, fun a ha => hord.lt_delayed a (AList.mem_erase.mp ha).2,
          hc₁.outgoing_le, hc₁.delayed_le, fun hnil => absurd hnil hne⟩
      refine bind_ends (tryToSendBarrier_ends hends hrpc (by exact hc₁)) fun s₂ h₂ => ?_
      have htry := fun hc hord => tryToSendBarrier_path hsend (c := id) hc hord h₂
      obtain ⟨hpath, hord₂, -⟩ := htry hc₁ hord₁
      have hpath₁ : Path L R Q (s.at .idle) (s₂.at (.completing id)) := .trans (.move hm) hpath
      -- once the reply is disposed of, the clock still has the time stamp
      have rest : ∀ s₃ : Self τ, Path L R Q (s₂.at (.completing id)) (s₃.at (.settled id)) →
          ∃ s', (ack id s₃ >>= fun self => do
            let clock ← self.now.2.rpc.clock.handleReply id t₁ t₂ self.now.1
            Except.ok { self.now.2 with rpc.clock := clock }) = .ok s' := by
        intro s₃ hp₃
        refine bind_ends (hackEnds _ s₃ (hpath₁.trans hp₃)) fun s₄ h₄ => ?_
        obtain ⟨hr₄, -⟩ := hack (.settled id) s₃ s₄ (.inl rfl) h₄
        have hc₃ : s₃.rpc.Consistent (.settled id) := (hpath₁.trans hp₃).consistent hc
        have hstamp : id ∈ s₄.rpc.clock.requestSendTimeMap := by
          rw [hr₄]
          exact (hc₃.sendTime id).mpr (.inr (.inr rfl))
        exact bind_ends (ClockSynchronizer.handleReply_ends hstamp) fun _ _ => ⟨_, rfl⟩
      split
      · rename_i hone
        exact rest { s₂ with rpc.oneWayRequests := s₂.rpc.oneWayRequests.erase id }
          (.move (.forget hord₂ hone))
      · rename_i hone
        exact bind_ends (haddEnds s₂ hpath₁ hone) fun s₃ h₃ =>
          rest s₃ (hadd s₂ s₃ hpath₁ hord₂ hone h₃)
    · exact hackEnds .idle s (.refl _)

end Delayed

/-- A request is added that neither waits nor has been replied to. -/
theorem addIncomingRequest_ends {e : IdPayload} {s : Self τ} {ph : Phase}
    (hc : s.rpc.Consistent ph) (hin : e.id ∉ s.rpc.incomingRequests)
    (hout : e.id ∉ s.rpc.outgoingReplies) : ∃ s', addIncomingRequest e s = .ok s' := by
  have hnew : e.id ∉ s.rpc.clock.requestReceiveTimeMap := fun hm =>
    ((hc.receiveTime _).mp hm).elim hin hout
  exact bind_ends (ClockSynchronizer.receiveRequest_ends hnew) fun _ _ => ⟨_, rfl⟩

/-- An acknowledgement is handled, known or not. -/
theorem handleAcknowledge_ends {uid : RpcId} {s : Self τ} {ph : Phase}
    (hc : s.rpc.Consistent ph) : ∃ s', handleAcknowledge uid s = .ok s' := by
  rw [handleAcknowledge]
  split
  · rename_i hout
    exact bind_ends (ClockSynchronizer.eraseRequestRecieveTime_ends
      ((hc.receiveTime uid).mpr (.inr hout))) fun _ _ => ⟨_, rfl⟩
  · exact ⟨s, rfl⟩

end BiDirectionalRpc

end Wga
