import WeGoAll.Formats.Msgpack
import WeGoAll.Rpc.Endpoint

/-!
# Rpc — Repeats

A request that arrives again while its reply waits to be acknowledged.  `reply` puts the identifier
into `processedRequests` and `outgoingReplies` together, and `handleRequest` looks at
`processedRequests` first.

* `Handling`: the states in which an entry of a `REQUEST` packet is handled.
* `resends_iff`: the reply is sent again exactly when the identifier was evicted from
  `processedRequests`.
-/

namespace Wga

open BiDirectionalRpc PlainRpc

variable {L : Libraries} {s : PlainRpc} {id : RpcId} {q : Bytes}

/-- The states in which an endpoint handles an entry of a `REQUEST` packet: some state that a run
reaches, and the entries before it. -/
def Handling (L : Libraries) (s : PlainRpc) : Prop :=
  ∃ es s₀ before, (endpoints L).Run es s₀ ∧
    handleRequests L (virtuals L) before (flake s₀).2 = .ok s

/-- The tables fit together there too. -/
theorem Handling.consistent (h : Handling L s) : s.rpc.Consistent .idle := by
  obtain ⟨es, s₀, before, hr, h⟩ := h
  have hc : (flake s₀).2.rpc.Consistent .idle := by
    rw [flake_rpc]
    exact (run_inv hr).consistent
  exact (handlePacket_path (p := .request before) hc h).consistent hc

/-- A request for `id` is answered with `q`, the reply that is stored, and the tables stay as they
are. -/
def Resends (L : Libraries) (s : PlainRpc) (id : RpcId) (p q : Bytes) : Prop :=
  ∃ t₁ t₂ s', handleRequest L (virtuals L).send (virtuals L).addIncomingRequest (virtuals L).reply
      id p s = .ok s' ∧ s'.rpc = s.rpc ∧
    s'.sub = s.sub ++ [⟨s.rpc.history, (Packet.reply [⟨id, t₁, t₂, q⟩]).message L⟩]

/-- A request whose identifier is among the processed ones is ignored. -/
theorem handleRequest_processed (p : Bytes) (hproc : id ∈ s.rpc.processedRequests.keys) :
    handleRequest L (virtuals L).send (virtuals L).addIncomingRequest (virtuals L).reply id p s =
      .ok s := by
  rw [handleRequest, if_pos (.inr (LruCache.contains_iff.mpr hproc))]

/-- A request whose reply is stored, and whose identifier is not among the processed ones, is
answered with the reply. -/
theorem handleRequest_stored (p : Bytes) (hc : s.rpc.Consistent .idle)
    (hout : s.rpc.outgoingReplies.lookup id = some q)
    (hproc : id ∉ s.rpc.processedRequests.keys) : Resends L s id p q := by
  have hstored : id ∈ s.rpc.outgoingReplies :=
    AList.lookup_isSome.mp (Option.isSome_of_eq_some hout)
  have hin : id ∉ s.rpc.incomingRequests := fun hin => hc.disjoint id hin hstored
  obtain ⟨t, ht⟩ := Option.isSome_iff_exists.mp
    (AList.lookup_isSome.mpr ((hc.receiveTime id).mpr (.inr hstored)))
  have hnew : ¬ (id ∈ s.rpc.incomingRequests ∨ s.rpc.processedRequests.contains id = true) := by
    rw [LruCache.contains_iff]
    exact not_or.mpr ⟨hin, hproc⟩
  refine ⟨t, s.now.1, ⟨s.rpc, _, s.now.2.env⟩, ?_, rfl, rfl⟩
  rw [handleRequest, if_neg hnew, hout]
  simp only [sendReply, writeReply, Self.now, ClockSynchronizer.getReplyDuration, ht, ok_bind,
    Bool.false_eq_true, if_false]
  rfl

/-- A request that sends nothing is not answered. -/
theorem not_resends (p : Bytes) (hproc : id ∈ s.rpc.processedRequests.keys) :
    ¬ Resends L s id p q := by
  rintro ⟨t₁, t₂, s', h, -, hsub⟩
  rw [handleRequest_processed p hproc] at h
  cases h
  exact List.cons_ne_nil _ _ (List.self_eq_append_right.mp hsub)

/-- **A repeated request is answered from the stored reply exactly when its identifier is no longer
among the processed ones.** -/
theorem resends_iff (hs : Handling L s) (p : Bytes)
    (hout : s.rpc.outgoingReplies.lookup id = some q) :
    Resends L s id p q ↔ id ∉ s.rpc.processedRequests.keys :=
  ⟨fun h hproc => not_resends p hproc h, handleRequest_stored p hs.consistent hout⟩

/-! ### A run -/

/-- The request `HI` arrives and is replied to. -/
def answered : List EndpointEvent :=
  [.receive ((Packet.request [⟨⟨0, 7⟩, ascii ['H', 'I']⟩]).message .standIn),
    .call (.reply ⟨0, 7⟩ PONG)]

theorem answered_ends : ∃ s, answered.foldlM (PlainRpc.exec .standIn) (.new false default) = .ok s ∧
    s.rpc.outgoingReplies.lookup ⟨0, 7⟩ = some PONG ∧ s.rpc.flaky = false ∧
    ⟨0, 7⟩ ∈ s.rpc.processedRequests.keys ∧
    ∃ s', PlainRpc.exec .standIn s
        (.receive ((Packet.request [⟨⟨0, 7⟩, ascii ['H', 'I']⟩]).message .standIn)) = .ok s' ∧
      s'.sub.length = s.sub.length := by
  decide +kernel

theorem handling_of_run {es : List EndpointEvent} (hr : (endpoints L).Run es s)
    (hflaky : s.rpc.flaky = false) : Handling L s := by
  refine ⟨es, s, [], hr, ?_⟩
  rw [flake, hflaky, if_neg Bool.false_ne_true]
  rfl

/-- **A repeated request is ignored** right after its reply was sent: nothing is sent again. -/
theorem answered_ignored : ∃ s, (endpoints .standIn).Run answered s ∧ Handling .standIn s ∧
    s.rpc.outgoingReplies.lookup ⟨0, 7⟩ = some PONG ∧
    (∃ s', PlainRpc.Step .standIn s
        (.receive ((Packet.request [⟨⟨0, 7⟩, ascii ['H', 'I']⟩]).message .standIn)) s' ∧
      s'.sub.length = s.sub.length) ∧
    ¬ Resends .standIn s ⟨0, 7⟩ (ascii ['H', 'I']) PONG := by
  obtain ⟨s, h, hout, hflaky, hproc, s', h', hsent⟩ := answered_ends
  have hr := PlainRpc.exec_run h
  exact ⟨s, hr, handling_of_run hr hflaky, hout, ⟨s', PlainRpc.exec_step h', hsent⟩,
    not_resends _ hproc⟩

/-- The condition in that run. -/
theorem resends_iff_answered : ∃ s, Handling .standIn s ∧
    (Resends .standIn s ⟨0, 7⟩ (ascii ['H', 'I']) PONG ↔
      ⟨0, 7⟩ ∉ s.rpc.processedRequests.keys) := by
  obtain ⟨s, h, hout, hflaky, -⟩ := answered_ends
  have hr := PlainRpc.exec_run h
  have hs := handling_of_run hr hflaky
  exact ⟨s, hs, resends_iff hs _ hout⟩

end Wga
