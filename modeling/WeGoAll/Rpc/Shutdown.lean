import WeGoAll.Rpc.Consistency
import WeGoAll.Rpc.ExactlyOnce

/-!
# Rpc — Shutdown

The requests an endpoint answers by itself: `PING`, and `SHUTDOWN`, which makes it shut down.

* `Rpc.Controlled`: such a request is answered at once and never waits for the application.
* `handleRequest_rpc`: what an entry of a `REQUEST` packet does to the members.
* `Shuts`: why an endpoint shuts down.
* `control_requests`: both, in every run of two endpoints.
-/

namespace Wga

open BiDirectionalRpc

variable {L : Libraries} {R : Rights}

/-! ### Answered at once -/

/-- A request the endpoint answers itself does not wait, and its answer comes right after it. -/
structure Rpc.Controlled (r : Rpc) : Prop where
  waiting : ∀ id p, r.incomingRequests.lookup id = some p → ∀ q, ¬ Control p q
  answered : ∀ h id p q, h ++ [.accepted id p] <+: r.history → Control p q →
    h ++ [.accepted id p, .replied id q] <+: r.history

theorem Rpc.Controlled.new (flaky : Bool) : (BiDirectionalRpc.new flaky).Controlled where
  waiting := by simp [BiDirectionalRpc.new]
  answered := by simp [BiDirectionalRpc.new]

/-- A request that waits was waiting or is accepted now. -/
theorem Move.incoming_lookup {ph ph' : Phase} {r r' : Rpc} {id : RpcId} {p : Bytes}
    (hm : Move L R ph r ph' r') (h : r'.incomingRequests.lookup id = some p) :
    r.incomingRequests.lookup id = some p ∨ R.may r (.accepted id p) := by
  cases hm with
  | @accept _ a q _ _ hmay =>
      by_cases heq : id = a
      · subst heq
        rw [AList.lookup_insert] at h
        cases h
        exact .inr hmay
      · exact .inl ((AList.lookup_insert_ne heq).symm.trans h)
  | @answer _ a =>
      by_cases heq : id = a
      · subst heq
        rw [AList.lookup_erase] at h
        cases h
      · exact .inl ((AList.lookup_erase_ne heq).symm.trans h)
  | request | requestOneWay | greet | start | delay | release | unqueue | complete | queue | forget
  | drop | stopClock | take | discard | advance | close => exact .inl h
  | rehash hr => exact .inl ((AList.perm_lookup hr.incomingRequests).trans h)

/-- An operation that accepts nothing. -/
theorem Path.controlled {τ : Type} {Q : Phase → Rpc → τ → τ → Prop} {a b : Point τ}
    (hR : ∀ r id p, ¬ R.may r (.accepted id p)) (h : Path L R Q a b) (ha : a.rpc.Controlled) :
    b.rpc.Controlled := by
  refine h.invariant_rpc (I := fun _ r => r.Controlled) (fun ph r ph' r' hr hm => ?_) ha
  refine ⟨fun id p hid => ?_, fun l id p q hl hq => ?_⟩
  · exact hr.waiting id p ((hm.incoming_lookup hid).resolve_right (hR r id p))
  · rcases hm.recorded with heq | ⟨e, hmay, heq⟩
    · rw [heq] at hl ⊢
      exact hr.answered l id p q hl hq
    · rw [heq] at hl ⊢
      rcases List.prefix_concat_iff.mp hl with hl | hl
      · obtain ⟨-, he⟩ := List.append_inj' hl rfl
        cases he
        exact absurd hmay (hR r id p)
      · exact (hr.answered l id p q hl hq).trans (List.prefix_append _ _)

/-! ### One request -/

namespace PlainRpc

variable {s s' : PlainRpc} {id : RpcId} {p : Bytes}

/-- The members after a request is accepted. -/
def Accepted (r : Rpc) (id : RpcId) (p : Bytes) (r' : Rpc) : Prop :=
  ∃ clock, r' = { r with
    clock := clock
    incomingRequests := r.incomingRequests.insert id p
    history := r.history ++ [.accepted id p] }

/-- The members after a request is accepted and answered with `q`. -/
def Served (r : Rpc) (id : RpcId) (p q : Bytes) (r' : Rpc) : Prop :=
  r'.history = r.history ++ [.accepted id p, .replied id q] ∧
    (∀ a ∈ r'.incomingRequests, a ≠ id ∧ r'.incomingRequests.lookup a =
      r.incomingRequests.lookup a) ∧
    r'.shuttingDown = (r.shuttingDown || decide (p = SHUTDOWN))

/-- **What a request that arrives does to the members**: nothing, or it waits for the application,
or the endpoint answers it itself. -/
theorem handleRequest_rpc
    (h : handleRequest L (virtuals L).send (virtuals L).addIncomingRequest (virtuals L).reply id p s
      = .ok s') : s'.rpc = s.rpc ∨ (∀ q, ¬ Control p q) ∧ Accepted s.rpc id p s'.rpc ∨
        ∃ q, Control p q ∧ Served s.rpc id p q s'.rpc := by
  rw [handleRequest] at h
  split at h
  · cases h
    exact .inl rfl
  · rename_i hnew
    rw [not_or] at hnew
    split at h
    · rename_i stored hstored
      exact .inl (sendReply_path (R := anything) send_within .idle hstored h).1
    · obtain ⟨s₁, h₁, h⟩ := bind_ok.mp h
      obtain ⟨clock, -, h₁⟩ := bind_ok.mp h₁
      cases h₁
      have hinsert := UnorderedMap.emplace_eq_insert (ν := Bytes) (v := p) hnew.1
      refine .inr ?_
      -- an answer takes the request out of the table again
      have served : ∀ {s₂ : PlainRpc} {q : Bytes}, (virtuals L).reply id q s₂ = .ok s' →
          s₂.rpc.incomingRequests = UnorderedMap.emplace id p s.rpc.incomingRequests →
          s₂.rpc.history = s.rpc.history ++ [.accepted id p] →
          s₂.rpc.shuttingDown = (s.rpc.shuttingDown || decide (p = SHUTDOWN)) →
          Served s.rpc id p q s'.rpc := fun h hin hhist hshut => by
        rw [Served, reply_rpc (R := anything) send_within h]
        refine ⟨by simp [hhist], fun a ha => ?_, hshut⟩
        obtain ⟨hne, -⟩ := AList.mem_erase.mp ha
        refine ⟨hne, ?_⟩
        rw [hin, hinsert, AList.lookup_erase_ne hne, AList.lookup_insert_ne hne]
      split at h
      · rename_i text htext
        replace htext : (UnorderedMap.emplace id p s.rpc.incomingRequests).lookup id = some text :=
          htext
        rw [hinsert, AList.lookup_insert] at htext
        cases htext
        split at h
        · rename_i hping
          subst hping
          exact .inr ⟨PONG, .ping, served h rfl rfl (by simp [PING, SHUTDOWN, ascii])⟩
        · split at h
          · rename_i hshut
            subst hshut
            exact .inr ⟨SHUTDOWN_REPLY, .shutdown, served h rfl rfl (by simp [shutdown])⟩
          · rename_i hping hshut
            cases h
            refine .inl ⟨fun q hq => ?_, clock, ?_⟩
            · cases hq
              · exact hping rfl
              · exact hshut rfl
            · rw [← hinsert]
      · rename_i hnone
        replace hnone : (UnorderedMap.emplace id p s.rpc.incomingRequests).lookup id = none := hnone
        rw [hinsert, AList.lookup_insert] at hnone
        cases hnone

/-- One request keeps the endpoint controlled. -/
theorem handleRequest_controlled
    (h : handleRequest L (virtuals L).send (virtuals L).addIncomingRequest (virtuals L).reply id p s
      = .ok s') (hs : s.rpc.Controlled) : s'.rpc.Controlled := by
  rcases handleRequest_rpc h with heq | ⟨hplain, clock, heq⟩ | ⟨q, hcontrol, hhist, hin, -⟩
  · rw [heq]
    exact hs
  · rw [heq]
    refine ⟨fun a b hlookup q hq => ?_, fun l a b q hl hq => ?_⟩
    · by_cases hid : a = id
      · subst hid
        rw [AList.lookup_insert] at hlookup
        cases hlookup
        exact hplain q hq
      · rw [AList.lookup_insert_ne hid] at hlookup
        exact hs.waiting a b hlookup q hq
    · rcases List.prefix_concat_iff.mp hl with hl | hl
      · obtain ⟨-, he⟩ := List.append_inj' hl rfl
        cases he
        exact absurd hq (hplain q)
      · exact (hs.answered l a b q hl hq).trans (List.prefix_append _ _)
  · refine ⟨fun a b hlookup => ?_, fun l a b c hl hc => ?_⟩
    · have hmem : a ∈ s'.rpc.incomingRequests :=
        AList.lookup_isSome.mp (Option.isSome_of_eq_some hlookup)
      rw [(hin a hmem).2] at hlookup
      exact hs.waiting a b hlookup
    · rw [hhist] at hl ⊢
      have happend : s.rpc.history ++ [.accepted id p, .replied id q] =
          (s.rpc.history ++ [.accepted id p]) ++ [.replied id q] := by simp
      rw [happend] at hl
      rcases List.prefix_concat_iff.mp hl with hl | hl
      · obtain ⟨-, he⟩ := List.append_inj' hl rfl
        cases he
      rcases List.prefix_concat_iff.mp hl with hl | hl
      · obtain ⟨rfl, he⟩ := List.append_inj' hl rfl
        cases he
        cases hc <;> cases hcontrol <;> exact List.prefix_rfl
      · exact (hs.answered l a b c hl hc).trans (List.prefix_append _ _)

/-! ### Shutting down -/

theorem resend_rpc (h : resendRandomOutgoingMessage L send s = .ok s') : s'.rpc = s.rpc := by
  have drawn : ∀ {table : UnorderedMap RpcId Bytes} {e : Option (Σ _ : RpcId, Bytes)}
      {s₁ : PlainRpc}, draw table s = (e, s₁) → s₁.rpc = s.rpc ∧
        ∀ a ∈ e, table.lookup a.1 = some a.2 := fun hdraw => by
    cases hdraw
    exact ⟨rfl, fun a ha => AList.mem_lookup_iff.mpr (List.mem_of_getElem? ha)⟩
  rw [resendRandomOutgoingMessage] at h
  split at h
  · split at h
    · rename_i hdraw
      obtain ⟨hrpc, hlookup⟩ := drawn hdraw
      exact (sendReply_path (R := anything) send_within .idle (hrpc ▸ hlookup _ rfl) h).1.trans hrpc
    · rename_i hdraw
      cases h
      exact (drawn hdraw).1
  · split at h
    · split at h
      · rename_i hdraw
        obtain ⟨hrpc, hlookup⟩ := drawn hdraw
        exact (sendRequest_path (R := anything) send_within .idle (hrpc ▸ hlookup _ rfl) h).1.trans
          hrpc
      · rename_i hdraw
        cases h
        exact (drawn hdraw).1
    · cases h
      rfl

theorem sendNow_shutting (h : sendNow L send id p s = .ok s') :
    s'.rpc.shuttingDown = s.rpc.shuttingDown := by
  obtain ⟨clock, -, h⟩ := bind_ok.mp h
  have hlookup : (s.rpc.outgoingRequests.insert id p).lookup id = some p := AList.lookup_insert _
  rw [(sendRequest_path (R := anything) send_within .idle (by exact hlookup) h).1]

theorem requestWithId_shutting {e : IdPayload} (h : (virtuals L).requestWithId e s = .ok s') :
    s'.rpc.shuttingDown = s.rpc.shuttingDown := by
  simp only [virtuals, requestWithId] at h
  split at h
  · exact sendNow_shutting h
  · split at h
    · exact sendNow_shutting h
    · cases h
      rfl

theorem releaseBarrier_shutting {b : Int64} {l : List (Σ _ : RpcId, Bytes)}
    (h : releaseBarrier L send b l s = .ok s') : s'.rpc.shuttingDown = s.rpc.shuttingDown := by
  induction l generalizing s with
  | nil =>
      cases h
      rfl
  | cons e l ih =>
      rw [releaseBarrier] at h
      split at h
      · obtain ⟨s₁, h₁, h⟩ := bind_ok.mp h
        have hnow := sendNow_shutting h₁
        exact (ih h).trans hnow
      · exact ih h

theorem tryToSendBarrier_shutting (h : tryToSendBarrier L send s = .ok s') :
    s'.rpc.shuttingDown = s.rpc.shuttingDown := by
  rw [tryToSendBarrier] at h
  split at h
  · cases h
    rfl
  · split at h
    · exact releaseBarrier_shutting h
    · cases h
      rfl

theorem handleReply_shutting {t₁ t₂ : Int}
    (h : (virtuals L).handleReply id p t₁ t₂ s = .ok s') :
    s'.rpc.shuttingDown = s.rpc.shuttingDown := by
  simp only [virtuals, handleReply] at h
  split at h
  · cases h
    rfl
  · split at h
    · obtain ⟨s₁, h₁, h⟩ := bind_ok.mp h
      have hshut := tryToSendBarrier_shutting h₁
      rw [← hshut]
      split at h
      all_goals
        obtain ⟨s₂, h₂, h⟩ := bind_ok.mp h
        obtain ⟨s₃, h₃, h⟩ := bind_ok.mp h
        obtain ⟨clock, -, h⟩ := bind_ok.mp h
        cases h
        cases h₂
        cases h₃
        rfl
    · cases h
      rfl

/-- A call shuts the endpoint down exactly when it is `shutdown`. -/
theorem call_shutting {c : Call} (h : c.run L (virtuals L) s = .ok s') :
    s'.rpc.shuttingDown = (s.rpc.shuttingDown || decide (c = .shutdown)) := by
  cases c with
  | request uuid p => simpa using requestWithId_shutting h
  | requestOneWay uuid p => simpa using requestWithId_shutting h
  | reply id p => simp [reply_rpc (R := anything) send_within h]
  | getFirstIncomingReply =>
      simp only [Call.run, getFirstIncomingReply] at h
      split at h <;> cases h
      simp
  | consumeIncomingReplyWithId id =>
      simp only [Call.run, consumeIncomingReplyWithId] at h
      split at h <;> cases h
      simp
  | barrier =>
      simp only [Call.run, BiDirectionalRpc.barrier] at h
      split at h <;> cases h
      simp
  | heartbeat uuid =>
      simp only [Call.run, heartbeat] at h
      split at h
      · simp [resend_rpc h]
      · split at h
        · simpa using requestWithId_shutting h
        · cases h
          simp
  | resendRandomOutgoingMessage => simp [resend_rpc h]
  | sendShutdown uuid =>
      simp only [Call.run, sendShutdown] at h
      split at h
      · cases h
        simp
      · simpa using requestWithId_shutting h
  | shutdown =>
      cases h
      simp [shutdown]

end PlainRpc

/-! ### Why an endpoint shuts down -/

/-- Its application told it to, or the other side did. -/
def Shuts (told : Prop) (r : Rpc) : Prop :=
  r.shuttingDown = true ↔ told ∨ ∃ id, .accepted id SHUTDOWN ∈ r.history

/-- An operation that accepts nothing. -/
theorem Path.accepted {τ : Type} {Q : Phase → Rpc → τ → τ → Prop} {a b : Point τ}
    (hR : ∀ r id p, ¬ R.may r (.accepted id p)) (h : Path L R Q a b) {id : RpcId} {p : Bytes} :
    .accepted id p ∈ b.rpc.history ↔ .accepted id p ∈ a.rpc.history := by
  refine ⟨fun hb => ?_, fun ha => h.history.subset ha⟩
  refine h.invariant_rpc (I := fun _ r => .accepted id p ∈ r.history → .accepted id p ∈
    a.rpc.history) (fun ph r ph' r' hr hm hacc => ?_) (fun ha => ha) hb
  exact hr ((hm.new_event hacc).resolve_right (hR r id p))

theorem Shuts.path {τ : Type} {Q : Phase → Rpc → τ → τ → Prop} {a b : Point τ} {told : Prop}
    (hR : ∀ r id p, ¬ R.may r (.accepted id p)) (h : Path L R Q a b)
    (hshut : b.rpc.shuttingDown = a.rpc.shuttingDown) (ha : Shuts told a.rpc) :
    Shuts told b.rpc := by
  rw [Shuts] at ha ⊢
  rw [hshut, ha]
  simp only [h.accepted hR]

namespace PlainRpc

variable {s s' : PlainRpc} {told : Prop} {id : RpcId} {p : Bytes}

theorem handleRequest_shuts (hs : Shuts told s.rpc)
    (h : handleRequest L (virtuals L).send (virtuals L).addIncomingRequest (virtuals L).reply id p s
      = .ok s') : Shuts told s'.rpc := by
  rcases handleRequest_rpc h with heq | ⟨hplain, clock, heq⟩ | ⟨q, hcontrol, hhist, -, hshut⟩
  · rw [heq]
    exact hs
  · have hne : p ≠ SHUTDOWN := fun heq => hplain SHUTDOWN_REPLY (heq ▸ .shutdown)
    rw [Shuts] at hs
    rw [heq, Shuts, hs]
    simp [hne.symm]
  · rw [Shuts] at hs
    rw [Shuts, hshut, hhist, Bool.or_eq_true, hs, decide_eq_true_eq, or_assoc]
    refine or_congr_right ⟨?_, ?_⟩
    · rintro (⟨a, ha⟩ | rfl)
      · exact ⟨a, List.mem_append_left _ ha⟩
      · exact ⟨id, List.mem_append_right _ List.mem_cons_self⟩
    · rintro ⟨a, ha⟩
      rcases List.mem_append.mp ha with ha | ha
      · exact .inl ⟨a, ha⟩
      · simp only [List.mem_cons, Event.accepted.injEq, reduceCtorEq, List.not_mem_nil,
          or_false] at ha
        exact .inr ha.2.symm

theorem handleReplies_shutting {es : List ReplyEntry}
    (h : handlePacket L (virtuals L) (.reply es) s = .ok s') :
    s'.rpc.shuttingDown = s.rpc.shuttingDown := by
  induction es generalizing s with
  | nil =>
      cases h
      rfl
  | cons e es ih =>
      rw [handlePacket, handleReplies, List.foldlM_cons] at h
      obtain ⟨s₁, h₁, h⟩ := bind_ok.mp h
      exact (ih h).trans (handleReply_shutting h₁)

theorem handleRequests_controlled {es : List IdPayload} (hs : s.rpc.Controlled ∧ Shuts told s.rpc)
    (h : handlePacket L (virtuals L) (.request es) s = .ok s') :
    s'.rpc.Controlled ∧ Shuts told s'.rpc := by
  induction es generalizing s with
  | nil =>
      cases h
      exact hs
  | cons e es ih =>
      rw [handlePacket, handleRequests, List.foldlM_cons] at h
      obtain ⟨s₁, h₁, h⟩ := bind_ok.mp h
      exact ih ⟨handleRequest_controlled h₁ hs.1, handleRequest_shuts hs.2 h₁⟩ h

/-- **A packet keeps both.** -/
theorem handlePacket_controlled {p : Packet} (hc : s.rpc.Consistent .idle)
    (hs : s.rpc.Controlled ∧ Shuts told s.rpc)
    (h : handlePacket L (virtuals L) p s = .ok s') : s'.rpc.Controlled ∧ Shuts told s'.rpc := by
  have hpath := handlePacket_path hc h
  cases p with
  | request es => exact handleRequests_controlled hs h
  | reply es =>
      exact ⟨hpath.controlled (fun _ _ _ h => h) hs.1,
        hs.2.path (fun _ _ _ h => h) hpath (handleReplies_shutting h)⟩
  | acknowledge uid q =>
      refine ⟨hpath.controlled (fun _ _ _ h => h) hs.1, hs.2.path (fun _ _ _ h => h) hpath ?_⟩
      simp only [handlePacket, handleAcknowledge] at h
      split at h
      · obtain ⟨clock, -, h⟩ := bind_ok.mp h
        cases h
        rfl
      · cases h
        rfl

end PlainRpc

/-! ### Every run -/

namespace Pair

variable {es : List PairEvent} {s s' : Pair}

theorem call_accepts (c : Call) (r : Rpc) (id : RpcId) (p : Bytes) :
    ¬ c.rights.may r (.accepted id p) := fun h => by
  cases c <;> simp [Call.rights, Rights.plain, Call.may] at h

/-- **Every run keeps both endpoints controlled**, and each shuts down for a reason. -/
theorem run_controlled (r : (exchange L).Run es s) (x : Side) :
    (s x).rpc.Controlled ∧ Shuts (.call x .shutdown ∈ es) (s x).rpc := by
  revert x
  induction r with
  | start hs =>
      intro x
      obtain ⟨f, env, hx⟩ := hs x
      rw [hx]
      exact ⟨.new f, by simp [Shuts, PlainRpc.new, BiDirectionalRpc.new]⟩
  | @snoc es e s s' r h ih =>
      have hlinked := run_linked r
      -- what the other side was told is not in this event
      have elsewhere : ∀ x, e.side ≠ x → s' x = s x →
          (s' x).rpc.Controlled ∧ Shuts (.call x .shutdown ∈ es ++ [e]) (s' x).rpc :=
        fun x hx heq => by
          have htold : PairEvent.call x .shutdown ∈ es ++ [e] ↔ PairEvent.call x .shutdown ∈ es := by
            simp only [List.mem_append, List.mem_singleton, or_iff_left_iff_imp]
            rintro rfl
            exact absurd rfl hx
          rw [heq, Shuts, htold]
          exact ih x
      cases h with
      | @call x c v hv =>
          refine (Side.forall_iff x).mpr ⟨?_, elsewhere _ x.other_ne.symm
            (Function.update_of_ne x.other_ne _ _)⟩
          rw [Function.update_self]
          obtain ⟨hcontrolled, hshuts⟩ := ih x
          have hpath := PlainRpc.call_path hv
          refine ⟨hpath.controlled (call_accepts c) hcontrolled, ?_⟩
          rw [Shuts] at hshuts
          rw [Shuts, PlainRpc.call_shutting hv, Bool.or_eq_true, hshuts, decide_eq_true_eq]
          have hsame : ∀ id p, .accepted id p ∈ v.rpc.history ↔ .accepted id p ∈ (s x).rpc.history :=
            fun id p => hpath.accepted (call_accepts c)
          simp only [hsame, List.mem_append, List.mem_singleton, PairEvent.call.injEq, true_and]
          rw [or_right_comm, eq_comm (a := c)]
      | @deliver x message b v hm hv =>
          refine (Side.forall_iff x).mpr ⟨?_, elsewhere _ x.other_ne.symm
            (Function.update_of_ne x.other_ne _ _)⟩
          rw [Function.update_self]
          have htold : PairEvent.call x .shutdown ∈ es ++ [.deliver x message] ↔
              PairEvent.call x .shutdown ∈ es := by simp
          rw [Shuts, htold]
          have hflake : (flake (s x)).2.rpc = (s x).rpc := flake_rpc _
          rcases receive_cases hv with rfl | ⟨p, hp⟩
          · rw [hflake]
            exact ih x
          · exact PlainRpc.handlePacket_controlled (hflake.symm ▸ (hlinked.inv x).consistent)
              (hflake.symm ▸ ih x) hp
      | @rehash x v hv =>
          refine (Side.forall_iff x).mpr ⟨?_, elsewhere _ x.other_ne.symm
            (Function.update_of_ne x.other_ne _ _)⟩
          rw [Function.update_self]
          have hpath := PlainRpc.rehash_path (L := L) (R := .none) hv
          have htold : PairEvent.call x .shutdown ∈ es ++ [.rehash x] ↔
              PairEvent.call x .shutdown ∈ es := by simp
          rw [Shuts, htold]
          have hshut : v.shuttingDown = (s x).rpc.shuttingDown := by rw [hv.rest]
          exact ⟨hpath.controlled (fun _ _ _ h => h) (ih x).1,
            (ih x).2.path (fun _ _ _ h => h) hpath hshut⟩

end Pair

/-- **Requests the endpoints answer themselves.**  In every run over a network that loses, repeats,
delays and reorders, no `PING` and no `SHUTDOWN` ever waits for the application: its own answer
comes right after it.  An endpoint shuts down exactly when its application told it to or it accepted
a `SHUTDOWN`; with fresh identifiers, when a `SHUTDOWN` request is completed the other side shuts
down. -/
theorem control_requests {es : List PairEvent} {s : Pair} (r : (exchange L).Run es s) (x : Side) :
    (∀ id p q, (s x).rpc.incomingRequests.lookup id = some p → ¬ Control p q) ∧
    (∀ h id p q, h ++ [.accepted id p] <+: (s x).rpc.history → Control p q →
      h ++ [.accepted id p, .replied id q] <+: (s x).rpc.history) ∧
    ((s x).rpc.shuttingDown = true ↔
      .call x .shutdown ∈ es ∨ ∃ id, .accepted id SHUTDOWN ∈ (s x).rpc.history) ∧
    (FreshIds (s x.other).rpc.history → ∀ id, Issued (s x.other).rpc.history id SHUTDOWN →
      .completed id ∈ (s x.other).rpc.history → (s x).rpc.shuttingDown = true) := by
  obtain ⟨hcontrolled, hshuts⟩ := Pair.run_controlled r x
  refine ⟨fun id p q hid => hcontrolled.waiting id p hid q, hcontrolled.answered, hshuts,
    fun hfresh id hid hcomp => hshuts.mpr (.inr ⟨id, ?_⟩)⟩
  have hlink := (Pair.run_linked r).link x.other
  rw [Side.other_other] at hlink
  -- the request was answered, so it was accepted, and with the payload it was made with
  obtain ⟨q, hq⟩ := hlink.completed id hcomp
  obtain ⟨p, hp⟩ := ((Pair.run_linked r).inv x).answering.replied id q hq
  exact hfresh.payload_unique (hlink.accepted id p hp).1 hid ▸ hp

/-- One side shuts the other down. -/
def farewell : List PairEvent :=
  let L := Libraries.standIn
  [.call .left (.sendShutdown 0),
    .deliver .right ((Packet.request [⟨⟨0, 0⟩, SHUTDOWN⟩]).message L),
    .deliver .left ((Packet.reply [⟨⟨0, 0⟩, 0, 0, SHUTDOWN_REPLY⟩]).message L)]

theorem farewell_ends : ∃ s, farewell.foldlM (Pair.exec .standIn) Pair.new = .ok s ∧
    FreshIds (s .left).rpc.history ∧ .requestedOneWay ⟨0, 0⟩ SHUTDOWN ∈ (s .left).rpc.history ∧
    .completed ⟨0, 0⟩ ∈ (s .left).rpc.history := by
  decide +kernel

/-- Its peer shuts down once the request is completed. -/
theorem control_requests_farewell : ∃ s, (exchange .standIn).Run farewell s ∧
    (s .right).rpc.shuttingDown = true := by
  obtain ⟨s, hs, hfresh, hreq, hcomp⟩ := farewell_ends
  have r : (exchange .standIn).Run farewell s := Pair.exec_run (fun _ => ⟨false, default, rfl⟩) hs
  exact ⟨s, r, (control_requests r .right).2.2.2 hfresh ⟨0, 0⟩ (.inr hreq) hcomp⟩

end Wga
