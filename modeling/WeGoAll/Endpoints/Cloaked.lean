import WeGoAll.Endpoints.Agreement
import WeGoAll.Endpoints.Sealing
import WeGoAll.Rpc.Frame

/-!
# Endpoints — Cloaked

A handler among messages of any bytes: what it accepts was heard, and what it posts is sealed.

* `Cloaked`: the handler and the payloads it was given and has heard.
* `Genuine`: what the strings of a packet are to it.
* `Cloaked.call`, `Cloaked.handlePacket`: what happens to a handler keeps it cloaked.
* `Cloaked.step`: so does any event.
-/

namespace Wga

open BiDirectionalRpc

/-! ### What a reply does -/

/-- An entry of a `REPLY` packet: it is acknowledged, and before that, if it is the first answer,
its request is completed, delayed requests go out and the reply is disposed of. -/
theorem BiDirectionalRpc.handleReply_cases {τ : Type} {L : Libraries}
    {send : Bytes → Self τ → Except Fault (Self τ)} {ack : RpcId → Self τ → Except Fault (Self τ)}
    {add : RpcId → Bytes → Self τ → Except Fault (Self τ)} {id : RpcId} {p : Bytes} {t₁ t₂ : Int}
    {s s' : Self τ} (h : handleReply L send ack add id p t₁ t₂ s = .ok s') :
    ack id s = .ok s' ∨
      id ∉ s.rpc.incomingReplies ∧ id ∉ s.rpc.processedReplies.keys ∧
      id ∈ s.rpc.outgoingRequests ∧ ∃ s₁ s₂ s₃ clock,
        tryToSendBarrier L send { s with
          rpc.outgoingRequests := s.rpc.outgoingRequests.erase id
          rpc.history := s.rpc.history ++ [.completed id] } = .ok s₁ ∧
        (s₂ = { s₁ with rpc.oneWayRequests := s₁.rpc.oneWayRequests.erase id } ∨
          add id p s₁ = .ok s₂) ∧
        ack id s₂ = .ok s₃ ∧ s'.sub = s₃.sub ∧ s'.rpc = { s₃.rpc with clock := clock } := by
  simp only [handleReply] at h
  split at h
  · exact .inl h
  · rename_i hnew
    rw [LruCache.contains_iff, not_or] at hnew
    split at h
    · rename_i hout
      obtain ⟨s₁, h₁, h⟩ := bind_ok.mp h
      have rest : ∀ s₂ : Self τ, (ack id s₂ >>= fun self => do
          let clock ← self.now.2.rpc.clock.handleReply id t₁ t₂ self.now.1
          Except.ok { self.now.2 with rpc.clock := clock }) = .ok s' →
          ∃ s₃ clock, ack id s₂ = .ok s₃ ∧ s'.sub = s₃.sub ∧
            s'.rpc = { s₃.rpc with clock := clock } := fun s₂ h₂ => by
        obtain ⟨s₃, h₃, h₂⟩ := bind_ok.mp h₂
        obtain ⟨clock, -, h₂⟩ := bind_ok.mp h₂
        cases h₂
        exact ⟨s₃, clock, h₃, rfl, rfl⟩
      refine .inr ⟨hnew.1, hnew.2, hout, s₁, ?_⟩
      split at h
      · obtain ⟨s₃, clock, h₃, hs'⟩ := rest _ h
        exact ⟨_, s₃, clock, h₁, .inl rfl, h₃, hs'⟩
      · obtain ⟨s₂, h₂, h⟩ := bind_ok.mp h
        obtain ⟨s₃, clock, h₃, hs'⟩ := rest s₂ h
        exact ⟨s₂, s₃, clock, h₁, .inr h₂, h₃, hs'⟩
    · exact .inl h

namespace EncryptedMultiEndpointHandler

open CryptoHandler

variable {L : Libraries} {R : Rights} {c c' : CryptoHandler} {s s' : EncryptedHandler}
  {id : RpcId} {p : Bytes} {Said : Bytes → Prop} {Heard : SessionKey → Bytes → Prop}

/-! ### A handler -/

/-- A handler that was given the payloads `Said`, and hears `Heard key` under the key it has
learned. -/
structure Cloaked (L : Libraries) (Said : Bytes → Prop) (Heard : SessionKey → Bytes → Prop)
    (s : EncryptedHandler) : Prop where
  sound : Sound s
  guarded : Guarded L s.sub.derived Said (Heard s.sub.derived.incomingSessionKey) .idle s.rpc
  posted : AllCovered L s.sub.derived Said s.sub.posted

/-- More may be said and heard. -/
theorem Cloaked.mono (h : Cloaked L Said Heard s) {Said' : Bytes → Prop}
    {Heard' : SessionKey → Bytes → Prop} (hsaid : ∀ q, Said q → Said' q)
    (hheard : ∀ q, Heard s.sub.derived.incomingSessionKey q →
      Heard' s.sub.derived.incomingSessionKey q) : Cloaked L Said' Heard' s where
  sound := h.sound
  guarded := {
    outgoing := fun id p hp => (h.guarded.outgoing id p hp).later (.refl _) hsaid
    delayed := fun id p hp => (h.guarded.delayed id p hp).later (.refl _) hsaid
    issuing := nofun
    stored := fun id p hp => (h.guarded.stored id p hp).later (.refl _) hsaid
    accepted := fun id p hp => (h.guarded.accepted id p hp).imp_right (hheard p)
    queued := fun id p hp => hheard p (h.guarded.queued id p hp)
    receiving := h.guarded.receiving }
  posted := fun m hm =>
    let ⟨p, heq, hp⟩ := h.posted m hm
    ⟨p, heq, hp.later (.refl _) hsaid⟩

/-- Members that say nothing. -/
theorem Cloaked.of_keys (h : Cloaked L Said Heard s) (hrpc : s'.rpc = s.rpc)
    (hkeys : s'.sub.derived = s.sub.derived) (hposted : s'.sub.posted = s.sub.posted) :
    Cloaked L Said Heard s' := by
  refine ⟨h.sound.of_keys hrpc hkeys, ?_, ?_⟩
  · rw [hrpc, hkeys]
    exact h.guarded
  · rw [hposted, hkeys]
    exact h.posted

theorem Cloaked.path (h : Cloaked L Said Heard s) (hsound : Sound s')
    (hp : Path L (guardedRights L s.sub.derived Said (Heard s.sub.derived.incomingSessionKey) False)
      (Carries L (guardedRights L s.sub.derived Said (Heard s.sub.derived.incomingSessionKey) False))
      (s.at .idle) (s'.at .idle)) : Cloaked L Said Heard s' := by
  have hkeys : s'.sub.derived = s.sub.derived := path_derived hp
  obtain ⟨hguarded, hposted⟩ := Guarded.path hp rfl ⟨h.guarded, h.posted⟩
  refine ⟨hsound, ?_, ?_⟩
  · rw [hkeys]
    exact hguarded
  · rw [hkeys]
    exact hposted

/-- A key that is drawn or learned. -/
theorem Cloaked.rekey (h : Cloaked L Said Heard s) (hsound : Sound s') (hrpc : s'.rpc = s.rpc)
    (hposted : s'.sub.posted = s.sub.posted) (hlater : Later s.sub.derived s'.sub.derived)
    (hheard : ∀ q, Heard s.sub.derived.incomingSessionKey q →
      Heard s'.sub.derived.incomingSessionKey q) : Cloaked L Said Heard s' := by
  refine ⟨hsound, ?_, fun m hm => ?_⟩
  · rw [hrpc]
    exact {
      outgoing := fun id p hp => (h.guarded.outgoing id p hp).later hlater fun _ hq => hq
      delayed := fun id p hp => (h.guarded.delayed id p hp).later hlater fun _ hq => hq
      issuing := nofun
      stored := fun id p hp => (h.guarded.stored id p hp).later hlater fun _ hq => hq
      accepted := fun id p hp => (h.guarded.accepted id p hp).imp_right (hheard p)
      queued := fun id p hp => hheard p (h.guarded.queued id p hp)
      receiving := h.guarded.receiving }
  · rw [hposted] at hm
    obtain ⟨p, heq, hp⟩ := h.posted m hm
    exact ⟨p, heq, hp.later hlater fun _ hq => hq⟩

end EncryptedMultiEndpointHandler

/-! ### Calls -/

/-- The payload a call gives a handler to send. -/
def Call.payload : Call → Option Bytes
  | .request _ p | .requestOneWay _ p | .reply _ p => some p
  | .heartbeat _ => some PING
  | .sendShutdown _ => some SHUTDOWN
  | .getFirstIncomingReply | .consumeIncomingReplyWithId _ | .barrier
  | .resendRandomOutgoingMessage | .shutdown => none

theorem Call.does_payload {τ : Type} {V : Virtuals τ} {s : Self τ} {c : Call} {e : Event}
    {id : RpcId} {p : Bytes} (h : c.does V s e)
    (he : e = .requested id p ∨ e = .requestedOneWay id p) : p ∈ c.payload := by
  cases c with
  | request uuid q | requestOneWay uuid q =>
      rcases he with rfl | rfl <;> cases h
      rfl
  | heartbeat uuid | sendShutdown uuid =>
      obtain ⟨-, h⟩ := h
      rcases he with rfl | rfl <;> cases h
      rfl
  | getFirstIncomingReply | consumeIncomingReplyWithId =>
      obtain ⟨a, q, rfl⟩ := h
      rcases he with he | he <;> cases he
  | reply | barrier | resendRandomOutgoingMessage | shutdown => exact h.elim

/-- What a handler says by itself. -/
def ownWords : List Bytes := [OK, ACK_OK, PONG, SHUTDOWN_REPLY]

namespace EncryptedMultiEndpointHandler

open CryptoHandler

variable {L : Libraries} {s s' : EncryptedHandler} {id : RpcId} {p : Bytes} {Said : Bytes → Prop}
  {Heard : SessionKey → Bytes → Prop}

/-- A reply that is given is sealed. -/
theorem reply_ciphertext {s₁ : EncryptedHandler} (hkeys : s₁.sub.derived = s.sub.derived)
    (hp : Said p) (h : reply L id p s₁ = .ok s') (nonce : Nonce) :
    Ciphertext L s.sub.derived Said (sealed L s₁.sub.derived p nonce) := by
  have hready := (reply_path (R := anything) (fun _ => trivial) h).1
  have hkeyed := keyed_iff.mp hready
  rw [hkeys] at hkeyed ⊢
  exact ⟨hkeyed.outgoing, p, nonce, hp, rfl⟩

/-- **A call of the application keeps a handler cloaked.** -/
theorem Cloaked.call (h : Cloaked L Said Heard s) {c : Call} (hc : c.Uuid4)
    (hsaid : ∀ p ∈ c.payload, Said p) (hrun : c.run L (virtuals L) s = .ok s') :
    Cloaked L Said Heard s' := by
  refine h.path (h.sound.ownerCall (c := .rpc c) trivial hrun) ?_
  refine Call.run_path_from send_within (fun e he => ?_) (fun id p s₁ s₂ hsub h₁ => ?_)
    (fun id p heq h₁ => ?_) hrun
  · have issued : ∀ id p, e = .requested id p ∨ e = .requestedOneWay id p →
        id ≠ SESSION_KEY_RPCID ∧ s.sub.derived.outgoingSessionKey ≠ emptySessionKey ∧ Said p :=
      fun id p heq => by
        obtain ⟨uuid, hu, rfl⟩ := Call.does_uuid he heq
        refine ⟨hc.ne hu, (ready_iff.mp (readyToSend_of_call he hrun ?_)).keyed.outgoing,
          hsaid p (Call.does_payload he heq)⟩
        exact heq.imp (fun h => ⟨_, _, h⟩) fun h => ⟨_, _, h⟩
    cases e with
    | requested id p => exact issued id p (.inl rfl)
    | requestedOneWay id p => exact issued id p (.inr rfl)
    | accepted | replied | completed | queued => cases c <;> simp [Call.does] at he
    | handed => trivial
  · refine (requestWithId_path (fun nonce => ?_) h₁).2
    rw [hsub]
    exact ⟨nonce, rfl⟩
  · exact (reply_path (fun nonce => reply_ciphertext rfl (hsaid p (heq ▸ rfl)) h₁ nonce) h₁).2

theorem sound_arm (hs : Sound s) {key : SessionKey} (hne : key ≠ emptySessionKey) :
    Sound (arm key s) :=
  ⟨hs.consistent, fun hempty => absurd hempty hne, hs.unlearned⟩

theorem later_arm {key : SessionKey} (hkey : s.sub.derived.outgoingSessionKey = emptySessionKey) :
    Later s.sub.derived (arm key s).sub.derived :=
  ⟨rfl, rfl, rfl, fun hout => absurd hkey hout, fun _ => rfl⟩

theorem later_learn {key : SessionKey} (hkey : s.sub.derived.incomingSessionKey = emptySessionKey) :
    Later s.sub.derived (learn key s).sub.derived :=
  ⟨rfl, rfl, rfl, fun _ => rfl, fun hin => absurd hkey hin⟩

/-- **The own key is drawn**: what goes out is the handshake. -/
theorem Cloaked.sendSessionKey (h : Cloaked L Said Heard s) {key : SessionKey}
    (hne : key ≠ emptySessionKey) (hs' : sendSessionKey L key s = .ok s') :
    Cloaked L Said Heard s' ∧ s.sub.derived.outgoingSessionKey = emptySessionKey ∧
      s'.sub.derived = (arm key s).sub.derived := by
  have hkey := sendSessionKey_of_key hs'
  have hnone : s.rpc.outgoingRequests.entries = [] :=
    UnorderedMap.entries_eq_nil.mpr fun id hid => h.sound.unarmed hkey id (.inl hid)
  have harm : Cloaked L Said Heard (arm key s) :=
    h.rekey (sound_arm h.sound hne) rfl rfl (later_arm hkey) fun _ hq => hq
  obtain ⟨nonce, env, heq⟩ := sendSessionKey_eq (L := L) key hkey
  have hrun := hs'
  rw [heq] at hrun
  obtain ⟨⟨clock, hrpc⟩, hkeys, hnew⟩ := requestWithId_first
    (send_within (L := L) (R := guardedRights L (arm key s).sub.derived Said
      (Heard s.sub.derived.incomingSessionKey) False)) (by exact hnone) hrun
  have hkeys : s'.sub.derived = (arm key s).sub.derived := hkeys
  have hguarded : Guarded L s'.sub.derived Said (Heard s'.sub.derived.incomingSessionKey) .idle
      s'.rpc := by
    rw [hkeys, hrpc]
    refine { harm.guarded with
      outgoing := fun id p hp => ?_, receiving := { h.guarded.receiving with } }
    by_cases hid : id = SESSION_KEY_RPCID
    · subst hid
      rw [AList.lookup_insert] at hp
      cases hp
      exact ⟨hne, nonce, rfl⟩
    · rw [AList.lookup_insert_ne hid] at hp
      exact harm.guarded.outgoing id p hp
  refine ⟨⟨h.sound.sendSessionKey hne hs', hguarded, fun m hm => ?_⟩, hkey, hkeys⟩
  rcases hnew m hm with hm | ⟨p, hp, rfl⟩
  · rw [hkeys]
    exact harm.posted m hm
  · refine ⟨p, rfl, hguarded.covered hp ?_⟩
    rintro uid q rfl
    rcases hp with hp | hp
    · cases hp
    · exact hp.2.1

/-! ### Messages -/

/-- What the strings of a packet are to a handler with the keys `c`: a session key that opens is
`Known`, and what opens under such a key is heard. -/
structure Genuine (L : Libraries) (c : CryptoHandler) (Known : SessionKey → Prop)
    (Heard : SessionKey → Bytes → Prop) (p : Packet) : Prop where
  handshakes : ∀ h ∈ p.handshakes, ∀ key, openHandshake L h c = .ok (some key) →
    key ≠ emptySessionKey → Known key
  ciphertexts : ∀ q ∈ p.ciphertexts, ∀ key text, Known key →
    openSecret L key q = some text → Heard key text

theorem addIncomingRequest_opened (hne : id ≠ SESSION_KEY_RPCID)
    (h : addIncomingRequest L ⟨id, p⟩ s = .ok s') : s' = s ∨ readyToReceive s = true ∧
      ∃ q, openSecret L s.sub.derived.incomingSessionKey p = some q ∧
        BiDirectionalRpc.addIncomingRequest ⟨id, q⟩ s = .ok s' := by
  simp only [addIncomingRequest, if_neg hne] at h
  split at h
  · cases h
    exact .inl rfl
  · rename_i hready
    have hready : readyToReceive s = true := by simpa using hready
    rw [decrypt_ends (readyToReceive_iff.mp hready).1] at h
    cases ho : openSecret L s.sub.derived.incomingSessionKey p with
    | none =>
        rw [ho] at h
        cases h
        exact .inl rfl
    | some q =>
        rw [ho] at h
        exact .inr ⟨hready, q, rfl, h⟩

/-- **An entry of a `REQUEST` packet** that is not of the handshake. -/
theorem Cloaked.handleRequest (h : Cloaked L Said Heard s) (hwords : ∀ q ∈ ownWords, Said q)
    (hne : id ≠ SESSION_KEY_RPCID)
    (hheard : s.sub.derived.incomingSessionKey ≠ emptySessionKey → ∀ q,
      openSecret L s.sub.derived.incomingSessionKey p = some q →
        Heard s.sub.derived.incomingSessionKey q)
    (hrun : handleRequest L send (addIncomingRequest L) (reply L) id p s = .ok s') :
    Cloaked L Said Heard s' ∧ s'.sub.derived = s.sub.derived := by
  have hpath : Path L
      (guardedRights L s.sub.derived Said (Heard s.sub.derived.incomingSessionKey) False)
      (Carries L (guardedRights L s.sub.derived Said (Heard s.sub.derived.incomingSessionKey) False))
      (s.at .idle) (s'.at .idle) := by
    refine BiDirectionalRpc.handleRequest_path send_within (fun s₁ hin hproc hout h₁ => ?_)
      (fun s₁ s₂ text q hpath _ hq h₁ => ?_) hrun
    · rcases addIncomingRequest_opened hne h₁ with rfl | ⟨hready, q, hopen, h₁⟩
      · exact .refl _
      · exact BiDirectionalRpc.addIncomingRequest_path
          (.inr (hheard (readyToReceive_iff.mp hready).1 q hopen)) hin hproc hout h₁
    · have hsaid : Said q := hwords q (by cases hq <;> simp [ownWords])
      exact (reply_path (fun nonce => reply_ciphertext (path_derived hpath) hsaid h₁ nonce) h₁).2
  exact ⟨h.path (h.sound.handleRequest hrun) hpath, path_derived hpath⟩

/-- **A session key that arrives.** -/
theorem Cloaked.handleSessionKey (h : Cloaked L Said Heard s) (hwords : ∀ q ∈ ownWords, Said q)
    (hmute : ∀ q, ¬ Heard emptySessionKey q)
    (hrun : BiDirectionalRpc.handleRequest L send (addIncomingRequest L) (reply L)
      SESSION_KEY_RPCID p s = .ok s') :
    Cloaked L Said Heard s' ∧ (s'.sub.derived = s.sub.derived ∨
      s.sub.derived.incomingSessionKey = emptySessionKey ∧ ∃ key, key ≠ emptySessionKey ∧
        openHandshake L p s.sub.derived = .ok (some key) ∧
        s'.sub.derived = (learn key s).sub.derived) := by
  have hsound := h.sound.handleRequest hrun
  rcases handleSessionKey_cases hrun with ⟨hany, -⟩ | ⟨hkey, hnew, key, s₁, hopen, h₁, h₂⟩
  · exact ⟨h.path hsound (hany _), .inl (path_derived (hany anything))⟩
  · have hkeys : s₁.sub.derived = (learn key s).sub.derived :=
      congrArg Handler.derived (addIncomingRequest_sub h₁)
    have hsaid : Said OK := hwords OK (by simp [ownWords])
    obtain ⟨hne, hpath⟩ := learn_path
      (R := guardedRights L (learn key s).sub.derived Said (Heard key) False) hnew (.inl rfl)
      (fun _ nonce => by
        have hc := reply_ciphertext hkeys hsaid h₂ nonce
        rwa [hkeys] at hc) h₁ h₂
    have hlearn : Cloaked L Said Heard (learn key s) := by
      refine h.rekey ⟨h.sound.consistent, h.sound.unarmed, fun hempty => absurd hempty hne⟩ rfl rfl
        (later_learn hkey) fun q hq => ?_
      rw [hkey] at hq
      exact absurd hq (hmute q)
    exact ⟨hlearn.path hsound hpath, .inr ⟨hkey, key, hne, hopen, path_derived hpath⟩⟩

theorem addIncomingReply_opened (h : addIncomingReply L id p s = .ok s') : s' = s ∨
    s.sub.derived.incomingSessionKey ≠ emptySessionKey ∧
      ∃ q, openSecret L s.sub.derived.incomingSessionKey p = some q ∧
        BiDirectionalRpc.addIncomingReply id q s = .ok s' := by
  simp only [addIncomingReply] at h
  split at h
  · cases h
    exact .inl rfl
  · rename_i hready
    have hready : readyToSend s = true := by simpa using hready
    have hkey := (readyToReceive_iff.mp (readyToSend_iff.mp hready).2.2).1
    rw [decrypt_ends hkey] at h
    cases ho : openSecret L s.sub.derived.incomingSessionKey p with
    | none =>
        rw [ho] at h
        cases h
        exact .inl rfl
    | some q =>
        rw [ho] at h
        exact .inr ⟨hkey, q, rfl, h⟩

/-- An acknowledgement is sealed too. -/
theorem sendAcknowledge_covered (hsaid : Said ACK_OK)
    (h : AllCovered L s.sub.derived Said s.sub.posted) (hrun : sendAcknowledge L id s = .ok s') :
    s'.rpc = s.rpc ∧ s'.sub.derived = s.sub.derived ∧
      AllCovered L s.sub.derived Said s'.sub.posted := by
  obtain ⟨r, hr, hrun⟩ := bind_ok.mp hrun
  obtain ⟨hne, nonce, env, rfl⟩ := encrypt_ok hr
  have hpost := MultiEndpointHandler.send_posting hrun
  refine ⟨hpost.rpc, hpost.derived, fun m hm => ?_⟩
  rcases hpost.posted m hm with hm | rfl
  · exact h m hm
  · exact ⟨.acknowledge id (sealed L s.sub.derived ACK_OK nonce), rfl,
      covered_acknowledge ⟨hne, ACK_OK, nonce, hsaid, rfl⟩⟩

/-- **An entry of a `REPLY` packet.** -/
theorem Cloaked.handleReply {t₁ t₂ : Int} (h : Cloaked L Said Heard s)
    (hwords : ∀ q ∈ ownWords, Said q)
    (hheard : s.sub.derived.incomingSessionKey ≠ emptySessionKey → ∀ q,
      openSecret L s.sub.derived.incomingSessionKey p = some q →
        Heard s.sub.derived.incomingSessionKey q)
    (hrun : handleReply L id p t₁ t₂ s = .ok s') :
    Cloaked L Said Heard s' ∧ s'.sub.derived = s.sub.derived := by
  have hpath : Path L (rights s) (Carries L (rights s)) (s.at .idle) (s'.at .idle) :=
    handleReply_path trivial h.sound.consistent (fun _ _ _ => trivial) (fun _ _ _ _ => trivial) hrun
  have hsound := h.sound.rights_path hpath
  have hkeys : s'.sub.derived = s.sub.derived := path_derived hpath
  have hsaid : Said ACK_OK := hwords ACK_OK (by simp [ownWords])
  refine ⟨?_, hkeys⟩
  -- what is left to show once the tables and the messages are known
  have done : Guarded L s.sub.derived Said (Heard s.sub.derived.incomingSessionKey) .idle s'.rpc →
      AllCovered L s.sub.derived Said s'.sub.posted → Cloaked L Said Heard s' :=
    fun hguarded hposted => ⟨hsound, by rwa [hkeys], by rwa [hkeys]⟩
  rcases handleReply_cases hrun with hack | ⟨hin, hproc, hout, s₁, s₂, s₃, clock, h₁, h₂, h₃, hsub,
    hrpc⟩
  · obtain ⟨hrpc, -, hposted⟩ := sendAcknowledge_covered hsaid (by exact h.posted) hack
    exact done (by rw [hrpc]; exact h.guarded) hposted
  · have hm : Move L (guardedRights L s.sub.derived Said
        (Heard s.sub.derived.incomingSessionKey) True) .idle s.rpc (.completing id)
        { s.rpc.record (.completed id) with
          outgoingRequests := s.rpc.outgoingRequests.erase id } :=
      .complete trivial hout hin hproc
    have hc₁ := hm.consistent h.sound.consistent
    have hord := h.sound.consistent.ordered (by simp)
    have hord₁ : (s.rpc.outgoingRequests.erase id).entries ≠ [] →
        BarrierOrder (s.rpc.outgoingRequests.erase id) s.rpc.delayedRequests s.rpc.onBarrier :=
      fun hne => ⟨hc₁.same, fun a ha => hord.lt_delayed a (AList.mem_erase.mp ha).2,
        hc₁.outgoing_le, hc₁.delayed_le, fun hnil => absurd hnil hne⟩
    have htry := fun hc hord => tryToSendBarrier_path (send_within
      (R := guardedRights L s.sub.derived Said (Heard s.sub.derived.incomingSessionKey) False))
      (c := id) hc hord h₁
    obtain ⟨htry, -, -⟩ := htry hc₁ hord₁
    obtain ⟨hg₁, hp₁⟩ := Guarded.completing_path htry rfl ⟨h.guarded.move hm, h.posted⟩
    have hkeys₁ : s₁.sub.derived = s.sub.derived := path_derived htry
    have hs₂ : s₂.sub = s₁.sub ∧ Guarded L s.sub.derived Said
        (Heard s.sub.derived.incomingSessionKey) .idle s₂.rpc := by
      rcases h₂ with rfl | h₂
      · exact ⟨rfl, hg₁.outgoing, hg₁.delayed, nofun, hg₁.stored, hg₁.accepted, hg₁.queued,
          { hg₁.receiving with }⟩
      · rcases addIncomingReply_opened h₂ with rfl | ⟨hkey, q, hopen, h₂⟩
        · exact ⟨rfl, hg₁.outgoing, hg₁.delayed, nofun, hg₁.stored, hg₁.accepted, hg₁.queued,
            hg₁.receiving⟩
        · cases h₂
          rw [hkeys₁] at hkey hopen
          refine ⟨rfl, hg₁.outgoing, hg₁.delayed, nofun, hg₁.stored, fun a p hp => ?_,
            fun a p hp => ?_, hg₁.receiving.queue⟩
          · exact hg₁.accepted a p ((List.mem_append.mp hp).resolve_right (by simp))
          · rcases List.mem_append.mp hp with hp | hp
            · exact hg₁.queued a p hp
            · cases List.mem_singleton.mp hp
              exact hheard hkey q hopen
    have hkeys₂ : s₂.sub.derived = s.sub.derived := by rw [hs₂.1, hkeys₁]
    have hp₂ : AllCovered L s₂.sub.derived Said s₂.sub.posted := by
      rw [hkeys₂, hs₂.1]
      exact hp₁
    obtain ⟨hrpc₃, -, hp₃⟩ := sendAcknowledge_covered hsaid hp₂ h₃
    have hg₂ := hs₂.2
    rw [hkeys₂] at hp₃
    refine done ?_ (by rwa [hsub])
    rw [hrpc, hrpc₃]
    exact ⟨hg₂.outgoing, hg₂.delayed, nofun, hg₂.stored, hg₂.accepted, hg₂.queued,
      { hg₂.receiving with }⟩

/-! ### Packets -/

/-- What an event does to the keys: those that were there stay, and one that is learned is
`Known`. -/
structure Keeping (Known : SessionKey → Prop) (s s' : EncryptedHandler) : Prop where
  later : Later s.sub.derived s'.sub.derived
  known : s'.sub.derived.incomingSessionKey ≠ emptySessionKey →
    Known s'.sub.derived.incomingSessionKey

theorem openHandshake_later {c c' : CryptoHandler} (h : Later c c') (p : Bytes) :
    openHandshake L p c' = openHandshake L p c := by
  simp only [openHandshake, h.otherPublicKey, h.myPrivateKey]

/-- **A packet of anybody keeps a handler cloaked**, when what opens in it is known. -/
theorem Cloaked.handlePacket {Known : SessionKey → Prop} (h : Cloaked L Said Heard s)
    (hwords : ∀ q ∈ ownWords, Said q) (hmute : ∀ q, ¬ Heard emptySessionKey q)
    (hknown : s.sub.derived.incomingSessionKey ≠ emptySessionKey →
      Known s.sub.derived.incomingSessionKey) {packet : Packet}
    (hp : Genuine L s.sub.derived Known Heard packet)
    (hrun : handlePacket L (virtuals L) packet s = .ok s') :
    Cloaked L Said Heard s' ∧ Keeping Known s s' := by
  have start : Keeping Known s s := ⟨.refl _, hknown⟩
  have kept : ∀ {s₁ s₂ : EncryptedHandler}, Keeping Known s s₁ →
      s₂.sub.derived = s₁.sub.derived → Keeping Known s s₂ := fun {s₁ s₂} hs₁ hkeys =>
    ⟨hkeys ▸ hs₁.later, hkeys ▸ hs₁.known⟩
  cases packet with
  | request es =>
      refine foldlM_invariant (I := fun s₁ => Cloaked L Said Heard s₁ ∧ Keeping Known s s₁)
        (fun s₁ e s₂ he hs₁ h₂ => ?_) ⟨h, start⟩ hrun
      obtain ⟨hcloaked, hs₁⟩ := hs₁
      by_cases hid : e.id = SESSION_KEY_RPCID
      · have hin := Packet.mem_handshakes.mpr ⟨e, he, hid, rfl⟩
        rw [hid] at h₂
        obtain ⟨h', hkeys | ⟨hkey, key, hne, hopen, hkeys⟩⟩ :=
          hcloaked.handleSessionKey hwords hmute h₂
        · exact ⟨h', kept hs₁ hkeys⟩
        · rw [openHandshake_later hs₁.later] at hopen
          refine ⟨h', ?_, ?_⟩
          · rw [hkeys]
            exact hs₁.later.trans (later_learn hkey)
          · rw [hkeys]
            exact fun _ => hp.handshakes _ hin key hopen hne
      · have hin := Packet.mem_ciphertexts.mpr ⟨e, he, hid, rfl⟩
        obtain ⟨h', hkeys⟩ := hcloaked.handleRequest hwords hid
          (fun hkey q => hp.ciphertexts _ hin _ q (hs₁.known hkey)) h₂
        exact ⟨h', kept hs₁ hkeys⟩
  | reply es =>
      refine foldlM_invariant (I := fun s₁ => Cloaked L Said Heard s₁ ∧ Keeping Known s s₁)
        (fun s₁ e s₂ he hs₁ h₂ => ?_) ⟨h, start⟩ hrun
      obtain ⟨h', hkeys⟩ := hs₁.1.handleReply hwords (fun hkey q =>
        hp.ciphertexts _ (List.mem_map.mpr ⟨e, he, rfl⟩) _ q (hs₁.2.known hkey)) h₂
      exact ⟨h', kept hs₁.2 hkeys⟩
  | acknowledge uid q =>
      have hpath : ∀ R, R.discards uid → Path L R (Carries L R) (s.at .idle) (s'.at .idle) :=
        fun R hR => handleAcknowledge_path hR hrun
      exact ⟨h.path (h.sound.handlePacket hrun) (hpath _ trivial),
        kept start (path_derived (hpath anything trivial))⟩

/-- **So does any message.** -/
theorem Cloaked.receive {Known : SessionKey → Prop} (h : Cloaked L Said Heard s)
    (hwords : ∀ q ∈ ownWords, Said q) (hmute : ∀ q, ¬ Heard emptySessionKey q)
    (hknown : s.sub.derived.incomingSessionKey ≠ emptySessionKey →
      Known s.sub.derived.incomingSessionKey) {message : Bytes}
    (hp : ∀ packet : Packet, packet.Reads (L.unpack message) →
      Genuine L s.sub.derived Known Heard packet) {b : Bool}
    (hrun : receive L message s = .ok (b, s')) : Cloaked L Said Heard s' ∧ Keeping Known s s' := by
  have hflake : Cloaked L Said Heard (flake s).2 :=
    h.of_keys (flake_rpc s) (by rw [flake_sub]) (by rw [flake_sub])
  obtain ⟨-, ⟨-, rfl⟩ | ⟨-, packet, hreads, hrun⟩⟩ := receive_reads hrun
  · exact ⟨hflake, by rw [flake_sub]; exact .refl _, by rwa [flake_sub]⟩
  · obtain ⟨h', hk⟩ := hflake.handlePacket hwords hmute (by rwa [flake_sub])
      (by rw [flake_sub]; exact hp packet hreads) hrun
    have hlater := hk.later
    rw [flake_sub] at hlater
    exact ⟨h', hlater, hk.known⟩

/-! ### Events -/

/-- What an event has to be at a handler that may say `Said`. -/
def Admits (L : Libraries) (Said : Bytes → Prop) (Known : SessionKey → Prop)
    (Heard : SessionKey → Bytes → Prop) (s : EncryptedHandler) : HandlerEvent → Prop
  | .owner (.rpc c) => c.Uuid4 ∧ ∀ p ∈ c.payload, Said p
  | .owner (.sendSessionKey key) => key ≠ emptySessionKey
  | .owner (.banEndpoint _) | .owner (.addEndpoints _) | .resurrect _ => True
  | .receive message => ∀ packet : Packet, packet.Reads (L.unpack message) →
      Genuine L s.sub.derived Known Heard packet

/-- **An event keeps a handler cloaked.** -/
theorem Cloaked.step {Known : SessionKey → Prop} (h : Cloaked L Said Heard s)
    (hwords : ∀ q ∈ ownWords, Said q) (hmute : ∀ q, ¬ Heard emptySessionKey q)
    (hknown : s.sub.derived.incomingSessionKey ≠ emptySessionKey →
      Known s.sub.derived.incomingSessionKey) {e : HandlerEvent}
    (ho : Admits L Said Known Heard s e) (hrun : step L s e = .ok s') :
    Cloaked L Said Heard s' ∧ Keeping Known s s' := by
  have kept : s'.sub.derived = s.sub.derived → Keeping Known s s' := fun hkeys =>
    ⟨hkeys ▸ .refl _, hkeys ▸ hknown⟩
  cases e with
  | owner c =>
      cases c with
      | rpc c => exact ⟨h.call ho.1 ho.2 hrun, kept (path_derived (call_path hrun))⟩
      | sendSessionKey key =>
          obtain ⟨h', hkey, hkeys⟩ := h.sendSessionKey ho hrun
          exact ⟨h', hkeys ▸ later_arm hkey, hkeys ▸ hknown⟩
      | banEndpoint e =>
          obtain ⟨hrpc, hkeys⟩ := MultiEndpointHandler.banEndpoint_derived hrun
          exact ⟨h.of_keys hrpc hkeys (MultiEndpointHandler.banEndpoint_posted hrun), kept hkeys⟩
      | addEndpoints es =>
          cases hrun
          have hkeys := MultiEndpointHandler.addEndpoints_derived es s.sub
          exact ⟨h.of_keys rfl hkeys (MultiEndpointHandler.addEndpoints_posted es s.sub),
            kept hkeys⟩
  | receive message =>
      obtain ⟨b, hrun⟩ := step_receive_ok hrun
      exact h.receive hwords hmute hknown ho hrun
  | resurrect source =>
      cases hrun
      have hkeys := MultiEndpointHandler.resurrect_derived source s.sub
      exact ⟨h.of_keys rfl hkeys (MultiEndpointHandler.resurrect_posted source s.sub), kept hkeys⟩

theorem Cloaked.rehash (h : Cloaked L Said Heard s) {r : Rpc} (hr : s.rpc.Rehashed r) :
    Cloaked L Said Heard { s with rpc := r } :=
  h.path (h.sound.rights_path (L := L) (.move (.rehash hr))) (.move (.rehash hr))

theorem cloaked_new {crypto : CryptoHandler} {endpoints : List Endpoint} {now : Int} {flaky : Bool}
    {env : Env} (h : new crypto endpoints now flaky env = .ok s) :
    Cloaked L Said Heard s ∧ s.sub.derived.incomingSessionKey = emptySessionKey := by
  have hsound := sound_new h
  obtain ⟨handler, hn, h⟩ := bind_ok.mp h
  split at h
  · cases h
  · rename_i hkeys
    cases h
    unfold MultiEndpointHandler.new at hn
    split at hn
    · cases hn
    · cases hn
      have hkey : crypto.incomingSessionKey = emptySessionKey := by
        simp only [Bool.or_eq_true, not_or, Bool.not_eq_true] at hkeys
        simpa [CryptoHandler.canDecrypt] using hkeys.1
      refine ⟨⟨hsound, ⟨?_, ?_, fun _ _ h => ?_, ?_, ?_, ?_, .new flaky⟩, ?_⟩, hkey⟩
      · simp [BiDirectionalRpc.new]
      · simp [BiDirectionalRpc.new]
      · cases h
      · simp [BiDirectionalRpc.new]
      · simp [BiDirectionalRpc.new]
      · simp [BiDirectionalRpc.new]
      · exact fun m hm => absurd hm List.not_mem_nil

end EncryptedMultiEndpointHandler

end Wga
