import WeGoAll.Endpoints.Encrypted
import WeGoAll.Endpoints.Handlers
import WeGoAll.Rpc.Entries
import WeGoAll.Rpc.Reading

/-!
# Endpoints — Sound

What holds of an encrypted handler in every state, whatever its owner calls and whatever bytes
arrive.

* `Sound`: its tables fit together, nothing is issued before its own key is drawn, and nothing of
  the handshake is known before the other key is learned.
* `handleSessionKey_cases`: what the other side's session key does to it.
* `Sound.receive`, `Sound.ownerCall`: messages and calls keep it.
-/

namespace Wga

open BiDirectionalRpc

variable {L : Libraries} {R : Rights}

/-! ### Identifiers that do not come in -/

/-- The request waits to go out or is in flight. -/
def Rpc.Pending (ph : Phase) (r : Rpc) (id : RpcId) : Prop :=
  id ∈ r.outgoingRequests ∨ id ∈ r.delayedRequests ∨ ∃ p, ph = .issuing id p

/-- What a move makes pending it issues. -/
theorem Move.pending {ph ph' : Phase} {r r' : Rpc} (hm : Move L R ph r ph' r') {id : RpcId}
    (h : r'.Pending ph' id) : r.Pending ph id ∨ (∃ p, R.may r (.requested id p)) ∨
      (∃ p, R.may r (.requestedOneWay id p)) ∨ R.greets := by
  rcases h with h | h | ⟨p, rfl⟩
  · rcases hm.outgoing h with h | h | h
    · exact .inl (.inl h)
    · exact .inl (.inr (.inr h))
    · exact .inl (.inr (.inl h))
  · rcases hm.delayed h with h | h
    · exact .inl (.inr (.inl h))
    · exact .inl (.inr (.inr h))
  · rcases hm.issuing with h | h | h
    · exact .inr (.inl ⟨p, h⟩)
    · exact .inr (.inr (.inl ⟨p, h⟩))
    · exact .inr (.inr (.inr h))

/-- The request is in none of the tables of requests of the other side. -/
structure Rpc.Unseen (r : Rpc) (id : RpcId) : Prop where
  incoming : id ∉ r.incomingRequests
  processed : id ∉ r.processedRequests.keys
  stored : id ∉ r.outgoingReplies

/-- A request that may not be accepted stays unseen. -/
theorem Move.unseen {ph ph' : Phase} {r r' : Rpc} (hm : Move L R ph r ph' r') {id : RpcId}
    (hid : ∀ r p, ¬ R.may r (.accepted id p)) (h : r.Unseen id) : r'.Unseen id := by
  refine ⟨fun hin => ?_, fun hin => ?_, fun hin => ?_⟩
  · rcases hm.incoming hin with hin | ⟨p, hmay⟩
    · exact h.incoming hin
    · exact hid _ _ hmay
  · exact (hm.processed hin).elim h.processed h.incoming
  · exact (hm.stored hin).elim h.stored h.incoming

/-! ### Every state of a handler -/

namespace EncryptedMultiEndpointHandler

variable {s s' : EncryptedHandler}

/-- What holds of a handler between two operations. -/
structure Sound (s : EncryptedHandler) : Prop where
  consistent : s.rpc.Consistent .idle
  unarmed : s.sub.derived.outgoingSessionKey = emptySessionKey → ∀ id, ¬ s.rpc.Pending .idle id
  unlearned : s.sub.derived.incomingSessionKey = emptySessionKey → s.rpc.Unseen SESSION_KEY_RPCID

/-- **What keeps the keys keeps a handler sound**, when it issues nothing before the own key is
drawn and accepts no handshake before the other key is learned. -/
theorem Sound.path (h : Sound s)
    (hR : s.sub.derived.outgoingSessionKey = emptySessionKey → ¬ R.greets ∧
      ∀ r id p, ¬ R.may r (.requested id p) ∧ ¬ R.may r (.requestedOneWay id p))
    (hS : s.sub.derived.incomingSessionKey = emptySessionKey →
      ∀ r p, ¬ R.may r (.accepted SESSION_KEY_RPCID p))
    (hp : Path L R (Carries L R) (s.at .idle) (s'.at .idle)) : Sound s' := by
  have hkeys : s'.sub.derived = s.sub.derived := path_derived hp
  refine ⟨hp.consistent h.consistent, fun hkey => ?_, fun hkey => ?_⟩
  · rw [hkeys] at hkey
    obtain ⟨hg, hmay⟩ := hR hkey
    refine hp.invariant_rpc (I := fun ph r => ∀ id, ¬ r.Pending ph id)
      (fun ph r ph' r' hr hm id hid => ?_) (h.unarmed hkey)
    rcases hm.pending hid with hid | ⟨p, hid⟩ | ⟨p, hid⟩ | hid
    · exact hr id hid
    · exact (hmay r id p).1 hid
    · exact (hmay r id p).2 hid
    · exact hg hid
  · rw [hkeys] at hkey
    exact hp.invariant_rpc (I := fun _ r => r.Unseen SESSION_KEY_RPCID)
      (fun ph r ph' r' hr hm => hm.unseen (hS hkey) hr) (h.unlearned hkey)

/-- The rights of an operation on a handler: it issues only what a handler that is ready may. -/
def rights (s : EncryptedHandler) : Rights where
  may := fun _ e => match e with
    | .requested _ _ | .requestedOneWay _ _ => readyToSend s = true
    | .accepted id _ => id ≠ SESSION_KEY_RPCID
    | _ => True
  discards := fun _ => True
  rewrites := fun _ _ => True
  drops := True
  greets := False

theorem Sound.rights_path (h : Sound s)
    (hp : Path L (rights s) (Carries L (rights s)) (s.at .idle) (s'.at .idle)) : Sound s' := by
  refine h.path (R := rights s) (fun hkey => ⟨id, fun r id p => ?_⟩)
    (fun _ r p hmay => hmay rfl) hp
  have hnot : ¬ readyToSend s = true := fun hready =>
    (readyToReceive_iff.mp (readyToSend_iff.mp hready).2.2).2 hkey
  exact ⟨hnot, hnot⟩

/-! ### Calls -/

/-- A handler that issues a request is ready. -/
theorem readyToSend_of_call {c : Call} {e : Event} (hdoes : c.does (virtuals L) s e)
    (h : c.run L (virtuals L) s = .ok s')
    (he : (∃ id p, e = .requested id p) ∨ ∃ id p, e = .requestedOneWay id p) :
    readyToSend s = true := by
  have ready : ∀ (id : RpcId) (p : Bytes) (r : Rpc),
      requestWithId L ⟨id, p⟩ { s with rpc := r } = .ok s' →
      readyToSend { s with rpc := r } = true := fun id p r h₁ =>
    (requestWithId_path (R := anything) (fun _ => trivial) h₁).1
  cases c with
  | request uuid p => exact ready ⟨_, uuid⟩ p (s.rpc.record _) h
  | requestOneWay uuid p =>
      exact ready ⟨_, uuid⟩ p { s.rpc.record _ with
        oneWayRequests := insert _ s.rpc.oneWayRequests } h
  | heartbeat uuid => exact hdoes.1
  | sendShutdown uuid =>
      have hrun : BiDirectionalRpc.sendShutdown (virtuals L) uuid s = .ok s' := h
      rw [BiDirectionalRpc.sendShutdown, if_neg (by simp [hdoes.1])] at hrun
      exact ready ⟨_, uuid⟩ SHUTDOWN { s.rpc.record _ with
        oneWayRequests := insert _ s.rpc.oneWayRequests } hrun
  | getFirstIncomingReply | consumeIncomingReplyWithId id =>
      obtain ⟨a, q, rfl⟩ := hdoes
      rcases he with ⟨b, p, he⟩ | ⟨b, p, he⟩ <;> cases he
  | reply | barrier | resendRandomOutgoingMessage | shutdown => exact hdoes.elim

theorem call_path {c : Call} (h : c.run L (virtuals L) s = .ok s') :
    Path L (rights s) (Carries L (rights s)) (s.at .idle) (s'.at .idle) := by
  refine Call.run_path send_within (fun e he => ?_) (fun id p s₁ s₂ h₁ => ?_)
    (fun id p _ h₁ => ?_) h
  · cases e with
    | requested id p => exact readyToSend_of_call he h (.inl ⟨id, p, rfl⟩)
    | requestedOneWay id p => exact readyToSend_of_call he h (.inr ⟨id, p, rfl⟩)
    | accepted id p => cases c <;> simp [Call.does] at he
    | replied | completed | queued | handed => trivial
  · exact (requestWithId_path (fun _ => trivial) h₁).2
  · exact (reply_path (fun _ => trivial) h₁).2

/-! ### Messages -/

/-- **A handshake request**: nothing but perhaps its stored reply goes out, or the key in it is
learned. -/
theorem handleSessionKey_cases {p : Bytes}
    (h : handleRequest L send (addIncomingRequest L) (reply L) SESSION_KEY_RPCID p s = .ok s') :
    (∀ R, Path L R (Carries L R) (s.at .idle) (s'.at .idle)) ∧
      (s.sub.derived.incomingSessionKey = emptySessionKey → s.rpc.Unseen SESSION_KEY_RPCID →
        openHandshake L p s.sub.derived = .ok none) ∨
    s.sub.derived.incomingSessionKey = emptySessionKey ∧ s.rpc.Unseen SESSION_KEY_RPCID ∧
      ∃ key s₁, openHandshake L p s.sub.derived = .ok (some key) ∧
        BiDirectionalRpc.addIncomingRequest ⟨SESSION_KEY_RPCID, p⟩ (learn key s) = .ok s₁ ∧
        reply L SESSION_KEY_RPCID OK s₁ = .ok s' := by
  simp only [handleRequest] at h
  split at h
  · rename_i hknown
    rw [LruCache.contains_iff] at hknown
    cases h
    refine .inl ⟨fun R => .refl _, fun _ hnew => ?_⟩
    exact absurd hknown (not_or.mpr ⟨hnew.incoming, hnew.processed⟩)
  · rename_i hnew
    rw [LruCache.contains_iff, not_or] at hnew
    split at h
    · rename_i stored hstored
      refine .inl ⟨fun R => (sendReply_path send_within .idle hstored h).2, fun _ hnew => ?_⟩
      exact absurd (AList.lookup_isSome.mp (Option.isSome_of_eq_some hstored)) hnew.stored
    · rename_i hnone
      have hout : SESSION_KEY_RPCID ∉ s.rpc.outgoingReplies := fun hm => by
        have := AList.lookup_isSome.mpr hm
        rw [hnone] at this
        cases this
      obtain ⟨s₁, h₁, h⟩ := bind_ok.mp h
      -- the request is not left in the tables, so nothing is answered a second time
      have hdone : SESSION_KEY_RPCID ∉ s₁.rpc.incomingRequests → s' = s₁ := fun hno => by
        rw [AList.lookup_eq_none.mpr hno] at h
        exact (Except.ok.inj h).symm
      rw [addIncomingRequest, if_pos rfl] at h₁
      by_cases hkey : s.sub.derived.incomingSessionKey = emptySessionKey
      · rw [addSessionKey_eq hkey] at h₁
        obtain ⟨o, ho, h₁⟩ := bind_ok.mp h₁
        cases o with
        | none =>
            cases h₁
            cases hdone hnew.1
            exact .inl ⟨fun R => .refl _, fun _ _ => ho⟩
        | some key =>
            obtain ⟨s₂, h₂, h₃⟩ := bind_ok.mp h₁
            have hgone : SESSION_KEY_RPCID ∉ s₁.rpc.incomingRequests := by
              simp only [reply] at h₃
              split at h₃
              · cases h₃
              · obtain ⟨r, hr, h₃⟩ := bind_ok.mp h₃
                rw [reply_rpc (send_within (L := L) (R := anything)) h₃]
                exact fun hm => (AList.mem_erase.mp hm).1 rfl
            cases hdone hgone
            exact .inr ⟨hkey, ⟨hnew.1, hnew.2, hout⟩, key, s₂, ho, h₂, h₃⟩
      · rw [addSessionKey_of_key hkey] at h₁
        cases h₁
        cases hdone hnew.1
        exact .inl ⟨fun R => .refl _, fun hkey' => absurd hkey' hkey⟩

/-- A handler that learns a key answers, so the key is one. -/
theorem learn_path {p : Bytes} {key : SessionKey} {s₁ : EncryptedHandler}
    (hnew : s.rpc.Unseen SESSION_KEY_RPCID)
    (hacc : R.may s.rpc (.accepted SESSION_KEY_RPCID p))
    (hrep : ∀ r nonce, R.may r (.replied SESSION_KEY_RPCID (sealed L s.sub.derived OK nonce)))
    (h₁ : BiDirectionalRpc.addIncomingRequest ⟨SESSION_KEY_RPCID, p⟩ (learn key s) = .ok s₁)
    (h₂ : reply L SESSION_KEY_RPCID OK s₁ = .ok s') :
    key ≠ emptySessionKey ∧
      Path L R (Carries L R) ((learn key s).at .idle) (s'.at .idle) := by
  have hp₁ : Path L R (Carries L R) ((learn key s).at .idle) (s₁.at .idle) :=
    BiDirectionalRpc.addIncomingRequest_path hacc hnew.incoming hnew.processed hnew.stored h₁
  have hkeys : s₁.sub.derived = (learn key s).sub.derived := path_derived hp₁
  obtain ⟨hready, hp₂⟩ := reply_path (R := R) (fun nonce => by rw [hkeys]; exact hrep _ nonce) h₂
  refine ⟨?_, hp₁.trans hp₂⟩
  have hkey := (readyToReceive_iff.mp hready).1
  rwa [hkeys] at hkey

/-- The rights of a handshake request that is accepted. -/
def handshakeRights : Rights where
  may := fun _ e => match e with
    | .accepted _ _ | .replied _ _ => True
    | _ => False
  discards := fun _ => False
  rewrites := fun _ _ => False
  drops := False
  greets := False

theorem Sound.handleRequest (hs : Sound s) {id : RpcId} {p : Bytes}
    (h : handleRequest L send (addIncomingRequest L) (reply L) id p s = .ok s') : Sound s' := by
  by_cases hid : id = SESSION_KEY_RPCID
  · subst hid
    rcases handleSessionKey_cases h with ⟨hpath, -⟩ | ⟨hkey, hnew, key, s₁, -, h₁, h₂⟩
    · exact hs.rights_path (hpath _)
    · obtain ⟨hne, hpath⟩ := learn_path (R := handshakeRights) hnew trivial
        (fun _ _ => trivial) h₁ h₂
      have hlearn : Sound (learn key s) :=
        ⟨hs.consistent, hs.unarmed, fun hempty => absurd hempty hne⟩
      exact hlearn.path (R := handshakeRights) (fun _ => ⟨id, fun r a q => ⟨id, id⟩⟩)
        (fun hempty => absurd hempty hne) hpath
  · exact hs.rights_path (handleRequest_path hid (fun _ _ => hid) (fun _ _ _ => trivial) h)

/-- **A packet keeps a handler sound.** -/
theorem Sound.handlePacket (hs : Sound s) {packet : Packet}
    (h : handlePacket L (virtuals L) packet s = .ok s') : Sound s' := by
  cases packet with
  | request es =>
      exact foldlM_invariant (I := Sound) (fun s₁ e s₂ _ hs₁ h₂ => hs₁.handleRequest h₂) hs h
  | reply es =>
      refine foldlM_invariant (I := Sound) (fun s₁ e s₂ _ hs₁ h₂ => ?_) hs h
      exact hs₁.rights_path (handleReply_path trivial hs₁.consistent (fun _ _ _ => trivial)
        (fun _ _ _ _ => trivial) h₂)
  | acknowledge uid q => exact hs.rights_path (L := L) (handleAcknowledge_path trivial h)

theorem Sound.flake (hs : Sound s) : Sound (flake s).2 := by
  obtain ⟨h₁, h₂, h₃⟩ := hs
  refine ⟨?_, ?_, ?_⟩
  · rwa [flake_rpc]
  · rwa [flake_rpc, flake_sub]
  · rwa [flake_rpc, flake_sub]

theorem Sound.receive (hs : Sound s) {message : Bytes} {b : Bool}
    (h : receive L message s = .ok (b, s')) : Sound s' := by
  rcases receive_cases h with rfl | ⟨packet, hp⟩
  · exact hs.flake
  · exact hs.flake.handlePacket hp

/-! ### The first state and the first request -/

theorem sound_new {crypto : CryptoHandler} {endpoints : List Endpoint} {now : Int} {flaky : Bool}
    {env : Env} (h : new crypto endpoints now flaky env = .ok s) : Sound s := by
  obtain ⟨handler, -, h⟩ := bind_ok.mp h
  split at h
  · cases h
  · cases h
    refine ⟨Rpc.consistent_new flaky, fun _ id hid => ?_, fun _ => ⟨?_, ?_, ?_⟩⟩
    · rcases hid with hid | hid | ⟨p, hid⟩
      · exact AList.notMem_empty id hid
      · exact AList.notMem_empty id hid
      · cases hid
    · exact AList.notMem_empty _
    · exact List.not_mem_nil
    · exact AList.notMem_empty _

/-- The rights of `sendSessionKey`. -/
def greetRights : Rights where
  may := fun _ _ => False
  discards := fun _ => False
  rewrites := fun _ _ => True
  drops := False
  greets := True

theorem Sound.sendSessionKey (hs : Sound s) {key : SessionKey} (hne : key ≠ emptySessionKey)
    (h : sendSessionKey L key s = .ok s') : Sound s' := by
  have hkey := sendSessionKey_of_key h
  have hnone : s.rpc.outgoingRequests.entries = [] :=
    UnorderedMap.entries_eq_nil.mpr fun id hid => hs.unarmed hkey id (.inl hid)
  have hpath : Path L greetRights (Carries L greetRights) ((arm key s).at .idle) (s'.at .idle) :=
    sendSessionKey_path trivial (fun _ => ⟨[], trivial⟩) hs.consistent hnone h
  have harm : Sound (arm key s) := ⟨hs.consistent, fun hempty => absurd hempty hne, hs.unlearned⟩
  exact harm.path (R := greetRights) (fun hempty => absurd hempty hne) (fun _ _ _ => id) hpath

/-- Members below `BiDirectionalRpc` other than the keys say nothing. -/
theorem Sound.of_keys (hs : Sound s) (hrpc : s'.rpc = s.rpc)
    (hkeys : s'.sub.derived = s.sub.derived) : Sound s' := by
  obtain ⟨h₁, h₂, h₃⟩ := hs
  refine ⟨?_, ?_, ?_⟩
  · rwa [hrpc]
  · rwa [hrpc, hkeys]
  · rwa [hrpc, hkeys]

end EncryptedMultiEndpointHandler

/-! ### What the owner calls -/

namespace MultiEndpointHandler

variable {κ : Type}

theorem addEndpoint_derived (e : Endpoint) (h : Handler κ) :
    (addEndpoint e h).derived = h.derived := by
  rw [addEndpoint]
  split_ifs <;> rfl

theorem addEndpoints_derived (es : List Endpoint) (h : Handler κ) :
    (addEndpoints es h).derived = h.derived := by
  induction es generalizing h with
  | nil => rfl
  | cons e es ih => exact (ih (addEndpoint e h)).trans (addEndpoint_derived e h)

theorem resurrect_derived (e : Endpoint) (h : Handler κ) :
    (hasEndpointAndResurrectIfFound e h).2.derived = h.derived := by
  rw [hasEndpointAndResurrectIfFound]
  split_ifs <;> rfl

theorem banEndpoint_derived {e : Endpoint} {s s' : Self (Handler κ)}
    (h : banEndpoint e s = .ok s') : s'.rpc = s.rpc ∧ s'.sub.derived = s.sub.derived := by
  simp only [banEndpoint] at h
  split at h
  · obtain ⟨s₁, h₁, h⟩ := bind_ok.mp h
    have hk := killEndpoint_posting (m := []) h₁
    cases h
    exact ⟨hk.rpc, hk.derived⟩
  · cases h
    exact ⟨rfl, rfl⟩

end MultiEndpointHandler

open EncryptedMultiEndpointHandler

/-- The session key that is drawn, if any, is a key. -/
def OwnerCall.Drawn : OwnerCall → Prop
  | .sendSessionKey key => key ≠ emptySessionKey
  | .rpc _ | .banEndpoint _ | .addEndpoints _ => True

/-- All session keys drawn before the handler is registered are keys. -/
def Construction.Drawn (c : Construction) : Prop := ∀ call ∈ c.calls, call.Drawn

namespace EncryptedMultiEndpointHandler

variable {s s' : EncryptedHandler}

theorem Sound.banEndpoint (hs : Sound s) {e : Endpoint}
    (h : MultiEndpointHandler.banEndpoint e s = .ok s') : Sound s' := by
  obtain ⟨hrpc, hkeys⟩ := MultiEndpointHandler.banEndpoint_derived h
  exact hs.of_keys hrpc hkeys

/-- **What the owner of a handler calls keeps it sound.** -/
theorem Sound.ownerCall (hs : Sound s) {c : OwnerCall} (hc : c.Drawn) (h : c.run L s = .ok s') :
    Sound s' := by
  cases c with
  | rpc c => exact hs.rights_path (call_path h)
  | sendSessionKey key => exact hs.sendSessionKey hc h
  | banEndpoint e => exact hs.banEndpoint h
  | addEndpoints es =>
      cases h
      exact hs.of_keys rfl (MultiEndpointHandler.addEndpoints_derived es s.sub)

theorem sound_make {c : Construction} (hc : c.Drawn) (h : c.make L = .ok s) : Sound s := by
  obtain ⟨s₀, h₀, h⟩ := bind_ok.mp h
  exact foldlM_invariant (I := Sound) (fun s₁ call s₂ hcall hs₁ h₂ => hs₁.ownerCall (hc _ hcall) h₂)
    (sound_new h₀) h

end EncryptedMultiEndpointHandler

end Wga
