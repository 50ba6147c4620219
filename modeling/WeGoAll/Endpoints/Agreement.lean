import WeGoAll.Endpoints.Handshake
import WeGoAll.Rpc.Exchange

/-!
# Endpoints — Agreement

Two encrypted handlers that hold each other's public keys, joined by a network that may drop,
duplicate, delay and reorder what they post.

* `handshaking`: the system.  Each side sends its session key before anything arrives at it.
* `run_mutual`: both sides are as they have to be in every state.
* `Toward.proper_error`: what can still go wrong at a handler that is used properly.
* `handshake_agreement`: the keys agree once `readyToSend` holds, and it goes on to hold.
-/

namespace Wga

open BiDirectionalRpc EncryptedMultiEndpointHandler

/-! ### Two handlers -/

/-- Both handlers. -/
abbrev EncryptedPair := Side → EncryptedHandler

/-- An event of two handlers. -/
inductive EncryptedEvent where
  | handler (x : Side) (e : HandlerEvent)
  | rehash (x : Side)

/-- What the world sees to: a session key that is drawn is a key, `uuid4` draws version 4 uuids, and
what arrives at a handler that has sent its session key was posted by its peer. -/
def HandlerEvent.Occurs (s peer : EncryptedHandler) : HandlerEvent → Prop
  | .owner (.rpc c) => c.Uuid4
  | .owner (.sendSessionKey key) => key ≠ emptySessionKey
  | .owner (.banEndpoint _) | .owner (.addEndpoints _) | .resurrect _ => True
  | .receive message =>
      s.sub.derived.canEncrypt = true ∧ WGA_MAGIC ++ message ∈ peer.sub.posted

/-- What an event does. -/
inductive EncryptedPair.Step (L : Libraries) : EncryptedPair → EncryptedEvent → EncryptedPair → Prop
    where
  | handler {s : EncryptedPair} {x : Side} {e : HandlerEvent} {v : EncryptedHandler}
      (ho : e.Occurs (s x) (s x.other)) (h : step L (s x) e = .ok v) :
      Step L s (.handler x e) (Function.update s x v)
  | rehash {s : EncryptedPair} {x : Side} {r : Rpc} (h : (s x).rpc.Rehashed r) :
      Step L s (.rehash x) (Function.update s x { s x with rpc := r })

/-- The runs of two handlers in which both processes survive. -/
def handshaking (L : Libraries) (privateKey : Side → PrivateKey) :
    System EncryptedPair EncryptedEvent where
  init s := ∀ x, ∃ endpoints now flaky env, new
    (CryptoHandler.new L (privateKey x) (L.scalarmultBase (privateKey x.other))) endpoints now flaky
      env = .ok (s x)
  step := EncryptedPair.Step L

/-! ### What the endpoints of a handler have to do with its messages -/

namespace MultiEndpointHandler

variable {κ : Type}

theorem addEndpoints_posted (es : List Endpoint) (h : Handler κ) :
    (addEndpoints es h).posted = h.posted := by
  induction es generalizing h with
  | nil => rfl
  | cons e es ih =>
      refine (ih (addEndpoint e h)).trans ?_
      rw [addEndpoint]
      split_ifs <;> rfl

theorem resurrect_posted (e : Endpoint) (h : Handler κ) :
    (hasEndpointAndResurrectIfFound e h).2.posted = h.posted := by
  rw [hasEndpointAndResurrectIfFound]
  split_ifs <;> rfl

theorem killEndpoint_posted {s s' : Self (Handler κ)} (h : killEndpoint s = .ok s') :
    s'.sub.posted = s.sub.posted := by
  simp only [killEndpoint, Self.rand, Self.time] at h
  split at h
  · cases h
    rfl
  · split at h
    · cases h
      rfl
    · cases h

theorem banEndpoint_posted {e : Endpoint} {s s' : Self (Handler κ)}
    (h : banEndpoint e s = .ok s') : s'.sub.posted = s.sub.posted := by
  simp only [banEndpoint] at h
  split at h
  · obtain ⟨s₁, h₁, h⟩ := bind_ok.mp h
    cases h
    exact (killEndpoint_posted h₁ :)
  · cases h
    rfl

theorem banEndpoint_ends (e : Endpoint) (s : Self (Handler κ)) :
    ∃ s', banEndpoint e s = .ok s' := by
  simp only [banEndpoint]
  split
  · exact bind_ends (killEndpoint_ends _) fun _ _ => ⟨_, rfl⟩
  · exact ⟨_, rfl⟩

end MultiEndpointHandler

namespace EncryptedMultiEndpointHandler

variable {L : Libraries} {c d : CryptoHandler} {s s' : EncryptedHandler}

/-! ### One event -/

theorem toward_new {crypto : CryptoHandler} {endpoints : List Endpoint} {now : Int} {flaky : Bool}
    {env : Env} (hpeers : Peers L crypto d) (h : new crypto endpoints now flaky env = .ok s) :
    Toward L d s := by
  have hsound := sound_new h
  obtain ⟨handler, hn, h⟩ := bind_ok.mp h
  split at h
  · cases h
  · rename_i hkeys
    cases h
    unfold MultiEndpointHandler.new at hn
    split at hn
    · cases hn
    · cases hn
      simp only [Bool.or_eq_true, not_or, CryptoHandler.canDecrypt, CryptoHandler.canEncrypt,
        ne_eq, decide_not, Bool.not_eq_true', decide_eq_false_iff_not, not_not] at hkeys
      refine ⟨hsound, ⟨?_, ?_, ?_, ?_, ?_, ?_⟩, ?_, ⟨?_, ?_⟩, hpeers, fun hne => ?_, fun hne => ?_⟩
      · simp [BiDirectionalRpc.new]
      · exact AList.notMem_empty _
      · intro p hp
        cases hp
      · exact fun id hid => absurd hid (AList.notMem_empty id)
      · simp [BiDirectionalRpc.new]
      · rintro id - (hid | hid)
        · exact absurd hid (hsound.unarmed hkeys.2 id)
        · cases hid
      · exact fun m hm => absurd hm List.not_mem_nil
      · exact fun id hid => absurd hid (Finset.notMem_empty id)
      · exact fun id hid => absurd hid List.not_mem_nil
      · exact absurd hkeys.1 hne
      · exact absurd hkeys.2 hne

theorem step_receive_ok {message : Bytes} (h : step L s (.receive message) = .ok s') :
    ∃ b, receive L message s = .ok (b, s') := by
  cases hr : receive L message s with
  | error f =>
      rw [step, hr] at h
      cases h
  | ok r =>
      rw [step, hr] at h
      cases h
      exact ⟨r.1, rfl⟩

/-- **An event keeps a handler as it has to be.** -/
theorem Toward.step {peer : EncryptedHandler} (h : Toward L peer.sub.derived s)
    (hp : Toward L s.sub.derived peer) {e : HandlerEvent} (ho : e.Occurs s peer)
    (hrun : step L s e = .ok s') : Toward L peer.sub.derived s' ∧ Onward s s' := by
  cases e with
  | owner c =>
      cases c with
      | rpc c => exact h.call ho hrun
      | sendSessionKey key => exact h.sendSessionKey ho hrun
      | banEndpoint e =>
          obtain ⟨hrpc, hkeys⟩ := MultiEndpointHandler.banEndpoint_derived hrun
          exact h.of_keys hrpc hkeys (MultiEndpointHandler.banEndpoint_posted hrun)
      | addEndpoints es =>
          cases hrun
          exact h.of_keys rfl (MultiEndpointHandler.addEndpoints_derived es s.sub)
            (MultiEndpointHandler.addEndpoints_posted es s.sub)
  | receive message =>
      obtain ⟨b, hrun⟩ := step_receive_ok hrun
      obtain ⟨p, heq, hfair⟩ := hp.posted _ ho.2
      cases List.append_cancel_left heq
      exact h.receive hp.peers hfair hrun
  | resurrect source =>
      cases hrun
      exact h.of_keys rfl (MultiEndpointHandler.resurrect_derived source s.sub)
        (MultiEndpointHandler.resurrect_posted source s.sub)

/-- A table that changes its order keeps a handler as it has to be. -/
theorem Toward.rehash (h : Toward L d s) {r : Rpc} (hr : s.rpc.Rehashed r) :
    Toward L d { s with rpc := r } ∧ Onward s { s with rpc := r } :=
  h.unanswered_path (.move (.rehash hr))

/-! ### Every run -/


end EncryptedMultiEndpointHandler

namespace EncryptedPair

variable {L : Libraries} {privateKey : Side → PrivateKey} {s s' : EncryptedPair} {x : Side}

/-- Each side is as it has to be towards the other. -/
def Mutual (L : Libraries) (s : EncryptedPair) : Prop :=
  ∀ x : Side, Toward L (s x.other).sub.derived (s x)

/-- One side moves on, and is as it has to be. -/
theorem Mutual.update (h : s.Mutual L) {v : EncryptedHandler}
    (hv : Toward L (s x.other).sub.derived v ∧ Onward (s x) v) :
    Mutual L (Function.update s x v) ∧ ∀ z, Onward (s z) (Function.update s x v z) := by
  have hx : Function.update s x v x = v := Function.update_self ..
  have hother : Function.update s x v x.other = s x.other :=
    Function.update_of_ne x.other_ne _ _
  refine ⟨(Side.forall_iff x).mpr ⟨?_, ?_⟩, (Side.forall_iff x).mpr ⟨?_, ?_⟩⟩
  · rw [hx, hother]
    exact hv.1
  · rw [hother, Side.other_other, hx]
    have hback := h x.other
    rw [Side.other_other] at hback
    exact hback.later hv.2.later
  · rw [hx]
    exact hv.2
  · rw [hother]
    exact .refl _

/-- **What a step does**: both sides move on, and are as they have to be. -/
theorem Step.mutual {e : EncryptedEvent} (hstep : Step L s e s') (h : s.Mutual L) :
    s'.Mutual L ∧ ∀ x, Onward (s x) (s' x) := by
  cases hstep with
  | @handler x e v ho hrun =>
      have hback := h x.other
      rw [Side.other_other] at hback
      exact h.update ((h x).step hback ho hrun)
  | @rehash x r hr => exact h.update ((h x).rehash hr)

/-- **Every run keeps both sides as they have to be.** -/
theorem run_mutual (hr : (handshaking L privateKey).Reachable s) : s.Mutual L := by
  obtain ⟨es, r⟩ := hr
  refine r.invariant (I := Mutual L) (fun s hs x => ?_) fun s e s' hs h => (h.mutual hs).1
  obtain ⟨endpoints, now, flaky, env, h⟩ := hs x
  have derived : ∀ {crypto endpoints now flaky env} {s : EncryptedHandler},
      new crypto endpoints now flaky env = .ok s → s.sub.derived = crypto := by
    intro crypto endpoints now flaky env s h
    obtain ⟨handler, hn, h⟩ := bind_ok.mp h
    split at h
    · cases h
    · cases h
      unfold MultiEndpointHandler.new at hn
      split at hn
      · cases hn
      · cases hn
        rfl
  obtain ⟨endpoints', now', flaky', env', h'⟩ := hs x.other
  refine toward_new ⟨rfl, ?_⟩ h
  rw [derived h']
  rfl

end EncryptedPair

/-! ### What can still go wrong -/

/-- How the handshake, `encrypt`, `decrypt`, `reply` and `requestWithId` end the process. -/
def handshakeFaults : List Fault :=
  [.fatal "Tried to generate a session key when one already exists!",
    .fatal "Tried to receive a session key when one already exists!",
    .fatal "Decoded string is of the wrong size: ",
    .fatal "Tried to use a session key when one doesn't exist!",
    .fatal "Tried to send data before we were ready: ",
    .fatal "Got reply before we were ready, something went wrong ",
    .fatal "Tried to reply but had no request: "]

/-- The application requests only while `readyToSend` holds and replies to requests that wait. -/
def Call.Proper (s : EncryptedHandler) : Call → Prop
  | .request _ _ | .requestOneWay _ _ => readyToSend s = true
  | .sendShutdown _ => s.rpc.shuttingDown = true ∨ readyToSend s = true
  | .reply rpcId _ => rpcId ∈ s.rpc.incomingRequests
  | .getFirstIncomingReply | .consumeIncomingReplyWithId _ | .barrier | .heartbeat _
  | .resendRandomOutgoingMessage | .shutdown => True

/-- So does the owner, and it sends the session key once. -/
def HandlerEvent.Proper (s : EncryptedHandler) : HandlerEvent → Prop
  | .owner (.rpc c) => c.Proper s
  | .owner (.sendSessionKey _) => s.sub.derived.canEncrypt = false
  | .owner (.banEndpoint _) | .owner (.addEndpoints _) | .receive _ | .resurrect _ => True

/-- The identifier of a request in flight is drawn again. -/
def HandlerEvent.Repeats (s : EncryptedHandler) : HandlerEvent → Prop
  | .owner (.rpc c) => ∃ uuid ∈ c.uuid, ⟨s.rpc.onBarrier, uuid⟩ ∈ s.rpc.outgoingRequests
  | .owner _ | .receive _ | .resurrect _ => False

/-- A way to fail that has nothing to do with the exchange of keys: not one of the above, and a
request is a duplicate only where an identifier is drawn again. -/
def HandlerEvent.Harmless (s : EncryptedHandler) (e : HandlerEvent) (f : Fault) : Prop :=
  f ∉ handshakeFaults ∧ (f = .fatal "Duplicate request" → e.Repeats s)

namespace EncryptedMultiEndpointHandler

variable {L : Libraries} {d : CryptoHandler} {s s' : EncryptedHandler} {f : Fault}

theorem requestWithId_error {e : IdPayload} (hready : readyToSend s = true)
    (hc : s.rpc.Consistent .idle) (h : requestWithId L e s = .error f) :
    f = .fatal "Duplicate request" ∧ e.id ∈ s.rpc.outgoingRequests := by
  have hkey := (readyToReceive_iff.mp (readyToSend_iff.mp hready).2.2).2
  simp only [requestWithId, hready, Bool.not_true, Bool.false_eq_true, if_false] at h
  rcases bind_error.mp h with h | ⟨r, hr, h⟩
  · obtain ⟨r, hr⟩ := encrypt_ends (L := L) e.payload hkey
    rw [hr] at h
    cases h
  · obtain ⟨-, nonce, env, rfl⟩ := encrypt_ok hr
    obtain ⟨rfl, hid⟩ := BiDirectionalRpc.requestWithId_error send_ends h
    exact ⟨rfl, by simpa using (hc.sendTime e.id).mp hid⟩

/-- A call that ends fails in no way. -/
theorem harmless_of_ends {e : HandlerEvent} {x : Except Fault EncryptedHandler}
    (hx : ∃ s', x = .ok s') (h : x = .error f) : e.Harmless s f := by
  obtain ⟨s', rfl⟩ := hx
  cases h

/-- A request of a handler that is ready. -/
theorem request_error {c : Call} {r : Rpc} {uuid : UInt64} {p : Bytes} (hu : uuid ∈ c.uuid)
    (hready : readyToSend { s with rpc := r } = true) (hc : r.Consistent .idle)
    (hout : r.outgoingRequests = s.rpc.outgoingRequests)
    (h : requestWithId L ⟨⟨s.rpc.onBarrier, uuid⟩, p⟩ { s with rpc := r } = .error f) :
    (HandlerEvent.owner (.rpc c)).Harmless s f := by
  obtain ⟨rfl, hid⟩ := requestWithId_error hready hc h
  exact ⟨by simp [handshakeFaults], fun _ => ⟨uuid, hu, hout ▸ hid⟩⟩

theorem requestOneWay_error {c : Call} {uuid : UInt64} {p : Bytes} (hu : uuid ∈ c.uuid)
    (hready : readyToSend s = true) (hc : s.rpc.Consistent .idle)
    (h : BiDirectionalRpc.requestOneWay (virtuals L) uuid p s = .error f) :
    (HandlerEvent.owner (.rpc c)).Harmless s f :=
  request_error (r := { s.rpc.record (.requestedOneWay ⟨s.rpc.onBarrier, uuid⟩ p) with
    oneWayRequests := insert ⟨s.rpc.onBarrier, uuid⟩ s.rpc.oneWayRequests }) hu hready { hc with }
    rfl h

/-- **A proper call** ends, or fails for another reason than the exchange of keys. -/
theorem proper_call_error (hc : s.rpc.Consistent .idle)
    (hreceived : ∀ id ∈ s.rpc.incomingRequests, s.sub.derived.Keyed) {c : Call} (hp : c.Proper s)
    (h : c.run L (virtuals L) s = .error f) : (HandlerEvent.owner (.rpc c)).Harmless s f := by
  cases c with
  | request uuid p =>
      exact request_error (r := s.rpc.record (.requested ⟨s.rpc.onBarrier, uuid⟩ p)) rfl hp
        { hc with } rfl h
  | requestOneWay uuid p => exact requestOneWay_error rfl hp hc h
  | reply id p =>
      exact harmless_of_ends (reply_ends (keyed_iff.mpr (hreceived id hp)) hc hp) h
  | getFirstIncomingReply =>
      simp only [Call.run, getFirstIncomingReply] at h
      split at h
      · cases h
        simp [HandlerEvent.Harmless, handshakeFaults]
      · cases h
  | consumeIncomingReplyWithId id =>
      simp only [Call.run, consumeIncomingReplyWithId] at h
      split at h
      · cases h
        simp [HandlerEvent.Harmless, handshakeFaults]
      · cases h
  | barrier =>
      simp only [Call.run, barrier] at h
      split at h
      · cases h
        simp [HandlerEvent.Harmless, handshakeFaults]
      · cases h
  | heartbeat uuid =>
      simp only [Call.run, heartbeat] at h
      split at h
      · exact harmless_of_ends (resend_ends send_ends hc) h
      · split at h
        · rename_i hready
          exact requestOneWay_error rfl hready.1 hc h
        · cases h
  | resendRandomOutgoingMessage => exact harmless_of_ends (resend_ends send_ends hc) h
  | sendShutdown uuid =>
      simp only [Call.run, BiDirectionalRpc.sendShutdown] at h
      split at h
      · cases h
      · rename_i hopen
        exact requestOneWay_error rfl (hp.resolve_left hopen) hc h
  | shutdown => cases h

/-- **What the peer posted is received to its end.** -/
theorem Toward.message_ends (h : Toward L d s) (hd : Peers L d s.sub.derived)
    (hkey : s.sub.derived.outgoingSessionKey ≠ emptySessionKey) {packet : Packet}
    (hp : Fair L d packet) : ∃ b s',
    EncryptedMultiEndpointHandler.receive L (packet.message L) s = .ok (b, s') := by
  have hreads := packet.reads_message L
  refine (receive_ends_iff ⟨h.sound, hkey⟩ _).mpr ⟨hreads.headed, .inr ⟨packet, hreads, ?_⟩⟩
  rintro - es rfl
  -- a handshake among the entries gives the peer's key, and nothing after it is looked at
  have digests : ∀ l : List IdPayload, (∀ e ∈ l, e ∈ es) → Digests L s.sub.derived l := by
    intro l
    induction l with
    | nil => exact fun _ => trivial
    | cons e l ih =>
        intro hl
        rw [Digests]
        split
        · rename_i hid
          obtain ⟨hne, nonce, heq⟩ := hp e (hl e List.mem_cons_self) hid
          rw [heq, openHandshake_handshake nonce hd.myPublicKey hd.otherPublicKey
            h.peers.otherPublicKey]
          exact hne
        · exact ih fun a ha => hl a (List.mem_cons_of_mem _ ha)
  exact digests es fun _ => id

/-- **What arrives from the peer is received to its end.** -/
theorem Toward.arrival_ends {peer : EncryptedHandler} (h : Toward L peer.sub.derived s)
    (hpeer : Toward L s.sub.derived peer) {message : Bytes}
    (ho : (HandlerEvent.receive message).Occurs s peer) :
    ∃ v, EncryptedMultiEndpointHandler.step L s (.receive message) = .ok v := by
  obtain ⟨packet, heq, hfair⟩ := hpeer.posted _ ho.2
  cases List.append_cancel_left heq
  obtain ⟨b, v, hv⟩ := h.message_ends hpeer.peers
    (by simpa [CryptoHandler.canEncrypt] using ho.1) hfair
  exact ⟨v, step_receive hv⟩

/-- **A proper event** ends, or fails for another reason than the exchange of keys. -/
theorem Toward.proper_error {peer : EncryptedHandler} (h : Toward L peer.sub.derived s)
    (hpeer : Toward L s.sub.derived peer) {e : HandlerEvent} (ho : e.Occurs s peer)
    (hp : e.Proper s) (hrun : EncryptedMultiEndpointHandler.step L s e = .error f) :
    e.Harmless s f := by
  cases e with
  | owner c =>
      cases c with
      | rpc c =>
          exact proper_call_error h.sound.consistent (fun id hid => (h.greeting.received id hid).2)
            hp hrun
      | sendSessionKey key =>
          have hkey : s.sub.derived.outgoingSessionKey = emptySessionKey := by
            simpa [HandlerEvent.Proper, CryptoHandler.canEncrypt] using hp
          refine harmless_of_ends (sendSessionKey_ends hkey h.sound.consistent ?_) hrun
          exact UnorderedMap.entries_eq_nil.mpr fun id hid => h.sound.unarmed hkey id (.inl hid)
      | banEndpoint e => exact harmless_of_ends (MultiEndpointHandler.banEndpoint_ends e s) hrun
      | addEndpoints es => cases hrun
  | receive message =>
      obtain ⟨v, hv⟩ := h.arrival_ends hpeer ho
      exact harmless_of_ends ⟨v, hv⟩ hrun
  | resurrect source => cases hrun

end EncryptedMultiEndpointHandler

/-! ### The exchange -/

/-- **The exchange of session keys.**  In every state of two handlers, and for either side:

* a proper event fails at most for reasons that have nothing to do with the exchange, and what
  arrives is received to its end;
* when it is ready to send, each key is the one of the other side and the other side is ready to
  receive, and it stays ready to send;
* every reply that took a request of the application out of the table was queued for it, unless
  nobody waits for it. -/
theorem handshake_agreement {L : Libraries} {privateKey : Side → PrivateKey} {s : EncryptedPair}
    (hr : (handshaking L privateKey).Reachable s) (x : Side) :
    (∀ e f, e.Occurs (s x) (s x.other) → e.Proper (s x) → step L (s x) e = .error f →
      e.Harmless (s x) f) ∧
    (∀ message, (HandlerEvent.receive message).Occurs (s x) (s x.other) →
      ∃ v, step L (s x) (.receive message) = .ok v) ∧
    (readyToSend (s x) = true →
      (s x).sub.derived.outgoingSessionKey = (s x.other).sub.derived.incomingSessionKey ∧
      (s x).sub.derived.incomingSessionKey = (s x.other).sub.derived.outgoingSessionKey ∧
      readyToReceive (s x.other) = true) ∧
    (readyToSend (s x) = true → ∀ s', (handshaking L privateKey).Leads s s' →
      readyToSend (s' x) = true) ∧
    ∀ id, .completed id ∈ (s x).rpc.history → id = SESSION_KEY_RPCID ∨
      (∃ p, .requestedOneWay id p ∈ (s x).rpc.history) ∨
      ∃ p, .queued id p ∈ (s x).rpc.history := by
  have hs := EncryptedPair.run_mutual hr
  have hother := hs x.other
  rw [Side.other_other] at hother
  refine ⟨fun e f ho hp hrun => (hs x).proper_error hother ho hp hrun,
    fun message ho => (hs x).arrival_ends hother ho, fun hready => ?_, fun hready s' hl => ?_,
    fun id hid => (hs x).disposed.idle hid⟩
  · have hready := ready_iff.mp hready
    have hkeyed := ((hs x).greeted hready.keyed.outgoing).resolve_left hready.answered
    exact ⟨(hother.learned hkeyed.incoming).symm, (hs x).learned hready.keyed.incoming,
      keyed_iff.mpr hkeyed⟩
  · refine hl.invariant (I := fun s => readyToSend (s x) = true) (fun a e b ha hready hab => ?_)
      hr hready
    have ho := (EncryptedPair.Step.mutual hab (EncryptedPair.run_mutual ha)).2 x
    exact ready_iff.mpr (ho.ready (ready_iff.mp hready))

/-! ### A run -/

instance (s peer : EncryptedHandler) (e : HandlerEvent) : Decidable (e.Occurs s peer) :=
  match e with
  | .owner (.rpc c) =>
      match hc : c.uuid with
      | none => .isTrue fun uuid hu => by
          rw [hc] at hu
          cases hu
      | some uuid => decidable_of_iff (2 ^ 63 ≤ uuid.toNat)
          ⟨fun h a ha => by cases hc.symm.trans ha; exact h, fun h => h uuid hc⟩
  | .owner (.sendSessionKey key) => inferInstanceAs (Decidable (key ≠ emptySessionKey))
  | .owner (.banEndpoint _) | .owner (.addEndpoints _) | .resurrect _ => .isTrue trivial
  | .receive message => inferInstanceAs (Decidable (_ ∧ _))

/-- An event as a computation; `rehash` changes nothing here. -/
def EncryptedPair.exec (L : Libraries) (s : EncryptedPair) :
    EncryptedEvent → Except Fault EncryptedPair
  | .handler x e =>
      if e.Occurs (s x) (s x.other) then do
        let v ← step L (s x) e
        .ok (Function.update s x v)
      else .error (.thrown "does not occur")
  | .rehash _ => .ok s

theorem EncryptedPair.exec_step {L : Libraries} {s s' : EncryptedPair} {e : EncryptedEvent}
    (h : exec L s e = .ok s') : Step L s e s' := by
  cases e with
  | handler x e =>
      simp only [exec] at h
      split at h
      · obtain ⟨v, hv, h⟩ := bind_ok.mp h
        cases h
        exact .handler ‹_› hv
      · cases h
  | rehash x =>
      cases h
      have h : Step L s (.rehash x) (Function.update s x { s x with rpc := (s x).rpc }) :=
        .rehash ⟨.refl _, .refl _, .refl _, .refl _, .refl _, rfl⟩
      rwa [Function.update_eq_self] at h

/-- The private keys of the two sides. -/
def aPrivateKey : Side → PrivateKey
  | .left => .replicate 32 1
  | .right => .replicate 32 2

/-- The crypto handler of a side that has drawn its session key. -/
def aCryptoHandler (x : Side) : CryptoHandler :=
  let L := Libraries.standIn
  { CryptoHandler.new L (aPrivateKey x) (L.scalarmultBase (aPrivateKey x.other)) with
    outgoingSessionKey := aPrivateKey x }

/-- Both sides send their session keys, and what they answer arrives. -/
def anExchange : List EncryptedEvent :=
  let L := Libraries.standIn
  let nonce : Nonce := .replicate 24 0
  let keyOf (x : Side) : EncryptedEvent := .handler x (.owner (.sendSessionKey (aPrivateKey x)))
  let arrives (x : Side) (p : Packet) : EncryptedEvent := .handler x (.receive (p.message L))
  let handshake (x : Side) : Packet :=
    .request [⟨SESSION_KEY_RPCID, handshake L (aCryptoHandler x) nonce⟩]
  let answer (x : Side) : Packet :=
    .reply [⟨SESSION_KEY_RPCID, 0, 0, sealed L (aCryptoHandler x) OK nonce⟩]
  let acknowledge (x : Side) : Packet :=
    .acknowledge SESSION_KEY_RPCID (sealed L (aCryptoHandler x) ACK_OK nonce)
  [keyOf .left, keyOf .right, arrives .right (handshake .left), arrives .left (handshake .right),
    arrives .left (answer .right), arrives .right (answer .left), arrives .left (acknowledge .right)]

def aStart (x : Side) : Except Fault EncryptedHandler :=
  let L := Libraries.standIn
  new (CryptoHandler.new L (aPrivateKey x) (L.scalarmultBase (aPrivateKey x.other))) [⟨1, 1⟩] 1 false
    default

def EncryptedPair.of (left right : EncryptedHandler) : EncryptedPair
  | .left => left
  | .right => right

theorem anExchange_ends : ∃ left, aStart .left = .ok left ∧ ∃ right, aStart .right = .ok right ∧
    ∃ s, anExchange.foldlM (EncryptedPair.exec .standIn) (.of left right) = .ok s ∧
      readyToSend (s .left) = true := by
  decide +kernel

/-- The keys after that run. -/
theorem handshake_agreement_exchanged : ∃ s, (handshaking .standIn aPrivateKey).Reachable s ∧
    readyToSend (s .left) = true ∧
    (s .left).sub.derived.outgoingSessionKey = (s .right).sub.derived.incomingSessionKey ∧
    (s .left).sub.derived.incomingSessionKey = (s .right).sub.derived.outgoingSessionKey ∧
    readyToReceive (s .right) = true := by
  obtain ⟨left, hleft, right, hright, s, h, hready⟩ := anExchange_ends
  have hstart : (handshaking .standIn aPrivateKey).init (.of left right) := by
    intro x
    cases x with
    | left => exact ⟨_, _, _, _, hleft⟩
    | right => exact ⟨_, _, _, _, hright⟩
  have hr : (handshaking .standIn aPrivateKey).Reachable s :=
    ⟨anExchange, .of_foldlM (fun _ _ _ => EncryptedPair.exec_step) hstart h⟩
  exact ⟨s, hr, hready, (handshake_agreement hr .left).2.2.1 hready⟩

end Wga
