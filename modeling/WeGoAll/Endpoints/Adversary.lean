import WeGoAll.Endpoints.Cloaked

/-!
# Endpoints — Adversary

Two encrypted handlers and somebody between them who delivers any message, but cannot seal.

* `Unforged`: what opens in a message was sealed and posted by a side that has the key.
* `attacked`: the runs.
* `Shielded`: both sides are cloaked towards everybody.
* `authenticity`: the payloads an application gets are payloads an application gave.
-/

namespace Wga

open BiDirectionalRpc

/-! ### Two handlers -/

/-- The side `z` was given the payload, or it is one of its own words. -/
def Spoken (es : List EncryptedEvent) (z : Side) (p : Bytes) : Prop :=
  p ∈ ownWords ∨ ∃ c : Call, .handler z (.owner (.rpc c)) ∈ es ∧ p ∈ c.payload

theorem Spoken.mono {es : List EncryptedEvent} {z : Side} {p : Bytes} (h : Spoken es z p)
    (e : EncryptedEvent) : Spoken (es ++ [e]) z p :=
  h.imp_right fun ⟨c, hc, hp⟩ => ⟨c, List.mem_append_left _ hc, hp⟩

namespace EncryptedPair

open CryptoHandler EncryptedMultiEndpointHandler

variable {L : Libraries} {privateKey : Side → PrivateKey} {es : List EncryptedEvent}
  {s s' : EncryptedPair} {x : Side}

/-- The key the side `z` has drawn. -/
def Holds (s : EncryptedPair) (z : Side) (key : SessionKey) : Prop :=
  key ≠ emptySessionKey ∧ key = (s z).sub.derived.outgoingSessionKey

/-- What opens in a message was sealed by a side that has the key: a session key that opens is one a
side has drawn, and what opens under the key of a side is in a message this side has posted. -/
structure Unforged (L : Libraries) (s : EncryptedPair) (x : Side) (message : Bytes) : Prop where
  handshakes : ∀ packet : Packet, packet.Reads (L.unpack message) → ∀ h ∈ packet.handshakes,
    ∀ key, openHandshake L h (s x).sub.derived = .ok (some key) →
      ∃ z, key = (s z).sub.derived.outgoingSessionKey
  ciphertexts : ∀ packet : Packet, packet.Reads (L.unpack message) → ∀ c ∈ packet.ciphertexts,
    ∀ z key q, s.Holds z key → openSecret L key c = some q → ∃ m,
      WGA_MAGIC ++ m ∈ (s z).sub.posted ∧
        ∃ packet' : Packet, packet'.Reads (L.unpack m) ∧ c ∈ packet'.ciphertexts

/-- When an event may happen to the side `x`: a message comes from anybody, as long as it is not
forged. -/
def Allows (L : Libraries) (s : EncryptedPair) (x : Side) : HandlerEvent → Prop
  | .owner (.rpc c) => c.Uuid4
  | .owner (.sendSessionKey key) => key ≠ emptySessionKey
  | .owner (.banEndpoint _) | .owner (.addEndpoints _) | .resurrect _ => True
  | .receive message => s.Unforged L x message

/-- One side moves. -/
inductive Attacked (L : Libraries) : EncryptedPair → EncryptedEvent → EncryptedPair → Prop where
  | handler {s : EncryptedPair} {x : Side} {e : HandlerEvent} {v : EncryptedHandler}
      (ho : s.Allows L x e) (h : step L (s x) e = .ok v) :
      Attacked L s (.handler x e) (Function.update s x v)
  | rehash {s : EncryptedPair} {x : Side} {r : Rpc} (h : (s x).rpc.Rehashed r) :
      Attacked L s (.rehash x) (Function.update s x { s x with rpc := r })

end EncryptedPair

/-- Two handlers with the public keys of each other, and somebody who delivers any message. -/
def attacked (L : Libraries) (privateKey : Side → PrivateKey) :
    System EncryptedPair EncryptedEvent where
  init := (handshaking L privateKey).init
  step := EncryptedPair.Attacked L

namespace EncryptedPair

open CryptoHandler EncryptedMultiEndpointHandler

variable {L : Libraries} {privateKey : Side → PrivateKey} {es : List EncryptedEvent}
  {s s' : EncryptedPair} {x : Side}

/-- A side that has the key was given the payload. -/
def Heard (es : List EncryptedEvent) (s : EncryptedPair) (key : SessionKey) (p : Bytes) : Prop :=
  ∃ z, s.Holds z key ∧ Spoken es z p

theorem not_heard_empty (p : Bytes) : ¬ Heard es s emptySessionKey p :=
  fun ⟨_, hkey, _⟩ => hkey.1 rfl

/-- Both sides are cloaked, and know no key but those that were drawn. -/
def Shielded (L : Libraries) (es : List EncryptedEvent) (s : EncryptedPair) : Prop :=
  ∀ x, Cloaked L (Spoken es x) (Heard es s) (s x) ∧
    ((s x).sub.derived.incomingSessionKey ≠ emptySessionKey →
      ∃ z, s.Holds z (s x).sub.derived.incomingSessionKey)

theorem Holds.later {z : Side} {key : SessionKey} (h : s.Holds z key)
    (hlater : Later (s z).sub.derived (s' z).sub.derived) : s'.Holds z key := by
  obtain ⟨hne, rfl⟩ := h
  exact ⟨hne, (hlater.outgoing hne).symm⟩

/-- A message that is not forged is genuine at a side that is shielded. -/
theorem Unforged.genuine {message : Bytes} (h : s.Unforged L x message) (hs : s.Shielded L es)
    (packet : Packet) (hp : packet.Reads (L.unpack message)) :
    Genuine L (s x).sub.derived (fun key => ∃ z, s.Holds z key) (Heard es s) packet where
  handshakes := fun p hin key hopen hne =>
    let ⟨z, hz⟩ := h.handshakes packet hp p hin key hopen
    ⟨z, hne, hz⟩
  ciphertexts := fun c hc key q ⟨z, hz⟩ hopen => by
    obtain ⟨m, hm, packet', hreads, hc'⟩ := h.ciphertexts packet hp c hc z key q hz hopen
    obtain ⟨p, heq, hcovered⟩ := (hs z).1.posted _ hm
    cases List.append_cancel_left heq
    rw [hreads.strings_eq.2] at hc'
    obtain ⟨-, text, nonce, htext, rfl⟩ := hcovered.ciphertexts c hc'
    -- the seal is the one it was sealed with, so this is what was sealed
    rw [hz.2, openSecret_sealed] at hopen
    cases hopen
    exact ⟨z, hz, htext⟩

/-- One side moves on, and stays cloaked. -/
theorem Shielded.update (h : s.Shielded L es) {e : EncryptedEvent} {v : EncryptedHandler}
    (hv : Cloaked L (Spoken (es ++ [e]) x) (Heard (es ++ [e]) s) v ∧
      Keeping (fun key => ∃ z, s.Holds z key) (s x) v) :
    Shielded L (es ++ [e]) (Function.update s x v) := by
  have hx : Function.update s x v x = v := Function.update_self ..
  have hother : Function.update s x v x.other = s x.other :=
    Function.update_of_ne x.other_ne _ _
  have hlater : ∀ z, Later (s z).sub.derived (Function.update s x v z).sub.derived := by
    refine (Side.forall_iff x).mpr ⟨?_, ?_⟩
    · rw [hx]
      exact hv.2.later
    · rw [hother]
      exact .refl _
  have heard : ∀ key p, Heard (es ++ [e]) s key p →
      Heard (es ++ [e]) (Function.update s x v) key p := fun key p ⟨z, hz, hp⟩ =>
    ⟨z, hz.later (hlater z), hp⟩
  have held : ∀ key, (∃ z, s.Holds z key) → ∃ z, Holds (Function.update s x v) z key :=
    fun key ⟨z, hz⟩ => ⟨z, hz.later (hlater z)⟩
  refine (Side.forall_iff x).mpr ⟨?_, ?_⟩
  · rw [hx]
    exact ⟨hv.1.mono (fun _ hp => hp) (heard _), fun hne => held _ (hv.2.known hne)⟩
  · rw [hother]
    obtain ⟨hcloaked, hknown⟩ := h x.other
    refine ⟨hcloaked.mono (fun p hp => hp.mono e) fun p ⟨z, hz, hp⟩ => ?_,
      fun hne => held _ (hknown hne)⟩
    exact heard _ p ⟨z, hz, hp.mono e⟩

/-- **What a step does**, whoever delivered the message. -/
theorem Attacked.shielded {e : EncryptedEvent} (hstep : Attacked L s e s')
    (h : s.Shielded L es) : s'.Shielded L (es ++ [e]) := by
  cases hstep with
  | @handler x e v ho hrun =>
      have hsaid : Cloaked L (Spoken (es ++ [.handler x e]) x) (Heard (es ++ [.handler x e]) s)
          (s x) := (h x).1.mono (fun p hp => hp.mono _) fun p ⟨z, hz, hp⟩ => ⟨z, hz, hp.mono _⟩
      refine h.update (hsaid.step (fun q => .inl) not_heard_empty (h x).2 ?_ hrun)
      match e, ho with
      | .owner (.rpc c), ho =>
          exact ⟨ho, fun p hp => .inr ⟨c, List.mem_append_right _ (List.mem_singleton.mpr rfl), hp⟩⟩
      | .owner (.sendSessionKey key), ho => exact ho
      | .owner (.banEndpoint e), _ | .owner (.addEndpoints es), _ | .resurrect e, _ => trivial
      | .receive message, ho =>
          intro packet hp
          have hg := ho.genuine h packet hp
          exact ⟨hg.handshakes, fun c hc key q hkey hopen =>
            let ⟨z, hz, hq⟩ := hg.ciphertexts c hc key q hkey hopen
            ⟨z, hz, hq.mono _⟩⟩
  | @rehash x r hr =>
      have hsaid : Cloaked L (Spoken (es ++ [.rehash x]) x) (Heard (es ++ [.rehash x]) s) (s x) :=
        (h x).1.mono (fun p hp => hp.mono _) fun p ⟨z, hz, hp⟩ => ⟨z, hz, hp.mono _⟩
      exact h.update ⟨hsaid.rehash hr, .refl _, (h x).2⟩

/-- **Every run keeps both sides shielded.** -/
theorem run_shielded (r : (attacked L privateKey).Run es s) : s.Shielded L es := by
  refine r.invariant_history (I := Shielded L) (fun s hs x => ?_)
    fun es s e s' _ hs (h : Attacked L s e s') => h.shielded hs
  obtain ⟨endpoints, now, flaky, env, h⟩ := hs x
  obtain ⟨hcloaked, hkey⟩ := cloaked_new h
  exact ⟨hcloaked, fun hne => absurd hkey hne⟩

end EncryptedPair

open CryptoHandler EncryptedMultiEndpointHandler

/-- **Nothing is made up between two handlers.**  Whatever messages somebody delivers who cannot
seal, a key that is learned was drawn by one of the two; a request that is accepted and a reply that
is queued or handed over is a payload that the application of a side with this key gave, or one of
the four words handlers say by themselves; and no message posted holds a payload in the clear. -/
theorem authenticity {L : Libraries} {privateKey : Side → PrivateKey} {es : List EncryptedEvent}
    {s : EncryptedPair} (r : (attacked L privateKey).Run es s) (x : Side) :
    ((s x).sub.derived.canDecrypt = true →
      ∃ z, s.Holds z (s x).sub.derived.incomingSessionKey) ∧
    (∀ id p, id ≠ SESSION_KEY_RPCID → .accepted id p ∈ (s x).rpc.history →
      ∃ z, s.Holds z (s x).sub.derived.incomingSessionKey ∧ Spoken es z p) ∧
    (∀ id p, .queued id p ∈ (s x).rpc.history ∨ .handed id p ∈ (s x).rpc.history →
      ∃ z, s.Holds z (s x).sub.derived.incomingSessionKey ∧ Spoken es z p) ∧
    ∀ m ∈ (s x).sub.posted, ∃ packet : Packet, m = WGA_MAGIC ++ packet.message L ∧
      (∀ h ∈ packet.handshakes, ∃ nonce, h = handshake L (s x).sub.derived nonce) ∧
      ∀ c ∈ packet.ciphertexts, ∃ p nonce, Spoken es x p ∧ c = sealed L (s x).sub.derived p nonce := by
  obtain ⟨h, hknown⟩ := EncryptedPair.run_shielded r x
  refine ⟨fun hkey => hknown (by simpa [canDecrypt] using hkey), fun id p hne hp => ?_,
    fun id p hp => ?_, fun m hm => ?_⟩
  · exact (h.guarded.accepted id p hp).resolve_left hne
  · exact h.guarded.queued id p (hp.elim (fun hp => hp) (h.guarded.receiving.handed id p))
  · obtain ⟨packet, heq, hcovered⟩ := h.posted m hm
    exact ⟨packet, heq, fun q hq => (hcovered.handshakes q hq).2,
      fun c hc => (hcovered.ciphertexts c hc).2⟩

/-! ### A message sent on -/

namespace EncryptedPair

variable {L : Libraries} {sent : List Packet} {s s' : EncryptedPair} {x : Side} {p : Packet}

/-- A test for `Unforged`: what opens in the packet is in one of the packets `sent`, and these were
posted. -/
def unforgedBy (L : Libraries) (sent : List Packet) (s : EncryptedPair) (x : Side) (p : Packet) :
    Bool :=
  (p.handshakes.all fun h => match openHandshake L h (s x).sub.derived with
    | .ok (some key) => [Side.left, .right].any fun z =>
        key = (s z).sub.derived.outgoingSessionKey
    | .ok none | .error _ => true) &&
  p.ciphertexts.all fun c => [Side.left, .right].all fun z =>
    (openSecret L (s z).sub.derived.outgoingSessionKey c).isNone ||
      sent.any fun q => (s z).sub.posted.contains (WGA_MAGIC ++ q.message L) &&
        q.ciphertexts.contains c

theorem Unforged.of_unforgedBy (h : unforgedBy L sent s x p = true) :
    s.Unforged L x (p.message L) := by
  have hmem : ∀ z : Side, z ∈ [Side.left, .right] := fun z => by cases z <;> simp
  rw [unforgedBy, Bool.and_eq_true, List.all_eq_true, List.all_eq_true] at h
  refine ⟨fun q hq h' hin key hopen => ?_, fun q hq c hc z key text hz hopen => ?_⟩
  · rw [hq.strings_eq.1] at hin
    have hkey := h.1 h' hin
    rw [hopen] at hkey
    obtain ⟨z, -, hz⟩ := List.any_eq_true.mp hkey
    exact ⟨z, of_decide_eq_true hz⟩
  · rw [hq.strings_eq.2] at hc
    have hz' := List.all_eq_true.mp (h.2 c hc) z (hmem z)
    rw [← hz.2, hopen] at hz'
    obtain ⟨q', -, hposted, hc'⟩ : ∃ q' ∈ sent, WGA_MAGIC ++ q'.message L ∈ (s z).sub.posted ∧
        c ∈ q'.ciphertexts := by simpa using hz'
    exact ⟨q'.message L, hposted, q', q'.reads_message L, hc'⟩

/-- A test for `Allows`; the messages are among `sent`. -/
def Tries (L : Libraries) (sent : List Packet) (s : EncryptedPair) (x : Side) :
    HandlerEvent → Prop
  | .receive message => ∃ p ∈ sent, message = p.message L ∧ unforgedBy L sent s x p = true
  | e => e.Occurs (s x) (s x.other)

theorem Tries.allows {e : HandlerEvent} (h : s.Tries L sent x e) : s.Allows L x e := by
  match e, h with
  | .receive _, h =>
      obtain ⟨p, -, rfl, hp⟩ := h
      exact .of_unforgedBy hp
  | .owner (.rpc c), h | .owner (.sendSessionKey key), h => exact h
  | .owner (.banEndpoint e), _ | .owner (.addEndpoints es), _ | .resurrect e, _ => trivial

instance (L : Libraries) (sent : List Packet) (s : EncryptedPair) (x : Side) (e : HandlerEvent) :
    Decidable (s.Tries L sent x e) :=
  match e with
  | .receive message => inferInstanceAs (Decidable (∃ p ∈ sent, message = p.message L ∧
      unforgedBy L sent s x p = true))
  | .owner c => inferInstanceAs (Decidable ((HandlerEvent.owner c).Occurs (s x) (s x.other)))
  | .resurrect e =>
      inferInstanceAs (Decidable ((HandlerEvent.resurrect e).Occurs (s x) (s x.other)))

/-- An event as a computation; `rehash` changes nothing here. -/
def attack (L : Libraries) (sent : List Packet) (s : EncryptedPair) :
    EncryptedEvent → Except Fault EncryptedPair
  | .handler x e =>
      if s.Tries L sent x e then do
        let v ← step L (s x) e
        .ok (Function.update s x v)
      else .error (.thrown "is not allowed")
  | .rehash _ => .ok s

theorem attack_step {e : EncryptedEvent} (h : attack L sent s e = .ok s') : Attacked L s e s' := by
  cases e with
  | handler x e =>
      simp only [attack] at h
      split at h
      · rename_i htries
        obtain ⟨v, hv, h⟩ := bind_ok.mp h
        cases h
        exact .handler htries.allows hv
      · cases h
  | rehash x =>
      cases h
      have h : Attacked L s (.rehash x) (Function.update s x { s x with rpc := (s x).rpc }) :=
        .rehash ⟨.refl _, .refl _, .refl _, .refl _, .refl _, rfl⟩
      rwa [Function.update_eq_self] at h

end EncryptedPair

/-- The packets of the exchange of keys, and a request of the left side. -/
def intercepted : List Packet :=
  let L := Libraries.standIn
  let nonce : Nonce := .replicate 24 0
  [.request [⟨SESSION_KEY_RPCID, handshake L (aCryptoHandler .left) nonce⟩],
    .request [⟨SESSION_KEY_RPCID, handshake L (aCryptoHandler .right) nonce⟩],
    .reply [⟨SESSION_KEY_RPCID, 0, 0, sealed L (aCryptoHandler .left) OK nonce⟩],
    .reply [⟨SESSION_KEY_RPCID, 0, 0, sealed L (aCryptoHandler .right) OK nonce⟩],
    .acknowledge SESSION_KEY_RPCID (sealed L (aCryptoHandler .right) ACK_OK nonce),
    .request [⟨⟨0, 0x8000000000000000⟩, sealed L (aCryptoHandler .left) PING nonce⟩],
    .request [⟨⟨0, 5⟩, sealed L (aCryptoHandler .left) PING nonce⟩]]

/-- The left side sends a request, and it arrives under another identifier. -/
def sentOn : List EncryptedEvent :=
  let L := Libraries.standIn
  let nonce : Nonce := .replicate 24 0
  anExchange ++ [.handler .left (.owner (.rpc (.request 0x8000000000000000 PING))),
    .handler .right (.receive
      ((Packet.request [⟨⟨0, 5⟩, sealed L (aCryptoHandler .left) PING nonce⟩]).message L))]

theorem sentOn_ends : ∃ left, aStart .left = .ok left ∧ ∃ right, aStart .right = .ok right ∧
    ∃ s, sentOn.foldlM (EncryptedPair.attack .standIn intercepted) (.of left right) = .ok s ∧
      .accepted ⟨0, 5⟩ PING ∈ (s .right).rpc.history := by
  decide +kernel

/-- The right side accepts it: it is still what the left side said. -/
theorem authenticity_sentOn : ∃ s, (attacked .standIn aPrivateKey).Run sentOn s ∧
    .accepted ⟨0, 5⟩ PING ∈ (s .right).rpc.history ∧
    ∃ z, s.Holds z (s .right).sub.derived.incomingSessionKey ∧ Spoken sentOn z PING := by
  obtain ⟨left, hleft, right, hright, s, h, hacc⟩ := sentOn_ends
  have hstart : (attacked .standIn aPrivateKey).init (.of left right) := by
    intro x
    cases x with
    | left => exact ⟨_, _, _, _, hleft⟩
    | right => exact ⟨_, _, _, _, hright⟩
  have r : (attacked .standIn aPrivateKey).Run sentOn s :=
    .of_foldlM (fun _ _ _ => EncryptedPair.attack_step) hstart h
  exact ⟨s, r, hacc, (authenticity r .right).2.1 ⟨0, 5⟩ PING (by decide) hacc⟩

end Wga
