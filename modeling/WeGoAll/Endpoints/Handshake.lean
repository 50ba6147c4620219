import WeGoAll.Endpoints.Datagrams
import WeGoAll.Rpc.Entries

/-!
# Endpoints — Handshake

One side of the exchange of session keys, given the crypto handler of the other side.

* `Greeting`: what the tables of a handler have to do with its keys.  The handshake request goes out
  first and alone, everything else waits for the exchange to be over.
* `Fair`: what a handler puts into its packets.
* `Toward`: a handler and the crypto handler of its peer.
* `Toward.call`, `Toward.receive`: what happens to a handler keeps it so, its keys stay once they
  are there, and so does `readyToSend`.
-/

namespace Wga

open BiDirectionalRpc

/-- Both keys are there: `readyToReceive`. -/
structure CryptoHandler.Keyed (c : CryptoHandler) : Prop where
  incoming : c.incomingSessionKey ≠ emptySessionKey
  outgoing : c.outgoingSessionKey ≠ emptySessionKey

namespace EncryptedMultiEndpointHandler

open CryptoHandler

variable {L : Libraries} {R : Rights} {c d : CryptoHandler} {s s' : EncryptedHandler}

/-- What `readyToSend` looks at. -/
structure Ready (c : CryptoHandler) (r : Rpc) : Prop where
  keyed : c.Keyed
  answered : SESSION_KEY_RPCID ∉ r.outgoingRequests
  acknowledged : SESSION_KEY_RPCID ∉ r.outgoingReplies

theorem keyed_iff : readyToReceive s = true ↔ s.sub.derived.Keyed :=
  readyToReceive_iff.trans ⟨fun ⟨h₁, h₂⟩ => ⟨h₁, h₂⟩, fun h => ⟨h.incoming, h.outgoing⟩⟩

theorem ready_iff : readyToSend s = true ↔ Ready s.sub.derived s.rpc := by
  rw [readyToSend_iff, keyed_iff]
  exact ⟨fun ⟨h₁, h₂, h₃⟩ => ⟨h₃, h₁, h₂⟩, fun h => ⟨h.answered, h.acknowledged, h.keyed⟩⟩

/-! ### The tables -/

/-- The tables of a handler with the keys `c`. -/
structure Greeting (L : Libraries) (c : CryptoHandler) (ph : Phase) (r : Rpc) : Prop where
  handshake : ∀ p, r.outgoingRequests.lookup SESSION_KEY_RPCID = some p →
    c.outgoingSessionKey ≠ emptySessionKey ∧ ∃ nonce, p = handshake L c nonce
  prompt : SESSION_KEY_RPCID ∉ r.delayedRequests
  unissued : ∀ p, ph ≠ .issuing SESSION_KEY_RPCID p
  received : ∀ id ∈ r.incomingRequests, id ≠ SESSION_KEY_RPCID ∧ c.Keyed
  stored : ∀ id p, r.outgoingReplies.lookup id = some p →
    c.Keyed ∧ ∃ q nonce, p = sealed L c q nonce
  ready : ∀ id, id ≠ SESSION_KEY_RPCID → r.Pending ph id ∨ ph = .completing id → Ready c r

/-- The rights of an operation of a handler with the keys `c` that completes the requests `done`
and may drop a reply when `drops` holds. -/
def fairRights (L : Libraries) (c : CryptoHandler) (done : RpcId → Prop) (drops : Prop) :
    Rights where
  may := fun r e => match e with
    | .requested id _ | .requestedOneWay id _ => id ≠ SESSION_KEY_RPCID ∧ Ready c r
    | .accepted id _ => id ≠ SESSION_KEY_RPCID ∧ c.Keyed
    | .replied _ p => ∃ q nonce, p = sealed L c q nonce
    | .completed id => done id
    | .queued _ _ | .handed _ _ => True
  discards := fun _ => True
  rewrites := fun _ _ => True
  drops := drops
  greets := False

section Moves

variable {done : RpcId → Prop} {drops : Prop} {ph ph' : Phase} {r r' : Rpc}

/-- A move sends no handshake. -/
theorem Greeting.unsent (h : Greeting L c ph r) (hm : Move L R ph r ph' r') {p : Bytes}
    (hp : r'.outgoingRequests.lookup SESSION_KEY_RPCID = some p) :
    r.outgoingRequests.lookup SESSION_KEY_RPCID = some p := by
  rcases hm.outgoing_lookup hp with hp | ⟨q, hq⟩ | hdel
  · exact hp
  · exact absurd hq (h.unissued q)
  · exact absurd hdel h.prompt

/-- **Once ready, a handler stays ready.** -/
theorem Greeting.ready_move (h : Greeting L c ph r) (hm : Move L R ph r ph' r')
    (hr : Ready c r) : Ready c r' where
  keyed := hr.keyed
  answered := fun hout => by
    obtain ⟨p, hp⟩ := Option.isSome_iff_exists.mp (AList.lookup_isSome.mpr hout)
    exact hr.answered (AList.lookup_isSome.mp (Option.isSome_of_eq_some (h.unsent hm hp)))
  acknowledged := fun hout =>
    (hm.stored hout).elim hr.acknowledged fun hin => (h.received _ hin).1 rfl

theorem Greeting.move (h : Greeting L c ph r)
    (hm : Move L (fairRights L c done drops) ph r ph' r') : Greeting L c ph' r' where
  handshake := fun p hp => h.handshake p (h.unsent hm hp)
  prompt := fun hdel => by
    rcases hm.delayed hdel with hdel | ⟨q, hq⟩
    · exact h.prompt hdel
    · exact h.unissued q hq
  unissued := by
    rintro p rfl
    rcases hm.issuing with hmay | hmay | hmay
    · exact hmay.1 rfl
    · exact hmay.1 rfl
    · exact hmay
  received := fun id hin => (hm.incoming hin).elim (h.received id) fun ⟨_, hmay⟩ => hmay
  stored := fun id p hp => by
    rcases hm.reply_lookup hp with hp | ⟨hin, hmay⟩
    · exact h.stored id p hp
    · exact ⟨(h.received id hin).2, hmay⟩
  ready := fun id hne hid => by
    have hr : Ready c r := by
      rcases hid with hid | rfl
      · rcases hm.pending hid with hid | ⟨p, hmay⟩ | ⟨p, hmay⟩ | hmay
        · exact h.ready id hne (.inl hid)
        · exact hmay.2
        · exact hmay.2
        · exact hmay.elim
      · rcases hm.completing with hph | hout
        · exact h.ready id hne (.inr hph)
        · exact h.ready id hne (.inl (.inl hout))
    exact h.ready_move hm hr

end Moves

/-! ### The packets -/

/-- What a handler with the keys `c` puts into its packets. -/
def Fair (L : Libraries) (c : CryptoHandler) : Packet → Prop
  | .request es => ∀ e ∈ es, e.id = SESSION_KEY_RPCID →
      c.outgoingSessionKey ≠ emptySessionKey ∧ ∃ nonce, e.payload = handshake L c nonce
  | .reply es => ∀ e ∈ es, c.Keyed ∧ ∃ q nonce, e.payload = sealed L c q nonce
  | .acknowledge _ _ => True

theorem Greeting.fair {ph : Phase} {r : Rpc} (h : Greeting L c ph r) {p : Packet}
    (hp : Sends R ph r p) : Fair L c p := by
  cases p with
  | request es => exact fun e he hid => h.handshake e.payload (hid ▸ hp e he)
  | reply es => exact fun e he => h.stored e.id e.payload (hp e he)
  | acknowledge uid q => trivial

/-- The keys of a later moment: those that were there stay. -/
structure Later (c c' : CryptoHandler) : Prop where
  myPublicKey : c'.myPublicKey = c.myPublicKey
  myPrivateKey : c'.myPrivateKey = c.myPrivateKey
  otherPublicKey : c'.otherPublicKey = c.otherPublicKey
  outgoing : c.outgoingSessionKey ≠ emptySessionKey →
    c'.outgoingSessionKey = c.outgoingSessionKey
  incoming : c.incomingSessionKey ≠ emptySessionKey →
    c'.incomingSessionKey = c.incomingSessionKey

namespace Later

variable {c' c'' : CryptoHandler}

theorem refl (c : CryptoHandler) : Later c c := ⟨rfl, rfl, rfl, fun _ => rfl, fun _ => rfl⟩

theorem trans (h : Later c c') (h' : Later c' c'') : Later c c'' where
  myPublicKey := h'.myPublicKey.trans h.myPublicKey
  myPrivateKey := h'.myPrivateKey.trans h.myPrivateKey
  otherPublicKey := h'.otherPublicKey.trans h.otherPublicKey
  outgoing := fun hne => (h'.outgoing (h.outgoing hne ▸ hne)).trans (h.outgoing hne)
  incoming := fun hne => (h'.incoming (h.incoming hne ▸ hne)).trans (h.incoming hne)

theorem keyed (h : Later c c') (hc : c.Keyed) : c'.Keyed :=
  ⟨h.incoming hc.incoming ▸ hc.incoming, h.outgoing hc.outgoing ▸ hc.outgoing⟩

theorem sealed_eq (h : Later c c') (hc : c.outgoingSessionKey ≠ emptySessionKey) (q : Bytes)
    (nonce : Nonce) : sealed L c' q nonce = sealed L c q nonce := by
  rw [sealed, h.outgoing hc, sealed]

theorem handshake_eq (h : Later c c') (hc : c.outgoingSessionKey ≠ emptySessionKey)
    (nonce : Nonce) : handshake L c' nonce = handshake L c nonce := by
  simp only [handshake, encryptedKey, h.myPublicKey, h.myPrivateKey, h.otherPublicKey,
    h.outgoing hc]

end Later

/-- What was fair stays fair. -/
theorem Fair.later {c' : CryptoHandler} (hc : Later c c') {p : Packet} (h : Fair L c p) :
    Fair L c' p := by
  cases p with
  | request es =>
      intro e he hid
      obtain ⟨hne, nonce, hp⟩ := h e he hid
      exact ⟨hc.outgoing hne ▸ hne, nonce, hp.trans (hc.handshake_eq hne nonce).symm⟩
  | reply es =>
      intro e he
      obtain ⟨hkeyed, q, nonce, hp⟩ := h e he
      exact ⟨hc.keyed hkeyed, q, nonce, hp.trans (hc.sealed_eq hkeyed.outgoing q nonce).symm⟩
  | acknowledge uid q => trivial

/-! ### The replies -/

/-- The reply to the request is queued, or nobody waits for it. -/
def Settled (r : Rpc) (id : RpcId) : Prop :=
  id = SESSION_KEY_RPCID ∨ (∃ q, .requestedOneWay id q ∈ r.history) ∨ ∃ q, .queued id q ∈ r.history

/-- No reply that took its request out of the table is lost. -/
structure Disposed (ph : Phase) (r : Rpc) : Prop where
  oneWay : ∀ id ∈ r.oneWayRequests,
    id = SESSION_KEY_RPCID ∨ ∃ q, .requestedOneWay id q ∈ r.history
  settled : ∀ id, .completed id ∈ r.history → Settled r id ∨ ph = .completing id

theorem Settled.mono {r r' : Rpc} {id : RpcId} (h : Settled r id) (hr : r.history <+: r'.history) :
    Settled r' id := by
  rcases h with h | ⟨q, h⟩ | ⟨q, h⟩
  · exact .inl h
  · exact .inr (.inl ⟨q, hr.subset h⟩)
  · exact .inr (.inr ⟨q, hr.subset h⟩)

/-- Between two operations every reply that came is settled. -/
theorem Disposed.idle {r : Rpc} (h : Disposed .idle r) {id : RpcId}
    (hid : .completed id ∈ r.history) : Settled r id := by
  rcases h.settled id hid with hs | hph
  · exact hs
  · cases hph

section Moves

variable {done : RpcId → Prop} {drops : Prop} {ph ph' : Phase} {r r' : Rpc}

/-- A move loses no reply, when it drops none but the one to the handshake. -/
theorem Disposed.move (h : Disposed ph r) (hm : Move L (fairRights L c done drops) ph r ph' r')
    (hdrop : drops → ∀ id, ph = .completing id → id = SESSION_KEY_RPCID) : Disposed ph' r' where
  oneWay := fun id hid => by
    rcases hm.oneWay_mem hid with hid | hid | hmay
    · exact (h.oneWay id hid).imp_right fun ⟨q, hq⟩ => ⟨q, hm.history.subset hq⟩
    · exact .inr hid
    · exact hmay.elim
  settled := fun id hid => by
    have old : .completed id ∈ r.history → Settled r' id ∨ ph = .completing id := fun hid =>
      (h.settled id hid).imp_left fun hs => hs.mono hm.history
    have last : ∀ {e : Event}, .completed id ∈ r.history ++ [e] → e ≠ .completed id →
        .completed id ∈ r.history := fun hid hne => by
      rcases List.mem_append.mp hid with hid | hid
      · exact hid
      · exact absurd (List.mem_singleton.mp hid).symm hne
    cases hm with
    | @complete _ a =>
        rcases List.mem_append.mp hid with hid | hid
        · exact .inl ((old hid).resolve_right nofun)
        · cases List.mem_singleton.mp hid
          exact .inr rfl
    | @queue _ a q =>
        rcases old (last hid nofun) with hs | hph
        · exact .inl hs
        · cases hph
          exact .inl (.inr (.inr ⟨q, List.mem_append_right _ (List.mem_singleton.mpr rfl)⟩))
    | forget hord hone =>
        rcases old hid with hs | hph
        · exact .inl hs
        · cases hph
          exact .inl ((h.oneWay id hone).imp_right .inl)
    | drop hmay =>
        rcases old hid with hs | hph
        · exact .inl hs
        · exact .inl (.inl (hdrop hmay id hph))
    | release | unqueue => exact old hid
    | request | requestOneWay | accept | answer | take =>
        exact .inl ((old (last hid nofun)).resolve_right nofun)
    | greet | start | delay | stopClock | discard | advance | close =>
        exact .inl ((old hid).resolve_right nofun)
    | rehash hr =>
        rw [hr.rest] at hid
        exact .inl ((old hid).resolve_right nofun)

end Moves

/-! ### A handler and its peer -/

/-- The crypto handler `c` holds the public key of `d`. -/
structure Peers (L : Libraries) (c d : CryptoHandler) : Prop where
  myPublicKey : c.myPublicKey = L.scalarmultBase c.myPrivateKey
  otherPublicKey : c.otherPublicKey = L.scalarmultBase d.myPrivateKey

/-- What holds of a handler whose peer has the crypto handler `d`. -/
structure Toward (L : Libraries) (d : CryptoHandler) (s : EncryptedHandler) : Prop where
  sound : Sound s
  greeting : Greeting L s.sub.derived .idle s.rpc
  posted : ∀ m ∈ s.sub.posted, ∃ p : Packet, m = WGA_MAGIC ++ p.message L ∧ Fair L s.sub.derived p
  disposed : Disposed .idle s.rpc
  peers : Peers L s.sub.derived d
  learned : s.sub.derived.incomingSessionKey ≠ emptySessionKey →
    s.sub.derived.incomingSessionKey = d.outgoingSessionKey
  greeted : s.sub.derived.outgoingSessionKey ≠ emptySessionKey →
    SESSION_KEY_RPCID ∈ s.rpc.outgoingRequests ∨ d.Keyed

/-- What a handler was it still is: it has its keys, and it is ready if it was. -/
structure Onward (s s' : EncryptedHandler) : Prop where
  later : Later s.sub.derived s'.sub.derived
  ready : Ready s.sub.derived s.rpc → Ready s'.sub.derived s'.rpc

theorem Onward.refl (s : EncryptedHandler) : Onward s s := ⟨.refl _, id⟩

theorem Onward.trans {s'' : EncryptedHandler} (h : Onward s s') (h' : Onward s' s'') :
    Onward s s'' := ⟨h.later.trans h'.later, h'.ready ∘ h.ready⟩

/-- The peer's later keys do as well. -/
theorem Toward.later {d' : CryptoHandler} (h : Toward L d s) (hd : Later d d') : Toward L d' s where
  sound := h.sound
  greeting := h.greeting
  posted := h.posted
  disposed := h.disposed
  peers := ⟨h.peers.myPublicKey, by rw [h.peers.otherPublicKey, hd.myPrivateKey]⟩
  learned := fun hkey => by
    have heq := h.learned hkey
    rw [hd.outgoing (heq ▸ hkey), heq]
  greeted := fun hkey => (h.greeted hkey).imp_right hd.keyed

/-- A path with fair rights keeps the tables, and posts fair packets. -/
theorem Greeting.path {done : RpcId → Prop} {drops : Prop} {a b : Point (Handler CryptoHandler)}
    (hp : Path L (fairRights L c done drops) (Carries L (fairRights L c done drops)) a b)
    (h : Greeting L c a.phase a.rpc)
    (hposted : ∀ m ∈ a.sub.posted, ∃ p : Packet, m = WGA_MAGIC ++ p.message L ∧ Fair L c p) :
    Greeting L c b.phase b.rpc ∧
      (∀ m ∈ b.sub.posted, ∃ p : Packet, m = WGA_MAGIC ++ p.message L ∧ Fair L c p) ∧
      (Ready c a.rpc → Ready c b.rpc) := by
  refine hp.invariant (I := fun b => Greeting L c b.phase b.rpc ∧
    (∀ m ∈ b.sub.posted, ∃ p : Packet, m = WGA_MAGIC ++ p.message L ∧ Fair L c p) ∧
    (Ready c a.rpc → Ready c b.rpc)) ?_ ⟨h, hposted, id⟩
  rintro x y ⟨hx, hposted, hready⟩ hxy
  cases hxy with
  | move hm => exact ⟨hx.move hm, hposted, fun hr => hx.ready_move hm (hready hr)⟩
  | quiet hq =>
      refine ⟨hx, fun m hm => ?_, hready⟩
      rcases hq.2 m hm with hm | ⟨p, hs, rfl⟩
      · exact hposted m hm
      · exact ⟨p, rfl, hx.fair hs⟩

/-- **A path with fair rights keeps a handler as it has to be.** -/
theorem Toward.path (h : Toward L d s) (done : RpcId → Prop) (drops : Prop)
    (hdone : done SESSION_KEY_RPCID → d.Keyed)
    (hdrop : drops → ∀ id, done id → id = SESSION_KEY_RPCID)
    (hp : Path L (fairRights L s.sub.derived done drops)
      (Carries L (fairRights L s.sub.derived done drops)) (s.at .idle) (s'.at .idle)) :
    Toward L d s' ∧ Onward s s' := by
  have hkeys : s'.sub.derived = s.sub.derived := path_derived hp
  obtain ⟨hgreeting, hposted, hready⟩ := Greeting.path hp h.greeting h.posted
  have hdisposed : Disposed .idle s'.rpc := by
    refine (hp.invariant_rpc (I := fun ph r => Disposed ph r ∧ ∀ id, ph = .completing id → done id)
      (fun ph r ph' r' hr hm => ?_) ⟨h.disposed, nofun⟩).1
    refine ⟨hr.1.move hm fun hd id hph => hdrop hd id (hr.2 id hph), ?_⟩
    rintro id rfl
    cases hm with
    | complete hmay => exact hmay
    | release | unqueue => exact hr.2 id rfl
  have hkept : SESSION_KEY_RPCID ∈ s.rpc.outgoingRequests →
      SESSION_KEY_RPCID ∈ s'.rpc.outgoingRequests ∨ d.Keyed := fun hout =>
    hp.invariant_rpc (I := fun _ r => SESSION_KEY_RPCID ∈ r.outgoingRequests ∨ d.Keyed)
      (fun ph r ph' r' hr hm => hr.elim (fun hout => (hm.outgoing_kept hout).imp_right hdone) .inr)
      (.inl hout)
  refine ⟨⟨?_, ?_, ?_, hdisposed, ?_, ?_, ?_⟩, ⟨?_, ?_⟩⟩
  · refine h.sound.path (R := fairRights L s.sub.derived done drops)
      (fun hkey => ⟨id, fun r id p => ?_⟩) (fun _ r p hmay => hmay.1 rfl) hp
    exact ⟨fun hmay => hmay.2.keyed.outgoing hkey, fun hmay => hmay.2.keyed.outgoing hkey⟩
  · rw [hkeys]
    exact hgreeting
  · rw [hkeys]
    exact hposted
  · rw [hkeys]
    exact h.peers
  · rw [hkeys]
    exact h.learned
  · rw [hkeys]
    exact fun hkey => (h.greeted hkey).elim hkept .inr
  · rw [hkeys]
    exact .refl _
  · rw [hkeys]
    exact hready

/-- So does one that answers no request of the handler. -/
theorem Toward.unanswered_path (h : Toward L d s)
    (hp : Path L (fairRights L s.sub.derived (fun _ => False) False)
      (Carries L (fairRights L s.sub.derived (fun _ => False) False)) (s.at .idle) (s'.at .idle)) :
    Toward L d s' ∧ Onward s s' := h.path _ _ False.elim False.elim hp

/-- Members that say nothing. -/
theorem Toward.of_keys (h : Toward L d s) (hrpc : s'.rpc = s.rpc)
    (hkeys : s'.sub.derived = s.sub.derived) (hposted : s'.sub.posted = s.sub.posted) :
    Toward L d s' ∧ Onward s s' := by
  refine ⟨⟨h.sound.of_keys hrpc hkeys, ?_, ?_, ?_, ?_, ?_, ?_⟩, ⟨?_, ?_⟩⟩
  · rw [hrpc, hkeys]
    exact h.greeting
  · rw [hposted, hkeys]
    exact h.posted
  · rw [hrpc]
    exact h.disposed
  · rw [hkeys]
    exact h.peers
  · rw [hkeys]
    exact h.learned
  · rw [hrpc, hkeys]
    exact h.greeted
  · rw [hkeys]
    exact .refl _
  · rw [hrpc, hkeys]
    exact id

/-! ### The exchange -/

/-- What was posted before and what is sent now: no packet gives away more than it may. -/
theorem Toward.posted_onward (h : Toward L d s) (hlater : Later s.sub.derived s'.sub.derived)
    {R : Rights} (hgreeting : Greeting L s'.sub.derived .idle s'.rpc)
    (hnew : ∀ m ∈ s'.sub.posted, m ∈ s.sub.posted ∨
      ∃ p, Sends R .idle s'.rpc p ∧ m = WGA_MAGIC ++ p.message L) :
    ∀ m ∈ s'.sub.posted, ∃ p : Packet, m = WGA_MAGIC ++ p.message L ∧ Fair L s'.sub.derived p := by
  intro m hm
  rcases hnew m hm with hm | ⟨p, hp, rfl⟩
  · obtain ⟨p, rfl, hp⟩ := h.posted m hm
    exact ⟨p, rfl, hp.later hlater⟩
  · exact ⟨p, rfl, hgreeting.fair hp⟩

/-- Where the handshake is all that is in flight. -/
theorem Toward.greeting_armed (h : Toward L d s) {key : SessionKey} (hne : key ≠ emptySessionKey)
    (hkey : s.sub.derived.outgoingSessionKey = emptySessionKey) {nonce : Nonce} {r : Rpc}
    (hout : ∀ id p, r.outgoingRequests.lookup id = some p → id = SESSION_KEY_RPCID ∧
      p = handshake L (arm key s).sub.derived nonce)
    (hdelayed : r.delayedRequests = s.rpc.delayedRequests)
    (hincoming : r.incomingRequests = s.rpc.incomingRequests)
    (hreplies : r.outgoingReplies = s.rpc.outgoingReplies) :
    Greeting L (arm key s).sub.derived .idle r := by
  have hmute : ¬ s.sub.derived.Keyed := fun hk => hk.outgoing hkey
  constructor
  · exact fun p hp => ⟨hne, nonce, (hout _ p hp).2⟩
  · rw [hdelayed]
    exact h.greeting.prompt
  · nofun
  · rw [hincoming]
    exact fun id hid => absurd (h.greeting.received id hid).2 hmute
  · rw [hreplies]
    exact fun id p hp => absurd (h.greeting.stored id p hp).1 hmute
  · rintro id hid ((hm | hm | ⟨p, hm⟩) | hm)
    · obtain ⟨p, hp⟩ := Option.isSome_iff_exists.mp (AList.lookup_isSome.mpr hm)
      exact absurd (hout id p hp).1 hid
    · rw [hdelayed] at hm
      exact absurd (.inr (.inl hm)) (h.sound.unarmed hkey id)
    · cases hm
    · cases hm

/-- **The own key is drawn**: the handshake goes out, and nothing was sent before it. -/
theorem Toward.sendSessionKey (h : Toward L d s) {key : SessionKey} (hne : key ≠ emptySessionKey)
    (hs' : sendSessionKey L key s = .ok s') : Toward L d s' ∧ Onward s s' := by
  have hkey := sendSessionKey_of_key hs'
  have hmute : ¬ s.sub.derived.Keyed := fun hk => hk.outgoing hkey
  have hnone : s.rpc.outgoingRequests.entries = [] :=
    UnorderedMap.entries_eq_nil.mpr fun id hid => h.sound.unarmed hkey id (.inl hid)
  have hsound := h.sound.sendSessionKey hne hs'
  obtain ⟨nonce, env, heq⟩ := sendSessionKey_eq (L := L) key hkey
  have hrun := hs'
  rw [heq] at hrun
  obtain ⟨⟨clock, hrpc⟩, hkeys, hnew⟩ := requestWithId_first
    (send_within (L := L) (R := anything)) (by exact hnone) hrun
  have hkeys : s'.sub.derived = (arm key s).sub.derived := hkeys
  have hlater : Later s.sub.derived s'.sub.derived := by
    rw [hkeys]
    exact ⟨rfl, rfl, rfl, fun hout => absurd hkey hout, fun _ => rfl⟩
  have hout : ∀ id p, s'.rpc.outgoingRequests.lookup id = some p → id = SESSION_KEY_RPCID ∧
      p = handshake L (arm key s).sub.derived nonce := by
    intro id p hp
    rw [hrpc] at hp
    by_cases hid : id = SESSION_KEY_RPCID
    · subst hid
      rw [AList.lookup_insert] at hp
      exact ⟨rfl, (Option.some.inj hp).symm⟩
    · rw [AList.lookup_insert_ne hid] at hp
      exact absurd (.inl (AList.lookup_isSome.mp (Option.isSome_of_eq_some hp)))
        (h.sound.unarmed hkey id)
  have hgreeting : Greeting L s'.sub.derived .idle s'.rpc := by
    rw [hkeys]
    refine h.greeting_armed hne hkey hout ?_ ?_ ?_ <;>
    · rw [hrpc]
      rfl
  refine ⟨⟨hsound, hgreeting, h.posted_onward hlater hgreeting hnew, ?_, ?_, ?_, fun _ => .inl ?_⟩,
    hlater, fun hr => ?_⟩
  · rw [hrpc]
    refine ⟨fun id hid => ?_, h.disposed.settled⟩
    exact (Finset.mem_insert.mp hid).elim .inl (h.disposed.oneWay id)
  · rw [hkeys]
    exact ⟨h.peers.myPublicKey, h.peers.otherPublicKey⟩
  · rw [hkeys]
    exact h.learned
  · rw [hrpc]
    exact (AList.mem_insert _).mpr (.inl rfl)
  · exact absurd hr.keyed hmute

/-- Where the other key was just learned: no request was let in before, and no reply was sealed. -/
theorem Toward.greeting_learned (h : Toward L d s)
    (hkey : s.sub.derived.incomingSessionKey = emptySessionKey) {c : CryptoHandler}
    (hlater : Later s.sub.derived c) (hkeyed : c.Keyed) {r : Rpc}
    (hout : r.outgoingRequests = s.rpc.outgoingRequests)
    (hdelayed : r.delayedRequests = s.rpc.delayedRequests)
    (hincoming : ∀ id ∈ r.incomingRequests, id ∈ s.rpc.incomingRequests)
    (hreplies : ∀ id p, r.outgoingReplies.lookup id = some p →
      s.rpc.outgoingReplies.lookup id = some p ∨ ∃ q nonce, p = sealed L c q nonce) :
    Greeting L c .idle r := by
  have hmute : ¬ s.sub.derived.Keyed := fun hk => hk.incoming hkey
  constructor
  · intro p hp
    rw [hout] at hp
    obtain ⟨hne, nonce, hp⟩ := h.greeting.handshake p hp
    exact ⟨hkeyed.outgoing, nonce, hp.trans (hlater.handshake_eq hne nonce).symm⟩
  · rw [hdelayed]
    exact h.greeting.prompt
  · nofun
  · exact fun id hid => absurd (h.greeting.received id (hincoming id hid)).2 hmute
  · intro id p hp
    rcases hreplies id p hp with hp | hp
    · exact absurd (h.greeting.stored id p hp).1 hmute
    · exact ⟨hkeyed, hp⟩
  · intro id hid hm
    rw [Rpc.Pending, hout, hdelayed] at hm
    exact absurd (h.greeting.ready id hid hm).keyed hmute

/-- **The other key is learned**: it is answered at once. -/
theorem Toward.keyLearned (h : Toward L d s) {p : Bytes} {s₁ : EncryptedHandler}
    (hkey : s.sub.derived.incomingSessionKey = emptySessionKey)
    (hnew : s.rpc.Unseen SESSION_KEY_RPCID)
    (h₁ : BiDirectionalRpc.addIncomingRequest ⟨SESSION_KEY_RPCID, p⟩
      (learn d.outgoingSessionKey s) = .ok s₁)
    (h₂ : reply L SESSION_KEY_RPCID OK s₁ = .ok s') (hsound : Sound s') :
    Toward L d s' ∧ Onward s s' := by
  have hmute : ¬ s.sub.derived.Keyed := fun hk => hk.incoming hkey
  obtain ⟨clock, -, h₁⟩ := bind_ok.mp h₁
  cases h₁
  have hready := (reply_path (L := L) (R := anything) (fun _ => trivial) h₂).1
  simp only [reply] at h₂
  split at h₂
  · cases h₂
  · obtain ⟨r, hr, h₂⟩ := bind_ok.mp h₂
    obtain ⟨-, nonce, env, rfl⟩ := encrypt_ok hr
    have hrpc := reply_rpc (send_within (L := L) (R := anything)) h₂
    obtain ⟨hkeys, hnew'⟩ := reply_within (send_within (L := L) (R := anything)) h₂
    have hkeys : s'.sub.derived = (learn d.outgoingSessionKey s).sub.derived := hkeys
    have hkeyed : s'.sub.derived.Keyed := by
      rw [hkeys]
      exact keyed_iff.mp hready
    have hlater : Later s.sub.derived s'.sub.derived := by
      rw [hkeys]
      exact ⟨rfl, rfl, rfl, fun _ => rfl, fun hin => absurd hkey hin⟩
    have hgreeting : Greeting L s'.sub.derived .idle s'.rpc := by
      refine h.greeting_learned hkey hlater hkeyed (by rw [hrpc]; rfl) (by rw [hrpc]; rfl)
        (fun id hid => ?_) (fun id q hq => ?_)
      · rw [hrpc] at hid
        obtain ⟨hne, hid⟩ := AList.mem_erase.mp hid
        rw [UnorderedMap.emplace_eq_insert (by exact hnew.incoming)] at hid
        exact ((AList.mem_insert _).mp hid).resolve_left hne
      · rw [hrpc] at hq
        by_cases hid : id = SESSION_KEY_RPCID
        · subst hid
          rw [AList.lookup_insert] at hq
          cases hq
          rw [hkeys]
          exact .inr ⟨OK, nonce, rfl⟩
        · rw [AList.lookup_insert_ne hid] at hq
          exact .inl hq
    refine ⟨⟨hsound, hgreeting, h.posted_onward hlater hgreeting hnew', ?_, ?_, fun _ => ?_, ?_⟩,
      hlater, fun hr => ?_⟩
    · rw [hrpc]
      have hpre : s.rpc.history <+: s.rpc.history ++ [.accepted SESSION_KEY_RPCID p] ++
          [.replied SESSION_KEY_RPCID
            (sealed L (learn d.outgoingSessionKey s).sub.derived OK nonce)] := by simp
      refine ⟨fun id hid => ?_, fun id hid => .inl ?_⟩
      · exact (h.disposed.oneWay id hid).imp_right (Exists.imp fun q hq => hpre.subset hq)
      · have hid : .completed id ∈ s.rpc.history := by simpa [learn] using hid
        exact (h.disposed.idle hid).mono hpre
    · rw [hkeys]
      exact ⟨h.peers.myPublicKey, h.peers.otherPublicKey⟩
    · rw [hkeys]
      rfl
    · intro hout
      rw [hrpc]
      rw [hkeys] at hout
      exact h.greeted hout
    · exact absurd hr.keyed hmute

end EncryptedMultiEndpointHandler

/-! ### Calls -/

/-- What `uuid4` drew for a request. -/
def Call.uuid : Call → Option UInt64
  | .request uuid _ | .requestOneWay uuid _ | .heartbeat uuid | .sendShutdown uuid => some uuid
  | .reply _ _ | .getFirstIncomingReply | .consumeIncomingReplyWithId _ | .barrier
  | .resendRandomOutgoingMessage | .shutdown => none

/-- The half of a version 4 uuid that identifies a request starts with the bits of its variant. -/
def Call.Uuid4 (c : Call) : Prop := ∀ uuid ∈ c.uuid, 2 ^ 63 ≤ uuid.toNat

theorem Call.does_uuid {τ : Type} {V : Virtuals τ} {s : Self τ} {c : Call} {e : Event} {id : RpcId}
    {p : Bytes} (h : c.does V s e) (he : e = .requested id p ∨ e = .requestedOneWay id p) :
    ∃ uuid ∈ c.uuid, id = ⟨s.rpc.onBarrier, uuid⟩ := by
  cases c with
  | request uuid q | requestOneWay uuid q =>
      refine ⟨uuid, rfl, ?_⟩
      rcases he with rfl | rfl <;> cases h
      rfl
  | heartbeat uuid | sendShutdown uuid =>
      refine ⟨uuid, rfl, ?_⟩
      obtain ⟨-, h⟩ := h
      rcases he with rfl | rfl <;> cases h
      rfl
  | getFirstIncomingReply | consumeIncomingReplyWithId =>
      obtain ⟨a, q, rfl⟩ := h
      rcases he with he | he <;> cases he
  | reply | barrier | resendRandomOutgoingMessage | shutdown => exact h.elim

theorem Call.Uuid4.ne {c : Call} (h : c.Uuid4) {uuid : UInt64} (hu : uuid ∈ c.uuid) {b : Int64} :
    (⟨b, uuid⟩ : RpcId) ≠ SESSION_KEY_RPCID := by
  intro heq
  obtain rfl : uuid = 1 := congrArg RpcId.id heq
  have := h 1 hu
  simp at this

namespace EncryptedMultiEndpointHandler

variable {L : Libraries} {c d : CryptoHandler} {s s' : EncryptedHandler}

/-- **A call of the application keeps a handler as it has to be.** -/
theorem Toward.call (h : Toward L d s) {c : Call} (hc : c.Uuid4)
    (hrun : c.run L (virtuals L) s = .ok s') : Toward L d s' ∧ Onward s s' := by
  refine h.unanswered_path ?_
  refine Call.run_path send_within (fun e he => ?_) (fun id p s₁ s₂ h₁ => ?_)
    (fun id p _ h₁ => ?_) hrun
  · have issued : ∀ id p, e = .requested id p ∨ e = .requestedOneWay id p →
        id ≠ SESSION_KEY_RPCID ∧ Ready s.sub.derived s.rpc := fun id p heq => by
      obtain ⟨uuid, hu, rfl⟩ := Call.does_uuid he heq
      refine ⟨hc.ne hu, ready_iff.mp (readyToSend_of_call he hrun ?_)⟩
      exact heq.imp (fun h => ⟨_, _, h⟩) fun h => ⟨_, _, h⟩
    cases e with
    | requested id p => exact issued id p (.inl rfl)
    | requestedOneWay id p => exact issued id p (.inr rfl)
    | accepted | replied | completed => cases c <;> simp [Call.does] at he
    | queued | handed => trivial
  · exact (requestWithId_path (fun _ => trivial) h₁).2
  · exact (reply_path (R := fairRights L s.sub.derived (fun _ => False) False)
      (fun nonce => ⟨p, nonce, rfl⟩) h₁).2

/-! ### Messages -/

/-- **An entry of a `REQUEST` packet** of the peer. -/
theorem Toward.handleRequest (h : Toward L d s) (hd : Peers L d s.sub.derived) {id : RpcId}
    {p : Bytes} (hp : id = SESSION_KEY_RPCID → ∃ nonce, p = handshake L d nonce)
    (hrun : handleRequest L send (addIncomingRequest L) (reply L) id p s = .ok s') :
    Toward L d s' ∧ Onward s s' := by
  by_cases hid : id = SESSION_KEY_RPCID
  · obtain ⟨nonce, rfl⟩ := hp hid
    have hsound := h.sound.handleRequest hrun
    subst hid
    rcases handleSessionKey_cases hrun with ⟨hany, -⟩ | ⟨hkey, hnew, key, s₁, hopen, h₁, h₂⟩
    · exact h.unanswered_path (hany _)
    · have hopen' := openHandshake_handshake (L := L) nonce hd.myPublicKey hd.otherPublicKey
        h.peers.otherPublicKey
      cases hopen.symm.trans hopen'
      exact h.keyLearned hkey hnew h₁ h₂ hsound
  · refine h.unanswered_path (handleRequest_path hid (fun hready q => ?_)
      (fun _ q nonce => ⟨q, nonce, rfl⟩) hrun)
    exact ⟨hid, keyed_iff.mp hready⟩

/-- **An entry of a `REPLY` packet** of the peer: when it answers a request of the application the
handler is ready, and the reply opens. -/
theorem Toward.handleReply (h : Toward L d s) {id : RpcId} {p : Bytes} {t₁ t₂ : Int}
    (hd : d.Keyed) (hp : ∃ q nonce, p = sealed L d q nonce)
    (hrun : handleReply L id p t₁ t₂ s = .ok s') : Toward L d s' ∧ Onward s s' := by
  refine h.path (fun a => a = id) (id = SESSION_KEY_RPCID) (fun _ => hd)
    (fun hid a ha => ha.trans hid) ?_
  refine handleReply_path rfl h.sound.consistent (fun _ _ _ => trivial)
    (fun s₁ hpath _ hno => ?_) hrun
  by_contra hne
  have hready : Ready s.sub.derived s₁.rpc :=
    (Greeting.path hpath h.greeting h.posted).1.ready id hne (.inr rfl)
  rcases hno with hno | hno
  · rw [← show s₁.sub.derived = s.sub.derived from path_derived hpath] at hready
    rw [ready_iff.mpr hready] at hno
    cases hno
  · obtain ⟨q, nonce, rfl⟩ := hp
    rw [h.learned hready.keyed.incoming, openSecret_sealed] at hno
    cases hno

/-- **A packet of the peer keeps a handler as it has to be.** -/
theorem Toward.handlePacket (h : Toward L d s) (hd : Peers L d s.sub.derived) {packet : Packet}
    (hp : Fair L d packet) (hrun : handlePacket L (virtuals L) packet s = .ok s') :
    Toward L d s' ∧ Onward s s' := by
  have hd' : ∀ {s₁}, Onward s s₁ → Peers L d s₁.sub.derived := fun ho =>
    ⟨hd.myPublicKey, by rw [hd.otherPublicKey, ho.later.myPrivateKey]⟩
  cases packet with
  | request es =>
      refine foldlM_invariant (I := fun s₁ => Toward L d s₁ ∧ Onward s s₁)
        (fun s₁ e s₂ he hs₁ h₂ => ?_) ⟨h, .refl s⟩ hrun
      obtain ⟨h', ho⟩ := hs₁.1.handleRequest (hd' hs₁.2) (fun hid => (hp e he hid).2) h₂
      exact ⟨h', hs₁.2.trans ho⟩
  | reply es =>
      refine foldlM_invariant (I := fun s₁ => Toward L d s₁ ∧ Onward s s₁)
        (fun s₁ e s₂ he hs₁ h₂ => ?_) ⟨h, .refl s⟩ hrun
      obtain ⟨h', ho⟩ := hs₁.1.handleReply (hp e he).1 (hp e he).2 h₂
      exact ⟨h', hs₁.2.trans ho⟩
  | acknowledge uid q =>
      exact h.unanswered_path (handleAcknowledge_path trivial hrun)

theorem Toward.flake (h : Toward L d s) : Toward L d (flake s).2 ∧ Onward s (flake s).2 :=
  h.of_keys (flake_rpc s) (by rw [flake_sub]) (by rw [flake_sub])

/-- **A message of the peer keeps a handler as it has to be.** -/
theorem Toward.receive (h : Toward L d s) (hd : Peers L d s.sub.derived) {packet : Packet}
    (hp : Fair L d packet) {b : Bool} (hrun : receive L (packet.message L) s = .ok (b, s')) :
    Toward L d s' ∧ Onward s s' := by
  have hrun : BiDirectionalRpc.receive L (virtuals L) (packet.message L) s = .ok (b, s') := hrun
  have hu : L.unpack (packet.message L) = ⟨packet.objects, .finished⟩ := L.unpack_pack _
  rw [receive_eq hu] at hrun
  obtain ⟨h₁, ho₁⟩ := h.flake
  split at hrun
  · cases hrun
    exact ⟨h₁, ho₁⟩
  · cases hpacket : BiDirectionalRpc.handlePacket L (virtuals L) packet
      (BiDirectionalRpc.flake s).2 with
    | error f =>
        rw [hpacket] at hrun
        cases hrun
    | ok s₂ =>
        rw [hpacket] at hrun
        cases hrun
        obtain ⟨h₂, ho₂⟩ := h₁.handlePacket (by rwa [flake_sub]) hp hpacket
        exact ⟨h₂, ho₁.trans ho₂⟩

end EncryptedMultiEndpointHandler

end Wga
