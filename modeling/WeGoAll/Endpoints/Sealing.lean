import WeGoAll.Endpoints.Handshake
import WeGoAll.Rpc.Exchange

/-!
# Endpoints — Sealing

What an encrypted handler keeps and sends is sealed, whoever it talks to.

* `Packet.ciphertexts`: the strings of a packet that are sealed.
* `Enclosed`, `Covered`: what a handler keeps in its tables of requests, and what it may post.
* `Guarded`: the tables of a handler that was given some payloads and has heard others.
* `Guarded.path`, `Guarded.completing_path`: what keeps them so.
-/

namespace Wga

open BiDirectionalRpc

/-! ### The strings of a packet -/

namespace Packet

/-- The payloads of session keys. -/
def handshakes : Packet → List Bytes
  | .request entries => (entries.filter fun e => e.id = SESSION_KEY_RPCID).map IdPayload.payload
  | .reply _ | .acknowledge _ _ => []

/-- The other payloads. -/
def ciphertexts : Packet → List Bytes
  | .request entries => (entries.filter fun e => e.id ≠ SESSION_KEY_RPCID).map IdPayload.payload
  | .reply entries => entries.map ReplyEntry.payload
  | .acknowledge _ payload => [payload]

theorem mem_handshakes {entries : List IdPayload} {p : Bytes} :
    p ∈ (request entries).handshakes ↔
      ∃ e ∈ entries, e.id = SESSION_KEY_RPCID ∧ e.payload = p := by
  simp only [handshakes, List.mem_map, List.mem_filter, decide_eq_true_eq, and_assoc]

theorem mem_ciphertexts {entries : List IdPayload} {p : Bytes} :
    p ∈ (request entries).ciphertexts ↔
      ∃ e ∈ entries, e.id ≠ SESSION_KEY_RPCID ∧ e.payload = p := by
  simp only [ciphertexts, List.mem_map, List.mem_filter, decide_eq_true_eq, and_assoc]

/-- Replies with the same objects have the same payloads. -/
theorem replyEntryObjects_payloads {es es' : List ReplyEntry}
    (h : es.flatMap replyEntryObjects = es'.flatMap replyEntryObjects) :
    es.map ReplyEntry.payload = es'.map ReplyEntry.payload := by
  induction es generalizing es' with
  | nil =>
      cases es' with
      | nil => rfl
      | cons e es' => cases h
  | cons e es ih =>
      cases es' with
      | nil => cases h
      | cons e' es' =>
          simp only [List.flatMap_cons, replyEntryObjects, replyObjects, List.cons_append,
            List.nil_append, List.cons.injEq, MsgObject.str.injEq] at h
          obtain ⟨-, -, -, hp, h⟩ := h
          rw [List.map_cons, List.map_cons, hp, ih h]

/-- What is read from the message of a packet has its strings. -/
theorem Reads.strings_eq {L : Libraries} {p q : Packet} (h : p.Reads (L.unpack (q.message L))) :
    p.handshakes = q.handshakes ∧ p.ciphertexts = q.ciphertexts := by
  rw [message, L.unpack_pack] at h
  cases p with
  | request es =>
      have hq : q.objects = (request es).objects := congrArg Unpacked.objects h
      rw [eq_request hq]
      exact ⟨rfl, rfl⟩
  | reply es =>
      have hq : q.objects = (reply es).objects := congrArg Unpacked.objects h
      cases q with
      | request es' => exact absurd (List.cons.inj hq).1 (by decide)
      | reply es' => exact ⟨rfl, (replyEntryObjects_payloads (List.cons.inj hq).2).symm⟩
      | acknowledge uid payload => exact absurd (List.cons.inj hq).1 (by decide)
  | acknowledge uid payload =>
      obtain ⟨rest, hrest⟩ := h
      have hq : q.objects = acknowledgeObjects uid payload ++ rest := hrest.symm
      cases q with
      | request es' => exact absurd (List.cons.inj hq).1 (by decide)
      | reply es' => exact absurd (List.cons.inj hq).1 (by decide)
      | acknowledge uid' payload' =>
          simp only [objects, acknowledgeObjects, List.cons_append, List.nil_append,
            List.cons.injEq, MsgObject.str.injEq] at hq
          refine ⟨rfl, ?_⟩
          rw [ciphertexts, ciphertexts, hq.2.2.1]

end Packet

/-! ### Entries with their payloads -/

section Moves

variable {L : Libraries} {R : Rights} {ph ph' : Phase} {r r' : Rpc} {id : RpcId} {p : Bytes}

/-- Where the payload of a request in flight comes from. -/
theorem Move.outgoing_payload (hm : Move L R ph r ph' r')
    (h : r'.outgoingRequests.lookup id = some p) : r.outgoingRequests.lookup id = some p ∨
      (∃ q, ph = .issuing id q ∧ R.rewrites q p) ∨ r.delayedRequests.lookup id = some p := by
  cases hm with
  | @start _ a q q' now clock hp =>
      by_cases hid : id = a
      · subst hid
        rw [AList.lookup_insert] at h
        cases h
        exact .inr (.inl ⟨q, rfl, hp⟩)
      · rw [AList.lookup_insert_ne hid] at h
        exact .inl h
  | @release _ c a q now clock hdel =>
      by_cases hid : id = a
      · subst hid
        rw [AList.lookup_insert] at h
        cases h
        exact .inr (.inr hdel)
      · rw [AList.lookup_insert_ne hid] at h
        exact .inl h
  | @complete _ a =>
      by_cases hid : id = a
      · subst hid
        rw [AList.lookup_erase] at h
        cases h
      · rw [AList.lookup_erase_ne hid] at h
        exact .inl h
  | request | requestOneWay | greet | delay | unqueue | accept | answer | queue | forget | drop
  | stopClock | take | discard | advance | close => exact .inl h
  | rehash hr =>
      rw [← AList.perm_lookup hr.outgoingRequests] at h
      exact .inl h

/-- Where the payload of a delayed request comes from. -/
theorem Move.delayed_payload (hm : Move L R ph r ph' r')
    (h : r'.delayedRequests.lookup id = some p) : r.delayedRequests.lookup id = some p ∨
      ∃ q, ph = .issuing id q ∧ R.rewrites q p := by
  cases hm with
  | @delay _ a q q' hp =>
      by_cases hid : id = a
      · subst hid
        rw [AList.lookup_insert] at h
        cases h
        exact .inr ⟨q, rfl, hp⟩
      · rw [AList.lookup_insert_ne hid] at h
        exact .inl h
  | @unqueue _ c a =>
      by_cases hid : id = a
      · subst hid
        rw [AList.lookup_erase] at h
        cases h
      · rw [AList.lookup_erase_ne hid] at h
        exact .inl h
  | request | requestOneWay | greet | start | release | complete | accept | answer | queue | forget
  | drop | stopClock | take | discard | advance | close => exact .inl h
  | rehash hr =>
      rw [← AList.perm_lookup hr.delayedRequests] at h
      exact .inl h

end Moves

namespace EncryptedMultiEndpointHandler

open CryptoHandler

variable {L : Libraries} {R : Rights} {c c' : CryptoHandler} {s s' : EncryptedHandler}
  {Said Heard : Bytes → Prop}

/-! ### What is sealed -/

/-- A payload a handler with the keys `c` was given, sealed. -/
def Ciphertext (L : Libraries) (c : CryptoHandler) (Said : Bytes → Prop) (p : Bytes) : Prop :=
  c.outgoingSessionKey ≠ emptySessionKey ∧ ∃ q nonce, Said q ∧ p = sealed L c q nonce

/-- The payload of a request as a handler with the keys `c` keeps it. -/
def Enclosed (L : Libraries) (c : CryptoHandler) (Said : Bytes → Prop) (id : RpcId) (p : Bytes) :
    Prop :=
  if id = SESSION_KEY_RPCID then
    c.outgoingSessionKey ≠ emptySessionKey ∧ ∃ nonce, p = handshake L c nonce
  else Ciphertext L c Said p

/-- A packet of which no payload is in the clear. -/
structure Covered (L : Libraries) (c : CryptoHandler) (Said : Bytes → Prop) (p : Packet) :
    Prop where
  handshakes : ∀ h ∈ p.handshakes, c.outgoingSessionKey ≠ emptySessionKey ∧
    ∃ nonce, h = handshake L c nonce
  ciphertexts : ∀ q ∈ p.ciphertexts, Ciphertext L c Said q

theorem Ciphertext.later {Said' : Bytes → Prop} (hc : Later c c') (hsaid : ∀ q, Said q → Said' q)
    {p : Bytes} (h : Ciphertext L c Said p) : Ciphertext L c' Said' p := by
  obtain ⟨hne, q, nonce, hq, rfl⟩ := h
  exact ⟨hc.outgoing hne ▸ hne, q, nonce, hsaid q hq, (hc.sealed_eq hne q nonce).symm⟩

theorem handshake_later (hc : Later c c') {p : Bytes}
    (h : c.outgoingSessionKey ≠ emptySessionKey ∧ ∃ nonce, p = handshake L c nonce) :
    c'.outgoingSessionKey ≠ emptySessionKey ∧ ∃ nonce, p = handshake L c' nonce := by
  obtain ⟨hne, nonce, rfl⟩ := h
  exact ⟨hc.outgoing hne ▸ hne, nonce, (hc.handshake_eq hne nonce).symm⟩

theorem Enclosed.later {Said' : Bytes → Prop} (hc : Later c c') (hsaid : ∀ q, Said q → Said' q)
    {id : RpcId} {p : Bytes} (h : Enclosed L c Said id p) : Enclosed L c' Said' id p := by
  by_cases hid : id = SESSION_KEY_RPCID
  · rw [Enclosed, if_pos hid] at h ⊢
    exact handshake_later hc h
  · rw [Enclosed, if_neg hid] at h ⊢
    exact h.later hc hsaid

theorem Covered.later {Said' : Bytes → Prop} (hc : Later c c') (hsaid : ∀ q, Said q → Said' q)
    {p : Packet} (h : Covered L c Said p) : Covered L c' Said' p :=
  ⟨fun q hq => handshake_later hc (h.handshakes q hq),
    fun q hq => (h.ciphertexts q hq).later hc hsaid⟩

theorem covered_request {es : List IdPayload} (h : ∀ e ∈ es, Enclosed L c Said e.id e.payload) :
    Covered L c Said (.request es) := by
  refine ⟨fun p hp => ?_, fun p hp => ?_⟩
  · obtain ⟨e, he, hid, rfl⟩ := Packet.mem_handshakes.mp hp
    simpa only [Enclosed, if_pos hid] using h e he
  · obtain ⟨e, he, hid, rfl⟩ := Packet.mem_ciphertexts.mp hp
    simpa only [Enclosed, if_neg hid] using h e he

theorem covered_reply {es : List ReplyEntry} (h : ∀ e ∈ es, Ciphertext L c Said e.payload) :
    Covered L c Said (.reply es) := by
  refine ⟨nofun, fun p hp => ?_⟩
  obtain ⟨e, he, rfl⟩ := List.mem_map.mp hp
  exact h e he

theorem covered_acknowledge {id : RpcId} {p : Bytes} (h : Ciphertext L c Said p) :
    Covered L c Said (.acknowledge id p) :=
  ⟨nofun, fun q hq => by
    cases List.mem_singleton.mp hq
    exact h⟩

/-! ### The tables -/

/-- The tables of a handler with the keys `c` that was given the payloads `Said` and has heard the
payloads `Heard`. -/
structure Guarded (L : Libraries) (c : CryptoHandler) (Said Heard : Bytes → Prop) (ph : Phase)
    (r : Rpc) : Prop where
  outgoing : ∀ id p, r.outgoingRequests.lookup id = some p → Enclosed L c Said id p
  delayed : ∀ id p, r.delayedRequests.lookup id = some p → Enclosed L c Said id p
  issuing : ∀ id p, ph = .issuing id p →
    id ≠ SESSION_KEY_RPCID ∧ c.outgoingSessionKey ≠ emptySessionKey ∧ Said p
  stored : ∀ id p, r.outgoingReplies.lookup id = some p → Ciphertext L c Said p
  accepted : ∀ id p, .accepted id p ∈ r.history → id = SESSION_KEY_RPCID ∨ Heard p
  queued : ∀ id p, .queued id p ∈ r.history → Heard p
  receiving : r.Receiving

/-- The rights of an operation of such a handler; `completes` says whether it may complete a
request. -/
def guardedRights (L : Libraries) (c : CryptoHandler) (Said Heard : Bytes → Prop)
    (completes : Prop) : Rights where
  may := fun _ e => match e with
    | .requested id p | .requestedOneWay id p =>
        id ≠ SESSION_KEY_RPCID ∧ c.outgoingSessionKey ≠ emptySessionKey ∧ Said p
    | .accepted id p => id = SESSION_KEY_RPCID ∨ Heard p
    | .queued _ p => Heard p
    | .replied _ p => Ciphertext L c Said p
    | .completed _ => completes
    | .handed _ _ => True
  discards := fun _ => True
  rewrites := fun p p' => ∃ nonce, p' = sealed L c p nonce
  drops := True
  greets := False

section Moves

variable {completes : Prop} {ph ph' : Phase} {r r' : Rpc}

/-- **A move keeps everything sealed.** -/
theorem Guarded.move (h : Guarded L c Said Heard ph r)
    (hm : Move L (guardedRights L c Said Heard completes) ph r ph' r') :
    Guarded L c Said Heard ph' r' := by
  have issued : ∀ id p, (∃ q, ph = .issuing id q ∧ ∃ nonce, p = sealed L c q nonce) →
      Enclosed L c Said id p := by
    rintro id _ ⟨q, hph, nonce, rfl⟩
    obtain ⟨hid, hne, hq⟩ := h.issuing id q hph
    rw [Enclosed, if_neg hid]
    exact ⟨hne, q, nonce, hq, rfl⟩
  refine ⟨fun id p hp => ?_, fun id p hp => ?_, ?_, fun id p hp => ?_, fun id p hp => ?_,
    fun id p hp => ?_, hm.receiving h.receiving⟩
  · rcases hm.outgoing_payload hp with hp | hp | hp
    · exact h.outgoing id p hp
    · exact issued id p hp
    · exact h.delayed id p hp
  · exact (hm.delayed_payload hp).elim (h.delayed id p) (issued id p)
  · rintro id p rfl
    rcases hm.issuing with hmay | hmay | hmay
    · exact hmay
    · exact hmay
    · exact hmay.elim
  · exact (hm.reply_lookup hp).elim (h.stored id p) fun hmay => hmay.2
  · exact (hm.new_event hp).elim (h.accepted id p) fun hmay => hmay
  · exact (hm.new_event hp).elim (h.queued id p) fun hmay => hmay

/-- What it may send is covered; acknowledgements are another matter. -/
theorem Guarded.covered (h : Guarded L c Said Heard ph r) {p : Packet} (hp : Sends R ph r p)
    (hack : ∀ uid q, p ≠ .acknowledge uid q) : Covered L c Said p := by
  cases p with
  | request es => exact covered_request fun e he => h.outgoing e.id e.payload (hp e he)
  | reply es => exact covered_reply fun e he => h.stored e.id e.payload (hp e he)
  | acknowledge uid q => exact absurd rfl (hack uid q)

/-- Every message posted is a packet of which no payload is in the clear. -/
def AllCovered (L : Libraries) (c : CryptoHandler) (Said : Bytes → Prop) (posted : List Bytes) :
    Prop :=
  ∀ m ∈ posted, ∃ p : Packet, m = WGA_MAGIC ++ p.message L ∧ Covered L c Said p

/-- So do the messages, until a reply is disposed of. -/
theorem Guarded.act {a b : Point (Handler CryptoHandler)}
    (hab : Act L (guardedRights L c Said Heard False) (Carries L (guardedRights L c Said Heard False))
      a b) (hno : ∀ id, a.phase ≠ .settled id)
    (h : Guarded L c Said Heard a.phase a.rpc ∧ AllCovered L c Said a.sub.posted) :
    Guarded L c Said Heard b.phase b.rpc ∧ AllCovered L c Said b.sub.posted := by
  cases hab with
  | move hm => exact ⟨h.1.move hm, h.2⟩
  | quiet hq =>
      refine ⟨h.1, fun m hm => ?_⟩
      rcases hq.2 m hm with hm | ⟨p, hp, rfl⟩
      · exact h.2 m hm
      · refine ⟨p, rfl, h.1.covered hp ?_⟩
        rintro uid q rfl
        rcases hp with hp | hp
        · exact hno uid hp
        · exact hp.2.1

/-- **A path that completes no request keeps everything sealed.** -/
theorem Guarded.path {a b : Point (Handler CryptoHandler)}
    (hp : Path L (guardedRights L c Said Heard False)
      (Carries L (guardedRights L c Said Heard False)) a b) (hidle : a.phase = .idle)
    (h : Guarded L c Said Heard a.phase a.rpc ∧ AllCovered L c Said a.sub.posted) :
    Guarded L c Said Heard b.phase b.rpc ∧ AllCovered L c Said b.sub.posted := by
  refine (hp.invariant (I := fun b => ((∀ id, b.phase ≠ .completing id) ∧
    ∀ id, b.phase ≠ .settled id) ∧ Guarded L c Said Heard b.phase b.rpc ∧
      AllCovered L c Said b.sub.posted) ?_ ⟨by rw [hidle]; exact ⟨nofun, nofun⟩, h⟩).2
  rintro x y ⟨⟨hcompleting, hsettled⟩, hx⟩ hxy
  refine ⟨?_, Guarded.act hxy hsettled hx⟩
  cases hxy with
  | quiet => exact ⟨hcompleting, hsettled⟩
  | move hm =>
      cases hm with
      | complete hmay => exact hmay.elim
      | release | unqueue | queue | forget | drop => exact absurd rfl (hcompleting _)
      | stopClock => exact absurd rfl (hsettled _)
      | request | requestOneWay | greet | start | delay | accept | answer | take | discard
      | advance | close | rehash => exact ⟨nofun, nofun⟩

/-- So does one on which the same reply is being taken at both ends. -/
theorem Guarded.completing_path {a b : Point (Handler CryptoHandler)} {id : RpcId}
    (hp : Path L (guardedRights L c Said Heard False)
      (Carries L (guardedRights L c Said Heard False)) a b) (hb : b.phase = .completing id)
    (h : Guarded L c Said Heard a.phase a.rpc ∧ AllCovered L c Said a.sub.posted) :
    Guarded L c Said Heard b.phase b.rpc ∧ AllCovered L c Said b.sub.posted := by
  refine hp.invariant (I := fun b => b.phase = .completing id →
    Guarded L c Said Heard b.phase b.rpc ∧ AllCovered L c Said b.sub.posted) ?_ (fun _ => h) hb
  intro x y hx hxy hy
  -- no move of this path begins to take a reply
  have hxc : x.phase = .completing id := by
    cases hxy with
    | quiet => exact hy
    | move hm =>
        cases hm with
        | complete hmay => exact hmay.elim
        | release | unqueue => exact hy
        | _ => cases hy
  exact Guarded.act hxy (by rw [hxc]; nofun) (hx hxc)

end Moves

end EncryptedMultiEndpointHandler

end Wga
