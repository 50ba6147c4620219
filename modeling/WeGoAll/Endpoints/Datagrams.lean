import WeGoAll.Endpoints.Multiplexer
import WeGoAll.Endpoints.Sound
import WeGoAll.Endpoints.Validation

/-!
# Endpoints — Datagrams

Which datagrams the process survives.  Nothing catches what `receive` throws, so a datagram that
reaches a recipient ends the process unless it can be read to its end.

* `Digests`: the handshakes of a packet can be read, as far as they are looked at.
* `handlePacket_ends_iff`: a packet fails at a handler for nothing else.
* `handleReceive_ends_iff`: a datagram ends normally exactly when it reaches nobody or can be read.
* `handleReceive_empty`: the magic alone brings the process down.
-/

namespace Wga

open BiDirectionalRpc

variable {L : Libraries}

namespace EncryptedMultiEndpointHandler

variable {s s' : EncryptedHandler} {id : RpcId} {p : Bytes}

/-! ### A packet at a handler -/

/-- A handler with no key can read the handshakes among the entries, up to one that gives it a
key. -/
def Digests (L : Libraries) (c : CryptoHandler) : List IdPayload → Prop
  | [] => True
  | e :: es =>
      if e.id = SESSION_KEY_RPCID then
        match openHandshake L e.payload c with
        | .error _ => False
        | .ok none => Digests L c es
        | .ok (some key) => key ≠ emptySessionKey
      else Digests L c es

/-- The handler has drawn its own key. -/
structure Armed (s : EncryptedHandler) : Prop where
  sound : Sound s
  key : s.sub.derived.outgoingSessionKey ≠ emptySessionKey

/-- An entry changes no key that is there. -/
theorem handleRequest_keys
    (h : handleRequest L send (addIncomingRequest L) (reply L) id p s = .ok s') :
    s'.sub.derived.outgoingSessionKey = s.sub.derived.outgoingSessionKey ∧
      (s'.sub.derived = s.sub.derived ∨ s.sub.derived.incomingSessionKey = emptySessionKey ∧
        s'.sub.derived.incomingSessionKey ≠ emptySessionKey) := by
  by_cases hid : id = SESSION_KEY_RPCID
  · subst hid
    rcases handleSessionKey_cases h with ⟨hpath, -⟩ | ⟨hkey, hnew, key, s₁, -, h₁, h₂⟩
    · have hkeys : s'.sub.derived = s.sub.derived := path_derived (hpath anything)
      exact ⟨by rw [hkeys], .inl hkeys⟩
    · obtain ⟨hne, hpath⟩ := learn_path (R := anything) hnew trivial (fun _ _ => trivial) h₁ h₂
      have hkeys : s'.sub.derived = (learn key s).sub.derived := path_derived hpath
      refine ⟨by rw [hkeys]; rfl, .inr ⟨hkey, ?_⟩⟩
      rw [hkeys]
      exact hne
  · have hkeys : s'.sub.derived = s.sub.derived := path_derived
      (handleRequest_path (R := anything) hid (fun _ _ => trivial) (fun _ _ _ => trivial) h)
    exact ⟨by rw [hkeys], .inl hkeys⟩

theorem Armed.handleRequest (hs : Armed s)
    (h : handleRequest L send (addIncomingRequest L) (reply L) id p s = .ok s') : Armed s' :=
  ⟨hs.sound.handleRequest h, by rw [(handleRequest_keys h).1]; exact hs.key⟩

/-- A session key that arrives is not left among the requests. -/
theorem addSessionKey_incoming (hno : SESSION_KEY_RPCID ∉ s.rpc.incomingRequests)
    (h : addSessionKey L ⟨SESSION_KEY_RPCID, p⟩ s = .ok s') :
    SESSION_KEY_RPCID ∉ s'.rpc.incomingRequests := by
  by_cases hkey : s.sub.derived.incomingSessionKey = emptySessionKey
  · rw [addSessionKey_eq hkey] at h
    obtain ⟨o, -, h⟩ := bind_ok.mp h
    cases o with
    | none =>
        cases h
        exact hno
    | some key =>
        obtain ⟨s₁, -, h⟩ := bind_ok.mp h
        simp only [reply] at h
        split at h
        · cases h
        · obtain ⟨r, -, h⟩ := bind_ok.mp h
          rw [reply_rpc (send_within (L := L) (R := anything)) h]
          exact fun hm => (AList.mem_erase.mp hm).1 rfl
  · rw [addSessionKey_of_key hkey] at h
    cases h
    exact hno

/-- **A handshake request ends** when there is a key already, or it can be read and gives one or
nothing. -/
theorem handleSessionKey_ends (hs : Armed s)
    (h : s.sub.derived.incomingSessionKey ≠ emptySessionKey ∨
      ∃ o, openHandshake L p s.sub.derived = .ok o ∧ o ≠ some emptySessionKey) :
    ∃ s', handleRequest L send (addIncomingRequest L) (reply L) SESSION_KEY_RPCID p s =
      .ok s' := by
  refine BiDirectionalRpc.handleRequest_ends send_ends hs.sound.consistent
    (fun hin hout => ?_) fun hin _ _ s₁ s₂ q h₁ _ hin₁ => ?_
  · rw [addIncomingRequest, if_pos rfl]
    by_cases hkey : s.sub.derived.incomingSessionKey = emptySessionKey
    · obtain ⟨o, ho, hne⟩ := h.resolve_left fun hne => hne hkey
      rw [addSessionKey_eq hkey, ho, ok_bind]
      cases o with
      | none => exact ⟨s, rfl⟩
      | some key =>
          have hkey' : key ≠ emptySessionKey := fun heq => hne (by rw [heq])
          have hc : (learn key s).rpc.Consistent .idle := hs.sound.consistent
          refine bind_ends (BiDirectionalRpc.addIncomingRequest_ends hc hin hout) fun s₁ h₁ => ?_
          have hpath : Path L anything (Carries L anything) ((learn key s).at .idle)
              (s₁.at .idle) :=
            BiDirectionalRpc.addIncomingRequest_path trivial hin
              (hs.sound.unlearned hkey).processed hout h₁
          have hkeys : s₁.sub.derived = (learn key s).sub.derived := path_derived hpath
          refine reply_ends ?_ (hpath.consistent hc) ?_
          · rw [readyToReceive_iff, hkeys]
            exact ⟨hkey', hs.key⟩
          · obtain ⟨clock, -, h₁⟩ := bind_ok.mp h₁
            cases h₁
            rw [UnorderedMap.emplace_eq_insert (by exact hin)]
            exact (AList.mem_insert _).mpr (.inl rfl)
    · exact ⟨s, addSessionKey_of_key hkey _⟩
  · rw [addIncomingRequest, if_pos rfl] at h₁
    exact absurd hin₁ (addSessionKey_incoming hin h₁)

/-- With both keys the entries of a packet end. -/
theorem handleRequests_ends (hs : Armed s)
    (hkey : s.sub.derived.incomingSessionKey ≠ emptySessionKey) (es : List IdPayload) :
    ∃ s', handleRequests L (virtuals L) es s = .ok s' := by
  have step : ∀ s (e : IdPayload), e ∈ es →
      (Armed s ∧ s.sub.derived.incomingSessionKey ≠ emptySessionKey) → ∃ s',
      handleRequest L send (addIncomingRequest L) (reply L) e.id e.payload s = .ok s' ∧
        Armed s' ∧ s'.sub.derived.incomingSessionKey ≠ emptySessionKey := by
    rintro s e - ⟨hs, hkey⟩
    have hend : ∃ s', handleRequest L send (addIncomingRequest L) (reply L) e.id e.payload s =
        .ok s' := by
      by_cases hid : e.id = SESSION_KEY_RPCID
      · rw [hid]
        exact handleSessionKey_ends hs (.inl hkey)
      · exact handleRequest_ends hid hs.sound.consistent
    obtain ⟨s', h⟩ := hend
    refine ⟨s', h, hs.handleRequest h, ?_⟩
    rcases (handleRequest_keys h).2 with heq | ⟨heq, -⟩
    · rwa [heq]
    · exact absurd heq hkey
  obtain ⟨s', h, -⟩ := foldlM_ok step ⟨hs, hkey⟩
  exact ⟨s', h⟩

/-- **Without the other side's key they end** exactly when the handshakes among them can be
read. -/
theorem handleRequests_ends_iff (hs : Armed s)
    (hkey : s.sub.derived.incomingSessionKey = emptySessionKey) (es : List IdPayload) :
    (∃ s', handleRequests L (virtuals L) es s = .ok s') ↔ Digests L s.sub.derived es := by
  induction es generalizing s with
  | nil => exact ⟨fun _ => trivial, fun _ => ⟨s, rfl⟩⟩
  | cons e es ih =>
      have split : handleRequests L (virtuals L) (e :: es) s =
          handleRequest L send (addIncomingRequest L) (reply L) e.id e.payload s >>=
            handleRequests L (virtuals L) es := rfl
      -- an entry that ends leaves the rest to a handler like this one, unless it gives a key
      have next : ∀ s₁, handleRequest L send (addIncomingRequest L) (reply L) e.id e.payload s =
          .ok s₁ → s₁.sub.derived = s.sub.derived →
          ((∃ s', handleRequests L (virtuals L) (e :: es) s = .ok s') ↔
            Digests L s.sub.derived es) := by
        intro s₁ h₁ heq
        rw [← heq, ← ih (hs.handleRequest h₁) (by rw [heq]; exact hkey), split, h₁, ok_bind]
      have hnew := hs.sound.unlearned hkey
      rw [Digests]
      by_cases hid : e.id = SESSION_KEY_RPCID
      · rw [if_pos hid]
        cases ho : openHandshake L e.payload s.sub.derived with
        | error f =>
            refine ⟨fun ⟨s', h⟩ => ?_, fun h => h.elim⟩
            obtain ⟨s₁, h₁, -⟩ := bind_ok.mp (split ▸ h)
            rw [hid] at h₁
            rcases handleSessionKey_cases h₁ with ⟨-, hnone⟩ | ⟨-, -, key, s₂, hsome, -⟩
            · cases ho.symm.trans (hnone hkey hnew)
            · cases ho.symm.trans hsome
        | ok o =>
            cases o with
            | none =>
                obtain ⟨s₁, h₁⟩ := handleSessionKey_ends hs (.inr ⟨none, ho, by simp⟩)
                rw [← hid] at h₁
                refine next s₁ h₁ ?_
                rw [hid] at h₁
                rcases handleSessionKey_cases h₁ with ⟨hpath, -⟩ | ⟨-, -, key, s₂, hsome, -⟩
                · exact path_derived (hpath anything)
                · cases ho.symm.trans hsome
            | some key =>
                refine ⟨fun ⟨s', h⟩ => ?_, fun hne => ?_⟩
                · obtain ⟨s₁, h₁, -⟩ := bind_ok.mp (split ▸ h)
                  rw [hid] at h₁
                  rcases handleSessionKey_cases h₁ with
                    ⟨-, hnone⟩ | ⟨-, -, key', s₂, hsome, h₂, h₃⟩
                  · cases ho.symm.trans (hnone hkey hnew)
                  · cases ho.symm.trans hsome
                    exact (learn_path (R := anything) hnew trivial (fun _ _ => trivial) h₂ h₃).1
                · obtain ⟨s₁, h₁⟩ := handleSessionKey_ends hs
                    (.inr ⟨some key, ho, fun heq => hne (Option.some.inj heq)⟩)
                  have hkey₁ : s₁.sub.derived.incomingSessionKey ≠ emptySessionKey := by
                    rcases handleSessionKey_cases h₁ with
                      ⟨-, hnone⟩ | ⟨-, -, key', s₂, hsome, h₂, h₃⟩
                    · cases ho.symm.trans (hnone hkey hnew)
                    · cases ho.symm.trans hsome
                      have hpath := (learn_path (R := anything) hnew trivial
                        (fun _ _ => trivial) h₂ h₃).2
                      rw [show s₁.sub.derived = _ from path_derived hpath]
                      exact hne
                  rw [← hid] at h₁
                  rw [split, h₁, ok_bind]
                  exact handleRequests_ends (hs.handleRequest h₁) hkey₁ es
      · rw [if_neg hid]
        obtain ⟨s₁, h₁⟩ := handleRequest_ends (L := L) (p := e.payload) hid hs.sound.consistent
        refine next s₁ h₁ ?_
        exact path_derived (handleRequest_path (R := anything) hid (fun _ _ => trivial)
          (fun _ _ _ => trivial) h₁)

/-- **A packet ends** exactly when its handshakes can be read, as far as they are looked at. -/
theorem handlePacket_ends_iff (hs : Armed s) (packet : Packet) :
    (∃ s', handlePacket L (virtuals L) packet s = .ok s') ↔
      (s.sub.derived.incomingSessionKey = emptySessionKey →
        ∀ es, packet = .request es → Digests L s.sub.derived es) := by
  cases packet with
  | request es =>
      by_cases hkey : s.sub.derived.incomingSessionKey = emptySessionKey
      · refine (handleRequests_ends_iff hs hkey es).trans ⟨fun h _ es' heq => ?_, fun h => ?_⟩
        · cases heq
          exact h
        · exact h hkey es rfl
      · exact ⟨fun _ h => absurd h hkey, fun _ => handleRequests_ends hs hkey es⟩
  | reply es =>
      refine ⟨fun _ _ es' heq => (by cases heq), fun _ => ?_⟩
      have step : ∀ s (e : ReplyEntry), e ∈ es → Armed s → ∃ s',
          handleReply L e.id e.payload (int64Of e.requestReceiveTime) (int64Of e.replySendTime) s =
            .ok s' ∧ Armed s' := by
        intro s e _ hs
        obtain ⟨s', h⟩ := handleReply_ends (L := L) e.id e.payload
          (int64Of e.requestReceiveTime) (int64Of e.replySendTime) hs.sound.consistent hs.key
        have hpath : Path L (rights s) (Carries L (rights s)) (s.at .idle) (s'.at .idle) :=
          handleReply_path trivial hs.sound.consistent (fun _ _ _ => trivial)
            (fun _ _ _ _ => trivial) h
        refine ⟨s', h, hs.sound.rights_path hpath, ?_⟩
        rw [show s'.sub.derived = _ from path_derived hpath]
        exact hs.key
      obtain ⟨s', h, -⟩ := foldlM_ok step hs
      exact ⟨s', h⟩
  | acknowledge uid q =>
      exact ⟨fun _ _ es' heq => (by cases heq), fun _ => handleAcknowledge_ends hs.sound.consistent⟩

/-- The contents of a datagram can be read to their end, and so can the handshakes in them while
there is no key, unless the handler loses the datagram after its header. -/
def Digestible (L : Libraries) (contents : Bytes) (s : EncryptedHandler) : Prop :=
  (L.unpack contents).Headed ∧ (s.rpc.flaky = true ∧ s.env.rand 0 % 100 = 0 ∨
    ∃ packet : Packet, packet.Reads (L.unpack contents) ∧
      (s.sub.derived.incomingSessionKey = emptySessionKey →
        ∀ es, packet = .request es → Digests L s.sub.derived es))

theorem flake_iff : (flake s).1 = true ↔ s.rpc.flaky = true ∧ s.env.rand 0 % 100 = 0 := by
  rw [flake]
  split
  · rename_i hf
    simp only [Self.rand, hf, true_and]
    exact decide_eq_true_iff
  · rename_i hf
    simp [hf]

theorem Armed.flake (hs : Armed s) : Armed (flake s).2 :=
  ⟨hs.sound.flake, by rw [flake_sub]; exact hs.key⟩

theorem receive_ends_iff (hs : Armed s) (contents : Bytes) :
    (∃ b s', receive L contents s = .ok (b, s')) ↔ Digestible L contents s := by
  refine (BiDirectionalRpc.receive_ends_iff contents).trans (and_congr_right fun _ => ?_)
  constructor
  · rintro (hf | ⟨-, packet, hp, h⟩)
    · exact .inl (flake_iff.mp hf)
    · refine .inr ⟨packet, hp, ?_⟩
      have := (handlePacket_ends_iff hs.flake packet).mp h
      rwa [flake_sub] at this
  · rintro (hf | ⟨packet, hp, h⟩)
    · exact .inl (flake_iff.mpr hf)
    · cases hf : (BiDirectionalRpc.flake s).1 with
      | true => exact .inl rfl
      | false =>
          refine .inr ⟨rfl, packet, hp, (handlePacket_ends_iff hs.flake packet).mpr ?_⟩
          rwa [flake_sub]

end EncryptedMultiEndpointHandler

/-! ### A datagram at a multiplexer -/

open EncryptedMultiEndpointHandler MultiEndpointHandler

/-- The session keys drawn in an event are keys. -/
def MuxEvent.Drawn : MuxEvent → Prop
  | .addRecipient c => c.Drawn
  | .call _ c => c.Drawn
  | .receive _ _ => True

namespace PortMultiplexer

/-- The datagram does not start with the magic, or reaches nobody, or can be read by the recipient
it goes to. -/
def Digestible (L : Libraries) (source : Endpoint) (packet : Bytes) (mux : PortMultiplexer) :
    Prop :=
  ∀ contents i r, packet = WGA_MAGIC ++ contents →
    (route source contents mux.recipients).1 = some i → mux.recipients[i]? = some r →
    EncryptedMultiEndpointHandler.Digestible L contents r

/-- The recipients of a run are sound. -/
theorem recipients_sound {es : List MuxEvent} {mux : PortMultiplexer}
    (hr : (multiplexer L).Run es mux) (hdrawn : ∀ ev ∈ es, ev.Drawn) :
    ∀ r ∈ mux.recipients, Sound r :=
  recipients_invariant hr (fun _ _ hc h => sound_make (hdrawn _ hc) h)
    (fun _ _ _ _ hc hs h => hs.ownerCall (hdrawn _ hc) h) (fun hs h => hs.banEndpoint h)
    (fun source r hs => hs.of_keys rfl (resurrect_derived source r.sub))
    (fun source r hs => hs.of_keys rfl (addEndpoint_derived source r.sub))
    (fun _ _ _ hs h => hs.receive h)

/-- A datagram with the magic goes to the recipient the search finds. -/
theorem handleReceive_magic (source : Endpoint) (contents : Bytes) (mux : PortMultiplexer) :
    handleReceive L source (WGA_MAGIC ++ contents) mux =
      match route source contents mux.recipients with
      | (none, recipients) => .ok { mux with receiveEndpoint := source, recipients := recipients }
      | (some i, recipients) =>
          match recipients[i]? with
          | none => .ok { mux with receiveEndpoint := source, recipients := recipients }
          | some recipient => deliver L source contents recipient >>= fun recipient => .ok { mux with
              receiveEndpoint := source, recipients := recipients.set i recipient } := by
  have hlen : ¬ (WGA_MAGIC ++ contents).length < WGA_MAGIC.length := by simp
  have htake : ¬ (WGA_MAGIC ++ contents).take WGA_MAGIC.length ≠ WGA_MAGIC := by simp
  have hdrop : (WGA_MAGIC ++ contents).drop WGA_MAGIC.length = contents := by simp
  simp only [handleReceive, if_neg hlen, if_neg htake]
  generalize (WGA_MAGIC ++ contents).drop WGA_MAGIC.length = c at hdrop ⊢
  subst hdrop
  rfl

/-- A datagram without it goes nowhere. -/
theorem handleReceive_no_magic {source : Endpoint} {packet : Bytes} {mux : PortMultiplexer}
    (h : ∀ contents, packet ≠ WGA_MAGIC ++ contents) :
    handleReceive L source packet mux = .ok { mux with receiveEndpoint := source } := by
  have htake : packet.take WGA_MAGIC.length ≠ WGA_MAGIC := fun heq =>
    h (packet.drop WGA_MAGIC.length) (by
      conv_lhs => rw [← List.take_append_drop WGA_MAGIC.length packet, heq])
  simp only [handleReceive, if_pos htake, ite_self]

theorem deliver_ends_iff (source : Endpoint) {contents : Bytes} {r : EncryptedHandler}
    (hs : Armed r) : (∃ r', deliver L source contents r = .ok r') ↔
      EncryptedMultiEndpointHandler.Digestible L contents r := by
  rw [← EncryptedMultiEndpointHandler.receive_ends_iff hs]
  constructor
  · rintro ⟨r', h⟩
    exact ⟨_, _, receive_of_deliver h⟩
  · rintro ⟨b, r', h⟩
    obtain rfl := BiDirectionalRpc.receive_true h
    exact ⟨r', bind_ok.mpr ⟨(true, r'), h, rfl⟩⟩

/-- Where a datagram goes to a recipient that had its endpoints moved first, it ends when the
recipient can read it. -/
theorem deliver_moved_iff {source : Endpoint} {contents : Bytes} {r r' : EncryptedHandler}
    (hs : Armed r) (hrpc : r'.rpc = r.rpc) (henv : r'.env = r.env)
    (hkeys : r'.sub.derived = r.sub.derived) {f : EncryptedHandler → PortMultiplexer} :
    (∃ mux', (deliver L source contents r' >>= fun r => .ok (f r)) = .ok mux') ↔
      EncryptedMultiEndpointHandler.Digestible L contents r := by
  have hs' : Armed r' := ⟨hs.sound.of_keys hrpc hkeys, by rw [hkeys]; exact hs.key⟩
  have hsame : EncryptedMultiEndpointHandler.Digestible L contents r' ↔
      EncryptedMultiEndpointHandler.Digestible L contents r := by
    rw [EncryptedMultiEndpointHandler.Digestible, hrpc, henv, hkeys]
    rfl
  rw [← hsame, ← deliver_ends_iff source hs']
  constructor
  · rintro ⟨mux', h⟩
    obtain ⟨r₁, h₁, -⟩ := bind_ok.mp h
    exact ⟨r₁, h₁⟩
  · rintro ⟨r₁, h₁⟩
    exact ⟨f r₁, bind_ok.mpr ⟨r₁, h₁, rfl⟩⟩

/-- **A datagram ends normally exactly when it reaches nobody or can be read.**  In every state a
multiplexer reaches whose recipients have all drawn their session keys, `handleReceive` returns on a
datagram if and only if it does not start with the magic, or no recipient takes it, or the one that
does can read it to its end. -/
theorem handleReceive_ends_iff {es : List MuxEvent} {mux : PortMultiplexer}
    (hr : (multiplexer L).Run es mux) (hdrawn : ∀ ev ∈ es, ev.Drawn)
    (hkeys : ∀ r ∈ mux.recipients, r.sub.derived.canEncrypt = true) (source : Endpoint)
    (packet : Bytes) :
    (∃ mux', handleReceive L source packet mux = .ok mux') ↔ mux.Digestible L source packet := by
  have harmed : ∀ r ∈ mux.recipients, Armed r := fun r hm =>
    ⟨recipients_sound hr hdrawn r hm, by simpa [CryptoHandler.canEncrypt] using hkeys r hm⟩
  by_cases hmagic : ∃ contents, packet = WGA_MAGIC ++ contents
  · obtain ⟨contents, rfl⟩ := hmagic
    have hread : mux.Digestible L source (WGA_MAGIC ++ contents) ↔ ∀ i r,
        (route source contents mux.recipients).1 = some i → mux.recipients[i]? = some r →
        EncryptedMultiEndpointHandler.Digestible L contents r :=
      ⟨fun h i r => h contents i r rfl, fun h c i r hc =>
        List.append_cancel_left hc ▸ h i r⟩
    -- the recipient the search finds is the only one asked
    have hone : ∀ {i : Nat} {r}, mux.recipients[i]? = some r →
        ((∀ j q, some i = some j → mux.recipients[j]? = some q →
          EncryptedMultiEndpointHandler.Digestible L contents q) ↔
          EncryptedMultiEndpointHandler.Digestible L contents r) := by
      intro i r hi
      refine ⟨fun h => h i r rfl hi, fun h j q hj hq => ?_⟩
      cases hj
      cases hi.symm.trans hq
      exact h
    rw [hread, handleReceive_magic]
    rcases route_cases source contents mux.recipients with
      ⟨i, r, hi, hh, hroute⟩ | ⟨i, r, hc, hb, hi, hn, hroute⟩ | ⟨hn, hroute⟩
    · have hget : (mux.recipients.map (resurrect source))[i]? = some (resurrect source r) := by
        rw [List.getElem?_map, hi]
        rfl
      simp only [hroute, hget, hone hi]
      refine deliver_moved_iff (harmed r (List.mem_of_getElem? hi)) ?_ ?_ ?_
      · rfl
      · rfl
      · exact resurrect_derived source r.sub
    · have hlt : i < mux.recipients.length := (List.getElem?_eq_some_iff.mp hi).1
      have hget : (mux.recipients.set i (adopt source r))[i]? = some (adopt source r) :=
        List.getElem?_set_self hlt
      simp only [hroute, hget, hone hi]
      refine deliver_moved_iff (harmed r (List.mem_of_getElem? hi)) ?_ ?_ ?_
      · rfl
      · rfl
      · exact addEndpoint_derived source r.sub
    · simp only [hroute]
      exact ⟨fun _ i r h => (by cases h), fun _ => ⟨_, rfl⟩⟩
  · rw [handleReceive_no_magic fun contents heq => hmagic ⟨contents, heq⟩]
    exact ⟨fun _ contents i r heq => absurd ⟨contents, heq⟩ hmagic, fun _ => ⟨_, rfl⟩⟩

/-- A recipient that has drawn its session key. -/
def keyedRun : List MuxEvent :=
  [.addRecipient aRecipient, .call 0 (.sendSessionKey (.replicate 32 7))]

theorem keyedRun_ends : ∃ mux, after .standIn keyedRun = .ok mux ∧
    (∀ r ∈ mux.recipients, r.sub.derived.canEncrypt = true) ∧
    handleReceive .standIn ⟨1, 1⟩ WGA_MAGIC mux = .error (.thrown "Read failed") := by
  decide +kernel

theorem keyedRun_drawn : ∀ ev ∈ keyedRun, ev.Drawn := by
  simp only [keyedRun, List.forall_mem_cons, List.not_mem_nil, IsEmpty.forall_iff, implies_true,
    and_true, MuxEvent.Drawn, OwnerCall.Drawn, Construction.Drawn, aRecipient]
  decide

/-- The condition on a datagram for that recipient. -/
theorem handleReceive_ends_iff_keyed : ∃ mux, (multiplexer .standIn).Run keyedRun mux ∧
    ((∃ mux', handleReceive .standIn ⟨1, 1⟩ WGA_MAGIC mux = .ok mux') ↔
      mux.Digestible .standIn ⟨1, 1⟩ WGA_MAGIC) := by
  obtain ⟨mux, h, hkeys, -⟩ := keyedRun_ends
  have hr := run_iff_after.mpr h
  exact ⟨mux, hr, handleReceive_ends_iff hr keyedRun_drawn hkeys ⟨1, 1⟩ WGA_MAGIC⟩

/-- **The magic alone brings the process down**: the recipient has no header to read. -/
theorem handleReceive_empty : ∃ mux, (multiplexer .standIn).Run keyedRun mux ∧
    (∀ r ∈ mux.recipients, r.sub.derived.canEncrypt = true) ∧
    handleReceive .standIn ⟨1, 1⟩ WGA_MAGIC mux = .error (.thrown "Read failed") ∧
    ¬ ∃ mux', handleReceive .standIn ⟨1, 1⟩ WGA_MAGIC mux = .ok mux' := by
  obtain ⟨mux, h, hkeys, hfail⟩ := keyedRun_ends
  refine ⟨mux, run_iff_after.mpr h, hkeys, hfail, ?_⟩
  rintro ⟨mux', hok⟩
  rw [hfail] at hok
  cases hok

end PortMultiplexer

end Wga
