import WeGoAll.Endpoints.Datagrams

/-!
# Endpoints — Search

Packets from a source no recipient has.  The search tries the first recipient that has not banned
the source and keeps to it until it bans the source, which it would do if `receive` returned false;
`receive` never does.

* `First`: the states in which packets from the source go to the first recipient.
* `first_run`: they do for ever.
* `finds_peer_iff`: the packets find their recipient exactly when it is the first one.
-/

namespace Wga

open Handler MultiEndpointHandler EncryptedMultiEndpointHandler

variable {L : Libraries} {source : Endpoint} {contents : Bytes}

namespace PortMultiplexer

/-! ### The first recipient -/

/-- A source that nobody but perhaps the first recipient holds, and which the first has not banned,
goes to the first. -/
theorem route_first {r : EncryptedHandler} {rest : List EncryptedHandler}
    (hb : source ∉ r.sub.bannedEndpoints) (hrest : ∀ a ∈ rest, ¬ a.sub.Holds source)
    (hc : contents ≠ []) : ∃ r₁, (r₁ = resurrect source r ∨ r₁ = adopt source r) ∧
      route source contents (r :: rest) = (some 0, r₁ :: rest) := by
  have hsnd := findRecipient_snd source 0 (r :: rest)
  rw [List.map_cons, map_resurrect_eq_self hrest] at hsnd
  cases hfst : (findRecipient source 0 (r :: rest)).1 with
  | some k =>
      obtain ⟨j, a, hk, hj, ha⟩ := findRecipient_some hfst
      have hj0 : j = 0 := by
        cases j with
        | zero => rfl
        | succ j => exact absurd ha (hrest a (List.mem_of_getElem? hj))
      have hf : findRecipient source 0 (r :: rest) = (some 0, resurrect source r :: rest) :=
        Prod.ext (by rw [hfst, hk, hj0]) hsnd
      exact ⟨_, .inl rfl, by rw [route, hf]⟩
  | none =>
      have hn := findRecipient_none hfst r List.mem_cons_self
      rw [resurrect_eq_self hn] at hsnd
      have hf : findRecipient source 0 (r :: rest) = (none, r :: rest) := Prod.ext hfst hsnd
      have hfirst : firstNotBanned source (r :: rest) = some 0 := by
        simp [firstNotBanned, List.findIdx?_cons, isEndpointBanned, hb]
      refine ⟨_, .inr rfl, ?_⟩
      simp only [route, hf, if_pos hc, hfirst]
      rfl

end PortMultiplexer

namespace EncryptedMultiEndpointHandler

/-- **A message keeps both keys** once they are there. -/
theorem receive_derived {s s' : EncryptedHandler} {b : Bool} (hs : Sound s)
    (hkey : s.sub.derived.incomingSessionKey ≠ emptySessionKey)
    (h : receive L contents s = .ok (b, s')) : s'.sub.derived = s.sub.derived := by
  have hpacket : ∀ (p : Packet) {s s' : EncryptedHandler}, Sound s →
      s.sub.derived.incomingSessionKey ≠ emptySessionKey →
      BiDirectionalRpc.handlePacket L (virtuals L) p s = .ok s' →
      s'.sub.derived = s.sub.derived := by
    intro p s s' hs hkey h
    cases p with
    | request es =>
        refine (foldlM_invariant (I := fun s₁ => s₁.sub.derived = s.sub.derived)
          (fun s₁ e s₂ _ hs₁ h₂ => ?_) rfl h :)
        rcases (handleRequest_keys h₂).2 with heq | ⟨hempty, -⟩
        · exact heq.trans hs₁
        · rw [hs₁] at hempty
          exact absurd hempty hkey
    | reply es =>
        refine (foldlM_invariant (I := fun s₁ => Sound s₁ ∧ s₁.sub.derived = s.sub.derived)
          (fun s₁ e s₂ _ hs₁ h₂ => ?_) ⟨hs, rfl⟩ h).2
        have hpath : Path L (rights s₁) (Carries L (rights s₁)) (s₁.at .idle) (s₂.at .idle) :=
          handleReply_path trivial hs₁.1.consistent (fun _ _ _ => trivial)
            (fun _ _ _ _ => trivial) h₂
        exact ⟨hs₁.1.rights_path hpath, (path_derived hpath).trans hs₁.2⟩
    | acknowledge uid q => rw [BiDirectionalRpc.handleAcknowledge_sub h]
  rcases BiDirectionalRpc.receive_cases h with rfl | ⟨p, hp⟩
  · rw [BiDirectionalRpc.flake_sub]
  · refine (hpacket p hs.flake ?_ hp).trans (by rw [BiDirectionalRpc.flake_sub])
    rwa [BiDirectionalRpc.flake_sub]

end EncryptedMultiEndpointHandler

namespace PortMultiplexer

/-- Packets from the source go to the first recipient, which has both keys. -/
def First (source : Endpoint) (mux : PortMultiplexer) : Prop :=
  ∃ r rest, mux.recipients = r :: rest ∧ source ∉ r.sub.bannedEndpoints ∧
    (∀ a ∈ rest, ¬ a.sub.Holds source) ∧ r.sub.derived.canEncrypt = true ∧
    r.sub.derived.canDecrypt = true

/-- The contents of a datagram are a packet, and a packet is not empty. -/
def WellFormed (L : Libraries) (contents : Bytes) : Prop :=
  contents ≠ [] ∧ ∃ p : Packet, p.Reads (L.unpack contents)

theorem First.handed {mux : PortMultiplexer} (hf : First source mux) (hc : contents ≠ []) :
    (route source contents mux.recipients).1 = some 0 := by
  obtain ⟨r, rest, hr, hb, hrest, -⟩ := hf
  obtain ⟨r₁, -, hroute⟩ := route_first hb hrest hc
  rw [hr, hroute]

/-- **The first recipient keeps the source.** -/
theorem First.receive {es : List MuxEvent} {mux : PortMultiplexer}
    (hr : (multiplexer L).Run es mux) (hdrawn : ∀ ev ∈ es, ev.Drawn) (hf : First source mux)
    (hw : WellFormed L contents) : ∃ mux',
      handleReceive L source (WGA_MAGIC ++ contents) mux = .ok mux' ∧ First source mux' := by
  obtain ⟨r, rest, hrs, hb, hrest, henc, hdec⟩ := hf
  obtain ⟨hc, p, hp⟩ := hw
  have hout : r.sub.derived.outgoingSessionKey ≠ emptySessionKey := by
    simpa [CryptoHandler.canEncrypt] using henc
  have hin : r.sub.derived.incomingSessionKey ≠ emptySessionKey := by
    simpa [CryptoHandler.canDecrypt] using hdec
  obtain ⟨r₁, hr₁, hroute⟩ := route_first hb hrest hc
  obtain ⟨hrpc, hkeys, hbanned⟩ : r₁.rpc = r.rpc ∧ r₁.sub.derived = r.sub.derived ∧
      r₁.sub.bannedEndpoints = r.sub.bannedEndpoints := by
    rcases hr₁ with rfl | rfl
    · exact ⟨rfl, resurrect_derived source r.sub, (resurrect_sameRoles source r.sub).2⟩
    · exact ⟨rfl, addEndpoint_derived source r.sub, addEndpoint_banned source r.sub⟩
  have hs : Sound r₁ := (recipients_sound hr hdrawn r (by rw [hrs]; exact List.mem_cons_self)).of_keys
    hrpc hkeys
  obtain ⟨r', hd⟩ : ∃ r', deliver L source contents r₁ = .ok r' := by
    refine (deliver_ends_iff source ⟨hs, by rw [hkeys]; exact hout⟩).mpr ⟨hp.headed, .inr ⟨p, hp, ?_⟩⟩
    intro hempty
    rw [hkeys] at hempty
    exact absurd hempty hin
  have hrec := receive_of_deliver hd
  have hkeys' : r'.sub.derived = r.sub.derived :=
    (receive_derived hs (by rw [hkeys]; exact hin) hrec).trans hkeys
  refine ⟨{ mux with receiveEndpoint := source, recipients := r' :: rest }, ?_, r', rest, rfl, ?_,
    hrest, ?_, ?_⟩
  · rw [handleReceive_magic, hrs, hroute]
    exact bind_ok.mpr ⟨r', hd, rfl⟩
  · rw [(receive_sameRoles hrec).2, hbanned]
    exact hb
  · rw [hkeys']
    exact henc
  · rw [hkeys']
    exact hdec

/-- Packets from a source. -/
def packets (source : Endpoint) (cs : List Bytes) : List MuxEvent :=
  cs.map fun c => .receive source (WGA_MAGIC ++ c)

/-- **All of them go to the first recipient.** -/
theorem first_run {es : List MuxEvent} {mux : PortMultiplexer} (hr : (multiplexer L).Run es mux)
    (hdrawn : ∀ ev ∈ es, ev.Drawn) (hf : First source mux) {cs : List Bytes}
    (hcs : ∀ c ∈ cs, WellFormed L c) :
    ∃ m, (multiplexer L).Run (es ++ packets source cs) m ∧ First source m := by
  induction cs using List.reverseRecOn with
  | nil => exact ⟨mux, by rwa [packets, List.map_nil, List.append_nil], hf⟩
  | append_singleton cs c ih =>
      obtain ⟨m, hm, hfm⟩ := ih fun a ha => hcs a (List.mem_append_left _ ha)
      have hdrawn' : ∀ ev ∈ es ++ packets source cs, ev.Drawn := by
        intro ev hev
        rcases List.mem_append.mp hev with hev | hev
        · exact hdrawn ev hev
        · obtain ⟨a, -, rfl⟩ := List.mem_map.mp hev
          trivial
      obtain ⟨m', h, hfm'⟩ := hfm.receive hm hdrawn'
        (hcs c (List.mem_append_right _ (List.mem_singleton.mpr rfl)))
      refine ⟨m', ?_, hfm'⟩
      rw [packets, List.map_append, ← List.append_assoc]
      exact hm.snoc h

/-! ### The search -/

/-- After the events `es` and the packets before it, the packet `k` from the source is handed to the
recipient `i`. -/
def HandedTo (L : Libraries) (es : List MuxEvent) (source : Endpoint) (cs : List Bytes)
    (k i : Nat) : Prop :=
  ∃ c m, cs[k]? = some c ∧ (multiplexer L).Run (es ++ packets source (cs.take k)) m ∧
    (route source c m.recipients).1 = some i

/-- After the first `k` packets the recipient `i` has banned the source. -/
def BannedAfter (L : Libraries) (es : List MuxEvent) (source : Endpoint) (cs : List Bytes)
    (k i : Nat) : Prop :=
  ∃ m r, (multiplexer L).Run (es ++ packets source (cs.take k)) m ∧
    m.recipients[i]? = some r ∧ source ∈ r.sub.bannedEndpoints

/-- The recipients before `j` get one packet at most and ban the source after it, and from the
packet `j` on every packet goes to `j`. -/
structure FindsPeer (L : Libraries) (es : List MuxEvent) (source : Endpoint) (cs : List Bytes)
    (j : Nat) : Prop where
  once : ∀ i < j, ∀ k k', HandedTo L es source cs k i → HandedTo L es source cs k' i → k = k'
  bans : ∀ i < j, ∀ k, HandedTo L es source cs k i → BannedAfter L es source cs (k + 1) i
  found : ∀ k, j ≤ k → k < cs.length → HandedTo L es source cs k j

/-- Nobody holds the source or has banned it. -/
def Unknown (source : Endpoint) (mux : PortMultiplexer) : Prop :=
  ∀ r ∈ mux.recipients, ¬ r.sub.HasRole source ∧ source ∉ r.sub.bannedEndpoints

/-- All recipients have both session keys. -/
def Keyed (mux : PortMultiplexer) : Prop :=
  ∀ r ∈ mux.recipients, r.sub.derived.canEncrypt = true ∧ r.sub.derived.canDecrypt = true

/-- A packet that is not of the handshake and opens only under the session key of the recipient
`j`. -/
def MeantFor (L : Libraries) (mux : PortMultiplexer) (j : Nat) (contents : Bytes) : Prop :=
  contents ≠ [] ∧ ∃ p : Packet, p.Reads (L.unpack contents) ∧ ∀ e ∈ p.payloads,
    e.1 ≠ SESSION_KEY_RPCID ∧ ∀ i r, mux.recipients[i]? = some r →
      ((CryptoHandler.openSecret L r.sub.derived.incomingSessionKey e.2).isSome ↔ i = j)

theorem MeantFor.wellFormed {mux : PortMultiplexer} {j : Nat} (h : MeantFor L mux j contents) :
    WellFormed L contents := by
  obtain ⟨hc, p, hp, -⟩ := h
  exact ⟨hc, p, hp⟩

section

variable {es : List MuxEvent} {mux : PortMultiplexer} {cs : List Bytes} {j : Nat}

theorem first_of_unknown (hu : Unknown source mux) (hk : Keyed mux)
    (hj : j < mux.recipients.length) : First source mux := by
  obtain ⟨r, rest, hrs⟩ := List.exists_cons_of_length_pos (Nat.zero_lt_of_lt hj)
  have hmem : ∀ a ∈ r :: rest, a ∈ mux.recipients := fun a ha => hrs ▸ ha
  obtain ⟨henc, hdec⟩ := hk r (hmem r List.mem_cons_self)
  exact ⟨r, rest, hrs, (hu r (hmem r List.mem_cons_self)).2,
    fun a ha hh => (hu a (hmem a (List.mem_cons_of_mem _ ha))).1 hh.2, henc, hdec⟩

/-- Every packet is handed to the first recipient, and it bans the source after none. -/
theorem handed_first (hr : (multiplexer L).Run es mux) (hdrawn : ∀ ev ∈ es, ev.Drawn)
    (hf : First source mux) (hcs : ∀ c ∈ cs, WellFormed L c) {k : Nat} (hk : k < cs.length) :
    HandedTo L es source cs k 0 ∧ ¬ BannedAfter L es source cs (k + 1) 0 := by
  have htake : ∀ n, ∀ c ∈ cs.take n, WellFormed L c := fun n c hc => hcs c (List.mem_of_mem_take hc)
  refine ⟨?_, ?_⟩
  · obtain ⟨m, hm, hfm⟩ := first_run hr hdrawn hf (htake k)
    exact ⟨cs[k], m, List.getElem?_eq_getElem hk, hm,
      hfm.handed (hcs _ (List.getElem_mem hk)).1⟩
  · rintro ⟨m, r, hm, hget, hb⟩
    obtain ⟨m', hm', r', rest, hrs, hnb, -⟩ := first_run hr hdrawn hf (htake (k + 1))
    obtain rfl := run_unique hm hm'
    rw [hrs] at hget
    cases hget
    exact hnb hb

/-- **Packets meant for a later recipient do not find it.** -/
theorem not_findsPeer (hr : (multiplexer L).Run es mux) (hdrawn : ∀ ev ∈ es, ev.Drawn)
    (hu : Unknown source mux) (hk : Keyed mux) (hj : j < mux.recipients.length)
    (hcs : ∀ c ∈ cs, MeantFor L mux j c) (hne : cs ≠ []) (hj0 : j ≠ 0) :
    ¬ FindsPeer L es source cs j := by
  intro hfind
  obtain ⟨hhanded, hnot⟩ := handed_first hr hdrawn (first_of_unknown hu hk hj)
    (fun c hc => (hcs c hc).wellFormed) (List.length_pos_iff.mpr hne)
  exact hnot (hfind.bans 0 (Nat.pos_of_ne_zero hj0) 0 hhanded)

/-- **Packets from an unknown source find their recipient exactly when it is the first one**, or
when there are none. -/
theorem finds_peer_iff (hr : (multiplexer L).Run es mux) (hdrawn : ∀ ev ∈ es, ev.Drawn)
    (hu : Unknown source mux) (hk : Keyed mux) (hj : j < mux.recipients.length)
    (hcs : ∀ c ∈ cs, MeantFor L mux j c) :
    FindsPeer L es source cs j ↔ cs = [] ∨ j = 0 := by
  constructor
  · intro hfind
    by_contra hn
    rw [not_or] at hn
    exact not_findsPeer hr hdrawn hu hk hj hcs hn.1 hn.2 hfind
  · rintro (rfl | rfl)
    · exact ⟨fun i _ k k' ⟨c, m, hc, _⟩ => (by cases hc), fun i _ k ⟨c, m, hc, _⟩ => (by cases hc),
        fun k _ hk => absurd hk (Nat.not_lt_zero k)⟩
    · exact ⟨nofun, nofun, fun k _ hk' => (handed_first hr hdrawn (first_of_unknown hu hk hj)
        (fun c hc => (hcs c hc).wellFormed) hk').1⟩

end

/-! ### Two peers -/

/-- A second handler, of another peer. -/
def anotherRecipient : Construction :=
  ⟨.replicate 32 3, .replicate 32 4, [⟨3, 3⟩], 1, false, default, []⟩

/-- The handshake in which the peer of a handler sends its session key. -/
def handshakeOf (c : Construction) (key : SessionKey) : Bytes :=
  let L := Libraries.standIn
  let encryptedKey : EncryptedSessionKey :=
    (.replicate 24 0 : Nonce) ++ L.box key (.replicate 24 0) (L.scalarmultBase c.privateKey)
      c.otherPublicKey
  (Packet.request [⟨SESSION_KEY_RPCID,
    L.pack [.str (CryptoHandler.keyToString L c.otherPublicKey),
      .str (CryptoHandler.keyToString L encryptedKey)]⟩]).message L

/-- Two recipients exchange session keys with their peers. -/
def twoPeersRun : List MuxEvent :=
  [.addRecipient aRecipient, .call 0 (.sendSessionKey (.replicate 32 7)),
    .receive ⟨1, 1⟩ (WGA_MAGIC ++ handshakeOf aRecipient (.replicate 32 5)),
    .addRecipient anotherRecipient, .call 1 (.sendSessionKey (.replicate 32 8)),
    .receive ⟨3, 3⟩ (WGA_MAGIC ++ handshakeOf anotherRecipient (.replicate 32 6))]

/-- A request of the second peer. -/
def forAnother : Packet :=
  .request [⟨⟨0, 9⟩, (List.Vector.replicate 24 0).toList ++
    Libraries.standIn.secretbox (ascii ['H', 'I']) (.replicate 24 0) (.replicate 32 6)⟩]

theorem twoPeersRun_ends : ∃ mux, after .standIn twoPeersRun = .ok mux ∧
    (∀ r ∈ mux.recipients, ¬ r.sub.HasRole ⟨9, 9⟩ ∧ ⟨9, 9⟩ ∉ r.sub.bannedEndpoints) ∧
    (∀ r ∈ mux.recipients,
      r.sub.derived.canEncrypt = true ∧ r.sub.derived.canDecrypt = true) ∧
    mux.recipients.length = 2 ∧ ∀ e ∈ forAnother.payloads, e.1 ≠ SESSION_KEY_RPCID ∧
      mux.recipients.map (fun r => (CryptoHandler.openSecret .standIn
        r.sub.derived.incomingSessionKey e.2).isSome) = [false, true] := by
  decide +kernel

theorem twoPeersRun_drawn : ∀ ev ∈ twoPeersRun, ev.Drawn := by
  simp only [twoPeersRun, List.forall_mem_cons, List.not_mem_nil, IsEmpty.forall_iff,
    implies_true, and_true, MuxEvent.Drawn, OwnerCall.Drawn, Construction.Drawn, aRecipient,
    anotherRecipient]
  decide

/-- The request is meant for the second recipient. -/
theorem forAnother_meant : ∃ mux, (multiplexer .standIn).Run twoPeersRun mux ∧
    Unknown ⟨9, 9⟩ mux ∧ Keyed mux ∧ mux.recipients.length = 2 ∧
    MeantFor .standIn mux 1 (forAnother.message .standIn) := by
  obtain ⟨mux, h, hu, hk, hlen, hopen⟩ := twoPeersRun_ends
  refine ⟨mux, run_iff_after.mpr h, hu, hk, hlen, by decide +kernel, forAnother,
    Libraries.standIn.unpack_pack _, fun e he => ⟨(hopen e he).1, fun i r hi => ?_⟩⟩
  have hget := congrArg (·[i]?) (hopen e he).2
  simp only [List.getElem?_map, hi, Option.map_some] at hget
  have hlt : i < 2 := hlen ▸ (List.getElem?_eq_some_iff.mp hi).1
  match i with
  | 0 => simpa using hget
  | 1 => simpa using hget

/-- The condition there. -/
theorem finds_peer_iff_forAnother :
    FindsPeer .standIn twoPeersRun ⟨9, 9⟩ [forAnother.message .standIn] 1 ↔
      [forAnother.message .standIn] = [] ∨ 1 = 0 := by
  obtain ⟨mux, hr, hu, hk, hlen, hm⟩ := forAnother_meant
  exact finds_peer_iff hr twoPeersRun_drawn hu hk (hlen ▸ Nat.one_lt_two) (by simpa using hm)

/-- **The first recipient keeps what is meant for the second.** -/
theorem forAnother_kept : ∃ mux, (multiplexer .standIn).Run twoPeersRun mux ∧
    Unknown ⟨9, 9⟩ mux ∧ Keyed mux ∧ mux.recipients.length = 2 ∧
    MeantFor .standIn mux 1 (forAnother.message .standIn) ∧
    ¬ FindsPeer .standIn twoPeersRun ⟨9, 9⟩ [forAnother.message .standIn] 1 := by
  obtain ⟨mux, hr, hu, hk, hlen, hm⟩ := forAnother_meant
  exact ⟨mux, hr, hu, hk, hlen, hm, not_findsPeer hr twoPeersRun_drawn hu hk
    (hlen ▸ Nat.one_lt_two) (by simpa using hm) (List.cons_ne_nil _ _) Nat.one_ne_zero⟩

end PortMultiplexer

end Wga
