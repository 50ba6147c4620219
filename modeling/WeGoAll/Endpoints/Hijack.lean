import WeGoAll.Endpoints.Encrypted
import WeGoAll.Endpoints.Multiplexer
import WeGoAll.Endpoints.Validation
import WeGoAll.Rpc.Reading

/-!
# Endpoints — Hijack

Where the endpoints of a recipient come from.  `handleReceive` gives the source of a datagram to a
recipient before the datagram is checked, and the check never fails; so a stranger gets a role in a
recipient with one datagram of any content, and becomes its active endpoint with the next one.

* `Vouched`: the endpoint was supplied by the owner, or a datagram from it authenticated.
* `run_vouched`: in a run whose datagrams authenticate when their source is attached, every
  endpoint with a role is vouched for.
-/

namespace Wga

open Handler MultiEndpointHandler
open EncryptedMultiEndpointHandler (aRecipient aHandshake aHandshakePayload openHandshake)

/-! ### Authentication -/

/-- A payload only the peer can have made: it opens under the session key, or it is the peer's
handshake. -/
def CryptoHandler.Accepts (L : Libraries) (c : CryptoHandler) (id : RpcId) (payload : Bytes) :
    Prop :=
  (c.canDecrypt = true ∧ (openSecret L c.incomingSessionKey payload).isSome) ∨
    (id = SESSION_KEY_RPCID ∧ ∃ key, openHandshake L payload c = .ok (some key))

/-- What is read from the contents of a datagram has a payload that authenticates for the
handler. -/
def Authenticates (L : Libraries) (contents : Bytes) (r : EncryptedHandler) : Prop :=
  ∃ p : Packet, p.Reads (L.unpack contents) ∧
    ∃ e ∈ p.payloads, r.sub.derived.Accepts L e.1 e.2

/-! ### Provenance -/

/-- The constructions of a run, in the order of the recipients. -/
def constructions (es : List MuxEvent) : List Construction :=
  es.filterMap fun
    | .addRecipient c => some c
    | _ => none

theorem constructions_append (es l : List MuxEvent) :
    constructions (es ++ l) = constructions es ++ constructions l := List.filterMap_append

/-- The owner gave `e` to the recipient `i`, to its constructor or to `addEndpoints`, before it was
registered or after. -/
def Supplied (es : List MuxEvent) (i : Nat) (e : Endpoint) : Prop :=
  (∃ c, (constructions es)[i]? = some c ∧ e ∈ c.supplied) ∨
    ∃ l, MuxEvent.call i (.addEndpoints l) ∈ es ∧ e ∈ l

/-- A datagram from `e` carried a payload that authenticated for the recipient `i`. -/
def Authenticated (L : Libraries) (es : List MuxEvent) (i : Nat) (e : Endpoint) : Prop :=
  ∃ p contents m r, p ++ [.receive e (WGA_MAGIC ++ contents)] <+: es ∧
    (multiplexer L).Run p m ∧ m.recipients[i]? = some r ∧ Authenticates L contents r

def Vouched (L : Libraries) (es : List MuxEvent) (i : Nat) (e : Endpoint) : Prop :=
  Supplied es i e ∨ Authenticated L es i e

/-- A datagram whose source nobody holds, and which is therefore attached to the first recipient
that has not banned it, authenticates for that recipient, unless the source was vouched for
before. -/
def AttachesAuthentic (L : Libraries) (p : List MuxEvent) (m : PortMultiplexer)
    (source : Endpoint) (packet : Bytes) : Prop :=
  ∀ contents i r, packet = WGA_MAGIC ++ contents → contents ≠ [] →
    (∀ r ∈ m.recipients, ¬ r.sub.Holds source) →
    PortMultiplexer.firstNotBanned source m.recipients = some i → m.recipients[i]? = some r →
    Vouched L p i source ∨ Authenticates L contents r

variable {L : Libraries}

theorem Supplied.mono {es : List MuxEvent} {i : Nat} {e : Endpoint} (h : Supplied es i e)
    (l : List MuxEvent) : Supplied (es ++ l) i e := by
  rcases h with ⟨c, hc, he⟩ | ⟨eps, hl, he⟩
  · refine Or.inl ⟨c, ?_, he⟩
    rw [constructions_append, List.getElem?_append_left (List.getElem?_eq_some_iff.mp hc).1]
    exact hc
  · exact Or.inr ⟨eps, List.mem_append_left _ hl, he⟩

theorem Vouched.mono {es : List MuxEvent} {i : Nat} {e : Endpoint} (h : Vouched L es i e)
    (l : List MuxEvent) : Vouched L (es ++ l) i e := by
  rcases h with h | ⟨p, contents, m, r, hp, h⟩
  · exact Or.inl (h.mono l)
  · exact Or.inr ⟨p, contents, m, r, hp.trans (List.prefix_append _ _), h⟩

namespace PortMultiplexer

/-! ### One step -/

/-- **Where a role comes from**: it was there before, or the owner gave it, or a datagram from an
endpoint nobody held attached it. -/
theorem step_roles {mux mux' : PortMultiplexer} {ev : MuxEvent} (h : mux.step L ev = .ok mux')
    {i : Nat} {r' : EncryptedHandler} (hi : mux'.recipients[i]? = some r') {e : Endpoint}
    (he : r'.sub.HasRole e) :
    (∃ r, mux.recipients[i]? = some r ∧ r.sub.HasRole e) ∨
    (∃ c, ev = .addRecipient c ∧ i = mux.recipients.length ∧ e ∈ c.supplied) ∨
    (∃ l, ev = .call i (.addEndpoints l) ∧ e ∈ l) ∨
    (∃ contents r, ev = .receive e (WGA_MAGIC ++ contents) ∧ contents ≠ [] ∧
      firstNotBanned e mux.recipients = some i ∧ mux.recipients[i]? = some r ∧
      ∀ r ∈ mux.recipients, ¬ r.sub.Holds e) := by
  cases ev with
  | addRecipient c =>
      obtain ⟨r, rs, hr, hrs, hall⟩ := addRecipient_cases h
      rw [hrs] at hi
      rcases lt_or_ge i rs.length with hlt | hge
      · rw [List.getElem?_append_left hlt] at hi
        obtain ⟨_, heq⟩ := List.getElem?_eq_some_iff.mp hi
        rw [← heq] at he
        have hil : i < mux.recipients.length := hall.length_eq ▸ hlt
        exact Or.inl ⟨_, List.getElem?_eq_getElem hil, (hall.get hil hlt e).1 he⟩
      · rw [List.getElem?_append_right hge, List.getElem?_singleton] at hi
        split at hi
        · rename_i h0
          cases hi
          have hlen := hall.length_eq
          exact Or.inr (Or.inl ⟨c, rfl, by omega, make_roles hr he⟩)
        · cases hi
  | receive source packet =>
      rcases handleReceive_cases h with rfl | ⟨contents, k, r, r₁, -, hk, -, hd, rfl⟩ |
          ⟨contents, k, r, r₁, rfl, hc, hb, hk, hn, hd, rfl⟩
      · exact Or.inl ⟨r', hi, he⟩
      · have hsame := (resurrect_sameRoles source r.sub).1 e
        by_cases hik : i = k
        · subst hik
          rw [List.getElem?_set_self (by
            rw [List.length_map]; exact (List.getElem?_eq_some_iff.mp hk).1)] at hi
          cases hi
          exact Or.inl ⟨r, hk, hsame.mp ((deliver_roles hd).1 e he)⟩
        · rw [List.getElem?_set_ne (Ne.symm hik), List.getElem?_map] at hi
          obtain ⟨a, ha, rfl⟩ := Option.map_eq_some_iff.mp hi
          exact Or.inl ⟨a, ha, ((resurrect_sameRoles source a.sub).1 e).mp he⟩
      · by_cases hik : i = k
        · subst hik
          rw [List.getElem?_set_self (List.getElem?_eq_some_iff.mp hk).1] at hi
          cases hi
          rcases (addEndpoint_roles source e r.sub).mp ((deliver_roles hd).1 e he) with he | ⟨rfl, -⟩
          · exact Or.inl ⟨r, hk, he⟩
          · exact Or.inr (Or.inr (Or.inr ⟨contents, r, rfl, hc, hb, hk, hn⟩))
        · rw [List.getElem?_set_ne (Ne.symm hik)] at hi
          exact Or.inl ⟨r', hi, he⟩
  | call k c =>
      simp only [step] at h
      split at h
      · cases h
        exact Or.inl ⟨r', hi, he⟩
      · rename_i r hk
        obtain ⟨r₁, h₁, h⟩ := bind_ok.mp h
        cases h
        by_cases hik : i = k
        · subst hik
          rw [List.getElem?_set_self (List.getElem?_eq_some_iff.mp hk).1] at hi
          cases hi
          rcases ownerCall_roles h₁ he with he | ⟨l, rfl, hl⟩
          · exact Or.inl ⟨r, hk, he⟩
          · exact Or.inr (Or.inr (Or.inl ⟨l, rfl, hl⟩))
        · rw [List.getElem?_set_ne (Ne.symm hik)] at hi
          exact Or.inl ⟨r', hi, he⟩

/-! ### Runs -/

/-- The recipients are the handlers constructed. -/
theorem length_constructions {es : List MuxEvent} {mux : PortMultiplexer}
    (hr : (multiplexer L).Run es mux) : (constructions es).length = mux.recipients.length := by
  induction hr with
  | start h =>
      rw [show _ = PortMultiplexer.new from h]
      rfl
  | @snoc es ev s s' r h ih =>
      rw [constructions_append, List.length_append, ih]
      cases ev with
      | addRecipient c =>
          obtain ⟨r, rs, -, hrs, hall⟩ := addRecipient_cases h
          rw [hrs, List.length_append, hall.length_eq]
          rfl
      | receive source packet =>
          rcases handleReceive_cases h with rfl | ⟨_, _, _, _, -, -, -, -, rfl⟩ |
              ⟨_, _, _, _, -, -, -, -, -, -, rfl⟩ <;> simp [constructions]
      | call k c =>
          have h' : s.step L (.call k c) = .ok s' := h
          simp only [step] at h'
          split at h'
          · cases h'
            simp [constructions]
          · obtain ⟨_, -, h'⟩ := bind_ok.mp h'
            cases h'
            simp [constructions]

/-- **No hijack without an unauthenticated attachment**: in every run whose datagrams authenticate
when their source is attached, every endpoint with a role in a recipient, its active one among
them, is vouched for. -/
theorem run_vouched {es : List MuxEvent} {mux : PortMultiplexer}
    (hr : (multiplexer L).Run es mux)
    (ha : ∀ p m source packet, p ++ [.receive source packet] <+: es → (multiplexer L).Run p m →
      AttachesAuthentic L p m source packet)
    {i : Nat} {r : EncryptedHandler} (hi : mux.recipients[i]? = some r) :
    Vouched L es i r.sub.activeEndpoint ∧ ∀ e, r.sub.HasRole e → Vouched L es i e := by
  suffices h : ∀ e, r.sub.HasRole e → Vouched L es i e from ⟨h _ (Or.inl rfl), h⟩
  induction hr generalizing i r with
  | start h =>
      rw [show _ = PortMultiplexer.new from h] at hi
      simp [PortMultiplexer.new] at hi
  | @snoc es ev s s' run h ih =>
      intro e he
      have ih' := fun {i r} => @ih (fun p m source packet hp =>
        ha p m source packet (hp.trans (List.prefix_append _ _))) i r
      rcases step_roles h hi he with ⟨r₀, hi₀, he₀⟩ | ⟨c, rfl, rfl, hec⟩ | ⟨l, rfl, hel⟩ |
          ⟨contents, r₀, rfl, hc, hb, hi₀, hn⟩
      · exact (ih' hi₀ e he₀).mono _
      · refine Or.inl (Or.inl ⟨c, ?_, hec⟩)
        rw [← length_constructions run, constructions_append, List.getElem?_append_right le_rfl,
          Nat.sub_self]
        rfl
      · exact Or.inl (Or.inr ⟨l, List.mem_append_right _ List.mem_cons_self, hel⟩)
      · have hatt := ha es s e _ List.prefix_rfl run
        rcases hatt contents i r₀ rfl hc hn hb hi₀ with hv | hauth
        · exact hv.mono _
        · exact Or.inr ⟨es, contents, s, r₀, List.prefix_rfl, run, hi₀, hauth⟩

/-! ### A stranger and a peer -/

/-- The peer sends its handshake from an endpoint the recipient was not given, and sends it
again. -/
def peerRun : List MuxEvent :=
  [.addRecipient aRecipient, .call 0 (.sendSessionKey (.replicate 32 7)),
    .receive ⟨2, 2⟩ (WGA_MAGIC ++ aHandshake), .receive ⟨2, 2⟩ (WGA_MAGIC ++ aHandshake)]

/-- The peer becomes active, and it is vouched for. -/
theorem run_vouched_peer : ∃ mux r, (multiplexer .standIn).Run peerRun mux ∧
    mux.recipients[0]? = some r ∧ r.sub.activeEndpoint = ⟨2, 2⟩ ∧
    Vouched .standIn peerRun 0 r.sub.activeEndpoint ∧
    ∀ e, r.sub.HasRole e → Vouched .standIn peerRun 0 e := by
  have hend : ∃ mux, after .standIn peerRun = .ok mux ∧
      mux.recipients[0]?.map (fun r => r.sub.activeEndpoint) = some ⟨2, 2⟩ := by
    decide +kernel
  have hfirst : ∃ m, after .standIn (peerRun.take 2) = .ok m ∧ ∀ r ∈ m.recipients,
      openHandshake .standIn aHandshakePayload r.sub.derived = .ok (some (.replicate 32 5)) := by
    decide +kernel
  have hsecond : ∃ m, after .standIn (peerRun.take 3) = .ok m ∧ ∃ r ∈ m.recipients,
      r.sub.Holds ⟨2, 2⟩ := by
    decide +kernel
  obtain ⟨mux, h, hact⟩ := hend
  obtain ⟨r, hr, hact⟩ := Option.map_eq_some_iff.mp hact
  refine ⟨mux, r, run_iff_after.mpr h, hr, hact, run_vouched (run_iff_after.mpr h) ?_ hr⟩
  intro p m source packet hp hm
  obtain ⟨k, rfl, hk⟩ := prefix_snoc hp
  rw [run_iff_after] at hm
  rcases k with _ | _ | _ | _ | k <;>
    simp only [peerRun, List.getElem?_cons_succ, List.getElem?_cons_zero, Option.some.injEq,
      MuxEvent.receive.injEq, reduceCtorEq, List.getElem?_nil] at hk
  · obtain ⟨rfl, rfl⟩ := hk
    obtain ⟨m', hm', hopen⟩ := hfirst
    obtain rfl := Except.ok.inj (hm.symm.trans hm')
    intro contents i r hc _ _ _ hi
    obtain rfl := List.append_cancel_left hc
    exact Or.inr ⟨_, Packet.reads_message .standIn _, _, List.mem_cons_self,
      Or.inr ⟨rfl, _, hopen r (List.mem_of_getElem? hi)⟩⟩
  · obtain ⟨rfl, rfl⟩ := hk
    obtain ⟨m', hm', r, hr, hh⟩ := hsecond
    obtain rfl := Except.ok.inj (hm.symm.trans hm')
    exact fun _ _ _ _ _ hn => absurd hh (hn r hr)

/-- A stranger sends an acknowledgement of nothing, twice. -/
def strangerRun : List MuxEvent :=
  let packet := WGA_MAGIC ++ (Packet.acknowledge ⟨0, 2⟩ []).message .standIn
  [.addRecipient aRecipient, .receive ⟨2, 2⟩ packet, .receive ⟨2, 2⟩ packet]

/-- **A stranger becomes the active endpoint** with two datagrams that authenticate nothing. -/
theorem stranger_active : ∃ mux r, (multiplexer .standIn).Run strangerRun mux ∧
    mux.recipients[0]? = some r ∧ r.sub.activeEndpoint = ⟨2, 2⟩ ∧
    ¬ Vouched .standIn strangerRun 0 ⟨2, 2⟩ := by
  have hend : ∃ mux, after .standIn strangerRun = .ok mux ∧
      mux.recipients[0]?.map (fun r => r.sub.activeEndpoint) = some ⟨2, 2⟩ := by
    decide +kernel
  have hkeys : ∀ k < 3, ∃ m, after .standIn (strangerRun.take k) = .ok m ∧
      ∀ r ∈ m.recipients, r.sub.derived.canDecrypt = false := by
    decide +kernel
  obtain ⟨mux, h, hact⟩ := hend
  obtain ⟨r, hr, hact⟩ := Option.map_eq_some_iff.mp hact
  refine ⟨mux, r, run_iff_after.mpr h, hr, hact, ?_⟩
  rintro ((⟨c, hc, he⟩ | ⟨l, hl, -⟩) | ⟨p, contents, m, r, hp, hm, hi, q, hq, e, he, ha⟩)
  · cases hc
    exact absurd he (by decide)
  · simp [strangerRun] at hl
  · obtain ⟨k, rfl, hk⟩ := prefix_snoc hp
    have hk3 : k < 3 := (List.getElem?_eq_some_iff.mp hk).1
    obtain ⟨m', hm', hnokey⟩ := hkeys k hk3
    obtain rfl := Except.ok.inj ((run_iff_after.mp hm).symm.trans hm')
    have hc : contents = (Packet.acknowledge ⟨0, 2⟩ []).message .standIn := by
      match k with
      | 0 => cases hk
      | 1 | 2 =>
          simp only [strangerRun, List.getElem?_cons_succ, List.getElem?_cons_zero,
            Option.some.injEq, MuxEvent.receive.injEq, true_and] at hk
          exact (List.append_cancel_left hk).symm
    rw [hc] at hq
    obtain rfl := hq.eq_acknowledge
    obtain rfl := List.mem_singleton.mp he
    rcases ha with ⟨hcan, -⟩ | ⟨hid, -⟩
    · rw [hnokey r (List.mem_of_getElem? hi)] at hcan
      cases hcan
    · exact absurd hid (by decide)

end PortMultiplexer

end Wga
