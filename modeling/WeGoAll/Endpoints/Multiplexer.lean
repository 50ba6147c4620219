import WeGoAll.Endpoints.Handlers

/-!
# Endpoints — Multiplexer

A multiplexer at work: recipients are constructed and registered, datagrams of any bytes arrive
from anywhere, and the owners of the recipients call their methods.

* `multiplexer`: the system of all these events.
* `route_cases`: the three things the search for a recipient can come to.
* `handleReceive_cases`: what a datagram changes.
* `addRecipient_cases`: what a registration changes.
* `recipients_invariant`: what every operation on a recipient keeps holds of every recipient.
-/

namespace Wga

open Handler MultiEndpointHandler

/-! ### The system -/

/-- An event at a multiplexer. -/
inductive MuxEvent where
  /-- A recipient is constructed and registered. -/
  | addRecipient (c : Construction)
  /-- A datagram arrives. -/
  | receive (source : Endpoint) (packet : Bytes)
  /-- The owner of the recipient with this index calls a method. -/
  | call (i : Nat) (c : OwnerCall)

namespace PortMultiplexer

def step (L : Libraries) (mux : PortMultiplexer) : MuxEvent → Except Fault PortMultiplexer
  | .addRecipient c => do
      let r ← c.make L
      addRecipient r mux
  | .receive source packet => handleReceive L source packet mux
  | .call i c =>
      match mux.recipients[i]? with
      | none => .ok mux
      | some r => do
          let r ← c.run L r
          .ok { mux with recipients := mux.recipients.set i r }

end PortMultiplexer

/-- The runs of a multiplexer in which the process survives. -/
def multiplexer (L : Libraries) : System PortMultiplexer MuxEvent :=
  .ofStep (fun mux => mux = .new) (PortMultiplexer.step L)

/-- The state a sequence of events leads to from a new multiplexer. -/
def PortMultiplexer.after (L : Libraries) (es : List MuxEvent) : Except Fault PortMultiplexer :=
  es.foldlM (PortMultiplexer.step L) .new

theorem PortMultiplexer.run_iff_after {L : Libraries} {es : List MuxEvent}
    {mux : PortMultiplexer} : (multiplexer L).Run es mux ↔ after L es = .ok mux :=
  System.run_from

theorem PortMultiplexer.run_unique {L : Libraries} {es : List MuxEvent} {a b : PortMultiplexer}
    (ha : (multiplexer L).Run es a) (hb : (multiplexer L).Run es b) : a = b :=
  System.run_from_unique ha hb

/-! ### The search for a recipient -/

/-- The recipient after the endpoint was added to it. -/
def adopt (source : Endpoint) (r : EncryptedHandler) : EncryptedHandler :=
  { r with sub := addEndpoint source r.sub }

theorem resurrect_eq_self {source : Endpoint} {r : EncryptedHandler} (h : ¬ r.sub.Holds source) :
    resurrect source r = r := by
  unfold resurrect
  rw [resurrect_of_not_holds h]

namespace PortMultiplexer

theorem findRecipient_snd (source : Endpoint) (i : Nat) (rs : List EncryptedHandler) :
    (findRecipient source i rs).2 = rs.map (resurrect source) := by
  induction rs generalizing i with
  | nil => rfl
  | cons r rs ih =>
      simp only [findRecipient, List.map_cons, ih]
      rfl

/-- The recipient found holds the source. -/
theorem findRecipient_some {source : Endpoint} {i k : Nat} {rs : List EncryptedHandler}
    (h : (findRecipient source i rs).1 = some k) :
    ∃ j r, k = i + j ∧ rs[j]? = some r ∧ r.sub.Holds source := by
  induction rs generalizing i k with
  | nil => cases h
  | cons r rs ih =>
      simp only [findRecipient] at h
      cases hl : (findRecipient source (i + 1) rs).1 with
      | some m =>
          obtain ⟨j, r', hk, hj, hr'⟩ := ih hl
          rw [hl, Option.some_or] at h
          refine ⟨j + 1, r', ?_, hj, hr'⟩
          cases h
          omega
      | none =>
          rw [hl, Option.none_or] at h
          split at h
          · rename_i hf
            cases h
            exact ⟨0, r, rfl, rfl, (resurrect_found source r.sub).mp hf⟩
          · cases h

/-- Where the search finds nobody, nobody holds the source. -/
theorem findRecipient_none {source : Endpoint} {i : Nat} {rs : List EncryptedHandler}
    (h : (findRecipient source i rs).1 = none) : ∀ r ∈ rs, ¬ r.sub.Holds source := by
  induction rs generalizing i with
  | nil => simp
  | cons r rs ih =>
      simp only [findRecipient, Option.or_eq_none_iff] at h
      obtain ⟨hl, hr⟩ := h
      intro a ha
      rcases List.mem_cons.mp ha with rfl | ha
      · intro hh
        rw [if_pos ((resurrect_found source a.sub).mpr hh)] at hr
        cases hr
      · exact ih hl a ha

theorem map_resurrect_eq_self {source : Endpoint} {rs : List EncryptedHandler}
    (h : ∀ r ∈ rs, ¬ r.sub.Holds source) : rs.map (resurrect source) = rs := by
  conv_rhs => rw [← List.map_id rs]
  exact List.map_congr_left fun r hr => resurrect_eq_self (h r hr)

/-- **The search**: a recipient that holds the source is found, or the source is added to one that
has not banned it, or the datagram goes to nobody. -/
theorem route_cases (source : Endpoint) (contents : Bytes) (rs : List EncryptedHandler) :
    (∃ i r, rs[i]? = some r ∧ r.sub.Holds source ∧
      route source contents rs = (some i, rs.map (resurrect source))) ∨
    (∃ i r, contents ≠ [] ∧ firstNotBanned source rs = some i ∧ rs[i]? = some r ∧
      (∀ r ∈ rs, ¬ r.sub.Holds source) ∧
      route source contents rs = (some i, rs.set i (adopt source r))) ∨
    ((∀ r ∈ rs, ¬ r.sub.Holds source) ∧ route source contents rs = (none, rs)) := by
  have hsnd := findRecipient_snd source 0 rs
  cases hfst : (findRecipient source 0 rs).1 with
  | some k =>
      obtain ⟨j, r, hk, hj, hr⟩ := findRecipient_some hfst
      have hf : findRecipient source 0 rs = (some j, rs.map (resurrect source)) :=
        Prod.ext (by rw [hfst, hk, Nat.zero_add]) hsnd
      exact Or.inl ⟨j, r, hj, hr, by rw [route, hf]⟩
  | none =>
      have hn := findRecipient_none hfst
      have hf : findRecipient source 0 rs = (none, rs) :=
        Prod.ext hfst (hsnd.trans (map_resurrect_eq_self hn))
      by_cases hc : contents ≠ []
      · cases hb : firstNotBanned source rs with
        | none => exact Or.inr (Or.inr ⟨hn, by simp only [route, hf, if_pos hc, hb]⟩)
        | some i =>
            obtain ⟨hi, -, -⟩ := List.findIdx?_eq_some_iff_getElem.mp hb
            have hm : rs.modify i (adopt source) = rs.set i (adopt source rs[i]) := by
              rw [List.modify_eq_set_getElem?, List.getElem?_eq_getElem hi]
              rfl
            refine Or.inr (Or.inl ⟨i, rs[i], hc, rfl, List.getElem?_eq_getElem hi, hn, ?_⟩)
            rw [← hm]
            simp only [route, hf, if_pos hc, hb]
            rfl
      · refine Or.inr (Or.inr ⟨hn, ?_⟩)
        simp only [route, hf, if_neg hc]

/-! ### What a datagram changes -/

variable {L : Libraries}

/-- A delivered datagram moves endpoints between the roles, and at most bans the source. -/
theorem deliver_roles {source : Endpoint} {contents : Bytes} {r r' : EncryptedHandler}
    (h : deliver L source contents r = .ok r') :
    (∀ e, r'.sub.HasRole e → r.sub.HasRole e) ∧ (∀ e, r'.sub.Holds e → r.sub.Holds e) := by
  obtain ⟨⟨b, r₁⟩, h₁, h⟩ := bind_ok.mp h
  have hs := EncryptedMultiEndpointHandler.receive_sameRoles h₁
  dsimp only at h
  split at h
  · obtain ⟨hroles, -, hban⟩ := banEndpoint_roles h
    refine ⟨fun e he => (hs.1 e).mp ?_, fun e he => ?_⟩
    · by_cases heq : e = source
      · exact heq ▸ hban (heq ▸ he)
      · exact (hroles e heq).mp he
    · exact (holds_of_sameRoles hs e).mp ((holds_banEndpoint h).mp he).1
  · cases h
    exact ⟨fun e => (hs.1 e).mp, fun e => (holds_of_sameRoles hs e).mp⟩

/-- **What a datagram changes**: nothing, or the recipients that hold the source, or the recipient
the source was added to. -/
theorem handleReceive_cases {source : Endpoint} {packet : Bytes} {mux mux' : PortMultiplexer}
    (h : handleReceive L source packet mux = .ok mux') :
    mux' = { mux with receiveEndpoint := source } ∨
    (∃ contents i r r', packet = WGA_MAGIC ++ contents ∧ mux.recipients[i]? = some r ∧
      r.sub.Holds source ∧ deliver L source contents (resurrect source r) = .ok r' ∧
      mux' = { mux with
        receiveEndpoint := source
        recipients := (mux.recipients.map (resurrect source)).set i r' }) ∨
    (∃ contents i r r', packet = WGA_MAGIC ++ contents ∧ contents ≠ [] ∧
      firstNotBanned source mux.recipients = some i ∧ mux.recipients[i]? = some r ∧
      (∀ r ∈ mux.recipients, ¬ r.sub.Holds source) ∧
      deliver L source contents (adopt source r) = .ok r' ∧
      mux' = { mux with
        receiveEndpoint := source
        recipients := mux.recipients.set i r' }) := by
  unfold handleReceive at h
  dsimp only at h
  split at h
  · cases h
    exact Or.inl rfl
  split at h
  · cases h
    exact Or.inl rfl
  rename_i hmagic
  have hpacket : packet = WGA_MAGIC ++ packet.drop WGA_MAGIC.length := by
    rw [not_ne_iff] at hmagic
    conv_lhs => rw [← List.take_append_drop WGA_MAGIC.length packet, hmagic]
  rcases route_cases source (packet.drop WGA_MAGIC.length) mux.recipients with
    ⟨i, r, hi, hr, hroute⟩ | ⟨i, r, hc, hb, hi, hn, hroute⟩ | ⟨hn, hroute⟩
  · have hget : (mux.recipients.map (resurrect source))[i]? = some (resurrect source r) := by
      rw [List.getElem?_map, hi]
      rfl
    simp only [hroute, hget] at h
    obtain ⟨r', hd, h⟩ := bind_ok.mp h
    cases h
    exact Or.inr (Or.inl ⟨_, i, r, r', hpacket, hi, hr, hd, rfl⟩)
  · have hlt : i < mux.recipients.length := (List.getElem?_eq_some_iff.mp hi).1
    have hget : (mux.recipients.set i (adopt source r))[i]? = some (adopt source r) :=
      List.getElem?_set_self hlt
    simp only [hroute, hget, List.set_set] at h
    obtain ⟨r', hd, h⟩ := bind_ok.mp h
    cases h
    exact Or.inr (Or.inr ⟨_, i, r, r', hpacket, hc, hb, hi, hn, hd, rfl⟩)
  · simp only [hroute] at h
    cases h
    exact Or.inl rfl

/-! ### What a registration changes -/

theorem banForAll_ok {ep : Endpoint} {rs rs' : List EncryptedHandler}
    (h : banForAll ep rs = .ok rs') :
    List.Forall₂ (fun r r' => banEndpoint ep r = .ok r') rs rs' := mapM_ok h

/-- What a ban keeps of every recipient, the duplicate check keeps. -/
theorem checkEndpoints_invariant {I : EncryptedHandler → Prop}
    (hI : ∀ {ep r r'}, I r → banEndpoint ep r = .ok r' → I r') {eps : List Endpoint}
    {mux mux' : PortMultiplexer} (hm : ∀ r ∈ mux.recipients, I r)
    (h : checkEndpoints eps mux = .ok mux') : ∀ r ∈ mux'.recipients, I r := by
  induction eps generalizing mux with
  | nil =>
      cases h
      exact hm
  | cons ep eps ih =>
      rw [checkEndpoints] at h
      split at h
      · obtain ⟨rs, hb, h⟩ := bind_ok.mp h
        refine ih (fun r hr => ?_) h
        obtain ⟨a, ha, hab⟩ := forall₂_mem_right (banForAll_ok hb) hr
        exact hI (hm a ha) hab
      · have hm' : ∀ r ∈ ({ mux with
            endpointsSeen := insert ep mux.endpointsSeen } : PortMultiplexer).recipients, I r := hm
        exact ih hm' h

/-- The endpoints the duplicate check knows when it comes to `ep`. -/
def Known (mux : PortMultiplexer) (ep : Endpoint) : Prop :=
  ep ∈ mux.endpointsSeen ∨ ep = mux.receiveEndpoint

/-- **The duplicate check** takes the known endpoints among `eps` from every recipient, and no
other endpoint from any. -/
theorem checkEndpoints_holds {eps : List Endpoint} (hd : eps.Nodup) {mux mux' : PortMultiplexer}
    (h : checkEndpoints eps mux = .ok mux') :
    mux'.receiveEndpoint = mux.receiveEndpoint ∧
    List.Forall₂ (fun r r' => ∀ e, (r'.sub.HasRole e → r.sub.HasRole e) ∧
        (r'.sub.Holds e ↔ r.sub.Holds e ∧ ¬ (e ∈ eps ∧ mux.Known e)))
      mux.recipients mux'.recipients := by
  induction eps generalizing mux with
  | nil =>
      cases h
      exact ⟨rfl, List.forall₂_same.mpr fun r _ e => by simp⟩
  | cons ep eps ih =>
      obtain ⟨hep, hd⟩ := List.nodup_cons.mp hd
      rw [checkEndpoints] at h
      split at h
      · rename_i hknown
        obtain ⟨rs, hb, h⟩ := bind_ok.mp h
        obtain ⟨hre, hrest⟩ := ih hd h
        refine ⟨hre, forall₂_comp (banForAll_ok hb) hrest fun r r₁ r' hb₁ h₁ e => ?_⟩
        obtain ⟨hroles, -, hban⟩ := banEndpoint_roles hb₁
        have hk : mux.Known ep := hknown
        refine ⟨fun he => ?_, ?_⟩
        · have he₁ := (h₁ e).1 he
          by_cases heq : e = ep
          · exact heq ▸ hban (heq ▸ he₁)
          · exact (hroles e heq).mp he₁
        · rw [(h₁ e).2, holds_banEndpoint hb₁, List.mem_cons]
          have hsame : PortMultiplexer.Known { mux with recipients := rs } e ↔ mux.Known e := Iff.rfl
          rw [hsame]
          constructor
          · rintro ⟨⟨hh, hne⟩, hn⟩
            exact ⟨hh, fun ⟨hm, hkn⟩ => hm.elim hne fun hm => hn ⟨hm, hkn⟩⟩
          · rintro ⟨hh, hn⟩
            exact ⟨⟨hh, fun heq => hn ⟨Or.inl heq, heq ▸ hk⟩⟩, fun ⟨hm, hkn⟩ =>
              hn ⟨Or.inr hm, hkn⟩⟩
      · rename_i hknown
        obtain ⟨hre, hrest⟩ := ih hd h
        refine ⟨hre, hrest.imp fun r r' hrr' e => ⟨(hrr' e).1, ?_⟩⟩
        rw [(hrr' e).2, List.mem_cons]
        refine and_congr_right fun _ => not_congr ?_
        have hk : ¬ mux.Known ep := hknown
        constructor
        · rintro ⟨hm, hkn⟩
          refine ⟨Or.inr hm, hkn.imp_left fun hkn => ?_⟩
          rcases Finset.mem_insert.mp hkn with rfl | hkn
          · exact absurd hm hep
          · exact hkn
        · rintro ⟨rfl | hm, hkn⟩
          · exact absurd hkn hk
          · exact ⟨hm, hkn.imp_left fun hkn => Finset.mem_insert.mpr (Or.inr hkn)⟩

/-- **What a registration changes**: the known alive endpoints of the new recipient are taken from
the others. -/
theorem addRecipient_cases {c : Construction} {mux mux' : PortMultiplexer}
    (h : mux.step L (.addRecipient c) = .ok mux') :
    ∃ r rs, c.make L = .ok r ∧ mux'.recipients = rs ++ [r] ∧
      List.Forall₂ (fun a b => ∀ e, (b.sub.HasRole e → a.sub.HasRole e) ∧
        (b.sub.Holds e ↔ a.sub.Holds e ∧ ¬ (e ∈ aliveEndpoints r.sub ∧ mux.Known e)))
      mux.recipients rs := by
  obtain ⟨r, hr, h⟩ := bind_ok.mp h
  obtain ⟨mux₁, h₁, h⟩ := bind_ok.mp h
  cases h
  have hholds := (checkEndpoints_holds (nodup_inOrder (aliveEndpoints r.sub)) h₁).2
  simp only [mem_inOrder] at hholds
  exact ⟨r, mux₁.recipients, hr, rfl, hholds⟩

/-! ### The recipients are handlers -/

theorem receive_of_deliver {source : Endpoint} {contents : Bytes} {r r' : EncryptedHandler}
    (h : deliver L source contents r = .ok r') :
    EncryptedMultiEndpointHandler.receive L contents r = .ok (true, r') := by
  obtain ⟨⟨b, r₁⟩, h₁, h⟩ := bind_ok.mp h
  obtain rfl := BiDirectionalRpc.receive_true h₁
  cases h
  exact h₁

/-- **What every operation on a recipient keeps holds of every recipient.** -/
theorem recipients_invariant {I : EncryptedHandler → Prop} {es : List MuxEvent}
    {mux : PortMultiplexer} (hr : (multiplexer L).Run es mux)
    (hmake : ∀ c r, .addRecipient c ∈ es → c.make L = .ok r → I r)
    (hcall : ∀ i c r r', .call i c ∈ es → I r → c.run L r = .ok r' → I r')
    (hban : ∀ {ep r r'}, I r → banEndpoint ep r = .ok r' → I r')
    (hres : ∀ source r, I r → I (resurrect source r))
    (hadopt : ∀ source r, I r → I (adopt source r))
    (hreceive : ∀ contents r r', I r →
      EncryptedMultiEndpointHandler.receive L contents r = .ok (true, r') → I r') :
    ∀ r ∈ mux.recipients, I r := by
  have hset : ∀ (i : Nat) (a : EncryptedHandler) (l : List EncryptedHandler),
      (∀ r ∈ l, I r) → I a → ∀ r ∈ l.set i a, I r := by
    intro i a l hl ha r hr
    rcases List.mem_or_eq_of_mem_set hr with hr | rfl
    · exact hl r hr
    · exact ha
  induction hr with
  | start h₀ =>
      cases h₀
      intro r hr
      cases hr
  | @snoc es ev m m' hrun h ih =>
      have hm : ∀ r ∈ m.recipients, I r := ih
        (fun c r hc => hmake c r (List.mem_append_left _ hc))
        (fun i c r r' hc => hcall i c r r' (List.mem_append_left _ hc))
      have hlast : ev ∈ es ++ [ev] := List.mem_append_right _ (List.mem_singleton.mpr rfl)
      cases ev with
      | addRecipient c =>
          obtain ⟨r, hc, h⟩ := bind_ok.mp h
          obtain ⟨m₁, h₁, h⟩ := bind_ok.mp h
          cases h
          intro a ha
          rcases List.mem_append.mp ha with ha | ha
          · exact checkEndpoints_invariant hban hm h₁ a ha
          · rw [List.mem_singleton.mp ha]
            exact hmake c r hlast hc
      | receive source packet =>
          rcases handleReceive_cases h with rfl | ⟨contents, i, r, r', -, hi, -, hd, rfl⟩ |
              ⟨contents, i, r, r', -, -, -, hi, -, hd, rfl⟩
          · exact hm
          · have hall : ∀ r ∈ m.recipients.map (resurrect source), I r := by
              intro a ha
              obtain ⟨b, hb, rfl⟩ := List.mem_map.mp ha
              exact hres source b (hm b hb)
            exact hset i r' _ hall (hreceive _ _ _ (hres source r (hm r (List.mem_of_getElem? hi)))
              (receive_of_deliver hd))
          · exact hset i r' _ hm (hreceive _ _ _ (hadopt source r (hm r (List.mem_of_getElem? hi)))
              (receive_of_deliver hd))
      | call i c =>
          have h' : m.step L (.call i c) = .ok m' := h
          simp only [step] at h'
          split at h'
          · cases h'
            exact hm
          · rename_i r hi
            obtain ⟨r', h₁, h'⟩ := bind_ok.mp h'
            cases h'
            exact hset i r' _ hm (hcall i c r r' hlast (hm r (List.mem_of_getElem? hi)) h₁)

end PortMultiplexer

end Wga
