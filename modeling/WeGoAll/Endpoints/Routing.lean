import WeGoAll.Endpoints.Multiplexer
import WeGoAll.Formats.Msgpack

/-!
# Endpoints — Routing

Who holds an endpoint.  A datagram, a failover and a ban never give an endpoint to a second
recipient, but a registration does when the duplicate check does not know the endpoint: the check
knows the endpoints of earlier registrations that passed it and the source of the last datagram,
and neither the sources that `handleReceive` added to a recipient nor the endpoints that matched
the last source when they were registered.

* `routing_iff`: along a run, endpoints are held by one recipient each and a datagram changes one
  recipient at most, exactly when every registration finds the duplicates known.
-/

namespace Wga

open Handler MultiEndpointHandler

/-- Every endpoint is held by at most one recipient. -/
def Unambiguous (rs : List EncryptedHandler) : Prop :=
  ∀ (e : Endpoint) (i j : Nat) (a b : EncryptedHandler), rs[i]? = some a → rs[j]? = some b →
    a.sub.Holds e → b.sub.Holds e → i = j

/-- The events that give no recipient an endpoint by the choice of its owner. -/
def MuxEvent.AddsNoEndpoints : MuxEvent → Prop
  | .call _ (.addEndpoints _) => False
  | _ => True

instance : DecidablePred MuxEvent.AddsNoEndpoints
  | .addRecipient _ | .receive _ _ => .isTrue trivial
  | .call _ (.addEndpoints _) => .isFalse id
  | .call _ (.rpc _) | .call _ (.sendSessionKey _) | .call _ (.banEndpoint _) => .isTrue trivial

namespace PortMultiplexer

variable {L : Libraries}

/-- Every endpoint is held by at most one recipient, and whatever datagram arrives changes one
recipient at most. -/
structure RoutesAlone (L : Libraries) (mux : PortMultiplexer) : Prop where
  unambiguous : Unambiguous mux.recipients
  others : ∀ source packet mux', handleReceive L source packet mux = .ok mux' →
    ∃ i : Nat, ∀ j : Nat, j ≠ i → mux'.recipients[j]? = mux.recipients[j]?

/-- The duplicate check looks at every endpoint the new recipient holds together with another one,
and knows it. -/
def DuplicatesKnown (mux : PortMultiplexer) (r : EncryptedHandler) : Prop :=
  ∀ e, r.sub.Holds e → (∃ a ∈ mux.recipients, a.sub.Holds e) →
    e ∈ aliveEndpoints r.sub ∧ mux.Known e

/-! ### One step -/

/-- Recipients that hold no more than before stay unambiguous. -/
theorem unambiguous_of_le {rs rs' : List EncryptedHandler} (hu : Unambiguous rs)
    (h : ∀ (e : Endpoint) (j : Nat) (b : EncryptedHandler), rs'[j]? = some b → b.sub.Holds e →
      ∃ a, rs[j]? = some a ∧ a.sub.Holds e) : Unambiguous rs' := by
  intro e i j a b hi hj ha hb
  obtain ⟨a', hi', ha'⟩ := h e i a hi ha
  obtain ⟨b', hj', hb'⟩ := h e j b hj hb
  exact hu e i j a' b' hi' hj' ha' hb'

theorem unambiguous_set {rs : List EncryptedHandler} (hu : Unambiguous rs) {i : Nat}
    {r r' : EncryptedHandler} (hi : rs[i]? = some r)
    (h : ∀ e, r'.sub.Holds e → r.sub.Holds e) : Unambiguous (rs.set i r') := by
  refine unambiguous_of_le hu fun e j b hj hb => ?_
  rw [List.getElem?_set] at hj
  split at hj
  · rename_i hij
    subst hij
    split at hj
    · cases hj
      exact ⟨r, hi, h e hb⟩
    · cases hj
  · exact ⟨b, hj, hb⟩

/-- The search changes only the recipient that holds the source. -/
theorem map_resurrect_of_ne {rs : List EncryptedHandler} (hu : Unambiguous rs) {source : Endpoint}
    {i : Nat} {r : EncryptedHandler} (hi : rs[i]? = some r) (hr : r.sub.Holds source) {j : Nat}
    (hj : j ≠ i) : (rs.map (resurrect source))[j]? = rs[j]? := by
  rw [List.getElem?_map]
  cases hb : rs[j]? with
  | none => rfl
  | some b =>
      have hn : ¬ b.sub.Holds source := fun h => hj (hu source j i b r hb hi h hr)
      rw [Option.map_some, resurrect_eq_self hn]

/-- Where nobody holds the source, giving it to one recipient makes no duplicate. -/
theorem unambiguous_adopt {rs : List EncryptedHandler} (hu : Unambiguous rs) {source : Endpoint}
    {i : Nat} {r r' : EncryptedHandler} (hi : rs[i]? = some r)
    (hn : ∀ r ∈ rs, ¬ r.sub.Holds source)
    (h : ∀ e, r'.sub.Holds e → r.sub.Holds e ∨ e = source) : Unambiguous (rs.set i r') := by
  -- an endpoint other than the source is held where it was, and the source only by `i`
  have origin : ∀ (e : Endpoint) (j : Nat) (b : EncryptedHandler), (rs.set i r')[j]? = some b →
      b.sub.Holds e → (∃ a, rs[j]? = some a ∧ a.sub.Holds e) ∨ e = source ∧ j = i := by
    intro e j b hj hb
    rw [List.getElem?_set] at hj
    split at hj
    · rename_i hij
      subst hij
      split at hj
      · cases hj
        rcases h e hb with hb | rfl
        · exact Or.inl ⟨r, hi, hb⟩
        · exact Or.inr ⟨rfl, rfl⟩
      · cases hj
    · exact Or.inl ⟨b, hj, hb⟩
  have hnot : ∀ (j : Nat) (a : EncryptedHandler), rs[j]? = some a → ¬ a.sub.Holds source :=
    fun j a hj => hn a (List.mem_of_getElem? hj)
  intro e j k a b hj hk ha hb
  rcases origin e j a hj ha with ⟨a', hj', ha'⟩ | ⟨rfl, rfl⟩
  · rcases origin e k b hk hb with ⟨b', hk', hb'⟩ | ⟨rfl, -⟩
    · exact hu e j k a' b' hj' hk' ha' hb'
    · exact absurd ha' (hnot j a' hj')
  · rcases origin e k b hk hb with ⟨b', hk', hb'⟩ | ⟨-, rfl⟩
    · exact absurd hb' (hnot k b' hk')
    · rfl

/-- **A datagram** makes no duplicate and changes one recipient at most. -/
theorem handleReceive_routesAlone {source : Endpoint} {packet : Bytes} {mux mux' : PortMultiplexer}
    (hu : Unambiguous mux.recipients) (h : handleReceive L source packet mux = .ok mux') :
    Unambiguous mux'.recipients ∧
      ∃ i : Nat, ∀ j : Nat, j ≠ i → mux'.recipients[j]? = mux.recipients[j]? := by
  rcases handleReceive_cases h with rfl | ⟨_, i, r, r', -, hi, hr, hd, rfl⟩ |
      ⟨_, i, r, r', -, -, -, hi, hn, hd, rfl⟩
  · exact ⟨hu, 0, fun _ _ => rfl⟩
  · have hother : ∀ j, j ≠ i → ((mux.recipients.map (resurrect source)).set i r')[j]? =
        mux.recipients[j]? := fun j hj => by
      rw [List.getElem?_set_ne hj.symm]
      exact map_resurrect_of_ne hu hi hr hj
    refine ⟨unambiguous_of_le hu fun e j b hj hb => ?_, i, hother⟩
    by_cases hji : j = i
    · subst hji
      have hlt : j < (mux.recipients.map (resurrect source)).length := by
        rw [List.length_map]
        exact (List.getElem?_eq_some_iff.mp hi).1
      obtain rfl : r' = b := by
        have hj' : some r' = some b := (List.getElem?_set_self hlt).symm.trans hj
        exact Option.some.inj hj'
      exact ⟨r, hi, (holds_of_sameRoles (resurrect_sameRoles source r.sub) e).mp
        ((deliver_roles hd).2 e hb)⟩
    · exact ⟨b, (hother j hji).symm.trans hj, hb⟩
  · refine ⟨unambiguous_adopt hu hi hn fun e he => ?_, i, fun j hj =>
      List.getElem?_set_ne hj.symm⟩
    exact ((holds_addEndpoint source e r.sub).mp ((deliver_roles hd).2 e he)).imp_right And.left

theorem ownerCall_holds {c : OwnerCall} {i : Nat} (hc : (MuxEvent.call i c).AddsNoEndpoints)
    {r r' : EncryptedHandler} (h : c.run L r = .ok r') (e : Endpoint) (he : r'.sub.Holds e) :
    r.sub.Holds e := by
  cases c with
  | rpc c =>
      have hs := EncryptedMultiEndpointHandler.virtuals_sameRoles.call c r r' h
      exact (holds_of_sameRoles hs e).mp he
  | sendSessionKey key =>
      have hs := EncryptedMultiEndpointHandler.sendSessionKey_sameRoles key r r' h
      exact (holds_of_sameRoles hs e).mp he
  | banEndpoint ep => exact ((holds_banEndpoint h).mp he).1
  | addEndpoints es => exact hc.elim

/-- **A registration** makes no duplicate when it finds the duplicates known. -/
theorem addRecipient_unambiguous {c : Construction} {mux mux' : PortMultiplexer}
    (hu : Unambiguous mux.recipients) (hk : ∀ r, c.make L = .ok r → mux.DuplicatesKnown r)
    (h : mux.step L (.addRecipient c) = .ok mux') : Unambiguous mux'.recipients := by
  obtain ⟨r, rs, hr, hrs, hall⟩ := addRecipient_cases h
  have hold : ∀ (e : Endpoint) (j : Nat) (b : EncryptedHandler), rs[j]? = some b →
      b.sub.Holds e → (∃ a, mux.recipients[j]? = some a ∧ a.sub.Holds e) ∧ ¬ r.sub.Holds e := by
    intro e j b hj hb
    obtain ⟨hjr, rfl⟩ := List.getElem?_eq_some_iff.mp hj
    have hjl : j < mux.recipients.length := hall.length_eq ▸ hjr
    obtain ⟨ha, hn⟩ := ((hall.get hjl hjr e).2).mp hb
    exact ⟨⟨mux.recipients[j], List.getElem?_eq_getElem hjl, ha⟩, fun hre =>
      hn (hk r hr e hre ⟨_, List.getElem_mem hjl, ha⟩)⟩
  have hu' : Unambiguous rs := unambiguous_of_le hu fun e j b hj hb => (hold e j b hj hb).1
  have hnew : ∀ (e : Endpoint) (j : Nat) (b : EncryptedHandler), (rs ++ [r])[j]? = some b →
      b.sub.Holds e → rs[j]? = some b ∨ j = rs.length ∧ r.sub.Holds e := by
    intro e j b hj hb
    rcases lt_or_ge j rs.length with hlt | hge
    · exact Or.inl ((List.getElem?_append_left hlt).symm.trans hj)
    · rw [List.getElem?_append_right hge, List.getElem?_singleton] at hj
      split at hj
      · rename_i h0
        cases hj
        exact Or.inr ⟨by omega, hb⟩
      · cases hj
  rw [hrs]
  intro e i j a b hi hj ha hb
  rcases hnew e i a hi ha with hi' | ⟨rfl, hie⟩
  · rcases hnew e j b hj hb with hj' | ⟨rfl, hje⟩
    · exact hu' e i j a b hi' hj' ha hb
    · exact absurd hje (hold e i a hi' ha).2
  · rcases hnew e j b hj hb with hj' | ⟨rfl, -⟩
    · exact absurd hie (hold e j b hj' hb).2
    · rfl

/-- A registration that leaves no duplicate found the duplicates known. -/
theorem duplicatesKnown_of_unambiguous {c : Construction} {mux mux' : PortMultiplexer}
    (h : mux.step L (.addRecipient c) = .ok mux') (hu : Unambiguous mux'.recipients)
    {r : EncryptedHandler} (hr : c.make L = .ok r) : mux.DuplicatesKnown r := by
  obtain ⟨r', rs, hr', hrs, hall⟩ := addRecipient_cases h
  obtain rfl := Except.ok.inj (hr.symm.trans hr')
  rintro e hre ⟨a, ha, hae⟩
  by_contra hk
  obtain ⟨i, hi, rfl⟩ := List.getElem_of_mem ha
  have hir : i < rs.length := hall.length_eq ▸ hi
  have hb : (rs[i]).sub.Holds e := ((hall.get hi hir e).2).mpr ⟨hae, hk⟩
  rw [hrs] at hu
  have heq : i = rs.length := hu e i rs.length rs[i] r
    ((List.getElem?_append_left hir).trans (List.getElem?_eq_getElem hir))
    (by simp) hb hre
  omega

/-! ### Runs -/

/-- A run that registers nobody whose duplicates are unknown keeps routing unambiguous. -/
theorem run_unambiguous {es : List MuxEvent} {mux : PortMultiplexer}
    (hes : ∀ e ∈ es, e.AddsNoEndpoints)
    (hk : ∀ p m c r, p ++ [.addRecipient c] <+: es → (multiplexer L).Run p m →
      c.make L = .ok r → m.DuplicatesKnown r)
    (hr : (multiplexer L).Run es mux) : Unambiguous mux.recipients := by
  induction hr with
  | start h =>
      rw [show _ = PortMultiplexer.new from h]
      intro e i j a b hi
      simp [PortMultiplexer.new] at hi
  | @snoc es ev s s' r h ih =>
      have hu := ih (fun e he => hes e (List.mem_append_left _ he))
        (fun p m c a hp => hk p m c a (hp.trans (List.prefix_append _ _)))
      cases ev with
      | addRecipient c =>
          exact addRecipient_unambiguous hu (fun a => hk es s c a List.prefix_rfl r) h
      | receive source packet => exact (handleReceive_routesAlone hu h).1
      | call i c =>
          have hc := hes (.call i c) (List.mem_append_right _ List.mem_cons_self)
          have h' : s.step L (.call i c) = .ok s' := h
          simp only [step] at h'
          split at h'
          · cases h'
            exact hu
          · rename_i r₀ hi
            obtain ⟨r₁, h₁, h'⟩ := bind_ok.mp h'
            cases h'
            exact unambiguous_set hu hi (ownerCall_holds hc h₁)

/-- **Routing is unambiguous in every state of a run exactly when every registration of the run
finds the duplicates known**: the endpoints its recipient holds together with an earlier one are
alive in it, and have been seen by the duplicate check or are the source of the last datagram. -/
theorem routing_iff {es : List MuxEvent} {mux : PortMultiplexer}
    (hr : (multiplexer L).Run es mux) (hes : ∀ e ∈ es, e.AddsNoEndpoints) :
    (∀ p m, p <+: es → (multiplexer L).Run p m → RoutesAlone L m) ↔
      ∀ p m c r, p ++ [.addRecipient c] <+: es → (multiplexer L).Run p m → c.make L = .ok r →
        m.DuplicatesKnown r := by
  constructor
  · intro h p m c r hp hm hmake
    obtain ⟨m', hm'⟩ := hr.of_isPrefix hp
    obtain ⟨m₁, hm₁, hstep⟩ := hm'.snoc_inv
    rw [run_unique hm hm₁]
    exact duplicatesKnown_of_unambiguous hstep (h _ _ hp hm').unambiguous hmake
  · intro hk p m hp hm
    have hu := run_unambiguous (fun e he => hes e (hp.subset he))
      (fun q m' c r hq => hk q m' c r (hq.trans hp)) hm
    exact ⟨hu, fun source packet mux' h => (handleReceive_routesAlone hu h).2⟩

/-- A stranger's datagram gives its source to the first recipient; then the second one is
registered with that source. -/
def sharedEndpointRun : List MuxEvent :=
  [.addRecipient ⟨.replicate 32 1, .replicate 32 2, [⟨1, 1⟩], 1, false, default, []⟩,
    .receive ⟨2, 2⟩ (WGA_MAGIC ++ (Packet.acknowledge ⟨0, 2⟩ []).message .standIn),
    .receive ⟨1, 1⟩ [],
    .addRecipient ⟨.replicate 32 3, .replicate 32 4, [⟨2, 2⟩], 1, false, default, []⟩]

theorem sharedEndpointRun_ends : ∃ mux, after .standIn sharedEndpointRun = .ok mux ∧
    mux.recipients.map (fun r => decide (r.sub.Holds ⟨2, 2⟩)) = [true, true] := by
  decide +kernel

/-- The routing of that run. -/
theorem routing_iff_shared : ∃ mux, (multiplexer .standIn).Run sharedEndpointRun mux ∧
    ((∀ p m, p <+: sharedEndpointRun → (multiplexer .standIn).Run p m → RoutesAlone .standIn m) ↔
      ∀ p m c r, p ++ [.addRecipient c] <+: sharedEndpointRun → (multiplexer .standIn).Run p m →
        c.make .standIn = .ok r → m.DuplicatesKnown r) := by
  obtain ⟨mux, h, -⟩ := sharedEndpointRun_ends
  exact ⟨mux, run_iff_after.mpr h, routing_iff (run_iff_after.mpr h) (by decide)⟩

/-- **Two recipients can hold one endpoint**: the duplicate check does not see an endpoint that a
datagram brought in. -/
theorem sharedEndpoint_ambiguous : (∀ e ∈ sharedEndpointRun, e.AddsNoEndpoints) ∧
    ∃ mux, (multiplexer .standIn).Run sharedEndpointRun mux ∧ ¬ Unambiguous mux.recipients := by
  obtain ⟨mux, h, hheld⟩ := sharedEndpointRun_ends
  refine ⟨by decide, mux, run_iff_after.mpr h, fun hu => ?_⟩
  obtain ⟨a, b, hab⟩ := List.length_eq_two.mp (by simpa using congrArg List.length hheld)
  rw [hab] at hheld hu
  simp only [List.map_cons, List.map_nil, List.cons.injEq, decide_eq_true_eq, and_true] at hheld
  exact absurd (hu ⟨2, 2⟩ 0 1 a b rfl rfl hheld.1 hheld.2) (by decide)

end PortMultiplexer

end Wga
