import WeGoAll.Base.PortMultiplexer
import WeGoAll.Rpc.Frame

/-!
# Endpoints — Roles

An endpoint of a handler is active, alternative or dead.  Sending, failing over and resurrecting
move endpoints between the roles; only `addEndpoint` brings one in, and only `banEndpoint` takes
one out, and only the banned one.

* `Handler.sameRoles`: the frame of the methods that move endpoints between roles.
* `receive_sameRoles`: an encrypted handler keeps its roles whatever message it receives.
-/

namespace Wga

variable {κ : Type}

namespace Handler

/-- `e` is active, alternative or dead. -/
def HasRole (e : Endpoint) (h : Handler κ) : Prop :=
  e = h.activeEndpoint ∨ e ∈ h.alternativeEndpoints ∨ e ∈ h.deadEndpoints

/-- `e` has a role and is not banned. -/
def Holds (e : Endpoint) (h : Handler κ) : Prop := e ∉ h.bannedEndpoints ∧ h.HasRole e

instance (e : Endpoint) (h : Handler κ) : Decidable (h.HasRole e) :=
  inferInstanceAs (Decidable (_ ∨ _))

instance (e : Endpoint) (h : Handler κ) : Decidable (h.Holds e) :=
  inferInstanceAs (Decidable (_ ∧ _))

/-- The same endpoints have a role and the same ones are banned. -/
def sameRoles : Frame (Handler κ) where
  rel h h' := (∀ e, h'.HasRole e ↔ h.HasRole e) ∧ h'.bannedEndpoints = h.bannedEndpoints
  refl _ := ⟨fun _ => Iff.rfl, rfl⟩
  trans h₁ h₂ := ⟨fun e => (h₂.1 e).trans (h₁.1 e), h₂.2.trans h₁.2⟩

/-- What keeps the roles keeps who holds one. -/
theorem holds_of_sameRoles {h h' : Handler κ} (hs : sameRoles.rel h h') (e : Endpoint) :
    h'.Holds e ↔ h.Holds e := by
  unfold Holds
  rw [hs.1 e, hs.2]

end Handler

open Handler

namespace MultiEndpointHandler

/-! ### What each method does to the roles -/

/-- **Everything `killEndpoint` does**: the active endpoint dies, an alternative is drawn, or a dead
endpoint when there is none, and the time is noted. -/
theorem killEndpoint_cases {s s' : Self (Handler κ)} (h : killEndpoint s = .ok s') :
    ∃ x alternatives dead,
      (s.sub.alternativeEndpoints.draw (s.env.rand 0) = some x ∧
        alternatives = s.sub.alternativeEndpoints.erase x ∧
        dead = insert s.sub.activeEndpoint s.sub.deadEndpoints ∨
      s.sub.alternativeEndpoints.draw (s.env.rand 0) = none ∧
        (insert s.sub.activeEndpoint s.sub.deadEndpoints).draw (s.env.rand 0) = some x ∧
        alternatives = s.sub.alternativeEndpoints ∧
        dead = (insert s.sub.activeEndpoint s.sub.deadEndpoints).erase x) ∧
      s' = { s.rand.2.time.2 with
        sub.activeEndpoint := x
        sub.alternativeEndpoints := alternatives
        sub.deadEndpoints := dead
        sub.lastUnrepliedSendOrKillTime := s.env.time 0 } := by
  simp only [killEndpoint, Self.rand, Self.time] at h
  split at h
  · rename_i x hx
    cases h
    exact ⟨x, _, _, .inl ⟨hx, rfl, rfl⟩, rfl⟩
  · rename_i hnone
    split at h
    · rename_i x hx
      cases h
      exact ⟨x, _, _, .inr ⟨hnone, hx, rfl, rfl⟩, rfl⟩
    · cases h

/-- Failing over finds an endpoint: the one that failed, if there is no other. -/
theorem killEndpoint_ends (s : Self (Handler κ)) : ∃ s', killEndpoint s = .ok s' := by
  simp only [killEndpoint, Self.rand, Self.time]
  split
  · exact ⟨_, rfl⟩
  · have hmem : s.sub.activeEndpoint ∈ insert s.sub.activeEndpoint s.sub.deadEndpoints :=
      Finset.mem_insert.mpr (.inl rfl)
    obtain ⟨e, he⟩ := EndpointSet.draw_isSome (n := s.env.rand 0) hmem
    rw [he]
    exact ⟨_, rfl⟩

/-- **Failing over** moves the active endpoint to the dead and takes an alternative, or a dead
one when there is none. -/
theorem killEndpoint_sameRoles : sameRoles.Keeps (killEndpoint (κ := κ)) := by
  intro s s' h
  obtain ⟨x, _, _, hdraw, rfl⟩ := killEndpoint_cases h
  refine ⟨fun a => ?_, rfl⟩
  simp only [HasRole]
  rcases hdraw with ⟨hx, rfl, rfl⟩ | ⟨-, hx, rfl, rfl⟩
  · have hm := EndpointSet.mem_of_draw hx
    simp only [Finset.mem_insert, Finset.mem_erase]
    constructor
    · rintro (rfl | ⟨-, ha⟩ | rfl | ha)
      · exact Or.inr (Or.inl hm)
      · exact Or.inr (Or.inl ha)
      · exact Or.inl rfl
      · exact Or.inr (Or.inr ha)
    · rintro (rfl | ha | ha)
      · exact Or.inr (Or.inr (Or.inl rfl))
      · by_cases hax : a = x
        · exact Or.inl hax
        · exact Or.inr (Or.inl ⟨hax, ha⟩)
      · exact Or.inr (Or.inr (Or.inr ha))
  · have hm := EndpointSet.mem_of_draw hx
    simp only [Finset.mem_insert, Finset.mem_erase] at hm ⊢
    constructor
    · rintro (rfl | ha | ⟨-, rfl | ha⟩)
      · rcases hm with rfl | hm
        · exact Or.inl rfl
        · exact Or.inr (Or.inr hm)
      · exact Or.inr (Or.inl ha)
      · exact Or.inl rfl
      · exact Or.inr (Or.inr ha)
    · rintro (rfl | ha | ha)
      · by_cases hax : s.sub.activeEndpoint = x
        · exact Or.inl hax
        · exact Or.inr (Or.inr ⟨hax, Or.inl rfl⟩)
      · exact Or.inr (Or.inl ha)
      · by_cases hax : a = x
        · exact Or.inl hax
        · exact Or.inr (Or.inr ⟨hax, Or.inr ha⟩)

/-- The handler with one more banned endpoint. -/
def withBanned (e : Endpoint) (self : Self (Handler κ)) : Self (Handler κ) :=
  { self with sub.bannedEndpoints := insert e self.sub.bannedEndpoints }

/-- **Everything `banEndpoint` does**: the endpoint is banned, the handler fails over if it was the
active one, and it is taken from the alternatives and the dead. -/
theorem banEndpoint_cases {e : Endpoint} {s s' : Self (Handler κ)}
    (h : banEndpoint e s = .ok s') :
    ∃ s₁, (s.sub.activeEndpoint = e ∧ killEndpoint (withBanned e s) = .ok s₁ ∨
        s.sub.activeEndpoint ≠ e ∧ s₁ = withBanned e s) ∧
      s' = { s₁ with
        sub.alternativeEndpoints := s₁.sub.alternativeEndpoints.erase e
        sub.deadEndpoints := s₁.sub.deadEndpoints.erase e } := by
  simp only [banEndpoint] at h
  split at h
  · rename_i hact
    obtain ⟨s₁, h₁, h⟩ := bind_ok.mp h
    cases h
    exact ⟨s₁, .inl ⟨hact, h₁⟩, rfl⟩
  · rename_i hact
    cases h
    exact ⟨withBanned e s, .inr ⟨hact, rfl⟩, rfl⟩

/-- **A ban** takes no other endpoint's role and bans no other endpoint. -/
theorem banEndpoint_roles {e : Endpoint} {s s' : Self (Handler κ)}
    (h : banEndpoint e s = .ok s') :
    (∀ a, a ≠ e → (s'.sub.HasRole a ↔ s.sub.HasRole a)) ∧
      s'.sub.bannedEndpoints = insert e s.sub.bannedEndpoints ∧
      (s'.sub.HasRole e → s.sub.HasRole e) := by
  obtain ⟨s₁, hkill, rfl⟩ := banEndpoint_cases h
  obtain ⟨hroles, hbanned⟩ : sameRoles.rel (withBanned e s).sub s₁.sub := by
    rcases hkill with ⟨-, hkill⟩ | ⟨-, rfl⟩
    · exact killEndpoint_sameRoles _ _ hkill
    · exact sameRoles.refl _
  refine ⟨fun a ha => ?_, hbanned, fun he => ?_⟩
  · rw [← show _ ↔ s.sub.HasRole a from hroles a]
    simp [HasRole, Finset.mem_erase, ha]
  · refine (hroles e).mp ?_
    rcases he with he | he | he
    · exact Or.inl he
    · exact Or.inr (Or.inl (Finset.mem_erase.mp he).2)
    · exact Or.inr (Or.inr (Finset.mem_erase.mp he).2)

/-- After a ban the endpoint is not held, and the others are as before. -/
theorem holds_banEndpoint {e a : Endpoint} {s s' : Self (Handler κ)}
    (h : banEndpoint e s = .ok s') : s'.sub.Holds a ↔ s.sub.Holds a ∧ a ≠ e := by
  obtain ⟨hroles, hbanned, -⟩ := banEndpoint_roles h
  unfold Holds
  rw [hbanned, Finset.mem_insert]
  by_cases ha : a = e
  · simp [ha]
  · simp [ha, hroles a ha]

/-- `addEndpoint` gives a role to the endpoint, unless it is banned, and to no other. -/
theorem addEndpoint_roles (e a : Endpoint) (h : Handler κ) :
    (addEndpoint e h).HasRole a ↔ h.HasRole a ∨ a = e ∧ e ∉ h.bannedEndpoints := by
  unfold addEndpoint
  split
  · rename_i hb
    simp [hb]
  · rename_i hb
    split
    · rename_i hact
      subst hact
      exact ⟨Or.inl, fun h => h.elim id fun h => Or.inl h.1⟩
    · split
      · rename_i halt
        exact ⟨Or.inl, fun h => h.elim id fun h => Or.inr (Or.inl (h.1 ▸ halt))⟩
      · split
        · rename_i hdead
          exact ⟨Or.inl, fun h => h.elim id fun h => Or.inr (Or.inr (h.1 ▸ hdead))⟩
        · simp only [HasRole, Finset.mem_insert]
          tauto

/-- Adding an endpoint bans none. -/
theorem addEndpoint_banned (e : Endpoint) (h : Handler κ) :
    (addEndpoint e h).bannedEndpoints = h.bannedEndpoints := by
  unfold addEndpoint
  split_ifs <;> rfl

/-- An endpoint that is added gets a role unless it is banned. -/
theorem holds_addEndpoint (e a : Endpoint) (h : Handler κ) :
    (addEndpoint e h).Holds a ↔ h.Holds a ∨ a = e ∧ e ∉ h.bannedEndpoints := by
  unfold Holds
  rw [addEndpoint_banned, addEndpoint_roles]
  constructor
  · rintro ⟨hb, hr | hr⟩
    · exact Or.inl ⟨hb, hr⟩
    · exact Or.inr hr
  · rintro (⟨hb, hr⟩ | ⟨rfl, hb⟩)
    · exact ⟨hb, Or.inl hr⟩
    · exact ⟨hb, Or.inr ⟨rfl, hb⟩⟩

/-- `addEndpoints` gives a role to those of the endpoints that are not banned. -/
theorem addEndpoints_roles (es : List Endpoint) (a : Endpoint) (h : Handler κ) :
    (addEndpoints es h).HasRole a ↔ h.HasRole a ∨ a ∈ es ∧ a ∉ h.bannedEndpoints := by
  induction es generalizing h with
  | nil => simp [addEndpoints]
  | cons e es ih =>
      have hcons : addEndpoints (e :: es) h = addEndpoints es (addEndpoint e h) := rfl
      rw [hcons, ih, addEndpoint_roles, addEndpoint_banned, List.mem_cons]
      constructor
      · rintro ((hr | ⟨rfl, hb⟩) | ⟨hm, hb⟩)
        · exact .inl hr
        · exact .inr ⟨.inl rfl, hb⟩
        · exact .inr ⟨.inr hm, hb⟩
      · rintro (hr | ⟨rfl | hm, hb⟩)
        · exact .inl (.inl hr)
        · exact .inl (.inr ⟨rfl, hb⟩)
        · exact .inr ⟨hm, hb⟩

theorem addEndpoints_banned (es : List Endpoint) (h : Handler κ) :
    (addEndpoints es h).bannedEndpoints = h.bannedEndpoints := by
  induction es generalizing h with
  | nil => rfl
  | cons e es ih =>
      have hcons : addEndpoints (e :: es) h = addEndpoints es (addEndpoint e h) := rfl
      rw [hcons, ih, addEndpoint_banned]

/-! ### Resurrection -/

/-- The endpoint is found exactly when it is held. -/
theorem resurrect_found (e : Endpoint) (h : Handler κ) :
    (hasEndpointAndResurrectIfFound e h).1 = true ↔ h.Holds e := by
  unfold hasEndpointAndResurrectIfFound Holds HasRole
  split_ifs <;> simp_all

/-- A search gives no endpoint a role, and takes none away. -/
theorem resurrect_sameRoles (e : Endpoint) (h : Handler κ) :
    sameRoles.rel h (hasEndpointAndResurrectIfFound e h).2 := by
  unfold hasEndpointAndResurrectIfFound
  split_ifs with hb hact halt hdead
  · exact sameRoles.refl h
  · exact sameRoles.refl h
  · refine ⟨fun a => ?_, rfl⟩
    simp only [HasRole, Finset.mem_insert, Finset.mem_erase]
    by_cases hae : a = e
    · simp [hae, halt]
    · simp [hae, or_assoc]
  · refine ⟨fun a => ?_, rfl⟩
    simp only [HasRole, Finset.mem_insert, Finset.mem_erase]
    by_cases hae : a = e
    · simp [hae, hdead]
    · simp [hae, or_assoc]
  · exact sameRoles.refl h

/-- A search that finds nothing changes nothing. -/
theorem resurrect_of_not_holds {e : Endpoint} {h : Handler κ} (hn : ¬ h.Holds e) :
    (hasEndpointAndResurrectIfFound e h).2 = h := by
  have hf : ¬ (hasEndpointAndResurrectIfFound e h).1 = true := fun hf =>
    hn ((resurrect_found e h).mp hf)
  unfold hasEndpointAndResurrectIfFound at hf ⊢
  split_ifs at hf ⊢ <;> simp_all

/-! ### Sending -/

/-- The endpoints are kept in the same places. -/
structure SamePlaces (h h' : Handler κ) : Prop where
  activeEndpoint : h'.activeEndpoint = h.activeEndpoint
  alternativeEndpoints : h'.alternativeEndpoints = h.alternativeEndpoints
  deadEndpoints : h'.deadEndpoints = h.deadEndpoints
  bannedEndpoints : h'.bannedEndpoints = h.bannedEndpoints

theorem SamePlaces.rfl {h : Handler κ} : SamePlaces h h :=
  ⟨Eq.refl _, Eq.refl _, Eq.refl _, Eq.refl _⟩

/-- Endpoints in the same places have the same roles. -/
theorem SamePlaces.sameRoles {h h' : Handler κ} (hs : SamePlaces h h') : sameRoles.rel h h' := by
  refine ⟨fun e => ?_, hs.bannedEndpoints⟩
  unfold HasRole
  rw [hs.activeEndpoint, hs.alternativeEndpoints, hs.deadEndpoints]

/-- Stamping an unreplied message moves no endpoint. -/
theorem noteUnrepliedSend_places (s : Self (Handler κ)) :
    SamePlaces s.sub (noteUnrepliedSend s).sub := by
  unfold noteUnrepliedSend
  split
  · exact ⟨rfl, rfl, rfl, rfl⟩
  · exact .rfl

/-- The send of the class below moves no endpoint. -/
theorem udpSend_places (m : Bytes) (s : Self (Handler κ)) :
    SamePlaces s.sub (UdpBiDirectionalRpc.send m s).sub := by
  unfold UdpBiDirectionalRpc.send
  dsimp only
  split_ifs <;> exact ⟨rfl, rfl, rfl, rfl⟩

section

variable {F : Frame (Handler κ)} (hkill : F.Keeps killEndpoint)

include hkill

/-- An update keeps what `killEndpoint` keeps. -/
theorem update_keeps : F.Keeps (update (κ := κ)) := by
  intro s s' h
  unfold update at h
  dsimp only at h
  split_ifs at h
  · cases h
    exact F.refl _
  · exact (hkill _ _ h :)
  · cases h
    exact F.refl _

/-- **What a failover keeps, sending keeps.** -/
theorem send_keeps (hplaces : ∀ {h h' : Handler κ}, SamePlaces h h' → F.rel h h') (m : Bytes) :
    F.Keeps (send m) := by
  intro s s' h
  have hn := hplaces (noteUnrepliedSend_places s)
  have rest : ∀ s₁ : Self (Handler κ),
      F.rel s₁.sub (noteUnrepliedSend (UdpBiDirectionalRpc.send m s₁)).sub := fun s₁ =>
    F.trans (hplaces (udpSend_places m s₁)) (hplaces (noteUnrepliedSend_places _))
  unfold send at h
  dsimp only at h
  split_ifs at h
  · obtain ⟨s₁, h₁, h⟩ := bind_ok.mp h
    cases h
    have hup := update_keeps hkill _ _ h₁
    refine F.trans (F.trans ?_ hup) (rest s₁)
    exact F.trans hn (hplaces ⟨rfl, rfl, rfl, rfl⟩)
  · cases h
    exact F.trans hn (rest (noteUnrepliedSend s).time.2)

end

theorem update_sameRoles : sameRoles.Keeps (update (κ := κ)) :=
  update_keeps killEndpoint_sameRoles

theorem send_sameRoles (m : Bytes) : sameRoles.Keeps (send (κ := κ) m) :=
  send_keeps killEndpoint_sameRoles SamePlaces.sameRoles m

end MultiEndpointHandler

/-! ### The encrypted handler -/

namespace EncryptedMultiEndpointHandler

open BiDirectionalRpc

variable {L : Libraries} {F : Frame (Handler CryptoHandler)}

/-- Encrypting draws a nonce and changes nothing else. -/
theorem encrypt_sub {b : Bytes} {s : EncryptedHandler} {r : Bytes × EncryptedHandler}
    (h : encrypt L b s = .ok r) : r.2.sub = s.sub ∧ r.2.rpc = s.rpc := by
  simp only [encrypt, Self.nonce, bind_ok] at h
  obtain ⟨_, -, h⟩ := h
  cases h
  exact ⟨rfl, rfl⟩

section

variable (hsend : ∀ m, F.Keeps (send m))

include hsend

/-- A request keeps what `send` keeps. -/
theorem requestWithId_keeps (e : IdPayload) : F.Keeps (requestWithId L e) := by
  intro s s' h
  simp only [requestWithId] at h
  split at h
  · cases h
  · obtain ⟨⟨p, s₁⟩, h₁, h⟩ := bind_ok.mp h
    rw [← (encrypt_sub h₁).1]
    exact (BiDirectionalRpc.requestWithId_keeps hsend _ _ _ h :)

theorem reply_keeps (id : RpcId) (p : Bytes) : F.Keeps (reply L id p) := by
  intro s s' h
  simp only [reply] at h
  split at h
  · cases h
  · obtain ⟨⟨p, s₁⟩, h₁, h⟩ := bind_ok.mp h
    rw [← (encrypt_sub h₁).1]
    exact (BiDirectionalRpc.reply_keeps hsend _ _ _ _ h :)

theorem sendAcknowledge_keeps (id : RpcId) : F.Keeps (sendAcknowledge L id) := by
  intro s s' h
  obtain ⟨⟨p, s₁⟩, h₁, h⟩ := bind_ok.mp h
  rw [← (encrypt_sub h₁).1]
  exact (hsend _ _ _ h :)

/-- A handshake that arrives may change the keys. -/
theorem addSessionKey_keeps (hderived : ∀ h c, F.rel h { h with derived := c }) (e : IdPayload) :
    F.Keeps (addSessionKey L e) := by
  intro s s' h
  simp only [addSessionKey] at h
  split at h
  · cases h
    exact F.refl _
  · obtain ⟨⟨_, _⟩, -, h⟩ := bind_ok.mp h
    obtain ⟨_, -, h⟩ := bind_ok.mp h
    split at h
    · cases h
      exact F.refl _
    · obtain ⟨⟨_, _⟩, -, h⟩ := bind_ok.mp h
      obtain ⟨_, -, h⟩ := bind_ok.mp h
      obtain ⟨⟨_, crypto⟩, -, h⟩ := bind_ok.mp h
      split at h
      · cases h
        exact F.refl _
      · obtain ⟨s₁, h₁, h⟩ := bind_ok.mp h
        have hsub := addIncomingRequest_sub h₁
        have hrep : F.rel s₁.sub s'.sub := reply_keeps hsend _ _ _ _ h
        rw [hsub] at hrep
        exact F.trans (hderived s.sub crypto) hrep

/-- So may a request, if it is the handshake. -/
theorem addIncomingRequest_keeps (hderived : ∀ h c, F.rel h { h with derived := c })
    (e : IdPayload) : F.Keeps (addIncomingRequest L e) := by
  intro s s' h
  simp only [addIncomingRequest] at h
  split at h
  · exact addSessionKey_keeps hsend hderived _ _ _ h
  · split at h
    · cases h
      exact F.refl _
    · obtain ⟨opened, -, h⟩ := bind_ok.mp h
      split at h
      · cases h
        exact F.refl _
      · rw [addIncomingRequest_sub h]
        exact F.refl _

end

/-- A reply moves no endpoint. -/
theorem addIncomingReply_sub {id : RpcId} {p : Bytes} {s s' : EncryptedHandler}
    (h : addIncomingReply L id p s = .ok s') : s'.sub = s.sub := by
  simp only [addIncomingReply] at h
  split at h
  · cases h
    rfl
  · obtain ⟨opened, -, h⟩ := bind_ok.mp h
    split at h <;> cases h <;> rfl

/-- **What sending keeps, an encrypted handler keeps**, apart from its keys and the two time
stamps a reply resets. -/
theorem virtuals_respected (hsend : ∀ m, F.Keeps (send m))
    (hderived : ∀ h c, F.rel h { h with derived := c })
    (hstamps : ∀ h t₁ t₂,
      F.rel h { h with lastUnrepliedSendTime := t₁, lastUnrepliedSendOrKillTime := t₂ }) :
    F.Respected (virtuals L) where
  send := hsend
  sendAcknowledge := sendAcknowledge_keeps hsend
  requestWithId := requestWithId_keeps hsend
  reply := reply_keeps hsend
  addIncomingRequest := addIncomingRequest_keeps hsend hderived
  addIncomingReply := fun _ _ s s' h => by
    rw [addIncomingReply_sub h]
    exact F.refl _
  handleReply := fun id p t₁ t₂ s s' h => by
    refine F.trans (hstamps s.sub 0 0) ?_
    refine (BiDirectionalRpc.handleReply_keeps hsend (sendAcknowledge_keeps hsend)
      (fun _ _ s s' h => ?_) _ _ _ _ _ _ h :)
    rw [addIncomingReply_sub h]
    exact F.refl _

theorem send_sameRoles (m : Bytes) : sameRoles.Keeps (send m) :=
  MultiEndpointHandler.send_sameRoles (WGA_MAGIC ++ m)

/-- **The virtual methods keep the roles.** -/
theorem virtuals_sameRoles : sameRoles.Respected (virtuals L) :=
  virtuals_respected send_sameRoles (fun _ _ => ⟨fun _ => Iff.rfl, rfl⟩)
    (fun _ _ _ => ⟨fun _ => Iff.rfl, rfl⟩)

/-- A received message moves endpoints between the roles and nothing more. -/
theorem receive_sameRoles {m : Bytes} {s s' : EncryptedHandler} {b : Bool}
    (h : receive L m s = .ok (b, s')) : sameRoles.rel s.sub s'.sub :=
  virtuals_sameRoles.receive h

theorem sendSessionKey_sameRoles (key : SessionKey) :
    sameRoles.Keeps (sendSessionKey L key) := by
  intro s s' h
  simp only [sendSessionKey, Self.nonce] at h
  obtain ⟨⟨_, crypto⟩, -, h⟩ := bind_ok.mp h
  have hk := BiDirectionalRpc.requestWithId_keeps send_sameRoles _ _ _ h
  exact sameRoles.trans ⟨fun _ => Iff.rfl, rfl⟩ hk

end EncryptedMultiEndpointHandler

end Wga
