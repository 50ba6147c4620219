import WeGoAll.Endpoints.Handlers

/-!
# Endpoints — Failover

A `MultiEndpointHandler` on its own, from its constructor on: endpoints are supplied and banned,
packets resurrect endpoints, messages are sent, replies are handled, and the handler fails over,
each time to an endpoint the environment draws.

* `failover`: the system of these events.
* `one_role`: an endpoint that was supplied and is not banned has exactly one role, and an endpoint
  that was not supplied has none.
* `banned_unused_iff`: no banned endpoint has a role exactly when no ban draws the endpoint it bans,
  and nothing is supplied while all endpoints are banned.
-/

namespace Wga

open Handler MultiEndpointHandler

variable {κ : Type}

/-! ### The system -/

/-- An event at a `MultiEndpointHandler`. -/
inductive FailoverEvent (κ : Type) where
  | addEndpoint (e : Endpoint)
  | addEndpoints (es : List Endpoint)
  | banEndpoint (e : Endpoint)
  /-- A packet arrives from `e`. -/
  | hasEndpointAndResurrectIfFound (e : Endpoint)
  | update
  | killEndpoint
  | send (message : Bytes)
  /-- A reply is handled: what `handleReply` does before it calls the base method.  What that sends
  is sent by further events. -/
  | handleReply
  /-- Methods of the other classes change the rest of the object. -/
  | elsewhere (rpc : Rpc) (env : Env) (derived : κ)

namespace MultiEndpointHandler

def step (self : Self (Handler κ)) : FailoverEvent κ → Except Fault (Self (Handler κ))
  | .addEndpoint e => .ok { self with sub := addEndpoint e self.sub }
  | .addEndpoints es => .ok { self with sub := addEndpoints es self.sub }
  | .banEndpoint e => banEndpoint e self
  | .hasEndpointAndResurrectIfFound e =>
      .ok { self with sub := (hasEndpointAndResurrectIfFound e self.sub).2 }
  | .update => update self
  | .killEndpoint => killEndpoint self
  | .send message => send message self
  | .handleReply =>
      .ok { self with sub.lastUnrepliedSendTime := 0, sub.lastUnrepliedSendOrKillTime := 0 }
  | .elsewhere rpc env derived =>
      .ok ⟨rpc, { self.sub with derived := derived }, { env with time := self.env.time }⟩

end MultiEndpointHandler

/-- The runs of a handler that was made in the state `s₀`. -/
def failover (s₀ : Self (Handler κ)) : System (Self (Handler κ)) (FailoverEvent κ) :=
  .ofStep (· = s₀) MultiEndpointHandler.step

/-- The endpoints an event supplies. -/
def FailoverEvent.given : FailoverEvent κ → List Endpoint
  | .addEndpoint e => [e]
  | .addEndpoints es => es
  | _ => []

/-- The endpoints supplied: those of the constructor, and those added. -/
def supplied (endpoints : List Endpoint) (es : List (FailoverEvent κ)) : List Endpoint :=
  endpoints ++ es.flatMap FailoverEvent.given

theorem supplied_snoc (endpoints : List Endpoint) (es : List (FailoverEvent κ))
    (ev : FailoverEvent κ) : supplied endpoints (es ++ [ev]) = supplied endpoints es ++ ev.given := by
  simp [supplied]

/-! ### What an event does to the roles -/

namespace MultiEndpointHandler

/-- **What an event does to the roles**: it is a ban, or it bans nothing, keeps the endpoints that
have a role and gives one to those it supplies. -/
theorem step_cases {ev : FailoverEvent κ} {s s' : Self (Handler κ)} (h : step s ev = .ok s') :
    (∃ e, ev = .banEndpoint e ∧ banEndpoint e s = .ok s') ∨
    (∀ e, ev ≠ .banEndpoint e) ∧ s'.sub.bannedEndpoints = s.sub.bannedEndpoints ∧
      ∀ a, s'.sub.HasRole a ↔ s.sub.HasRole a ∨ a ∈ ev.given ∧ a ∉ s.sub.bannedEndpoints := by
  have moves : ∀ {ev : FailoverEvent κ}, (∀ e, ev ≠ .banEndpoint e) → ev.given = [] →
      sameRoles.rel s.sub s'.sub → (∀ e, ev ≠ .banEndpoint e) ∧
        s'.sub.bannedEndpoints = s.sub.bannedEndpoints ∧
        ∀ a, s'.sub.HasRole a ↔ s.sub.HasRole a ∨ a ∈ ev.given ∧ a ∉ s.sub.bannedEndpoints := by
    intro ev hne hg hs
    refine ⟨hne, hs.2, fun a => ?_⟩
    rw [hs.1 a, hg]
    simp
  cases ev with
  | addEndpoint e =>
      cases h
      exact .inr ⟨nofun, addEndpoints_banned [e] s.sub, fun a => addEndpoints_roles [e] a s.sub⟩
  | addEndpoints es =>
      cases h
      exact .inr ⟨nofun, addEndpoints_banned es s.sub, fun a => addEndpoints_roles es a s.sub⟩
  | banEndpoint e => exact .inl ⟨e, rfl, h⟩
  | hasEndpointAndResurrectIfFound e =>
      cases h
      exact .inr (moves nofun rfl (resurrect_sameRoles e s.sub))
  | update => exact .inr (moves nofun rfl (update_sameRoles s s' h))
  | killEndpoint => exact .inr (moves nofun rfl (killEndpoint_sameRoles s s' h))
  | send message => exact .inr (moves nofun rfl (send_sameRoles message s s' h))
  | handleReply =>
      cases h
      exact .inr (moves nofun rfl ⟨fun _ => Iff.rfl, rfl⟩)
  | elsewhere rpc env derived =>
      cases h
      exact .inr (moves nofun rfl ⟨fun _ => Iff.rfl, rfl⟩)

/-! ### Which endpoints have a role -/

/-- The supplied endpoints that are not banned have a role, and no other endpoint but supplied ones
does. -/
structure Accounted (given : List Endpoint) (h : Handler κ) : Prop where
  kept : ∀ e ∈ given, e ∉ h.bannedEndpoints → h.HasRole e
  known : ∀ e, h.HasRole e → e ∈ given

theorem accounted_step {given : List Endpoint} {ev : FailoverEvent κ} {s s' : Self (Handler κ)}
    (ha : Accounted given s.sub) (h : step s ev = .ok s') :
    Accounted (given ++ ev.given) s'.sub := by
  rcases step_cases h with ⟨e, rfl, hban⟩ | ⟨-, hbanned, hroles⟩
  · obtain ⟨hroles, hbanned, hself⟩ := banEndpoint_roles hban
    rw [show (FailoverEvent.banEndpoint e : FailoverEvent κ).given = [] from rfl,
      List.append_nil]
    refine ⟨fun a hg hb => ?_, fun a hr => ?_⟩
    · rw [hbanned, Finset.mem_insert, not_or] at hb
      exact (hroles a hb.1).mpr (ha.kept a hg hb.2)
    · by_cases hae : a = e
      · exact ha.known a (hae ▸ hself (hae ▸ hr))
      · exact ha.known a ((hroles a hae).mp hr)
  · refine ⟨fun e he hb => ?_, fun e he => ?_⟩
    · rw [hbanned] at hb
      rw [hroles]
      exact (List.mem_append.mp he).imp (fun he => ha.kept e he hb) fun he => ⟨he, hb⟩
    · rw [List.mem_append]
      exact ((hroles e).mp he).imp (ha.known e) And.left

end MultiEndpointHandler

/-- **In every run** the handler accounts for the endpoints supplied. -/
theorem accounted_of_run {endpoints : List Endpoint} {now : Int} {derived : κ}
    {s₀ s : Self (Handler κ)} (h₀ : new endpoints now derived = .ok s₀.sub)
    {es : List (FailoverEvent κ)} (hr : (failover s₀).Run es s) :
    Accounted (supplied endpoints es) s.sub := by
  refine hr.invariant_history (I := fun es s => Accounted (supplied endpoints es) s.sub)
    (fun s hs => ?_) (fun es s ev s' _ ha h => ?_)
  · rw [show s = s₀ from hs, show supplied endpoints ([] : List (FailoverEvent κ)) = endpoints from
      List.append_nil _]
    exact ⟨fun e he _ => (new_roles h₀ e).mpr he, fun e => (new_roles h₀ e).mp⟩
  · rw [supplied_snoc]
    exact accounted_step ha h

/-! ### At most one role -/

/-- `e` has one role at most. -/
structure Handler.OneRole (e : Endpoint) (h : Handler κ) : Prop where
  active : e = h.activeEndpoint → e ∉ h.alternativeEndpoints ∧ e ∉ h.deadEndpoints
  alternative : e ∈ h.alternativeEndpoints → e ∉ h.deadEndpoints

/-- Where the active endpoint has one role, so has every other one that had, and the one drawn. -/
theorem killEndpoint_oneRole {s s' : Self (Handler κ)} (hs : ∀ e, s.sub.OneRole e)
    (h : killEndpoint s = .ok s') (e : Endpoint) : s'.sub.OneRole e := by
  obtain ⟨x, _, _, hdraw, rfl⟩ := killEndpoint_cases h
  rcases hdraw with ⟨hx, rfl, rfl⟩ | ⟨hnone, hx, rfl, rfl⟩
  · have hm := EndpointSet.mem_of_draw hx
    have hxa : x ≠ s.sub.activeEndpoint := fun heq => ((hs x).active heq).1 hm
    refine ⟨?_, ?_⟩
    · rintro rfl
      exact ⟨fun hmem => (Finset.mem_erase.mp hmem).1 rfl, fun hmem =>
        (Finset.mem_insert.mp hmem).elim hxa ((hs e).alternative hm)⟩
    · intro hmem hdead
      obtain ⟨-, halt⟩ := Finset.mem_erase.mp hmem
      rcases Finset.mem_insert.mp hdead with heq | hdead
      · exact ((hs e).active heq).1 halt
      · exact (hs e).alternative halt hdead
  · have hempty : ∀ a, a ∉ s.sub.alternativeEndpoints := fun a ha => by
      obtain ⟨b, hb⟩ := EndpointSet.draw_isSome (n := s.env.rand 0) ha
      rw [hnone] at hb
      cases hb
    refine ⟨?_, fun hmem => absurd hmem (hempty e)⟩
    rintro rfl
    exact ⟨hempty e, fun hmem => (Finset.mem_erase.mp hmem).1 rfl⟩

theorem resurrect_oneRole (source : Endpoint) {h : Handler κ} (hs : ∀ e, h.OneRole e)
    (e : Endpoint) : (hasEndpointAndResurrectIfFound source h).2.OneRole e := by
  unfold hasEndpointAndResurrectIfFound
  split_ifs with hb hact halt hdead
  · exact hs e
  · exact hs e
  · refine ⟨?_, ?_⟩
    · rintro rfl
      exact ⟨fun hmem => (Finset.mem_erase.mp hmem).1 rfl, (hs e).alternative halt⟩
    · intro hmem
      rcases Finset.mem_insert.mp (Finset.mem_erase.mp hmem).2 with rfl | hmem
      · exact ((hs h.activeEndpoint).active rfl).2
      · exact (hs e).alternative hmem
  · refine ⟨?_, ?_⟩
    · rintro rfl
      exact ⟨fun hmem => (Finset.mem_insert.mp hmem).elim hact halt,
        fun hmem => (Finset.mem_erase.mp hmem).1 rfl⟩
    · intro hmem hmem'
      have hdead' := (Finset.mem_erase.mp hmem').2
      rcases Finset.mem_insert.mp hmem with rfl | hmem
      · exact ((hs h.activeEndpoint).active rfl).2 hdead'
      · exact (hs e).alternative hmem hdead'
  · exact hs e

theorem addEndpoint_oneRole (a : Endpoint) {h : Handler κ} (hs : ∀ e, h.OneRole e)
    (e : Endpoint) : (addEndpoint a h).OneRole e := by
  unfold addEndpoint
  split_ifs with hb hact halt hdead
  · exact hs e
  · exact hs e
  · exact hs e
  · exact hs e
  · refine ⟨fun heq => ⟨fun hmem => ?_, ((hs e).active heq).2⟩, fun hmem => ?_⟩
    · rcases Finset.mem_insert.mp hmem with rfl | hmem
      · exact hact heq.symm
      · exact ((hs e).active heq).1 hmem
    · rcases Finset.mem_insert.mp hmem with rfl | hmem
      · exact hdead
      · exact (hs e).alternative hmem

theorem banEndpoint_oneRole {a : Endpoint} {s s' : Self (Handler κ)} (hs : ∀ e, s.sub.OneRole e)
    (h : banEndpoint a s = .ok s') (e : Endpoint) : s'.sub.OneRole e := by
  obtain ⟨s₁, hkill, rfl⟩ := banEndpoint_cases h
  have h₁ : s₁.sub.OneRole e := by
    have hs' : ∀ e, (withBanned a s).sub.OneRole e := fun e => ⟨(hs e).active, (hs e).alternative⟩
    rcases hkill with ⟨-, hkill⟩ | ⟨-, rfl⟩
    · exact killEndpoint_oneRole hs' hkill e
    · exact hs' e
  exact ⟨fun heq => ⟨fun hmem => (h₁.active heq).1 (Finset.mem_erase.mp hmem).2,
      fun hmem => (h₁.active heq).2 (Finset.mem_erase.mp hmem).2⟩,
    fun hmem hmem' => h₁.alternative (Finset.mem_erase.mp hmem).2
      (Finset.mem_erase.mp hmem').2⟩

/-- The handlers all of whose endpoints have one role at most. -/
def oneRole : Frame (Handler κ) where
  rel h h' := (∀ e, h.OneRole e) → ∀ e, h'.OneRole e
  refl _ := id
  trans h₁ h₂ := h₂ ∘ h₁

theorem oneRole_of_places {h h' : Handler κ} (hp : SamePlaces h h') : oneRole.rel h h' := by
  intro hs e
  refine ⟨fun heq => ?_, fun hmem => ?_⟩
  · rw [hp.alternativeEndpoints, hp.deadEndpoints]
    exact (hs e).active (heq.trans hp.activeEndpoint)
  · rw [hp.deadEndpoints]
    rw [hp.alternativeEndpoints] at hmem
    exact (hs e).alternative hmem

/-- A handler made from different endpoints has each in one role. -/
theorem new_oneRole {endpoints : List Endpoint} (hd : endpoints.Nodup) {now : Int} {derived : κ}
    {h : Handler κ} (hn : new endpoints now derived = .ok h) (e : Endpoint) : h.OneRole e := by
  unfold MultiEndpointHandler.new at hn
  split at hn
  · cases hn
  · rename_i first rest
    cases hn
    refine ⟨?_, fun _ => Finset.notMem_empty e⟩
    rintro rfl
    refine ⟨fun hmem => ?_, Finset.notMem_empty _⟩
    rcases (mem_foldl_insert rest _).mp hmem with hmem | hmem
    · exact Finset.notMem_empty _ hmem
    · exact (List.nodup_cons.mp hd).1 hmem

/-- **An event gives no endpoint a second role.** -/
theorem oneRole_step {ev : FailoverEvent κ} {s s' : Self (Handler κ)}
    (h : MultiEndpointHandler.step s ev = .ok s') : oneRole.rel s.sub s'.sub := by
  intro hs e
  cases ev with
  | addEndpoint a =>
      cases h
      exact addEndpoint_oneRole a hs e
  | addEndpoints es =>
      cases h
      show (MultiEndpointHandler.addEndpoints es s.sub).OneRole e
      generalize s.sub = r at hs
      induction es generalizing r with
      | nil => exact hs e
      | cons a es ih => exact ih _ (addEndpoint_oneRole a hs)
  | banEndpoint a => exact banEndpoint_oneRole hs h e
  | hasEndpointAndResurrectIfFound a =>
      cases h
      exact resurrect_oneRole a hs e
  | update =>
      exact update_keeps (F := oneRole) (fun _ _ h hs => killEndpoint_oneRole hs h) s s' h hs e
  | killEndpoint => exact killEndpoint_oneRole hs h e
  | send message =>
      exact send_keeps (F := oneRole) (fun _ _ h hs => killEndpoint_oneRole hs h)
        oneRole_of_places message s s' h hs e
  | handleReply =>
      cases h
      refine oneRole_of_places ?_ hs e
      exact ⟨rfl, rfl, rfl, rfl⟩
  | elsewhere rpc env derived =>
      cases h
      refine oneRole_of_places ?_ hs e
      exact ⟨rfl, rfl, rfl, rfl⟩

/-- **No endpoint is lost or duplicated.**  In every run of a handler made from different endpoints,
every endpoint that was supplied and is not banned is active, an alternative or dead, and only one
of these, and no endpoint that was not supplied is any of them. -/
theorem one_role {endpoints : List Endpoint} (hd : endpoints.Nodup) {now : Int} {derived : κ}
    {s₀ s : Self (Handler κ)} (h₀ : new endpoints now derived = .ok s₀.sub)
    {es : List (FailoverEvent κ)} (hr : (failover s₀).Run es s) :
    (∀ e ∈ supplied endpoints es, e ∉ s.sub.bannedEndpoints →
      (e = s.sub.activeEndpoint ∧ e ∉ s.sub.alternativeEndpoints ∧ e ∉ s.sub.deadEndpoints) ∨
      (e ≠ s.sub.activeEndpoint ∧ e ∈ s.sub.alternativeEndpoints ∧ e ∉ s.sub.deadEndpoints) ∨
      (e ≠ s.sub.activeEndpoint ∧ e ∉ s.sub.alternativeEndpoints ∧ e ∈ s.sub.deadEndpoints)) ∧
    ∀ e, e ∉ supplied endpoints es →
      e ≠ s.sub.activeEndpoint ∧ e ∉ s.sub.alternativeEndpoints ∧ e ∉ s.sub.deadEndpoints := by
  have ha := accounted_of_run h₀ hr
  have hone : ∀ e, s.sub.OneRole e := by
    refine hr.invariant (I := fun s => ∀ e, s.sub.OneRole e) (fun s hs => ?_)
      (fun s ev s' hs h => oneRole_step h hs)
    rw [show s = s₀ from hs]
    exact new_oneRole hd h₀
  refine ⟨fun e he hb => ?_, fun e he => ?_⟩
  · rcases ha.kept e he hb with heq | halt | hdead
    · exact .inl ⟨heq, (hone e).active heq⟩
    · exact .inr (.inl ⟨fun heq => ((hone e).active heq).1 halt, halt, (hone e).alternative halt⟩)
    · exact .inr (.inr ⟨fun heq => ((hone e).active heq).2 hdead,
        fun halt => (hone e).alternative halt hdead, hdead⟩)
  · have hn : ¬ s.sub.HasRole e := fun h => he (ha.known e h)
    exact ⟨fun h => hn (.inl h), fun h => hn (.inr (.inl h)), fun h => hn (.inr (.inr h))⟩

/-- A handler with two endpoints, and a clock that goes on by ten seconds with every sixth reading:
a `send` reads it up to six times. -/
def twoEndpoints : Self (Handler Unit) where
  rpc := BiDirectionalRpc.new false
  sub := {
    activeEndpoint := ⟨1, 1⟩
    lastSendTime := 0
    sendBytes := 0
    doubleSends := true
    posted := []
    lastUpdateTime := 0
    lastUnrepliedSendTime := 0
    lastUnrepliedSendOrKillTime := 0
    alternativeEndpoints := {⟨2, 2⟩}
    deadEndpoints := ∅
    bannedEndpoints := ∅
    derived := () }
  env := ⟨fun _ => 1, fun n => 10 * (n / 6 + 1 : Nat), fun _ => 0, fun _ => .replicate 24 0⟩

theorem twoEndpoints_new : new [⟨1, 1⟩, ⟨2, 2⟩] 0 () = .ok twoEndpoints.sub := rfl

/-- With the second `send` it fails over to the second endpoint, and then that one is banned. -/
def bannedActive : List (FailoverEvent Unit) := [.send [], .send [], .banEndpoint ⟨2, 2⟩]

theorem bannedActive_ends : ∃ s,
    bannedActive.foldlM MultiEndpointHandler.step twoEndpoints = .ok s ∧
    s.sub.activeEndpoint = ⟨2, 2⟩ ∧ s.sub.deadEndpoints = {⟨1, 1⟩} := by
  decide +kernel

/-- The roles in that run. -/
theorem one_role_bannedActive : ∃ s, (failover twoEndpoints).Run bannedActive s ∧
    (∀ e ∈ supplied [⟨1, 1⟩, ⟨2, 2⟩] bannedActive, e ∉ s.sub.bannedEndpoints →
      (e = s.sub.activeEndpoint ∧ e ∉ s.sub.alternativeEndpoints ∧ e ∉ s.sub.deadEndpoints) ∨
      (e ≠ s.sub.activeEndpoint ∧ e ∈ s.sub.alternativeEndpoints ∧ e ∉ s.sub.deadEndpoints) ∨
      (e ≠ s.sub.activeEndpoint ∧ e ∉ s.sub.alternativeEndpoints ∧ e ∈ s.sub.deadEndpoints)) := by
  obtain ⟨s, h, -⟩ := bannedActive_ends
  have hr := System.run_from.mpr h
  exact ⟨s, hr, (one_role (by decide) twoEndpoints_new hr).1⟩

/-! ### Banned endpoints -/

/-- No banned endpoint has a role. -/
def Handler.NoBannedUsed (h : Handler κ) : Prop := ∀ e ∈ h.bannedEndpoints, ¬ h.HasRole e

/-- Some endpoint supplied is not banned. -/
def Handler.SomeUsable (given : List Endpoint) (h : Handler κ) : Prop :=
  ∃ e ∈ given, e ∉ h.bannedEndpoints

/-- A failover would draw `e`: from the alternatives, or, when there are none, from the dead and the
active endpoint. -/
def DrawsEndpoint (e : Endpoint) (s : Self (Handler κ)) : Prop :=
  (s.sub.alternativeEndpoints.draw (s.env.rand 0)).or
    ((insert s.sub.activeEndpoint s.sub.deadEndpoints).draw (s.env.rand 0)) = some e

theorem killEndpoint_active {s s' : Self (Handler κ)} (h : killEndpoint s = .ok s')
    (e : Endpoint) : s'.sub.activeEndpoint = e ↔ DrawsEndpoint e s := by
  obtain ⟨x, _, _, hdraw, rfl⟩ := killEndpoint_cases h
  unfold DrawsEndpoint
  rcases hdraw with ⟨hx, -⟩ | ⟨hnone, hx, -⟩
  · rw [hx, Option.some_or, Option.some_inj]
  · rw [hnone, Option.none_or, hx, Option.some_inj]

/-- **After a ban** the endpoint has a role exactly when it was active and the failover drew it. -/
theorem banEndpoint_hasRole {e : Endpoint} {s s' : Self (Handler κ)}
    (h : banEndpoint e s = .ok s') :
    s'.sub.HasRole e ↔ s.sub.activeEndpoint = e ∧ DrawsEndpoint e s := by
  obtain ⟨s₁, hkill, rfl⟩ := banEndpoint_cases h
  have hact : HasRole e { s₁ with
      sub.alternativeEndpoints := s₁.sub.alternativeEndpoints.erase e
      sub.deadEndpoints := s₁.sub.deadEndpoints.erase e }.sub ↔ s₁.sub.activeEndpoint = e := by
    simp only [HasRole, Finset.mem_erase, ne_eq, not_true_eq_false, false_and, or_false]
    exact eq_comm
  rw [hact]
  rcases hkill with ⟨heq, hkill⟩ | ⟨hne, rfl⟩
  · rw [killEndpoint_active hkill]
    exact (and_iff_right heq).symm
  · exact iff_of_false hne fun h => hne h.1

/-- What an event has to meet, in a handler that was supplied the endpoints `given`: a ban of the
active endpoint draws another one, if one is left that is not banned, and an endpoint that is not
banned is supplied only while there is another one. -/
def FailoverEvent.Spares (given : List Endpoint) (s : Self (Handler κ)) : FailoverEvent κ → Prop
  | .banEndpoint e => s.sub.activeEndpoint = e →
      (∃ a ∈ given, a ≠ e ∧ a ∉ s.sub.bannedEndpoints) → ¬ DrawsEndpoint e s
  | ev => (∃ e ∈ ev.given, e ∉ s.sub.bannedEndpoints) → s.sub.SomeUsable given

/-- **One event** keeps banned endpoints without a role exactly when it meets the condition. -/
theorem noBannedUsed_step_iff {given : List Endpoint} {ev : FailoverEvent κ}
    {s s' : Self (Handler κ)} (ha : Accounted given s.sub)
    (hP : s.sub.SomeUsable given → s.sub.NoBannedUsed)
    (h : MultiEndpointHandler.step s ev = .ok s') :
    (s'.sub.SomeUsable (given ++ ev.given) → s'.sub.NoBannedUsed) ↔ ev.Spares given s := by
  rcases step_cases h with ⟨e, rfl, hban⟩ | ⟨hne, hbanned, hroles⟩
  · obtain ⟨hroles, hbanned, -⟩ := banEndpoint_roles hban
    have husable : s'.sub.SomeUsable (given ++ (FailoverEvent.banEndpoint e).given (κ := κ)) ↔
        ∃ a ∈ given, a ≠ e ∧ a ∉ s.sub.bannedEndpoints := by
      simp only [SomeUsable, FailoverEvent.given, List.append_nil, hbanned, Finset.mem_insert,
        not_or]
    rw [husable]
    have hused : (∃ a ∈ given, a ≠ e ∧ a ∉ s.sub.bannedEndpoints) →
        (s'.sub.NoBannedUsed ↔ ¬ s'.sub.HasRole e) := by
      rintro ⟨a, hag, -, hab⟩
      have hn := hP ⟨a, hag, hab⟩
      refine ⟨fun hn' => hn' e (hbanned ▸ Finset.mem_insert.mpr (.inl rfl)),
        fun he b hb hr => ?_⟩
      by_cases hbe : b = e
      · exact he (hbe ▸ hr)
      · rw [hbanned, Finset.mem_insert] at hb
        exact hn b (hb.resolve_left hbe) ((hroles b hbe).mp hr)
    constructor
    · intro hn hact hleft hdraw
      exact (hused hleft).mp (hn hleft) ((banEndpoint_hasRole hban).mpr ⟨hact, hdraw⟩)
    · intro hs hleft
      refine (hused hleft).mpr fun hr => ?_
      obtain ⟨hact, hdraw⟩ := (banEndpoint_hasRole hban).mp hr
      exact hs hact hleft hdraw
  · have hspares : ev.Spares given s ↔
        ((∃ e ∈ ev.given, e ∉ s.sub.bannedEndpoints) → s.sub.SomeUsable given) := by
      cases ev with
      | banEndpoint e => exact absurd rfl (hne e)
      | _ => exact Iff.rfl
    have husable : s'.sub.SomeUsable (given ++ ev.given) ↔
        s.sub.SomeUsable given ∨ ∃ e ∈ ev.given, e ∉ s.sub.bannedEndpoints := by
      simp only [SomeUsable, List.mem_append, hbanned, or_and_right, exists_or]
    rw [hspares, husable]
    by_cases hu : s.sub.SomeUsable given
    · refine iff_of_true (fun _ b hb hr => ?_) fun _ => hu
      rw [hbanned] at hb
      rcases (hroles b).mp hr with hr | ⟨-, hn⟩
      · exact hP hu b hb hr
      · exact hn hb
    · -- every endpoint supplied is banned, the active one too
      have hact : s.sub.activeEndpoint ∈ s.sub.bannedEndpoints := by
        by_contra hn
        exact hu ⟨_, ha.known _ (.inl rfl), hn⟩
      have hbad : ¬ s'.sub.NoBannedUsed := fun hn =>
        hn _ (hbanned ▸ hact) ((hroles _).mpr (.inl (.inl rfl)))
      rw [or_iff_right hu]
      exact ⟨fun h hg => absurd (h hg) hbad, fun h hg => absurd (h hg) hu⟩

/-- The banned endpoints are those that were banned. -/
theorem banned_of_run {endpoints : List Endpoint} {now : Int} {derived : κ}
    {s₀ s : Self (Handler κ)} (h₀ : new endpoints now derived = .ok s₀.sub)
    {es : List (FailoverEvent κ)} (hr : (failover s₀).Run es s) (e : Endpoint) :
    e ∈ s.sub.bannedEndpoints ↔ .banEndpoint e ∈ es := by
  refine hr.invariant_history
    (I := fun es s => e ∈ s.sub.bannedEndpoints ↔ .banEndpoint e ∈ es)
    (fun s hs => ?_) (fun es s ev s' _ hI h => ?_)
  · rw [show s = s₀ from hs]
    have hnil : s₀.sub.bannedEndpoints = ∅ := by
      unfold MultiEndpointHandler.new at h₀
      split at h₀
      · cases h₀
      · have := Except.ok.inj h₀
        rw [← this]
    rw [hnil]
    exact iff_of_false (Finset.notMem_empty e) List.not_mem_nil
  · rw [List.mem_append, List.mem_singleton, ← hI]
    rcases step_cases h with ⟨a, rfl, hban⟩ | ⟨hne, hbanned, -⟩
    · rw [(banEndpoint_roles hban).2.1, Finset.mem_insert, or_comm,
        FailoverEvent.banEndpoint.injEq]
    · rw [hbanned]
      exact (or_iff_left fun h => hne e h.symm).symm

/-- While some endpoint supplied is not banned, no banned one is active, an alternative or dead. -/
def BannedUnused (endpoints : List Endpoint) (es : List (FailoverEvent κ)) (s : Self (Handler κ)) :
    Prop :=
  (∃ a ∈ supplied endpoints es, .banEndpoint a ∉ es) → ∀ e, .banEndpoint e ∈ es →
    e ≠ s.sub.activeEndpoint ∧ e ∉ s.sub.alternativeEndpoints ∧ e ∉ s.sub.deadEndpoints

/-- **No banned endpoint is used in any state of a run exactly when every event of the run meets the
condition.** -/
theorem banned_unused_iff {endpoints : List Endpoint} {now : Int} {derived : κ}
    {s₀ s : Self (Handler κ)} (h₀ : new endpoints now derived = .ok s₀.sub)
    {es : List (FailoverEvent κ)} (hr : (failover s₀).Run es s) :
    (∀ p s, p <+: es → (failover s₀).Run p s → BannedUnused endpoints p s) ↔
      ∀ p s ev, p ++ [ev] <+: es → (failover s₀).Run p s → ev.Spares (supplied endpoints p) s := by
  have hunused : ∀ p s, (failover s₀).Run p s → (BannedUnused endpoints p s ↔
      (s.sub.SomeUsable (supplied endpoints p) → s.sub.NoBannedUsed)) := by
    intro p s hp
    unfold BannedUnused SomeUsable NoBannedUsed HasRole
    simp only [banned_of_run h₀ hp, not_or]
  refine System.Run.always_iff (P := BannedUnused endpoints)
    (C := fun p s ev => ev.Spares (supplied endpoints p) s)
    (fun p s s' => System.run_from_unique) (fun s hs => ?_) (fun p s ev s' hp hP h => ?_) hr
  · rintro - e he
    cases he
  · rw [hunused _ _ (hp.snoc h), supplied_snoc]
    exact noBannedUsed_step_iff (accounted_of_run h₀ hp) ((hunused p s hp).mp hP) h

/-- The condition on that run. -/
theorem banned_unused_iff_bannedActive : ∃ s, (failover twoEndpoints).Run bannedActive s ∧
    ((∀ p s, p <+: bannedActive → (failover twoEndpoints).Run p s →
        BannedUnused [⟨1, 1⟩, ⟨2, 2⟩] p s) ↔
      ∀ p s ev, p ++ [ev] <+: bannedActive → (failover twoEndpoints).Run p s →
        ev.Spares (supplied [⟨1, 1⟩, ⟨2, 2⟩] p) s) := by
  obtain ⟨s, h, -⟩ := bannedActive_ends
  have hr := System.run_from.mpr h
  exact ⟨s, hr, banned_unused_iff twoEndpoints_new hr⟩

/-- **A ban can draw the endpoint it bans**: it is among the dead when a failover has no other
alternative, and it stays the active one. -/
theorem bannedActive_used : ∃ s, (failover twoEndpoints).Run bannedActive s ∧
    .banEndpoint ⟨2, 2⟩ ∈ bannedActive ∧ s.sub.activeEndpoint = ⟨2, 2⟩ ∧
    ¬ BannedUnused [⟨1, 1⟩, ⟨2, 2⟩] bannedActive s := by
  obtain ⟨s, h, hact, -⟩ := bannedActive_ends
  refine ⟨s, System.run_from.mpr h, by simp [bannedActive], hact, fun hu => ?_⟩
  have hleft : ∃ a ∈ supplied [⟨1, 1⟩, ⟨2, 2⟩] bannedActive, .banEndpoint a ∉ bannedActive :=
    ⟨⟨1, 1⟩, by simp [supplied], by simp [bannedActive]⟩
  exact (hu hleft ⟨2, 2⟩ (by simp [bannedActive])).1 hact.symm

end Wga
