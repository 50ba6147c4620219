import WeGoAll.Endpoints.Roles
import WeGoAll.Support.Runs

/-!
# Endpoints — Handlers

An encrypted handler on its own: it is made, its owner calls its methods, and messages of
any bytes arrive.

* `handlers`: the system of these events.
* `make_roles`: a handler made has no endpoint but those its owner gave it.
-/

namespace Wga

open Handler MultiEndpointHandler

/-- What the owner of a handler calls. -/
inductive OwnerCall where
  | rpc (c : Call)
  | sendSessionKey (key : SessionKey)
  | banEndpoint (e : Endpoint)
  | addEndpoints (es : List Endpoint)

/-- The method a call names. -/
def OwnerCall.run (L : Libraries) (self : EncryptedHandler) :
    OwnerCall → Except Fault EncryptedHandler
  | .rpc c => c.run L (EncryptedMultiEndpointHandler.virtuals L) self
  | .sendSessionKey key => EncryptedMultiEndpointHandler.sendSessionKey L key self
  | .banEndpoint e => MultiEndpointHandler.banEndpoint e self
  | .addEndpoints es => .ok { self with sub := MultiEndpointHandler.addEndpoints es self.sub }

/-- What a handler is constructed from, and what its owner calls before it registers it. -/
structure Construction where
  privateKey : PrivateKey
  otherPublicKey : PublicKey
  endpoints : List Endpoint
  now : Int
  flaky : Bool
  env : Env
  calls : List OwnerCall

/-- The handler made. -/
def Construction.make (L : Libraries) (c : Construction) : Except Fault EncryptedHandler := do
  let handler ← EncryptedMultiEndpointHandler.new
    (CryptoHandler.new L c.privateKey c.otherPublicKey) c.endpoints c.now c.flaky c.env
  c.calls.foldlM (OwnerCall.run L) handler

/-- The endpoints the owner gave it. -/
def Construction.supplied (c : Construction) : List Endpoint :=
  c.endpoints ++ c.calls.flatMap fun
    | .addEndpoints es => es
    | _ => []

/-- The recipient after the search looked at it. -/
def resurrect (source : Endpoint) (r : EncryptedHandler) : EncryptedHandler :=
  { r with sub := (hasEndpointAndResurrectIfFound source r.sub).2 }

/-- An event at a handler. -/
inductive HandlerEvent where
  | owner (c : OwnerCall)
  /-- A message arrives; what it was sent in has been checked and removed. -/
  | receive (message : Bytes)
  /-- The handler is asked whether it has an endpoint. -/
  | resurrect (source : Endpoint)

namespace EncryptedMultiEndpointHandler

def step (L : Libraries) (self : EncryptedHandler) : HandlerEvent → Except Fault EncryptedHandler
  | .owner c => c.run L self
  | .receive message => (receive L message self).map Prod.snd
  | .resurrect source => .ok (resurrect source self)

theorem step_receive {L : Libraries} {message : Bytes} {s s' : EncryptedHandler} {b : Bool}
    (h : receive L message s = .ok (b, s')) : step L s (.receive message) = .ok s' := by
  rw [step, h]
  rfl

end EncryptedMultiEndpointHandler

/-- The runs of a handler in which the process survives. -/
def handlers (L : Libraries) : System EncryptedHandler HandlerEvent :=
  .ofStep (fun s => ∃ c : Construction, c.make L = .ok s) (EncryptedMultiEndpointHandler.step L)

/-! ### The endpoints of a handler made -/

theorem mem_foldl_insert {e : Endpoint} (es : List Endpoint) (s : EndpointSet) :
    e ∈ es.foldl (fun s e => insert e s) s ↔ e ∈ s ∨ e ∈ es := by
  induction es generalizing s with
  | nil => simp
  | cons a es ih =>
      rw [List.foldl_cons, ih, Finset.mem_insert, List.mem_cons]
      tauto

theorem new_roles {κ : Type} {es : List Endpoint} {now : Int} {derived : κ} {h : Handler κ}
    (hn : MultiEndpointHandler.new es now derived = .ok h) (e : Endpoint) :
    h.HasRole e ↔ e ∈ es := by
  unfold MultiEndpointHandler.new at hn
  split at hn
  · cases hn
  · cases hn
    simp [HasRole, mem_foldl_insert]

/-- A call gives a role to no endpoint but those its caller names. -/
theorem ownerCall_roles {L : Libraries} {c : OwnerCall} {r r' : EncryptedHandler}
    (h : c.run L r = .ok r') {e : Endpoint} (he : r'.sub.HasRole e) :
    r.sub.HasRole e ∨ ∃ l, c = .addEndpoints l ∧ e ∈ l := by
  cases c with
  | rpc c =>
      have hs := EncryptedMultiEndpointHandler.virtuals_sameRoles.call c r r' h
      exact Or.inl ((hs.1 e).mp he)
  | sendSessionKey key =>
      have hs := EncryptedMultiEndpointHandler.sendSessionKey_sameRoles key r r' h
      exact Or.inl ((hs.1 e).mp he)
  | banEndpoint ep =>
      obtain ⟨hroles, -, hban⟩ := banEndpoint_roles h
      by_cases heq : e = ep
      · exact Or.inl (heq ▸ hban (heq ▸ he))
      · exact Or.inl ((hroles e heq).mp he)
  | addEndpoints l =>
      cases h
      exact ((addEndpoints_roles l e r.sub).mp he).imp_right fun he => ⟨l, rfl, he.1⟩

/-- **A handler made has no endpoint but those its owner gave it.** -/
theorem make_roles {L : Libraries} {c : Construction} {r : EncryptedHandler}
    (h : c.make L = .ok r) {e : Endpoint} (he : r.sub.HasRole e) : e ∈ c.supplied := by
  obtain ⟨r₀, hn, h⟩ := bind_ok.mp h
  obtain ⟨handler, hm, h₀⟩ := bind_ok.mp hn
  have hr₀ : ∀ e, r₀.sub.HasRole e → e ∈ c.supplied := by
    intro e he
    split at h₀
    · cases h₀
    · cases h₀
      exact List.mem_append_left _ ((new_roles hm e).mp he)
  refine foldlM_invariant (I := fun r => ∀ e, r.sub.HasRole e → e ∈ c.supplied) ?_ hr₀ h e he
  intro s call s' hcall hs hstep e he
  rcases ownerCall_roles hstep he with he | ⟨l, rfl, hl⟩
  · exact hs e he
  · exact List.mem_append_right _ (List.mem_flatMap.mpr ⟨_, hcall, hl⟩)

end Wga
