import WeGoAll.Endpoints.Agreement
import WeGoAll.Endpoints.RpcServer

/-!
# Endpoints — Prepared

What the owner of a handler does to it before its first datagram: it bans endpoints and has the
session key sent.

* `prepared`: the system.
* `prepared_handshaking`: handlers prepared for each other can shake hands.
* `RpcServer.addEndpoint_handlers`: adding a handler prepares those that were there.
-/

namespace Wga

/-! ### Handlers on the way to their first datagram -/

/-- What its owner does to a handler before anything arrives. -/
def HandlerEvent.Prepares : HandlerEvent → Prop
  | .owner (.banEndpoint _) => True
  | .owner (.sendSessionKey key) => key ≠ emptySessionKey
  | _ => False

/-- A handler its owner prepares. -/
def prepared (L : Libraries) (privateKey : PrivateKey) (otherPublicKey : PublicKey) :
    System EncryptedHandler HandlerEvent where
  init h := ∃ endpoints now flaky env, EncryptedMultiEndpointHandler.new
    (CryptoHandler.new L privateKey otherPublicKey) endpoints now flaky env = .ok h
  step h e h' := e.Prepares ∧ EncryptedMultiEndpointHandler.step L h e = .ok h'

section Prepared

variable {L : Libraries} {privateKey : PrivateKey} {otherPublicKey : PublicKey}

theorem EncryptedPair.update_left (a b v : EncryptedHandler) :
    Function.update (EncryptedPair.of a b) .left v = EncryptedPair.of v b := by
  funext x
  cases x <;> rfl

theorem EncryptedPair.update_right (a b v : EncryptedHandler) :
    Function.update (EncryptedPair.of a b) .right v = EncryptedPair.of a v := by
  funext x
  cases x <;> rfl

theorem HandlerEvent.Prepares.occurs {e : HandlerEvent} (he : e.Prepares)
    (s peer : EncryptedHandler) : e.Occurs s peer := by
  cases e with
  | owner c =>
      cases c with
      | banEndpoint ep => trivial
      | sendSessionKey key => exact he
      | rpc c => exact he.elim
      | addEndpoints es => exact he.elim
  | receive message => exact he.elim
  | resurrect source => exact he.elim

/-- **Handlers prepared for each other can shake hands.** -/
theorem prepared_handshaking (keys : Side → PrivateKey) {a b : EncryptedHandler}
    (ha : (prepared L (keys .left) (L.scalarmultBase (keys .right))).Reachable a)
    (hb : (prepared L (keys .right) (L.scalarmultBase (keys .left))).Reachable b) :
    (handshaking L keys).Reachable (EncryptedPair.of a b) := by
  obtain ⟨es, ra⟩ := ha
  obtain ⟨es', rb⟩ := hb
  -- the left side first, then the right side
  induction rb with
  | @start b hb =>
      induction ra with
      | start ha =>
          refine ⟨[], .start fun x => ?_⟩
          cases x with
          | left => exact ha
          | right => exact hb
      | @snoc es e a a' _ h ih =>
          have hstep : EncryptedPair.Step L (EncryptedPair.of a b) (.handler .left e) _ :=
            .handler (h.1.occurs _ _) h.2
          rw [EncryptedPair.update_left] at hstep
          exact ih.step hstep
  | @snoc es e b b' _ h ih =>
      have hstep : EncryptedPair.Step L (EncryptedPair.of a b) (.handler .right e) _ :=
        .handler (h.1.occurs _ _) h.2
      rw [EncryptedPair.update_right] at hstep
      exact ih.step hstep

/-- Endpoints of the handler are banned. -/
def Bans : EncryptedHandler → EncryptedHandler → Prop :=
  Relation.ReflTransGen fun a b => ∃ ep, MultiEndpointHandler.banEndpoint ep a = .ok b

/-- Bans prepare a handler. -/
theorem prepared_bans {h h' : EncryptedHandler}
    (hh : (prepared L privateKey otherPublicKey).Reachable h)
    (hb : Bans h h') : (prepared L privateKey otherPublicKey).Reachable h' := by
  induction hb with
  | refl => exact hh
  | tail _ hb ih =>
      obtain ⟨ep, hb⟩ := hb
      exact ih.step (e := .owner (.banEndpoint ep)) ⟨trivial, hb⟩

end Prepared

/-! ### Adding a handler to a server -/

namespace RpcServer

variable {L : Libraries} {s s' : RpcServer} {id : Bytes}

/-- The duplicate check bans endpoints and does nothing else. -/
theorem checkEndpoints_bans {eps : List Endpoint} {mux mux' : PortMultiplexer}
    (h : mux.checkEndpoints eps = .ok mux') :
    List.Forall₂ Bans mux.recipients mux'.recipients := by
  induction eps generalizing mux with
  | nil =>
      cases h
      exact List.forall₂_same.mpr fun r _ => .refl
  | cons ep eps ih =>
      rw [PortMultiplexer.checkEndpoints] at h
      split at h
      · obtain ⟨rs, hrs, h⟩ := bind_ok.mp h
        exact forall₂_comp (PortMultiplexer.banForAll_ok hrs) (ih h) fun a b c hab hbc =>
          .head ⟨ep, hab⟩ hbc
      · have hrest := ih h
        exact hrest

/-- **A handler is added** under a new id; those that were there may have endpoints banned. -/
theorem addEndpoint_handlers {r : EncryptedHandler} (hid : id ∉ s.endpoints)
    (h : s.addEndpoint id r = .ok s') :
    s'.mux.recipients.length = s.mux.recipients.length + 1 ∧
      s'.mux.recipients[s.mux.recipients.length]? = some r ∧
      s'.endpoints = s.endpoints.insert id s.mux.recipients.length ∧
      ∀ (i : Nat) a, s.mux.recipients[i]? = some a →
        ∃ b, s'.mux.recipients[i]? = some b ∧ Bans a b := by
  obtain ⟨mux, hmux, h⟩ := bind_ok.mp h
  cases h
  obtain ⟨mux₁, h₁, hmux⟩ := bind_ok.mp hmux
  cases hmux
  have hbans := checkEndpoints_bans h₁
  refine ⟨by simp [hbans.length_eq], by simp [hbans.length_eq], if_neg hid, fun i a ha => ?_⟩
  obtain ⟨hlt, rfl⟩ := List.getElem?_eq_some_iff.mp ha
  have hlt' : i < mux₁.recipients.length := hbans.length_eq ▸ hlt
  exact ⟨mux₁.recipients[i], (List.getElem?_append_left hlt').trans
    (List.getElem?_eq_getElem hlt'), hbans.get hlt hlt'⟩

end RpcServer

end Wga
