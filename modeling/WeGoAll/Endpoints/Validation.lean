import WeGoAll.Endpoints.Handlers
import WeGoAll.Formats.Msgpack

/-!
# Endpoints — Validation

`receive` calls the `validatePacket` of `BiDirectionalRpc`, which is not virtual and accepts
everything; the one of `EncryptedMultiEndpointHandler`, which opens the payload, is called by
nothing.

* `never_ignored`: no handler ever refuses a packet for an entry that does not open.
* `forgedReply_cancels`: such an entry can cancel an outstanding request.
-/

namespace Wga

open BiDirectionalRpc EncryptedMultiEndpointHandler

/-- The tables of two endpoints agree. -/
structure Rpc.SameTables (a b : Rpc) : Prop where
  delayedRequests : a.delayedRequests = b.delayedRequests
  outgoingRequests : a.outgoingRequests = b.outgoingRequests
  incomingRequests : a.incomingRequests = b.incomingRequests
  oneWayRequests : a.oneWayRequests = b.oneWayRequests
  outgoingReplies : a.outgoingReplies = b.outgoingReplies
  incomingReplies : a.incomingReplies = b.incomingReplies
  processedRequests : a.processedRequests = b.processedRequests
  processedReplies : a.processedReplies = b.processedReplies
  clock : a.clock = b.clock

namespace Packet

/-- The payloads of a packet, with the identifiers they come under. -/
def payloads : Packet → List (RpcId × Bytes)
  | .request entries => entries.map fun e => (e.id, e.payload)
  | .reply entries => entries.map fun e => (e.id, e.payload)
  | .acknowledge uid payload => [(uid, payload)]

/-- The packet of the first `k` entries; nothing comes before the one of an acknowledgement. -/
def before (k : Nat) : Packet → Packet
  | .request entries => .request (entries.take k)
  | .reply entries => .reply (entries.take k)
  | .acknowledge _ _ => .request []

end Packet

namespace EncryptedMultiEndpointHandler

variable (L : Libraries)

/-- The entry `k` of the packet is not of the handshake and does not open under the session key. -/
def Unauthentic (p : Packet) (k : Nat) (s : EncryptedHandler) : Prop :=
  ∃ e, p.payloads[k]? = some e ∧ e.1 ≠ SESSION_KEY_RPCID ∧
    CryptoHandler.openSecret L s.sub.derived.incomingSessionKey e.2 = none

/-- `receive` returns false, and the entries of the packet from `k` on change no table. -/
def Ignores (message : Bytes) (p : Packet) (k : Nat) (s : EncryptedHandler) : Prop :=
  ∃ s' s₁, receive L message s = .ok (false, s') ∧
    handlePacket L (virtuals L) (p.before k) s = .ok s₁ ∧ s'.rpc.SameTables s₁.rpc

variable {L}

/-- **An entry that does not open is never ignored**: `receive` does not return false for any. -/
theorem never_ignored {s : EncryptedHandler} (_ : (handlers L).Reachable s)
    (_ : s.sub.derived.canDecrypt = true) {message : Bytes} {p : Packet}
    (_ : L.unpack message = ⟨p.objects, .finished⟩) {k : Nat} (_ : Unauthentic L p k s) :
    ¬ Ignores L message p k s := by
  rintro ⟨s', s₁, h, -⟩
  cases receive_true h

/-- A handler with one endpoint. -/
def aRecipient : Construction :=
  ⟨.replicate 32 1, .replicate 32 2, [⟨1, 1⟩], 1, false, default, []⟩

/-- The payload of the peer's handshake for that handler. -/
def aHandshakePayload : Bytes :=
  let L := Libraries.standIn
  let encryptedKey : EncryptedSessionKey :=
    (.replicate 24 0 : Nonce) ++ L.box (.replicate 32 5) (.replicate 24 0) (.replicate 32 1)
      (.replicate 32 2)
  L.pack [.str (CryptoHandler.keyToString L (.replicate 32 2 : PublicKey)),
    .str (CryptoHandler.keyToString L encryptedKey)]

def aHandshake : Bytes :=
  (Packet.request [⟨SESSION_KEY_RPCID, aHandshakePayload⟩]).message .standIn

/-- The handler exchanges session keys with its peer and makes a request. -/
def requestingRun : List HandlerEvent :=
  let L := Libraries.standIn
  let peerKey : SessionKey := .replicate 32 5
  let nonce : Nonce := .replicate 24 0
  [.owner (.sendSessionKey (.replicate 32 7)),
    .receive aHandshake,
    .receive ((Packet.reply [⟨SESSION_KEY_RPCID, 0, 0,
      nonce.toList ++ L.secretbox OK nonce peerKey⟩]).message L),
    .receive ((Packet.acknowledge SESSION_KEY_RPCID
      (nonce.toList ++ L.secretbox ACK_OK nonce peerKey)).message L),
    .owner (.rpc (.request 9 (ascii ['H', 'I'])))]

/-- A reply to that request with an empty payload. -/
def forgedReply : Packet := .reply [⟨⟨0, 9⟩, 0, 0, []⟩]

theorem requestingRun_ends : ∃ s₀, aRecipient.make .standIn = .ok s₀ ∧
    ∃ s, requestingRun.foldlM (step .standIn) s₀ = .ok s ∧
      s.sub.derived.canDecrypt = true ∧ ⟨0, 9⟩ ∈ s.rpc.outgoingRequests ∧
      CryptoHandler.openSecret .standIn s.sub.derived.incomingSessionKey [] = none ∧
      ∃ r, receive .standIn (forgedReply.message .standIn) s = .ok r ∧
        r.1 = true ∧ ⟨0, 9⟩ ∉ r.2.rpc.outgoingRequests ∧ r.2.rpc.incomingReplies.entries = [] := by
  decide +kernel

/-- The forged reply is not ignored. -/
theorem never_ignored_forgedReply : ∃ s, (handlers .standIn).Reachable s ∧
    ¬ Ignores .standIn (forgedReply.message .standIn) forgedReply 0 s := by
  obtain ⟨s₀, h₀, s, h, hkey, -, hopen, -⟩ := requestingRun_ends
  have hs : (handlers .standIn).Reachable s :=
    ⟨requestingRun, System.run_ofStep.mpr ⟨s₀, ⟨aRecipient, h₀⟩, h⟩⟩
  exact ⟨s, hs, never_ignored hs hkey (Libraries.standIn.unpack_pack _)
    ⟨(⟨0, 9⟩, []), rfl, by decide, hopen⟩⟩

/-- **A forged reply cancels a request**: the request is gone and no reply is queued, although the
payload does not open. -/
theorem forgedReply_cancels : ∃ s s', (handlers .standIn).Reachable s ∧
    s.sub.derived.canDecrypt = true ∧ Unauthentic .standIn forgedReply 0 s ∧
    receive .standIn (forgedReply.message .standIn) s = .ok (true, s') ∧
    ⟨0, 9⟩ ∈ s.rpc.outgoingRequests ∧ ⟨0, 9⟩ ∉ s'.rpc.outgoingRequests ∧
    s'.rpc.incomingReplies.entries = [] ∧
    ¬ Ignores .standIn (forgedReply.message .standIn) forgedReply 0 s := by
  obtain ⟨s₀, h₀, s, h, hkey, hmem, hopen, ⟨b, s'⟩, hrec, hb, hgone, hnone⟩ := requestingRun_ends
  have hs : (handlers .standIn).Reachable s :=
    ⟨requestingRun, System.run_ofStep.mpr ⟨s₀, ⟨aRecipient, h₀⟩, h⟩⟩
  cases hb
  refine ⟨s, s', hs, hkey, ⟨(⟨0, 9⟩, []), rfl, by decide, hopen⟩, hrec, hmem, hgone, hnone, ?_⟩
  rintro ⟨t, -, ht, -⟩
  cases receive_true ht

end EncryptedMultiEndpointHandler

end Wga
