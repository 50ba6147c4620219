import WeGoAll.Base.EncryptedMultiEndpointHandler

/-!
# Base — PortMultiplexer

One socket shared by the handlers of all peers: which handler a datagram goes to.  The handlers
are distinct objects, registered once each.
-/

namespace Wga

/-- The members of `PortMultiplexer`. -/
structure PortMultiplexer where
  recipients : List EncryptedHandler
  receiveEndpoint : Endpoint
  endpointsSeen : EndpointSet

namespace PortMultiplexer

variable (L : Libraries)

/-- The constructor. -/
def new : PortMultiplexer := ⟨[], {}, ∅⟩

/-- `for (auto r : recipients) r->banEndpoint(ep)`. -/
def banForAll (ep : Endpoint) (recipients : List EncryptedHandler) :
    Except Fault (List EncryptedHandler) :=
  recipients.mapM (MultiEndpointHandler.banEndpoint ep)

/-- The loop of `addRecipient` over the alive endpoints of the new recipient. -/
def checkEndpoints : List Endpoint → PortMultiplexer → Except Fault PortMultiplexer
  | [], mux => .ok mux
  | ep :: eps, mux =>
      if ep ∈ mux.endpointsSeen ∨ ep = mux.receiveEndpoint then do
        -- we've seen this endpoint more than once, ban it
        let recipients ← banForAll ep mux.recipients
        checkEndpoints eps { mux with recipients := recipients }
      else
        -- mark it so we ban next time if we see it again
        checkEndpoints eps { mux with endpointsSeen := insert ep mux.endpointsSeen }

def addRecipient (recipient : EncryptedHandler) (mux : PortMultiplexer) :
    Except Fault PortMultiplexer := do
  let mux ← checkEndpoints (inOrder (MultiEndpointHandler.aliveEndpoints recipient.sub)) mux
  .ok { mux with recipients := mux.recipients ++ [recipient] }

/-- The loop of `handleReceive` that resurrects `source` in every recipient that has it; the last
such recipient is the one found, by its index. -/
def findRecipient (source : Endpoint) :
    Nat → List EncryptedHandler → Option Nat × List EncryptedHandler
  | _, [] => (none, [])
  | i, r :: rs =>
      let (found, handler) := MultiEndpointHandler.hasEndpointAndResurrectIfFound source r.sub
      let (later, rs) := findRecipient source (i + 1) rs
      (later.or (if found then some i else none), { r with sub := handler } :: rs)

/-- The loop of `handleReceive` that tries the first recipient that has not banned `source`. -/
def firstNotBanned (source : Endpoint) (recipients : List EncryptedHandler) : Option Nat :=
  recipients.findIdx? fun r => !MultiEndpointHandler.isEndpointBanned source r.sub

/-- The recipient a datagram from `source` goes to, and the recipients after the search. -/
def route (source : Endpoint) (packetContents : Bytes) (recipients : List EncryptedHandler) :
    Option Nat × List EncryptedHandler :=
  match findRecipient source 0 recipients with
  | (some i, recipients) => (some i, recipients)
  | (none, recipients) =>
      if packetContents ≠ [] then
        match firstNotBanned source recipients with
        | some i =>
            (some i, recipients.modify i fun r =>
              { r with sub := MultiEndpointHandler.addEndpoint source r.sub })
        | none => (none, recipients)
      else (none, recipients)

/-- `recipient->receive(packetContents)`, and the ban when it returns false. -/
def deliver (source : Endpoint) (packetContents : Bytes) (recipient : EncryptedHandler) :
    Except Fault EncryptedHandler := do
  let (ok, recipient) ← EncryptedMultiEndpointHandler.receive L packetContents recipient
  if !ok then MultiEndpointHandler.banEndpoint source recipient else .ok recipient

/-- `handleReceive` of a datagram `packet` from `source`, without a socket error. -/
def handleReceive (source : Endpoint) (packet : Bytes) (mux : PortMultiplexer) :
    Except Fault PortMultiplexer :=
  let mux := { mux with receiveEndpoint := source }
  if packet.length < WGA_MAGIC.length then .ok mux
  else if packet.take WGA_MAGIC.length ≠ WGA_MAGIC then .ok mux
  else
    let packetContents := packet.drop WGA_MAGIC.length
    match route source packetContents mux.recipients with
    | (none, recipients) => .ok { mux with recipients := recipients }
    | (some i, recipients) =>
        match recipients[i]? with
        | none => .ok { mux with recipients := recipients }
        | some recipient => do
            let recipient ← deliver L source packetContents recipient
            .ok { mux with recipients := recipients.set i recipient }

end PortMultiplexer

end Wga
