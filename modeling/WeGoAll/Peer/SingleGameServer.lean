import Mathlib.Data.Finset.Insert
import WeGoAll.Base.Libraries

/-!
# Peer — SingleGameServer

The lobby: the peers that joined a game and the endpoints each of them may be reached at.  The
handlers of `/api/join`, `/api/update_endpoints` and the part of `/api/get_game_info` that decides
whether the game is ready are here; the order of a `map` plays no part in them.
-/

namespace Wga

structure ServerPeerData where
  id : Bytes
  key : PublicKey
  name : Bytes
  endpoints : Finset Bytes

/-- The constructor with arguments. -/
def ServerPeerData.new (id : Bytes) (key : PublicKey) (name : Bytes) : ServerPeerData :=
  ⟨id, key, name, ∅⟩

/-- The members of `SingleGameServer` the handlers of the lobby read and write. -/
structure SingleGameServer where
  numPlayers : Nat
  hostId : Bytes
  peerData : UnorderedMap Bytes ServerPeerData

namespace SingleGameServer

def addPeer (id : Bytes) (key : PublicKey) (name : Bytes) (self : SingleGameServer) :
    SingleGameServer :=
  { self with peerData := self.peerData.insert id (.new id key name) }

/-- The constructor: the host is the first peer. -/
def new (hostId : Bytes) (hostKey : PublicKey) (hostName : Bytes) (numPlayers : Nat) :
    SingleGameServer :=
  addPeer hostId hostKey hostName ⟨numPlayers, hostId, ∅⟩

/-- The loop of `setPeerEndpoints` over the peers: another one has the endpoint. -/
def gotDupe (id endpoint : Bytes) (self : SingleGameServer) : Bool :=
  self.peerData.entries.any fun entry => entry.1 ≠ id && endpoint ∈ entry.2.endpoints

def setPeerEndpoints (id : Bytes) (endpointsWithDuplicatesInOtherPeers : List Bytes)
    (self : SingleGameServer) : SingleGameServer :=
  let endpointsWithoutDuplicates :=
    endpointsWithDuplicatesInOtherPeers.filter fun endpoint => !self.gotDupe id endpoint
  match self.peerData.lookup id with
  | none => self
  | some it =>
      { self with
        peerData := self.peerData.insert id
          { it with
            endpoints := endpointsWithoutDuplicates.foldl
              (fun endpoints endpoint => insert endpoint endpoints) it.endpoints } }

/-- The handler of `/api/join`. -/
def join (peerId : Bytes) (peerKey : PublicKey) (name : Bytes) (self : SingleGameServer) :
    Except Fault SingleGameServer :=
  if peerId ∈ self.peerData then .error (.fatal "Tried to add a peer that already exists")
  else .ok (self.addPeer peerId peerKey name)

/-- `retval["ready"]` in the handler of `/api/get_game_info`. -/
def ready (self : SingleGameServer) : Bool :=
  self.peerData.entries.length ≥ self.numPlayers &&
    self.peerData.entries.all fun it => it.2.endpoints ≠ ∅

end SingleGameServer

end Wga
