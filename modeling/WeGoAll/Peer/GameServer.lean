import WeGoAll.Base.EncryptedMultiEndpointHandler
import WeGoAll.Peer.SingleGameServer
import WeGoAll.Support.Order

/-!
# Peer — GameServer

The handlers of the lobby that take and give the documents of the peers.  A document is a record of
the members that are read from it; its text is the JSON library's.
-/

namespace Wga

/-- `to_json` of a `ServerPeerData`. -/
structure PeerInfo where
  id : Bytes
  key : Bytes
  name : Bytes
  endpoints : List Bytes
  deriving DecidableEq

/-- The document of `/api/get_game_info`; its `peerData` in the order of the keys. -/
structure GameInfo where
  gameName : Bytes
  ready : Bool
  peerData : List (Bytes × PeerInfo)
  hostId : Bytes
  deriving DecidableEq

/-- The lobby, with the members its other handlers read and write. -/
structure GameServer extends SingleGameServer where
  gameId : Bytes
  gameName : Bytes

namespace GameServer

variable (L : Libraries)

/-- `gameId = "MyGameId"`. -/
def MY_GAME_ID : Bytes := ascii ['M', 'y', 'G', 'a', 'm', 'e', 'I', 'd']

/-- The constructor. -/
def new (hostId : Bytes) (hostKey : PublicKey) (hostName : Bytes) (numPlayers : Nat) :
    GameServer :=
  ⟨.new hostId hostKey hostName numPlayers, MY_GAME_ID, []⟩

def toJson (p : ServerPeerData) : PeerInfo :=
  ⟨p.id, CryptoHandler.keyToString L p.key, p.name, inOrder p.endpoints⟩

/-- `/api/get_game_info`. -/
def getGameInfo (gameId : Bytes) (self : GameServer) : Except Fault GameInfo :=
  if self.gameId ≠ gameId then .error (.fatal "Invalid game id: ")
  else
    .ok {
      gameName := self.gameName
      ready := self.ready
      peerData := (entriesInOrder self.peerData).map fun it => (it.1, toJson L it.2)
      hostId := self.hostId }

/-- `/api/host`. -/
def host (hostId gameId gameName : Bytes) (self : GameServer) : Except Fault GameServer :=
  if hostId ≠ self.hostId then .error (.fatal "Host ID does not match: ")
  else if gameId ≠ self.gameId then .error (.fatal "Game ID does not match")
  else .ok { self with gameName := gameName }

/-- `/api/join`. -/
def join (peerId peerKey name : Bytes) (self : GameServer) : Except Fault GameServer := do
  let key ← CryptoHandler.stringToKey L 32 peerKey
  let server ← self.toSingleGameServer.join peerId key name
  .ok { self with toSingleGameServer := server }

/-- `/api/update_endpoints`. -/
def updateEndpoints (id : Bytes) (allEndpoints : List Bytes) (self : GameServer) : GameServer :=
  { self with toSingleGameServer := self.setPeerEndpoints id allEndpoints }

end GameServer

end Wga
