import WeGoAll.Base.Base64
import WeGoAll.Endpoints.RpcServer
import WeGoAll.Peer.GameServer

/-!
# Peer — SetUp

What a peer does before its first update: it asks the lobby for the game, joins it, reports where it
can be reached, waits until all have done so, makes a handler for each other peer, and asks for its
position.  A peer does each of its exchanges with the lobby in a function of its own here.
-/

namespace Wga

/-- The constructor of `PlayerData`; the inputs are of another model. -/
structure PlayerData where
  publicKey : PublicKey
  name : Bytes
  deriving DecidableEq

/-- The exchange with the lobby a peer makes next of itself. -/
inductive NextExchange where
  /-- None; the application has not called `start`. -/
  | none
  | checkForEndpoints
  | getInitialPosition
  /-- None; the updates go on without the lobby. -/
  | updating
  deriving DecidableEq

/-- The members of `MyPeer` that are read and written before the first update. -/
structure MyPeer where
  userId : Bytes
  privateKey : PrivateKey
  publicKey : PublicKey
  gameId : Bytes
  hostId : Bytes
  hosting : Bool
  gameName : Bytes
  name : Bytes
  position : Int
  peerData : UnorderedMap Bytes PlayerData
  myData : Option PlayerData
  rpcServer : RpcServer
  next : NextExchange

/-- What `checkForEndpoints` finds outside the program: the resolver, the addresses of the machine,
and for the handler of each peer the time, the environment and the session key drawn, which is not
the empty one. -/
structure Surroundings where
  resolve : Bytes → Bytes → Except Fault (List Endpoint)
  myIps : List Bytes
  now : Bytes → Int
  flaky : Bool
  env : Bytes → Env
  key : Bytes → { key : SessionKey // key ≠ emptySessionKey }

/-- `to_string` of a number. -/
def decimal (n : Nat) : Bytes := ascii (Nat.toDigits 10 n)

/-- `ep.address().to_string() + ":" + to_string(ep.port())`. -/
def Endpoint.text (ep : Endpoint) : Bytes :=
  let a := ep.address.toNat
  decimal (a >>> 24) ++ ascii ['.'] ++ decimal (a >>> 16 % 256) ++ ascii ['.'] ++
    decimal (a >>> 8 % 256) ++ ascii ['.'] ++ decimal (a % 256) ++ ascii [':'] ++
    decimal ep.port.toNat

/-- `split`: `getline` finds nothing behind a last delimiter. -/
def split (s : Bytes) (delim : UInt8) : List Bytes :=
  let tokens := s.splitOn delim
  if tokens.getLast? = some [] then tokens.dropLast else tokens

namespace MyPeer

variable (L : Libraries)

/-- The constructor, after the lobby has told the id of the game and the game. -/
protected def new (userId : Bytes) (privateKey : PrivateKey) (name gameId : Bytes) (result : GameInfo) :
    MyPeer where
  userId := userId
  privateKey := privateKey
  publicKey := L.scalarmultBase privateKey
  gameId := gameId
  hostId := result.hostId
  hosting := result.hostId = userId
  gameName := []
  name := name
  position := -1
  peerData := ∅
  myData := none
  rpcServer := .new
  next := .none

/-- `host`, with the handler of the lobby; the parameter hides the member `gameName`. -/
def host (gameName : Bytes) (self : MyPeer) (server : GameServer) : Except Fault GameServer :=
  server.host self.userId self.gameId gameName

/-- `join`, with the handler of the lobby. -/
def join (self : MyPeer) (server : GameServer) : Except Fault GameServer :=
  server.join L self.userId (CryptoHandler.keyToString L self.publicKey) self.name

/-- `start`, with the handler of the lobby. -/
def start (myIps : List Bytes) (self : MyPeer) (server : GameServer) : MyPeer × GameServer :=
  ({ self with next := .checkForEndpoints }, server.updateEndpoints self.userId myIps)

/-- The endpoints a peer has reported, resolved. -/
def resolveAll (resolve : Bytes → Bytes → Except Fault (List Endpoint)) :
    List Bytes → Except Fault (List Endpoint)
  | [] => .ok []
  | endpointString :: rest =>
      match split endpointString 58 with
      | host :: port :: _ => do
          let newEndpoints ← resolve host port
          let endpoints ← resolveAll resolve rest
          .ok (newEndpoints ++ endpoints)
      | _ => .error (.thrown "std::out_of_range")

/-- The handler for another peer; those of my own endpoints are banned. -/
def makeHandler (w : Surroundings) (privateKey : PrivateKey) (id : Bytes) (peerKey : PublicKey)
    (endpoints : List Endpoint) : Except Fault EncryptedHandler := do
  let endpointHandler ← EncryptedMultiEndpointHandler.new (CryptoHandler.new L privateKey peerKey)
    endpoints (w.now id) w.flaky (w.env id)
  (inOrder (MultiEndpointHandler.aliveEndpoints endpointHandler.sub)).foldlM (fun handler ep =>
    if w.myIps.contains ep.text then MultiEndpointHandler.banEndpoint ep handler else .ok handler)
    endpointHandler

/-- The loop of `checkForEndpoints` over the peers. -/
def setUpPeer (w : Surroundings) (self : MyPeer) (it : Bytes × PeerInfo) :
    Except Fault MyPeer := do
  let (id, value) := it
  let peerKey ← CryptoHandler.stringToKey L 32 value.key
  let self := { self with peerData := self.peerData.insert id ⟨peerKey, value.name⟩ }
  -- no endpoint for myself
  if id = self.userId then .ok { self with name := value.name }
  else
    let endpoints ← resolveAll w.resolve value.endpoints
    let endpointHandler ← makeHandler L w self.privateKey id peerKey endpoints
    let i := self.rpcServer.mux.recipients.length
    let rpcServer ← self.rpcServer.addEndpoint id endpointHandler
    let rpcServer ← rpcServer.call L i (.sendSessionKey (w.key id))
    .ok { self with rpcServer := rpcServer }

/-- The comparison of the names of the game in `checkForEndpoints`. -/
def checkGame (result : GameInfo) (self : MyPeer) : Except Fault MyPeer :=
  if self.gameName.length ≠ 0 then
    if result.gameName ≠ self.gameName then
      .error (.fatal "Game Name does not match what I should be hosting: ")
    else if result.hostId ≠ self.userId then
      .error (.fatal "Game host should be me but it isn't ")
    else .ok self
  else .ok { self with gameName := result.gameName }

/-- `checkForEndpoints`, up to its call of `getInitialPosition`.  Where the own id is missing,
`peerData[userId]` also inserts a null entry, which is left out; `getInitialPosition` then ends the
process. -/
def checkForEndpoints (w : Surroundings) (result : GameInfo) (self : MyPeer) :
    Except Fault MyPeer :=
  -- game is not ready, waiting
  if !result.ready then .ok self
  else do
    let self ← checkGame result self
    let self ← result.peerData.foldlM (setUpPeer L w) self
    .ok { self with myData := self.peerData.lookup self.userId, next := .getInitialPosition }

/-- The loop of `getInitialPosition` over the ids, from the position `a` on. -/
def findPosition (peerData : List (Bytes × PeerInfo)) (userId publicKeyB64 : Bytes) :
    List Bytes → Nat → Int → Except Fault Int
  | [], _, position => .ok position
  | peerId :: rest, a, position =>
      if peerId = userId then
        if position ≠ -1 then .error (.fatal "Got multiple peers with the same user id: ")
        else if (peerData.lookup peerId).map PeerInfo.key ≠ some publicKeyB64 then
          .error (.fatal "Got userid match ")
        else findPosition peerData userId publicKeyB64 rest (a + 1) a
      else findPosition peerData userId publicKeyB64 rest (a + 1) position

/-- `peerIds`: the host is always the first. -/
def peerIds (result : GameInfo) : List Bytes :=
  result.hostId :: ((result.peerData.map Prod.fst).filter (· ≠ result.hostId)).insertionSort (· ≤ ·)

def getInitialPosition (result : GameInfo) (self : MyPeer) : Except Fault MyPeer := do
  let publicKeyB64 ← B64.Encode self.publicKey.toList
  let position ← findPosition result.peerData self.userId publicKeyB64 (peerIds result) 0 (-1)
  if position = -1 then .error (.fatal "Could not find peer ")
  else
    .ok { self with
      hosting := result.hostId = self.userId
      position := position
      next := .updating }

end MyPeer

end Wga
