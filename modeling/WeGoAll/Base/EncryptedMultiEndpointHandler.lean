import WeGoAll.Base.MultiEndpointHandler

/-!
# Base — EncryptedMultiEndpointHandler

`CryptoHandler` and the class that encrypts what a `MultiEndpointHandler` sends.  The session keys
of the two directions are exchanged by requests with the fixed identifier `SESSION_KEY_RPCID`.
-/

namespace Wga

/-- `memcpy` of `n` bytes from the start of `s`. -/
def ByteArr.copy (n : Nat) (s : Bytes) : ByteArr n :=
  ⟨(s ++ List.replicate n 0).take n, by simp⟩

/-- `emptySessionKey`. -/
def emptySessionKey : SessionKey := List.Vector.replicate 32 0

/-- The members of `CryptoHandler`. -/
structure CryptoHandler where
  myPublicKey : PublicKey
  myPrivateKey : PrivateKey
  otherPublicKey : PublicKey
  outgoingSessionKey : SessionKey
  incomingSessionKey : SessionKey

namespace CryptoHandler

variable (L : Libraries)

def new (myPrivateKey : PrivateKey) (otherPublicKey : PublicKey) : CryptoHandler where
  myPublicKey := L.scalarmultBase myPrivateKey
  myPrivateKey := myPrivateKey
  otherPublicKey := otherPublicKey
  outgoingSessionKey := emptySessionKey
  incomingSessionKey := emptySessionKey

def canDecrypt (c : CryptoHandler) : Bool := c.incomingSessionKey ≠ emptySessionKey
def canEncrypt (c : CryptoHandler) : Bool := c.outgoingSessionKey ≠ emptySessionKey

def keyToString {n : Nat} (key : ByteArr n) : Bytes := L.encode key.toList

def stringToKey (n : Nat) (s : Bytes) : Except Fault (ByteArr n) :=
  match L.decode s with
  | none => .error (.thrown "cppcodec::parse_error")
  | some v =>
      if v.length ≠ n then .error (.fatal "Decoded string is of the wrong size: ")
      else .ok (ByteArr.copy n v)

/-- `generateOutgoingSessionKey`; `key` and `nonce` are what `randombytes_buf` drew. -/
def generateOutgoingSessionKey (key : SessionKey) (nonce : Nonce) (c : CryptoHandler) :
    Except Fault (EncryptedSessionKey × CryptoHandler) :=
  if c.outgoingSessionKey ≠ emptySessionKey then
    .error (.fatal "Tried to generate a session key when one already exists!")
  else
    .ok (⟨nonce.toList ++ (L.box key nonce c.otherPublicKey c.myPrivateKey).toList, by simp⟩,
      { c with outgoingSessionKey := key })

/-- `receiveIncomingSessionKey`; a box that does not open leaves the key as it was. -/
def receiveIncomingSessionKey (otherSessionKey : EncryptedSessionKey) (c : CryptoHandler) :
    Except Fault (Bool × CryptoHandler) :=
  if c.incomingSessionKey ≠ emptySessionKey then
    .error (.fatal "Tried to receive a session key when one already exists!")
  else
    match L.boxOpen (ByteArr.copy 48 (otherSessionKey.toList.drop 24))
        (ByteArr.copy 24 otherSessionKey.toList) c.otherPublicKey c.myPrivateKey with
    | none => .ok (false, c)
    | some key => .ok (true, { c with incomingSessionKey := key })

/-- `encrypt`: the nonce, and the box sealed with it. -/
def encrypt (buffer : Bytes) (nonce : Nonce) (c : CryptoHandler) : Except Fault Bytes :=
  if c.outgoingSessionKey = emptySessionKey then
    .error (.fatal "Tried to use a session key when one doesn't exist!")
  else .ok (nonce.toList ++ L.secretbox buffer nonce c.outgoingSessionKey)

/-- What a buffer opens to under a session key: `none` when it is shorter than a nonce and an
authenticator, or when the authenticator is wrong. -/
def openSecret (key : SessionKey) (buffer : Bytes) : Option Bytes :=
  if buffer.length < 24 + 16 then none
  else L.secretboxOpen (buffer.drop 24) (ByteArr.copy 24 buffer) key

/-- `decrypt`: `none` where the box does not open. -/
def decrypt (buffer : Bytes) (c : CryptoHandler) : Except Fault (Option Bytes) :=
  if c.incomingSessionKey = emptySessionKey then
    .error (.fatal "Tried to use a session key when one doesn't exist!")
  else .ok (openSecret L c.incomingSessionKey buffer)

end CryptoHandler

/-- `WGA_MAGIC`. -/
def WGA_MAGIC : Bytes := ascii ['W', 'G', 'A', 'M', 'A', 'G', 'I', 'C']

/-- `OK`, the reply to a session key and to a one-way request. -/
def OK : Bytes := ascii ['O', 'K']

/-- An `EncryptedMultiEndpointHandler`. -/
abbrev EncryptedHandler := Self (Handler CryptoHandler)

namespace EncryptedMultiEndpointHandler

variable (L : Libraries)

/-- The constructor. -/
def new (crypto : CryptoHandler) (endpoints : List Endpoint) (now : Int) (flaky : Bool)
    (env : Env) : Except Fault EncryptedHandler := do
  let handler ← MultiEndpointHandler.new endpoints now crypto
  if crypto.canDecrypt || crypto.canEncrypt then
    .error (.fatal "Created endpoint handler with session key")
  else .ok ⟨BiDirectionalRpc.new flaky, handler, env⟩

def readyToReceive (self : EncryptedHandler) : Bool :=
  self.sub.derived.canDecrypt && self.sub.derived.canEncrypt

/-- `readyToSend`: the exchange of keys is finished on this side. -/
def readyToSend (self : EncryptedHandler) : Bool :=
  if SESSION_KEY_RPCID ∈ self.rpc.outgoingRequests then false
  else if SESSION_KEY_RPCID ∈ self.rpc.outgoingReplies then false
  else readyToReceive self

def send (message : Bytes) (self : EncryptedHandler) : Except Fault EncryptedHandler :=
  MultiEndpointHandler.send (WGA_MAGIC ++ message) self

/-- `cryptoHandler->encrypt`. -/
def encrypt (buffer : Bytes) (self : EncryptedHandler) :
    Except Fault (Bytes × EncryptedHandler) := do
  let (nonce, self) := self.nonce
  let s ← self.sub.derived.encrypt L buffer nonce
  .ok (s, self)

/-- `sendSessionKey`; `key` is the session key `randombytes_buf` drew. -/
def sendSessionKey (key : SessionKey) (self : EncryptedHandler) :
    Except Fault EncryptedHandler := do
  let (nonce, self) := self.nonce
  let (encryptedKey, crypto) ← self.sub.derived.generateOutgoingSessionKey L key nonce
  let payload := L.pack
    [.str (CryptoHandler.keyToString L crypto.myPublicKey),
     .str (CryptoHandler.keyToString L encryptedKey)]
  BiDirectionalRpc.requestWithId L send ⟨SESSION_KEY_RPCID, payload⟩
    { self with
      sub.derived := crypto
      rpc.oneWayRequests := insert SESSION_KEY_RPCID self.rpc.oneWayRequests }

def requestWithId (idPayload : IdPayload) (self : EncryptedHandler) :
    Except Fault EncryptedHandler := do
  if !readyToSend self then .error (.fatal "Tried to send data before we were ready: ")
  else
    let (payload, self) ← encrypt L idPayload.payload self
    BiDirectionalRpc.requestWithId L send ⟨idPayload.id, payload⟩ self

def reply (rpcId : RpcId) (payload : Bytes) (self : EncryptedHandler) :
    Except Fault EncryptedHandler := do
  if !readyToReceive self then
    .error (.fatal "Got reply before we were ready, something went wrong ")
  else
    let (encryptedPayload, self) ← encrypt L payload self
    BiDirectionalRpc.reply L send rpcId encryptedPayload self

/-- `addIncomingRequest` of a request with the identifier `SESSION_KEY_RPCID`. -/
def addSessionKey (idPayload : IdPayload) (self : EncryptedHandler) :
    Except Fault EncryptedHandler := do
  if self.sub.derived.canDecrypt then
    -- we already got the key, skipping request
    .ok self
  else
    let reader := MessageReader.load L.toMsgpack idPayload.payload
    let (s, reader) ← reader.readString
    let publicKey ← CryptoHandler.stringToKey L 32 s
    if publicKey ≠ self.sub.derived.otherPublicKey then
      -- somehow got the wrong public key
      .ok self
    else
      let (s, _) ← reader.readString
      let encryptedSessionKey ← CryptoHandler.stringToKey L 72 s
      let (result, crypto) ←
        self.sub.derived.receiveIncomingSessionKey L encryptedSessionKey
      if !result then
        -- invalid session key
        .ok self
      else
        let self ← BiDirectionalRpc.addIncomingRequest idPayload
          { self with sub.derived := crypto }
        reply L idPayload.id OK self

def addIncomingRequest (idPayload : IdPayload) (self : EncryptedHandler) :
    Except Fault EncryptedHandler := do
  if idPayload.id = SESSION_KEY_RPCID then addSessionKey L idPayload self
  else if !readyToReceive self then
    -- tried to receive data before we were ready
    .ok self
  else
    match ← self.sub.derived.decrypt L idPayload.payload with
    | none => .ok self
    | some payload => BiDirectionalRpc.addIncomingRequest ⟨idPayload.id, payload⟩ self

def addIncomingReply (uid : RpcId) (payload : Bytes) (self : EncryptedHandler) :
    Except Fault EncryptedHandler := do
  if !readyToSend self then
    -- got reply before we were ready, something went wrong
    .ok self
  else
    match ← self.sub.derived.decrypt L payload with
    | none => .ok self
    | some payload => BiDirectionalRpc.addIncomingReply uid payload self

def sendAcknowledge (uid : RpcId) (self : EncryptedHandler) :
    Except Fault EncryptedHandler := do
  let (payload, self) ← encrypt L ACK_OK self
  send (L.pack (BiDirectionalRpc.acknowledgeObjects uid payload)) self

/-- `validatePacket` of this class; no method calls it. -/
def validatePacket (rpcId : RpcId) (payload : Bytes) (self : EncryptedHandler) :
    Except Fault Bool := do
  if rpcId = SESSION_KEY_RPCID then .ok true
  else if !self.sub.derived.canDecrypt then .ok false
  else
    let opened ← self.sub.derived.decrypt L payload
    .ok opened.isSome

def handleReply : RpcId → Bytes → Int → Int → EncryptedHandler → Except Fault EncryptedHandler :=
  MultiEndpointHandler.handleReply
    (BiDirectionalRpc.handleReply L send (sendAcknowledge L) (addIncomingReply L))

/-- The methods an object of this class dispatches to. -/
def virtuals : Virtuals (Handler CryptoHandler) where
  send := send
  sendAcknowledge := sendAcknowledge L
  requestWithId := requestWithId L
  reply := reply L
  addIncomingRequest := addIncomingRequest L
  addIncomingReply := addIncomingReply L
  handleReply := handleReply L
  readyToSend := readyToSend

def receive (message : Bytes) (self : EncryptedHandler) :
    Except Fault (Bool × EncryptedHandler) :=
  BiDirectionalRpc.receive L (virtuals L) message self

end EncryptedMultiEndpointHandler

end Wga
