import WeGoAll.Base.MultiEndpointHandler
import WeGoAll.Support.Loops

/-!
# Base — StunClient

The client that asks STUN servers for the endpoint they see: its decoders, its requests, and the
receive it keeps pending while it has requests.  Timers and what they send again are left out.

A decoder is a pair of pointers into `rx_buffer`.  Here they are offsets from its first byte, and
the decoder records which bytes it has read.
-/

namespace Wga

/-- `udp::endpoint` of either family. -/
inductive IpEndpoint where
  | v4 (e : Endpoint)
  | v6 (address : ByteArr 16) (port : UInt16)
  deriving DecidableEq

/-- `Endpoint()`. -/
def IpEndpoint.unspecified : IpEndpoint := .v4 {}

/-- The bytes from the first of `rx_buffer` on.  A datagram overwrites the first of them; the others
are what they were. -/
abbrev Memory := Nat → UInt8

/-- `b₀ << 8 | b₁`. -/
def uint16 (b₀ b₁ : UInt8) : UInt16 := b₀.toUInt16 <<< 8 ||| b₁.toUInt16

/-- `b₀ << 24 | b₁ << 16 | b₂ << 8 | b₃`. -/
def uint32 (b₀ b₁ b₂ b₃ : UInt8) : UInt32 :=
  b₀.toUInt32 <<< 24 ||| b₁.toUInt32 <<< 16 ||| b₂.toUInt32 <<< 8 ||| b₃.toUInt32

namespace Memory

def uint16 (m : Memory) (i : Nat) : UInt16 := Wga.uint16 (m i) (m (i + 1))

def uint32 (m : Memory) (i : Nat) : UInt32 :=
  Wga.uint32 (m i) (m (i + 1)) (m (i + 2)) (m (i + 3))

end Memory

structure Decoder where
  start : Nat
  stop : Nat
  wasError : Bool
  /-- The offsets read, oldest first. -/
  reads : List Nat
  deriving DecidableEq, Repr

namespace Decoder

/-- `decoder(begin, size)`. -/
def new (start size : Nat) : Decoder := ⟨start, start + size, false, []⟩

def size (d : Decoder) : Nat := d.stop - d.start

def setError (d : Decoder) : Decoder := { d with wasError := true }

def skip (n : Nat) (d : Decoder) : Decoder :=
  if d.size < n ∨ d.wasError then d.setError else { d with start := d.start + n }

/-- What the getters share: `n` bytes are read, or there is an error and none is. -/
def get {α : Type} (n : Nat) (value zero : α) (d : Decoder) : α × Decoder :=
  if d.size < n ∨ d.wasError then (zero, d.setError)
  else (value, { d with start := d.start + n, reads := d.reads ++ List.range' d.start n })

/-- `get<uint8_t>`. -/
def getUint8 (m : Memory) (d : Decoder) : UInt8 × Decoder := get 1 (m d.start) 0 d

/-- `get<uint16_t>`. -/
def getUint16 (m : Memory) (d : Decoder) : UInt16 × Decoder := get 2 (m.uint16 d.start) 0 d

/-- `get<uint32_t>`. -/
def getUint32 (m : Memory) (d : Decoder) : UInt32 × Decoder := get 4 (m.uint32 d.start) 0 d

/-- `get_raw` into the bytes of an `address_v6`. -/
def getRaw (m : Memory) (d : Decoder) : ByteArr 16 × Decoder :=
  get 16 (.ofFn fun i => m (d.start + i)) (.replicate 16 0) d

end Decoder

/-- `bitset<2>`: the bits 0 and 1. -/
abbrev Bitset2 := Bool × Bool

def SUCCESS_CLASS : Bitset2 := (false, true)
def BIND_METHOD : UInt16 := 0x001
def COOKIE : UInt32 := 0x2112A442
def HEADER_SIZE : Nat := 20
def ATTRIB_UNKNOWN : UInt16 := 0x0000
def ATTRIB_MAPPED_ADDRESS : UInt16 := 0x0001
def ATTRIB_XOR_MAPPED_ADDRESS : UInt16 := 0x0020

/-- `data & (1 << k)`. -/
def bit (data k : UInt16) : UInt16 := data &&& (1 <<< k)

def decodeMethod (data : UInt16) : UInt16 :=
  bit data 0 ||| bit data 1 ||| bit data 2 ||| bit data 3
    ||| (bit data 5 >>> 1) ||| (bit data 6 >>> 1) ||| (bit data 7 >>> 1)
    ||| (bit data 9 >>> 2) ||| (bit data 10 >>> 2)
    ||| (bit data 11 >>> 1) ||| (bit data 12 >>> 2) ||| (bit data 13 >>> 2)

def decodeClass (data : UInt16) : Bitset2 := (bit data 4 != 0, bit data 8 != 0)

def decodePlex (data : UInt16) : Bitset2 := (bit data 14 != 0, bit data 15 != 0)

structure Attribute where
  type : UInt16
  length : UInt16
  /-- `data`; the source leaves it unset where the decoder has an error. -/
  data : Nat

def decodeAttribute (m : Memory) (d : Decoder) : Attribute × Decoder :=
  let (type, d) := d.getUint16 m
  let (length, d) := d.getUint16 m
  if d.wasError then (⟨ATTRIB_UNKNOWN, 0, d.start⟩, d) else (⟨type, length, d.start⟩, d)

def decodeMappedAddress (m : Memory) (d : Decoder) : IpEndpoint × Decoder :=
  let d := d.skip 1
  let (family, d) := d.getUint8 m
  let (port, d) := d.getUint16 m
  if d.wasError then (.unspecified, d)
  else if family = 0x01 then
    let (addr, d) := d.getUint32 m
    (.v4 ⟨addr, port⟩, d)
  else if family = 0x02 then
    let (addr, d) := d.getRaw m
    (.v6 addr port, d)
  else (.unspecified, d.setError)

def decodeXorMappedAddress (m : Memory) (d : Decoder) : Except Fault IpEndpoint × Decoder :=
  let d := d.skip 1
  let (family, d) := d.getUint8 m
  let (port, d) := d.getUint16 m
  if d.wasError then (.ok .unspecified, d)
  else if family = 0x01 then
    let (addr, d) := d.getUint32 m
    (.ok (.v4 ⟨addr ^^^ COOKIE, port ^^^ (COOKIE >>> 16).toUInt16⟩), d)
  else if family = 0x02 then (.error (.fatal "Not implemented yet"), d)
  else (.ok .unspecified, d.setError)

/-- What the loop over the attributes leaves: the endpoint found, if any, and the offsets read. -/
structure Scan where
  found : Except Fault (Option IpEndpoint)
  reads : List Nat

namespace StunClient

/-- The body of the loop over the attributes, with its test. -/
def nextAttribute (m : Memory) (d : Decoder) : Scan ⊕ Decoder :=
  if d.wasError then .inl ⟨.ok none, d.reads⟩
  else
    let (a, d) := decodeAttribute m d
    if d.wasError then .inl ⟨.ok none, d.reads⟩
    else
      let dd := Decoder.new a.data a.length.toNat
      if a.type = ATTRIB_MAPPED_ADDRESS then
        let (ep, dd) := decodeMappedAddress m dd
        .inl ⟨.ok (if dd.wasError then none else some ep), d.reads ++ dd.reads⟩
      else if a.type = ATTRIB_XOR_MAPPED_ADDRESS then
        let (ep, dd) := decodeXorMappedAddress m dd
        .inl ⟨ep.map fun ep => if dd.wasError then none else some ep, d.reads ++ dd.reads⟩
      else .inr d

/-- The loop over the attributes.  The bound on its iterations is never met. -/
def attributes (m : Memory) (d : Decoder) : Scan :=
  iterate (nextAttribute m) (fun d => ⟨.ok none, d.reads⟩) (d.size + 1) d

/-- An `asio::error_code`. -/
inductive ErrorCode where
  | success
  | fault
  | operationNotSupported
  | operationAborted
  /-- Another one. -/
  | other (value : Nat)
  deriving DecidableEq

/-- What `on_recv` makes of a datagram. -/
inductive Verdict where
  | rejected (error : ErrorCode)
  | multiplexed
  | scanned (found : Except Fault (Option IpEndpoint))

/-- The part of `on_recv` that decodes a datagram of `size` bytes, and the offsets it reads. -/
def decodeResponse (m : Memory) (size : Nat) : Verdict × List Nat :=
  if size < HEADER_SIZE then (.rejected .fault, [])
  else
    let header := Decoder.new 0 size
    let (methodAndClass, header) := header.getUint16 m
    let plex := decodePlex methodAndClass
    let method := decodeMethod methodAndClass
    let class_ := decodeClass methodAndClass
    let (length, header) := header.getUint16 m
    let (cookie, header) := header.getUint32 m
    let header := header.skip 12
    if header.wasError then (.rejected .operationNotSupported, header.reads)
    else if plex ≠ (false, false) then (.multiplexed, header.reads)
    else if cookie ≠ COOKIE then (.rejected .fault, header.reads)
    else if method ≠ BIND_METHOD then (.rejected .operationNotSupported, header.reads)
    else if class_ ≠ SUCCESS_CLASS then (.rejected .fault, header.reads)
    else
      let scan := attributes m (.new header.start length.toNat)
      (.scanned scan.found, header.reads ++ scan.reads)

end StunClient

/-- `RequestID`. -/
abbrev RequestId := ByteArr 12

/-- A handler is known by a number. -/
structure StunRequest where
  id : RequestId
  handler : Nat
  txEndpoint : IpEndpoint
  deriving DecidableEq

/-- A handler posted with its arguments. -/
structure Posted where
  handler : Nat
  error : StunClient.ErrorCode
  reflected : IpEndpoint
  deriving DecidableEq

structure StunClient where
  requests : UnorderedMap IpEndpoint StunRequest
  wasDestroyed : Bool
  requestCount : Nat
  /-- How many receives are pending. -/
  receives : Nat
  /-- The datagrams sent. -/
  sent : List (IpEndpoint × Bytes)
  posted : List Posted

namespace StunClient

/-- The constructor. -/
def new : StunClient := ⟨∅, false, 0, 0, [], []⟩

/-- `Request::exec`. -/
def exec (request : StunRequest) (error : ErrorCode) (reflected : IpEndpoint)
    (self : StunClient) : StunClient :=
  { self with posted := self.posted ++ [⟨request.handler, error, reflected⟩] }

/-- `State::destroy_requests`; every request has a handler, and their order plays no part. -/
def destroyRequests (error : ErrorCode) (self : StunClient) : StunClient :=
  { self.requests.entries.foldl (fun self x => exec x.2 error .unspecified self) self with
    requests := ∅ }

def startReceiving (self : StunClient) : StunClient :=
  { self with receives := self.receives + 1 }

/-- The datagram of `start_sending`. -/
def bindingRequest (id : RequestId) : Bytes :=
  [0x00, 0x01, 0x00, 0x00, 0x21, 0x12, 0xA4, 0x42] ++ id.toList

def startSending (request : StunRequest) (self : StunClient) : StunClient :=
  { self with sent := self.sent ++ [(request.txEndpoint, bindingRequest request.id)] }

/-- `execute` for the entry of `server`. -/
def execute (server : IpEndpoint) (request : StunRequest) (error : ErrorCode)
    (reflected : IpEndpoint) (self : StunClient) : Except Fault StunClient :=
  if error ≠ .success ∧ reflected ≠ .unspecified then .error (.fatal "Error: ")
  else .ok (exec request error reflected { self with requests := self.requests.erase server })

/-- `reflect`; `id` is what `rand()` drew. -/
def reflect (server : IpEndpoint) (handler : Nat) (id : RequestId) (self : StunClient) :
    Except Fault StunClient :=
  match self.requests.lookup server with
  | some pending => execute server pending .operationAborted .unspecified self
  | none =>
    let request : StunRequest := ⟨id, handler, server⟩
    let self := startSending request
      { self with requests := self.requests.insert server request }
    let before := self.requestCount
    let self := { self with requestCount := self.requestCount + 1 }
    .ok (if before = 0 then startReceiving self else self)

/-- `if (--_request_count) start_receiving(state)`. -/
def countDown (self : StunClient) : StunClient :=
  let self := { self with
    requestCount := if self.requestCount = 0 then 2 ^ 64 - 1 else self.requestCount - 1 }
  if self.requestCount ≠ 0 then startReceiving self else self

/-- `on_recv` of a datagram of `size` bytes from `rxEndpoint`. -/
def onRecv (error : ErrorCode) (rxEndpoint : IpEndpoint) (size : Nat) (m : Memory)
    (self : StunClient) : Except Fault StunClient :=
  if self.wasDestroyed then .ok (destroyRequests .operationAborted self)
  else if error ≠ .success then .ok (destroyRequests error self)
  else
    match self.requests.lookup rxEndpoint with
    | none => .ok (startReceiving self)
    | some request =>
      match (decodeResponse m size).1 with
      | .rejected error => execute rxEndpoint request error .unspecified (countDown self)
      | .multiplexed => .ok (startReceiving self)
      | .scanned found => do
        let self ← match ← found with
          | some ep => execute rxEndpoint request .success ep self
          | none => .ok self
        if self.wasDestroyed then .ok (destroyRequests .operationAborted self)
        else .ok (countDown self)

/-- The destructor. -/
def destroy (self : StunClient) : StunClient := { self with wasDestroyed := true }

end StunClient

end Wga
