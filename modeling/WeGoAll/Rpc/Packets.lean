import WeGoAll.Base.BiDirectionalRpc
import WeGoAll.Support.Except

/-!
# Rpc — Packets

The three kinds of packet as data, what the sending methods put into them, and what `receive`
makes of them.

* `sendRequest_eq`, `sendReply_ok`: a batched packet is its first entry followed by current
  entries of the table.
* `receive_eq`: a packet is its entries, handled one after the other.
-/

namespace Wga

/-- An entry of a `REPLY` packet. -/
structure ReplyEntry where
  id : RpcId
  requestReceiveTime : Int
  replySendTime : Int
  payload : Bytes
  deriving DecidableEq

/-- A packet. -/
inductive Packet where
  | request (entries : List IdPayload)
  | reply (entries : List ReplyEntry)
  | acknowledge (uid : RpcId) (payload : Bytes)
  deriving DecidableEq

namespace Packet

open BiDirectionalRpc

def entryObjects (e : IdPayload) : List MsgObject := requestObjects e.id e.payload

def replyEntryObjects (e : ReplyEntry) : List MsgObject :=
  replyObjects e.id e.requestReceiveTime e.replySendTime e.payload

/-- The objects of a packet. -/
def objects : Packet → List MsgObject
  | .request entries => .byte REQUEST :: entries.flatMap entryObjects
  | .reply entries => .byte REPLY :: entries.flatMap replyEntryObjects
  | .acknowledge uid payload => acknowledgeObjects uid payload

theorem entryObjects_injective {es es' : List IdPayload}
    (h : es.flatMap entryObjects = es'.flatMap entryObjects) : es = es' := by
  induction es generalizing es' with
  | nil =>
      cases es' with
      | nil => rfl
      | cons e es' => cases h
  | cons e es ih =>
      cases es' with
      | nil => cases h
      | cons e' es' =>
          simp only [List.flatMap_cons, entryObjects, requestObjects, List.cons_append,
            List.nil_append, List.cons.injEq, MsgObject.rpcId, MsgObject.str.injEq] at h
          obtain ⟨hid, hp, h⟩ := h
          have heid := congrArg RpcId.ofMemory hid
          rw [RpcId.ofMemory_memory, RpcId.ofMemory_memory] at heid
          obtain ⟨id, p⟩ := e
          obtain ⟨id', p'⟩ := e'
          cases heid
          cases hp
          rw [ih h]

/-- Only a packet of requests has the objects of one. -/
theorem eq_request {p : Packet} {es : List IdPayload}
    (h : p.objects = (request es).objects) : p = .request es := by
  cases p with
  | request es' => rw [entryObjects_injective (List.cons.inj h).2]
  | reply es' =>
      have h₁ : MsgObject.byte REPLY = .byte REQUEST := (List.cons.inj h).1
      exact absurd h₁ (by decide)
  | acknowledge uid payload =>
      have h₁ : MsgObject.byte ACKNOWLEDGE = .byte REQUEST := (List.cons.inj h).1
      exact absurd h₁ (by decide)

/-- Only an acknowledgement has the objects of one. -/
theorem eq_acknowledge {p : Packet} {uid : RpcId} {payload : Bytes}
    (h : p.objects = acknowledgeObjects uid payload) : p = .acknowledge uid payload := by
  cases p with
  | request entries =>
      have h₁ : MsgObject.byte REQUEST = .byte ACKNOWLEDGE := (List.cons.inj h).1
      exact absurd h₁ (by decide)
  | reply entries =>
      have h₁ : MsgObject.byte REPLY = .byte ACKNOWLEDGE := (List.cons.inj h).1
      exact absurd h₁ (by decide)
  | acknowledge uid' payload' =>
      simp only [objects, acknowledgeObjects, List.cons.injEq, MsgObject.rpcId,
        MsgObject.str.injEq, and_true, true_and] at h
      obtain ⟨hid, rfl⟩ := h
      have huid := congrArg RpcId.ofMemory hid
      rw [RpcId.ofMemory_memory, RpcId.ofMemory_memory] at huid
      rw [huid]

/-- The string a packet is sent as. -/
def message (L : Libraries) (p : Packet) : Bytes := L.pack p.objects

end Packet

namespace BiDirectionalRpc

variable {τ : Type} {L : Libraries} {send : Bytes → Self τ → Except Fault (Self τ)}

/-! ### What is sent -/

/-- The loop that attaches requests packs entries of the table and changes nothing but the
numbers drawn. -/
theorem attach_request (table : List (Σ _ : RpcId, Bytes)) (fuel : Nat) (sent : List RpcId)
    (writer : List MsgObject) (self : Self τ) :
    ∃ (es : List IdPayload) (env : Env), (∀ e ∈ es, ⟨e.id, e.payload⟩ ∈ table) ∧
      attach L table (fun id payload self => .ok (requestObjects id payload, self)) fuel sent
        writer self = .ok (writer ++ es.flatMap Packet.entryObjects, { self with env := env }) := by
  induction fuel generalizing sent writer self with
  | zero => exact ⟨[], self.env, by simp, by simp [attach]⟩
  | succ fuel ih =>
      have stop : ∀ env : Env, ∃ (es : List IdPayload) (env' : Env),
          (∀ e ∈ es, ⟨e.id, e.payload⟩ ∈ table) ∧
          (Except.ok (writer, { self with env := env }) : Except Fault _) =
            .ok (writer ++ es.flatMap Packet.entryObjects, { self with env := env' }) :=
        fun env => ⟨[], env, by simp, by simp⟩
      rw [attach]
      split
      · simp only [Self.rand]
        split
        · exact stop _
        · rename_i id payload hget
          split
          · exact stop _
          · split
            · exact stop _
            · obtain ⟨es, env, hes, he⟩ := ih (id :: sent) (writer ++ requestObjects id payload)
                { self with env.rand := fun n => self.env.rand (n + 1) }
              refine ⟨⟨id, payload⟩ :: es, env, fun e h => ?_, ?_⟩
              · rcases List.mem_cons.mp h with rfl | h
                · exact List.mem_of_getElem? hget
                · exact hes e h
              · rw [ok_bind, he]
                simp [Packet.entryObjects, requestObjects]
      · exact stop self.env

/-- **What `sendRequest` sends**: the request it is given and current entries of
`outgoingRequests`. -/
theorem sendRequest_eq (L : Libraries) (send : Bytes → Self τ → Except Fault (Self τ))
    (id : RpcId) (payload : Bytes) (batch : Bool) (self : Self τ) :
    ∃ (es : List IdPayload) (env : Env),
      (∀ e ∈ es, ⟨e.id, e.payload⟩ ∈ self.rpc.outgoingRequests.entries) ∧
      sendRequest L send id payload batch self =
        send ((Packet.request (⟨id, payload⟩ :: es)).message L) { self with env := env } := by
  cases batch with
  | false => exact ⟨[], self.env, by simp, rfl⟩
  | true =>
      obtain ⟨es, env, hes, he⟩ := attach_request (L := L)
        self.rpc.outgoingRequests.entries self.rpc.outgoingRequests.entries.length [id]
        (.byte REQUEST :: requestObjects id payload) self
      refine ⟨es, env, hes, ?_⟩
      simp only [sendRequest, if_true, he, ok_bind]
      rfl

theorem writeReply_ok {id : RpcId} {payload : Bytes} {self : Self τ}
    {r : List MsgObject × Self τ} (h : writeReply id payload self = .ok r) :
    ∃ (e : ReplyEntry) (env : Env), e.id = id ∧ e.payload = payload ∧
      r = (Packet.replyEntryObjects e, { self with env := env }) := by
  simp only [writeReply, Self.now, bind_ok] at h
  obtain ⟨⟨t₁, t₂⟩, -, h⟩ := h
  cases h
  exact ⟨⟨id, t₁, t₂, payload⟩, _, rfl, rfl, rfl⟩

/-- The loop that attaches replies packs entries of the table and changes nothing but the values
drawn. -/
theorem attach_reply {table : List (Σ _ : RpcId, Bytes)} (fuel : Nat) (sent : List RpcId)
    (writer : List MsgObject) (self : Self τ) {r : List MsgObject × Self τ}
    (h : attach L table writeReply fuel sent writer self = .ok r) :
    ∃ (es : List ReplyEntry) (env : Env), (∀ e ∈ es, ⟨e.id, e.payload⟩ ∈ table) ∧
      r = (writer ++ es.flatMap Packet.replyEntryObjects, { self with env := env }) := by
  induction fuel generalizing sent writer self with
  | zero =>
      cases h
      exact ⟨[], self.env, by simp, by simp⟩
  | succ fuel ih =>
      rw [attach] at h
      split at h
      · simp only [Self.rand] at h
        split at h
        · cases h
          exact ⟨[], _, by simp, by simp; rfl⟩
        · rename_i id payload hget
          split at h
          · cases h
            exact ⟨[], _, by simp, by simp; rfl⟩
          · split at h
            · cases h
              exact ⟨[], _, by simp, by simp; rfl⟩
            · rw [bind_ok] at h
              obtain ⟨_, hw, h⟩ := h
              obtain ⟨e, env₁, rfl, rfl, rfl⟩ := writeReply_ok hw
              obtain ⟨es, env, hes, rfl⟩ := ih _ _ _ h
              refine ⟨e :: es, env, fun a ha => ?_, by simp⟩
              rcases List.mem_cons.mp ha with rfl | ha
              · exact List.mem_of_getElem? hget
              · exact hes a ha
      · cases h
        exact ⟨[], self.env, by simp, by simp⟩

/-- **What `sendReply` sends**: the reply it is given and current entries of `outgoingReplies`. -/
theorem sendReply_ok {id : RpcId} {payload : Bytes} {batch : Bool} {self self' : Self τ}
    (h : sendReply L send id payload batch self = .ok self') :
    ∃ (e : ReplyEntry) (es : List ReplyEntry) (env : Env), e.id = id ∧ e.payload = payload ∧
      (∀ e ∈ es, ⟨e.id, e.payload⟩ ∈ self.rpc.outgoingReplies.entries) ∧
      send ((Packet.reply (e :: es)).message L) { self with env := env } = .ok self' := by
  cases batch with
  | false =>
      simp only [sendReply, bind_ok, Bool.false_eq_true, if_false, ok_bind] at h
      obtain ⟨_, hw, h⟩ := h
      obtain ⟨e, env, rfl, rfl, rfl⟩ := writeReply_ok hw
      refine ⟨e, [], env, rfl, rfl, by simp, ?_⟩
      simpa [Packet.message, Packet.objects] using h
  | true =>
      simp only [sendReply, bind_ok, if_true] at h
      obtain ⟨_, hw, _, ha, h⟩ := h
      obtain ⟨e, _, rfl, rfl, rfl⟩ := writeReply_ok hw
      obtain ⟨es, env, hes, rfl⟩ := attach_reply _ _ _ _ ha
      refine ⟨e, es, env, rfl, rfl, hes, ?_⟩
      simpa [Packet.message, Packet.objects] using h

/-! ### What is received -/

variable {V : Virtuals τ}

/-- The requests of a packet, handled one after the other. -/
def handleRequests (L : Libraries) (V : Virtuals τ) (entries : List IdPayload)
    (self : Self τ) : Except Fault (Self τ) :=
  entries.foldlM (fun self e =>
    handleRequest L V.send V.addIncomingRequest V.reply e.id e.payload self) self

/-- The value an `int64_t` of a packet comes back as. -/
def int64Of (v : Int) : Int := v.bmod (2 ^ 64)

/-- The replies of a packet, handled one after the other. -/
def handleReplies (V : Virtuals τ) (entries : List ReplyEntry) (self : Self τ) :
    Except Fault (Self τ) :=
  entries.foldlM (fun self e =>
    V.handleReply e.id e.payload (int64Of e.requestReceiveTime) (int64Of e.replySendTime) self)
    self

theorem receiveRequests_eq (entries : List IdPayload) (self : Self τ) {fuel : Nat}
    (hf : entries.length < fuel) :
    receiveRequests L V fuel ⟨entries.flatMap Packet.entryObjects, .finished⟩ self =
      (handleRequests L V entries self).map fun self => (true, self) := by
  induction entries generalizing self fuel with
  | nil =>
      obtain ⟨fuel, rfl⟩ : ∃ n, fuel = n + 1 := ⟨fuel - 1, by simp at hf; omega⟩
      rfl
  | cons e entries ih =>
      obtain ⟨fuel, rfl⟩ : ∃ n, fuel = n + 1 := ⟨fuel - 1, by simp at hf; omega⟩
      have hlt : entries.length < fuel := by simp at hf; omega
      simp only [receiveRequests, List.flatMap_cons, Packet.entryObjects, requestObjects,
        List.cons_append, List.nil_append, MessageReader.sizeRemaining_cons, if_true,
        MessageReader.readRpcId_rpcId, MessageReader.readString_str, ok_bind, validatePacket,
        Bool.not_true, Bool.false_eq_true, if_false, handleRequests, List.foldlM_cons]
      cases h : handleRequest L V.send V.addIncomingRequest V.reply e.id e.payload self with
      | error f => rfl
      | ok self₁ => exact ih self₁ hlt

theorem receiveReplies_eq (entries : List ReplyEntry) (self : Self τ) {fuel : Nat}
    (hf : entries.length < fuel) :
    receiveReplies V fuel ⟨entries.flatMap Packet.replyEntryObjects, .finished⟩ self =
      (handleReplies V entries self).map fun self => (true, self) := by
  induction entries generalizing self fuel with
  | nil =>
      obtain ⟨fuel, rfl⟩ : ∃ n, fuel = n + 1 := ⟨fuel - 1, by simp at hf; omega⟩
      rfl
  | cons e entries ih =>
      obtain ⟨fuel, rfl⟩ : ∃ n, fuel = n + 1 := ⟨fuel - 1, by simp at hf; omega⟩
      have hlt : entries.length < fuel := by simp at hf; omega
      simp only [receiveReplies, List.flatMap_cons, Packet.replyEntryObjects, replyObjects,
        List.cons_append, List.nil_append, MessageReader.sizeRemaining_cons, if_true,
        MessageReader.readRpcId_rpcId, MessageReader.readInt64_int64,
        MessageReader.readString_str, ok_bind, validatePacket, Bool.not_true,
        Bool.false_eq_true, if_false, handleReplies, List.foldlM_cons]
      cases h : V.handleReply e.id e.payload (e.requestReceiveTime.bmod (2 ^ 64))
          (e.replySendTime.bmod (2 ^ 64)) self with
      | error f => simp only [int64Of, h]; rfl
      | ok self₁ =>
          simp only [int64Of, h, ok_bind]
          exact ih self₁ hlt

/-! ### The value `receive` returns -/

theorem receiveRequests_true {fuel : Nat} {reader : MessageReader} {self self' : Self τ}
    {b : Bool} (h : receiveRequests L V fuel reader self = .ok (b, self')) : b = true := by
  induction fuel generalizing reader self with
  | zero =>
      cases h
      rfl
  | succ fuel ih =>
      rw [receiveRequests] at h
      split at h
      · obtain ⟨_, -, h⟩ := bind_ok.mp h
        obtain ⟨_, -, h⟩ := bind_ok.mp h
        obtain ⟨_, -, h⟩ := bind_ok.mp h
        exact ih h
      · cases h
        rfl

theorem receiveReplies_true {fuel : Nat} {reader : MessageReader} {self self' : Self τ}
    {b : Bool} (h : receiveReplies V fuel reader self = .ok (b, self')) : b = true := by
  induction fuel generalizing reader self with
  | zero =>
      cases h
      rfl
  | succ fuel ih =>
      rw [receiveReplies] at h
      split at h
      · obtain ⟨_, -, h⟩ := bind_ok.mp h
        obtain ⟨_, -, h⟩ := bind_ok.mp h
        obtain ⟨_, -, h⟩ := bind_ok.mp h
        obtain ⟨_, -, h⟩ := bind_ok.mp h
        obtain ⟨_, -, h⟩ := bind_ok.mp h
        exact ih h
      · cases h
        rfl

/-- **`receive` never returns false**: the `validatePacket` it calls accepts every entry. -/
theorem receive_true {message : Bytes} {self self' : Self τ} {b : Bool}
    (h : receive L V message self = .ok (b, self')) : b = true := by
  obtain ⟨⟨header, reader⟩, -, h⟩ := bind_ok.mp h
  dsimp only at h
  split at h
  · cases h
    rfl
  · split at h
    · exact receiveRequests_true h
    · split at h
      · exact receiveReplies_true h
      · split at h
        · obtain ⟨_, -, h⟩ := bind_ok.mp h
          obtain ⟨_, -, h⟩ := bind_ok.mp h
          obtain ⟨_, -, h⟩ := bind_ok.mp h
          cases h
          rfl
        · cases h

@[simp] theorem flake_sub (s : Self τ) : (flake s).2.sub = s.sub := by
  simp only [flake]
  split <;> rfl

@[simp] theorem flake_rpc (s : Self τ) : (flake s).2.rpc = s.rpc := by
  simp only [flake]
  split <;> rfl

/-- What a packet does to an object that does not lose it. -/
def handlePacket (L : Libraries) (V : Virtuals τ) (p : Packet) (self : Self τ) :
    Except Fault (Self τ) :=
  match p with
  | .request entries => handleRequests L V entries self
  | .reply entries => handleReplies V entries self
  | .acknowledge uid _ => handleAcknowledge uid self

/-- **A message that unpacks to a packet is that packet's entries, handled in order**, unless the
object pretends to have lost it. -/
theorem receive_eq {message : Bytes} {p : Packet}
    (hp : L.unpack message = ⟨p.objects, .finished⟩) (self : Self τ) :
    receive L V message self =
      if (flake self).1 then .ok (true, (flake self).2)
      else (handlePacket L V p (flake self).2).map fun self => (true, self) := by
  have len₁ : ∀ es : List IdPayload,
      es.length < (es.flatMap Packet.entryObjects).length + 1 := fun es => by
    have : (es.flatMap Packet.entryObjects).length = 2 * es.length := by
      simp [List.length_flatMap, Packet.entryObjects, requestObjects, Nat.mul_comm]
    omega
  have len₂ : ∀ es : List ReplyEntry,
      es.length < (es.flatMap Packet.replyEntryObjects).length + 1 := fun es => by
    have : (es.flatMap Packet.replyEntryObjects).length = 4 * es.length := by
      simp [List.length_flatMap, Packet.replyEntryObjects, replyObjects, Nat.mul_comm]
    omega
  cases p with
  | request entries =>
      simp only [receive, MessageReader.load, hp, Packet.objects,
        MessageReader.readUnsignedChar_byte, ok_bind, handlePacket]
      split
      · rfl
      · simp only [if_true]
        exact receiveRequests_eq entries _ (len₁ entries)
  | reply entries =>
      have hne : ¬ REPLY = REQUEST := by decide
      simp only [receive, MessageReader.load, hp, Packet.objects,
        MessageReader.readUnsignedChar_byte, ok_bind, handlePacket, hne, if_false]
      split
      · rfl
      · simp only [if_true]
        exact receiveReplies_eq entries _ (len₂ entries)
  | acknowledge uid payload =>
      have hne : ¬ ACKNOWLEDGE = REQUEST := by decide
      have hne' : ¬ ACKNOWLEDGE = REPLY := by decide
      simp only [receive, MessageReader.load, hp, Packet.objects, acknowledgeObjects,
        MessageReader.readUnsignedChar_byte, ok_bind, handlePacket, hne, hne', if_false]
      split
      · rfl
      · simp only [if_true, receiveAcknowledge, MessageReader.readRpcId_rpcId,
          MessageReader.readString_str, ok_bind, validatePacket, Bool.not_true,
          Bool.false_eq_true, if_false]
        cases handleAcknowledge uid (flake self).2 <;> rfl

end BiDirectionalRpc

end Wga
