import WeGoAll.Rpc.Packets

/-!
# Rpc — Reading

Which bytes `receive` can read.  What a reader returns is the only thing it could have read, so a
message that is read to its end is a packet and nothing else.

* `Packet.Reads`: what a message unpacks to is a packet, with anything behind it if it is an
  acknowledgement.
* `receive_ends_iff`: `receive` ends exactly when the message is lost or is a packet that is
  handled.
-/

namespace Wga

/-! ### Bytes of an identifier -/

theorem littleEndian_ofLittleEndian {k : Nat} {s : Bytes} (h : s.length = k) :
    littleEndian k (ofLittleEndian s) = s := by
  induction s generalizing k with
  | nil =>
      cases h
      rfl
  | cons b s ih =>
      cases h
      have hb := b.toNat_lt
      have hlow : UInt8.ofNat (b.toNat + 256 * ofLittleEndian s) = b := by
        refine UInt8.toNat_inj.mp ?_
        rw [UInt8.toNat_ofNat']
        omega
      have hhigh : (b.toNat + 256 * ofLittleEndian s) / 256 = ofLittleEndian s := by omega
      rw [ofLittleEndian, List.length_cons, littleEndian, hlow, hhigh, ih rfl]

theorem ofLittleEndian_lt (s : Bytes) : ofLittleEndian s < 256 ^ s.length := by
  induction s with
  | nil => exact Nat.one_pos
  | cons b s ih =>
      have hb := b.toNat_lt
      rw [ofLittleEndian, List.length_cons, Nat.pow_succ']
      omega

/-- Sixteen bytes are the memory of the identifier they are copied into. -/
theorem RpcId.memory_ofMemory {s : Bytes} (h : s.length = 16) : (RpcId.ofMemory s).memory = s := by
  have half : ∀ t : Bytes, t.length = 8 →
      littleEndian 8 (UInt64.ofNat (ofLittleEndian t)).toNat = t := by
    intro t ht
    have hlt := ofLittleEndian_lt t
    rw [ht] at hlt
    rw [UInt64.toNat_ofNat', Nat.mod_eq_of_lt (by omega), littleEndian_ofLittleEndian ht]
  simp only [RpcId.memory, RpcId.ofMemory, UInt64.toUInt64_toInt64]
  rw [half _ (by simp [h]), half _ (by simp [h]), List.take_append_drop]

/-! ### Readers -/

namespace MessageReader

variable {r r' : MessageReader}

/-- What a reader read was there, and of the type it converts to. -/
theorem readPrimitive_ok {α : Type} {convert : MsgObject → Option α} {a : α}
    (h : r.readPrimitive convert = .ok (a, r')) :
    ∃ o, convert o = some a ∧ r = ⟨o :: r'.objects, r'.ending⟩ := by
  obtain ⟨n, hn, h⟩ := bind_ok.mp h
  cases n with
  | none => cases h
  | some n =>
      obtain ⟨o, r₁⟩ := n
      dsimp only at h
      split at h
      · cases h
      · rename_i hconv
        cases h
        obtain ⟨objects, ending⟩ := r
        refine ⟨o, hconv, ?_⟩
        cases objects with
        | nil => cases ending <;> cases hn
        | cons a l =>
            cases hn
            rfl

theorem readString_ok {s : Bytes} (h : r.readString = .ok (s, r')) :
    r = ⟨.str s :: r'.objects, r'.ending⟩ := by
  obtain ⟨o, ho, rfl⟩ := readPrimitive_ok h
  cases o <;> cases ho
  rfl

theorem readRpcId_ok {id : RpcId} (h : r.readRpcId = .ok (id, r')) :
    r = ⟨.rpcId id :: r'.objects, r'.ending⟩ := by
  obtain ⟨⟨s, r₁⟩, hs, h⟩ := bind_ok.mp h
  dsimp only at h
  split at h
  · cases h
  · rename_i hlen
    cases h
    rw [readString_ok hs, MsgObject.rpcId, RpcId.memory_ofMemory (not_not.mp hlen)]

theorem readInt64_ok {v : Int} (h : r.readInt64 = .ok (v, r')) :
    r = ⟨.int64 v :: r'.objects, r'.ending⟩ ∧ -2 ^ 63 ≤ v ∧ v < 2 ^ 63 := by
  obtain ⟨o, ho, rfl⟩ := readPrimitive_ok h
  cases o with
  | integer w =>
      simp only [toInt64] at ho
      split at ho
      · rename_i hlt
        cases ho
        have hw : WireInteger.ofInt64 w.val = w := by
          have hval := WireInteger.ofInt64_val w.lower hlt
          obtain ⟨v, hl, hu⟩ := w
          simp only [WireInteger.ofInt64, WireInteger.mk.injEq] at hval ⊢
          exact hval
        exact ⟨by rw [MsgObject.int64, hw], w.lower, hlt⟩
      · cases ho
  | str s => cases ho
  | map m => cases ho
  | other => cases ho

theorem readUnsignedChar_ok {v : UInt8} (h : r.readUnsignedChar = .ok (v, r')) :
    r = ⟨.byte v :: r'.objects, r'.ending⟩ := by
  obtain ⟨o, ho, rfl⟩ := readPrimitive_ok h
  cases o with
  | integer w =>
      simp only [toUnsignedChar] at ho
      split at ho
      · rename_i hw
        cases ho
        obtain ⟨n, hn⟩ := Int.eq_ofNat_of_zero_le hw.1
        have hlt : n < 256 := by omega
        obtain ⟨v, hl, hu⟩ := w
        cases hn
        simp [MsgObject.byte, Nat.mod_eq_of_lt hlt]
      · cases ho
  | str s => cases ho
  | map m => cases ho
  | other => cases ho

end MessageReader

/-! ### Messages -/

/-- What a message unpacks to is the packet; an acknowledgement may have anything behind it. -/
def Packet.Reads (u : Unpacked) : Packet → Prop
  | .request es => u = ⟨(Packet.request es).objects, .finished⟩
  | .reply es => u = ⟨(Packet.reply es).objects, .finished⟩
  | .acknowledge uid payload => (Packet.acknowledge uid payload).objects <+: u.objects

/-- The first object of a message is a byte. -/
def Unpacked.Headed (u : Unpacked) : Prop := ∃ v : UInt8, u.objects.head? = some (.byte v)

/-- A packet is read from its own message. -/
theorem Packet.reads_message (L : Libraries) (p : Packet) : p.Reads (L.unpack (p.message L)) := by
  rw [Packet.message, L.unpack_pack]
  cases p with
  | request | reply => rfl
  | acknowledge => exact List.prefix_rfl

/-- A packet has its kind in front. -/
theorem Packet.Reads.headed {u : Unpacked} {p : Packet} (h : p.Reads u) : u.Headed := by
  cases p with
  | request es =>
      rw [show u = _ from h]
      exact ⟨REQUEST, rfl⟩
  | reply es =>
      rw [show u = _ from h]
      exact ⟨REPLY, rfl⟩
  | acknowledge uid payload =>
      obtain ⟨rest, hrest⟩ := h
      exact ⟨ACKNOWLEDGE, by rw [← hrest]; rfl⟩

/-- Only that acknowledgement is read from the message of one. -/
theorem Packet.Reads.eq_acknowledge {L : Libraries} {p : Packet} {uid : RpcId} {payload : Bytes}
    (h : p.Reads (L.unpack ((Packet.acknowledge uid payload).message L))) :
    p = .acknowledge uid payload := by
  rw [Packet.message, L.unpack_pack] at h
  cases p with
  | request es => exact Packet.eq_acknowledge (congrArg Unpacked.objects h).symm
  | reply es => exact Packet.eq_acknowledge (congrArg Unpacked.objects h).symm
  | acknowledge uid' payload' => exact Packet.eq_acknowledge (List.IsPrefix.eq_of_length h rfl)

namespace BiDirectionalRpc

variable {τ : Type} {L : Libraries} {V : Virtuals τ} {s s' : Self τ} {b : Bool}

theorem sizeRemaining_eq_false {r : MessageReader} (h : ¬ r.sizeRemaining = true) :
    r = ⟨[], .finished⟩ := by
  obtain ⟨objects, ending⟩ := r
  simp only [MessageReader.sizeRemaining, Bool.not_eq_true, Bool.not_eq_false',
    Bool.and_eq_true, List.isEmpty_iff, decide_eq_true_eq] at h
  rw [h.1, h.2]

theorem receiveRequests_reads {fuel : Nat} {reader : MessageReader}
    (hf : reader.objects.length < fuel) (h : receiveRequests L V fuel reader s = .ok (b, s')) :
    ∃ es : List IdPayload, reader = ⟨es.flatMap Packet.entryObjects, .finished⟩ ∧
      handleRequests L V es s = .ok s' := by
  induction fuel generalizing reader s with
  | zero => exact absurd hf (Nat.not_lt_zero _)
  | succ fuel ih =>
      rw [receiveRequests] at h
      split at h
      · obtain ⟨⟨id, reader₁⟩, h₁, h⟩ := bind_ok.mp h
        obtain ⟨⟨payload, reader₂⟩, h₂, h⟩ := bind_ok.mp h
        simp only [validatePacket, Bool.not_true, Bool.false_eq_true, if_false, bind_ok] at h
        obtain ⟨s₁, hs₁, h⟩ := h
        rw [MessageReader.readRpcId_ok h₁, MessageReader.readString_ok h₂] at hf ⊢
        obtain ⟨es, hes, hh⟩ := ih (by simp only [List.length_cons] at hf; omega) h
        refine ⟨⟨id, payload⟩ :: es, ?_, bind_ok.mpr ⟨s₁, hs₁, hh⟩⟩
        rw [hes]
        rfl
      · rename_i hend
        cases h
        exact ⟨[], sizeRemaining_eq_false hend, rfl⟩

theorem receiveReplies_reads {fuel : Nat} {reader : MessageReader}
    (hf : reader.objects.length < fuel) (h : receiveReplies V fuel reader s = .ok (b, s')) :
    ∃ es : List ReplyEntry, reader = ⟨es.flatMap Packet.replyEntryObjects, .finished⟩ ∧
      handleReplies V es s = .ok s' := by
  induction fuel generalizing reader s with
  | zero => exact absurd hf (Nat.not_lt_zero _)
  | succ fuel ih =>
      rw [receiveReplies] at h
      split at h
      · obtain ⟨⟨uid, reader₁⟩, h₁, h⟩ := bind_ok.mp h
        obtain ⟨⟨t₁, reader₂⟩, h₂, h⟩ := bind_ok.mp h
        obtain ⟨⟨t₂, reader₃⟩, h₃, h⟩ := bind_ok.mp h
        obtain ⟨⟨payload, reader₄⟩, h₄, h⟩ := bind_ok.mp h
        simp only [validatePacket, Bool.not_true, Bool.false_eq_true, if_false, bind_ok] at h
        obtain ⟨s₁, hs₁, h⟩ := h
        obtain ⟨hr₂, hl₁, hu₁⟩ := MessageReader.readInt64_ok h₂
        obtain ⟨hr₃, hl₂, hu₂⟩ := MessageReader.readInt64_ok h₃
        rw [MessageReader.readRpcId_ok h₁, hr₂, hr₃, MessageReader.readString_ok h₄] at hf ⊢
        obtain ⟨es, hes, hh⟩ := ih (by simp only [List.length_cons] at hf; omega) h
        have ht₁ : int64Of t₁ = t₁ := Int.bmod_eq_of_le (by omega) (by omega)
        have ht₂ : int64Of t₂ = t₂ := Int.bmod_eq_of_le (by omega) (by omega)
        refine ⟨⟨uid, t₁, t₂, payload⟩ :: es, ?_, bind_ok.mpr ⟨s₁, ?_, hh⟩⟩
        · rw [hes]
          rfl
        · dsimp only
          rw [ht₁, ht₂]
          exact hs₁
      · rename_i hend
        cases h
        exact ⟨[], sizeRemaining_eq_false hend, rfl⟩

/-- **What `receive` read**, where it ends. -/
theorem receive_reads {message : Bytes} (h : receive L V message s = .ok (b, s')) :
    (L.unpack message).Headed ∧ ((flake s).1 = true ∧ s' = (flake s).2 ∨
      (flake s).1 = false ∧ ∃ p : Packet, p.Reads (L.unpack message) ∧
        handlePacket L V p (flake s).2 = .ok s') := by
  obtain ⟨⟨header, reader⟩, hr, h⟩ := bind_ok.mp h
  have hu : L.unpack message = ⟨.byte header :: reader.objects, reader.ending⟩ :=
    MessageReader.readUnsignedChar_ok hr
  refine ⟨⟨header, by rw [hu]; rfl⟩, ?_⟩
  dsimp only at h
  split at h
  · rename_i hflake
    cases h
    exact .inl ⟨hflake, rfl⟩
  · rename_i hflake
    refine .inr ⟨by simpa using hflake, ?_⟩
    split at h
    · rename_i hheader
      obtain ⟨es, hes, hh⟩ := receiveRequests_reads (Nat.lt_succ_self _) h
      refine ⟨.request es, ?_, hh⟩
      rw [Packet.Reads, hu, hes, hheader]
      rfl
    · split at h
      · rename_i hheader
        obtain ⟨es, hes, hh⟩ := receiveReplies_reads (Nat.lt_succ_self _) h
        refine ⟨.reply es, ?_, hh⟩
        rw [Packet.Reads, hu, hes, hheader]
        rfl
      · split at h
        · rename_i hheader
          obtain ⟨⟨uid, reader₁⟩, h₁, h⟩ := bind_ok.mp h
          obtain ⟨⟨payload, reader₂⟩, h₂, h⟩ := bind_ok.mp h
          simp only [validatePacket, Bool.not_true, Bool.false_eq_true, if_false, bind_ok] at h
          obtain ⟨s₁, hs₁, h⟩ := h
          cases h
          refine ⟨.acknowledge uid payload, ⟨reader₂.objects, ?_⟩, hs₁⟩
          rw [hu, MessageReader.readRpcId_ok h₁, MessageReader.readString_ok h₂, hheader]
          rfl
        · cases h

/-- Whatever the bytes of a message, it is lost or handled as a packet. -/
theorem receive_cases {message : Bytes} (h : receive L V message s = .ok (b, s')) :
    s' = (flake s).2 ∨ ∃ p, handlePacket L V p (flake s).2 = .ok s' := by
  rcases (receive_reads h).2 with ⟨-, hs⟩ | ⟨-, p, -, hp⟩
  · exact .inl hs
  · exact .inr ⟨p, hp⟩

/-- A packet is read. -/
theorem receive_of_reads {message : Bytes} {p : Packet} (hp : p.Reads (L.unpack message))
    (hflake : (flake s).1 = false) (h : handlePacket L V p (flake s).2 = .ok s') :
    receive L V message s = .ok (true, s') := by
  cases p with
  | request es =>
      rw [receive_eq hp, hflake, if_neg Bool.false_ne_true, h]
      rfl
  | reply es =>
      rw [receive_eq hp, hflake, if_neg Bool.false_ne_true, h]
      rfl
  | acknowledge uid payload =>
      obtain ⟨rest, hrest⟩ := hp
      have hu : MessageReader.load L.toMsgpack message =
          ⟨.byte ACKNOWLEDGE :: .rpcId uid :: .str payload :: rest, (L.unpack message).ending⟩ := by
        refine Eq.trans ?_ (congrArg (fun o => Unpacked.mk o (L.unpack message).ending) hrest.symm)
        rfl
      have h : handleAcknowledge uid (flake s).2 = .ok s' := h
      have hne : ACKNOWLEDGE ≠ REQUEST := by decide
      have hne' : ACKNOWLEDGE ≠ REPLY := by decide
      simp only [receive, hu, MessageReader.readUnsignedChar_byte, ok_bind, hflake,
        Bool.false_eq_true, if_false, hne, hne', if_true, receiveAcknowledge,
        MessageReader.readRpcId_rpcId, MessageReader.readString_str, validatePacket, Bool.not_true,
        h]
      rfl

/-- A message with a header is lost. -/
theorem receive_of_flake {message : Bytes} (hu : (L.unpack message).Headed)
    (hflake : (flake s).1 = true) : receive L V message s = .ok (true, (flake s).2) := by
  obtain ⟨v, hv⟩ := hu
  obtain ⟨rest, hrest⟩ := List.head?_eq_some_iff.mp hv
  have hu : MessageReader.load L.toMsgpack message =
      ⟨.byte v :: rest, (L.unpack message).ending⟩ := by
    rw [← hrest]
    rfl
  simp only [receive, hu, MessageReader.readUnsignedChar_byte, ok_bind, hflake, if_true]
  rfl

/-- **`receive` ends** exactly when the message is lost, or is a packet that is handled. -/
theorem receive_ends_iff (message : Bytes) :
    (∃ b s', receive L V message s = .ok (b, s')) ↔ (L.unpack message).Headed ∧
      ((flake s).1 = true ∨ (flake s).1 = false ∧ ∃ p : Packet, p.Reads (L.unpack message) ∧
        ∃ s', handlePacket L V p (flake s).2 = .ok s') := by
  constructor
  · rintro ⟨b, s', h⟩
    obtain ⟨hhead, ⟨hflake, -⟩ | ⟨hflake, p, hp, hh⟩⟩ := receive_reads h
    · exact ⟨hhead, .inl hflake⟩
    · exact ⟨hhead, .inr ⟨hflake, p, hp, s', hh⟩⟩
  · rintro ⟨hhead, hflake | ⟨hflake, p, hp, s', hh⟩⟩
    · exact ⟨_, _, receive_of_flake hhead hflake⟩
    · exact ⟨_, _, receive_of_reads hp hflake hh⟩

end BiDirectionalRpc

end Wga
