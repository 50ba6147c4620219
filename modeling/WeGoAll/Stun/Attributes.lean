import Mathlib.Tactic.IntervalCases
import WeGoAll.Base.StunClient

/-!
# Stun — Attributes

What the decoders of `StunClient` do with a datagram, in terms of its bytes.

* `type_iff`: the method and the class are those of a Binding success response in one type only.
* `decodeResponse_rejected`, `decodeResponse_accepted`: what the header decides.
* `FirstAddress`: the first of the words after the header that has the type of an address.
* `attributes_ends`: the loop over the attributes ends.
* `scan_first`, `scan_none`: it goes from word to word until that one.
-/

namespace Wga

namespace Decoder

variable {α : Type} {n i e : Nat} {r : List Nat} {value zero : α}

theorem get_of_le (h : n ≤ e - i) : get n value zero ⟨i, e, false, r⟩ =
    (value, ⟨i + n, e, false, r ++ List.range' i n⟩) := by
  rw [get, if_neg (by simpa [size] using h)]

theorem get_of_lt (h : e - i < n) : get n value zero ⟨i, e, false, r⟩ =
    (zero, ⟨i, e, true, r⟩) :=
  if_pos (.inl h)

theorem get_of_error : get n value zero ⟨i, e, true, r⟩ = (zero, ⟨i, e, true, r⟩) :=
  if_pos (.inr rfl)

theorem skip_of_le (h : n ≤ e - i) : skip n ⟨i, e, false, r⟩ = ⟨i + n, e, false, r⟩ := by
  rw [skip, if_neg (by simpa [size] using h)]

theorem skip_of_lt (h : e - i < n) : skip n ⟨i, e, false, r⟩ = ⟨i, e, true, r⟩ :=
  if_pos (.inl h)

end Decoder

namespace StunClient

/-! ### The type -/

/-- Masking a bit reads it. -/
theorem bit_ne_zero (t k : UInt16) (hk : k.toNat < 16) :
    (bit t k != 0) = t.toBitVec.getLsbD k.toNat := by
  have hand : (bit t k).toBitVec =
      if t.toBitVec.getLsbD k.toNat then BitVec.twoPow 16 k.toNat else 0#16 := by
    rw [← BitVec.and_twoPow]
    simp [bit, BitVec.twoPow, Nat.mod_eq_of_lt hk]
  cases hb : t.toBitVec.getLsbD k.toNat with
  | false =>
      rw [hb] at hand
      simp [UInt16.toBitVec_inj.mp hand]
  | true =>
      rw [hb] at hand
      rw [bne_iff_ne]
      intro h0
      rw [h0] at hand
      have hbit := congrArg (BitVec.getLsbD · k.toNat) hand
      simp [hk] at hbit

/-- The method that is asked for fixes every bit that is read for it, though bits 11 and 12 are read
as one. -/
theorem method_bits {t : UInt16} (h : decodeMethod t = BIND_METHOD) (i : Nat) (hi : i < 14)
    (h₄ : i ≠ 4) (h₈ : i ≠ 8) : t.toBitVec.getLsbD i = decide (i = 0) := by
  have hbits := fun j => congrArg (fun x : UInt16 => x.toBitVec.getLsbD j) h
  simp [decodeMethod, bit, BIND_METHOD] at hbits
  have h₁₀ : t.toBitVec[11] = false ∧ t.toBitVec[12] = false := by simpa using hbits 10
  interval_cases i
  · simpa using hbits 0
  · simpa using hbits 1
  · simpa using hbits 2
  · simpa using hbits 3
  · exact absurd rfl h₄
  · simpa using hbits 4
  · simpa using hbits 5
  · simpa using hbits 6
  · exact absurd rfl h₈
  · simpa using hbits 7
  · simpa using hbits 8
  · exact h₁₀.1
  · exact h₁₀.2
  · simpa using hbits 11

theorem type_iff (t : UInt16) : (decodePlex t = (false, false) ∧ decodeMethod t = BIND_METHOD ∧
    decodeClass t = SUCCESS_CLASS) ↔ t = 0x0101 := by
  constructor
  · rintro ⟨hplex, hmethod, hclass⟩
    have h₁₄ := Prod.mk.inj hplex
    have h₄ := Prod.mk.inj hclass
    rw [bit_ne_zero _ _ (by decide), bit_ne_zero _ _ (by decide)] at h₁₄ h₄
    refine UInt16.toBitVec_inj.mp (BitVec.eq_of_getLsbD_eq fun i hi => ?_)
    by_cases hread : i < 14 ∧ i ≠ 4 ∧ i ≠ 8
    · obtain ⟨hlt, h4, h8⟩ := hread
      rw [method_bits hmethod i hlt h4 h8]
      interval_cases i <;> first | rfl | contradiction
    · obtain rfl | rfl | rfl | rfl : i = 4 ∨ i = 8 ∨ i = 14 ∨ i = 15 := by omega
      · exact h₄.1
      · exact h₄.2
      · exact h₁₄.1
      · exact h₁₄.2
  · rintro rfl
    decide

/-! ### The header -/

/-- The header of a Binding success response, whatever its length and its transaction id. -/
structure Accepted (m : Memory) (size : Nat) : Prop where
  size : HEADER_SIZE ≤ size
  type : m.uint16 0 = 0x0101
  cookie : m.uint32 4 = COOKIE

/-- The length field. -/
def bodyLength (m : Memory) : Nat := (m.uint16 2).toNat

/-- The loop over the attributes of this datagram. -/
def scan (m : Memory) : Scan := attributes m (.new HEADER_SIZE (bodyLength m))

/-- Decoding reads the first eight bytes of a header. -/
theorem decodeResponse_eq {m : Memory} {size : Nat} (h : HEADER_SIZE ≤ size) :
    decodeResponse m size =
      if decodePlex (m.uint16 0) ≠ (false, false) then (.multiplexed, List.range' 0 8)
      else if m.uint32 4 ≠ COOKIE then (.rejected .fault, List.range' 0 8)
      else if decodeMethod (m.uint16 0) ≠ BIND_METHOD then
        (.rejected .operationNotSupported, List.range' 0 8)
      else if decodeClass (m.uint16 0) ≠ SUCCESS_CLASS then (.rejected .fault, List.range' 0 8)
      else (.scanned (scan m).found, List.range' 0 8 ++ (scan m).reads) := by
  have h20 : 20 ≤ size := h
  rw [decodeResponse, if_neg (Nat.not_lt.mpr h)]
  simp (disch := omega) only [Decoder.new, Decoder.getUint16, Decoder.getUint32,
    Decoder.get_of_le, Decoder.skip_of_le]
  rfl

/-- The header is accepted. -/
theorem decodeResponse_accepted {m : Memory} {size : Nat} (h : Accepted m size) :
    decodeResponse m size = (.scanned (scan m).found, List.range' 0 8 ++ (scan m).reads) := by
  obtain ⟨hplex, hmethod, hclass⟩ := (type_iff _).mpr h.type
  rw [decodeResponse_eq h.size, if_neg (not_not_intro hplex), if_neg (not_not_intro h.cookie),
    if_neg (not_not_intro hmethod), if_neg (not_not_intro hclass)]

/-- The header is not, and nothing behind its first eight bytes is read. -/
theorem decodeResponse_rejected {m : Memory} {size : Nat} (h : ¬ Accepted m size) :
    ((∃ error, (decodeResponse m size).1 = .rejected error ∧ error ≠ .success) ∨
      (decodeResponse m size).1 = .multiplexed) ∧
      ∀ i ∈ (decodeResponse m size).2, i < size := by
  by_cases hsize : HEADER_SIZE ≤ size
  · have hreads : ∀ i ∈ List.range' 0 8, i < size := by
      intro i hi
      have h20 : 20 ≤ size := hsize
      have hlt := (List.mem_range'_1.mp hi).2
      omega
    rw [decodeResponse_eq hsize]
    split
    · exact ⟨.inr rfl, hreads⟩
    split
    · exact ⟨.inl ⟨.fault, rfl, nofun⟩, hreads⟩
    split
    · exact ⟨.inl ⟨.operationNotSupported, rfl, nofun⟩, hreads⟩
    split
    · exact ⟨.inl ⟨.fault, rfl, nofun⟩, hreads⟩
    next hplex hcookie hmethod hclass =>
    refine absurd ⟨hsize, (type_iff _).mp ⟨?_, ?_, ?_⟩, ?_⟩ h
    · exact not_not.mp hplex
    · exact not_not.mp hmethod
    · exact not_not.mp hclass
    · exact not_not.mp hcookie
  · rw [decodeResponse, if_pos (Nat.lt_of_not_le hsize)]
    exact ⟨.inl ⟨.fault, rfl, nofun⟩, nofun⟩

/-! ### The value of an attribute -/

/-- `MAPPED-ADDRESS` or `XOR-MAPPED-ADDRESS`. -/
def IsAddress (type : UInt16) : Prop :=
  type = ATTRIB_MAPPED_ADDRESS ∨ type = ATTRIB_XOR_MAPPED_ADDRESS

instance (type : UInt16) : Decidable (IsAddress type) := inferInstanceAs (Decidable (_ ∨ _))

/-- The length and the family of an attribute that starts at `i`. -/
def lengthAt (m : Memory) (i : Nat) : Nat := (m.uint16 (i + 2)).toNat
def familyAt (m : Memory) (i : Nat) : UInt8 := m (i + 5)

/-- How many bytes of the value are looked at, from its first on, where the attribute at `i` has
the type of an address. -/
def looked (m : Memory) (i : Nat) : Nat :=
  if lengthAt m i < 2 then 0
  else if lengthAt m i < 4 then 2
  else if familyAt m i = 0x01 ∧ 8 ≤ lengthAt m i then 8
  else if m.uint16 i = ATTRIB_MAPPED_ADDRESS ∧ familyAt m i = 0x02 ∧ 20 ≤ lengthAt m i then 20
  else 4

/-- The IPv4 endpoint in the attribute at `i`. -/
def ipv4At (m : Memory) (i : Nat) : Option Endpoint :=
  if familyAt m i = 0x01 ∧ 8 ≤ lengthAt m i then
    if m.uint16 i = ATTRIB_MAPPED_ADDRESS then some ⟨m.uint32 (i + 8), m.uint16 (i + 6)⟩
    else some ⟨m.uint32 (i + 8) ^^^ COOKIE, m.uint16 (i + 6) ^^^ (COOKIE >>> 16).toUInt16⟩
  else none

/-- The attribute at `i` has an endpoint of either family that is decoded. -/
def HasEndpoint (m : Memory) (i : Nat) : Prop :=
  familyAt m i = 0x01 ∧ 8 ≤ lengthAt m i ∨
    m.uint16 i = ATTRIB_MAPPED_ADDRESS ∧ familyAt m i = 0x02 ∧ 20 ≤ lengthAt m i

/-- What the loop over the attributes leaves, at an attribute of an address. -/
structure Decoded (m : Memory) (i : Nat) (s : Scan) : Prop where
  ipv4 : ∀ ep, s.found = .ok (some (.v4 ep)) ↔ ipv4At m i = some ep
  endpoint : (∃ ep, s.found = .ok (some ep)) ↔ HasEndpoint m i
  reads : s.reads = List.range' (i + 5) (looked m i - 1)

/-- Past the family and the port. -/
def afterPort (j n : Nat) : Decoder := ⟨j + 4, j + n, false, List.range' (j + 1) 3⟩

theorem decodeMappedAddress_of_le {m : Memory} {j n : Nat} (h : 4 ≤ n) :
    decodeMappedAddress m (.new j n) =
      if m (j + 1) = 0x01 then (.v4 ⟨((afterPort j n).getUint32 m).1, m.uint16 (j + 2)⟩,
        ((afterPort j n).getUint32 m).2)
      else if m (j + 1) = 0x02 then (.v6 ((afterPort j n).getRaw m).1 (m.uint16 (j + 2)),
        ((afterPort j n).getRaw m).2)
      else (.unspecified, (afterPort j n).setError) := by
  rw [decodeMappedAddress]
  simp (disch := omega) only [Decoder.new, Decoder.skip_of_le, Decoder.getUint8, Decoder.getUint16,
    Decoder.get_of_le, List.nil_append, List.range'_append_1, Bool.false_eq_true, if_false]
  rfl

theorem decodeXorMappedAddress_of_le {m : Memory} {j n : Nat} (h : 4 ≤ n) :
    decodeXorMappedAddress m (.new j n) =
      if m (j + 1) = 0x01 then (.ok (.v4 ⟨((afterPort j n).getUint32 m).1 ^^^ COOKIE,
        m.uint16 (j + 2) ^^^ (COOKIE >>> 16).toUInt16⟩), ((afterPort j n).getUint32 m).2)
      else if m (j + 1) = 0x02 then (.error (.fatal "Not implemented yet"), afterPort j n)
      else (.ok .unspecified, (afterPort j n).setError) := by
  rw [decodeXorMappedAddress]
  simp (disch := omega) only [Decoder.new, Decoder.skip_of_le, Decoder.getUint8, Decoder.getUint16,
    Decoder.get_of_le, List.nil_append, List.range'_append_1, Bool.false_eq_true, if_false]
  rfl

/-- A value too short for the port. -/
theorem skipped_of_lt {m : Memory} {j n : Nat} (h : n < 4) :
    ∃ i family port, ((Decoder.new j n).skip 1).getUint8 m = family ∧
      family.2.getUint16 m = (port, ⟨i, j + n, true, List.range' (j + 1) (if n < 2 then 0 else 1)⟩)
    := by
  obtain rfl | hn := Nat.eq_zero_or_pos n
  · simp (disch := omega) only [Decoder.new, Decoder.skip_of_lt, Decoder.getUint8,
      Decoder.getUint16, Decoder.get_of_error]
    exact ⟨j, _, 0, rfl, Decoder.get_of_error⟩
  by_cases h2 : n < 2
  · simp (disch := omega) only [Decoder.new, Decoder.skip_of_le, Decoder.getUint8,
      Decoder.getUint16, Decoder.get_of_lt, if_pos h2]
    exact ⟨j + 1, _, 0, rfl, Decoder.get_of_error⟩
  · simp (disch := omega) only [Decoder.new, Decoder.skip_of_le, Decoder.getUint8,
      Decoder.getUint16, Decoder.get_of_le, if_neg h2]
    exact ⟨j + 2, _, 0, rfl, Decoder.get_of_lt (by omega)⟩

theorem decodeMappedAddress_of_lt {m : Memory} {j n : Nat} (h : n < 4) :
    ∃ i, decodeMappedAddress m (.new j n) =
      (.unspecified, ⟨i, j + n, true, List.range' (j + 1) (if n < 2 then 0 else 1)⟩) := by
  obtain ⟨i, family, port, hfamily, hport⟩ := skipped_of_lt (m := m) (j := j) h
  refine ⟨i, ?_⟩
  simp only [decodeMappedAddress, hfamily, hport, if_true]

theorem decodeXorMappedAddress_of_lt {m : Memory} {j n : Nat} (h : n < 4) :
    ∃ i, decodeXorMappedAddress m (.new j n) =
      (.ok .unspecified, ⟨i, j + n, true, List.range' (j + 1) (if n < 2 then 0 else 1)⟩) := by
  obtain ⟨i, family, port, hfamily, hport⟩ := skipped_of_lt (m := m) (j := j) h
  refine ⟨i, ?_⟩
  simp only [decodeXorMappedAddress, hfamily, hport, if_true]

/-- The value of an attribute at `i` of which nothing is decoded, with `k` bytes looked at. -/
theorem decoded_none {m : Memory} {i k : Nat} (h : ¬ HasEndpoint m i) (hlooked : looked m i = k) :
    Decoded m i ⟨.ok none, List.range' (i + 5) (k - 1)⟩ := by
  have hnone : ipv4At m i = none := if_neg fun h4 => h (.inl h4)
  refine ⟨fun ep => ?_, ?_, ?_⟩
  · rw [hnone]
    exact ⟨nofun, nofun⟩
  · exact ⟨nofun, fun hh => absurd hh h⟩
  · rw [hlooked]

theorem decoded_v4 {m : Memory} {i : Nat} {ep : Endpoint} (h4 : familyAt m i = 0x01)
    (h8 : 8 ≤ lengthAt m i) (hep : ipv4At m i = some ep) :
    Decoded m i ⟨.ok (some (.v4 ep)), List.range' (i + 5) 7⟩ := by
  refine ⟨fun ep' => ?_, ⟨fun _ => .inl ⟨h4, h8⟩, fun _ => ⟨_, rfl⟩⟩, ?_⟩
  · rw [hep]
    simp
  · rw [looked, if_neg (by omega), if_neg (by omega), if_pos ⟨h4, h8⟩]

theorem decoded_v6 {m : Memory} {i : Nat} (address : ByteArr 16) (port : UInt16)
    (htype : m.uint16 i = ATTRIB_MAPPED_ADDRESS) (h6 : familyAt m i = 0x02)
    (h20 : 20 ≤ lengthAt m i) :
    Decoded m i ⟨.ok (some (.v6 address port)), List.range' (i + 5) 19⟩ := by
  have h4 : ¬ (familyAt m i = 0x01 ∧ 8 ≤ lengthAt m i) := by simp [h6]
  have hnone : ipv4At m i = none := if_neg h4
  refine ⟨fun ep => ?_, ⟨fun _ => .inr ⟨htype, h6, h20⟩, fun _ => ⟨_, rfl⟩⟩, ?_⟩
  · rw [hnone]
    exact ⟨nofun, nofun⟩
  · rw [looked, if_neg (by omega), if_neg (by omega), if_neg h4, if_pos ⟨htype, h6, h20⟩]

theorem looked_of_lt {m : Memory} {i : Nat} (h : lengthAt m i < 4) :
    looked m i - 1 = if lengthAt m i < 2 then 0 else 1 := by
  rw [looked, if_pos h]
  split <;> rfl

theorem looked_of_not_hasEndpoint {m : Memory} {i : Nat} (h4 : ¬ lengthAt m i < 4)
    (h : ¬ HasEndpoint m i) : looked m i = 4 := by
  obtain ⟨hv4, hv6⟩ := not_or.mp h
  rw [looked, if_neg (by omega), if_neg h4, if_neg hv4, if_neg hv6]

theorem HasEndpoint.length {m : Memory} {i : Nat} (h : HasEndpoint m i) : 8 ≤ lengthAt m i := by
  rcases h with ⟨-, h8⟩ | ⟨-, -, h20⟩
  · exact h8
  · omega

theorem not_hasEndpoint_of_lt {m : Memory} {i : Nat} (h : lengthAt m i < 4) :
    ¬ HasEndpoint m i := fun h' => by
  have h8 := h'.length
  omega

theorem getUint32_afterPort_of_le {m : Memory} {j n : Nat} (h : 8 ≤ n) :
    (afterPort j n).getUint32 m =
      (m.uint32 (j + 4), ⟨j + 8, j + n, false, List.range' (j + 1) 7⟩) := by
  refine (Decoder.get_of_le (by omega)).trans ?_
  rw [show j + 4 = j + 1 + 3 from rfl, List.range'_append_1]
  rfl

theorem getUint32_afterPort_of_lt {m : Memory} {j n : Nat} (h : n < 8) :
    (afterPort j n).getUint32 m = (0, (afterPort j n).setError) :=
  Decoder.get_of_lt (by omega)

theorem getRaw_afterPort_of_le {m : Memory} {j n : Nat} (h : 20 ≤ n) :
    (afterPort j n).getRaw m = (.ofFn fun i => m (j + 4 + i),
      ⟨j + 20, j + n, false, List.range' (j + 1) 19⟩) := by
  refine (Decoder.get_of_le (by omega)).trans ?_
  rw [show j + 4 = j + 1 + 3 from rfl, List.range'_append_1]
  rfl

theorem getRaw_afterPort_of_lt {m : Memory} {j n : Nat} (h : n < 20) :
    (afterPort j n).getRaw m = (.replicate 16 0, (afterPort j n).setError) :=
  Decoder.get_of_lt (by omega)

/-- The value of a `MAPPED-ADDRESS` is decoded. -/
theorem decoded_mapped {m : Memory} {i : Nat} (htype : m.uint16 i = ATTRIB_MAPPED_ADDRESS)
    {p : IpEndpoint × Decoder} (hp : decodeMappedAddress m (.new (i + 4) (lengthAt m i)) = p) :
    Decoded m i ⟨.ok (if p.2.wasError then none else some p.1), p.2.reads⟩ := by
  by_cases h4 : lengthAt m i < 4
  · obtain ⟨_, heq⟩ := decodeMappedAddress_of_lt (m := m) (j := i + 4) h4
    rw [← hp, heq, ← looked_of_lt h4]
    exact decoded_none (not_hasEndpoint_of_lt h4) rfl
  have hlooked := looked_of_not_hasEndpoint (m := m) (i := i) h4
  rw [decodeMappedAddress_of_le (by omega)] at hp
  split at hp
  next hv4 =>
    by_cases h8 : 8 ≤ lengthAt m i
    · rw [getUint32_afterPort_of_le h8] at hp
      rw [← hp]
      exact decoded_v4 hv4 h8 ((if_pos ⟨hv4, h8⟩).trans (if_pos htype))
    · rw [getUint32_afterPort_of_lt (by omega)] at hp
      rw [← hp]
      have hno : ¬ HasEndpoint m i := fun h => h8 h.length
      exact decoded_none hno (hlooked hno)
  next hv4 =>
    split at hp
    next hv6 =>
      by_cases h20 : 20 ≤ lengthAt m i
      · rw [getRaw_afterPort_of_le h20] at hp
        rw [← hp]
        exact decoded_v6 _ _ htype hv6 h20
      · rw [getRaw_afterPort_of_lt (by omega)] at hp
        rw [← hp]
        have hno : ¬ HasEndpoint m i := by
          rintro (⟨hv4', -⟩ | ⟨-, -, h20'⟩)
          · exact hv4 hv4'
          · exact h20 h20'
        exact decoded_none hno (hlooked hno)
    next hv6 =>
      rw [← hp]
      have hno : ¬ HasEndpoint m i := by
        rintro (⟨hv4', -⟩ | ⟨-, hv6', -⟩)
        · exact hv4 hv4'
        · exact hv6 hv6'
      exact decoded_none hno (hlooked hno)

/-- The value of a `XOR-MAPPED-ADDRESS` is decoded. -/
theorem decoded_xorMapped {m : Memory} {i : Nat}
    (htype : m.uint16 i = ATTRIB_XOR_MAPPED_ADDRESS) {p : Except Fault IpEndpoint × Decoder}
    (hp : decodeXorMappedAddress m (.new (i + 4) (lengthAt m i)) = p) :
    Decoded m i ⟨p.1.map fun ep => if p.2.wasError then none else some ep, p.2.reads⟩ := by
  have hmapped : ¬ m.uint16 i = ATTRIB_MAPPED_ADDRESS := by
    rw [htype]
    decide
  by_cases h4 : lengthAt m i < 4
  · obtain ⟨_, heq⟩ := decodeXorMappedAddress_of_lt (m := m) (j := i + 4) h4
    rw [← hp, heq, ← looked_of_lt h4]
    exact decoded_none (not_hasEndpoint_of_lt h4) rfl
  have hlooked := looked_of_not_hasEndpoint (m := m) (i := i) h4
  rw [decodeXorMappedAddress_of_le (by omega)] at hp
  split at hp
  next hv4 =>
    by_cases h8 : 8 ≤ lengthAt m i
    · rw [getUint32_afterPort_of_le h8] at hp
      rw [← hp]
      exact decoded_v4 hv4 h8 ((if_pos ⟨hv4, h8⟩).trans (if_neg hmapped))
    · rw [getUint32_afterPort_of_lt (by omega)] at hp
      rw [← hp]
      have hno : ¬ HasEndpoint m i := fun h => h8 h.length
      exact decoded_none hno (hlooked hno)
  next hv4 =>
    have hno : ¬ HasEndpoint m i := by
      rintro (⟨hv4', -⟩ | ⟨htype', -⟩)
      · exact hv4 hv4'
      · exact hmapped htype'
    split at hp
    next hv6 =>
      rw [← hp]
      exact ⟨fun ep => ⟨nofun, fun h => by cases (if_neg fun h => hv4 h.1).symm.trans h⟩,
        ⟨nofun, fun h => absurd h hno⟩, by rw [hlooked hno]; rfl⟩
    next hv6 =>
      rw [← hp]
      exact decoded_none hno (hlooked hno)

/-- An attribute of an address is decoded, and the loop is left. -/
theorem nextAttribute_address {m : Memory} {i e : Nat} (hsize : 4 ≤ e - i)
    (h : IsAddress (m.uint16 i)) :
    ∃ s, Decoded m i s ∧ ∀ r, nextAttribute m ⟨i, e, false, r⟩ =
      .inl ⟨s.found, r ++ List.range' i 4 ++ s.reads⟩ := by
  have hword : ∀ r, decodeAttribute m ⟨i, e, false, r⟩ =
      (⟨m.uint16 i, m.uint16 (i + 2), i + 4⟩, ⟨i + 4, e, false, r ++ List.range' i 4⟩) := by
    intro r
    simp (disch := omega) only [decodeAttribute, Decoder.getUint16, Decoder.get_of_le,
      List.append_assoc, List.range'_append_1, Bool.false_eq_true, if_false]
  rcases h with hmapped | hxor
  · refine ⟨_, decoded_mapped hmapped rfl, fun r => ?_⟩
    rw [nextAttribute, if_neg Bool.false_ne_true]
    simp only [hword, Bool.false_eq_true, if_false, if_pos hmapped]
    rfl
  · have hmapped : ¬ m.uint16 i = ATTRIB_MAPPED_ADDRESS := by
      rw [hxor]
      decide
    refine ⟨_, decoded_xorMapped hxor rfl, fun r => ?_⟩
    rw [nextAttribute, if_neg Bool.false_ne_true]
    simp only [hword, Bool.false_eq_true, if_false, if_neg hmapped, if_pos hxor]
    rfl

/-- Another word is passed over. -/
theorem nextAttribute_other {m : Memory} {i e : Nat} (hsize : 4 ≤ e - i)
    (h : ¬ IsAddress (m.uint16 i)) (r : List Nat) :
    nextAttribute m ⟨i, e, false, r⟩ = .inr ⟨i + 4, e, false, r ++ List.range' i 4⟩ := by
  obtain ⟨hmapped, hxor⟩ := not_or.mp h
  rw [nextAttribute, if_neg Bool.false_ne_true]
  simp (disch := omega) only [decodeAttribute, Decoder.getUint16, Decoder.get_of_le]
  simp only [Bool.false_eq_true, if_false, if_neg hmapped, if_neg hxor, List.append_assoc,
    List.range'_append_1]

/-- The loop is left where no word remains. -/
theorem nextAttribute_short {m : Memory} {i e : Nat} (hsize : e - i < 4) (r : List Nat) :
    nextAttribute m ⟨i, e, false, r⟩ =
      .inl ⟨.ok none, r ++ List.range' i (if 2 ≤ e - i then 2 else 0)⟩ := by
  rw [nextAttribute, if_neg Bool.false_ne_true]
  simp only [decodeAttribute, Decoder.getUint16]
  by_cases h : 2 ≤ e - i
  · simp (disch := omega) only [Decoder.get_of_le, Decoder.get_of_lt, if_true, if_pos h]
  · simp (disch := omega) only [Decoder.get_of_lt, Decoder.get_of_error, if_true, if_neg h,
      List.range'_zero, List.append_nil]

/-! ### The loop -/

/-- An iteration that goes on leaves fewer bytes. -/
theorem nextAttribute_lower {m : Memory} {d d' : Decoder} (h : nextAttribute m d = .inr d') :
    d'.size < d.size := by
  obtain ⟨i, e, error, r⟩ := d
  cases error with
  | true =>
      rw [nextAttribute, if_pos rfl] at h
      cases h
  | false =>
      by_cases hsize : 4 ≤ e - i
      · by_cases haddress : IsAddress (m.uint16 i)
        · obtain ⟨s, -, heq⟩ := nextAttribute_address hsize haddress
          rw [heq] at h
          cases h
        · rw [nextAttribute_other hsize haddress] at h
          cases h
          simp only [Decoder.size]
          omega
      · rw [nextAttribute_short (by omega)] at h
        cases h

/-- **The loop over the attributes ends**, whatever is in the memory and wherever it starts. -/
theorem attributes_ends (m : Memory) (d : Decoder) : Loop (nextAttribute m) d (attributes m d) := by
  have hlower : ∀ d d', nextAttribute m d = .inr d' → d'.size < d.size := fun _ _ =>
    nextAttribute_lower
  obtain ⟨s, hs⟩ := Loop.ends hlower d
  have heq : attributes m d = s := hs.iterate_eq hlower (Nat.lt_succ_self _)
  rwa [heq]

theorem attributes_eq {m : Memory} {d : Decoder} {s : Scan} (h : Loop (nextAttribute m) d s) :
    attributes m d = s :=
  h.iterate_eq (fun _ _ => nextAttribute_lower) (Nat.lt_succ_self _)

/-- The word `k` of the `n` bytes from `i` on is the first with the type of an address. -/
structure FirstFrom (m : Memory) (i n k : Nat) : Prop where
  inside : 4 * (k + 1) ≤ n
  address : IsAddress (m.uint16 (i + 4 * k))
  before : ∀ j < k, ¬ IsAddress (m.uint16 (i + 4 * j))

theorem FirstFrom.unique {m : Memory} {i n j k : Nat} (hj : FirstFrom m i n j)
    (hk : FirstFrom m i n k) : j = k := by
  rcases Nat.lt_trichotomy j k with h | h | h
  · exact absurd hj.address (hk.before j h)
  · exact h
  · exact absurd hk.address (hj.before k h)

/-- There is a first one where there is one. -/
theorem FirstFrom.of_address {m : Memory} {i n j : Nat} (hinside : 4 * (j + 1) ≤ n)
    (haddress : IsAddress (m.uint16 (i + 4 * j))) : ∃ k ≤ j, FirstFrom m i n k := by
  induction j using Nat.strongRecOn with
  | ind j ih =>
      by_cases hbefore : ∃ l < j, IsAddress (m.uint16 (i + 4 * l))
      · obtain ⟨l, hl, hl'⟩ := hbefore
        obtain ⟨k, hk, hfirst⟩ := ih l hl (by omega) hl'
        exact ⟨k, hk.trans hl.le, hfirst⟩
      · exact ⟨j, le_rfl, hinside, haddress, fun l hl hl' => hbefore ⟨l, hl, hl'⟩⟩

/-- The loop goes from word to word until the first with the type of an address. -/
theorem loop_first {m : Memory} {i n k : Nat} (h : FirstFrom m i n k) :
    ∃ s, Decoded m (i + 4 * k) s ∧ ∀ r, Loop (nextAttribute m) ⟨i, i + n, false, r⟩
      ⟨s.found, r ++ List.range' i (4 * (k + 1)) ++ s.reads⟩ := by
  induction k generalizing i n with
  | zero =>
      have hinside := h.inside
      obtain ⟨s, hs, heq⟩ := nextAttribute_address (e := i + n) (by omega) h.address
      exact ⟨s, hs, fun r => .leave (heq r)⟩
  | succ k ih =>
      have hinside := h.inside
      have hrest : FirstFrom m (i + 4) (n - 4) k := by
        refine ⟨by omega, ?_, fun j hj => ?_⟩
        · have haddress := h.address
          rwa [show i + 4 * (k + 1) = i + 4 + 4 * k by omega] at haddress
        · have hbefore := h.before (j + 1) (by omega)
          rwa [show i + 4 * (j + 1) = i + 4 + 4 * j by omega] at hbefore
      obtain ⟨s, hs, hloop⟩ := ih hrest
      rw [show i + 4 + 4 * k = i + 4 * (k + 1) by omega] at hs
      refine ⟨s, hs, fun r => .again (nextAttribute_other (by omega) (h.before 0 (by omega)) r) ?_⟩
      have hrest := hloop (r ++ List.range' i 4)
      rw [show i + 4 + (n - 4) = i + n by omega, List.append_assoc r, List.range'_append_1,
        show 4 + 4 * (k + 1) = 4 * (k + 1 + 1) by omega] at hrest
      exact hrest

/-- And to the last where there is none. -/
theorem loop_none {m : Memory} {i n : Nat} (h : ∀ k, ¬ FirstFrom m i n k) (r : List Nat) :
    Loop (nextAttribute m) ⟨i, i + n, false, r⟩
      ⟨.ok none, r ++ List.range' i (n - n % 4 + if 2 ≤ n % 4 then 2 else 0)⟩ := by
  induction hn : n / 4 generalizing i n r with
  | zero =>
      have hlt : n < 4 := by omega
      have hshort := nextAttribute_short (m := m) (i := i) (e := i + n) (by omega) r
      rw [Nat.add_sub_cancel_left] at hshort
      rw [Nat.mod_eq_of_lt hlt, Nat.sub_self, Nat.zero_add]
      exact .leave hshort
  | succ k ih =>
      have hother : ¬ IsAddress (m.uint16 i) := fun haddress =>
        h 0 ⟨by omega, haddress, nofun⟩
      have hrest : ∀ k, ¬ FirstFrom m (i + 4) (n - 4) k := fun k hk => by
        have hinside := hk.inside
        have haddress := hk.address
        rw [show i + 4 + 4 * k = i + 4 * (k + 1) by omega] at haddress
        obtain ⟨j, -, hj⟩ := FirstFrom.of_address (i := i) (n := n) (by omega) haddress
        exact h j hj
      refine .again (nextAttribute_other (by omega) hother r) ?_
      have hloop := ih hrest (r ++ List.range' i 4) (by omega)
      rw [show i + 4 + (n - 4) = i + n by omega, show (n - 4) % 4 = n % 4 by omega,
        List.append_assoc, List.range'_append_1, ← Nat.add_assoc,
        show 4 + (n - 4 - n % 4) = n - n % 4 by omega] at hloop
      exact hloop

/-- The word `k` after the header is the first with the type of an address. -/
abbrev FirstAddress (m : Memory) (k : Nat) : Prop := FirstFrom m HEADER_SIZE (bodyLength m) k

/-- **The endpoint comes from the first word with the type of an address.** -/
theorem scan_first {m : Memory} {k : Nat} (h : FirstAddress m k) :
    ∃ s, Decoded m (HEADER_SIZE + 4 * k) s ∧
      scan m = ⟨s.found, List.range' HEADER_SIZE (4 * (k + 1)) ++ s.reads⟩ := by
  obtain ⟨s, hs, hloop⟩ := loop_first h
  exact ⟨s, hs, attributes_eq (hloop [])⟩

theorem scan_none {m : Memory} (h : ∀ k, ¬ FirstAddress m k) : scan m = ⟨.ok none,
    List.range' HEADER_SIZE
      (bodyLength m - bodyLength m % 4 + if 2 ≤ bodyLength m % 4 then 2 else 0)⟩ :=
  attributes_eq (loop_none h [])

end StunClient

end Wga
