import WeGoAll.Stun.Attributes

/-!
# Stun — Bounds

Which bytes `on_recv` reads of what it received, and which behind it.

* `Within`: what the loop over the attributes looks at was received.
* `reads_inside_iff`: the loop ends, and exactly then every byte read was received.
-/

namespace Wga

namespace StunClient

/-- What the loop looks at lies within `size` bytes: the words up to the first with the type of an
address and the value of that one as far as it is decoded; without such a word, every word there is
by the length field and the type of one more, if there is room for it. -/
structure Within (m : Memory) (size : Nat) : Prop where
  first : ∀ k, FirstAddress m k →
    HEADER_SIZE + 4 * (k + 1) + looked m (HEADER_SIZE + 4 * k) ≤ size
  none : (∀ k, ¬ FirstAddress m k) → HEADER_SIZE +
    (bodyLength m - bodyLength m % 4 + if 2 ≤ bodyLength m % 4 then 2 else 0) ≤ size

/-- A range of offsets that ends at `n`. -/
theorem forall_range'_lt_iff {i k n : Nat} (hi : i ≤ n) :
    (∀ x ∈ List.range' i k, x < n) ↔ i + k ≤ n := by
  simp only [List.mem_range'_1]
  constructor
  · intro h
    obtain rfl | hk := Nat.eq_zero_or_pos k
    · exact hi
    · have hlast := h (i + k - 1) ⟨by omega, by omega⟩
      omega
  · rintro h x ⟨-, hx⟩
    omega

/-- The value of an attribute is read up to the last byte that is looked at. -/
theorem Decoded.reads_iff {m : Memory} {i size : Nat} {s : Scan} (h : Decoded m i s)
    (hi : i + 4 ≤ size) : (∀ x ∈ s.reads, x < size) ↔ i + 4 + looked m i ≤ size := by
  rw [h.reads]
  obtain h0 | h0 : looked m i = 0 ∨ 2 ≤ looked m i := by
    rw [looked]
    split
    · exact .inl rfl
    repeat' split
    all_goals exact .inr (by decide)
  · have hnil : List.range' (i + 5) (looked m i - 1) = [] := by
      rw [h0, Nat.zero_sub, List.range'_zero]
    rw [hnil, h0]
    exact iff_of_true (List.forall_mem_nil _) hi
  · by_cases h5 : i + 5 ≤ size
    · rw [forall_range'_lt_iff h5]
      omega
    · refine iff_of_false (fun hall => ?_) (by omega)
      have hfirst := hall (i + 5) (List.mem_range'_1.mpr ⟨le_rfl, by omega⟩)
      omega

/-- **Decoding stays inside the datagram exactly where the lengths in it do.**  From any position
the loop over the attributes ends.  And every byte read has an offset smaller than the number of
bytes received exactly if the header is rejected or what the loop looks at was received. -/
theorem reads_inside_iff (m : Memory) (size : Nat) :
    (∀ d, Loop (nextAttribute m) d (attributes m d)) ∧
      ((∀ i ∈ (decodeResponse m size).2, i < size) ↔ (Accepted m size → Within m size)) := by
  refine ⟨attributes_ends m, ?_⟩
  by_cases h : Accepted m size
  · have hsize : 20 ≤ size := h.size
    have hheader : ∀ i ∈ List.range' 0 8, i < size :=
      (forall_range'_lt_iff (Nat.zero_le _)).mpr (by omega)
    have hscan : (∀ i ∈ (decodeResponse m size).2, i < size) ↔ ∀ i ∈ (scan m).reads, i < size := by
      rw [decodeResponse_accepted h]
      simp only [List.forall_mem_append]
      exact and_iff_right hheader
    rw [hscan, forall_prop_of_true h]
    by_cases hfirst : ∃ k, FirstAddress m k
    · obtain ⟨k, hk⟩ := hfirst
      obtain ⟨s, hs, heq⟩ := scan_first hk
      have hwithin : Within m size ↔
          HEADER_SIZE + 4 * (k + 1) + looked m (HEADER_SIZE + 4 * k) ≤ size := by
        refine ⟨fun h => h.first k hk, fun h => ⟨fun j hj => ?_, fun hnone => ?_⟩⟩
        · rwa [hj.unique hk]
        · exact absurd hk (hnone k)
      rw [heq, hwithin, List.forall_mem_append, forall_range'_lt_iff h.size]
      constructor
      · rintro ⟨hword, hvalue⟩
        exact (hs.reads_iff hword).mp hvalue
      · intro hlooked
        have hword : HEADER_SIZE + 4 * (k + 1) ≤ size := le_of_add_le_left hlooked
        exact ⟨hword, (hs.reads_iff hword).mpr hlooked⟩
    · have hnone := not_exists.mp hfirst
      rw [scan_none hnone, forall_range'_lt_iff h.size]
      exact ⟨fun h => ⟨fun k hk => absurd hk (hnone k), fun _ => h⟩, fun h => h.none hnone⟩
  · exact iff_of_true (decodeResponse_rejected h).2 fun h' => absurd h' h

/-- A response of 20 bytes whose length field promises four more. -/
def promising : Memory := fun i =>
  ([0x01, 0x01, 0x00, 0x04, 0x21, 0x12, 0xA4, 0x42] : Bytes).getD i 0

/-- Decoding it reads four bytes that were not received. -/
theorem promising_reads_outside : ¬ ∀ i ∈ (decodeResponse promising 20).2, i < 20 := by
  decide +kernel

end StunClient

end Wga
