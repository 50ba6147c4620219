import WeGoAll.Chrono.Puts
import WeGoAll.Chrono.Replication

/-!
# Chrono — Aborts

When a put of a valid interval aborts.  `addNextTimeBlock` takes a store without keys for a new one
and refuses any block that does not start at 0.  A store has no keys either after a first block
without values, and then no further block can be applied.

* `Rooted`: the blocks put do not run into that check.
* `aborts_iff`: a sequence of valid puts aborts nowhere exactly when it is rooted, and the history
  of a peer can be recorded exactly when its first call carries data or is its only one.
-/

namespace Wga

variable {κ ν : Type} [DecidableEq κ] [DecidableEq ν]

namespace ChronoMap

/-! ### Keys -/

theorem mem_addValue {t : Int} {data : UnorderedMap κ (TimeMap ν)} {k a : κ} {v : ν} :
    a ∈ addValue t data k v ↔ a = k ∨ a ∈ data := by
  unfold addValue
  cases hk : data.lookup k with
  | none => exact AList.mem_insert _
  | some times =>
      have hmem : k ∈ data := AList.lookup_isSome.mp (by rw [hk]; rfl)
      dsimp only
      split
      · exact ⟨.inr, fun h => h.elim (fun h => h ▸ hmem) id⟩
      · exact AList.mem_insert _

/-- The keys after a block is entered: those before and those of the block. -/
theorem mem_enter {b : Block κ ν} {m : ChronoMap κ ν} {a : κ} :
    a ∈ (enter b m).data ↔ a ∈ b.data ∨ a ∈ m.data := by
  have hloop : ∀ (l : List (Σ _ : κ, ν)) (data : UnorderedMap κ (TimeMap ν)),
      a ∈ l.foldl (fun data (e : Σ _ : κ, ν) => addValue b.startTime data e.1 e.2) data ↔
        a ∈ l.keys ∨ a ∈ data := by
    intro l
    induction l with
    | nil => exact fun data => ⟨.inr, fun h => h.elim (fun h => absurd h List.not_mem_nil) id⟩
    | cons e l ih =>
        intro data
        rw [List.foldl_cons, ih, mem_addValue, List.keys_cons, List.mem_cons]
        tauto
  exact hloop b.data.entries m.data

theorem enter_entries_eq_nil {b : Block κ ν} {m : ChronoMap κ ν} :
    (enter b m).data.entries = [] ↔ b.data.entries = [] ∧ m.data.entries = [] := by
  rw [UnorderedMap.entries_eq_nil, UnorderedMap.entries_eq_nil, UnorderedMap.entries_eq_nil,
    ← forall_and]
  exact forall_congr' fun k => (not_congr mem_enter).trans not_or

/-! ### A store with keys -/

theorem Drains.enterable {b : Block κ ν} {m m' : ChronoMap κ ν} (hd : Drains b m m') :
    Enterable b m := by
  cases hd with
  | stop hb h => exact hb
  | next hb h hd => exact hb

/-- **Entering a block with the keys it needs** goes on until no buffered block follows. -/
theorem drains_exists {b : Block κ ν} {m : ChronoMap κ ν} (hm : m.Timed) (hb : Enterable b m)
    (hlt : b.startTime < b.endTime) (hne : (enter b m).data.entries ≠ []) :
    ∃ m', Drains b m m' ∧ m'.data.entries ≠ [] := by
  -- induction on the blocks that are buffered
  generalize hn : m.futureData.entries.length = n
  induction n generalizing b m with
  | zero =>
      rw [List.length_eq_zero_iff] at hn
      exact ⟨_, .stop hb (by simp [hn]), hne⟩
  | succ n ih =>
      by_cases hhead : ∃ b', m.futureData.entries.head? = some (b.endTime, b')
      · obtain ⟨b', hhead⟩ := hhead
        obtain ⟨hstart, hlt'⟩ := hm.buffered _ (List.mem_of_mem_head? hhead)
        have hne' : (enter b' (unbuffer (enter b m))).data.entries ≠ [] := fun hnil =>
          hne (enter_entries_eq_nil.mp hnil).2
        have hlen : (unbuffer (enter b m)).futureData.entries.length = n := by
          have hent : m.futureData.entries =
              (b.endTime, b') :: (unbuffer (enter b m)).futureData.entries := entries_of_head hhead
          rw [hent, List.length_cons] at hn
          omega
        obtain ⟨m', hd, hne''⟩ := ih (hm.enter hb.startTime hlt).unbuffer
          ⟨hstart, fun hnil => absurd hnil hne⟩ hlt' hne' hlen
        exact ⟨m', .next hb hhead hd, hne''⟩
      · refine ⟨_, .stop hb fun e he heq => hhead ⟨e.2, ?_⟩, hne⟩
        rw [← heq]
        exact he

/-- A put into a store that has keys. -/
theorem put_keyed {m : ChronoMap κ ν} (hm : m.Timed) (hne : m.data.entries ≠ []) {b : Block κ ν}
    (h₀ : 0 ≤ b.startTime) (hlt : b.startTime < b.endTime) :
    ∃ m', m.put b.startTime b.endTime b.data = .ok m' ∧ m'.Timed ∧ m'.data.entries ≠ [] := by
  have hput : ∃ m', m.put b.startTime b.endTime b.data = .ok m' ∧ m'.data.entries ≠ [] := by
    rcases lt_trichotomy b.startTime m.expirationTime with hlt' | heq | hgt
    · exact ⟨m, put_iff.mpr ⟨h₀, .inl ⟨hlt', rfl⟩⟩, hne⟩
    · have hne' : (enter b m).data.entries ≠ [] := fun hnil =>
        hne (enter_entries_eq_nil.mp hnil).2
      obtain ⟨m', hd, hne''⟩ := drains_exists hm ⟨heq.symm, fun hnil => absurd hnil hne⟩ hlt hne'
      exact ⟨m', put_iff.mpr ⟨h₀, .inr (.inr ⟨heq, hlt, hd⟩)⟩, hne''⟩
    · exact ⟨_, put_iff.mpr ⟨h₀, .inr (.inl ⟨hgt, hlt, rfl⟩)⟩, hne⟩
  obtain ⟨m', h, hne'⟩ := hput
  exact ⟨m', h, (put_timed hm h).1, hne'⟩

/-! ### Puts of a list of blocks -/

/-- The puts of some blocks, one after the other. -/
def putAll (bs : List (Block κ ν)) (m : ChronoMap κ ν) : Except Fault (ChronoMap κ ν) :=
  bs.foldlM (fun m b => m.put b.startTime b.endTime b.data) m

/-- Blocks with valid intervals. -/
def Valid (bs : List (Block κ ν)) : Prop :=
  ∀ b ∈ bs, 0 ≤ b.startTime ∧ b.startTime < b.endTime

instance (bs : List (Block κ ν)) : Decidable (Valid bs) :=
  inferInstanceAs (Decidable (∀ b ∈ bs, _))

theorem putAll_cons {b : Block κ ν} {bs : List (Block κ ν)} {m : ChronoMap κ ν} :
    putAll (b :: bs) m = (m.put b.startTime b.endTime b.data >>= putAll bs) := List.foldlM_cons

theorem putAll_append {as bs : List (Block κ ν)} {m : ChronoMap κ ν} :
    putAll (as ++ bs) m = (putAll as m >>= putAll bs) := List.foldlM_append

/-- A store with keys takes any valid blocks. -/
theorem putAll_keyed {bs : List (Block κ ν)} (hbs : Valid bs) {m : ChronoMap κ ν} (hm : m.Timed)
    (hne : m.data.entries ≠ []) : ∃ m', putAll bs m = .ok m' := by
  obtain ⟨m', h, -⟩ := foldlM_ok
    (f := fun (m : ChronoMap κ ν) (b : Block κ ν) => m.put b.startTime b.endTime b.data)
    (I := fun m => m.Timed ∧ m.data.entries ≠ [])
    (fun m b hb hI => put_keyed hI.1 hI.2 (hbs b hb).1 (hbs b hb).2) ⟨hm, hne⟩
  exact ⟨m', h⟩

/-- Before the first block at 0 all blocks are buffered. -/
theorem putAll_young {bs : List (Block κ ν)} (hbs : Valid bs) (hne : ∀ b ∈ bs, b.startTime ≠ 0)
    {m : ChronoMap κ ν} (hexp : m.expirationTime = 0) (hnil : m.data.entries = []) :
    ∃ m', putAll bs m = .ok m' ∧ m'.expirationTime = 0 ∧ m'.data.entries = [] ∧
      ∀ t, t ∈ m'.futureData.entries.map Prod.fst ↔
        t ∈ m.futureData.entries.map Prod.fst ∨ ∃ b ∈ bs, b.startTime = t := by
  induction bs generalizing m with
  | nil => exact ⟨m, rfl, hexp, hnil, fun t => by simp⟩
  | cons b bs ih =>
      obtain ⟨h₀, hlt⟩ := hbs b List.mem_cons_self
      have hb := hne b List.mem_cons_self
      have hput : m.put b.startTime b.endTime b.data = .ok _ :=
        put_iff.mpr ⟨h₀, .inr (.inl ⟨by omega, hlt, rfl⟩)⟩
      obtain ⟨m', h, hexp', hnil', hkeys⟩ := ih (fun a ha => hbs a (List.mem_cons_of_mem _ ha))
        (fun a ha => hne a (List.mem_cons_of_mem _ ha))
        (m := { m with futureData := m.futureData.emplace b.startTime ⟨_, _, b.data⟩ }) hexp hnil
      refine ⟨m', by rw [putAll_cons, hput, ok_bind, h], hexp', hnil', fun t => ?_⟩
      rw [hkeys, TimeMap.fst_mem_emplace]
      simp only [List.mem_cons, exists_eq_or_imp]
      constructor
      · rintro ((rfl | ht) | ht)
        · exact .inr (.inl rfl)
        · exact .inl ht
        · exact .inr (.inr ht)
      · rintro (ht | rfl | ht)
        · exact .inl (.inr ht)
        · exact .inl (.inl rfl)
        · exact .inr ht

/-- A store that has an expiration time and no key takes the valid blocks that do not start
there. -/
theorem putAll_barren {bs : List (Block κ ν)} (hbs : Valid bs) {m : ChronoMap κ ν}
    (hexp : m.expirationTime ≠ 0) (hnil : m.data.entries = []) :
    (∃ m', putAll bs m = .ok m') ↔ ∀ b ∈ bs, b.startTime ≠ m.expirationTime := by
  induction bs generalizing m with
  | nil => exact ⟨fun _ b hb => absurd hb List.not_mem_nil, fun _ => ⟨m, rfl⟩⟩
  | cons b bs ih =>
      obtain ⟨h₀, hlt⟩ := hbs b List.mem_cons_self
      have hbs' : Valid bs := fun a ha => hbs a (List.mem_cons_of_mem _ ha)
      rw [putAll_cons, List.forall_mem_cons]
      by_cases heq : b.startTime = m.expirationTime
      · -- the check for the empty store refuses the block
        refine iff_of_false (fun ⟨m', h⟩ => ?_) fun h => h.1 heq
        obtain ⟨m₁, hput, -⟩ := bind_ok.mp h
        obtain ⟨-, ⟨h, -⟩ | ⟨h, -⟩ | ⟨-, -, hd⟩⟩ := put_iff.mp hput
        · omega
        · omega
        · exact hexp (heq ▸ hd.enterable.rooted hnil)
      · obtain ⟨m₁, hput, hexp₁, hnil₁⟩ : ∃ m₁, m.put b.startTime b.endTime b.data = .ok m₁ ∧
            m₁.expirationTime = m.expirationTime ∧ m₁.data.entries = [] := by
          rcases lt_or_gt_of_ne heq with hlt' | hgt
          · exact ⟨m, put_iff.mpr ⟨h₀, .inl ⟨hlt', rfl⟩⟩, rfl, hnil⟩
          · exact ⟨_, put_iff.mpr ⟨h₀, .inr (.inl ⟨hgt, hlt, rfl⟩)⟩, rfl, hnil⟩
        rw [hput, ok_bind, ih hbs' (hexp₁ ▸ hexp) hnil₁, hexp₁]
        exact ⟨fun h => ⟨heq, h⟩, And.right⟩

/-- The first block at 0 carries a key; or no block can follow it, neither the earliest of those
put before it nor one put after it. -/
def Rooted (bs : List (Block κ ν)) : Prop :=
  ∀ pre b post, bs = pre ++ b :: post → b.startTime = 0 → (∀ a ∈ pre, a.startTime ≠ 0) →
    b.data.entries ≠ [] ∨
      ((∃ a ∈ pre, a.startTime = b.endTime) → ∃ a ∈ pre, a.startTime < b.endTime) ∧
        ∀ a ∈ post, a.startTime ≠ b.endTime

theorem putAll_timed {bs : List (Block κ ν)} {m m' : ChronoMap κ ν} (hm : m.Timed)
    (h : putAll bs m = .ok m') : m'.Timed :=
  foldlM_invariant (I := Timed) (fun _ _ _ _ hm h => (put_timed hm h).1) hm h

/-- A block that leaves the store without keys is the last one applied. -/
theorem drains_keyless_iff {b : Block κ ν} {m m' : ChronoMap κ ν} (hb : Enterable b m)
    (hend : b.endTime ≠ 0) (hnil : (enter b m).data.entries = []) :
    Drains b m m' ↔ m' = enter b m ∧ ∀ e ∈ m.futureData.entries.head?, e.1 ≠ b.endTime := by
  constructor
  · rintro (⟨-, h⟩ | ⟨-, -, hd⟩)
    · exact ⟨rfl, h⟩
    · have hstart : b.endTime = _ := hd.enterable.startTime
      exact absurd (hstart.trans (hd.enterable.rooted hnil)) hend
  · rintro ⟨rfl, h⟩
    exact .stop hb h

omit [DecidableEq κ] [DecidableEq ν] in
/-- The first buffered block starts at `t`: one does, and none starts earlier. -/
theorem head_ne_iff {m : ChronoMap κ ν} {t : Int} :
    (∀ e ∈ m.futureData.entries.head?, e.1 ≠ t) ↔
      ((∃ e ∈ m.futureData.entries, e.1 = t) → ∃ e ∈ m.futureData.entries, e.1 < t) := by
  cases hent : m.futureData.entries with
  | nil => simp
  | cons a l =>
      have hsorted := (List.pairwise_cons.mp (hent ▸ m.futureData.sorted)).1
      constructor
      · rintro h ⟨e, he, rfl⟩
        rcases List.mem_cons.mp he with rfl | he
        · exact absurd rfl (h e rfl)
        · exact ⟨a, List.mem_cons_self, hsorted e he⟩
      · rintro h _ ⟨⟩ heq
        obtain ⟨e, he, hlt⟩ := h ⟨a, List.mem_cons_self, heq⟩
        rcases List.mem_cons.mp he with rfl | he
        · omega
        · have := hsorted e he
          omega

/-- **The puts around the first block at 0.** -/
theorem putAll_split {pre post : List (Block κ ν)} {b : Block κ ν} (hbs : Valid (pre ++ b :: post))
    (hb : b.startTime = 0) (hpre : ∀ a ∈ pre, a.startTime ≠ 0) :
    (∃ m, putAll (pre ++ b :: post) .new = .ok m) ↔ b.data.entries ≠ [] ∨
      ((∃ a ∈ pre, a.startTime = b.endTime) → ∃ a ∈ pre, a.startTime < b.endTime) ∧
        ∀ a ∈ post, a.startTime ≠ b.endTime := by
  have hvpre : Valid pre := fun a ha => hbs a (List.mem_append_left _ ha)
  have hvpost : Valid post := fun a ha =>
    hbs a (List.mem_append_right _ (List.mem_cons_of_mem _ ha))
  obtain ⟨h₀, hlt⟩ := hbs b (List.mem_append_right _ List.mem_cons_self)
  obtain ⟨m, hm, hexp, hnil, hkeys⟩ := putAll_young hvpre hpre (m := ChronoMap.new) rfl rfl
  have htimed := putAll_timed Timed.new hm
  have henter : Enterable b m := ⟨hexp.trans hb.symm, fun _ => hb⟩
  have hput : ∀ m', m.put b.startTime b.endTime b.data = .ok m' ↔ Drains b m m' := fun m' => by
    rw [put_iff]
    constructor
    · rintro ⟨-, ⟨h, -⟩ | ⟨h, -⟩ | ⟨-, -, hd⟩⟩
      · omega
      · omega
      · exact hd
    · exact fun hd => ⟨h₀, .inr (.inr ⟨henter.startTime.symm, hlt, hd⟩)⟩
  rw [putAll_append, hm, ok_bind, putAll_cons]
  by_cases hd : b.data.entries = []
  · have hend : b.endTime ≠ 0 := by omega
    have henil : (enter b m).data.entries = [] := enter_entries_eq_nil.mpr ⟨hd, hnil⟩
    have hbuf : ∀ P : Int → Prop, (∃ e ∈ m.futureData.entries, P e.1) ↔
        ∃ a ∈ pre, P a.startTime := by
      intro P
      have hk : ∀ t, t ∈ m.futureData.entries.map Prod.fst ↔ t ∈ pre.map Block.startTime :=
        fun t => by simp [hkeys t, ChronoMap.new, TimeMap.empty]
      constructor
      · rintro ⟨e, he, hP⟩
        obtain ⟨a, ha, heq⟩ := List.mem_map.mp ((hk e.1).mp (List.mem_map_of_mem he))
        exact ⟨a, ha, heq ▸ hP⟩
      · rintro ⟨a, ha, hP⟩
        obtain ⟨e, he, heq⟩ := List.mem_map.mp ((hk a.startTime).mpr (List.mem_map_of_mem ha))
        exact ⟨e, he, heq ▸ hP⟩
    rw [or_iff_right (not_not.mpr hd), ← hbuf (· = b.endTime), ← hbuf (· < b.endTime),
      ← head_ne_iff]
    constructor
    · rintro ⟨m', h⟩
      obtain ⟨m₁, h₁, h⟩ := bind_ok.mp h
      obtain ⟨rfl, hhead⟩ := (drains_keyless_iff henter hend henil).mp ((hput m₁).mp h₁)
      exact ⟨hhead, (putAll_barren hvpost hend henil).mp ⟨m', h⟩⟩
    · rintro ⟨hhead, hpost⟩
      have h₁ := (hput _).mpr ((drains_keyless_iff henter hend henil).mpr ⟨rfl, hhead⟩)
      obtain ⟨m', h⟩ := (putAll_barren hvpost (m := enter b m) hend henil).mpr hpost
      exact ⟨m', by rw [h₁, ok_bind, h]⟩
  · refine iff_of_true ?_ (.inl hd)
    obtain ⟨m₁, hd₁, hne₁⟩ := drains_exists htimed henter hlt
      fun h => hd (enter_entries_eq_nil.mp h).1
    have h₁ := (hput m₁).mpr hd₁
    obtain ⟨m', h⟩ := putAll_keyed hvpost (put_timed htimed h₁).1 hne₁
    exact ⟨m', by rw [h₁, ok_bind, h]⟩

/-- **Valid puts abort nowhere exactly when they are rooted.** -/
theorem putAll_iff {bs : List (Block κ ν)} (hbs : Valid bs) :
    (∃ m, putAll bs .new = .ok m) ↔ Rooted bs := by
  constructor
  · rintro h pre b post rfl hb hpre
    exact (putAll_split hbs hb hpre).mp h
  · intro h
    cases hf : bs.find? (fun b => b.startTime = 0) with
    | none =>
        have hne : ∀ b ∈ bs, b.startTime ≠ 0 := fun b hb h₀ =>
          List.find?_eq_none.mp hf b hb (decide_eq_true h₀)
        obtain ⟨m, hm, -⟩ := putAll_young hbs hne (m := ChronoMap.new) rfl rfl
        exact ⟨m, hm⟩
    | some b =>
        obtain ⟨hb, pre, post, rfl, hpre⟩ := List.find?_eq_some_iff_append.mp hf
        have hb₀ : b.startTime = 0 := of_decide_eq_true hb
        have hpre₀ : ∀ a ∈ pre, a.startTime ≠ 0 := fun a ha h₀ => by
          simpa [h₀] using hpre a ha
        exact (putAll_split hbs hb₀ hpre₀).mpr (h pre b post rfl hb₀ hpre₀)

end ChronoMap

/-! ### Histories of a peer -/

open MyPeer ChronoMap

variable {L : Libraries}

/-- The put inside a call of `updateState`. -/
theorem updateState_put {t : Int} {data : UnorderedMap Bytes Bytes} {self self' : MyInputs}
    {s : Bytes} (h : updateState L t data self = .ok (s, self')) :
    self.playerInputData.put self.playerInputData.expirationTime t
      (self.playerInputData.getChanges data) = .ok self'.playerInputData := by
  obtain ⟨m, hm, h⟩ := bind_ok.mp h
  cases h
  exact hm

/-- What a block without values leaves of a new store. -/
theorem put_empty {t : Int} (ht : 0 < t) (data : UnorderedMap Bytes Bytes)
    (hd : data.entries = []) : ∃ m, (ChronoMap.new : ChronoMap Bytes Bytes).put 0 t data = .ok m ∧
      m.expirationTime = t ∧ m.data.entries = [] := by
  have hnil : (enter ⟨0, t, data⟩ (ChronoMap.new : ChronoMap Bytes Bytes)).data.entries = [] :=
    enter_entries_eq_nil.mpr ⟨hd, rfl⟩
  exact ⟨_, put_iff.mpr ⟨le_rfl, .inr (.inr ⟨rfl, ht,
    (drains_keyless_iff ⟨rfl, fun _ => rfl⟩ ht.ne' hnil).mpr ⟨rfl, by simp [new, TimeMap.empty]⟩⟩)⟩,
    rfl, hnil⟩

theorem getChanges_empty {data : UnorderedMap Bytes Bytes} (hd : data.entries = [])
    (m : ChronoMap Bytes Bytes) : m.getChanges data = ∅ := by
  rw [getChanges, hd]
  rfl

/-- **A peer cannot record a second call after a first one without data.** -/
theorem sendAll_empty {c₁ c₂ : Int × UnorderedMap Bytes Bytes}
    {cs : List (Int × UnorderedMap Bytes Bytes)} (hd : c₁.2.entries = []) (h₁ : 0 < c₁.1) :
    ¬ ∃ r, sendAll L (c₁ :: c₂ :: cs) = .ok r := by
  rintro ⟨r, h⟩
  rw [sendAll, List.foldlM_cons] at h
  obtain ⟨⟨sent₁, self₁⟩, hc₁, h⟩ := bind_ok.mp h
  rw [List.foldlM_cons] at h
  obtain ⟨⟨s₁, _⟩, hup₁, hc₁⟩ := bind_ok.mp hc₁
  cases hc₁
  obtain ⟨⟨sent₂, self₂⟩, hc₂, -⟩ := bind_ok.mp h
  obtain ⟨⟨s₂, _⟩, hup₂, -⟩ := bind_ok.mp hc₂
  obtain ⟨m, hm, hexp, hnil⟩ := put_empty h₁ ∅ rfl
  have hput₁ := updateState_put hup₁
  rw [getChanges_empty hd] at hput₁
  obtain rfl : m = self₁.playerInputData := Except.ok.inj (hm.symm.trans hput₁)
  obtain ⟨-, ⟨hlt, -⟩ | ⟨hlt, -⟩ | ⟨-, -, hdr⟩⟩ := put_iff.mp (updateState_put hup₂)
  · exact absurd hlt (lt_irrefl _)
  · exact absurd hlt (lt_irrefl _)
  · have h₀ := hdr.enterable.rooted hnil
    dsimp only at h₀
    omega

/-- A block without values, as many times as the window holds. -/
def emptyWindow (t : Int) : List (Block Bytes Bytes) :=
  List.replicate INPUT_SEND_WINDOW_SIZE ⟨0, t, ∅⟩

/-- A first call without data. -/
theorem updateState_empty (L : Libraries) {t : Int} (h₀ : 0 < t) {data : UnorderedMap Bytes Bytes}
    (hd : data.entries = []) : ∃ self, updateState L t data noInputs =
      .ok (L.pack ((emptyWindow t).flatMap blockObjects), self) ∧
      self.playerInputData.expirationTime = t ∧ self.playerInputData.data.entries = [] := by
  obtain ⟨m, hm, hexp, hnil⟩ := put_empty h₀ ∅ rfl
  refine ⟨⟨m, [⟨0, t, ∅⟩]⟩, ?_, hexp, hnil⟩
  unfold updateState
  dsimp only
  rw [getChanges_empty hd, show noInputs.playerInputData.put
    noInputs.playerInputData.expirationTime t ∅ = .ok m from hm]
  rfl

/-- What a peer broadcasts in its first call, when it carries no data. -/
theorem sendAll_single (L : Libraries) {c : Int × UnorderedMap Bytes Bytes}
    (hd : c.2.entries = []) (h₀ : 0 < c.1) :
    ∃ self, sendAll L [c] = .ok ([L.pack ((emptyWindow c.1).flatMap blockObjects)], self) := by
  obtain ⟨self, hup, -⟩ := updateState_empty L h₀ hd
  refine ⟨self, ?_⟩
  rw [sendAll, List.foldlM_cons]
  dsimp only
  rw [hup]
  rfl

/-- The store is new, or it has a block without values up to `t`. -/
def Barren (t : Int) (m : ChronoMap Bytes Bytes) : Prop :=
  m = .new ∨ m.expirationTime = t ∧ m.data.entries = []

/-- That broadcast is received. -/
theorem readInputs_empty {t : Int} (h₀ : 0 < t) (h₁ : t < 2 ^ 63) {m : ChronoMap Bytes Bytes}
    (hm : Barren t m) : ∃ m', readInputs L (L.pack ((emptyWindow t).flatMap blockObjects)) m =
      .ok m' ∧ m'.expirationTime = t ∧ m'.data.entries = [] := by
  have hput : ∀ (m : ChronoMap Bytes Bytes), Barren t m → ∃ m',
      m.put 0 t (toUnorderedMap []) = .ok m' ∧ m'.expirationTime = t ∧ m'.data.entries = [] := by
    intro m hm
    rcases hm with rfl | hm
    · exact put_empty h₀ ∅ rfl
    · exact ⟨m, put_iff.mpr ⟨le_rfl, .inl ⟨hm.1 ▸ h₀, rfl⟩⟩, hm⟩
  have hbounds : ∀ b ∈ emptyWindow t, (0 ≤ b.startTime ∧ b.startTime < 2 ^ 63) ∧
      0 ≤ b.endTime ∧ b.endTime < 2 ^ 63 := by
    intro b hb
    obtain rfl := List.eq_of_mem_replicate hb
    exact ⟨⟨le_rfl, show (0 : Int) < 2 ^ 63 by decide⟩, h₀.le, h₁⟩
  have heq := readBlocks_eq hbounds m
  rw [show (emptyWindow t).length = INPUT_SEND_WINDOW_SIZE from List.length_replicate] at heq
  obtain ⟨m₁, hm₁, h₁⟩ := hput m hm
  obtain ⟨m', h, hm'⟩ := foldlM_ok (l := (emptyWindow t).tail)
    (I := fun m : ChronoMap Bytes Bytes => m.expirationTime = t ∧ m.data.entries = [])
    (f := fun m b => m.put b.startTime b.endTime
      (toUnorderedMap (b.data.entries.map fun e => (e.1, e.2)))) (fun m b hb hm => by
        obtain rfl := List.eq_of_mem_replicate (List.mem_of_mem_tail hb)
        exact hput m (.inr hm)) h₁
  refine ⟨m', ?_, hm'⟩
  rw [readInputs, MessageReader.load_pack, heq]
  rw [show emptyWindow t = ⟨0, t, ∅⟩ :: (emptyWindow t).tail from rfl, List.foldlM_cons]
  exact (congrArg (· >>= _) hm₁).trans h

/-- That broadcast is received, however often. -/
theorem receiveAll_single {t : Int} (h₀ : 0 < t) (h₁ : t < 2 ^ 63) {sent : List Bytes}
    (hsent : ∀ s ∈ sent, s = L.pack ((emptyWindow t).flatMap blockObjects))
    (seq : List (Fin sent.length)) : ∃ remote, receiveAll L sent seq = .ok remote := by
  obtain ⟨remote, h, -⟩ := foldlM_ok (l := seq) (I := Barren t)
    (f := fun m i => readInputs L sent[i] m) (fun m i _ hm => by
      rw [hsent sent[i] (List.getElem_mem i.isLt)]
      obtain ⟨m', h, hm'⟩ := readInputs_empty h₀ h₁ hm
      exact ⟨m', h, .inr hm'⟩) (.inl rfl)
  exact ⟨remote, h⟩

/-- **A history is recorded, and received by every other peer, exactly when its first call carries
data or is its only one.** -/
theorem sendAll_iff (L : Libraries) {calls : List (Int × UnorderedMap Bytes Bytes)}
    (hinc : (calls.map Prod.fst).Pairwise (· < ·)) (hpos : ∀ c ∈ calls, 0 < c.1)
    (hmax : ∀ c ∈ calls, c.1 < 2 ^ 63) :
    (∃ sent self, sendAll L calls = .ok (sent, self) ∧
      ∀ seq, ∃ remote, receiveAll L sent seq = .ok remote) ↔
    ∀ c, calls.head? = some c → c.2.entries = [] → calls.length = 1 := by
  constructor
  · rintro ⟨sent, self, h, -⟩ c hc hd
    match calls, hc with
    | [c], rfl => rfl
    | c :: c₂ :: cs, rfl =>
        exact absurd ⟨_, h⟩ (sendAll_empty hd (hpos c List.mem_cons_self))
  · intro hcond
    by_cases hd : ∃ c, calls.head? = some c ∧ c.2.entries = []
    · obtain ⟨c, hc, hd⟩ := hd
      obtain ⟨a, rfl⟩ := List.length_eq_one_iff.mp (hcond c hc hd)
      cases hc
      obtain ⟨self, h⟩ := sendAll_single L hd (hpos c List.mem_cons_self)
      refine ⟨_, self, h, receiveAll_single (hpos c List.mem_cons_self)
        (hmax c List.mem_cons_self) fun s hs => List.mem_singleton.mp hs⟩
    · obtain ⟨sent, self, h, -, hlen, hcar⟩ := sendAll_ok (L := L)
        ⟨calls, hinc, hpos, hmax, fun c hc hd' => hd ⟨c, hc, hd'⟩⟩
      refine ⟨sent, self, h, fun seq => ?_⟩
      obtain ⟨remote, hr, -⟩ := receiveAll_ok hlen hcar seq
      exact ⟨remote, hr⟩

/-- **Valid intervals abort nowhere exactly when they are rooted**, and the calls of `updateState`
are recorded and received exactly when the first one carries data or is the only one. -/
theorem aborts_iff :
    (∀ bs : List (Block κ ν), Valid bs → ((∃ m, putAll bs .new = .ok m) ↔ Rooted bs)) ∧
    ∀ (L : Libraries) (calls : List (Int × UnorderedMap Bytes Bytes)),
      (calls.map Prod.fst).Pairwise (· < ·) → (∀ c ∈ calls, 0 < c.1) →
      (∀ c ∈ calls, c.1 < 2 ^ 63) →
      ((∃ sent self, sendAll L calls = .ok (sent, self) ∧
        ∀ seq, ∃ remote, receiveAll L sent seq = .ok remote) ↔
      ∀ c, calls.head? = some c → c.2.entries = [] → calls.length = 1) :=
  ⟨fun _ => putAll_iff, fun L _ => sendAll_iff L⟩

/-- A block without values that no block follows, and a call without data that is the only one. -/
theorem aborts_iff_idle :
    ((∃ m, putAll ([⟨0, 10, ∅⟩, ⟨20, 30, ∅⟩] : List (Block Nat Nat)) .new = .ok m) ↔
      Rooted ([⟨0, 10, ∅⟩, ⟨20, 30, ∅⟩] : List (Block Nat Nat))) ∧
    ((∃ sent self, sendAll .standIn [(10, ∅)] = .ok (sent, self) ∧
        ∀ seq, ∃ remote, receiveAll .standIn sent seq = .ok remote) ↔
      ∀ c, [((10 : Int), (∅ : UnorderedMap Bytes Bytes))].head? = some c → c.2.entries = [] →
        [((10 : Int), (∅ : UnorderedMap Bytes Bytes))].length = 1) :=
  ⟨aborts_iff.1 _ (by decide), (aborts_iff (κ := Nat) (ν := Nat)).2 .standIn _ (by decide)
    (by decide) (by decide)⟩

/-- **A block without values stops the store**: the next block aborts, whether it is put or recorded
by `updateState`. -/
theorem idle_aborts :
    Valid ([⟨0, 10, ∅⟩, ⟨10, 20, .singleton 1 1⟩] : List (Block Nat Nat)) ∧
    (¬ ∃ m, putAll ([⟨0, 10, ∅⟩, ⟨10, 20, .singleton 1 1⟩] : List (Block Nat Nat)) .new =
      .ok m) ∧
    ¬ ∃ r, sendAll .standIn [(10, ∅), (20, .singleton [1] [1])] = .ok r := by
  refine ⟨by decide, fun h => ?_, sendAll_empty rfl (by decide)⟩
  have hrooted := (putAll_iff (by decide)).mp h [] _ _ rfl rfl (by simp)
  simp at hrooted

end Wga
