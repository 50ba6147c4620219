import WeGoAll.Base.ChronoMap
import WeGoAll.Support.Except
import WeGoAll.Support.Timeline

/-!
# Chrono — Chain

Puts of the blocks of one chain, in any order, with omissions and repetitions.

* `Chain.put_ok`: such a put succeeds and keeps `Chain.Inv`: the store is the one after the first
  blocks in order, as many as have all been put, and the others wait.
* `Chain.Inv.get`: what the store answers.
-/

namespace Wga

open Timeline

variable {κ ν : Type}

/-! ### The changes of a key -/

namespace TimeMap

/-- A later entry goes to the end. -/
theorem insertEntry_of_lt {t : Int} {v : ν} {l : List (Int × ν)} (h : ∀ e ∈ l, e.1 < t) :
    insertEntry t v l = l ++ [(t, v)] := by
  induction l with
  | nil => rfl
  | cons e es ih =>
      have he : e.1 < t := h e List.mem_cons_self
      rw [insertEntry, if_neg (by omega), if_neg (by omega),
        ih fun a ha => h a (List.mem_cons_of_mem _ ha), List.cons_append]

theorem mem_entries_set {t : Int} {v : ν} {m : TimeMap ν} {a : Int × ν}
    (h : a ∈ (m.set t v).entries) : a = (t, v) ∨ a ∈ m.entries := mem_insertEntry h

theorem fst_mem_insertEntry (t : Int) (v : ν) (l : List (Int × ν)) :
    ∀ s, s ∈ (insertEntry t v l).map Prod.fst ↔ s = t ∨ s ∈ l.map Prod.fst := by
  intro s
  induction l with
  | nil => simp [insertEntry]
  | cons e es ih =>
      rw [insertEntry]
      split
      · simp
      · split
        · rename_i heq
          simp [heq]
        · simp only [List.map_cons, List.mem_cons, ih]
          tauto

theorem fst_mem_emplace (t : Int) (v : ν) (m : TimeMap ν) (s : Int) :
    s ∈ (m.emplace t v).entries.map Prod.fst ↔ s = t ∨ s ∈ m.entries.map Prod.fst := by
  rw [emplace]
  split
  · rename_i h
    exact ⟨Or.inr, fun hs => hs.elim (fun e => e ▸ h) id⟩
  · exact fst_mem_insertEntry t v m.entries s

theorem mem_emplace {t : Int} {v : ν} {m : TimeMap ν} {a : Int × ν}
    (h : a ∈ (m.emplace t v).entries) : a = (t, v) ∨ a ∈ m.entries := by
  rw [emplace] at h
  split at h
  · exact Or.inr h
  · exact mem_entries_set h

end TimeMap

variable [DecidableEq κ] [DecidableEq ν]

namespace ChronoMap

/-- The entries under a key. -/
def timesOf (data : UnorderedMap κ (TimeMap ν)) (k : κ) : List (Int × ν) :=
  match data.lookup k with
  | none => []
  | some times => times.entries

/-- No key has an empty map. -/
def Filled (data : UnorderedMap κ (TimeMap ν)) : Prop :=
  ∀ k times, data.lookup k = some times → times.entries ≠ []

/-- The entry a new value adds to those of its key. -/
def newEntry (t : Int) (l : List (Int × ν)) (v : ν) : Option (Int × ν) :=
  if l.getLast?.map Prod.snd = some v then none else some (t, v)

theorem addValue_spec {t : Int} {data : UnorderedMap κ (TimeMap ν)} (hf : Filled data) {k : κ}
    {v : ν} (ht : ∀ e ∈ timesOf data k, e.1 < t) :
    Filled (addValue t data k v) ∧
    timesOf (addValue t data k v) k =
      timesOf data k ++ (newEntry t (timesOf data k) v).toList ∧
    ∀ k', k' ≠ k → timesOf (addValue t data k v) k' = timesOf data k' := by
  unfold addValue
  cases hk : data.lookup k with
  | none =>
      refine ⟨fun k' times hk' => ?_, ?_, fun k' hne => ?_⟩
      · by_cases hkk : k' = k
        · subst hkk
          rw [AList.lookup_insert] at hk'
          cases hk'
          exact List.cons_ne_nil _ _
        · rw [AList.lookup_insert_ne hkk] at hk'
          exact hf k' times hk'
      · simp [timesOf, hk, newEntry, AList.lookup_insert, TimeMap.single]
      · simp only [timesOf, AList.lookup_insert_ne hne]
  | some times =>
      have htimes : timesOf data k = times.entries := by simp only [timesOf, hk]
      dsimp only
      split
      · rename_i hlast
        refine ⟨hf, ?_, fun _ _ => rfl⟩
        have hn : newEntry t (timesOf data k) v = none := by
          rw [htimes, newEntry]
          exact if_pos hlast
        rw [hn, Option.toList_none, List.append_nil]
      · rename_i hlast
        refine ⟨fun k' times' hk' => ?_, ?_, fun k' hne => ?_⟩
        · by_cases hkk : k' = k
          · subst hkk
            rw [AList.lookup_insert] at hk'
            cases hk'
            intro hnil
            have hmem : t ∈ (times.set t v).entries.map Prod.fst :=
              (TimeMap.fst_mem_insertEntry t v times.entries t).mpr (Or.inl rfl)
            rw [hnil] at hmem
            cases hmem
          · rw [AList.lookup_insert_ne hkk] at hk'
            exact hf k' times' hk'
        · have hn : newEntry t (timesOf data k) v = some (t, v) := by
            rw [htimes, newEntry]
            exact if_neg hlast
          rw [hn, Option.toList_some]
          simp only [timesOf, AList.lookup_insert, hk]
          exact TimeMap.insertEntry_of_lt fun e he => ht e (htimes ▸ he)
        · simp only [timesOf, AList.lookup_insert_ne hne]

/-- **The loop over the new values** adds to every key the value the block has for it. -/
theorem foldl_addValue {t : Int} {l : List (Σ _ : κ, ν)} (hl : l.NodupKeys)
    {data : UnorderedMap κ (TimeMap ν)} (hf : Filled data)
    (ht : ∀ k, ∀ e ∈ timesOf data k, e.1 < t) :
    Filled (l.foldl (fun data (e : Σ _ : κ, ν) => addValue t data e.1 e.2) data) ∧
    ∀ k, timesOf (l.foldl (fun data (e : Σ _ : κ, ν) => addValue t data e.1 e.2) data) k =
      timesOf data k ++ ((l.dlookup k).bind (newEntry t (timesOf data k))).toList := by
  suffices h : ∀ data' : UnorderedMap κ (TimeMap ν), Filled data' →
      (∀ k, l.dlookup k ≠ none → timesOf data' k = timesOf data k) →
      Filled (l.foldl (fun data (e : Σ _ : κ, ν) => addValue t data e.1 e.2) data') ∧
      ∀ k, timesOf (l.foldl (fun data (e : Σ _ : κ, ν) => addValue t data e.1 e.2) data') k =
        timesOf data' k ++ ((l.dlookup k).bind (newEntry t (timesOf data k))).toList from
    h data hf fun _ _ => rfl
  induction l with
  | nil => exact fun data' hf' _ => ⟨hf', fun k => (List.append_nil _).symm⟩
  | cons e l ih =>
      obtain ⟨k₀, v⟩ := e
      obtain ⟨hk₀, hl⟩ := List.nodupKeys_cons.mp hl
      intro data' hf' hsame
      have hs₀ : timesOf data' k₀ = timesOf data k₀ := hsame k₀ (by simp)
      have hnone : l.dlookup k₀ = none := List.dlookup_eq_none.mpr hk₀
      obtain ⟨hf₁, hnew, hother⟩ := addValue_spec hf' (k := k₀) (v := v)
        (fun e he => ht k₀ e (hs₀ ▸ he))
      obtain ⟨hf₂, hall⟩ := ih hl (addValue t data' k₀ v) hf₁ fun k hk => by
        have hne : k ≠ k₀ := fun h => hk (h ▸ hnone)
        rw [hother k hne]
        exact hsame k (by rw [List.dlookup_cons_ne _ _ hne]; exact hk)
      refine ⟨hf₂, fun k => ?_⟩
      rw [List.foldl_cons, hall k]
      by_cases hkk : k = k₀
      · subst hkk
        rw [hnew, hnone, List.dlookup_cons_eq, hs₀]
        simp
      · rw [hother k hkk, List.dlookup_cons_ne _ _ hkk]

/-- What a key has after a block, by the changes before it. -/
theorem timesOf_foldl_addValue {t : Int} {b : UnorderedMap κ ν}
    {data : UnorderedMap κ (TimeMap ν)} (hf : Filled data)
    (ht : ∀ k, ∀ e ∈ timesOf data k, e.1 < t) (k : κ) :
    timesOf (b.entries.foldl (fun data (e : Σ _ : κ, ν) => addValue t data e.1 e.2) data) k =
      timesOf data k ++ ((b.lookup k).bind (newEntry t (timesOf data k))).toList :=
  (foldl_addValue b.nodupKeys hf ht).2 k

end ChronoMap

/-! ### A chain -/

/-- Blocks that follow each other from time 0; the first one is not empty. -/
structure Chain (κ ν : Type) where
  length : Nat
  time : Nat → Int
  values : Nat → κ → Option ν
  time_zero : time 0 = 0
  time_lt : ∀ j < length, time j < time (j + 1)
  first : 0 < length → ∃ k, values 0 k ≠ none

namespace Chain

open ChronoMap

variable (C : Chain κ ν)

/-- `b` is the block `j` of the chain. -/
structure IsBlock (j : Nat) (b : Block κ ν) : Prop where
  startTime : b.startTime = C.time j
  endTime : b.endTime = C.time (j + 1)
  data : ∀ k, b.data.lookup k = C.values j k

/-- The store has the first `m` blocks. -/
structure Applied (m : Nat) (s : ChronoMap κ ν) : Prop where
  le : m ≤ C.length
  expirationTime : s.expirationTime = C.time m
  filled : Filled s.data
  times : ∀ k, timesOf s.data k = timeline C.time C.values m k

/-- The blocks in `R` after the block `m` wait, and nothing else does. -/
structure Waiting (R : Nat → Prop) (m : Nat) (s : ChronoMap κ ν) : Prop where
  sound : ∀ e ∈ s.futureData.entries, ∃ j, m < j ∧ j < C.length ∧ R j ∧ e.1 = C.time j ∧
    C.IsBlock j e.2
  complete : ∀ j, R j → m < j → j < C.length → C.time j ∈ s.futureData.entries.map Prod.fst

/-- **The state after puts of the blocks in `R`**: the first `m` blocks are applied, `m` being the
first that was not put, and the others wait. -/
def Inv (R : Nat → Prop) (s : ChronoMap κ ν) : Prop :=
  ∃ m, C.Applied m s ∧ C.Waiting R m s ∧ (∀ j < m, R j) ∧ (m < C.length → ¬ R m)

variable {C}

/-- A store that has a block has a key. -/
theorem Applied.nonempty {m : Nat} {s : ChronoMap κ ν} (h : C.Applied m s) (hm : 0 < m) :
    s.data.entries ≠ [] := by
  intro hnil
  obtain ⟨k, hk⟩ := C.first (hm.trans_le h.le)
  have hempty : timesOf s.data k = [] := by
    have hl : s.data.lookup k = none := AList.lookup_eq_none.mpr fun hmem => by
      rw [AList.mem_keys, AList.keys, hnil] at hmem
      cases hmem
    simp only [timesOf, hl]
  have hlast := getLast_timeline C.time C.values m k
  rw [← h.times k, hempty] at hlast
  obtain ⟨v, hv⟩ := Option.ne_none_iff_exists'.mp hk
  have hnone : ∀ n, 0 < n → latest C.values n k ≠ none := by
    intro n hn
    induction n with
    | zero => omega
    | succ n ih =>
        rw [latest]
        cases n with
        | zero => simp [hv]
        | succ n =>
            intro hor
            exact ih (Nat.succ_pos n) (Option.or_eq_none_iff.mp hor).2
  exact hnone m hm hlast.symm

/-- Applying the next block. -/
theorem Applied.addBlock {m : Nat} {s : ChronoMap κ ν} (h : C.Applied m s) (hm : m < C.length)
    {b : Block κ ν} (hb : C.IsBlock m b) {f : TimeMap (Block κ ν)} :
    C.Applied (m + 1) ⟨b.data.entries.foldl (fun data (e : Σ _ : κ, ν) =>
      addValue b.startTime data e.1 e.2) s.data, b.endTime, f⟩ := by
  have ht : ∀ k, ∀ e ∈ timesOf s.data k, e.1 < b.startTime := by
    intro k e he
    rw [h.times k] at he
    obtain ⟨j, hj, he⟩ := mem_timeline he
    rw [he, hb.startTime]
    exact Timeline.time_lt C.time_lt hj h.le
  refine ⟨hm, hb.endTime, (foldl_addValue b.data.nodupKeys h.filled ht).1, fun k => ?_⟩
  show timesOf (List.foldl _ s.data b.data.entries) k = _
  rw [timesOf_foldl_addValue h.filled ht k, h.times k, timeline, hb.data k, hb.startTime]
  refine congrArg (timeline C.time C.values m k ++ ·) (congrArg Option.toList ?_)
  have hlast := getLast_timeline C.time C.values m k
  rw [delta]
  cases hv : C.values m k with
  | none =>
      split <;> rfl
  | some v =>
      rw [Option.bind_some, newEntry, hlast]
      split <;> rfl

omit [DecidableEq ν] in
/-- More blocks that are applied or wait already. -/
theorem Waiting.mono {R R' : Nat → Prop} {m : Nat} {s : ChronoMap κ ν} (h : C.Waiting R m s)
    (hR : ∀ j, R j → R' j) (hnew : ∀ j, R' j → m < j → R j) : C.Waiting R' m s where
  sound := fun e he => by
    obtain ⟨j, hj, hjn, hRj, he⟩ := h.sound e he
    exact ⟨j, hj, hjn, hR j hRj, he⟩
  complete := fun j hRj hj => h.complete j (hnew j hRj hj) hj

omit [DecidableEq ν] in
/-- Where the next block was not put, the blocks that wait come after it. -/
theorem Waiting.skip {R : Nat → Prop} {m : Nat} {s s' : ChronoMap κ ν} (h : C.Waiting R m s)
    (hnot : m + 1 < C.length → ¬ R (m + 1)) (hs : s'.futureData = s.futureData) :
    C.Waiting R (m + 1) s' := by
  refine ⟨fun e he => ?_, fun j hRj hj hjn => ?_⟩
  · obtain ⟨j, hj, hjn, hRj, he⟩ := h.sound e (hs ▸ he)
    exact ⟨j, Nat.lt_of_le_of_ne hj fun heq => hnot (heq ▸ hjn) (heq ▸ hRj), hjn, hRj, he⟩
  · rw [hs]
    exact h.complete j hRj (by omega) hjn

omit [DecidableEq ν] in
/-- Where the first block that waits is not the next one, that one was not put. -/
theorem Waiting.not_next {R : Nat → Prop} {m : Nat} {s : ChronoMap κ ν} (h : C.Waiting R m s)
    (hfirst : ∀ e ∈ s.futureData.entries.head?, e.1 ≠ C.time (m + 1)) (hlt : m + 1 < C.length) :
    ¬ R (m + 1) := by
  intro hRm
  have hmem := h.complete (m + 1) hRm (Nat.lt_succ_self m) hlt
  cases hfut : s.futureData.entries with
  | nil =>
      rw [hfut] at hmem
      cases hmem
  | cons e es =>
      rw [hfut, List.map_cons, List.mem_cons] at hmem
      rcases hmem with heq | hmem
      · exact hfirst e (by simp [hfut]) heq.symm
      · -- the first one is at the time of a later block, and the next one after it
        obtain ⟨a, hmem, hax⟩ := List.mem_map.mp hmem
        obtain ⟨j₀, hj₀, hj₀n, -, htj₀, -⟩ := h.sound e (hfut ▸ List.mem_cons_self)
        have h₁ : e.1 < a.1 := (List.pairwise_cons.mp (hfut ▸ s.futureData.sorted)).1 a hmem
        have h₂ := Timeline.time_le C.time_lt hj₀ hj₀n.le
        rw [hax, htj₀] at h₁
        exact absurd (h₁.trans_le h₂) (lt_irrefl _)

omit [DecidableEq ν] in
/-- The next block, where it is the first that waits. -/
theorem Waiting.first {R : Nat → Prop} {m : Nat} {s : ChronoMap κ ν} {e : Int × Block κ ν}
    {es : List (Int × Block κ ν)} (h : C.Waiting R m s) (hm : m < C.length)
    (hfut : s.futureData.entries = e :: es) (hnext : e.1 = C.time (m + 1)) :
    m + 1 < C.length ∧ R (m + 1) ∧ C.IsBlock (m + 1) e.2 := by
  obtain ⟨j₀, -, hj₀n, hRj₀, htj₀, hb⟩ := h.sound e (hfut ▸ List.mem_cons_self)
  obtain rfl : j₀ = m + 1 := Timeline.time_inj C.time_lt hj₀n.le hm (htj₀.symm.trans hnext)
  exact ⟨hj₀n, hRj₀, hb⟩

omit [DecidableEq ν] in
/-- The others come after it. -/
theorem Waiting.next {R : Nat → Prop} {m : Nat} {s s' : ChronoMap κ ν} {e : Int × Block κ ν}
    {es : List (Int × Block κ ν)} (h : C.Waiting R m s) (hm : m < C.length)
    (hfut : s.futureData.entries = e :: es) (hnext : e.1 = C.time (m + 1))
    (hs : s'.futureData.entries = es) : C.Waiting R (m + 1) s' := by
  refine ⟨fun a ha => ?_, fun j hRj hj hjn => ?_⟩
  · rw [hs] at ha
    obtain ⟨j, hj, hjn, hRj, haj, hba⟩ := h.sound a (hfut ▸ List.mem_cons_of_mem _ ha)
    have hlt : C.time (m + 1) < C.time j := by
      rw [← hnext, ← haj]
      exact (List.pairwise_cons.mp (hfut ▸ s.futureData.sorted)).1 a ha
    refine ⟨j, Nat.lt_of_le_of_ne hj fun h => ?_, hjn, hRj, haj, hba⟩
    subst h
    exact absurd hlt (lt_irrefl _)
  · have hmem := h.complete j hRj (by omega) hjn
    rw [hfut, List.map_cons, List.mem_cons] at hmem
    rcases hmem with heq | hmem
    · have hjj : j = m + 1 := Timeline.time_inj C.time_lt hjn.le hm (heq.trans hnext)
      omega
    · rw [hs]
      exact hmem

/-- **`addNextTimeBlock` of the next block** applies it and every waiting block that follows. -/
theorem addNextTimeBlock_ok {R : Nat → Prop} {fuel m : Nat} {s : ChronoMap κ ν}
    (ha : C.Applied m s) (hw : C.Waiting R m s) (hR : ∀ j ≤ m, R j) (hm : m < C.length)
    {b : Block κ ν} (hb : C.IsBlock m b) (hfuel : s.futureData.entries.length < fuel) :
    ∃ s', addNextTimeBlock fuel b s = .ok s' ∧ C.Inv R s' := by
  -- induction on the fuel: every call below takes one waiting block
  induction fuel generalizing m s b with
  | zero => omega
  | succ fuel ih =>
      have hstart : ¬ s.expirationTime ≠ b.startTime := by
        rw [ha.expirationTime, hb.startTime]
        exact fun h => h rfl
      have hdata : ¬ (s.data.entries = [] ∧ b.startTime ≠ 0) := by
        rintro ⟨hnil, hne⟩
        rcases Nat.eq_zero_or_pos m with rfl | hpos
        · exact hne (hb.startTime.trans C.time_zero)
        · exact ha.nonempty hpos hnil
      have ha' := fun f => ha.addBlock hm hb (f := f)
      have stop : (∀ e ∈ s.futureData.entries.head?, e.1 ≠ C.time (m + 1)) →
          ∀ s', C.Applied (m + 1) s' → s'.futureData = s.futureData → C.Inv R s' :=
        fun hfirst s' hs' hfut => ⟨m + 1, hs', hw.skip (hw.not_next hfirst) hfut,
          fun j hj => hR j (Nat.le_of_lt_succ hj), hw.not_next hfirst⟩
      rw [addNextTimeBlock, if_neg hstart, if_neg hdata]
      dsimp only
      cases hfut : s.futureData.entries with
      | nil => exact ⟨_, rfl, stop (by simp [hfut]) _ (ha' _) rfl⟩
      | cons e es =>
          obtain ⟨t, b'⟩ := e
          dsimp only
          split
          · rename_i htime
            -- the first waiting block is the next one
            have htail : s.futureData.eraseFirst.entries = es := congrArg List.tail hfut
            have hnext : t = C.time (m + 1) := htime.trans hb.endTime
            obtain ⟨hmn, hRm, hb'⟩ := hw.first hm hfut hnext
            refine ih (ha' _) (hw.next hm hfut hnext htail) (fun j hj => ?_) hmn hb' ?_
            · rcases Nat.le_succ_iff.mp hj with hj | rfl
              · exact hR j hj
              · exact hRm
            · show s.futureData.eraseFirst.entries.length < fuel
              rw [htail]
              rw [hfut] at hfuel
              exact Nat.lt_of_succ_lt_succ hfuel
          · rename_i htime
            refine ⟨_, rfl, stop (fun e he => ?_) _ (ha' _) rfl⟩
            rw [hfut] at he
            cases he
            exact fun h => htime (h.trans hb.endTime.symm)

/-! ### Puts of the blocks -/

theorem Inv.new : C.Inv (fun _ => False) ChronoMap.new := by
  refine ⟨0, ⟨Nat.zero_le _, C.time_zero.symm, fun k times hk => ?_, fun k => rfl⟩,
    ⟨fun e he => ?_, fun _ h => h.elim⟩, fun j hj => absurd hj (Nat.not_lt_zero j), fun _ h => h⟩
  · rw [ChronoMap.new, AList.lookup_empty] at hk
    cases hk
  · cases he

/-- **A put of a block of the chain** succeeds and keeps the invariant. -/
theorem put_ok {R : Nat → Prop} {s : ChronoMap κ ν} (h : C.Inv R s) (j : Nat)
    (hj : j < C.length) (data : UnorderedMap κ ν) (hd : ∀ k, data.lookup k = C.values j k) :
    ∃ s', s.put (C.time j) (C.time (j + 1)) data = .ok s' ∧ C.Inv (fun i => R i ∨ i = j) s' := by
  obtain ⟨m, ha, hw, hR, hnot⟩ := h
  have h₀ : ¬ C.time j < 0 := by
    rw [← C.time_zero]
    exact not_lt.mpr (Timeline.time_le C.time_lt (Nat.zero_le j) hj.le)
  have hb : C.IsBlock j ⟨C.time j, C.time (j + 1), data⟩ := ⟨rfl, rfl, hd⟩
  have hlt := C.time_lt j hj
  rw [put, if_neg h₀, ha.expirationTime]
  rcases Nat.lt_trichotomy j m with hjm | rfl | hjm
  · -- a block already applied
    rw [if_pos (Timeline.time_lt C.time_lt hjm ha.le)]
    refine ⟨s, rfl, m, ha, hw.mono (fun i => Or.inl) fun i hRi hi => ?_,
      fun i hi => Or.inl (hR i hi), fun hm hRm => ?_⟩
    · exact hRi.resolve_right (by omega)
    · rcases hRm with hRm | rfl
      · exact hnot hm hRm
      · omega
  · -- the next block
    rw [if_neg (lt_irrefl _), if_neg (not_le.mpr hlt), if_neg (not_not.mpr rfl)]
    refine addNextTimeBlock_ok ha (hw.mono (fun i => Or.inl) fun i hRi hi => ?_) (fun i hi => ?_) hj
      hb (Nat.lt_succ_self _)
    · exact hRi.resolve_right (by omega)
    · rcases Nat.lt_or_eq_of_le hi with hi | rfl
      · exact Or.inl (hR i hi)
      · exact Or.inr rfl
  · -- a block that has to wait
    have hlt' := Timeline.time_lt C.time_lt hjm hj.le
    rw [if_neg (not_lt.mpr hlt'.le), if_neg (not_le.mpr hlt), if_pos hlt'.ne']
    refine ⟨_, rfl, m, ⟨ha.le, rfl, ha.filled, ha.times⟩,
      ⟨fun e he => ?_, fun i hRi hi hin => ?_⟩, fun i hi => Or.inl (hR i hi), fun hm hRm => ?_⟩
    · rcases TimeMap.mem_emplace he with rfl | he
      · exact ⟨j, hjm, hj, Or.inr rfl, rfl, hb⟩
      · obtain ⟨i, hi, hin, hRi, he⟩ := hw.sound e he
        exact ⟨i, hi, hin, Or.inl hRi, he⟩
    · refine (TimeMap.fst_mem_emplace _ _ _ _).mpr ?_
      rcases hRi with hRi | rfl
      · exact Or.inr (hw.complete i hRi hi hin)
      · exact Or.inl rfl
    · rcases hRm with hRm | rfl
      · exact hnot hm hRm
      · omega

/-- How many blocks the store has: as many as follow each other in `R` from the first. -/
theorem Inv.expirationTime {R : Nat → Prop} {s : ChronoMap κ ν} (h : C.Inv R s) {m : Nat}
    (hm : m ≤ C.length) (hR : ∀ j < m, R j) (hnot : m < C.length → ¬ R m) :
    s.expirationTime = C.time m ∧ C.Applied m s := by
  obtain ⟨m', ha, -, hR', hnot'⟩ := h
  have heq : m' = m := by
    rcases Nat.lt_trichotomy m' m with hlt | heq | hlt
    · exact absurd (hR m' hlt) (hnot' (hlt.trans_le hm))
    · exact heq
    · exact absurd (hR' m hlt) (hnot (hlt.trans_le ha.le))
  subst heq
  exact ⟨ha.expirationTime, ha⟩

/-- **What the store answers** at a time in the interval of a block it has: the value of the key in
the last block up to that one that has it. -/
theorem Applied.get {m : Nat} {s : ChronoMap κ ν} (ha : C.Applied m s) {i : Nat} (hi : i < m)
    {t : Int} (h₁ : C.time i ≤ t) (h₂ : t < C.time (i + 1)) (k : κ) :
    s.get t k = .ok (latest C.values (i + 1) k) := by
  have h₀ : ¬ t < 0 := by
    have h := Timeline.time_le C.time_lt (Nat.zero_le i) (hi.le.trans ha.le)
    rw [C.time_zero] at h
    omega
  have hexp : ¬ t ≥ s.expirationTime := by
    rw [ha.expirationTime]
    exact not_le.mpr (h₂.trans_le (Timeline.time_le C.time_lt hi ha.le))
  have htake := takeWhile_timeline (d := C.values) C.time_lt hi ha.le h₁ h₂ k
  have hlast := getLast_timeline C.time C.values (i + 1) k
  have htimes := ha.times k
  rw [ChronoMap.get, if_neg h₀, if_neg hexp]
  unfold timesOf at htimes
  cases hk : s.data.lookup k with
  | none =>
      rw [hk] at htimes
      rw [← htake, ← htimes] at hlast
      exact congrArg Except.ok hlast
  | some times =>
      rw [hk] at htimes
      dsimp only at htimes ⊢
      rw [TimeMap.valueAt, htimes, htake, hlast]

end Chain

end Wga
