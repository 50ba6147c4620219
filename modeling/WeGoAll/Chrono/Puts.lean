import WeGoAll.Chrono.Chain
import WeGoAll.Support.Runs

/-!
# Chrono — Puts

A store under puts of blocks with any intervals: overlapping, with gaps, late or repeated.

* `Drains`: what `addNextTimeBlock` does when it returns, one constructor for each end of a call.
* `put_iff`: everything a put that returns can do.
* `history_immutable`: no put changes what the store answers about the time before its expiration.
* `stranded_iff`: no buffered block is left behind in a run exactly when the blocks each put joins
  to the timeline fit before the buffered blocks that start later.
-/

namespace Wga

variable {κ ν : Type} [DecidableEq κ] [DecidableEq ν]

namespace ChronoMap

/-! ### What `addNextTimeBlock` does -/

/-- The values of a block are entered, and its end is the new expiration time. -/
def enter (b : Block κ ν) (m : ChronoMap κ ν) : ChronoMap κ ν :=
  { m with
    data := b.data.entries.foldl (fun data (e : Σ _ : κ, ν) =>
      addValue b.startTime data e.1 e.2) m.data
    expirationTime := b.endTime }

/-- The first buffered block is taken out. -/
def unbuffer (m : ChronoMap κ ν) : ChronoMap κ ν :=
  { m with futureData := m.futureData.eraseFirst }

/-- The two checks of `addNextTimeBlock`. -/
structure Enterable (b : Block κ ν) (m : ChronoMap κ ν) : Prop where
  startTime : m.expirationTime = b.startTime
  rooted : m.data.entries = [] → b.startTime = 0

/-- `addNextTimeBlock` of `b` leads from `m` to `m'`. -/
inductive Drains : Block κ ν → ChronoMap κ ν → ChronoMap κ ν → Prop where
  | stop {b : Block κ ν} {m : ChronoMap κ ν} (hb : Enterable b m)
      (h : ∀ e ∈ m.futureData.entries.head?, e.1 ≠ b.endTime) : Drains b m (enter b m)
  | next {b b' : Block κ ν} {m m' : ChronoMap κ ν} (hb : Enterable b m)
      (h : m.futureData.entries.head? = some (b.endTime, b'))
      (hd : Drains b' (unbuffer (enter b m)) m') : Drains b m m'

omit [DecidableEq κ] [DecidableEq ν] in
/-- A store with a buffered block at the head of its buffer. -/
theorem entries_of_head {m : ChronoMap κ ν} {e : Int × Block κ ν}
    (h : m.futureData.entries.head? = some e) :
    m.futureData.entries = e :: m.unbuffer.futureData.entries := by
  cases hm : m.futureData.entries with
  | nil =>
      rw [hm] at h
      cases h
  | cons a l =>
      rw [hm] at h
      cases h
      simp [unbuffer, TimeMap.eraseFirst, hm]

/-- A block that fails a check is not entered. -/
theorem enterable_of_ok {fuel : Nat} {b : Block κ ν} {m m' : ChronoMap κ ν}
    (h : addNextTimeBlock (fuel + 1) b m = .ok m') : Enterable b m := by
  rw [addNextTimeBlock] at h
  split at h
  · cases h
  · split at h
    · cases h
    · rename_i h₁ h₂
      exact ⟨not_not.mp h₁, fun hnil => not_not.mp fun h₀ => h₂ ⟨hnil, h₀⟩⟩

/-- A block entered while no block is buffered. -/
theorem addNextTimeBlock_nil {fuel : Nat} {b : Block κ ν} {m : ChronoMap κ ν} (hb : Enterable b m)
    (hf : m.futureData.entries = []) : addNextTimeBlock (fuel + 1) b m = .ok (enter b m) := by
  rw [addNextTimeBlock, if_neg (not_not.mpr hb.startTime), if_neg fun h₀ => h₀.2 (hb.rooted h₀.1)]
  simp only [hf]
  rfl

/-- A block entered while blocks are buffered: the first of them may come next. -/
theorem addNextTimeBlock_cons {fuel : Nat} {b b' : Block κ ν} {m : ChronoMap κ ν} {t : Int}
    {l : List (Int × Block κ ν)} (hb : Enterable b m) (hf : m.futureData.entries = (t, b') :: l) :
    addNextTimeBlock (fuel + 1) b m =
      if t = b.endTime then addNextTimeBlock fuel b' (unbuffer (enter b m))
      else .ok (enter b m) := by
  rw [addNextTimeBlock, if_neg (not_not.mpr hb.startTime), if_neg fun h₀ => h₀.2 (hb.rooted h₀.1)]
  simp only [hf]
  rfl

/-- **`addNextTimeBlock` with enough fuel.** -/
theorem addNextTimeBlock_iff {fuel : Nat} {b : Block κ ν} {m m' : ChronoMap κ ν}
    (hfuel : m.futureData.entries.length < fuel) :
    addNextTimeBlock fuel b m = .ok m' ↔ Drains b m m' := by
  induction fuel generalizing b m with
  | zero => omega
  | succ fuel ih =>
      cases hf : m.futureData.entries with
      | nil =>
          constructor
          · intro h
            have hb := enterable_of_ok h
            rw [addNextTimeBlock_nil hb hf] at h
            cases h
            exact .stop hb (by simp [hf])
          · rintro (⟨hb, -⟩ | ⟨-, h, -⟩)
            · exact addNextTimeBlock_nil hb hf
            · rw [hf] at h
              cases h
      | cons e l =>
          obtain ⟨t, b'⟩ := e
          have hl : (unbuffer (enter b m)).futureData.entries = l := by
            simp [unbuffer, enter, TimeMap.eraseFirst, hf]
          have hlen : (unbuffer (enter b m)).futureData.entries.length < fuel := by
            rw [hf] at hfuel
            rw [hl]
            exact Nat.lt_of_succ_lt_succ hfuel
          by_cases ht : t = b.endTime
          · constructor
            · intro h
              have hb := enterable_of_ok h
              rw [addNextTimeBlock_cons hb hf, if_pos ht, ih hlen] at h
              exact .next hb (by rw [hf, ht]; rfl) h
            · rintro (⟨hb, h⟩ | ⟨hb, h, hd⟩)
              · exact absurd ht (h (t, b') (by simp [hf]))
              · rw [addNextTimeBlock_cons hb hf, if_pos ht, ih hlen]
                rw [hf] at h
                cases h
                exact hd
          · constructor
            · intro h
              have hb := enterable_of_ok h
              rw [addNextTimeBlock_cons hb hf, if_neg ht] at h
              cases h
              refine .stop hb fun e he => ?_
              rw [hf] at he
              cases he
              exact ht
            · rintro (⟨hb, -⟩ | ⟨-, h, -⟩)
              · rw [addNextTimeBlock_cons hb hf, if_neg ht]
              · rw [hf] at h
                cases h
                exact absurd rfl ht

/-- **Everything a put that returns can do**: it ignores a late block, buffers an early one and
applies the next one. -/
theorem put_iff {s e : Int} {d : UnorderedMap κ ν} {m m' : ChronoMap κ ν} :
    m.put s e d = .ok m' ↔ 0 ≤ s ∧
      (s < m.expirationTime ∧ m' = m ∨
        m.expirationTime < s ∧ s < e ∧
          m' = { m with futureData := m.futureData.emplace s ⟨s, e, d⟩ } ∨
        s = m.expirationTime ∧ s < e ∧ Drains ⟨s, e, d⟩ m m') := by
  rw [put]
  by_cases h₀ : s < 0
  · simp [h₀]
  rw [if_neg h₀]
  have h₀' : 0 ≤ s := not_lt.mp h₀
  rcases lt_trichotomy s m.expirationTime with hlt | heq | hgt
  · rw [if_pos hlt]
    constructor
    · intro h
      cases h
      exact ⟨h₀', .inl ⟨hlt, rfl⟩⟩
    · rintro ⟨-, ⟨-, rfl⟩ | ⟨h, -⟩ | ⟨h, -⟩⟩
      · rfl
      · omega
      · omega
  · rw [if_neg (by omega)]
    by_cases he : s < e
    · rw [if_neg (by omega), if_neg (not_not.mpr heq), addNextTimeBlock_iff (Nat.lt_succ_self _)]
      constructor
      · exact fun h => ⟨h₀', .inr (.inr ⟨heq, he, h⟩)⟩
      · rintro ⟨-, ⟨h, -⟩ | ⟨h, -⟩ | ⟨-, -, h⟩⟩
        · omega
        · omega
        · exact h
    · rw [if_pos (by omega)]
      constructor
      · intro h
        cases h
      · rintro ⟨-, ⟨h, -⟩ | ⟨h, -⟩ | ⟨-, h, -⟩⟩ <;> omega
  · rw [if_neg (by omega)]
    by_cases he : s < e
    · rw [if_neg (by omega), if_pos (by omega)]
      constructor
      · intro h
        cases h
        exact ⟨h₀', .inr (.inl ⟨hgt, he, rfl⟩)⟩
      · rintro ⟨-, ⟨h, -⟩ | ⟨-, -, rfl⟩ | ⟨h, -⟩⟩
        · omega
        · rfl
        · omega
    · rw [if_pos (by omega)]
      constructor
      · intro h
        cases h
      · rintro ⟨-, ⟨h, -⟩ | ⟨-, h, -⟩ | ⟨h, -⟩⟩ <;> omega

/-! ### What the tables have in common -/

/-- The changes are older than the expiration time, and the buffered blocks are not empty
intervals, each under its start. -/
structure Timed (m : ChronoMap κ ν) : Prop where
  filled : Filled m.data
  entries_lt : ∀ k, ∀ e ∈ timesOf m.data k, e.1 < m.expirationTime
  buffered : ∀ e ∈ m.futureData.entries, e.1 = e.2.startTime ∧ e.2.startTime < e.2.endTime

omit [DecidableEq ν] in
theorem Timed.new : Timed (new : ChronoMap κ ν) where
  filled k times hk := by
    rw [ChronoMap.new, AList.lookup_empty] at hk
    cases hk
  entries_lt k e he := by
    simp only [timesOf, ChronoMap.new, AList.lookup_empty] at he
    cases he
  buffered e he := by cases he

omit [DecidableEq ν] in
/-- What the store answers, by the changes of the key. -/
theorem get_eq (t : Int) (k : κ) (m : ChronoMap κ ν) : m.get t k =
    if t < 0 then .error (.fatal "Invalid time stamp")
    else if t ≥ m.expirationTime then .ok none
    else .ok (((timesOf m.data k).takeWhile fun e => e.1 ≤ t).getLast?.map Prod.snd) := by
  unfold get timesOf
  cases m.data.lookup k <;> rfl

omit [DecidableEq ν] in
theorem Timed.unbuffer {m : ChronoMap κ ν} (h : m.Timed) : m.unbuffer.Timed where
  filled := h.filled
  entries_lt := h.entries_lt
  buffered e he := h.buffered e (List.mem_of_mem_tail he)

/-- What a key has after a block is entered. -/
theorem Timed.timesOf_enter {m : ChronoMap κ ν} (h : m.Timed) {b : Block κ ν}
    (hb : m.expirationTime = b.startTime) (k : κ) : timesOf (enter b m).data k =
      timesOf m.data k ++
        ((b.data.lookup k).bind (newEntry b.startTime (timesOf m.data k))).toList :=
  timesOf_foldl_addValue h.filled (fun k e he => hb ▸ h.entries_lt k e he) k

theorem Timed.enter {m : ChronoMap κ ν} (h : m.Timed) {b : Block κ ν}
    (hb : m.expirationTime = b.startTime) (hlt : b.startTime < b.endTime) :
    (enter b m).Timed where
  filled := (foldl_addValue b.data.nodupKeys h.filled
    (fun k e he => hb ▸ h.entries_lt k e he)).1
  entries_lt k e he := by
    rw [h.timesOf_enter hb] at he
    show e.1 < b.endTime
    rcases List.mem_append.mp he with he | he
    · have := h.entries_lt k e he
      omega
    · obtain ⟨v, -, hv⟩ := Option.bind_eq_some_iff.mp (Option.mem_toList.mp he)
      rw [newEntry] at hv
      split at hv
      · cases hv
      · cases hv
        exact hlt
  buffered := h.buffered

/-- **Entering a block** changes no answer about the time before it. -/
theorem Timed.get_enter {m : ChronoMap κ ν} (h : m.Timed) {b : Block κ ν}
    (hb : m.expirationTime = b.startTime) (hlt : b.startTime < b.endTime) {t : Int}
    (ht : t < m.expirationTime) (k : κ) : (ChronoMap.enter b m).get t k = m.get t k := by
  have ht' : ¬ t ≥ (ChronoMap.enter b m).expirationTime := by
    show ¬ t ≥ b.endTime
    omega
  rw [get_eq, get_eq, if_neg ht', if_neg (not_le.mpr ht), h.timesOf_enter hb]
  have htake : ∀ l : List (Int × ν), (∀ e ∈ l, e.1 = b.startTime) →
      (timesOf m.data k ++ l).takeWhile (fun e => e.1 ≤ t) =
        (timesOf m.data k).takeWhile fun e => e.1 ≤ t := by
    intro l hl
    have hnil : l.takeWhile (fun e => e.1 ≤ t) = [] := by
      cases l with
      | nil => rfl
      | cons e l =>
          have he := hl e List.mem_cons_self
          rw [List.takeWhile_cons, if_neg]
          simp only [decide_eq_true_eq]
          omega
    rw [List.takeWhile_append, hnil, List.append_nil]
    split
    · rename_i hlen
      exact (List.IsPrefix.eq_of_length (List.takeWhile_prefix _) hlen).symm
    · rfl
  rw [htake]
  intro e he
  obtain ⟨v, -, hv⟩ := Option.bind_eq_some_iff.mp (Option.mem_toList.mp he)
  rw [newEntry] at hv
  split at hv
  · cases hv
  · cases hv
    rfl

/-- **What `addNextTimeBlock` keeps.** -/
theorem Drains.timed {b : Block κ ν} {m m' : ChronoMap κ ν} (hd : Drains b m m') (hm : m.Timed)
    (hlt : b.startTime < b.endTime) : m'.Timed ∧ m.expirationTime ≤ m'.expirationTime ∧
      ∀ t < m.expirationTime, ∀ k, m'.get t k = m.get t k := by
  induction hd with
  | @stop b m hb h =>
      refine ⟨hm.enter hb.startTime hlt, ?_, fun t ht => hm.get_enter hb.startTime hlt ht⟩
      show m.expirationTime ≤ b.endTime
      rw [hb.startTime]
      exact hlt.le
  | @next b b' m m' hb h hd ih =>
      have hmem : (b.endTime, b') ∈ m.futureData.entries := List.mem_of_mem_head? h
      obtain ⟨ht, hle, hget⟩ := ih (hm.enter hb.startTime hlt).unbuffer (hm.buffered _ hmem).2
      have hle : b.endTime ≤ m'.expirationTime := hle
      have hstart := hb.startTime
      refine ⟨ht, by omega, fun t ht k => ?_⟩
      rw [hget t (show t < b.endTime by omega) k]
      exact hm.get_enter hb.startTime hlt ht k

/-- **What a put keeps.** -/
theorem put_timed {s e : Int} {d : UnorderedMap κ ν} {m m' : ChronoMap κ ν} (hm : m.Timed)
    (h : m.put s e d = .ok m') : m'.Timed ∧ m.expirationTime ≤ m'.expirationTime ∧
      ∀ t < m.expirationTime, ∀ k, m'.get t k = m.get t k := by
  obtain ⟨-, ⟨-, rfl⟩ | ⟨-, hse, rfl⟩ | ⟨-, hse, hd⟩⟩ := put_iff.mp h
  · exact ⟨hm, le_rfl, fun _ _ _ => rfl⟩
  · refine ⟨⟨hm.filled, hm.entries_lt, fun a ha => ?_⟩, le_rfl, fun _ _ _ => rfl⟩
    rcases TimeMap.mem_emplace ha with rfl | ha
    · exact ⟨rfl, hse⟩
    · exact hm.buffered a ha
  · exact hd.timed hm hse

/-! ### Runs -/

/-- A store and the puts that return. -/
def store (κ ν : Type) [DecidableEq κ] [DecidableEq ν] : System (ChronoMap κ ν) (Block κ ν) :=
  .ofStep (· = .new) fun m b => m.put b.startTime b.endTime b.data

theorem timed_of_run {bs : List (Block κ ν)} {m : ChronoMap κ ν} (hr : (store κ ν).Run bs m) :
    m.Timed := by
  refine hr.invariant (fun m hm => ?_) (fun m b m' hm h => ?_)
  · rw [show m = .new from hm]
    exact Timed.new
  · exact (put_timed hm (show m.put b.startTime b.endTime b.data = .ok m' from h)).1

/-- **History is immutable.**  A put moves the expiration time forward or not at all, and leaves
every answer about the time before it as it was. -/
theorem history_immutable {m m' : ChronoMap κ ν} (hm : (store κ ν).Reachable m) {s e : Int}
    {d : UnorderedMap κ ν} (h : m.put s e d = .ok m') : m.expirationTime ≤ m'.expirationTime ∧
      ∀ k t, t < m.expirationTime → m'.get t k = m.get t k := by
  obtain ⟨bs, hr⟩ := hm
  obtain ⟨-, hle, hget⟩ := put_timed (timed_of_run hr) h
  exact ⟨hle, fun k t ht => hget t ht k⟩

/-- Two blocks, the second of which has to wait, and then the one between them. -/
theorem history_immutable_gap : ∃ m m', (store Nat Nat).Reachable m ∧
    m.put 10 20 (.singleton 1 2) = .ok m' ∧ m'.expirationTime = 30 ∧
    ∀ k t, t < 10 → m'.get t k = m.get t k := by
  have hrun : ∃ m, [⟨0, 10, .singleton 1 1⟩, ⟨20, 30, .singleton 1 3⟩].foldlM
      (fun m (b : Block Nat Nat) => m.put b.startTime b.endTime b.data) ChronoMap.new = .ok m ∧
      m.expirationTime = 10 ∧ ∃ m', m.put 10 20 (.singleton 1 2) = .ok m' ∧
        m'.expirationTime = 30 := by
    decide +kernel
  obtain ⟨m, hm, hexp, m', hput, hexp'⟩ := hrun
  have hr : (store Nat Nat).Reachable m := ⟨_, System.run_from.mpr hm⟩
  refine ⟨m, m', hr, hput, hexp', fun k t ht => ?_⟩
  exact (history_immutable hr hput).2 k t (hexp ▸ ht)

/-! ### Buffered blocks -/

/-- Every buffered block starts after the expiration time. -/
def NoneStranded (m : ChronoMap κ ν) : Prop :=
  ∀ e ∈ m.futureData.entries, m.expirationTime < e.1

/-- The blocks `b` joins to the timeline: itself, and each buffered one that starts where a joined
one ends. -/
inductive Joined (b : Block κ ν) (m : ChronoMap κ ν) : Block κ ν → Prop where
  | self : Joined b m b
  | next {x y : Block κ ν} (h : Joined b m x) (hy : (x.endTime, y) ∈ m.futureData.entries) :
      Joined b m y

/-- No joined block ends after the start of a buffered block that starts later. -/
def Fits (b : Block κ ν) (m : ChronoMap κ ν) : Prop :=
  ∀ x, Joined b m x → ∀ e ∈ m.futureData.entries, x.startTime < e.1 → x.endTime ≤ e.1

omit [DecidableEq κ] [DecidableEq ν] in
/-- Joined blocks follow the first one. -/
theorem Joined.start_le {b x : Block κ ν} {m : ChronoMap κ ν} (h : Joined b m x)
    (hbuf : ∀ e ∈ m.futureData.entries, e.1 = e.2.startTime ∧ e.2.startTime < e.2.endTime)
    (hlt : b.startTime < b.endTime) : b.startTime ≤ x.startTime ∧ x.startTime < x.endTime := by
  induction h with
  | self => exact ⟨le_rfl, hlt⟩
  | next h hy ih =>
      obtain ⟨heq, hlt⟩ := hbuf _ hy
      dsimp only at heq hlt
      exact ⟨by omega, hlt⟩

/-- The blocks joined by `b`, when the first buffered block starts where it ends. -/
theorem joined_next {b b' x : Block κ ν} {m : ChronoMap κ ν}
    (h : m.futureData.entries.head? = some (b.endTime, b')) :
    Joined b m x ↔ x = b ∨ Joined b' (unbuffer (enter b m)) x := by
  have hent : m.futureData.entries =
      (b.endTime, b') :: (unbuffer (enter b m)).futureData.entries := entries_of_head h
  have hsorted := (List.pairwise_cons.mp (hent ▸ m.futureData.sorted)).1
  have hhead : (b.endTime, b') ∈ m.futureData.entries := List.mem_of_mem_head? h
  have htail : ∀ e ∈ (unbuffer (enter b m)).futureData.entries, e ∈ m.futureData.entries :=
    fun e he => List.mem_of_mem_tail he
  constructor
  · intro hj
    induction hj with
    | self => exact .inl rfl
    | @next x y hj hy ih =>
        rw [hent] at hy
        rcases List.mem_cons.mp hy with heq | hy
        · -- only `b` itself ends where the first buffered block starts
          obtain ⟨-, rfl⟩ := Prod.mk.inj heq
          exact .inr .self
        · rcases ih with rfl | hj'
          · exact absurd (hsorted _ hy) (lt_irrefl _)
          · exact .inr (.next hj' hy)
  · rintro (rfl | hj)
    · exact .self
    · induction hj with
      | self => exact .next .self hhead
      | next hj hy ih => exact .next ih (htail _ hy)

/-- **Nothing is left behind by `addNextTimeBlock` exactly when the block fits.** -/
theorem Drains.noneStranded_iff {b : Block κ ν} {m m' : ChronoMap κ ν} (hd : Drains b m m')
    (hm : m.Timed) (hlt : b.startTime < b.endTime) (hn : m.NoneStranded) :
    m'.NoneStranded ↔ Fits b m := by
  induction hd with
  | @stop b m hb h =>
      have hstart := hb.startTime
      constructor
      · intro hn'
        have hself : ∀ x, Joined b m x → x = b := by
          intro x hj
          induction hj with
          | self => rfl
          | next hj hy ih =>
              rw [ih] at hy
              exact absurd (hn' _ hy) (lt_irrefl _)
        intro x hj e he _
        rw [hself x hj]
        exact (hn' e he).le
      · intro hf e he
        have he : e ∈ m.futureData.entries := he
        have hle : ∀ a ∈ m.futureData.entries, b.endTime ≤ a.1 := fun a ha =>
          hf b .self a ha (hstart ▸ hn a ha)
        refine lt_of_le_of_ne (hle e he) fun heq => ?_
        cases hent : m.futureData.entries with
        | nil =>
            rw [hent] at he
            cases he
        | cons a l =>
            rw [hent] at h he
            rcases List.mem_cons.mp he with rfl | he
            · exact h e rfl heq.symm
            · -- the first one starts earlier, within `b`
              have hlt' := (List.pairwise_cons.mp (hent ▸ m.futureData.sorted)).1 e he
              have hle' := hle a (hent ▸ List.mem_cons_self)
              have heq : b.endTime = e.1 := heq
              omega
  | @next b b' m m' hb h hd ih =>
      have hent : m.futureData.entries =
          (b.endTime, b') :: (unbuffer (enter b m)).futureData.entries := entries_of_head h
      have hsorted : ∀ e ∈ (unbuffer (enter b m)).futureData.entries, b.endTime < e.1 :=
        (List.pairwise_cons.mp (hent ▸ m.futureData.sorted)).1
      obtain ⟨hb', hlt'⟩ := hm.buffered _ (List.mem_of_mem_head? h)
      have hm₁ : (unbuffer (enter b m)).Timed := (hm.enter hb.startTime hlt).unbuffer
      rw [ih hm₁ hlt' hsorted]
      constructor
      · intro hf x hj e he hxe
        rw [hent] at he
        rcases (joined_next h).mp hj with rfl | hj
        · rcases List.mem_cons.mp he with rfl | he
          · exact le_rfl
          · exact (hsorted e he).le
        · rcases List.mem_cons.mp he with rfl | he
          · have hle := (hj.start_le hm₁.buffered hlt').1
            have hb' : b.endTime = b'.startTime := hb'
            have hxe : x.startTime < b.endTime := hxe
            omega
          · exact hf x hj e he hxe
      · intro hf x hj e he hxe
        exact hf x ((joined_next h).mpr (.inr hj)) e
          (hent ▸ List.mem_cons_of_mem _ he) hxe

/-- **One put** leaves nothing behind exactly when the block it applies, if it applies one, fits. -/
theorem put_noneStranded_iff {b : Block κ ν} {m m' : ChronoMap κ ν} (hm : m.Timed)
    (hn : m.NoneStranded) (h : m.put b.startTime b.endTime b.data = .ok m') :
    m'.NoneStranded ↔ (b.startTime = m.expirationTime → Fits b m) := by
  obtain ⟨-, ⟨hlt, rfl⟩ | ⟨hlt, -, rfl⟩ | ⟨heq, hlt, hd⟩⟩ := put_iff.mp h
  · exact ⟨fun _ heq => absurd heq hlt.ne, fun _ => hn⟩
  · refine ⟨fun _ heq => absurd heq hlt.ne', fun _ e he => ?_⟩
    rcases TimeMap.mem_emplace he with rfl | he
    · exact hlt
    · exact hn e he
  · rw [hd.noneStranded_iff hm hlt hn]
    exact ⟨fun hf _ => hf, fun hf => hf heq⟩

/-- **No block is left behind in a run exactly when every block that a put applies fits**: neither
it nor a buffered block joined to it ends after the start of another buffered block that starts
later. -/
theorem stranded_iff {bs : List (Block κ ν)} {m : ChronoMap κ ν} (hr : (store κ ν).Run bs m) :
    (∀ p m, p <+: bs → (store κ ν).Run p m → m.NoneStranded) ↔
      ∀ p m b, p ++ [b] <+: bs → (store κ ν).Run p m → b.startTime = m.expirationTime →
        Fits b m := by
  refine System.Run.always_iff (P := fun _ m => m.NoneStranded)
    (C := fun _ m b => b.startTime = m.expirationTime → Fits b m)
    (fun p m m' => System.run_from_unique) (fun m hm => ?_)
    (fun p m b m' hm hn h => put_noneStranded_iff (timed_of_run hm) hn h) hr
  rw [show m = .new from hm]
  exact fun e he => by cases he

/-- A block that is applied reaches past the start of a buffered one; then the timeline gets to
where another block waits. -/
def overlapping : List (Block Nat Nat) :=
  [⟨10, 20, .singleton 1 2⟩, ⟨0, 15, .singleton 1 1⟩, ⟨20, 30, .singleton 1 3⟩, ⟨15, 20, ∅⟩]

theorem overlapping_ends : ∃ m, overlapping.foldlM
    (fun m (b : Block Nat Nat) => m.put b.startTime b.endTime b.data) ChronoMap.new = .ok m ∧
    m.expirationTime = 20 ∧ m.futureData.entries.map Prod.fst = [10, 20] := by
  decide +kernel

/-- The condition on the run of those puts. -/
theorem stranded_iff_overlapping : ∃ m, (store Nat Nat).Run overlapping m ∧
    ((∀ p m, p <+: overlapping → (store Nat Nat).Run p m → m.NoneStranded) ↔
      ∀ p m b, p ++ [b] <+: overlapping → (store Nat Nat).Run p m →
        b.startTime = m.expirationTime → Fits b m) := by
  obtain ⟨m, hm, -⟩ := overlapping_ends
  exact ⟨m, System.run_from.mpr hm, stranded_iff (System.run_from.mpr hm)⟩

/-- **A buffered block can be left behind**, and then the block that starts where the timeline ends
stays in the buffer with it. -/
theorem overlapping_stranded :
    (∀ b ∈ overlapping, 0 ≤ b.startTime ∧ b.startTime < b.endTime) ∧
    ∃ m, (store Nat Nat).Run overlapping m ∧ m.expirationTime = 20 ∧
      m.futureData.entries.map Prod.fst = [10, 20] ∧ ¬ m.NoneStranded := by
  refine ⟨by decide, ?_⟩
  obtain ⟨m, hm, hexp, hfut⟩ := overlapping_ends
  refine ⟨m, System.run_from.mpr hm, hexp, hfut, fun hn => ?_⟩
  have hmem : (10 : Int) ∈ m.futureData.entries.map Prod.fst := hfut ▸ List.mem_cons_self
  obtain ⟨e, he, heq⟩ := List.mem_map.mp hmem
  have hlt := hn e he
  rw [hexp, heq] at hlt
  exact absurd hlt (by decide)

end ChronoMap

end Wga
