import Mathlib.Order.Bounds.Basic
import WeGoAll.Chrono.Puts
import WeGoAll.Chrono.Replication

/-!
# Chrono — Arrival

A store that is given the blocks of one chain: it does not matter in which order they arrive, nor
how often.

* `getAll_lookup`: `getAll` is `get` at every key.
* `Alike`: two stores that answer every query alike.
* `arrival_order`: how far the timeline reaches and what the store answers, by the set of blocks
  that arrived.
-/

namespace Wga

open Timeline ChronoMap

variable {κ ν : Type} [DecidableEq κ] [DecidableEq ν]

namespace ChronoMap

/-! ### All keys at once -/

omit [DecidableEq ν] in
theorem get_nonneg {t : Int} (h₀ : 0 ≤ t) (k : κ) (m : ChronoMap κ ν) :
    ∃ v, m.get t k = .ok v := by
  rw [get_eq, if_neg (not_lt.mpr h₀)]
  split
  · exact ⟨_, rfl⟩
  · exact ⟨_, rfl⟩

omit [DecidableEq ν] in
/-- The loop of `getAll`, over keys that have no value yet. -/
theorem foldlM_get {t : Int} {m : ChronoMap κ ν} (h₀ : 0 ≤ t) {l : List (Σ _ : κ, TimeMap ν)}
    (hl : l.NodupKeys) {r : UnorderedMap κ ν} (hr : ∀ k ∈ l.keys, r.lookup k = none) :
    ∃ r', l.foldlM (fun (retval : UnorderedMap κ ν) (it : Σ _ : κ, TimeMap ν) => do
        match ← m.get t it.1 with
        | none => Except.ok retval
        | some value => .ok (retval.insert it.1 value)) r = .ok r' ∧
      (∀ k ∈ l.keys, m.get t k = .ok (r'.lookup k)) ∧ ∀ k ∉ l.keys, r'.lookup k = r.lookup k := by
  induction l generalizing r with
  | nil => exact ⟨r, rfl, fun k hk => absurd hk List.not_mem_nil, fun k _ => rfl⟩
  | cons e l ih =>
      obtain ⟨he, hl⟩ := List.nodupKeys_cons.mp hl
      have hstep : ∃ r₁ : UnorderedMap κ ν, (do
          match ← m.get t e.1 with
          | none => Except.ok r
          | some value => .ok (r.insert e.1 value)) = .ok r₁ ∧
          m.get t e.1 = .ok (r₁.lookup e.1) ∧ ∀ k, k ≠ e.1 → r₁.lookup k = r.lookup k := by
        obtain ⟨v, hv⟩ := get_nonneg h₀ e.1 m
        rw [hv]
        cases v with
        | none => exact ⟨r, rfl, by rw [hr e.1 List.mem_cons_self], fun _ _ => rfl⟩
        | some v =>
            exact ⟨_, rfl, by rw [AList.lookup_insert], fun k hk => AList.lookup_insert_ne hk⟩
      obtain ⟨r₁, h₁, hself, hother⟩ := hstep
      have hne : ∀ k ∈ l.keys, k ≠ e.1 := fun k hk h => he (h ▸ hk)
      obtain ⟨r', h', hin, hout⟩ := ih hl (r := r₁) fun k hk => by
        rw [hother k (hne k hk)]
        exact hr k (List.mem_cons_of_mem _ hk)
      refine ⟨r', ?_, fun k hk => ?_, fun k hk => ?_⟩
      · rw [List.foldlM_cons, h₁, ok_bind, h']
      · rcases List.mem_cons.mp hk with rfl | hk
        · rw [hout _ he]
          exact hself
        · exact hin k hk
      · obtain ⟨hk₁, hk₂⟩ := not_or.mp (mt List.mem_cons.mpr hk)
        rw [hout k hk₂, hother k hk₁]

omit [DecidableEq ν] in
/-- **`getAll` is `get` at every key.** -/
theorem getAll_lookup {t : Int} (h₀ : 0 ≤ t) (m : ChronoMap κ ν) :
    ∃ r, m.getAll t = .ok r ∧ ∀ k, m.get t k = .ok (r.lookup k) := by
  obtain ⟨r, hr, hin, hout⟩ := foldlM_get (m := m) h₀ m.data.nodupKeys
    (r := (∅ : UnorderedMap κ ν)) fun k _ => AList.lookup_empty k
  refine ⟨r, hr, fun k => ?_⟩
  by_cases hk : k ∈ m.data.entries.keys
  · exact hin k hk
  · have hnone : m.data.lookup k = none := AList.lookup_eq_none.mpr hk
    rw [hout k hk, AList.lookup_empty, get, if_neg (not_lt.mpr h₀), hnone]
    split <;> rfl

omit [DecidableEq ν] in
/-- Before the beginning there is nothing to ask for. -/
theorem getAll_neg {t : Int} (h₀ : t < 0) (m : ChronoMap κ ν) :
    m.getAll t = if m.data.entries = [] then .ok ∅ else .error (.fatal "Invalid time stamp") := by
  unfold getAll
  cases m.data.entries with
  | nil => rfl
  | cons e l =>
      rw [List.foldlM_cons, get, if_pos h₀]
      rfl

/-! ### Stores that answer alike -/

/-- Two stores that answer every query alike. -/
structure Alike (m m' : ChronoMap κ ν) : Prop where
  expirationTime : m.expirationTime = m'.expirationTime
  get : ∀ t k, m.get t k = m'.get t k
  getAll : ∀ t k, (m.getAll t).map (·.lookup k) = (m'.getAll t).map (·.lookup k)
  getChanges : ∀ data k, (m.getChanges data).lookup k = (m'.getChanges data).lookup k

omit [DecidableEq ν] in
/-- A store has a key exactly when some key has a change. -/
theorem entries_eq_nil_iff {data : UnorderedMap κ (TimeMap ν)} (hf : Filled data) :
    data.entries = [] ↔ ∀ k, timesOf data k = [] := by
  rw [UnorderedMap.entries_eq_nil]
  refine forall_congr' fun k => ?_
  rw [← AList.lookup_eq_none]
  unfold timesOf
  cases hk : data.lookup k with
  | none => exact iff_of_true rfl rfl
  | some times => exact iff_of_false (Option.some_ne_none _) (hf k times hk)

/-- **Stores with the same changes and the same expiration time answer alike.** -/
theorem Alike.of_times {m m' : ChronoMap κ ν} (hf : Filled m.data) (hf' : Filled m'.data)
    (hexp : m.expirationTime = m'.expirationTime)
    (htimes : ∀ k, timesOf m.data k = timesOf m'.data k) : Alike m m' := by
  have hget : ∀ t k, m.get t k = m'.get t k := fun t k => by
    rw [get_eq, get_eq, hexp, htimes k]
  refine ⟨hexp, hget, fun t k => ?_, fun data k => ?_⟩
  · rcases lt_or_ge t 0 with hneg | h₀
    · have hnil : m.data.entries = [] ↔ m'.data.entries = [] := by
        rw [entries_eq_nil_iff hf, entries_eq_nil_iff hf']
        exact forall_congr' fun k => by rw [htimes k]
      rw [getAll_neg hneg, getAll_neg hneg]
      by_cases h : m.data.entries = []
      · rw [if_pos h, if_pos (hnil.mp h)]
      · rw [if_neg h, if_neg (mt hnil.mpr h)]
    · obtain ⟨r, hr, hlook⟩ := getAll_lookup h₀ m
      obtain ⟨r', hr', hlook'⟩ := getAll_lookup h₀ m'
      rw [hr, hr']
      have heq := (hlook k).symm.trans ((hget t k).trans (hlook' k))
      exact congrArg Except.ok (Except.ok.inj heq)
  · rw [getChanges_lookup, getChanges_lookup, htimes k]

end ChronoMap

/-! ### Blocks of a chain in any order -/

/-- The puts of the blocks `[time j, time (j + 1))`, in the order given. -/
def arrive (time : Nat → Int) (d : Nat → UnorderedMap κ ν) (order : List Nat) :
    Except Fault (ChronoMap κ ν) :=
  order.foldlM (fun m j => m.put (time j) (time (j + 1)) (d j)) .new

/-- The puts of blocks of a chain keep its invariant. -/
theorem Chain.arrive_ok {C : Chain κ ν} {d : Nat → UnorderedMap κ ν}
    (hd : ∀ j k, (d j).lookup k = C.values j k) {order : List Nat}
    (ho : ∀ j ∈ order, j < C.length) :
    ∃ s, arrive C.time d order = .ok s ∧ C.Inv (· ∈ order) s := by
  induction order using List.reverseRecOn with
  | nil =>
      have hfalse : (· ∈ ([] : List Nat)) = fun _ => False :=
        funext fun j => propext (iff_false_intro List.not_mem_nil)
      exact ⟨.new, rfl, hfalse ▸ Inv.new⟩
  | append_singleton order j ih =>
      obtain ⟨s, hs, hinv⟩ := ih fun i hi => ho i (List.mem_append_left _ hi)
      obtain ⟨s', hput, hinv'⟩ := put_ok hinv j (ho j (by simp)) (d j) (hd j)
      have hsame : (· ∈ order ++ [j]) = fun i => i ∈ order ∨ i = j :=
        funext fun i => propext (by rw [List.mem_append, List.mem_singleton])
      refine ⟨s', ?_, hsame ▸ hinv'⟩
      unfold arrive at hs ⊢
      rw [List.foldlM_append, hs, ok_bind, List.foldlM_cons, hput]
      rfl

/-- **A store is insensitive to the order of arrival.**  The timeline reaches as far as the blocks
that arrived follow each other, up to there a key has the value of the last block begun by then
that assigns it, and another order of the same blocks ends in a store that answers alike. -/
theorem arrival_order (n : Nat) (time : Nat → Int) (d : Nat → UnorderedMap κ ν)
    (h₀ : time 0 = 0) (ht : ∀ j < n, time j < time (j + 1)) (hd : (d 0).entries ≠ [])
    (order : List Nat) (ho : ∀ j ∈ order, j < n) :
    ∃ m s, arrive time d order = .ok s ∧ IsGreatest {m | ∀ j < m, j ∈ order} m ∧
      s.expirationTime = time m ∧
      (∀ t k, s.get t k =
        if t < 0 then .error (.fatal "Invalid time stamp")
        else if t < time m then .ok (latest (begun time (fun j k => (d j).lookup k) t) n k)
        else .ok none) ∧
      ∀ order', (∀ j, j ∈ order' ↔ j ∈ order) →
        ∃ s', arrive time d order' = .ok s' ∧ Alike s s' := by
  have hfirst : ∃ k, (d 0).lookup k ≠ none := by
    obtain ⟨e, l, he⟩ := List.exists_cons_of_ne_nil hd
    refine ⟨e.1, fun hnone => AList.lookup_eq_none.mp hnone ?_⟩
    rw [AList.mem_keys, AList.keys, he]
    exact List.mem_cons_self
  let C : Chain κ ν := ⟨n, time, fun j k => (d j).lookup k, h₀, ht, fun _ => hfirst⟩
  obtain ⟨s, hs, hinv⟩ := C.arrive_ok (d := d) (fun _ _ => rfl) ho
  obtain ⟨m, ha, -, hR, hnot⟩ := hinv
  refine ⟨m, s, hs, ⟨hR, fun m' hm' => ?_⟩, ha.expirationTime, fun t k => ?_,
    fun order' hsame => ?_⟩
  · by_contra hlt
    have hmem : m ∈ order := hm' m (not_le.mp hlt)
    exact hnot (ho m hmem) hmem
  · rw [get_eq, ha.expirationTime]
    show (if t < 0 then _ else if t ≥ time m then _ else _) = _
    by_cases hneg : t < 0
    · rw [if_pos hneg, if_pos hneg]
    rw [if_neg hneg, if_neg hneg]
    by_cases hlt : t < time m
    · rw [if_neg (not_le.mpr hlt), if_pos hlt]
      obtain ⟨i, hi, h₁, h₂⟩ := exists_interval time (h₀ ▸ not_lt.mp hneg) hlt
      have hget := ha.get hi h₁ h₂ k
      rw [get_eq, if_neg hneg, ha.expirationTime, if_neg (not_le.mpr hlt)] at hget
      rw [hget, latest_begun ht (hi.trans_le ha.le) h₁ h₂]
    · rw [if_pos (not_lt.mp hlt), if_neg hlt]
  · obtain ⟨s', hs', hinv'⟩ := C.arrive_ok (d := d) (fun _ _ => rfl)
      (fun j hj => ho j ((hsame j).mp hj))
    have heq : (· ∈ order') = (· ∈ order) := funext fun j => propext (hsame j)
    obtain ⟨hexp', ha'⟩ := (heq ▸ hinv').expirationTime ha.le hR hnot
    exact ⟨s', hs', Alike.of_times ha.filled ha'.filled (ha.expirationTime.trans hexp'.symm)
      fun k => (ha.times k).trans (ha'.times k).symm⟩

/-- Two blocks, the later one first. -/
theorem arrival_order_reversed : ∃ m s,
    arrive (fun j => 10 * j) (fun j => (.singleton 1 j : UnorderedMap Nat Nat)) [1, 0] = .ok s ∧
      s.expirationTime = 10 * m ∧
      ∃ s', arrive (fun j => 10 * j) (fun j => (.singleton 1 j : UnorderedMap Nat Nat)) [0, 1, 0] =
        .ok s' ∧ Alike s s' := by
  obtain ⟨m, s, hs, -, hexp, -, hsame⟩ := arrival_order 2 (fun j => 10 * (j : Int))
    (fun j => (.singleton 1 j : UnorderedMap Nat Nat)) rfl
    (fun j _ => by show 10 * (j : Int) < 10 * ((j + 1 : Nat) : Int); omega)
    (List.cons_ne_nil _ _) [1, 0] (by decide)
  exact ⟨m, s, hs, hexp, hsame [0, 1, 0] fun j => by simp; omega⟩

end Wga
