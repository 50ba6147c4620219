import Mathlib.Data.List.TakeWhile
import Mathlib.Data.Option.Basic
import Mathlib.Order.Basic
import Mathlib.Order.Lattice

/-!
# Support — Timeline

A sequence of partial assignments, one for each interval of a chain of time points, seen as a
function of time.  `d j k` is what the assignment `j` gives the key `k`, `time j` is when it
begins.

* `latest_delta`: nothing is lost when every assignment is cut down to what it changes.
* `latest_begun`: the assignments begun by a time are those of the intervals up to it.
* `takeWhile_timeline`: the changes up to a time are those of the intervals begun by then.
-/

namespace Wga.Timeline

variable {κ ν τ : Type*}

/-- The value of `k` in the last of the first `n` assignments that gives it one. -/
def latest (d : Nat → κ → Option ν) : Nat → κ → Option ν
  | 0, _ => none
  | n + 1, k => (d n k).or (latest d n k)

section Changes

variable [DecidableEq ν]

/-- What the assignment `n` changes. -/
def delta (d : Nat → κ → Option ν) (n : Nat) (k : κ) : Option ν :=
  if latest d n k = d n k then none else d n k

/-- **A sequence of assignments and that of its changes have the same latest values.** -/
theorem latest_delta (d : Nat → κ → Option ν) (n : Nat) (k : κ) :
    latest (delta d) n k = latest d n k := by
  induction n with
  | zero => rfl
  | succ n ih =>
      rw [latest, latest, ih, delta]
      split
      · rename_i h
        rw [Option.none_or, ← h, Option.or_self]
      · rfl

/-- The changes of `k` in the first `n` assignments, each with the time it begins at. -/
def timeline (time : Nat → τ) (d : Nat → κ → Option ν) : Nat → κ → List (τ × ν)
  | 0, _ => []
  | n + 1, k => timeline time d n k ++ ((delta d n k).map (time n, ·)).toList

variable {time : Nat → τ} {d : Nat → κ → Option ν}

/-- The last change gives the latest value. -/
theorem getLast_timeline (time : Nat → τ) (d : Nat → κ → Option ν) (n : Nat) (k : κ) :
    (timeline time d n k).getLast?.map Prod.snd = latest d n k := by
  induction n with
  | zero => rfl
  | succ n ih =>
      rw [timeline, latest, List.getLast?_append]
      cases hd : delta d n k with
      | none =>
          have h : latest d n k = d n k ∨ d n k = none := by
            rw [delta] at hd
            split at hd
            · rename_i h
              exact Or.inl h
            · exact Or.inr hd
          rw [Option.map_none, Option.toList_none, List.getLast?_nil, Option.none_or, ih]
          rcases h with h | h
          · rw [← h, Option.or_self]
          · rw [h, Option.none_or]
      | some v =>
          have h : d n k = some v := by
            rw [delta] at hd
            split at hd
            · cases hd
            · exact hd
          rw [h, Option.some_or]
          rfl

theorem mem_timeline {n : Nat} {k : κ} {e : τ × ν} (h : e ∈ timeline time d n k) :
    ∃ j < n, e.1 = time j := by
  induction n with
  | zero => cases h
  | succ n ih =>
      rw [timeline] at h
      rcases List.mem_append.mp h with h | h
      · obtain ⟨j, hj, he⟩ := ih h
        exact ⟨j, Nat.lt_succ_of_lt hj, he⟩
      · obtain ⟨v, -, rfl⟩ := Option.map_eq_some_iff.mp (Option.mem_toList.mp h)
        exact ⟨n, Nat.lt_succ_self n, rfl⟩

variable [LinearOrder τ]

theorem time_lt {n : Nat} (ht : ∀ j < n, time j < time (j + 1)) {i j : Nat} (hij : i < j)
    (hj : j ≤ n) : time i < time j := by
  induction j with
  | zero => omega
  | succ j ih =>
      rcases Nat.lt_succ_iff_lt_or_eq.mp hij with h | rfl
      · exact (ih h (by omega)).trans (ht j (by omega))
      · exact ht i (by omega)

theorem time_le {n : Nat} (ht : ∀ j < n, time j < time (j + 1)) {i j : Nat} (hij : i ≤ j)
    (hj : j ≤ n) : time i ≤ time j := by
  rcases Nat.lt_or_eq_of_le hij with h | rfl
  · exact (time_lt ht h hj).le
  · exact le_rfl

/-- A time before the end lies in one of the intervals. -/
theorem exists_interval (time : Nat → τ) {m : Nat} {t : τ} (h₀ : time 0 ≤ t) (h : t < time m) :
    ∃ i < m, time i ≤ t ∧ t < time (i + 1) := by
  induction m with
  | zero => exact absurd h (not_lt.mpr h₀)
  | succ m ih =>
      rcases lt_or_ge t (time m) with hlt | hge
      · obtain ⟨i, hi, h₁, h₂⟩ := ih hlt
        exact ⟨i, Nat.lt_succ_of_lt hi, h₁, h₂⟩
      · exact ⟨m, Nat.lt_succ_self m, hge, h⟩

/-- The assignments begun by the time `t`. -/
def begun (time : Nat → τ) (d : Nat → κ → Option ν) (t : τ) (j : Nat) (k : κ) : Option ν :=
  if time j ≤ t then d j k else none

omit [DecidableEq ν] in
/-- **The latest of the assignments begun by a time in the interval `i`** are those up to `i`. -/
theorem latest_begun {n i : Nat} (ht : ∀ j < n, time j < time (j + 1)) (hi : i < n) {t : τ}
    (h₁ : time i ≤ t) (h₂ : t < time (i + 1)) (k : κ) :
    latest (begun time d t) n k = latest d (i + 1) k := by
  have hbefore : ∀ m ≤ i + 1, latest (begun time d t) m k = latest d m k := by
    intro m hm
    induction m with
    | zero => rfl
    | succ m ih =>
        have hle : time m ≤ t := (time_le ht (Nat.le_of_succ_le_succ hm) hi.le).trans h₁
        rw [latest, latest, ih (by omega), begun, if_pos hle]
  have hafter : ∀ m, i + 1 ≤ m → m ≤ n →
      latest (begun time d t) m k = latest (begun time d t) (i + 1) k := by
    intro m hm
    induction m with
    | zero => omega
    | succ m ih =>
        intro hmn
        rcases Nat.lt_or_eq_of_le hm with hlt | heq
        · have hgt : ¬ time m ≤ t :=
            not_le.mpr (h₂.trans_le (time_le ht (Nat.lt_succ_iff.mp hlt) (by omega)))
          rw [latest, begun, if_neg hgt, Option.none_or, ih (by omega) (by omega)]
        · rw [heq]
  rw [hafter n hi le_rfl, hbefore (i + 1) le_rfl]

/-- Different beginnings are different times. -/
theorem time_inj {n : Nat} (ht : ∀ j < n, time j < time (j + 1)) {i j : Nat} (hi : i ≤ n)
    (hj : j ≤ n) (h : time i = time j) : i = j := by
  rcases Nat.lt_trichotomy i j with hij | rfl | hij
  · exact absurd h (time_lt ht hij hj).ne
  · rfl
  · exact absurd h.symm (time_lt ht hij hi).ne

/-- **The changes up to a time in the interval `i`** are those of the assignments up to `i`. -/
theorem takeWhile_timeline {n m i : Nat} (ht : ∀ j < n, time j < time (j + 1)) (him : i < m)
    (hm : m ≤ n) {t : τ} (h₁ : time i ≤ t) (h₂ : t < time (i + 1)) (k : κ) :
    (timeline time d m k).takeWhile (fun e => e.1 ≤ t) = timeline time d (i + 1) k := by
  -- induction on the assignments after `i`: none of their changes is taken
  induction m with
  | zero => omega
  | succ m ih =>
      rcases Nat.lt_succ_iff_lt_or_eq.mp him with him | rfl
      · have hlate : ∀ e ∈ ((delta d m k).map (time m, ·)).toList, ¬ e.1 ≤ t := by
          intro e he
          obtain ⟨v, -, rfl⟩ := Option.map_eq_some_iff.mp (Option.mem_toList.mp he)
          exact not_le.mpr (h₂.trans_le (time_le ht him (by omega)))
        rw [timeline, ← ih him (by omega)]
        cases hd : (delta d m k).map (time m, ·) with
        | none => rw [Option.toList_none, List.append_nil]
        | some e =>
            rw [hd] at hlate
            have he : decide (e.1 ≤ t) = false := decide_eq_false (hlate e List.mem_cons_self)
            rw [Option.toList_some, List.takeWhile_append]
            split
            · rename_i h
              rw [List.takeWhile_cons, he, if_neg Bool.false_ne_true, List.append_nil]
              exact (List.IsPrefix.eq_of_length (List.takeWhile_prefix _) h).symm
            · rfl
      · refine List.takeWhile_eq_self_iff.mpr fun e he => ?_
        obtain ⟨j, hj, he⟩ := mem_timeline he
        have hle : e.1 ≤ t := he ▸ (time_le ht (Nat.le_of_lt_succ hj) (by omega)).trans h₁
        exact decide_eq_true hle

end Changes

end Wga.Timeline
