import Mathlib.Data.List.AList
import Mathlib.Data.List.Sort
import Mathlib.Data.Finset.Insert

/-!
# Support — Order

The elements of a set and the keys of a map, one after another in their order.

* `inOrder`: the elements of a finite set.
* `entriesInOrder`: the entries of a map.
* `sorted_congr`: lists of the same elements are sorted alike.
-/

namespace Wga

variable {α β : Type} [LE α] [DecidableLE α] [Std.Total (α := α) (· ≤ ·)]
  [IsTrans α (· ≤ ·)] [Std.Antisymm (α := α) (· ≤ ·)]

omit [Std.Total (α := α) (· ≤ ·)] [IsTrans α (· ≤ ·)] [Std.Antisymm (α := α) (· ≤ ·)] in
@[simp] theorem mem_insertionSort {l : List α} {a : α} :
    a ∈ l.insertionSort (· ≤ ·) ↔ a ∈ l :=
  (List.perm_insertionSort _ l).mem_iff

/-- **Lists of the same elements are sorted alike.** -/
theorem sorted_congr {l l' : List α} (h : l.Perm l') :
    l.insertionSort (· ≤ ·) = l'.insertionSort (· ≤ ·) :=
  List.Perm.eq_of_pairwise (fun a b _ _ hab hba => Std.Antisymm.antisymm a b hab hba)
    (List.pairwise_insertionSort _ l) (List.pairwise_insertionSort _ l')
    (((List.perm_insertionSort _ l).trans h).trans (List.perm_insertionSort _ l').symm)

/-- The elements of a set, in order. -/
def inOrder (s : Finset α) : List α :=
  Quot.liftOn s.val (fun l => l.insertionSort (· ≤ ·)) fun _ _ h => sorted_congr h

theorem mem_inOrder {s : Finset α} {a : α} : a ∈ inOrder s ↔ a ∈ s := by
  obtain ⟨⟨l⟩, hl⟩ := s
  exact mem_insertionSort

/-- No element stands twice. -/
theorem nodup_inOrder (s : Finset α) : (inOrder s).Nodup := by
  obtain ⟨⟨l⟩, hl⟩ := s
  exact (List.perm_insertionSort _ l).nodup_iff.mpr hl

/-- The entries of a map, in the order of their keys. -/
def entriesInOrder (m : AList fun _ : α => β) : List (α × β) :=
  (m.entries.map fun it => (it.1, it.2)).insertionSort fun a b => a.1 ≤ b.1

omit [Std.Total (α := α) (· ≤ ·)] [IsTrans α (· ≤ ·)] [Std.Antisymm (α := α) (· ≤ ·)] in
/-- An entry of the list is one of the map. -/
theorem mem_entriesInOrder {m : AList fun _ : α => β} {k : α} {v : β} [DecidableEq α] :
    (k, v) ∈ entriesInOrder m ↔ m.lookup k = some v := by
  rw [entriesInOrder, (List.perm_insertionSort _ _).mem_iff, List.mem_map,
    ← Option.mem_def, AList.mem_lookup_iff]
  constructor
  · rintro ⟨⟨k', v'⟩, h, he⟩
    cases he
    exact h
  · exact fun h => ⟨⟨k, v⟩, h, rfl⟩

omit [Std.Total (α := α) (· ≤ ·)] [IsTrans α (· ≤ ·)] [Std.Antisymm (α := α) (· ≤ ·)] in
/-- Its keys are those of the map. -/
theorem entriesInOrder_keys (m : AList fun _ : α => β) :
    ((entriesInOrder m).map Prod.fst).Perm m.keys := by
  refine ((List.perm_insertionSort _ _).map Prod.fst).trans ?_
  rw [List.map_map]
  exact List.Perm.refl _

end Wga
