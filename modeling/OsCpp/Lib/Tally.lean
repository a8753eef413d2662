import Mathlib.Algebra.Order.BigOperators.Group.Finset
import Mathlib.Data.Fintype.BigOperators
import Mathlib.Tactic.Abel

/-!
# Counting entries of a table

How often a value occurs in a table of optional values, and how sums over a table change when one of
its rows does.
-/

namespace Tally

variable {Index Row Value : Type*} [Fintype Index]

theorem sum_update {M : Type*} [AddCommMonoid M] [DecidableEq Index] (weight : Row → M)
    (table : Index → Row) (index : Index) (row : Row) :
    (∑ i, weight (Function.update table index row i)) + weight (table index) =
      (∑ i, weight (table i)) + weight row := by
  have split : ∀ rows : Index → Row, ∑ i, weight (rows i) =
      weight (rows index) + ∑ i ∈ Finset.univ.erase index, weight (rows i) := fun rows =>
    (Finset.add_sum_erase Finset.univ (fun i => weight (rows i)) (Finset.mem_univ index)).symm
  have others : ∑ i ∈ Finset.univ.erase index, weight (Function.update table index row i) =
      ∑ i ∈ Finset.univ.erase index, weight (table i) :=
    Finset.sum_congr rfl fun i other => by
      rw [Function.update_of_ne (Finset.ne_of_mem_erase other)]
  rw [split (Function.update table index row), split table, others, Function.update_self]
  abel

theorem le_sum (weight : Row → Nat) (table : Index → Row) (index : Index) :
    weight (table index) ≤ ∑ i, weight (table i) :=
  Finset.single_le_sum (f := fun i => weight (table i)) (fun _ _ => zero_le)
    (Finset.mem_univ index)

theorem add_le_sum [DecidableEq Index] (weight : Row → Nat) (table : Index → Row)
    {left right : Index} (different : left ≠ right) :
    weight (table left) + weight (table right) ≤ ∑ i, weight (table i) := by
  rw [← Finset.add_sum_erase Finset.univ (fun i => weight (table i)) (Finset.mem_univ left)]
  refine Nat.add_le_add_left ?_ _
  exact Finset.single_le_sum (f := fun i => weight (table i)) (fun _ _ => zero_le)
    (Finset.mem_erase.mpr ⟨different.symm, Finset.mem_univ right⟩)

variable [DecidableEq Value]

/-- One if the entry is the value. -/
def hit (value : Value) (entry : Option Value) : Nat := if entry = some value then 1 else 0

@[simp] theorem hit_none (value : Value) : hit value none = 0 := by simp [hit]

@[simp] theorem hit_self (value : Value) : hit value (some value) = 1 := by simp [hit]

theorem hit_some (value other : Value) :
    hit value (some other) = if other = value then 1 else 0 := by
  simp [hit]

/-- How often a value occurs in a table. -/
def count (table : Index → Option Value) (value : Value) : Nat := ∑ i, hit value (table i)

theorem count_update [DecidableEq Index] (table : Index → Option Value) (index : Index)
    (entry : Option Value) (value : Value) :
    count (Function.update table index entry) value + hit value (table index) =
      count table value + hit value entry := sum_update (hit value) table index entry

theorem count_pos {table : Index → Option Value} {index : Index} {value : Value}
    (found : table index = some value) : 1 ≤ count table value := by
  have bound := le_sum (hit value) table index
  rwa [found, hit_self] at bound

@[simp] theorem count_none (value : Value) : count (fun _ : Index => none) value = 0 := by
  simp [count]

theorem count_eq_zero {table : Index → Option Value} (empty : ∀ i, table i = none)
    (value : Value) : count table value = 0 := by
  simp [count, empty]

theorem count_eq_card (table : Index → Option Value) (value : Value) :
    count table value = (Finset.univ.filter fun i => table i = some value).card := by
  simp only [count, hit, Finset.card_filter]

end Tally
