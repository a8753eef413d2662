import Mathlib.Data.List.AList

/-!
# Counting the entries of a finite table

`AList` is Mathlib's finite map with distinct keys.  These are the counting laws of its insertion
and erasure.
-/

namespace AList

variable {Key Value : Type*}

def countValues (table : AList fun _ : Key => Value) (test : Value → Bool) : Nat :=
  table.entries.countP fun entry => test entry.2

@[simp] theorem countValues_empty (test : Value → Bool) :
    countValues (∅ : AList fun _ : Key => Value) test = 0 := rfl

variable [DecidableEq Key]

variable {key : Key} {table : AList fun _ : Key => Value}

theorem mem_entries_of_lookup {value : Value} (found : table.lookup key = some value) :
    (⟨key, value⟩ : Σ _ : Key, Value) ∈ table.entries := AList.mem_lookup_iff.mp found

theorem countValues_erase {value : Value}
    (found : table.lookup key = some value) (test : Value → Bool) :
    (table.erase key).countValues test + (if test value then 1 else 0) =
      table.countValues test := by
  have member : key ∈ table.entries.keys := by
    have present : key ∈ table := AList.lookup_isSome.mp (by simp [found])
    exact present
  obtain ⟨other, front, back, absent, split, erased⟩ := List.exists_of_kerase member
  have same : other = value := by
    have unique : (⟨key, other⟩ : Σ _ : Key, Value) ∈ table.entries := by
      rw [split]
      simp
    have again : table.lookup key = some other := AList.mem_lookup_iff.mpr unique
    rw [found] at again
    exact (Option.some.inj again).symm
  subst same
  have after : (table.erase key).entries = front ++ back := erased
  simp only [countValues, after, split, List.countP_append, List.countP_cons]
  omega

theorem countValues_insert_new
    (fresh : table.lookup key = none) (value : Value) (test : Value → Bool) :
    (table.insert key value).countValues test =
      table.countValues test + (if test value then 1 else 0) := by
  have absent : key ∉ table := AList.lookup_eq_none.mp fresh
  rw [countValues, AList.entries_insert_of_notMem absent, List.countP_cons, countValues]

theorem countValues_insert_same
    {old new : Value} (found : table.lookup key = some old) {test : Value → Bool}
    (same : test new = test old) :
    (table.insert key new).countValues test = table.countValues test := by
  have erased := countValues_erase found test
  have inserted : (table.insert key new).countValues test =
      (table.erase key).countValues test + (if test new then 1 else 0) := by
    rw [countValues, AList.entries_insert, List.countP_cons]
    rfl
  rw [inserted, same, erased]

theorem countValues_pos {value : Value}
    (found : table.lookup key = some value) {test : Value → Bool} (passes : test value = true) :
    0 < table.countValues test := by
  rw [countValues, List.countP_pos_iff]
  exact ⟨_, mem_entries_of_lookup found, passes⟩

theorem lookup_insert_eq_some {other : Key} {value found : Value} :
    (table.insert key value).lookup other = some found ↔
      (other = key ∧ value = found) ∨ (other ≠ key ∧ table.lookup other = some found) := by
  by_cases same : other = key
  · subst same
    simp
  · simp [AList.lookup_insert_ne same, same]

theorem lookup_erase_eq_some {other : Key} {found : Value} :
    (table.erase key).lookup other = some found ↔
      other ≠ key ∧ table.lookup other = some found := by
  by_cases same : other = key
  · subst same
    simp
  · simp [AList.lookup_erase_ne same, same]

end AList
