import OsCpp.Virtio.Machine
import Mathlib.Data.Finset.Card

/-!
# Descriptors

What `alloc3_desc` and `free_chain` do to the table of descriptors.
-/

namespace OsCpp.Virtio

open Function (update update_of_ne)

namespace Disk

def freeSet (d : Disk) : Finset Nat := (Finset.range NUM).filter fun i => d.free i = true

variable {d : Disk}

theorem mem_freeSet {i : Nat} : i ∈ d.freeSet ↔ i < NUM ∧ d.free i = true := by
  simp [freeSet]

/-- Taking a descriptor. -/
def take (d : Disk) (i : Nat) : Disk := { d with free := update d.free i false }

theorem freeSet_take (i : Nat) : (d.take i).freeSet = d.freeSet.erase i := by
  ext j
  rcases eq_or_ne j i with rfl | different
  · simp [mem_freeSet, take]
  · simp [mem_freeSet, take, different]

theorem alloc_desc_cases (d : Disk) :
    (d.alloc_desc = none ∧ d.freeSet = ∅) ∨ ∃ i ∈ d.freeSet, d.alloc_desc = some (i, d.take i) := by
  simp only [alloc_desc]
  split
  · next i found =>
    have inside := List.mem_range.mp (List.mem_of_find?_eq_some found)
    exact .inr ⟨i, mem_freeSet.mpr ⟨inside, List.find?_some found⟩, rfl⟩
  · next missing =>
    refine .inl ⟨rfl, Finset.eq_empty_of_forall_notMem fun i free => ?_⟩
    obtain ⟨inside, free⟩ := mem_freeSet.mp free
    exact List.find?_eq_none.mp missing i (List.mem_range.mpr inside) free

theorem free_desc_take {i : Nat} (free : i ∈ d.freeSet) :
    (d.take i).free_desc i = .ok { d with desc := update d.desc i {} } := by
  obtain ⟨inside, free⟩ := mem_freeSet.mp free
  have restored : update d.free i true = d.free := by
    rw [← free, Function.update_eq_self]
  simp [free_desc, take, Nat.not_le.mpr inside, restored]

theorem take_comm {i j : Nat} (different : i ≠ j) : (d.take i).take j = (d.take j).take i := by
  simp only [take]
  rw [Function.update_comm different]

/-- The outcomes of `alloc3_desc`: three descriptors are taken, or all stay free. -/
theorem alloc3_desc_cases (d : Disk) :
    (d.freeSet.card < 3 ∧ ∃ desc, d.alloc3_desc = .ok ({ d with desc := desc }, none) ∧
      ∀ i, i ∉ d.freeSet → desc i = d.desc i) ∨
    ∃ chain : Chain, chain.members.Nodup ∧ (∀ i ∈ chain.members, i ∈ d.freeSet) ∧
      d.alloc3_desc = .ok (((d.take chain.head).take chain.data).take chain.status, some chain) := by
  rcases alloc_desc_cases d with ⟨none₀, empty₀⟩ | ⟨head, free₀, some₀⟩
  · exact .inl ⟨by simp [empty₀], d.desc, by simp [alloc3_desc, none₀], fun _ _ => rfl⟩
  rcases alloc_desc_cases (d.take head) with ⟨none₁, empty₁⟩ | ⟨data, free₁, some₁⟩
  · refine .inl ⟨?_, update d.desc head {}, ?_, ?_⟩
    · have erased := Finset.card_erase_of_mem free₀
      rw [← freeSet_take, empty₁] at erased
      simp at erased
      omega
    · simp only [alloc3_desc, some₀, none₁, free_desc_take free₀]
    · intro i taken
      exact update_of_ne (by rintro rfl; exact taken free₀) _ _
  have different₁ : data ≠ head := by
    rw [freeSet_take] at free₁
    exact Finset.ne_of_mem_erase free₁
  have free₁' : data ∈ d.freeSet := by
    rw [freeSet_take] at free₁
    exact Finset.mem_of_mem_erase free₁
  rcases alloc_desc_cases ((d.take head).take data) with ⟨none₂, empty₂⟩ | ⟨status, free₂, some₂⟩
  · refine .inl ⟨?_, update (update d.desc head {}) data {}, ?_, ?_⟩
    · have erased := Finset.card_erase_of_mem free₁
      rw [← freeSet_take, empty₂] at erased
      have erased' := Finset.card_erase_of_mem free₀
      rw [← freeSet_take] at erased'
      simp at erased
      omega
    · -- The rollback gives back the first descriptor first, while the second is still taken.
      have first : ((d.take head).take data).free_desc head =
          .ok ({ d with desc := update d.desc head {} }.take data) := by
        have still : head ∈ (d.take data).freeSet := by
          rw [freeSet_take]
          exact Finset.mem_erase.mpr ⟨different₁.symm, free₀⟩
        rw [take_comm different₁.symm, free_desc_take still]
        rfl
      have second : ({ d with desc := update d.desc head {} }.take data).free_desc data =
          .ok { d with desc := update (update d.desc head {}) data {} } :=
        free_desc_take (d := { d with desc := update d.desc head {} }) free₁'
      simp only [alloc3_desc, some₀, some₁, none₂, first, second]
    · intro i taken
      rw [update_of_ne (by rintro rfl; exact taken free₁'),
        update_of_ne (by rintro rfl; exact taken free₀)]
  · have different₂ : status ≠ data := by
      rw [freeSet_take] at free₂
      exact Finset.ne_of_mem_erase free₂
    rw [freeSet_take, freeSet_take] at free₂
    have inside := Finset.mem_erase.mp (Finset.mem_of_mem_erase free₂)
    refine .inr ⟨⟨head, data, status⟩, ?_, ?_, ?_⟩
    · simp [Chain.members, different₁.symm, different₂.symm, inside.1.symm]
    · simp [Chain.members, free₀, free₁', inside.2]
    · simp only [alloc3_desc, some₀, some₁, some₂]

/-- Giving back a descriptor. -/
def put (d : Disk) (i : Nat) : Disk :=
  { d with desc := update d.desc i {}, free := update d.free i true }

theorem free_desc_put {i : Nat} (inside : i < NUM) (taken : d.free i = false) :
    d.free_desc i = .ok (d.put i) := by
  simp [free_desc, put, Nat.not_le.mpr inside, taken]

/-- The descriptors of a chain are linked as `disk_rw` links them. -/
structure Linked (d : Disk) (chain : Chain) (b : Buf) : Prop where
  nodup : chain.members.Nodup
  inside : ∀ i ∈ chain.members, i < NUM
  taken : ∀ i ∈ chain.members, d.free i = false
  head : (d.desc chain.head).addr = .request chain.head ∧
    (d.desc chain.head).flags &&& VRING_DESC_F_NEXT ≠ 0 ∧ (d.desc chain.head).next = chain.data
  data : (d.desc chain.data).addr = .data b ∧
    (d.desc chain.data).flags &&& VRING_DESC_F_NEXT ≠ 0 ∧ (d.desc chain.data).next = chain.status
  status : (d.desc chain.status).addr = .status chain.head ∧
    (d.desc chain.status).flags &&& VRING_DESC_F_NEXT = 0

/-- `free_chain` ends and gives back the descriptors of its chain. -/
theorem free_chain_eq {chain : Chain} {b : Buf} (linked : d.Linked chain b) :
    d.free_chain chain.head = .ok (((d.put chain.head).put chain.data).put chain.status) := by
  obtain ⟨nodup, inside, taken, ⟨-, more₀, next₀⟩, ⟨-, more₁, next₁⟩, -, last⟩ := linked
  simp only [Chain.members, List.nodup_cons, List.mem_cons, List.not_mem_nil, or_false, not_or,
    not_false_eq_true, List.nodup_nil, and_true, forall_eq_or_imp, forall_eq] at nodup inside taken
  obtain ⟨⟨ne₀₁, ne₀₂⟩, ne₁₂⟩ := nodup
  have first := free_desc_put inside.1 taken.1
  have second : (d.put chain.head).free_desc chain.data = .ok ((d.put chain.head).put chain.data) :=
    free_desc_put inside.2.1 (by simp [put, update_of_ne (Ne.symm ne₀₁), taken.2.1])
  have third : ((d.put chain.head).put chain.data).free_desc chain.status =
      .ok (((d.put chain.head).put chain.data).put chain.status) :=
    free_desc_put inside.2.2 (by
      simp [put, update_of_ne (Ne.symm ne₀₂), update_of_ne (Ne.symm ne₁₂), taken.2.2])
  have desc₁ : (d.put chain.head).desc chain.data = d.desc chain.data := by
    simp [put, update_of_ne (Ne.symm ne₀₁)]
  have desc₂ : ((d.put chain.head).put chain.data).desc chain.status = d.desc chain.status := by
    simp [put, update_of_ne (Ne.symm ne₀₂), update_of_ne (Ne.symm ne₁₂)]
  simp only [free_chain, NUM, freeChainFrom, first, if_pos more₀, next₀, desc₁, second,
    if_pos more₁, next₁, desc₂, third, last, ne_eq, not_true_eq_false, if_false]

end Disk

end OsCpp.Virtio
