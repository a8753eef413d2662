import OsCpp.Sv39.Map

/-!
# Pages taken from the free list

A frame leaves the free list as data and is mapped at one page: the step that growing a process and
copying one have in common.
-/

namespace OsCpp.Sv39

open Frames (PGSIZE VA_MAX SamePage)

variable {roots : Nat → Prop} {m m' m'' : Memory} {root va : Nat}

/-- Free frames may be used; what is neither free nor a node stays as it is. -/
structure Within (roots : Nat → Prop) (m m' : Memory) : Prop where
  mem : ∀ {frame}, frame ∈ m'.freelist → frame ∈ m.freelist
  data : ∀ {frame}, frame ∉ m.freelist → ¬IsNode roots m frame → m'.ram frame = m.ram frame
  nodes : ∀ {frame}, IsNode roots m' frame → IsNode roots m frame ∨ frame ∈ m.freelist
  kept : ∀ {frame}, IsNode roots m frame → IsNode roots m' frame

theorem Grows.within (grows : Grows roots m m') : Within roots m m' :=
  { grows with mem := grows.mem }

namespace Within

theorem refl (m : Memory) : Within roots m m := (Grows.refl m).within

theorem apart (within : Within roots m m') {frame : Nat} (used : frame ∉ m.freelist)
    (data : ¬IsNode roots m frame) : frame ∉ m'.freelist ∧ ¬IsNode roots m' frame :=
  ⟨fun free => used (within.mem free), fun node => (within.nodes node).elim data used⟩

theorem trans (left : Within roots m m') (right : Within roots m' m'') : Within roots m m'' := by
  refine ⟨fun free => left.mem (right.mem free), fun {frame} used data => ?_, fun {frame} node => ?_,
    fun node => right.kept (left.kept node)⟩
  · obtain ⟨used', data'⟩ := left.apart used data
    rw [right.data used' data', left.data used data]
  · rcases right.nodes node with node | free
    · exact left.nodes node
    · exact .inr (left.mem free)

end Within

theorem wp_kalloc (m : Memory) :
    Program.wp kalloc (fun taken m' => match taken with
      | none => m.freelist = [] ∧ m' = m
      | some fresh => ∃ rest, m.freelist = fresh :: rest ∧
          m' = ⟨Function.update m.ram fresh fun _ => 0x0505050505050505, rest⟩)
      (fun _ _ => False) m := by
  unfold kalloc
  simp only [Program.wp_bind, Program.wp_get]
  cases free : m.freelist with
  | nil => exact ⟨rfl, rfl⟩
  | cons fresh rest => exact ⟨rest, rfl, rfl⟩

/-- A frame leaves the free list, with any contents. -/
theorem Sound.take (sound : Sound roots m) {fresh : Nat} {rest : List Nat} {words : Fin 512 → Nat}
    (free : m.freelist = fresh :: rest) (after : m' = ⟨Function.update m.ram fresh words, rest⟩) :
    Sound roots m' ∧ Within roots m m' ∧ Given roots m' fresh 1 ∧
      (∀ {root va}, roots root → m'.entry root va = m.entry root va) ∧
      ∀ {root va pte}, roots root → m.entry root va = some pte → PTE2PA pte / PGSIZE ≠ fresh := by
  have taken : fresh ∈ m.freelist := by
    rw [free]
    exact .head _
  have notNode : ¬IsNode roots m fresh := fun node => sound.nodes node taken
  have other : ∀ {frame}, frame ≠ fresh → m'.ram frame = m.ram frame := by
    intro frame other
    rw [after]
    exact Function.update_of_ne other _ _
  have same : ∀ {frame}, IsNode roots m frame → m'.ram frame = m.ram frame := by
    intro frame node
    refine other ?_
    rintro rfl
    exact notNode node
  have fewer : ∃ taken, m.freelist = taken ++ m'.freelist := ⟨[fresh], by rw [after, free]; rfl⟩
  have nodup := sound.nodup
  rw [free, List.nodup_cons] at nodup
  have small := sound.small fresh taken
  refine ⟨sound.of_data same fewer, ⟨fun {frame} member => ?_, fun {frame} used _ => other ?_,
    fun node => .inl ((isNode_of_data same).mp node), (isNode_of_data same).mpr⟩,
    ⟨by omega, fun k low => ?_, fun k low => ?_⟩, fun isRoot => entry_of_data same isRoot _,
    fun isRoot mapped equal => (sound.leaves isRoot mapped).1 (equal ▸ taken)⟩
  · rw [after] at member
    rw [free]
    exact List.mem_cons_of_mem fresh member
  · rintro rfl
    exact used taken
  · obtain rfl : k = 0 := by omega
    rw [after]
    exact nodup.1
  · obtain rfl : k = 0 := by omega
    exact fun node => notNode ((isNode_of_data same).mp node)

/-- `map_pages` for one page maps it or changes no entry. -/
theorem wp_map_page {flag frame : Nat} (sound : Sound roots m) (isRoot : roots root)
    (flags : flag < 1024) (aligned : va % PGSIZE = 0) (below : va + PGSIZE ≤ VA_MAX)
    (unmapped : m.entry root va = none) (given : Given roots m frame 1) :
    Program.wp (map_pages root va (frame * PGSIZE) PGSIZE flag) (fun done m' => Sound roots m' ∧
      Grows roots m m' ∧ ∀ {root' va'}, roots root' → m'.entry root' va' =
        if done = true ∧ root' = root ∧ SamePage va va' then some (packed frame flag)
        else m.entry root' va') (fun _ _ => False) m := by
  have first : ∀ k < 1, m.entry root (va + k * PGSIZE) = none := by
    intro k low
    obtain rfl : k = 0 := by omega
    rwa [page_zero]
  have mapping := wp_map_pages sound isRoot flags aligned one_pos (by rwa [one_mul]) first given
  rw [one_mul] at mapping
  refine Program.wp_mono mapping ?_ fun _ _ => id
  rintro done m' ⟨j, few, all, maps⟩
  refine ⟨maps.sound, maps.grows, fun {root' va'} isRoot' => ?_⟩
  split
  next here =>
    obtain ⟨yes, rfl, same⟩ := here
    obtain rfl := all.mp yes
    exact maps.mapped 0 one_pos (by rwa [page_zero])
  next elsewhere =>
    refine maps.others isRoot' ?_
    rintro ⟨rfl, k, low, same⟩
    obtain rfl : k = 0 := by omega
    rw [page_zero] at same
    exact elsewhere ⟨all.mpr (by omega), rfl, same⟩

theorem samePage_mul {k k' : Nat} (below : k * PGSIZE ≤ VA_MAX) (below' : k' * PGSIZE ≤ VA_MAX) :
    SamePage (k * PGSIZE) (k' * PGSIZE) ↔ k = k' := by
  rw [samePage_iff below below', Nat.mul_div_cancel k (by decide), Nat.mul_div_cancel k' (by decide)]

end OsCpp.Sv39
