import OsCpp.Sv39.Page

/-!
# The address space of a process

The pages of a process are the first ones of its table, each in a frame of its own.  One of them, the
guard below the stack, may be out of reach of the user.
-/

namespace OsCpp.Sv39

open Frames (PGSIZE VA_MAX TRAPFRAME SamePage)

variable {roots : Nat → Prop} {m m' m'' : Memory} {root count : Nat}

def KERNEL_BASE : Nat := 0x80000000

/-- `PHY_END`, 128 MiB above. -/
def PHY_END : Nat := KERNEL_BASE + 128 * 1024 * 1024

/-- The frames the kernel manages. -/
def Physical (frame : Nat) : Prop := KERNEL_BASE / PGSIZE ≤ frame ∧ frame < PHY_END / PGSIZE

/-- The user may reach a page. -/
def User (m : Memory) (root k : Nat) : Prop :=
  ∃ pte, m.entry root (k * PGSIZE) = some pte ∧ pte &&& PTE_U ≠ 0

/-- The first `count` pages, and no others, are the process's, in frames that nothing else maps. -/
structure Space (roots : Nat → Prop) (root count : Nat) (m : Memory) : Prop where
  sound : Sound roots m
  isRoot : roots root
  below : count ≤ TRAPFRAME / PGSIZE
  inside : ∀ k < count, ∃ pte, m.entry root (k * PGSIZE) = some pte ∧ PTE_FLAGS pte ≠ PTE_V ∧
    Physical (PTE2PA pte / PGSIZE)
  user : ∃ guard : Option Nat, ∀ k < VA_MAX / PGSIZE, User m root k ↔ k < count ∧ guard ≠ some k
  outside : ∀ k, count ≤ k → k < TRAPFRAME / PGSIZE → m.entry root (k * PGSIZE) = none
  owned : ∀ k < count, ∀ {pte root' va pte'}, m.entry root (k * PGSIZE) = some pte → roots root' →
    m.entry root' va = some pte' → PTE2PA pte' / PGSIZE = PTE2PA pte / PGSIZE →
    root' = root ∧ SamePage (k * PGSIZE) va
  free : ∀ frame ∈ m.freelist, Physical frame

theorem page_below {k : Nat} (below : k ≤ VA_MAX / PGSIZE) : k * PGSIZE ≤ VA_MAX :=
  (Nat.mul_le_mul_right PGSIZE below).trans (Nat.div_mul_le_self VA_MAX PGSIZE)

theorem samePage_eq {k k' : Nat} (below : k ≤ VA_MAX / PGSIZE) (below' : k' ≤ VA_MAX / PGSIZE)
    (same : SamePage (k * PGSIZE) (k' * PGSIZE)) : k = k' :=
  (samePage_mul (page_below below) (page_below below')).mp same

theorem trapframe_below : TRAPFRAME / PGSIZE + 2 = VA_MAX / PGSIZE := by decide

theorem user_packed (fresh : Nat) {flag : Nat} (user : flag &&& PTE_U ≠ 0) :
    flag ||| PTE_V ≠ PTE_V ∧ packed fresh flag &&& PTE_U ≠ 0 := by
  constructor
  · intro equal
    refine user ?_
    have bits := congrArg (· &&& PTE_U) equal
    simp only [Nat.and_or_distrib_right] at bits
    exact (Nat.or_eq_zero_iff.mp bits).1
  · simp only [packed, Nat.and_or_distrib_right]
    intro zero
    exact user (Nat.or_eq_zero_iff.mp (Nat.or_eq_zero_iff.mp zero).1).2

theorem user_congr {k : Nat} (same : m'.entry root (k * PGSIZE) = m.entry root (k * PGSIZE)) :
    User m' root k ↔ User m root k := by
  rw [User, User, same]

theorem low_isSome {va pte : Nat} (mapped : m.entry root va = some pte) : (m.low root va).isSome := by
  cases found : m.low root va with
  | none =>
    rw [Memory.entry, found] at mapped
    cases mapped
  | some => rfl

namespace Space

/-- The frame of a page. -/
def frame (m : Memory) (root k : Nat) : Nat :=
  ((m.entry root (k * PGSIZE)).map fun pte => PTE2PA pte / PGSIZE).getD 0

section

variable (space : Space roots root count m)
include space

theorem room : count + m.freelist.length ≤ 32768 := by
  have frames : ∀ k < count, ∃ pte, m.entry root (k * PGSIZE) = some pte ∧
      frame m root k = PTE2PA pte / PGSIZE := by
    intro k low
    obtain ⟨pte, mapped, -⟩ := space.inside k low
    exact ⟨pte, mapped, by rw [frame, mapped]; rfl⟩
  have distinct : ((List.range count).map (frame m root)).Nodup := by
    refine List.Nodup.map_on (fun k low k' low' equal => ?_) List.nodup_range
    rw [List.mem_range] at low low'
    obtain ⟨pte, mapped, here⟩ := frames k low
    obtain ⟨pte', mapped', here'⟩ := frames k' low'
    rw [here, here'] at equal
    have below := space.below
    have limit := trapframe_below
    exact samePage_eq (by omega) (by omega)
      (space.owned k low mapped space.isRoot mapped' equal.symm).2
  have apart : ((List.range count).map (frame m root)).Disjoint m.freelist := by
    intro page member free
    obtain ⟨k, low, rfl⟩ := List.mem_map.mp member
    obtain ⟨pte, mapped, here⟩ := frames k (List.mem_range.mp low)
    rw [here] at free
    exact (space.sound.leaves space.isRoot mapped).1 free
  have physical : (List.range count).map (frame m root) ++ m.freelist ⊆
      List.range' (KERNEL_BASE / PGSIZE) 32768 := by
    intro page member
    have within : Physical page := by
      rcases List.mem_append.mp member with member | free
      · obtain ⟨k, low, rfl⟩ := List.mem_map.mp member
        obtain ⟨pte, mapped, -, physical⟩ := space.inside k (List.mem_range.mp low)
        rwa [frame, mapped]
      · exact space.free page free
    rw [List.mem_range'_1]
    exact within
  have fits := ((distinct.append space.sound.nodup apart).subperm physical).length_le
  rwa [List.length_append, List.length_map, List.length_range, List.length_range'] at fits

/-- Entries stay, and no frame is freed. -/
theorem congr (sound : Sound roots m')
    (entries : ∀ {root' va}, roots root' → m'.entry root' va = m.entry root' va)
    (free : ∀ frame ∈ m'.freelist, frame ∈ m.freelist) : Space roots root count m' := by
  have here : ∀ {va}, m'.entry root va = m.entry root va := entries space.isRoot
  refine ⟨sound, space.isRoot, space.below, ?_, ?_, ?_, ?_,
    fun frame member => space.free frame (free frame member)⟩
  · simp only [here]
    exact space.inside
  · simp only [user_congr here]
    exact space.user
  · simp only [here]
    exact space.outside
  · intro k low pte root' va pte' mapped isRoot' mapped'
    rw [here] at mapped
    rw [entries isRoot'] at mapped'
    exact space.owned k low mapped isRoot' mapped'

theorem push (sound : Sound roots m') {fresh flag : Nat}
    (flags : flag < 1024) (user : flag &&& PTE_U ≠ 0) (room : count < TRAPFRAME / PGSIZE)
    (taken : fresh ∈ m.freelist) (free : ∀ frame ∈ m'.freelist, frame ∈ m.freelist)
    (entries : ∀ {root' va}, roots root' → m'.entry root' va =
      if root' = root ∧ SamePage (count * PGSIZE) va then some (packed fresh flag)
      else m.entry root' va) : Space roots root (count + 1) m' := by
  have small := space.sound.small fresh taken
  have frame : PTE2PA (packed fresh flag) / PGSIZE = fresh := frame_pack small flags
  have last : m'.entry root (count * PGSIZE) = some (packed fresh flag) := by
    rw [entries space.isRoot, if_pos ⟨rfl, rfl, rfl, rfl⟩]
  have bits := user_packed fresh user
  have limit := trapframe_below
  have older : ∀ {k}, k ≠ count → k ≤ VA_MAX / PGSIZE →
      m'.entry root (k * PGSIZE) = m.entry root (k * PGSIZE) := by
    intro k other below
    rw [entries space.isRoot, if_neg]
    rintro ⟨-, same⟩
    exact other (samePage_eq (by omega) below same).symm
  -- a frame taken from the free list is mapped nowhere else
  have unmapped : ∀ {root' va pte}, roots root' → m.entry root' va = some pte →
      PTE2PA pte / PGSIZE ≠ fresh := fun isRoot' mapped equal =>
    (space.sound.leaves isRoot' mapped).1 (equal ▸ taken)
  obtain ⟨guard, reach⟩ := space.user
  refine ⟨sound, space.isRoot, room, fun k low => ?_, ⟨guard.filter (· ≠ count), fun k below => ?_⟩,
    fun k high below => ?_, fun k low pte root' va pte' mapped isRoot' mapped' equal => ?_,
    fun frame member => space.free frame (free frame member)⟩
  · by_cases new : k = count
    · subst new
      refine ⟨_, last, ?_, ?_⟩
      · rw [flags_pack small flags]
        exact bits.1
      · rw [frame]
        exact space.free fresh taken
    · rw [older new (by omega)]
      exact space.inside k (by omega)
  · by_cases new : k = count
    · subst new
      exact ⟨fun _ => ⟨by omega, by simp⟩, fun _ => ⟨_, last, bits.2⟩⟩
    · rw [user_congr (older new below.le), reach k below]
      simp only [ne_eq, Option.filter_eq_some_iff, decide_eq_true_eq, not_and, not_not]
      constructor
      · rintro ⟨low, other⟩
        exact ⟨by omega, fun equal => absurd equal other⟩
      · rintro ⟨low, other⟩
        exact ⟨by omega, fun equal => new (other equal)⟩
  · rw [older (by omega) (by omega)]
    exact space.outside k (by omega) below
  · rw [entries isRoot'] at mapped'
    by_cases new : k = count
    · subst new
      rw [last] at mapped
      cases mapped
      rw [frame] at equal
      split at mapped'
      next here => exact here
      next => exact absurd equal (unmapped isRoot' mapped')
    · rw [older new (by omega)] at mapped
      split at mapped'
      · cases mapped'
        rw [frame] at equal
        exact absurd equal.symm (unmapped space.isRoot mapped)
      · exact space.owned k (by omega) mapped isRoot' mapped' equal

/-- The last pages are unmapped and their frames freed. -/
theorem wp_shrink {keep : Nat} (fewer : keep ≤ count) :
    Program.wp (uvm_unmap root (keep * PGSIZE) (count - keep) true) (fun _ m' =>
      Unmaps roots root true (keep * PGSIZE) (count - keep) m m' ∧ Space roots root keep m')
      (fun _ _ => False) m := by
  have limit := trapframe_below
  have below := space.below
  have shift : ∀ k, keep * PGSIZE + k * PGSIZE = (keep + k) * PGSIZE := fun k => by ring
  have range : keep * PGSIZE + (count - keep) * PGSIZE ≤ VA_MAX := by
    rw [shift]
    exact page_below (by omega)
  have owned : Owned roots m root (keep * PGSIZE) (count - keep) := by
    intro k low pte mapped root' va pte' isRoot' mapped' equal
    rw [shift] at mapped ⊢
    exact space.owned (keep + k) (by omega) mapped isRoot' mapped' equal
  have regular : Regular m root (keep * PGSIZE) (count - keep) := by
    intro k low
    obtain ⟨pte, mapped, leaf, -⟩ := space.inside (keep + k) (by omega)
    rw [shift]
    refine ⟨low_isSome mapped, fun {pte'} mapped' => ?_⟩
    rw [mapped] at mapped'
    cases mapped'
    exact leaf
  refine Program.wp_mono (wp_uvm_unmap space.sound space.isRoot (Nat.mul_mod_left _ _) range
    fun _ => owned) (fun _ m' unmaps => ⟨unmaps, ?_⟩) fun _ _ irregular => irregular regular
  have older : ∀ {k}, k ≤ VA_MAX / PGSIZE → ¬(keep ≤ k ∧ k < count) →
      m'.entry root (k * PGSIZE) = m.entry root (k * PGSIZE) := by
    intro k below' outside
    refine unmaps.others space.isRoot ?_
    rintro ⟨-, j, low, same⟩
    rw [shift] at same
    have := samePage_eq (by omega) below' same
    omega
  have gone : ∀ k, keep ≤ k → k < count → m'.entry root (k * PGSIZE) = none := by
    intro k high low
    refine unmaps.gone (k - keep) (by omega) ?_
    rw [shift, show keep + (k - keep) = k by omega]
    exact ⟨rfl, rfl, rfl⟩
  have subset : ∀ {root' va pte}, roots root' → m'.entry root' va = some pte →
      m.entry root' va = some pte := by
    intro root' va pte isRoot' mapped
    rwa [unmaps.others isRoot'] at mapped
    rintro ⟨rfl, j, low, same⟩
    rw [unmaps.gone j low same] at mapped
    cases mapped
  obtain ⟨guard, reach⟩ := space.user
  refine ⟨unmaps.sound, space.isRoot, by omega, fun k low => ?_, ⟨guard, fun k below' => ?_⟩,
    fun k high below' => ?_, fun k low pte root' va pte' mapped isRoot' mapped' equal => ?_,
    fun frame member => ?_⟩
  · rw [older (by omega) (by omega)]
    exact space.inside k (by omega)
  · by_cases removed : keep ≤ k ∧ k < count
    · rw [User, gone k removed.1 removed.2]
      constructor
      · rintro ⟨_, absurd, -⟩
        cases absurd
      · rintro ⟨low, -⟩
        omega
    · rw [user_congr (older below'.le removed), reach k below']
      constructor
      · rintro ⟨low, other⟩
        exact ⟨by omega, other⟩
      · rintro ⟨low, other⟩
        exact ⟨by omega, other⟩
  · by_cases low : k < count
    · exact gone k high low
    · rw [older (by omega) (by omega)]
      exact space.outside k (by omega) below'
  · exact space.owned k (by omega) (subset space.isRoot mapped) isRoot' (subset isRoot' mapped') equal
  · obtain ⟨freed, split, frees⟩ := unmaps.free
    rw [split, List.mem_append] at member
    rcases member with member | free
    · obtain ⟨-, k, low, pte, mapped, rfl⟩ := (frees frame).mp member
      rw [shift] at mapped
      obtain ⟨pte', mapped', -, physical⟩ := space.inside (keep + k) (by omega)
      rw [mapped] at mapped'
      cases mapped'
      exact physical
    · exact space.free frame free

end

end Space

end OsCpp.Sv39
