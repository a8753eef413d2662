import OsCpp.Sv39.Tree
import Mathlib.Tactic.Ring

/-!
# Page tables as finite maps

What `walk`, `map_pages` and `uvm_unmap` do to the translations of all page tables.
-/

namespace OsCpp.Sv39

open Radix (node store)
open Function (update update_idem update_of_ne)
open Program (wp_bind wp_mono wp_get wp_pure wp_ite wp_modify wp)

open Frames (PX PGSIZE VA_MAX SamePage)
open Memory (entry low)

variable {roots : Nat → Prop} {m m' m'' : Memory} {root va : Nat}

/-- Addresses below `VA_MAX` have the same entry if they are in one page. -/
theorem samePage_iff {va va' : Nat} (below : va ≤ VA_MAX) (below' : va' ≤ VA_MAX) :
    SamePage va va' ↔ va / PGSIZE = va' / PGSIZE := by
  simp only [SamePage, PX, Fin.mk.injEq, PGSIZE, VA_MAX] at *
  norm_num at *
  omega

theorem page_zero (a : Nat) : a + 0 * PGSIZE = a := by ring

theorem page_succ (a k : Nat) : a + (k + 1) * PGSIZE = a + PGSIZE + k * PGSIZE := by ring

theorem page_ne {a n k : Nat} (below : a + (n + 1) * PGSIZE ≤ VA_MAX) (low : k < n) :
    ¬SamePage a (a + PGSIZE + k * PGSIZE) := by
  intro same
  have below' : a + (n + 1) * 4096 ≤ VA_MAX := below
  rw [samePage_iff (by omega) (by simp only [PGSIZE]; omega)] at same
  simp only [PGSIZE] at same
  omega

/-- Nodes are added, and no translation changes. -/
structure Extends (roots : Nat → Prop) (m m' : Memory) : Prop where
  sound : Sound roots m'
  grows : Grows roots m m'
  entry : ∀ {root va}, roots root → m'.entry root va = m.entry root va

theorem Extends.trans (left : Extends roots m m') (right : Extends roots m' m'') :
    Extends roots m m'' :=
  ⟨right.sound, left.grows.trans right.grows, fun isRoot => (right.entry isRoot).trans (left.entry isRoot)⟩

theorem descend_lookup (va level frame : Nat) (m : Memory) :
    descend va false level frame m = .ok (child (m.ram frame (PX level va))) m := by
  unfold descend load child
  by_cases valid : m.ram frame (PX level va) &&& PTE_V ≠ 0
  · rw [if_pos valid]
    exact congrFun (if_pos valid) m
  · rw [if_neg valid]
    exact congrFun (if_neg valid) m

theorem walk_lookup (root : Nat) (below : va ≤ VA_MAX) (m : Memory) :
    walk root va false m = .ok ((m.low root va).map fun low => (low, PX 0 va)) m := by
  unfold walk
  rw [if_neg (Nat.not_lt.mpr below)]
  simp only [bind, EStateM.bind, descend_lookup, low, Memory.node, node]
  cases child (m.ram root (PX 2 va)) with
  | none => rfl
  | some mid =>
    simp only [EStateM.bind, Option.bind_some, descend_lookup]
    cases child (m.ram mid (PX 1 va)) <;> rfl

/-- A node below another one is found or made. -/
theorem wp_descend (sound : Sound roots m) (isRoot : roots root) {path : List (Fin 512)} {frame : Nat}
    (reached : m.node root path = some frame) (high : path.length < 2) (va level : Nat) :
    wp (descend va true level frame) (fun next m' => Extends roots m m' ∧
      ∀ low, next = some low → m'.node root (path ++ [PX level va]) = some low)
      (fun _ _ => False) m := by
  have same : Extends roots m m := ⟨sound, Grows.refl m, fun _ => rfl⟩
  have next : m.node root (path ++ [PX level va]) = child (m.ram frame (PX level va)) := by
    rw [Memory.node, Radix.node_append]
    rw [Memory.node] at reached
    rw [reached, Option.bind_some]
  unfold descend load
  simp only [wp_bind, wp_get, wp_pure, wp_ite, if_true]
  refine ⟨fun valid => ⟨same, fun low found => ?_⟩, fun invalid => ?_⟩
  · rw [next, child, if_pos valid, found]
  · have vacant : child (m.ram frame (PX level va)) = none := by
      rw [child, if_neg invalid]
    unfold kalloc
    simp only [wp_bind, wp_get]
    cases free : m.freelist with
    | nil => exact ⟨same, (by simp)⟩
    | cons fresh rest =>
      obtain ⟨sound', grows, linked, entry⟩ := sound.link isRoot reached high vacant free rfl
      simp only [memset, put, wp_bind, wp_modify, wp_pure, update_idem]
      refine ⟨⟨sound', grows, entry⟩, fun low found => ?_⟩
      rw [← found]
      exact linked

/-- `walk` with allocation finds or makes the node for an address. -/
theorem wp_walk (sound : Sound roots m) (isRoot : roots root) (below : va ≤ VA_MAX) :
    wp (walk root va true) (fun found m' => Extends roots m m' ∧
      ∀ low index, found = some (low, index) → m'.low root va = some low ∧ index = PX 0 va)
      (fun _ _ => False) m := by
  unfold walk
  rw [if_neg (Nat.not_lt.mpr below), wp_bind]
  refine wp_mono (wp_descend sound isRoot (show m.node root [] = some root from rfl) (by simp) va 2) ?_ fun _ _ => id
  rintro (_ | mid) m₁ ⟨first, reached⟩
  · exact ⟨first, nofun⟩
  · simp only [wp_bind]
    refine wp_mono (wp_descend first.sound isRoot (reached mid rfl) (by simp) va 1) ?_
      fun _ _ => id
    rintro (_ | low) m₂ ⟨second, reached'⟩
    · exact ⟨first.trans second, nofun⟩
    · refine ⟨first.trans second, fun low' index found => ?_⟩
      cases found
      exact ⟨reached' low rfl, rfl⟩

/-- The entry for a frame. -/
abbrev packed (frame flag : Nat) : Nat := PA2PTE (frame * PGSIZE) ||| flag ||| PTE_V

/-- The first pages of a range are mapped to consecutive frames. -/
structure Maps (roots : Nat → Prop) (root flag a frame n : Nat) (m m' : Memory) : Prop where
  sound : Sound roots m'
  grows : Grows roots m m'
  mapped : ∀ k < n, ∀ {va}, SamePage (a + k * PGSIZE) va → m'.entry root va = some (packed (frame + k) flag)
  others : ∀ {root' va}, roots root' → ¬(root' = root ∧ ∃ k < n, SamePage (a + k * PGSIZE) va) →
    m'.entry root' va = m.entry root' va

/-- Frames that may be mapped. -/
structure Given (roots : Nat → Prop) (m : Memory) (frame n : Nat) : Prop where
  small : frame + n ≤ 2 ^ 52
  used : ∀ k < n, frame + k ∉ m.freelist
  data : ∀ k < n, ¬IsNode roots m (frame + k)

theorem Given.grows {frame n : Nat} (given : Given roots m frame (n + 1)) (grows : Grows roots m m') :
    Given roots m' (frame + 1) n := by
  refine ⟨by have := given.small; omega, fun k low free => ?_, fun k low node => ?_⟩
  · have used := given.used (k + 1) (by omega)
    rw [add_comm k 1, ← add_assoc] at used
    exact used (grows.mem free)
  · have used := given.used (k + 1) (by omega)
    have data := given.data (k + 1) (by omega)
    rw [add_comm k 1, ← add_assoc] at used data
    exact (grows.nodes node).elim data used

theorem entry_none_of_low {low : Nat} (found : m.low root va = some low)
    (unmapped : m.entry root va = none) : m.ram low (PX 0 va) &&& PTE_V = 0 := by
  unfold entry at unmapped
  rw [found, Option.bind_some] at unmapped
  by_contra valid
  rw [if_pos valid] at unmapped
  cases unmapped

theorem wp_mapFrom {flag : Nat} (flags : flag < 1024) (isRoot : roots root) (n : Nat) {a frame : Nat}
    (sound : Sound roots m) (aligned : a % PGSIZE = 0) (below : a + n * PGSIZE ≤ VA_MAX)
    (unmapped : ∀ k < n, m.entry root (a + k * PGSIZE) = none) (given : Given roots m frame n) :
    wp (mapFrom root flag a (frame * PGSIZE) n) (fun done m' =>
      ∃ j ≤ n, (done = true ↔ j = n) ∧ Maps roots root flag a frame j m m') (fun _ _ => False) m := by
  induction n generalizing a frame m with
  | zero =>
    exact ⟨0, le_rfl, by simp, sound, Grows.refl m, fun k low => absurd low (by omega), fun _ _ => rfl⟩
  | succ n ih =>
    have aligned' : a % 4096 = 0 := aligned
    have below' : a + (n + 1) * 4096 ≤ VA_MAX := below
    have here : m.entry root a = none := by
      have first := unmapped 0 (by omega)
      rwa [page_zero] at first
    unfold mapFrom
    rw [wp_bind]
    refine wp_mono (wp_walk sound isRoot (by omega)) ?_ fun _ _ => id
    rintro (_ | ⟨low, index⟩) m₁ ⟨ext, walked⟩
    · exact ⟨0, by omega, by simp, ext.sound, ext.grows, fun k low => absurd low (by omega),
        fun isRoot' _ => ext.entry isRoot'⟩
    · obtain ⟨found, rfl⟩ := walked low index rfl
      have vacant := entry_none_of_low found ((ext.entry isRoot).trans here)
      have small : frame < 2 ^ 52 := by have := given.small; omega
      have pack : PTE2PA (packed frame flag) / PGSIZE = frame := frame_pack small flags
      have apart : frame ∉ m₁.freelist ∧ ¬IsNode roots m₁ frame := by
        have used := given.used 0 (by omega)
        have data := given.data 0 (by omega)
        exact ⟨fun free => used (ext.grows.mem free), fun node => (ext.grows.nodes node).elim data used⟩
      obtain ⟨sound₂, grows₂, entry₂, -⟩ := ext.sound.leaf isRoot found
        (rfl : { m₁ with ram := store m₁.ram low (PX 0 a) (packed frame flag) } = _)
        fun _ => pack.symm ▸ apart
      have grows := ext.grows.trans grows₂
      simp only [load, put, wp_bind, wp_get, wp_pure, wp_ite,
        vacant, ne_eq, not_true_eq_false, false_implies, true_and, not_false_eq_true, true_implies,
        wp_modify]
      have address : frame * PGSIZE + PGSIZE = (frame + 1) * PGSIZE := by ring
      rw [address]
      have later : ∀ k < n, ¬SamePage a (a + PGSIZE + k * PGSIZE) := fun k => page_ne below
      refine wp_mono (ih sound₂ (by simp only [PGSIZE]; omega) (by simp only [PGSIZE]; omega)
        (fun k low => ?_) (given.grows grows)) ?_ fun _ _ => id
      · rw [entry₂ isRoot, if_neg fun both => later k low both.2, ext.entry isRoot]
        have next := unmapped (k + 1) (by omega)
        rwa [page_succ] at next
      · rintro done m₃ ⟨j, low, all, maps⟩
        refine ⟨j + 1, by omega, by rw [all]; omega, maps.sound, grows.trans maps.grows,
          fun k small' va same => ?_, fun {root' va} isRoot' outside => ?_⟩
        · cases k with
          | zero =>
            rw [page_zero] at same
            have other : ¬(root = root ∧ ∃ k < j, SamePage (a + PGSIZE + k * PGSIZE) va) := by
              rintro ⟨-, k, small'', same'⟩
              refine later k (by omega) ?_
              exact ⟨same.1.trans same'.1.symm, same.2.1.trans same'.2.1.symm,
                same.2.2.trans same'.2.2.symm⟩
            rw [maps.others isRoot other, entry₂ isRoot, if_pos ⟨rfl, same⟩,
              if_pos (valid_pack _ flag), add_zero]
          | succ k =>
            rw [page_succ] at same
            rw [maps.mapped k (by omega) same, add_assoc frame, add_comm 1 k]
        · have other : ¬(root' = root ∧ ∃ k < j, SamePage (a + PGSIZE + k * PGSIZE) va) := by
            rintro ⟨rfl, k, small'', same'⟩
            refine outside ⟨rfl, k + 1, by omega, ?_⟩
            rwa [page_succ]
          have first : ¬(root' = root ∧ SamePage a va) := by
            rintro ⟨rfl, same⟩
            refine outside ⟨rfl, 0, by omega, ?_⟩
            rwa [page_zero]
          rw [maps.others isRoot' other, entry₂ isRoot', if_neg first, ext.entry isRoot']

/-- The frames of a range belong to it alone, so that they can be freed. -/
def Owned (roots : Nat → Prop) (m : Memory) (root a n : Nat) : Prop :=
  ∀ k < n, ∀ {pte}, m.entry root (a + k * PGSIZE) = some pte → ∀ {root' va pte'}, roots root' →
    m.entry root' va = some pte' → PTE2PA pte' / PGSIZE = PTE2PA pte / PGSIZE →
    root' = root ∧ SamePage (a + k * PGSIZE) va

/-- The nodes of a range exist and its entries are leaves. -/
def Regular (m : Memory) (root a n : Nat) : Prop :=
  ∀ k < n, (m.low root (a + k * PGSIZE)).isSome ∧
    ∀ {pte}, m.entry root (a + k * PGSIZE) = some pte → PTE_FLAGS pte ≠ PTE_V

/-- The pages of a range are unmapped. -/
structure Unmaps (roots : Nat → Prop) (root : Nat) (do_free : Bool) (a n : Nat) (m m' : Memory) : Prop where
  sound : Sound roots m'
  node : ∀ {frame}, IsNode roots m' frame ↔ IsNode roots m frame
  low : ∀ {root' va}, roots root' → m'.low root' va = m.low root' va
  gone : ∀ k < n, ∀ {va}, SamePage (a + k * PGSIZE) va → m'.entry root va = none
  others : ∀ {root' va}, roots root' → ¬(root' = root ∧ ∃ k < n, SamePage (a + k * PGSIZE) va) →
    m'.entry root' va = m.entry root' va
  free : ∃ freed, m'.freelist = freed ++ m.freelist ∧ ∀ frame, frame ∈ freed ↔ do_free = true ∧
    ∃ k < n, ∃ pte, m.entry root (a + k * PGSIZE) = some pte ∧ PTE2PA pte / PGSIZE = frame
  data : ∀ {frame}, frame ∉ m'.freelist → ¬IsNode roots m frame → m'.ram frame = m.ram frame

theorem entry_of_low {low : Nat} (found : m.low root va = some low) :
    m.entry root va =
      if m.ram low (PX 0 va) &&& PTE_V ≠ 0 then some (m.ram low (PX 0 va)) else none := by
  rw [entry, found, Option.bind_some]

theorem entry_congr {va va' : Nat} (same : SamePage va va') : m.entry root va = m.entry root va' := by
  rw [entry, entry, low, low, same.1, same.2.1, same.2.2]

theorem frame_lt (pte : Nat) : PTE2PA pte / PGSIZE < 2 ^ 52 := by
  unfold PTE2PA PGSIZE
  omega

/-- An entry is cleared, after its frame has been freed. -/
def Memory.unmapped (m : Memory) (do_free : Bool) (low : Nat) (index : Fin 512) (frame : Nat) : Memory :=
  if do_free then
    ⟨store (update m.ram frame (freed m.freelist)) low index 0, frame :: m.freelist⟩
  else ⟨store m.ram low index 0, m.freelist⟩

variable {do_free : Bool}

/-- An entry is removed, and its frame is freed if it has no other. -/
theorem unmap_one (sound : Sound roots m) (isRoot : roots root) {low pte : Nat}
    (found : m.low root va = some low) (mapped : m.entry root va = some pte)
    (alone : do_free = true → ∀ {root' va' pte'}, roots root' → m.entry root' va' = some pte' →
      PTE2PA pte' / PGSIZE = PTE2PA pte / PGSIZE → root' = root ∧ SamePage va va')
    (after : m' = m.unmapped do_free low (PX 0 va) (PTE2PA pte / PGSIZE)) :
    Sound roots m' ∧ (∀ {frame}, IsNode roots m' frame ↔ IsNode roots m frame) ∧
      (∀ {root' va'}, roots root' → m'.low root' va' = m.low root' va') ∧
      (∀ {root' va'}, roots root' → m'.entry root' va' =
        if root' = root ∧ SamePage va va' then none else m.entry root' va') ∧
      m'.freelist = (if do_free then [PTE2PA pte / PGSIZE] else []) ++ m.freelist ∧
      ∀ {frame}, frame ∉ m'.freelist → ¬IsNode roots m frame → m'.ram frame = m.ram frame := by
  obtain ⟨used, data⟩ := sound.leaves isRoot mapped
  obtain ⟨sound₁, grows₁, entry₁, low₁⟩ := sound.leaf isRoot found
    (rfl : { m with ram := store m.ram low (PX 0 va) 0 } = _) fun valid => absurd rfl valid
  have node₁ : ∀ {frame}, IsNode roots { m with ram := store m.ram low (PX 0 va) 0 } frame ↔
      IsNode roots m frame := ⟨fun node => (grows₁.nodes node).elim id fun free => by
        exact absurd free (sound₁.nodes node), grows₁.kept⟩
  have words₁ : ∀ {frame}, ¬IsNode roots m frame →
      store m.ram low (PX 0 va) 0 frame = m.ram frame := by
    intro frame data
    refine Radix.store_of_ne ?_ _ _
    rintro rfl
    exact data (isNode_low isRoot found)
  have entry₁ : ∀ {root' va'}, roots root' →
      entry { m with ram := store m.ram low (PX 0 va) 0 } root' va' =
        if root' = root ∧ SamePage va va' then none else m.entry root' va' := entry₁
  cases do_free with
  | false =>
    obtain rfl := after
    exact ⟨sound₁, node₁, low₁, entry₁, rfl, fun _ data => words₁ data⟩
  | true =>
    have other : low ≠ PTE2PA pte / PGSIZE := by
      rintro rfl
      exact data (isNode_low isRoot found)
    have swap : store (update m.ram (PTE2PA pte / PGSIZE) (freed m.freelist)) low
        (PX 0 va) 0 =
        update (store m.ram low (PX 0 va) 0) (PTE2PA pte / PGSIZE) (freed m.freelist) := by
      unfold store
      rw [update_of_ne other, Function.update_comm other]
    rw [Memory.unmapped, if_pos rfl, swap] at after
    obtain ⟨sound₂, entry₂, low₂, node₂⟩ := sound₁.free after (fun node => data (node₁.mp node)) used
      (frame_lt pte) fun {root' va' pte'} isRoot' mapped' equal => by
        rw [entry₁ isRoot'] at mapped'
        split at mapped'
        · cases mapped'
        next outside => exact outside (alone rfl isRoot' mapped' equal)
    refine ⟨sound₂, node₂.trans node₁, fun isRoot' => (low₂ isRoot').trans (low₁ isRoot'),
      fun isRoot' => (entry₂ isRoot').trans (entry₁ isRoot'), by rw [after]; rfl,
      fun {frame} apart data => ?_⟩
    rw [after] at apart ⊢
    refine (update_of_ne ?_ _ _).trans (words₁ data)
    rintro rfl
    exact apart List.mem_cons_self

theorem Unmaps.cons {a n : Nat} {first : List Nat} (isRoot : roots root)
    (node : ∀ {frame}, IsNode roots m' frame ↔ IsNode roots m frame)
    (low : ∀ {root' va'}, roots root' → m'.low root' va' = m.low root' va')
    (entry : ∀ {root' va'}, roots root' → m'.entry root' va' =
      if root' = root ∧ SamePage a va' then none else m.entry root' va')
    (free : m'.freelist = first ++ m.freelist)
    (frees : ∀ frame, frame ∈ first ↔ do_free = true ∧
      ∃ pte, m.entry root a = some pte ∧ PTE2PA pte / PGSIZE = frame)
    (data : ∀ {frame}, frame ∉ m'.freelist → ¬IsNode roots m frame → m'.ram frame = m.ram frame)
    (later : ∀ k < n, ¬SamePage a (a + PGSIZE + k * PGSIZE))
    (rest : Unmaps roots root do_free (a + PGSIZE) n m' m'') :
    Unmaps roots root do_free a (n + 1) m m'' := by
  have kept : ∀ k < n, m'.entry root (a + PGSIZE + k * PGSIZE) =
      m.entry root (a + PGSIZE + k * PGSIZE) := by
    intro k small
    rw [entry isRoot, if_neg fun both => later k small both.2]
  obtain ⟨others, split, frees'⟩ := rest.free
  refine ⟨rest.sound, rest.node.trans node, fun isRoot' => (rest.low isRoot').trans (low isRoot'),
    fun k small va same => ?_, fun {root' va} isRoot' outside => ?_,
    ⟨others ++ first, by rw [split, free, List.append_assoc], fun frame => ?_⟩, fun {frame} apart data' => ?_⟩
  · by_cases behind : ∃ k < n, SamePage (a + PGSIZE + k * PGSIZE) va
    · obtain ⟨k, small, same⟩ := behind
      exact rest.gone k small same
    · rw [rest.others isRoot fun both => behind both.2, entry isRoot]
      cases k with
      | zero =>
        rw [page_zero] at same
        rw [if_pos ⟨rfl, same⟩]
      | succ k =>
        rw [page_succ] at same
        exact absurd ⟨k, by omega, same⟩ behind
  · rw [rest.others isRoot', entry isRoot', if_neg]
    · rintro ⟨rfl, same⟩
      exact outside ⟨rfl, 0, by omega, by rwa [page_zero]⟩
    · rintro ⟨rfl, k, small, same⟩
      exact outside ⟨rfl, k + 1, by omega, by rwa [page_succ]⟩
  · rw [List.mem_append, frees, frees']
    constructor
    · rintro (⟨freeing, k, small, pte, mapped, equal⟩ | ⟨freeing, pte, mapped, equal⟩)
      · exact ⟨freeing, k + 1, by omega, pte, by rw [page_succ, ← kept k small, mapped], equal⟩
      · exact ⟨freeing, 0, by omega, pte, by rw [page_zero, mapped], equal⟩
    · rintro ⟨freeing, k, small, pte, mapped, equal⟩
      cases k with
      | zero => exact .inr ⟨freeing, pte, by rw [← mapped, page_zero], equal⟩
      | succ k => exact .inl ⟨freeing, k, by omega, pte, by rw [kept k (by omega), ← page_succ, mapped], equal⟩
  · rw [rest.data apart fun node' => data' (node.mp node'), data _ data']
    intro free'
    refine apart ?_
    rw [split]
    exact List.mem_append_right others free'

theorem wp_unmapFrom (isRoot : roots root) (n : Nat) {a : Nat}
    (sound : Sound roots m) (aligned : a % PGSIZE = 0) (below : a + n * PGSIZE ≤ VA_MAX)
    (owned : do_free = true → Owned roots m root a n) :
    wp (unmapFrom root do_free a n) (fun _ m' => Unmaps roots root do_free a n m m')
      (fun _ _ => ¬Regular m root a n) m := by
  induction n generalizing a m with
  | zero =>
    exact ⟨sound, .rfl, fun _ => rfl, fun k low => absurd low (by omega), fun _ _ => rfl,
      ⟨[], rfl, by simp⟩, fun _ _ => rfl⟩
  | succ n ih =>
    have aligned' : a % 4096 = 0 := aligned
    have below' : a + (n + 1) * 4096 ≤ VA_MAX := below
    have later : ∀ k < n, ¬SamePage a (a + PGSIZE + k * PGSIZE) := fun k => page_ne below
    have next : (a + PGSIZE) % PGSIZE = 0 := by
      simp only [PGSIZE]
      omega
    have beyond : a + PGSIZE + n * PGSIZE ≤ VA_MAX := by
      simp only [PGSIZE]
      omega
    unfold unmapFrom
    rw [wp_bind, wp, walk_lookup root (by omega)]
    cases found : m.low root a with
    | none =>
      intro regular
      have exists' := (regular 0 (by omega)).1
      rw [page_zero, found] at exists'
      cases exists'
    | some low =>
      have here := entry_of_low found
      simp only [Option.map_some, load, wp_bind, wp_get, wp_pure,
        wp_ite]
      refine ⟨fun invalid => ?_, fun valid => ⟨fun interior regular => ?_, fun leaf => ?_⟩⟩
      · -- the page is not mapped
        rw [if_neg (by simpa using invalid)] at here
        refine wp_mono (ih sound next beyond fun freeing k small pte mapped => ?_) ?_ ?_
        · rw [← page_succ] at mapped ⊢
          exact owned freeing (k + 1) (by omega) mapped
        · intro _ m' rest
          refine Unmaps.cons isRoot .rfl (fun _ => rfl) (fun {root' va'} _ => ?_)
            (List.nil_append _).symm (fun frame => by simp [here]) (fun _ _ => rfl) later rest
          split
          next both =>
            obtain ⟨rfl, same⟩ := both
            rw [← entry_congr same, here]
          next => rfl
        · intro _ _ irregular regular
          refine irregular fun k small => ?_
          rw [← page_succ]
          exact regular (k + 1) (by omega)
      · rw [if_pos valid] at here
        exact (regular 0 (by omega)).2 (by rw [page_zero]; exact here) interior
      · rw [if_pos valid] at here
        generalize pte_eq : m.ram low (PX 0 a) = pte at *
        have alone : do_free = true → ∀ {root' va' pte'}, roots root' →
            m.entry root' va' = some pte' → PTE2PA pte' / PGSIZE = PTE2PA pte / PGSIZE →
            root' = root ∧ SamePage a va' := by
          intro freeing root' va' pte' isRoot' mapped equal
          have own := owned freeing 0 (by omega) (by rw [page_zero]; exact here) isRoot' mapped equal
          rwa [page_zero] at own
        obtain ⟨m₂, after⟩ : ∃ m₂, m₂ = m.unmapped do_free low (PX 0 a) (PTE2PA pte / PGSIZE) :=
          ⟨_, rfl⟩
        obtain ⟨sound₂, node₂, low₂, entry₂, free₂, data₂⟩ :=
          unmap_one sound isRoot found here alone after
        have kept : ∀ k < n, m₂.entry root (a + PGSIZE + k * PGSIZE) =
            m.entry root (a + PGSIZE + k * PGSIZE) := by
          intro k small
          rw [entry₂ isRoot, if_neg fun both => later k small both.2]
        have rest : wp (unmapFrom root do_free (a + PGSIZE) n)
            (fun _ m' => Unmaps roots root do_free a (n + 1) m m')
            (fun _ _ => ¬Regular m root a (n + 1)) m₂ := by
          refine wp_mono (ih sound₂ next beyond fun freeing k small pte' mapped => ?_) ?_ ?_
          · intro root' va' pte'' isRoot' mapped' equal
            rw [kept k small] at mapped
            rw [entry₂ isRoot'] at mapped'
            split at mapped'
            · cases mapped'
            · rw [← page_succ] at mapped ⊢
              exact owned freeing (k + 1) (by omega) mapped isRoot' mapped' equal
          · intro _ m₃ rest
            refine Unmaps.cons isRoot node₂ low₂ entry₂ free₂ (fun frame => ?_) data₂ later rest
            cases do_free <;> simp [here, eq_comm]
          · intro _ _ irregular regular
            refine irregular fun k small => ?_
            rw [low₂ isRoot, kept k small, ← page_succ]
            exact regular (k + 1) (by omega)
        rw [after] at rest
        cases do_free with
        | false => simpa [put, Memory.unmapped] using rest
        | true => simpa [put, kfree, Memory.unmapped] using rest

theorem sound_empty (nodup : m.freelist.Nodup) (small : ∀ frame ∈ m.freelist, frame < 2 ^ 52) :
    Sound (fun _ => False) m :=
  ⟨fun isRoot => isRoot.elim, fun ⟨_, _, isRoot, _⟩ => isRoot.elim, fun isRoot => isRoot.elim, nodup,
    small⟩

theorem node_blank {fresh : Nat} (blank : ∀ index, m.ram fresh index = 0) {path : List (Fin 512)}
    {frame : Nat} (reached : m.node fresh path = some frame) : path = [] ∧ frame = fresh := by
  cases path with
  | nil => exact ⟨rfl, (Option.some.inj reached).symm⟩
  | cons index path =>
    rw [Memory.node, node, blank index] at reached
    cases reached

theorem entry_blank {fresh : Nat} (blank : ∀ index, m.ram fresh index = 0) (va : Nat) :
    m.entry fresh va = none := by
  have none : m.low fresh va = none := by
    cases found : m.low fresh va with
    | none => rfl
    | some low =>
      obtain ⟨absurd, -⟩ := node_blank blank found
      cases absurd
  rw [entry, none]
  rfl

/-- A free frame becomes the root of a new table. -/
theorem Sound.create (sound : Sound roots m) {fresh : Nat} {rest : List Nat}
    (free : m.freelist = fresh :: rest)
    (after : m' = ⟨update m.ram fresh fun _ => 0, rest⟩) :
    Sound (fun root => roots root ∨ root = fresh) m' ∧
      (∀ {root va}, roots root → m'.entry root va = m.entry root va) ∧
      ∀ va, m'.entry fresh va = none := by
  have taken : fresh ∈ m.freelist := by
    rw [free]
    exact List.mem_cons_self
  have notNode : ¬IsNode roots m fresh := fun node => sound.nodes node taken
  have same : ∀ {frame}, IsNode roots m frame → m'.ram frame = m.ram frame := by
    intro frame node
    rw [after]
    refine update_of_ne ?_ _ _
    rintro rfl
    exact notNode node
  have blank : ∀ index, m'.ram fresh index = 0 := by
    intro index
    simp [after]
  have old : Sound roots m' := sound.of_data same ⟨[fresh], by rw [after, free]; rfl⟩
  have isNode : ∀ {frame}, IsNode (fun root => roots root ∨ root = fresh) m' frame →
      IsNode roots m frame ∨ frame = fresh := by
    rintro frame ⟨root, path, isRoot | rfl, short, reached⟩
    · exact .inl ((isNode_of_data same).mp ⟨root, path, isRoot, short, reached⟩)
    · exact .inr (node_blank blank reached).2
  have nodup := sound.nodup
  rw [free, List.nodup_cons] at nodup
  have rest_mem : ∀ {frame}, frame ∈ m'.freelist → frame ∈ m.freelist ∧ frame ≠ fresh := by
    intro frame member
    rw [after] at member
    refine ⟨by rw [free]; exact .tail _ member, ?_⟩
    rintro rfl
    exact nodup.1 member
  refine ⟨⟨?_, fun node member => ?_, fun {root va pte} isRoot found => ?_, old.nodup, old.small⟩,
    fun isRoot => entry_of_data same isRoot _, entry_blank blank⟩
  · intro root₁ root₂ path₁ path₂ frame isRoot₁ isRoot₂ short₁ short₂ reached₁ reached₂
    rcases isRoot₁ with isRoot₁ | rfl <;> rcases isRoot₂ with isRoot₂ | rfl
    · exact old.separate isRoot₁ isRoot₂ short₁ short₂ reached₁ reached₂
    · obtain ⟨-, rfl⟩ := node_blank blank reached₂
      exact absurd ((isNode_of_data same).mp ⟨root₁, path₁, isRoot₁, short₁, reached₁⟩) notNode
    · obtain ⟨-, rfl⟩ := node_blank blank reached₁
      exact absurd ((isNode_of_data same).mp ⟨root₂, path₂, isRoot₂, short₂, reached₂⟩) notNode
    · exact ⟨rfl, (node_blank blank reached₁).1.trans (node_blank blank reached₂).1.symm⟩
  · obtain ⟨member, other⟩ := rest_mem member
    exact (isNode node).elim (fun node => sound.nodes node member) other
  · rcases isRoot with isRoot | rfl
    · rw [entry_of_data same isRoot] at found
      obtain ⟨used, data⟩ := sound.leaves isRoot found
      refine ⟨fun member => used (rest_mem member).1, fun node => ?_⟩
      rcases isNode node with node | equal
      · exact data node
      · exact used (equal ▸ taken)
    · rw [entry_blank blank] at found
      cases found

theorem wp_map_pages {flag n frame : Nat} (sound : Sound roots m) (isRoot : roots root)
    (flags : flag < 1024) (aligned : va % PGSIZE = 0) (some : 0 < n) (below : va + n * PGSIZE ≤ VA_MAX)
    (unmapped : ∀ k < n, m.entry root (va + k * PGSIZE) = none) (given : Given roots m frame n) :
    wp (map_pages root va (frame * PGSIZE) (n * PGSIZE) flag) (fun done m' =>
      ∃ j ≤ n, (done = true ↔ j = n) ∧ Maps roots root flag va frame j m m') (fun _ _ => False) m := by
  have size : ¬n * PGSIZE = 0 := by
    simp only [PGSIZE]
    omega
  have count : n * PGSIZE / PGSIZE = n := Nat.mul_div_cancel n (by decide)
  unfold map_pages
  rw [if_neg (by simpa using aligned), if_neg (by simp), if_neg size, count]
  exact wp_mapFrom flags isRoot n sound aligned below unmapped given

theorem wp_uvm_unmap {n : Nat} (sound : Sound roots m) (isRoot : roots root)
    (aligned : va % PGSIZE = 0) (below : va + n * PGSIZE ≤ VA_MAX)
    (owned : do_free = true → Owned roots m root va n) :
    wp (uvm_unmap root va n do_free) (fun _ m' => Unmaps roots root do_free va n m m')
      (fun _ _ => ¬Regular m root va n) m := by
  unfold uvm_unmap
  rw [if_neg (by simpa using aligned)]
  exact wp_unmapFrom isRoot n sound aligned below owned

theorem page_le {n k limit : Nat} (below : va + n * PGSIZE ≤ limit) (low : k < n) :
    va + k * PGSIZE ≤ limit :=
  (Nat.add_le_add_left (Nat.mul_le_mul_right PGSIZE low.le) va).trans below

theorem exists_samePage_iff {n va' : Nat} (aligned : va % PGSIZE = 0) (below : va + n * PGSIZE ≤ VA_MAX)
    (below' : va' < VA_MAX) : (∃ k < n, SamePage (va + k * PGSIZE) va') ↔
      va / PGSIZE ≤ va' / PGSIZE ∧ va' / PGSIZE < va / PGSIZE + n := by
  constructor
  · rintro ⟨k, low, same⟩
    have page := (samePage_iff (page_le below low) below'.le).mp same
    clear below
    simp only [PGSIZE] at aligned page ⊢
    omega
  · intro inside
    have low : va' / PGSIZE - va / PGSIZE < n := by omega
    refine ⟨_, low, (samePage_iff (page_le below low) below'.le).mpr ?_⟩
    clear below
    simp only [PGSIZE] at aligned inside ⊢
    omega

theorem translate_congr (same : m'.entry root va = m.entry root va) :
    m'.translate root va = m.translate root va := by
  rw [Memory.translate, Memory.translate, same]

theorem entry_eq_none_of_translate (unmapped : m.translate root va = none) : m.entry root va = none := by
  unfold Memory.translate at unmapped
  exact Option.map_eq_none_iff.mp unmapped

/-- The operations act on the translations as on finite maps, and keep nodes, mapped and free frames
apart. -/
theorem tables_refine_maps (sound : Sound roots m) (isRoot : roots root) :
    (∀ va frame n flag, va % PGSIZE = 0 → 0 < n → va + n * PGSIZE ≤ VA_MAX → flag < 1024 →
      Given roots m frame n → (∀ k < n, m.translate root (va + k * PGSIZE) = none) →
      ∃ done m', map_pages root va (frame * PGSIZE) (n * PGSIZE) flag m = .ok done m' ∧
        Sound roots m' ∧ (done = true → ∀ root' va', roots root' → va' < VA_MAX →
          m'.translate root' va' =
            if root' = root ∧ va / PGSIZE ≤ va' / PGSIZE ∧ va' / PGSIZE < va / PGSIZE + n then
              some (frame + (va' / PGSIZE - va / PGSIZE), flag ||| PTE_V)
            else m.translate root' va')) ∧
    (∀ va n do_free, va % PGSIZE = 0 → va + n * PGSIZE ≤ VA_MAX →
      (do_free = true → Owned roots m root va n) →
      (Regular m root va n → ∃ m', uvm_unmap root va n do_free m = .ok () m') ∧
      ∀ m', uvm_unmap root va n do_free m = .ok () m' → Sound roots m' ∧
        ∀ root' va', roots root' → va' < VA_MAX → m'.translate root' va' =
          if root' = root ∧ va / PGSIZE ≤ va' / PGSIZE ∧ va' / PGSIZE < va / PGSIZE + n then none
          else m.translate root' va') ∧
    (∀ va, va ≤ VA_MAX → ∃ found m', walk root va true m = .ok found m' ∧ Sound roots m' ∧
      ∀ root' va', roots root' → m'.translate root' va' = m.translate root' va') ∧
    ∀ fresh m', uvm_create m = .ok (some fresh) m' →
      Sound (fun root' => roots root' ∨ root' = fresh) m' ∧ (∀ va, m'.translate fresh va = none) ∧
        ∀ root' va', roots root' → m'.translate root' va' = m.translate root' va' := by
  refine ⟨fun va frame n flag aligned some below flags given unmapped => ?_,
    fun va n do_free aligned below owned => ⟨fun regular => ?_, fun m' ran => ?_⟩, fun va below => ?_, fun fresh m' ran => ?_⟩
  · obtain ⟨done, m', ran, j, -, all, maps⟩ := Program.returns_of_wp (wp_map_pages sound isRoot flags
      aligned some below (fun k low => entry_eq_none_of_translate (unmapped k low)) given)
    refine ⟨done, m', ran, maps.sound, fun yes root' va' isRoot' below' => ?_⟩
    obtain rfl := all.mp yes
    have pages := exists_samePage_iff aligned below below'
    split
    next inside =>
      obtain ⟨rfl, inside⟩ := inside
      obtain ⟨k, low, same⟩ := pages.mpr inside
      have page : va' / PGSIZE - va / PGSIZE = k := by
        have equal := (samePage_iff (page_le below low) below'.le).mp same
        clear below
        simp only [PGSIZE] at aligned equal ⊢
        omega
      have small : frame + k < 2 ^ 52 := by
        have := given.small
        omega
      rw [Memory.translate, maps.mapped k low same, page, Option.map_some, frame_pack small flags,
        flags_pack small flags]
    next outside =>
      exact translate_congr (maps.others isRoot' fun both => outside ⟨both.1, pages.mp both.2⟩)
  · obtain ⟨_, m', ran, -⟩ := Program.returns_of_wp (wp_mono
      (wp_uvm_unmap sound isRoot aligned below owned) (fun _ _ => id)
      fun _ _ irregular => irregular regular)
    exact ⟨m', ran⟩
  · have unmaps := Program.post_of_wp (wp_uvm_unmap sound isRoot aligned below owned) ran
    refine ⟨unmaps.sound, fun root' va' isRoot' below' => ?_⟩
    have pages := exists_samePage_iff aligned below below'
    split
    next inside =>
      obtain ⟨rfl, inside⟩ := inside
      obtain ⟨k, low, same⟩ := pages.mpr inside
      rw [Memory.translate, unmaps.gone k low same]
      rfl
    next outside =>
      exact translate_congr (unmaps.others isRoot' fun both => outside ⟨both.1, pages.mp both.2⟩)
  · obtain ⟨found, m', ran, ext, -⟩ := Program.returns_of_wp (wp_walk sound isRoot below)
    exact ⟨found, m', ran, ext.sound, fun _ _ isRoot' => translate_congr (ext.entry isRoot')⟩
  · have created : wp uvm_create (fun root' m' => ∀ fresh, root' = some fresh →
        ∃ rest, m.freelist = fresh :: rest ∧ m' = ⟨update m.ram fresh fun _ => 0, rest⟩)
        (fun _ _ => True) m := by
      unfold uvm_create kalloc
      simp only [wp_bind, wp_get]
      cases free : m.freelist with
      | nil => simp
      | cons first rest =>
        simp only [memset, wp_bind, wp_modify, wp_pure, update_idem]
        rintro fresh equal
        obtain rfl := Option.some.inj equal
        exact ⟨rest, rfl, rfl⟩
    obtain ⟨rest, free, after⟩ := Program.post_of_wp created ran fresh rfl
    obtain ⟨sound', kept, none⟩ := sound.create free after
    refine ⟨sound', fun va => ?_, fun _ _ isRoot' => translate_congr (kept isRoot')⟩
    rw [Memory.translate, none va]
    rfl

def sixFrames : Memory := ⟨fun _ _ => 0, [1, 2, 3, 4, 5, 6]⟩

/-- Memory with one empty table, in frame 1. -/
def emptyTable : Memory := ⟨update sixFrames.ram 1 fun _ => 0, [2, 3, 4, 5, 6]⟩

theorem sound_emptyTable : Sound (fun root => False ∨ root = 1) emptyTable :=
  ((sound_empty (m := sixFrames) (by decide) (by decide)).create rfl rfl).1

theorem tables_refine_maps_emptyTable :
    ∃ m', map_pages 1 0 (100 * PGSIZE) (2 * PGSIZE) (PTE_R ||| PTE_U) emptyTable = .ok true m' ∧
      m'.translate 1 0 = some (100, 19) ∧ m'.translate 1 4096 = some (101, 19) ∧
      m'.translate 1 8192 = none := by
  have given : Given (fun root => False ∨ root = 1) emptyTable 100 2 := by
    refine ⟨by decide, by decide, fun k low node => ?_⟩
    obtain ⟨root, path, isRoot, -, reached⟩ := node
    obtain rfl : root = 1 := by simpa using isRoot
    have equal := (node_blank (fun index => by simp [emptyTable]) reached).2
    omega
  have unmapped : ∀ k < 2, emptyTable.translate 1 (0 + k * PGSIZE) = none := by
    intro k _
    rw [Memory.translate, entry_blank fun index => by simp [emptyTable]]
    rfl
  obtain ⟨done, m', ran, -, mapped⟩ := (tables_refine_maps sound_emptyTable (.inr rfl)).1 0 100 2
    (PTE_R ||| PTE_U) (by decide) (by decide) (by decide) (by decide) given unmapped
  have yes : done = true := by
    have result : (match map_pages 1 0 (100 * PGSIZE) (2 * PGSIZE) (PTE_R ||| PTE_U) emptyTable with
      | .ok done _ => done
      | .error _ _ => false) = true := by decide +kernel
    rwa [ran] at result
  have at' := fun va below => mapped yes 1 va (.inr rfl) below
  refine ⟨m', yes ▸ ran, ?_, ?_, ?_⟩
  · rw [at' 0 (by decide)]
    decide
  · rw [at' 4096 (by decide)]
    decide
  · rw [at' 8192 (by decide), if_neg (by decide), Memory.translate,
      entry_blank fun index => by simp [emptyTable]]
    rfl

end OsCpp.Sv39
