import OsCpp.Sv39.Memory

/-!
# Page tables are separate trees

The nodes of all page tables, the frames they map and the free frames are apart.  `walk` adds nodes from
the free list and changes no translation; storing an entry of the lowest level changes one.
-/

namespace OsCpp.Sv39

open Function (update update_of_ne)

open Frames (PX PGSIZE SamePage)

/-- The frame that a valid entry leads to. -/
def child (pte : Nat) : Option Nat :=
  if pte &&& PTE_V ≠ 0 then some (PTE2PA pte / PGSIZE) else none

namespace Memory

/-- The node that indices lead to. -/
def node (m : Memory) (root : Nat) (path : List (Fin 512)) : Option Nat :=
  Radix.node child m.ram root path

/-- The node of the lowest level for an address. -/
def low (m : Memory) (root va : Nat) : Option Nat := m.node root [PX 2 va, PX 1 va]

/-- The valid entry for an address. -/
def entry (m : Memory) (root va : Nat) : Option Nat :=
  (m.low root va).bind fun low =>
    if m.ram low (PX 0 va) &&& PTE_V ≠ 0 then some (m.ram low (PX 0 va)) else none

/-- The frame and the flags at which an address is mapped. -/
def translate (m : Memory) (root va : Nat) : Option (Nat × Nat) :=
  (m.entry root va).map fun pte => (PTE2PA pte / PGSIZE, PTE_FLAGS pte)

/-- A frame is cleared and an entry leads to it. -/
def linked (m : Memory) (above : Nat) (index : Fin 512) (fresh : Nat) (rest : List Nat) : Memory where
  ram := Radix.store (update m.ram fresh fun _ => 0) above index (PA2PTE (fresh * PGSIZE) ||| PTE_V)
  freelist := rest

end Memory

theorem and_PTE_V (pte : Nat) : pte &&& PTE_V = pte % 2 := Nat.and_one_is_mod pte

theorem pack_eq {frame flag : Nat} (small : frame < 2 ^ 52) (flags : flag < 1024) :
    PA2PTE (frame * PGSIZE) ||| flag ||| PTE_V = 1024 * frame + (flag ||| 1) := by
  have address : PA2PTE (frame * PGSIZE) = 2 ^ 10 * frame := by
    unfold PA2PTE PGSIZE
    omega
  have low : flag ||| 1 < 2 ^ 10 := Nat.or_lt_two_pow flags (by decide)
  rw [address, Nat.or_assoc]
  exact (Nat.two_pow_add_eq_or_of_lt low frame).symm

theorem or_one_lt {flag : Nat} (flags : flag < 1024) : flag ||| 1 < 1024 :=
  Nat.or_lt_two_pow (n := 10) flags (by decide)

theorem PTE_FLAGS_eq (pte : Nat) : PTE_FLAGS pte = pte % 1024 :=
  Nat.and_two_pow_sub_one_eq_mod pte 10

theorem frame_pack {frame flag : Nat} (small : frame < 2 ^ 52) (flags : flag < 1024) :
    PTE2PA (PA2PTE (frame * PGSIZE) ||| flag ||| PTE_V) / PGSIZE = frame := by
  have low := or_one_lt flags
  rw [pack_eq small flags, PTE2PA, PGSIZE]
  omega

theorem flags_pack {frame flag : Nat} (small : frame < 2 ^ 52) (flags : flag < 1024) :
    PTE_FLAGS (PA2PTE (frame * PGSIZE) ||| flag ||| PTE_V) = flag ||| PTE_V := by
  have low := or_one_lt flags
  rw [pack_eq small flags, PTE_FLAGS_eq, PTE_V]
  omega

theorem valid_pack (pa flag : Nat) : (PA2PTE pa ||| flag ||| PTE_V) &&& PTE_V ≠ 0 := by
  rw [and_PTE_V]
  have odd := (Nat.or_mod_two_eq_one (a := PA2PTE pa ||| flag) (b := PTE_V)).mpr (.inr rfl)
  omega

theorem child_pack {frame flag : Nat} (small : frame < 2 ^ 52) (flags : flag < 1024) :
    child (PA2PTE (frame * PGSIZE) ||| flag ||| PTE_V) = some frame := by
  rw [child, if_pos (valid_pack _ flag), frame_pack small flags]

theorem child_link {frame : Nat} (small : frame < 2 ^ 52) :
    child (PA2PTE (frame * PGSIZE) ||| PTE_V) = some frame := by
  have pack := child_pack small (show 0 < 1024 by decide)
  rwa [Nat.or_zero] at pack

@[simp] theorem child_zero : child 0 = none := rfl

/-- A frame with page-table entries of one of the tables. -/
def IsNode (roots : Nat → Prop) (m : Memory) (frame : Nat) : Prop :=
  ∃ root path, roots root ∧ path.length ≤ 2 ∧ m.node root path = some frame

/-- Nodes, mapped frames and free frames are apart, and every node is reached in one way. -/
structure Sound (roots : Nat → Prop) (m : Memory) : Prop where
  separate : Radix.Separate child m.ram roots 2
  nodes : ∀ {frame}, IsNode roots m frame → frame ∉ m.freelist
  leaves : ∀ {root va pte}, roots root → m.entry root va = some pte →
    PTE2PA pte / PGSIZE ∉ m.freelist ∧ ¬IsNode roots m (PTE2PA pte / PGSIZE)
  nodup : m.freelist.Nodup
  small : ∀ frame ∈ m.freelist, frame < 2 ^ 52

/-- Frames may become nodes; what is neither free nor a node stays as it is. -/
structure Grows (roots : Nat → Prop) (m m' : Memory) : Prop where
  free : ∃ taken, m.freelist = taken ++ m'.freelist
  data : ∀ {frame}, frame ∉ m.freelist → ¬IsNode roots m frame → m'.ram frame = m.ram frame
  nodes : ∀ {frame}, IsNode roots m' frame → IsNode roots m frame ∨ frame ∈ m.freelist
  kept : ∀ {frame}, IsNode roots m frame → IsNode roots m' frame
  linked : ∀ {frame}, frame ∈ m.freelist → frame ∈ m'.freelist ∨ IsNode roots m' frame

variable {roots : Nat → Prop} {m m' m'' : Memory} {root : Nat}

namespace Grows

theorem refl (m : Memory) : Grows roots m m := ⟨⟨[], rfl⟩, fun _ _ => rfl, .inl, id, .inl⟩

theorem mem (grows : Grows roots m m') {frame : Nat} (free : frame ∈ m'.freelist) :
    frame ∈ m.freelist := by
  obtain ⟨taken, split⟩ := grows.free
  rw [split]
  exact List.mem_append_right taken free

theorem trans (left : Grows roots m m') (right : Grows roots m' m'') : Grows roots m m'' := by
  refine ⟨?_, fun {frame} used data => ?_, fun {frame} node => ?_, fun node => right.kept (left.kept node),
    fun free => (left.linked free).elim right.linked fun node => .inr (right.kept node)⟩
  · obtain ⟨taken, split⟩ := left.free
    obtain ⟨taken', split'⟩ := right.free
    exact ⟨taken ++ taken', by rw [split, split', List.append_assoc]⟩
  · have data' : ¬IsNode roots m' frame := fun node => (left.nodes node).elim data used
    rw [right.data (fun free => used (left.mem free)) data', left.data used data]
  · rcases right.nodes node with node | free
    · exact left.nodes node
    · exact .inr (left.mem free)

end Grows

theorem isNode_low {va low : Nat} (isRoot : roots root) (found : m.low root va = some low) :
    IsNode roots m low := ⟨root, _, isRoot, by simp, found⟩

theorem node_of_data (same : ∀ {frame}, IsNode roots m frame → m'.ram frame = m.ram frame)
    (isRoot : roots root) {path : List (Fin 512)} (short : path.length ≤ 2) :
    m'.node root path = m.node root path := by
  refine Radix.node_congr fun upper frame shorter reached => same ⟨root, upper, isRoot, ?_, reached⟩
  omega

theorem isNode_of_data (same : ∀ {frame}, IsNode roots m frame → m'.ram frame = m.ram frame)
    {frame : Nat} : IsNode roots m' frame ↔ IsNode roots m frame := by
  constructor <;> rintro ⟨root, path, isRoot, short, reached⟩ <;>
    refine ⟨root, path, isRoot, short, ?_⟩ <;>
    rw [node_of_data same isRoot short] at * <;> exact reached

theorem entry_of_data (same : ∀ {frame}, IsNode roots m frame → m'.ram frame = m.ram frame)
    (isRoot : roots root) (va : Nat) : m'.entry root va = m.entry root va := by
  have lows : m'.low root va = m.low root va := node_of_data same isRoot (by simp)
  unfold Memory.entry
  rw [lows]
  cases found : m.low root va with
  | none => rfl
  | some low => rw [Option.bind_some, Option.bind_some, same (isNode_low isRoot found)]

theorem separate_of_data (separate : Radix.Separate child m.ram roots 2)
    (same : ∀ {frame}, IsNode roots m frame → m'.ram frame = m.ram frame) :
    Radix.Separate child m'.ram roots 2 := by
  intro root root' path path' frame isRoot isRoot' short short' reached reached'
  have left : m.node root path = some frame := (node_of_data same isRoot short).symm.trans reached
  have right : m.node root' path' = some frame := (node_of_data same isRoot' short').symm.trans reached'
  exact separate isRoot isRoot' short short' left right

namespace Sound

/-- Frames that are no nodes change, and the free list shrinks. -/
theorem of_data (sound : Sound roots m)
    (same : ∀ {frame}, IsNode roots m frame → m'.ram frame = m.ram frame)
    (free : ∃ taken, m.freelist = taken ++ m'.freelist) : Sound roots m' := by
  obtain ⟨taken, split⟩ := free
  have mem : ∀ {frame}, frame ∈ m'.freelist → frame ∈ m.freelist := by
    intro frame member
    rw [split]
    exact List.mem_append_right taken member
  refine ⟨separate_of_data sound.separate same, fun node member => ?_, fun isRoot found => ?_, ?_,
    fun frame member => sound.small frame (mem member)⟩
  · exact sound.nodes ((isNode_of_data same).mp node) (mem member)
  · rw [entry_of_data same isRoot] at found
    obtain ⟨used, data⟩ := sound.leaves isRoot found
    exact ⟨fun member => used (mem member), fun node => data ((isNode_of_data same).mp node)⟩
  · have nodup := sound.nodup
    rw [split] at nodup
    exact nodup.of_append_right

theorem link (sound : Sound roots m) (isRoot : roots root) {path : List (Fin 512)} {above fresh : Nat}
    {rest : List Nat} (reached : m.node root path = some above) (high : path.length < 2)
    {index : Fin 512} (vacant : child (m.ram above index) = none) (free : m.freelist = fresh :: rest)
    (after : m' = m.linked above index fresh rest) :
    Sound roots m' ∧ Grows roots m m' ∧ m'.node root (path ++ [index]) = some fresh ∧
      ∀ {root' va}, roots root' → m'.entry root' va = m.entry root' va := by
  have taken : fresh ∈ m.freelist := by
    rw [free]
    exact .head _
  have notNode : ¬IsNode roots m fresh := fun node => sound.nodes node taken
  have apart : fresh ≠ above := by
    rintro rfl
    exact notNode ⟨root, path, isRoot, by omega, reached⟩
  -- clearing the fresh frame changes no node
  let cleared : Memory := { m with ram := update m.ram fresh fun _ => 0 }
  have same : ∀ {frame}, IsNode roots m frame → cleared.ram frame = m.ram frame := by
    intro frame node
    refine update_of_ne ?_ _ _
    rintro rfl
    exact notNode node
  have separate : Radix.Separate child cleared.ram roots 2 := separate_of_data sound.separate same
  have blank : Radix.Blank child cleared.ram fresh := by
    intro index
    simp [cleared]
  have reached' : Radix.node child cleared.ram root path = some above :=
    (node_of_data same isRoot (by omega)).trans reached
  have vacant' : child (cleared.ram above index) = none := by
    rw [same ⟨root, path, isRoot, by omega, reached⟩]
    exact vacant
  have leads := child_link (sound.small fresh taken)
  have nodes : ∀ {root' path'}, roots root' → path'.length ≤ 2 → m'.node root' path' =
      if root' = root ∧ path' = path ++ [index] then some fresh else m.node root' path' := by
    intro root' path' isRoot' short
    rw [after]
    refine (Radix.node_link separate isRoot reached' high vacant' leads blank apart isRoot' short).trans ?_
    congr 1
    exact node_of_data same isRoot' short
  have isNode : ∀ {frame}, IsNode roots m' frame → IsNode roots m frame ∨ frame = fresh := by
    rintro frame ⟨root', path', isRoot', short, found⟩
    rw [nodes isRoot' short] at found
    split at found
    · exact .inr (Option.some.inj found).symm
    · exact .inl ⟨root', path', isRoot', short, found⟩
  have kept : ∀ {frame}, IsNode roots m frame → IsNode roots m' frame := by
    rintro frame ⟨root', path', isRoot', short, found⟩
    refine ⟨root', path', isRoot', short, ?_⟩
    rw [nodes isRoot' short, if_neg]
    · exact found
    · rintro ⟨rfl, rfl⟩
      have none : m.node root' (path ++ [index]) = none := by
        rw [Memory.node, Radix.node_append]
        rw [Memory.node] at reached
        rw [reached, Option.bind_some, vacant]
      rw [none] at found
      cases found
  have words : ∀ {frame}, frame ≠ fresh → frame ≠ above → m'.ram frame = m.ram frame := by
    intro frame other other'
    rw [after]
    exact (Radix.store_of_ne other' _ _).trans (update_of_ne other _ _)
  have entries : ∀ {root' va}, roots root' → m'.entry root' va = m.entry root' va := by
    intro root' va isRoot'
    have lows : m'.low root' va = if root' = root ∧ [PX 2 va, PX 1 va] = path ++ [index] then some fresh
        else m.low root' va := nodes isRoot' (by simp)
    unfold Memory.entry
    rw [lows]
    split
    next here =>
      obtain ⟨rfl, here⟩ := here
      have none : m.low root' va = none := by
        rw [Memory.low, here, Memory.node, Radix.node_append]
        rw [Memory.node] at reached
        rw [reached, Option.bind_some, vacant]
      have zero : m'.ram fresh (PX 0 va) = 0 := by
        rw [after]
        change Radix.store _ _ _ _ fresh _ = 0
        rw [Radix.store_of_ne apart, Function.update_self]
      rw [none, Option.bind_some, zero]
      rfl
    next =>
      cases found : m.low root' va with
      | none => rfl
      | some low =>
        have node := isNode_low isRoot' found
        have other : low ≠ fresh := by
          rintro rfl
          exact notNode node
        have other' : low ≠ above := by
          rintro rfl
          obtain ⟨-, rfl⟩ := sound.separate isRoot isRoot' (by omega) (by simp) reached found
          simp at high
        rw [Option.bind_some, Option.bind_some, words other other']
  have nodup := sound.nodup
  rw [free, List.nodup_cons] at nodup
  have rest_mem : ∀ {frame}, frame ∈ m'.freelist → frame ∈ m.freelist ∧ frame ≠ fresh := by
    intro frame member
    rw [after] at member
    refine ⟨by rw [free]; exact .tail _ member, ?_⟩
    rintro rfl
    exact nodup.1 member
  refine ⟨⟨?_, fun node member => ?_, fun isRoot' found => ?_, ?_, fun frame member => ?_⟩,
    ⟨⟨[fresh], by rw [after, free]; rfl⟩, fun used data => ?_, fun node => ?_, kept,
      fun {frame} member => ?_⟩, ?_, entries⟩
  · rw [after]
    refine separate.link isRoot reached' high vacant' leads blank apart fun root' path' isRoot' short => ?_
    intro found
    exact notNode ⟨root', path', isRoot', short, (node_of_data same isRoot' short).symm.trans found⟩
  · obtain ⟨member, other⟩ := rest_mem member
    exact (isNode node).elim (fun node => sound.nodes node member) other
  · rw [entries isRoot'] at found
    obtain ⟨used, data⟩ := sound.leaves isRoot' found
    refine ⟨fun member => used (rest_mem member).1, fun node => ?_⟩
    rcases isNode node with node | equal
    · exact data node
    · exact used (equal ▸ taken)
  · rw [after]
    exact nodup.2
  · exact sound.small frame (rest_mem member).1
  · refine words (fun equal => used (equal ▸ taken)) fun equal => data ?_
    rw [equal]
    exact ⟨root, path, isRoot, by omega, reached⟩
  · rcases isNode node with node | rfl
    · exact .inl node
    · exact .inr taken
  · rw [free, List.mem_cons] at member
    rcases member with rfl | member
    · refine .inr ⟨root, path ++ [index], isRoot, by simp; omega, ?_⟩
      rw [nodes isRoot (by simp; omega), if_pos ⟨rfl, rfl⟩]
    · rw [after]
      exact .inl member
  · rw [nodes isRoot (by simp; omega), if_pos ⟨rfl, rfl⟩]

theorem leaf (sound : Sound roots m) (isRoot : roots root) {va low pte : Nat}
    (found : m.low root va = some low)
    (after : m' = { m with ram := Radix.store m.ram low (PX 0 va) pte })
    (apart : pte &&& PTE_V ≠ 0 →
      PTE2PA pte / PGSIZE ∉ m.freelist ∧ ¬IsNode roots m (PTE2PA pte / PGSIZE)) :
    Sound roots m' ∧ Grows roots m m' ∧ (∀ {root' va'}, roots root' → m'.entry root' va' =
      if root' = root ∧ SamePage va va' then (if pte &&& PTE_V ≠ 0 then some pte else none)
      else m.entry root' va') ∧ ∀ {root' va'}, roots root' → m'.low root' va' = m.low root' va' := by
  have words : ∀ {frame}, frame ≠ low → m'.ram frame = m.ram frame := by
    intro frame other
    rw [after]
    exact Radix.store_of_ne other _ _
  have nodes : ∀ {root' path}, roots root' → path.length ≤ 2 →
      m'.node root' path = m.node root' path := by
    intro root' path isRoot' short
    refine Radix.node_congr fun upper frame shorter reached => words ?_
    rintro rfl
    obtain ⟨-, rfl⟩ := sound.separate isRoot' isRoot (by omega) (by simp) reached found
    simp at shorter
    omega
  have isNode : ∀ {frame}, IsNode roots m' frame ↔ IsNode roots m frame := by
    intro frame
    constructor <;> rintro ⟨root', path, isRoot', short, reached⟩ <;>
      refine ⟨root', path, isRoot', short, ?_⟩
    · rw [← nodes isRoot' short, reached]
    · rw [nodes isRoot' short, reached]
  have lows : ∀ {root' va'}, roots root' → m'.low root' va' = m.low root' va' := fun isRoot' =>
    nodes isRoot' (by simp)
  have entries : ∀ {root' va'}, roots root' → m'.entry root' va' =
      if root' = root ∧ SamePage va va' then (if pte &&& PTE_V ≠ 0 then some pte else none)
      else m.entry root' va' := by
    intro root' va' isRoot'
    unfold Memory.entry
    rw [lows isRoot']
    by_cases here : root' = root ∧ SamePage va va'
    · obtain ⟨rfl, top, middle, bottom⟩ := here
      have found' : m.low root' va' = some low := by
        rw [Memory.low, ← top, ← middle]
        exact found
      have stored : m'.ram low (PX 0 va') = pte := by
        rw [after, ← bottom]
        exact Radix.store_self ..
      rw [if_pos ⟨rfl, top, middle, bottom⟩, found', Option.bind_some, stored]
    · rw [if_neg here]
      cases found' : m.low root' va' with
      | none => rfl
      | some low' =>
        have same : m'.ram low' (PX 0 va') = m.ram low' (PX 0 va') := by
          by_cases equal : low' = low
          · subst equal
            obtain ⟨rfl, path⟩ := sound.separate isRoot' isRoot (by simp) (by simp) found' found
            rw [after]
            refine Radix.store_index_of_ne _ (fun bottom => here ⟨rfl, ?_⟩) _
            simp only [List.cons.injEq, and_true] at path
            exact ⟨path.1.symm, path.2.symm, bottom.symm⟩
          · rw [words equal]
        rw [Option.bind_some, Option.bind_some, same]
  have freelist : m'.freelist = m.freelist := by rw [after]
  refine ⟨⟨?_, fun node => ?_, fun isRoot' stored => ?_, by rw [freelist]; exact sound.nodup,
    by rw [freelist]; exact sound.small⟩, ⟨⟨[], freelist.symm⟩, fun {frame} _ data => words ?_,
    fun node => .inl (isNode.mp node), isNode.mpr, fun free => .inl (by rwa [freelist])⟩, entries, lows⟩
  · intro root₁ root₂ path₁ path₂ frame isRoot₁ isRoot₂ short₁ short₂ reached₁ reached₂
    have left : m.node root₁ path₁ = some frame := (nodes isRoot₁ short₁).symm.trans reached₁
    have right : m.node root₂ path₂ = some frame := (nodes isRoot₂ short₂).symm.trans reached₂
    exact sound.separate isRoot₁ isRoot₂ short₁ short₂ left right
  · rw [freelist]
    exact sound.nodes (isNode.mp node)
  · rw [entries isRoot'] at stored
    rw [freelist, isNode]
    split at stored
    · obtain ⟨valid, equal⟩ := Option.ite_none_right_eq_some.mp stored
      cases equal
      exact apart valid
    · exact sound.leaves isRoot' stored
  · rintro rfl
    exact data (isNode_low isRoot found)

theorem free (sound : Sound roots m) {frame : Nat} {words : Fin 512 → Nat}
    (after : m' = { ram := update m.ram frame words, freelist := frame :: m.freelist })
    (data : ¬IsNode roots m frame) (used : frame ∉ m.freelist) (small : frame < 2 ^ 52)
    (unmapped : ∀ {root va pte}, roots root → m.entry root va = some pte →
      PTE2PA pte / PGSIZE ≠ frame) :
    Sound roots m' ∧ (∀ {root va}, roots root → m'.entry root va = m.entry root va) ∧
      (∀ {root va}, roots root → m'.low root va = m.low root va) ∧
      ∀ {frame}, IsNode roots m' frame ↔ IsNode roots m frame := by
  have same : ∀ {other}, IsNode roots m other → m'.ram other = m.ram other := by
    intro other node
    rw [after]
    refine update_of_ne ?_ _ _
    rintro rfl
    exact data node
  have freelist : m'.freelist = frame :: m.freelist := by rw [after]
  refine ⟨⟨separate_of_data sound.separate same, fun {other} node member => ?_,
    fun isRoot found => ?_, ?_, fun other member => ?_⟩, fun isRoot => entry_of_data same isRoot _,
    fun isRoot => node_of_data same isRoot (by simp), isNode_of_data same⟩
  · have node := (isNode_of_data same).mp node
    rw [freelist] at member
    rcases List.mem_cons.mp member with rfl | member
    · exact data node
    · exact sound.nodes node member
  · rw [entry_of_data same isRoot] at found
    obtain ⟨apart, leaf⟩ := sound.leaves isRoot found
    refine ⟨fun member => ?_, fun node => leaf ((isNode_of_data same).mp node)⟩
    rw [freelist] at member
    rcases List.mem_cons.mp member with equal | member
    · exact unmapped isRoot found equal
    · exact apart member
  · rw [freelist]
    exact List.nodup_cons.mpr ⟨used, sound.nodup⟩
  · rw [freelist] at member
    rcases List.mem_cons.mp member with rfl | member
    · exact small
    · exact sound.small other member

end Sound

end OsCpp.Sv39
