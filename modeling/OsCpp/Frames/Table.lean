import OsCpp.Lib.Tally

/-!
# Page tables as trees of frames

The three-level page tables of `kernel/vm.cpp`.  Every node lies in a page frame of its own and has
512 entries; those of the two upper levels are empty or point to a node.  A table owns the frames of
its nodes and those of the valid entries for user access: the trampoline and the trapframe, which are
mapped without it, belong to others.
-/

namespace OsCpp.Frames

/-- Number of a page frame. -/
abbrev Frame := Nat

def PGSIZE : Nat := 4096

def VA_MAX : Nat := 2 ^ 38

def TRAMPOLINE : Nat := VA_MAX - PGSIZE

def TRAPFRAME : Nat := TRAMPOLINE - PGSIZE

/-- Sizes never exceed physical memory, so the 32-bit mask of the source does not show. -/
def PG_ROUND_UP (addr : Nat) : Nat := (addr + PGSIZE - 1) / PGSIZE * PGSIZE

/-- Index of an address at a level of the table. -/
def PX (level va : Nat) : Fin 512 := ⟨va / 2 ^ (12 + 9 * level) % 512, Nat.mod_lt _ (by decide)⟩

/-- The flags of an entry besides `PTE_V`. -/
structure Flags where
  r : Bool := false
  w : Bool := false
  x : Bool := false
  u : Bool := false
  deriving DecidableEq

/-- An entry of the lowest level. -/
structure Pte where
  v : Bool := false
  flags : Flags := {}
  pa : Frame := 0
  deriving DecidableEq

/-- A page of entries. -/
structure Node (Entry : Type) where
  frame : Frame
  entries : Fin 512 → Entry

namespace Node

variable {Entry : Type}

/-- A page filled with one entry. -/
def fill (frame : Frame) (entry : Entry) : Node Entry := ⟨frame, fun _ => entry⟩

def set (node : Node Entry) (index : Fin 512) (entry : Entry) : Node Entry :=
  { node with entries := Function.update node.entries index entry }

/-- The frame of a node with those of its entries. -/
def total (weight : Entry → Multiset Frame) (node : Node Entry) : Multiset Frame :=
  {node.frame} + ∑ index, weight (node.entries index)

theorem total_set (weight : Entry → Multiset Frame) (node : Node Entry) (index : Fin 512)
    (entry : Entry) :
    (node.set index entry).total weight + weight (node.entries index) =
      node.total weight + weight entry := by
  simp only [total, set, add_assoc, Tally.sum_update weight node.entries index entry]

theorem total_fill (weight : Entry → Multiset Frame) (frame : Frame) {entry : Entry}
    (none : weight entry = 0) : (fill frame entry).total weight = {frame} := by
  simp [total, fill, none]

end Node

abbrev Low := Node Pte

abbrev Mid := Node (Option Low)

abbrev Table := Node (Option Mid)

/-- The frame an entry owns. -/
def Pte.frames (pte : Pte) : Multiset Frame := if pte.v ∧ pte.flags.u then {pte.pa} else 0

/-- The frames of the node an entry points to. -/
def below {Child : Type} (weight : Child → Multiset Frame) : Option Child → Multiset Frame
  | none => 0
  | some child => weight child

def Low.frames (low : Low) : Multiset Frame := Node.total Pte.frames low

def Mid.frames (mid : Mid) : Multiset Frame := Node.total (below Low.frames) mid

def Table.frames (t : Table) : Multiset Frame := Node.total (below Mid.frames) t

/-- A new page of zeros. -/
def Low.zero (frame : Frame) : Low := Node.fill frame {}

def Mid.zero (frame : Frame) : Mid := Node.fill frame none

def Table.zero (frame : Frame) : Table := Node.fill frame none

@[simp] theorem Pte.frames_invalid {pte : Pte} (invalid : pte.v = false) : pte.frames = 0 := by
  simp [Pte.frames, invalid]

theorem Pte.frames_zero : Pte.frames {} = 0 := rfl

@[simp] theorem Low.frames_zero (frame : Frame) : (Low.zero frame).frames = {frame} :=
  Node.total_fill Pte.frames frame rfl

@[simp] theorem Mid.frames_zero (frame : Frame) : (Mid.zero frame).frames = {frame} :=
  Node.total_fill (below Low.frames) frame rfl

@[simp] theorem Table.frames_zero (frame : Frame) : (Table.zero frame).frames = {frame} :=
  Node.total_fill (below Mid.frames) frame rfl

/-- The two addresses have the same entry. -/
def SamePage (va other : Nat) : Prop := PX 2 va = PX 2 other ∧ PX 1 va = PX 1 other ∧ PX 0 va = PX 0 other

instance (va other : Nat) : Decidable (SamePage va other) := by
  unfold SamePage
  infer_instance

namespace Table

variable (t : Table)

/-- The node of the lowest level for an address. -/
def lowNode (va : Nat) : Option Low := (t.entries (PX 2 va)).bind fun mid => mid.entries (PX 1 va)

/-- The entry for an address, if its nodes exist. -/
def lookup (va : Nat) : Option Pte := (t.lowNode va).map fun low => low.entries (PX 0 va)

/-- Store an entry; its nodes exist. -/
def store (va : Nat) (pte : Pte) : Table :=
  match t.entries (PX 2 va) with
  | none => t
  | some mid =>
    match mid.entries (PX 1 va) with
    | none => t
    | some low => t.set (PX 2 va) (some (mid.set (PX 1 va) (some (low.set (PX 0 va) pte))))

variable {t}

theorem lookup_eq_some {va : Nat} {pte : Pte} :
    t.lookup va = some pte ↔ ∃ mid low, t.entries (PX 2 va) = some mid ∧
      mid.entries (PX 1 va) = some low ∧ low.entries (PX 0 va) = pte := by
  simp only [lookup, lowNode, Option.map_eq_some_iff, Option.bind_eq_some_iff]
  constructor
  · rintro ⟨low, ⟨mid, upper, lower⟩, entry⟩
    exact ⟨mid, low, upper, lower, entry⟩
  · rintro ⟨mid, low, upper, lower, entry⟩
    exact ⟨low, ⟨mid, upper, lower⟩, entry⟩

theorem store_eq {va : Nat} {pte : Pte} {mid : Mid} {low : Low}
    (upper : t.entries (PX 2 va) = some mid) (lower : mid.entries (PX 1 va) = some low) :
    t.store va pte = t.set (PX 2 va) (some (mid.set (PX 1 va) (some (low.set (PX 0 va) pte)))) := by
  simp [store, upper, lower]

theorem frames_store {va : Nat} {old : Pte} (pte : Pte) (found : t.lookup va = some old) :
    (t.store va pte).frames + old.frames = t.frames + pte.frames := by
  obtain ⟨mid, low, upper, lower, rfl⟩ := lookup_eq_some.mp found
  have atLow : Low.frames (low.set (PX 0 va) pte) + (low.entries (PX 0 va)).frames =
      low.frames + pte.frames := Node.total_set Pte.frames low _ pte
  have atMid : Mid.frames (mid.set (PX 1 va) (some (low.set (PX 0 va) pte))) + low.frames =
      mid.frames + Low.frames (low.set (PX 0 va) pte) := by
    have exchanged := Node.total_set (below Low.frames) mid (PX 1 va) (some (low.set (PX 0 va) pte))
    rw [lower] at exchanged
    exact exchanged
  have atTop : (t.store va pte).frames + mid.frames =
      t.frames + Mid.frames (mid.set (PX 1 va) (some (low.set (PX 0 va) pte))) := by
    have exchanged := Node.total_set (below Mid.frames) t (PX 2 va)
      (some (mid.set (PX 1 va) (some (low.set (PX 0 va) pte))))
    rw [upper] at exchanged
    rw [store_eq upper lower]
    exact exchanged
  ext frame
  have atLow := congrArg (Multiset.count frame) atLow
  have atMid := congrArg (Multiset.count frame) atMid
  have atTop := congrArg (Multiset.count frame) atTop
  simp only [Multiset.count_add] at atLow atMid atTop ⊢
  omega

theorem lookup_store {va other : Nat} {old pte : Pte} (found : t.lookup va = some old) :
    (t.store va pte).lookup other = if SamePage va other then some pte else t.lookup other := by
  obtain ⟨mid, low, upper, lower, _⟩ := lookup_eq_some.mp found
  rw [store_eq upper lower]
  by_cases top : PX 2 va = PX 2 other
  · rw [top] at upper
    by_cases middle : PX 1 va = PX 1 other
    · rw [middle] at lower
      by_cases bottom : PX 0 va = PX 0 other
      · simp [lookup, lowNode, Node.set, SamePage, top, middle, bottom]
      · simp [lookup, lowNode, Node.set, SamePage, top, middle, bottom, upper, lower,
          Function.update_of_ne (Ne.symm bottom)]
    · simp [lookup, lowNode, Node.set, SamePage, top, middle, upper,
        Function.update_of_ne (Ne.symm middle)]
  · simp [lookup, lowNode, Node.set, SamePage, top, Function.update_of_ne (Ne.symm top)]

end Table

end OsCpp.Frames
