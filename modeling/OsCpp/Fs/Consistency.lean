import OsCpp.Fs.Mkfs

/-!
# Consistency of new images

What `mkfs` leaves on the disk, described by the owner of every block handed out: a slot of an inode
or an entry of its indirect block.
-/

namespace OsCpp.Mkfs

open Fs (indirectSlot)
open Function (update update_eq_self update_idem update_of_ne update_self)
open Program (wp_bind wp_get wp_modify post_of_wp)

/-- A place at which an inode can hold the number of a block. -/
inductive Place
  | direct (slot : Fin NDIRECT)
  | indirect
  | entry (index : Fin NINDIRECT)
  deriving DecidableEq

/-- The number at a place of an inode, or zero. -/
def addr (blocks : Nat → Block) (node : Dinode) : Place → Nat
  | .direct slot => (node.addrs slot.castSucc).toNat
  | .indirect => (node.addrs indirectSlot).toNat
  | .entry index =>
    if node.addrs indirectSlot = 0 then 0
    else (blocks (node.addrs indirectSlot).toNat).field 4 (4 * index)

/-- The place of a block of the file. -/
def place (fbn : Nat) : Option Place :=
  if direct : fbn < NDIRECT then some (.direct ⟨fbn, direct⟩)
  else if inside : fbn - NDIRECT < NINDIRECT then some (.entry ⟨fbn - NDIRECT, inside⟩)
  else none

/-- The inode with a number. -/
def Image.node (image : Image) (inum : Nat) : Dinode :=
  Format.dinode (image.blocks (IBLOCK inum superblock)) (inum % IPB)

/-- How many blocks a file of a size takes. -/
def blocksOf (size : Nat) : Nat := (size + BSIZE - 1) / BSIZE

/-- The inodes that have been handed out. -/
def Image.Allocated (image : Image) (inum : Nat) : Prop := 1 ≤ inum ∧ inum < image.freeinode

/-- A consistent file system. -/
structure Consistent (image : Image) : Prop where
  blocks_inside : ∀ b, nmeta ≤ b → b < image.freeblock → b < superblock.size
  inodes_inside : ∀ inum, image.Allocated inum → inum < superblock.ninodes
  filled : ∀ inum, image.Allocated inum → ∀ fbn < blocksOf (image.node inum).size.toNat,
    ∃ at', place fbn = some at' ∧ addr image.blocks (image.node inum) at' ≠ 0
  beyond : ∀ inum, image.Allocated inum → ∀ at', addr image.blocks (image.node inum) at' ≠ 0 →
    nmeta ≤ addr image.blocks (image.node inum) at'
  distinct : ∀ inum other, image.Allocated inum → image.Allocated other → ∀ at' at'',
    addr image.blocks (image.node inum) at' ≠ 0 →
    addr image.blocks (image.node inum) at' = addr image.blocks (image.node other) at'' →
    inum = other ∧ at' = at''
  bitmap : ∀ b < BPB,
    Format.bit (image.blocks superblock.bmapstart) b = decide (b < image.freeblock)

/-! ## Who owns the blocks -/

/-- How much of an inode is in use: its blocks, and whether it has an indirect block. -/
structure Shape where
  blocks : Nat
  indirect : Bool

/-- The shape of a file with a number of blocks. -/
def Shape.of (blocks : Nat) : Shape := ⟨blocks, NDIRECT < blocks⟩

/-- The places that hold a number. -/
def Shape.Used (shape : Shape) : Place → Prop
  | .direct slot => slot < shape.blocks
  | .indirect => shape.indirect = true
  | .entry index => NDIRECT + index < shape.blocks

/-- Inodes, their shapes and the owners of the blocks fit the blocks of an image. -/
structure Laid (blocks : Nat → Block) (freeblock : Nat) (nodes : Nat → Dinode)
    (shape : Nat → Shape) (owner : Nat → Nat × Place) : Prop where
  start : nmeta ≤ freeblock
  clear : ∀ b, freeblock ≤ b → blocks b = Bytes.zero BSIZE
  used : ∀ inum at', addr blocks (nodes inum) at' ≠ 0 ↔ (shape inum).Used at'
  owned : ∀ inum at', addr blocks (nodes inum) at' ≠ 0 →
    nmeta ≤ addr blocks (nodes inum) at' ∧ addr blocks (nodes inum) at' < freeblock ∧
      owner (addr blocks (nodes inum) at') = (inum, at')

variable {image : Image} {inum : Nat} {len : Nat → Nat} {node : Dinode} {nodes : Nat → Dinode}
  {owner : Nat → Nat × Place} {shape : Nat → Shape}

theorem addr_indirect_ne_zero {blocks : Nat → Block} :
    addr blocks node .indirect ≠ 0 ↔ node.addrs indirectSlot ≠ 0 := by
  rw [addr, ne_eq, ne_eq, ← UInt32.toNat_inj]
  rfl

/-- A block that is not the indirect block of the inode can be changed. -/
theorem addr_update {blocks : Nat → Block} {b : Nat} {block : Block}
    (other : node.addrs indirectSlot ≠ 0 → (node.addrs indirectSlot).toNat ≠ b)
    (at' : Place) : addr (update blocks b block) node at' = addr blocks node at' := by
  cases at' with
  | direct slot => rfl
  | indirect => rfl
  | entry index =>
    simp only [addr]
    split
    · rfl
    · next present => rw [update_of_ne (other present)]

namespace Laid

variable {blocks : Nat → Block} {freeblock : Nat} {nodes : Nat → Dinode} {shape : Nat → Shape}
  {owner : Nat → Nat × Place}

variable (laid : Laid blocks freeblock nodes shape owner)

include laid

variable {inum : Nat}

theorem place_eq {other : Nat} {at' at'' : Place} (used : addr blocks (nodes inum) at' ≠ 0)
    (same : addr blocks (nodes inum) at' = addr blocks (nodes other) at'') :
    inum = other ∧ at' = at'' := by
  have first := (laid.owned inum at' used).2.2
  have second := (laid.owned other at'' (same ▸ used)).2.2
  rw [same, second] at first
  exact Prod.mk.inj first.symm

theorem write {b : Nat} (block : Block) (inside : b < freeblock)
    (other : ∀ inum, (nodes inum).addrs indirectSlot ≠ 0 →
      ((nodes inum).addrs indirectSlot).toNat ≠ b) :
    Laid (update blocks b block) freeblock nodes shape owner where
  start := laid.start
  clear b' above := by rw [update_of_ne (by omega), laid.clear b' above]
  used inum at' := by rw [addr_update (other inum), laid.used]
  owned inum at' := by
    rw [addr_update (other inum)]
    exact laid.owned inum at'

theorem write_meta {b : Nat} (block : Block)
    (front : b < nmeta) : Laid (update blocks b block) freeblock nodes shape owner := by
  refine laid.write block (lt_of_lt_of_le front laid.start) fun inum present same => ?_
  have beyond := (laid.owned inum .indirect (addr_indirect_ne_zero.mpr present)).1
  simp only [addr] at beyond
  omega

theorem write_data {at' : Place}
    (data : at' ≠ .indirect) (used : addr blocks (nodes inum) at' ≠ 0) (block : Block) :
    Laid (update blocks (addr blocks (nodes inum) at') block) freeblock nodes shape
      owner := by
  refine laid.write block (laid.owned inum at' used).2.1 fun other present same => ?_
  have clash := laid.place_eq (addr_indirect_ne_zero.mpr present : addr blocks _ _ ≠ 0) same
  exact data clash.2.symm

/-- An inode can be replaced by one with the same numbers. -/
theorem replace {node : Dinode}
    (same : ∀ at', addr blocks node at' = addr blocks (nodes inum) at') :
    Laid blocks freeblock (update nodes inum node) shape owner := by
  have keep : ∀ other at', addr blocks (update nodes inum node other) at' =
      addr blocks (nodes other) at' := by
    intro other at'
    rcases eq_or_ne other inum with rfl | different
    · rw [update_self, same]
    · rw [update_of_ne different]
  exact ⟨laid.start, laid.clear, fun other at' => by rw [keep, laid.used],
    fun other at' => by rw [keep]; exact laid.owned other at'⟩

/-- The next block goes to a place that was empty. -/
theorem take {at' : Place} {blocks' : Nat → Block} {node : Dinode} {shape' : Shape}
    (new : addr blocks' node at' = freeblock)
    (rest : ∀ at'', at'' ≠ at' → addr blocks' node at'' = addr blocks (nodes inum) at'')
    (others : ∀ other, other ≠ inum → ∀ at'', addr blocks' (nodes other) at'' =
      addr blocks (nodes other) at'')
    (clear : ∀ b, freeblock + 1 ≤ b → blocks' b = Bytes.zero BSIZE)
    (used : ∀ at'', shape'.Used at'' ↔ at'' = at' ∨ (shape inum).Used at'') :
    Laid blocks' (freeblock + 1) (update nodes inum node)
      (update shape inum shape') (update owner freeblock (inum, at')) := by
  have positive : freeblock ≠ 0 := by
    have start := laid.start
    have meta_pos : 0 < nmeta := by decide
    omega
  -- A number that was there before is below the counter, so its owner is still recorded.
  have old : ∀ other at'', addr blocks (nodes other) at'' ≠ 0 →
      nmeta ≤ addr blocks (nodes other) at'' ∧ addr blocks (nodes other) at'' < freeblock + 1 ∧
        update owner freeblock (inum, at') (addr blocks (nodes other) at'') = (other, at'') := by
    intro other at'' present
    obtain ⟨beyond, below, owner_eq⟩ := laid.owned other at'' present
    exact ⟨beyond, by omega, by rw [update_of_ne (by omega), owner_eq]⟩
  refine ⟨by have := laid.start; omega, clear, fun other at'' => ?_, fun other at'' present => ?_⟩
  · rcases eq_or_ne other inum with rfl | different
    · rw [update_self, update_self, used]
      rcases eq_or_ne at'' at' with rfl | elsewhere
      · simp [new, positive]
      · rw [rest at'' elsewhere, laid.used]
        simp [elsewhere]
    · rw [update_of_ne different, update_of_ne different, others other different, laid.used]
  · rcases eq_or_ne other inum with rfl | different
    · rw [update_self] at present ⊢
      rcases eq_or_ne at'' at' with rfl | elsewhere
      · rw [new, update_self]
        exact ⟨laid.start, Nat.lt_succ_self _, rfl⟩
      · rw [rest at'' elsewhere] at present ⊢
        exact old other at'' present
    · rw [update_of_ne different, others other different] at present ⊢
      exact old other at'' present

omit laid in
theorem toNat_ofNat_of_le {x : Nat} (small : x ≤ FSSIZE) : (UInt32.ofNat x).toNat = x := by
  have bound : FSSIZE < UInt32.size := by decide
  exact UInt32.toNat_ofNat_of_lt' (by omega)

/-- `iappend` gives the next block to a direct slot. -/
theorem take_direct
    {slot : Fin NDIRECT} (small : freeblock ≤ FSSIZE) (count : shape inum = Shape.of slot) :
    Laid blocks (freeblock + 1)
      (update nodes inum { nodes inum with
        addrs := update (nodes inum).addrs slot.castSucc (.ofNat freeblock) })
      (update shape inum (Shape.of (slot + 1)))
      (update owner freeblock (inum, .direct slot)) := by
  have last : indirectSlot ≠ slot.castSucc := (Fin.castSucc_lt_last slot).ne'
  apply laid.take
  · simp only [addr, update_self, toNat_ofNat_of_le small]
  · intro at'' elsewhere
    cases at'' with
    | direct other =>
      have different : other.castSucc ≠ slot.castSucc := fun same =>
        elsewhere (by rw [Fin.castSucc_injective _ same])
      simp only [addr, update_of_ne different]
    | indirect => simp only [addr, update_of_ne last]
    | entry index => simp only [addr, update_of_ne last]
  · intro other _ at''
    rfl
  · intro b above
    exact laid.clear b (by omega)
  · intro at''
    have slot_lt := slot.isLt
    rw [count]
    cases at'' with
    | direct other =>
      simp only [Shape.Used, Shape.of, Place.direct.injEq, Fin.ext_iff]
      omega
    | indirect =>
      simp only [Shape.Used, Shape.of, decide_eq_true_eq, reduceCtorEq, false_or]
      omega
    | entry index =>
      simp only [Shape.Used, Shape.of, reduceCtorEq, false_or]
      omega

/-- `iappend` gives the next block to the indirect slot. -/
theorem take_indirect (small : freeblock ≤ FSSIZE) (count : shape inum = Shape.of NDIRECT) :
    Laid blocks (freeblock + 1)
      (update nodes inum { nodes inum with
        addrs := update (nodes inum).addrs indirectSlot (.ofNat freeblock) })
      (update shape inum ⟨NDIRECT, true⟩)
      (update owner freeblock (inum, .indirect)) := by
  have absent : (nodes inum).addrs indirectSlot = 0 := by
    by_contra present
    have used := (laid.used inum .indirect).mp (addr_indirect_ne_zero.mpr present)
    rw [count] at used
    simp [Shape.Used, Shape.of] at used
  have zeros : blocks freeblock = Bytes.zero BSIZE := laid.clear freeblock le_rfl
  apply laid.take
  · simp only [addr, update_self, toNat_ofNat_of_le small]
  · intro at'' elsewhere
    cases at'' with
    | direct other =>
      have different : other.castSucc ≠ indirectSlot := (Fin.castSucc_lt_last other).ne
      simp only [addr, update_of_ne different]
    | indirect => exact absurd rfl elsewhere
    | entry index =>
      simp only [addr, update_self, absent, if_true, toNat_ofNat_of_le small, zeros,
        Bytes.field_zero, ite_self]
  · intro other _ at''
    rfl
  · intro b above
    exact laid.clear b (by omega)
  · intro at''
    rw [count]
    cases at'' with
    | direct other => simp [Shape.Used, Shape.of]
    | indirect => simp [Shape.Used]
    | entry index => simp [Shape.Used, Shape.of]

/-- `iappend` gives the next block to an entry of the indirect block. -/
theorem take_entry {index : Fin NINDIRECT} (small : freeblock ≤ FSSIZE)
    (count : shape inum = ⟨NDIRECT + index, true⟩) :
    Laid (update blocks ((nodes inum).addrs indirectSlot).toNat
        ((blocks ((nodes inum).addrs indirectSlot).toNat).setField 4 (4 * index) freeblock))
      (freeblock + 1) (update nodes inum (nodes inum))
      (update shape inum (Shape.of (NDIRECT + index + 1)))
      (update owner freeblock (inum, .entry index)) := by
  have index_lt : index.val < 256 := index.isLt
  have present : addr blocks (nodes inum) .indirect ≠ 0 :=
    (laid.used inum .indirect).mpr (by rw [count]; rfl)
  have slot := addr_indirect_ne_zero.mp present
  have inside := (laid.owned inum .indirect present).2.1
  apply laid.take
  · have bound : FSSIZE < 256 ^ 4 := by decide
    simp only [addr, if_neg slot, update_self]
    rw [Bytes.field_setField _ _ _ _ (by simp only [BSIZE]; omega), Nat.mod_eq_of_lt (by omega)]
  · intro at'' elsewhere
    cases at'' with
    | direct other => rfl
    | indirect => rfl
    | entry other =>
      have different : other.val ≠ index.val := fun same => elsewhere (by rw [Fin.ext same])
      simp only [addr, if_neg slot, update_self]
      rw [Bytes.field_setField_of_disjoint _ _ _ _ _ _ (by omega)]
  · intro other different at''
    refine addr_update (fun there same => ?_) at''
    have clash : other = inum ∧ Place.indirect = Place.indirect :=
      laid.place_eq (addr_indirect_ne_zero.mpr there) same
    exact different clash.1
  · intro b above
    simp only [addr] at inside
    rw [update_of_ne (by omega)]
    exact laid.clear b (by omega)
  · intro at''
    rw [count]
    cases at'' with
    | direct other =>
      have other_lt := other.isLt
      simp only [Shape.Used, Shape.of, reduceCtorEq, false_or]
      omega
    | indirect =>
      simp only [Shape.Used, Shape.of, decide_eq_true_eq, reduceCtorEq, false_or, iff_true]
      omega
    | entry other =>
      simp only [Shape.Used, Shape.of, Place.entry.injEq, Fin.ext_iff]
      omega

end Laid

/-! ## The parts of the builder -/

/-- The postcondition holds in the end; `stuck` says whether an assertion may fail on the way. -/
abbrev Ensures {α : Type} (stuck : Prop) (program : Build α) (post : α → Image → Prop)
    (image : Image) : Prop := Program.wp program post (fun _ _ => stuck) image

variable {stuck : Prop}

section

variable {image : Image}

theorem ensures_assert {condition : Prop} [Decidable condition] {message : String}
    {post : Unit → Image → Prop} (fails : ¬condition → stuck) (next : condition → post () image) :
    Ensures stuck (assert condition message) post image := by
  unfold assert
  split
  · next holds => exact next holds
  · next broken => exact fails broken

theorem ensures_rsect {sec : Nat} {post : Block → Image → Prop} (fails : ¬sec < FSSIZE → stuck)
    (next : sec < FSSIZE → post (image.blocks sec) image) : Ensures stuck (rsect sec) post image := by
  simp only [rsect, Ensures, wp_bind]
  exact ensures_assert fails fun inside => next inside

theorem ensures_wsect {sec : Nat} {block : Block} {post : Unit → Image → Prop}
    (next : post () { image with blocks := update image.blocks sec block }) :
    Ensures stuck (wsect sec block) post image :=
  next

theorem ensures_takeBlock {post : Nat → Image → Prop}
    (next : post image.freeblock { image with freeblock := image.freeblock + 1 }) :
    Ensures stuck takeBlock post image :=
  next

theorem ensures_bind {α β : Type} {program : Build α} {next : α → Build β} {post : β → Image → Prop}
    (first : Ensures stuck program (fun value => Ensures stuck (next value) post) image) :
    Ensures stuck (program >>= next) post image := (wp_bind program next).mpr first

theorem ensures_mono {α : Type} {program : Build α} {post weaker : α → Image → Prop}
    (strong : Ensures stuck program post image)
    (weaken : ∀ value after, post value after → weaker value after) :
    Ensures stuck program weaker image := Program.wp_mono strong weaken fun _ _ may => may

end

/-- What `fileBlock` and the loop of `iappend` leave as it is: the inode blocks and the counter of
inodes. -/
def SameMeta (image after : Image) : Prop :=
  after.freeinode = image.freeinode ∧ ∀ b < nmeta, after.blocks b = image.blocks b

theorem SameMeta.refl (image : Image) : SameMeta image image := ⟨rfl, fun _ _ => rfl⟩

theorem SameMeta.trans {between after : Image} (left : SameMeta image between)
    (right : SameMeta between after) : SameMeta image after :=
  ⟨right.1.trans left.1, fun b front => (right.2 b front).trans (left.2 b front)⟩

theorem SameMeta.write {b : Nat} (beyond : nmeta ≤ b) (block : Block)
    (freeblock : Nat) : SameMeta image
      { image with blocks := update image.blocks b block, freeblock } :=
  ⟨rfl, fun b' front => update_of_ne (by omega) _ _⟩

/-- An image with the inode that `iappend` works on. -/
def LaidWith (image : Image) (nodes : Nat → Dinode) (inum : Nat) (node : Dinode)
    (shape : Nat → Shape) (blocks : Nat) : Prop :=
  ∃ owner, Laid image.blocks image.freeblock (update nodes inum node)
    (update shape inum (Shape.of blocks)) owner

/-- What `fileBlock` returns: the block of the file, which the inode now has. -/
def BlockFound (image after : Image) (nodes : Nat → Dinode) (inum : Nat) (shape : Nat → Shape)
    (fbn : Nat) (result : Nat × Dinode) : Prop :=
  LaidWith after nodes inum result.2 shape (fbn + 1) ∧ SameMeta image after ∧
    (∃ at', at' ≠ .indirect ∧ addr after.blocks result.2 at' = result.1 ∧ result.1 ≠ 0) ∧
    (after.freeblock ≤ FSSIZE ∨ after.freeblock = result.1 + 1) ∧
    after.freeblock ≤ image.freeblock + 2

theorem ensures_fileBlock_direct {blocks fbn : Nat}
    (laid : LaidWith image nodes inum node shape blocks)
    (small : image.freeblock ≤ FSSIZE) (next : blocks = fbn ∨ blocks = fbn + 1)
    (direct : fbn < NDIRECT) :
    Ensures stuck (fileBlock node fbn)
      (fun result after => BlockFound image after nodes inum shape fbn result) image := by
  obtain ⟨owner, laid⟩ := laid
  have used := laid.used inum (.direct ⟨fbn, direct⟩)
  simp only [update_self, addr, Shape.Used, Shape.of] at used
  have slot_eq : (⟨fbn, Nat.lt_succ_of_lt direct⟩ : Fin (NDIRECT + 1)) =
      Fin.castSucc ⟨fbn, direct⟩ := rfl
  simp only [fileBlock, dif_pos direct]
  rw [slot_eq]
  split
  · next absent =>
    have fresh : blocks = fbn := by
      rw [absent] at used
      simp only [UInt32.toNat_zero, ne_eq, not_true, false_iff] at used
      omega
    subst fresh
    have count : update shape inum (Shape.of blocks) inum =
        Shape.of (⟨blocks, direct⟩ : Fin NDIRECT).val := update_self ..
    have taken := laid.take_direct small count
    simp only [update_self, update_idem] at taken
    refine ensures_bind (ensures_takeBlock ?_)
    refine ⟨⟨_, taken⟩, ⟨rfl, fun _ _ => rfl⟩, ⟨.direct ⟨blocks, direct⟩, by simp, ?_, ?_⟩,
      .inr rfl, Nat.le_succ _⟩
    · simp only [addr, update_self, Laid.toNat_ofNat_of_le small]
    · have start := laid.start
      have meta_pos : 0 < nmeta := by decide
      simp only [ne_eq]
      omega
  · next present =>
    have nonzero : (node.addrs (Fin.castSucc ⟨fbn, direct⟩)).toNat ≠ 0 := fun zero =>
      present (UInt32.toNat_inj.mp zero)
    have below := used.mp nonzero
    have full : blocks = fbn + 1 := by omega
    subst full
    exact ⟨⟨owner, laid⟩, .refl image, ⟨.direct ⟨fbn, direct⟩, by simp, rfl, nonzero⟩, .inl small,
      le_self_add⟩

/-- The end of `fileBlock` for a block behind the indirect block. -/
def entryBlock (node : Dinode) (fbn : Nat) : Build (Nat × Dinode) := do
  let indirect ← rsect (node.addrs indirectSlot).toNat
  if indirect.field 4 (4 * (fbn - NDIRECT)) = 0 then do
    let x ← takeBlock
    wsect (node.addrs indirectSlot).toNat (indirect.setField 4 (4 * (fbn - NDIRECT)) x)
    return (x, node)
  else return (indirect.field 4 (4 * (fbn - NDIRECT)), node)

theorem fileBlock_eq_entryBlock {fbn : Nat} (indirect : ¬fbn < NDIRECT) :
    fileBlock node fbn =
      (if node.addrs indirectSlot = 0 then do
        let x ← takeBlock
        pure { node with addrs := update node.addrs indirectSlot (.ofNat x) }
      else pure node) >>= fun node => entryBlock node fbn := by
  by_cases absent : node.addrs indirectSlot = 0
  · simp only [fileBlock, dif_neg indirect, if_pos absent, bind_assoc, pure_bind, entryBlock]
  · simp only [fileBlock, dif_neg indirect, if_neg absent, pure_bind, entryBlock]

theorem ensures_entryBlock {blocks fbn : Nat}
    (laid : Laid image.blocks image.freeblock (update nodes inum node)
      (update shape inum ⟨blocks, true⟩) owner)
    (small : image.freeblock ≤ FSSIZE ∨ image.freeblock = (node.addrs indirectSlot).toNat + 1)
    (room : ¬stuck → image.freeblock ≤ FSSIZE)
    (next : blocks = fbn ∨ blocks = fbn + 1) (indirect : NDIRECT ≤ fbn) (inside : fbn < MAXFILE) :
    Ensures stuck (entryBlock node fbn)
      (fun result after => BlockFound image after nodes inum shape fbn result ∧
        after.freeblock ≤ image.freeblock + 1) image := by
  have index_lt : fbn - NDIRECT < NINDIRECT := by
    simp only [MAXFILE] at inside
    omega
  obtain ⟨index, index_eq⟩ : ∃ index : Fin NINDIRECT, index.val = fbn - NDIRECT := ⟨⟨_, index_lt⟩, rfl⟩
  have fbn_eq : fbn = NDIRECT + index := by omega
  have present : addr image.blocks node .indirect ≠ 0 := by
    have used := laid.used inum .indirect
    simp only [update_self] at used
    exact used.mpr rfl
  have slot := addr_indirect_ne_zero.mp present
  have used := laid.used inum (.entry index)
  simp only [update_self, addr, if_neg slot, Shape.Used] at used
  have beyond := laid.owned inum .indirect (by rwa [update_self])
  simp only [update_self, addr] at beyond
  refine ensures_bind (ensures_rsect (fun outside => ?_) fun found => ?_)
  · by_contra total
    have := room total
    omega
  have small : image.freeblock ≤ FSSIZE := by omega
  rw [← index_eq]
  split
  · next absent =>
    have fresh : blocks = NDIRECT + index := by
      simp only [absent, ne_eq, not_true, false_iff] at used
      omega
    have count : update shape inum ⟨blocks, true⟩ inum = ⟨NDIRECT + index, true⟩ := by
      rw [update_self, fresh]
    have taken := laid.take_entry small count
    simp only [update_self, update_idem] at taken
    refine ensures_bind (ensures_takeBlock (ensures_bind (ensures_wsect ?_)))
    have new := taken.used inum (.entry index)
    have bound : FSSIZE < 256 ^ 4 := by decide
    have size : 4 * index.val + 4 ≤ BSIZE := by
      have := index.isLt
      simp only [NINDIRECT, BSIZE] at this ⊢
      omega
    refine ⟨⟨⟨_, by rw [fbn_eq]; exact taken⟩, SameMeta.write beyond.1 _ _,
      ⟨.entry index, by simp, ?_, ?_⟩, .inr rfl, Nat.le_succ _⟩, le_rfl⟩
    · simp only [addr, if_neg slot, update_self]
      rw [Bytes.field_setField _ _ _ _ size, Nat.mod_eq_of_lt (by omega)]
    · have start := laid.start
      have meta_pos : 0 < nmeta := by decide
      simp only [ne_eq]
      omega
  · next there =>
    have below := used.mp there
    have full : (⟨blocks, true⟩ : Shape) = Shape.of (fbn + 1) := by
      simp only [Shape.of, Shape.mk.injEq, Bool.true_eq, decide_eq_true_eq]
      omega
    rw [full] at laid
    refine ⟨⟨⟨owner, laid⟩, .refl image, ⟨.entry index, by simp, ?_, there⟩, .inl small,
      le_self_add⟩, Nat.le_succ _⟩
    simp only [addr, if_neg slot]

theorem ensures_fileBlock {blocks fbn : Nat} (laid : LaidWith image nodes inum node shape blocks)
    (small : image.freeblock ≤ FSSIZE) (room : ¬stuck → image.freeblock + 2 ≤ FSSIZE)
    (next : blocks = fbn ∨ blocks = fbn + 1) (inside : fbn < MAXFILE) :
    Ensures stuck (fileBlock node fbn)
      (fun result after => BlockFound image after nodes inum shape fbn result) image := by
  by_cases direct : fbn < NDIRECT
  · exact ensures_fileBlock_direct laid small next direct
  obtain ⟨owner, laid⟩ := laid
  have used := laid.used inum .indirect
  simp only [update_self, addr, Shape.Used, Shape.of, decide_eq_true_eq] at used
  rw [fileBlock_eq_entryBlock direct]
  apply ensures_bind
  split
  · next absent =>
    have first : blocks = NDIRECT := by
      rw [absent] at used
      simp only [UInt32.toNat_zero, ne_eq, not_true, false_iff] at used
      omega
    have count : update shape inum (Shape.of blocks) inum = Shape.of NDIRECT := by
      rw [update_self, first]
    have taken := laid.take_indirect small count
    simp only [update_self, update_idem] at taken
    refine ensures_bind (ensures_takeBlock ?_)
    have counted : image.freeblock + 1 = (UInt32.ofNat image.freeblock).toNat + 1 := by
      rw [Laid.toNat_ofNat_of_le small]
    have rest : Ensures stuck (entryBlock { node with
        addrs := update node.addrs indirectSlot (.ofNat image.freeblock) } fbn)
        (fun result after => BlockFound { image with freeblock := image.freeblock + 1 } after nodes
          inum shape fbn result ∧ after.freeblock ≤ image.freeblock + 1 + 1)
        { image with freeblock := image.freeblock + 1 } :=
      ensures_entryBlock taken (.inr (by simpa only [update_self] using counted))
        (fun total => by have := room total; dsimp only; omega) (by omega) (by omega) inside
    change Ensures stuck (entryBlock _ fbn) _ _
    exact ensures_mono rest fun result after found =>
      ⟨found.1.1, (SameMeta.trans ⟨rfl, fun _ _ => rfl⟩ found.1.2.1), found.1.2.2.1,
        found.1.2.2.2.1, found.2⟩
  · next present =>
    have nonzero : (node.addrs indirectSlot).toNat ≠ 0 := fun zero =>
      present (UInt32.toNat_inj.mp zero)
    have shape_eq : Shape.of blocks = ⟨blocks, true⟩ := by
      simp [Shape.of, used.mp nonzero]
    rw [shape_eq] at laid
    change Ensures stuck (entryBlock node fbn) _ _
    exact ensures_mono (ensures_entryBlock laid (.inl small) (fun _ => small) next (by omega) inside)
      fun result after found => found.1

theorem blocksOf_offset (off : Nat) :
    blocksOf off = off / BSIZE ∨ blocksOf off = off / BSIZE + 1 := by
  simp only [blocksOf, BSIZE]
  omega

/-- There is room for bytes that go to one block of a file. -/
def Room (image : Image) (off : Nat) (bytes : List UInt8) : Prop :=
  bytes ≠ [] → bytes.length + off % BSIZE ≤ BSIZE ∧ off + bytes.length ≤ MAXFILE * BSIZE ∧
    image.freeblock + 2 ≤ FSSIZE

theorem ensures_appendFrom (fuel : Nat) {off : Nat} {bytes : List UInt8}
    (laid : LaidWith image nodes inum node shape (blocksOf off))
    (small : image.freeblock ≤ FSSIZE) (short : off ≤ MAXFILE * BSIZE) (fits : bytes.length ≤ fuel)
    (room : ¬stuck → Room image off bytes) :
    Ensures stuck (appendFrom fuel node off bytes)
      (fun result after => LaidWith after nodes inum result.1 shape (blocksOf result.2) ∧
        SameMeta image after ∧ after.freeblock ≤ FSSIZE ∧ result.2 = off + bytes.length ∧
        result.2 ≤ MAXFILE * BSIZE ∧ (bytes = [] → after.freeblock = image.freeblock) ∧
        (¬stuck → after.freeblock ≤ image.freeblock + 2)) image := by
  induction fuel generalizing image node off bytes with
  | zero =>
    have empty : bytes = [] := List.eq_nil_of_length_eq_zero (by omega)
    subst empty
    exact ⟨laid, .refl image, small, rfl, short, fun _ => rfl, fun _ => le_self_add⟩
  | succ fuel ih =>
    simp only [appendFrom]
    split
    · next more =>
      have positive : 0 < bytes.length := List.length_pos_iff.mpr more
      refine ensures_bind (ensures_assert (fun outside => ?_) fun inside => ?_)
      · by_contra total
        have := (room total more).2.1
        simp only [BSIZE, MAXFILE, NDIRECT, NINDIRECT] at this outside
        omega
      refine ensures_bind (ensures_mono (ensures_fileBlock laid small
        (fun total => (room total more).2.2) (blocksOf_offset off) inside) ?_)
      rintro ⟨x, node'⟩ between
        ⟨⟨owner, laid'⟩, same, ⟨at', data, found, nonzero⟩, counted, bounded⟩
      dsimp only at counted
      have used : addr between.blocks (update nodes inum node' inum) at' = x := by
        rw [update_self]
        exact found
      have written := fun block => laid'.write_data data (by rw [used]; exact nonzero) block
      have beyond := (laid'.owned inum at' (by rw [used]; exact nonzero)).1
      have below := (laid'.owned inum at' (by rw [used]; exact nonzero)).2.1
      rw [used] at written beyond below
      refine ensures_bind (ensures_rsect (fun outside => ?_) fun there =>
        ensures_bind (ensures_wsect ?_))
      · by_contra total
        have := (room total more).2.2
        omega
      have enough : between.freeblock ≤ FSSIZE := by omega
      -- The rest of the bytes goes behind the block that has just been filled up.
      have step : ∀ n1, n1 = min bytes.length ((off / BSIZE + 1) * BSIZE - off) →
          blocksOf (off + n1) = off / BSIZE + 1 ∧ off + n1 ≤ MAXFILE * BSIZE ∧
            0 < n1 ∧ n1 ≤ bytes.length := by
        intro n1 n1_eq
        simp only [blocksOf, BSIZE, MAXFILE, NDIRECT, NINDIRECT] at *
        omega
      obtain ⟨count, short', advance, within⟩ := step _ rfl
      -- Bytes that go to one block are all written in this turn.
      have last : ¬stuck → bytes.drop (min bytes.length ((off / BSIZE + 1) * BSIZE - off)) = [] := by
        intro total
        have := (room total more).1
        apply List.drop_eq_nil_of_le
        simp only [BSIZE] at *
        omega
      refine ensures_mono (ih ⟨owner, by rw [count]; exact written _⟩ enough short'
        (by rw [List.length_drop]; omega) fun total more => absurd (last total) more)
        fun result after ends => ?_
      obtain ⟨laid'', same', bound, total, short'', idle, _⟩ := ends
      refine ⟨laid'', same.trans (SameMeta.trans (SameMeta.write beyond _ _) same'), bound, ?_,
        short'', fun empty => absurd empty more, fun total => ?_⟩
      · rw [total, List.length_drop]
        omega
      · rw [idle (last total)]
        exact bounded
    · next empty =>
      obtain rfl : bytes = [] := by simpa using empty
      exact ⟨laid, .refl image, small, rfl, short, fun _ => rfl, fun _ => le_self_add⟩

/-! ## Whole images -/

/-- The files of an image have the given lengths, and their blocks are laid out. -/
structure Good (image : Image) (len : Nat → Nat) (nodes : Nat → Dinode)
    (owner : Nat → Nat × Place) : Prop where
  laid : Laid image.blocks image.freeblock nodes (fun inum => Shape.of (blocksOf (len inum))) owner
  stored : ∀ inum, image.Allocated inum →
    image.node inum = nodes inum ∧ (nodes inum).size.toNat = len inum
  free : ∀ inum, ¬image.Allocated inum → len inum = 0
  short : ∀ inum, len inum ≤ MAXFILE * BSIZE
  small : image.freeblock ≤ FSSIZE
  started : 1 ≤ image.freeinode

def Holds (image : Image) (len : Nat → Nat) : Prop := ∃ nodes owner, Good image len nodes owner

theorem iblock_lt_bmapstart (inside : inum < NINODES) :
    IBLOCK inum superblock < superblock.bmapstart := by
  have inodes : NINODES = 200 := rfl
  simp only [IBLOCK, superblock, IPB, BSIZE, ninodeblocks, NINODES]
  omega

theorem iblock_lt_fssize (inside : inum < NINODES) : IBLOCK inum superblock < FSSIZE :=
  lt_trans (iblock_lt_bmapstart inside) (by decide)

/-- The image after `winode`. -/
def Image.putNode (image : Image) (inum : Nat) (node : Dinode) : Image :=
  { image with
    blocks := update image.blocks (IBLOCK inum superblock)
      (Format.setDinode (image.blocks (IBLOCK inum superblock)) (inum % IPB) node) }

theorem node_putNode (image : Image) (inum : Nat) (node : Dinode) (other : Nat) :
    (image.putNode inum node).node other = if other = inum then node else image.node other := by
  have slot_lt : inum % IPB < IPB := Nat.mod_lt _ (by decide)
  simp only [Image.node, Image.putNode]
  by_cases same : other = inum
  · subst same
    rw [if_pos rfl, update_self, Format.dinode_setDinode _ slot_lt]
  · rw [if_neg same]
    by_cases block : IBLOCK other superblock = IBLOCK inum superblock
    · have slot : other % IPB ≠ inum % IPB := by
        simp only [IBLOCK, IPB, BSIZE] at block ⊢
        omega
      rw [block, update_self, Format.dinode_setDinode_of_ne _ slot]
    · rw [update_of_ne block]

theorem ensures_winode {post : Unit → Image → Prop}
    (inside : inum < NINODES) (next : post () (image.putNode inum node)) :
    Ensures stuck (winode inum node) post image :=
  ensures_bind (ensures_rsect (fun outside => absurd (iblock_lt_fssize inside) outside) fun _ =>
    ensures_wsect next)

theorem ensures_rinode {post : Dinode → Image → Prop}
    (inside : inum < NINODES) (next : post (image.node inum) image) :
    Ensures stuck (rinode inum) post image :=
  ensures_bind (ensures_rsect (fun outside => absurd (iblock_lt_fssize inside) outside) fun _ => next)

/-- `iappend` makes its file longer by the bytes it is given. -/
theorem ensures_iappend {bytes : List UInt8}
    (holds : Holds image len) (few : image.freeinode ≤ NINODES) (allocated : image.Allocated inum)
    (room : ¬stuck → Room image (len inum) bytes) :
    Ensures stuck (iappend inum bytes)
      (fun _ after => Holds after (update len inum (len inum + bytes.length)) ∧
        after.freeinode = image.freeinode ∧ (¬stuck → after.freeblock ≤ image.freeblock + 2))
      image := by
  obtain ⟨nodes, owner, good⟩ := holds
  obtain ⟨node_eq, size_eq⟩ := good.stored inum allocated
  have inside : inum < NINODES := lt_of_lt_of_le allocated.2 few
  refine ensures_bind (ensures_rinode inside ?_)
  rw [node_eq, size_eq]
  have laid : LaidWith image nodes inum (nodes inum)
      (fun inum => Shape.of (blocksOf (len inum))) (blocksOf (len inum)) := by
    refine ⟨owner, ?_⟩
    rw [update_eq_self, update_eq_self]
    exact good.laid
  refine ensures_bind (ensures_mono
    (ensures_appendFrom bytes.length laid good.small (good.short inum) le_rfl room) ?_)
  rintro ⟨node, off⟩ between ⟨⟨owner', laid'⟩, same, small, total, short, -, bounded⟩
  dsimp only at total short laid' ⊢
  refine ensures_winode inside ⟨⟨update nodes inum { node with size := .ofNat off }, owner',
    ?_⟩, same.1, bounded⟩
  have front : IBLOCK inum superblock < nmeta := by
    have := iblock_lt_bmapstart inside
    have : superblock.bmapstart < nmeta := by decide
    omega
  have replaced : Laid between.blocks between.freeblock
      (update (update nodes inum node) inum { node with size := .ofNat off })
      (update (fun inum => Shape.of (blocksOf (len inum))) inum (Shape.of (blocksOf off)))
      owner' := laid'.replace fun at' => by rw [update_self]; cases at' <;> rfl
  rw [update_idem] at replaced
  have lengths : (fun other => Shape.of (blocksOf (update len inum (len inum + bytes.length)
      other))) = update (fun other => Shape.of (blocksOf (len other))) inum
        (Shape.of (blocksOf off)) := by
    funext other
    rcases eq_or_ne other inum with rfl | different
    · rw [update_self, update_self, total]
    · rw [update_of_ne different, update_of_ne different]
  refine ⟨by rw [lengths]; exact replaced.write_meta _ front, fun other there => ?_,
    fun other absent => ?_, fun other => ?_, small, ?_⟩
  · rw [node_putNode]
    have there : image.Allocated other := by
      simpa only [Image.Allocated, Image.putNode, same.1] using there
    rcases eq_or_ne other inum with rfl | different
    · rw [if_pos rfl, update_self, update_self, ← total]
      refine ⟨rfl, UInt32.toNat_ofNat_of_lt' ?_⟩
      have bound : MAXFILE * BSIZE < UInt32.size := by decide
      omega
    · rw [if_neg different, update_of_ne different, update_of_ne different,
        ← (good.stored other there).1]
      have front' : IBLOCK other superblock < nmeta := by
        have := iblock_lt_bmapstart (lt_of_lt_of_le there.2 few)
        have : superblock.bmapstart < nmeta := by decide
        omega
      refine ⟨by rw [Image.node, same.2 _ front', Image.node], ?_⟩
      rw [(good.stored other there).1, (good.stored other there).2]
  · have gone : ¬image.Allocated other := by
      simpa only [Image.Allocated, Image.putNode, same.1] using absent
    have different : other ≠ inum := fun equal => gone (equal ▸ allocated)
    rw [update_of_ne different, good.free other gone]
  · rcases eq_or_ne other inum with rfl | different
    · rw [update_self, ← total]
      exact short
    · rw [update_of_ne different]
      exact good.short other
  · change 1 ≤ between.freeinode
    rw [same.1]
    exact good.started

theorem addr_of_zeros (blocks : Nat → Block) (zeros : node.addrs = fun _ => 0)
    (at' : Place) : addr blocks node at' = 0 := by
  cases at' <;> simp [addr, zeros]

/-- The next inode can be handed out with an inode that has no blocks. -/
theorem Holds.add_node (holds : Holds image len)
    (few : image.freeinode < NINODES) (zeros : node.addrs = fun _ => 0) (empty : node.size = 0) :
    Holds (Image.putNode { image with freeinode := image.freeinode + 1 } image.freeinode node)
      len := by
  obtain ⟨nodes, owner, good⟩ := holds
  have absent : ¬image.Allocated image.freeinode := fun allocated => lt_irrefl _ allocated.2
  have front : IBLOCK image.freeinode superblock < nmeta := by
    have := iblock_lt_bmapstart few
    have : superblock.bmapstart < nmeta := by decide
    omega
  have unused : ∀ at', addr image.blocks (nodes image.freeinode) at' = 0 := by
    intro at'
    by_contra present
    have used := (good.laid.used image.freeinode at').mp present
    have none : blocksOf 0 = 0 := by decide
    rw [good.free _ absent, none] at used
    cases at' <;> simp [Shape.Used, Shape.of] at used
  have replaced := good.laid.replace fun at' =>
    (addr_of_zeros image.blocks zeros at').trans (unused at').symm
  refine ⟨update nodes image.freeinode node, owner, replaced.write_meta _ front,
    fun inum there => ?_, fun inum gone => ?_, good.short, good.small,
    Nat.le_succ_of_le good.started⟩
  · rw [node_putNode]
    rcases eq_or_ne inum image.freeinode with rfl | different
    · rw [if_pos rfl, update_self, good.free _ absent, empty]
      exact ⟨rfl, rfl⟩
    · have below : inum < image.freeinode + 1 := there.2
      rw [if_neg different, update_of_ne different]
      exact good.stored inum ⟨there.1, by omega⟩
  · exact good.free inum fun allocated => gone ⟨allocated.1, Nat.lt_succ_of_lt allocated.2⟩

theorem ensures_ialloc {root : Bool} {type : UInt16}
    {user group other : UInt8} (holds : Holds image len) (few : image.freeinode < NINODES) :
    Ensures stuck (ialloc root type user group other)
      (fun inum after => inum = image.freeinode ∧ after.freeinode = image.freeinode + 1 ∧
        after.freeblock = image.freeblock ∧ Holds after len) image := by
  simp only [ialloc, Ensures, wp_bind, wp_get, wp_modify]
  exact ensures_winode few ⟨rfl, rfl, rfl, holds.add_node few rfl rfl⟩

/-- A file gets a length, and the files that were there keep theirs. -/
def Grown (image : Image) (len len' : Nat → Nat) (ino growth : Nat) : Prop :=
  len' ino = len ino + growth ∧ ∀ other, image.Allocated other → other ≠ ino → len' other = len other

/-- The loop of `file_apped` changes the length of its file only. -/
theorem ensures_appendData (fuel : Nat)
    {data : List UInt8} (holds : Holds image len) (few : image.freeinode ≤ NINODES)
    (allocated : image.Allocated inum) (tame : ¬stuck → data = []) :
    Ensures stuck (appendData inum fuel data)
      (fun _ after => after.freeinode = image.freeinode ∧
        (¬stuck → after.freeblock = image.freeblock) ∧
        ∃ len', Holds after len' ∧ ∀ other, other ≠ inum → len' other = len other) image := by
  induction fuel generalizing image len data with
  | zero => exact ⟨rfl, fun _ => rfl, len, holds, fun _ _ => rfl⟩
  | succ fuel ih =>
    simp only [appendData]
    split
    · next more =>
      refine ensures_bind (ensures_mono (ensures_iappend holds few allocated
        fun total => absurd (tame total) more) ?_)
      rintro - between ⟨longer, counter, -⟩
      refine ensures_mono (ih longer (by omega)
        (by simpa only [Image.Allocated, counter] using allocated)
        fun total => absurd (tame total) more) ?_
      rintro - after ⟨counter', -, len', holds', others⟩
      refine ⟨counter'.trans counter, fun total => absurd (tame total) more, len', holds',
        fun other different => ?_⟩
      rw [others other different, update_of_ne different]
    · exact ⟨rfl, fun _ => rfl, len, holds, fun _ _ => rfl⟩

theorem length_slice_dirent (entry : Dirent) : (entry.slice 0 Dirent.size).length = 32 := by
  rw [Bytes.length_slice]
  rfl

/-- There is room for another entry of a directory. -/
def EntryRoom (image : Image) (len : Nat) : Prop :=
  len % 32 = 0 ∧ len + 32 ≤ MAXFILE * BSIZE ∧ image.freeblock + 2 ≤ FSSIZE

theorem EntryRoom.room {len : Nat} (room : EntryRoom image len) (entry : Dirent) :
    Room image len (entry.slice 0 Dirent.size) := by
  intro _
  obtain ⟨aligned, short, small⟩ := room
  rw [length_slice_dirent]
  refine ⟨?_, short, small⟩
  simp only [BSIZE]
  omega

/-- An empty file whose name passes the two assertions. -/
def Tame (file : HostFile) : Prop :=
  Fs.slash ∉ file.name ∧ file.name.length ≤ DIRSIZ ∧ file.data = []

/-- `file_apped` adds an entry to its directory and one inode. -/
theorem ensures_file_apped {ino : Nat} {file : HostFile}
    (holds : Holds image len) (few : image.freeinode < NINODES) (allocated : image.Allocated ino)
    (room : ¬stuck → Tame file ∧ EntryRoom image (len ino)) :
    Ensures stuck (file_apped ino file)
      (fun _ after => after.freeinode = image.freeinode + 1 ∧
        (¬stuck → after.freeblock ≤ image.freeblock + 2) ∧
        ∃ len', Holds after len' ∧ Grown image len len' ino 32) image := by
  refine ensures_bind (ensures_assert (fun broken => ?_) fun _ =>
    ensures_bind (ensures_assert (fun broken => ?_) fun _ => ?_))
  · by_contra total
    exact broken (room total).1.1
  · by_contra total
    exact broken (room total).1.2.1
  refine ensures_bind (ensures_mono (ensures_ialloc holds few) ?_)
  rintro inum made ⟨rfl, counter, blocks, holds'⟩
  have there : made.Allocated ino := ⟨allocated.1, by have := allocated.2; omega⟩
  have new : made.Allocated image.freeinode := by
    obtain ⟨_, _, good⟩ := holds
    exact ⟨good.started, by omega⟩
  have space : ¬stuck → EntryRoom made (len ino) := fun total => by
    simpa only [EntryRoom, blocks] using (room total).2
  refine ensures_bind (ensures_mono (ensures_iappend holds' (by omega) there
    fun total => (space total).room _) ?_)
  rintro - linked ⟨longer, counter', blocks'⟩
  rw [length_slice_dirent] at longer
  refine ensures_mono (ensures_appendData _ longer (by omega)
    (by simpa only [Image.Allocated, counter'] using new) fun total => (room total).1.2.2) ?_
  rintro - after ⟨counter'', blocks'', len', holds'', others⟩
  have old : ∀ other, image.Allocated other → other ≠ image.freeinode := fun other there =>
    there.2.ne
  refine ⟨by omega, fun total => ?_, len', holds'', ?_, fun other before different => ?_⟩
  · rw [blocks'' total, ← blocks]
    exact blocks' total
  · rw [others ino (old ino allocated), update_self]
  · rw [others other (old other before), update_of_ne different]

theorem ensures_appendFiles {ino : Nat} {files : List HostFile}
    (holds : Holds image len) (few : image.freeinode + files.length ≤ NINODES)
    (allocated : image.Allocated ino)
    (room : ¬stuck → (∀ file ∈ files, Tame file) ∧ len ino % 32 = 0 ∧
      len ino + 32 * files.length ≤ MAXFILE * BSIZE ∧ image.freeblock + 2 * files.length ≤ FSSIZE) :
    Ensures stuck (appendFiles ino files)
      (fun _ after => after.freeinode = image.freeinode + files.length ∧
        (¬stuck → after.freeblock ≤ image.freeblock + 2 * files.length) ∧
        ∃ len', Holds after len' ∧ Grown image len len' ino (32 * files.length)) image := by
  induction files generalizing image len with
  | nil => exact ⟨rfl, fun _ => le_rfl, len, holds, rfl, fun _ _ _ => rfl⟩
  | cons file files ih =>
    simp only [List.length_cons] at few room ⊢
    have first : ¬stuck → Tame file ∧ EntryRoom image (len ino) := fun total => by
      obtain ⟨tame, aligned, short, small⟩ := room total
      exact ⟨tame file (by simp), aligned, by omega, by omega⟩
    refine ensures_bind (ensures_mono (ensures_file_apped holds (by omega) allocated first) ?_)
    rintro - between ⟨counter, blocks, len', holds', grown⟩
    have there : ∀ other, image.Allocated other → between.Allocated other := fun other before =>
      ⟨before.1, by have := before.2; omega⟩
    refine ensures_mono (ih holds' (by omega) (there ino allocated) fun total => ?_) ?_
    · obtain ⟨tame, aligned, short, small⟩ := room total
      have := blocks total
      rw [grown.1]
      exact ⟨fun file member => tame file (.tail _ member), by omega, by omega,
        by omega⟩
    rintro - after ⟨counter', blocks', len'', holds'', grown'⟩
    refine ⟨by omega, fun total => ?_, len'', holds'', ?_, fun other before different => ?_⟩
    · have := blocks total
      have := blocks' total
      omega
    · rw [grown'.1, grown.1]
      omega
    · rw [grown'.2 other (there other before) different, grown.2 other before different]

/-- A directory below the root adds an entry to the root and one inode. -/
theorem ensures_rootDir {name : List UInt8}
    (holds : Holds image len) (few : image.freeinode < NINODES)
    (allocated : image.Allocated ROOTINO) (room : ¬stuck → EntryRoom image (len ROOTINO)) :
    Ensures stuck (rootDir name)
      (fun inum after => inum = image.freeinode ∧ after.freeinode = image.freeinode + 1 ∧
        (¬stuck → after.freeblock ≤ image.freeblock + 2) ∧
        ∃ len', Holds after len' ∧ (∀ other ≠ ROOTINO, len' other = len other) ∧
          len' ROOTINO = len ROOTINO + 32) image := by
  refine ensures_bind (ensures_mono (ensures_ialloc holds few) ?_)
  rintro inum made ⟨rfl, counter, blocks, holds'⟩
  have there : made.Allocated ROOTINO := ⟨allocated.1, by have := allocated.2; omega⟩
  have space : ¬stuck → EntryRoom made (len ROOTINO) := fun total => by
    simpa only [EntryRoom, blocks] using room total
  refine ensures_bind (ensures_mono (ensures_iappend holds' (by omega) there
    fun total => (space total).room _) ?_)
  rintro - after ⟨longer, counter', blocks'⟩
  rw [length_slice_dirent] at longer
  refine ⟨rfl, by omega, fun total => ?_, _, longer, fun other different => ?_, update_self ..⟩
  · rw [← blocks]
    exact blocks' total
  · exact update_of_ne different _ _

theorem holds_blank : Holds blank fun _ => 0 := by
  refine ⟨fun _ => {}, fun _ => (0, .indirect), ⟨le_rfl, fun b beyond => ?_, fun inum at' => ?_,
    fun inum at' used => ?_⟩, fun inum there => ?_, fun _ _ => rfl, fun _ => zero_le,
    by decide, le_rfl⟩
  · have behind : b ≠ 1 := by
      have : nmeta = 59 := by decide
      have : nmeta ≤ b := beyond
      omega
    simp only [blank, update_of_ne behind]
  · have none : blocksOf 0 = 0 := by decide
    rw [addr_of_zeros _ rfl, none]
    cases at' <;> simp [Shape.Used, Shape.of]
  · exact absurd (addr_of_zeros _ rfl at') used
  · have below : inum < 1 := there.2
    have above := there.1
    omega

/-- The last three steps of `main`: the size of the root is rounded up and the bitmap written. -/
def finish (image : Image) : Image :=
  let root := image.node ROOTINO
  let rounded := image.putNode ROOTINO
    { root with size := .ofNat ((root.size.toNat / BSIZE + 1) * BSIZE) }
  { rounded with
    blocks := update rounded.blocks superblock.bmapstart (usedBits rounded.freeblock) }

/-- What `main` has built before its last steps. -/
def Filled (txt bin : List HostFile) (image : Image) : Prop :=
  image.freeinode = 5 + txt.length + bin.length ∧ image.freeblock < BPB ∧
    ∃ len, Holds image len ∧ len ROOTINO = 32 * (5 + txt.length)

theorem ensures_main {txt bin : List HostFile} {empty : Image} (holds : Holds empty fun _ => 0)
    (start : empty.freeinode = 1) (few : 4 + txt.length + bin.length < NINODES)
    (room : ¬stuck → bin ≠ [] ∧ (∀ file ∈ txt ++ bin, Tame file) ∧ empty.freeblock = nmeta) :
    Ensures stuck (main txt bin)
      (fun _ after => ∃ image, Filled txt bin image ∧ after = finish image) empty := by
  have inodes : NINODES = 200 := rfl
  have number : ROOTINO = 1 := rfl
  have front : nmeta = 59 := by decide
  have size : FSSIZE = 2000 := rfl
  have longest : MAXFILE * BSIZE = 274432 := by decide
  have bits : BPB = 8192 := by decide
  have root : ∀ {image : Image}, 2 ≤ image.freeinode → image.Allocated ROOTINO := fun some =>
    ⟨le_rfl, some⟩
  unfold main
  refine ensures_bind (ensures_assert (fun broken => ?_) fun _ => ?_)
  · by_contra total
    exact broken (room total).1
  refine ensures_bind (ensures_mono (ensures_ialloc holds (by omega)) ?_)
  rintro rootino i1 ⟨made, c1, b1, h1⟩
  obtain rfl : rootino = ROOTINO := made.trans start
  refine ensures_bind (ensures_assert (fun broken => absurd rfl broken) fun _ => ?_)
  refine ensures_bind (ensures_mono (ensures_iappend h1 (by omega) (root (by omega))
    fun total => EntryRoom.room ⟨rfl, by omega, by have := (room total).2.2; omega⟩ _) ?_)
  rintro - i2 ⟨h2, c2, b2⟩
  rw [length_slice_dirent] at h2
  refine ensures_bind (ensures_mono (ensures_iappend h2 (by omega) (root (by omega))
    fun total => EntryRoom.room ⟨by rw [update_self], by rw [update_self]; omega,
      by have := (room total).2.2; have := b2 total; omega⟩ _) ?_)
  rintro - i3 ⟨h3, c3, b3⟩
  rw [length_slice_dirent, update_self, update_idem] at h3
  have at3 : update (fun _ : Nat => 0) ROOTINO (0 + 32 + 32) ROOTINO = 64 := update_self ..
  refine ensures_bind (ensures_mono (ensures_rootDir h3 (by omega) (root (by omega)) fun total =>
    ⟨by rw [at3], by omega, by have := (room total).2.2; have := b2 total; have := b3 total; omega⟩)
    ?_)
  rintro binId i4 ⟨rfl, c4, b4, l4, h4, o4, g4⟩
  refine ensures_bind (ensures_mono (ensures_rootDir h4 (by omega) (root (by omega)) fun total => ?_)
    ?_)
  · have := (room total).2.2
    have := b2 total
    have := b3 total
    have := b4 total
    exact ⟨by omega, by omega, by omega⟩
  rintro - i5 ⟨-, c5, b5, l5, h5, o5, g5⟩
  refine ensures_bind (ensures_mono (ensures_rootDir h5 (by omega) (root (by omega)) fun total => ?_)
    ?_)
  · have := (room total).2.2
    have := b2 total
    have := b3 total
    have := b4 total
    have := b5 total
    exact ⟨by omega, by omega, by omega⟩
  rintro - i6 ⟨-, c6, b6, l6, h6, o6, g6⟩
  have early : ¬stuck → i6.freeblock ≤ nmeta + 10 := fun total => by
    have := (room total).2.2
    have := b2 total
    have := b3 total
    have := b4 total
    have := b5 total
    have := b6 total
    omega
  refine ensures_bind (ensures_mono (ensures_appendFiles h6 (by omega) (root (by omega))
    fun total => ?_) ?_)
  · have := early total
    exact ⟨fun file member => (room total).2.1 file (List.mem_append_left _ member), by omega,
      by omega, by omega⟩
  rintro - i7 ⟨c7, b7, l7, h7, g7⟩
  have binDir : i7.Allocated i3.freeinode := ⟨by omega, by omega⟩
  have other : i3.freeinode ≠ ROOTINO := by omega
  have binLen : l7 i3.freeinode = 0 := by
    rw [g7.2 i3.freeinode ⟨by omega, by omega⟩ other, o6 _ other, o5 _ other, o4 _ other,
      update_of_ne other]
  refine ensures_bind (ensures_mono (ensures_appendFiles h7 (by omega) binDir fun total => ?_) ?_)
  · have := early total
    have := b7 total
    rw [binLen]
    exact ⟨fun file member => (room total).2.1 file (List.mem_append_right _ member), rfl, by omega,
      by omega⟩
  rintro - i8 ⟨c8, b8, l8, h8, g8⟩
  have small : i8.freeblock < BPB := by
    obtain ⟨_, _, good⟩ := h8
    have := good.small
    omega
  refine ensures_bind (ensures_rinode (by omega) (ensures_bind (ensures_winode (by omega) ?_)))
  simp only [wp_bind, wp_get]
  unfold balloc
  refine ensures_bind (ensures_assert (fun broken => absurd small broken) fun _ => ?_)
  refine ensures_wsect ⟨i8, ⟨by omega, small, l8, h8, ?_⟩, rfl⟩
  rw [g8.2 ROOTINO (root (by omega)) other.symm, g7.1]
  omega

theorem bit_usedBits {used : Nat} (small : used ≤ BPB) (b : Nat) :
    Format.bit (usedBits used) b = decide (b < used) := by
  induction used with
  | zero =>
    rw [usedBits, Format.bit_eq_testBit]
    simp
  | succ used ih =>
    rw [usedBits, Format.bit_setBit _ (by omega), ih (by omega)]
    by_cases last : b = used
    · simp [last]
    · have same : b < used + 1 ↔ b < used := by omega
      simp [last, same]

theorem Laid.filled_iff {blocks : Nat → Block} {freeblock : Nat}
    (laid : Laid blocks freeblock nodes shape owner) {count fbn : Nat}
    (count_eq : shape inum = Shape.of count) (short : count ≤ MAXFILE) :
    (∃ at', place fbn = some at' ∧ addr blocks (nodes inum) at' ≠ 0) ↔ fbn < count := by
  have used := laid.used inum
  rw [count_eq] at used
  simp only [used]
  simp only [MAXFILE] at short
  unfold place
  split
  · simp [Shape.Used, Shape.of]
  · split
    · simp only [Option.some.injEq, exists_eq_left', Shape.Used, Shape.of]
      omega
    · simp only [reduceCtorEq, false_and, exists_false, false_iff]
      omega

theorem good_finish (good : Good image len nodes owner)
    (few : image.freeinode ≤ NINODES) (root : image.Allocated ROOTINO) :
    ∃ nodes', Laid (finish image).blocks image.freeblock nodes'
        (fun inum => Shape.of (blocksOf (len inum))) owner ∧
      (∀ inum, image.Allocated inum → (finish image).node inum = nodes' inum) ∧
      (nodes' ROOTINO).size.toNat = (len ROOTINO / BSIZE + 1) * BSIZE ∧
      ∀ inum, image.Allocated inum → inum ≠ ROOTINO → (nodes' inum).size.toNat = len inum := by
  obtain ⟨root_eq, size_eq⟩ := good.stored ROOTINO root
  have below : ∀ {b}, b ≤ superblock.bmapstart → b < nmeta := fun {b} le =>
    lt_of_le_of_lt le (by decide)
  refine ⟨update nodes ROOTINO { image.node ROOTINO with
    size := .ofNat ((((image.node ROOTINO).size.toNat) / BSIZE + 1) * BSIZE) }, ?_, ?_, ?_, ?_⟩
  · have replaced : Laid image.blocks image.freeblock (update nodes ROOTINO
        { image.node ROOTINO with
          size := .ofNat ((((image.node ROOTINO).size.toNat) / BSIZE + 1) * BSIZE) })
        (fun inum => Shape.of (blocksOf (len inum))) owner :=
      good.laid.replace fun at' => by rw [root_eq]; cases at' <;> rfl
    exact (replaced.write_meta _ (below (iblock_lt_bmapstart (lt_of_lt_of_le root.2 few)).le)).write_meta
      _ (below le_rfl)
  · intro inum allocated
    have block : IBLOCK inum superblock ≠ superblock.bmapstart :=
      (iblock_lt_bmapstart (lt_of_lt_of_le allocated.2 few)).ne
    have kept : (finish image).node inum = (image.putNode ROOTINO { image.node ROOTINO with
        size := .ofNat ((((image.node ROOTINO).size.toNat) / BSIZE + 1) * BSIZE) }).node inum := by
      simp only [finish, Image.node, update_of_ne block]
    rw [kept, node_putNode]
    rcases eq_or_ne inum ROOTINO with rfl | different
    · rw [if_pos rfl, update_self]
    · rw [if_neg different, update_of_ne different]
      exact (good.stored inum allocated).1
  · have short := good.short ROOTINO
    have bound : MAXFILE * BSIZE + BSIZE < UInt32.size := by decide
    rw [update_self, root_eq, size_eq]
    refine UInt32.toNat_ofNat_of_lt' ?_
    simp only [BSIZE] at *
    omega
  · intro inum allocated different
    rw [update_of_ne different]
    exact (good.stored inum allocated).2

theorem consistent_finish_iff {txt bin : List HostFile}
    (filled : Filled txt bin image) (few : 4 + txt.length + bin.length < NINODES) :
    Consistent (finish image) ↔ (5 + txt.length) % 32 ≠ 0 := by
  obtain ⟨inodes, bits, len, ⟨nodes, owner, good⟩, rootLen⟩ := filled
  have root : image.Allocated ROOTINO := by
    have : ROOTINO = 1 := rfl
    exact ⟨le_rfl, by omega⟩
  obtain ⟨nodes', laid, stored, rootSize, sizes⟩ := good_finish good (by omega) root
  have count : ∀ inum fbn, (∃ at', place fbn = some at' ∧
      addr (finish image).blocks (nodes' inum) at' ≠ 0) ↔ fbn < blocksOf (len inum) := by
    intro inum fbn
    refine laid.filled_iff rfl ?_
    have short := good.short inum
    simp only [blocksOf, BSIZE] at short ⊢
    omega
  have rootBlocks : blocksOf (nodes' ROOTINO).size.toNat = len ROOTINO / BSIZE + 1 := by
    rw [rootSize]
    simp only [blocksOf, BSIZE]
    omega
  constructor
  · intro consistent aligned
    have last := consistent.filled ROOTINO root (len ROOTINO / BSIZE)
    rw [stored ROOTINO root, rootBlocks] at last
    have below := (count ROOTINO _).mp (last (Nat.lt_succ_self _))
    rw [rootLen] at below
    simp only [blocksOf, BSIZE] at below
    omega
  · intro unaligned
    refine ⟨fun b _ below => ?_, fun inum allocated => ?_, fun inum allocated fbn below => ?_,
      fun inum allocated at' used => ?_, fun inum other allocated allocated' at' at'' used same => ?_,
      fun b _ => ?_⟩
    · exact lt_of_lt_of_le below good.small
    · have below : inum < image.freeinode := allocated.2
      have ninodes : superblock.ninodes = NINODES := rfl
      omega
    · have allocated : image.Allocated inum := allocated
      rw [stored inum allocated] at below ⊢
      rw [count]
      rcases eq_or_ne inum ROOTINO with rfl | different
      · rw [rootBlocks, rootLen] at below
        rw [rootLen]
        simp only [blocksOf, BSIZE] at below ⊢
        omega
      · rwa [sizes inum allocated different] at below
    · have allocated : image.Allocated inum := allocated
      rw [stored inum allocated] at used ⊢
      exact (laid.owned inum at' used).1
    · have allocated : image.Allocated inum := allocated
      have allocated' : image.Allocated other := allocated'
      rw [stored inum allocated] at used same
      rw [stored other allocated'] at same
      exact laid.place_eq used same
    · have written : (finish image).blocks superblock.bmapstart = usedBits image.freeblock := by
        simp only [finish, update_self, Image.putNode]
      rw [written, bit_usedBits bits.le]
      rfl

/-! ## The number of inodes -/

/-- The program hands out a number of inodes, whatever else it does. -/
def HandsOut {α : Type} (program : Build α) (count : Nat) : Prop :=
  ∀ image, Ensures True program (fun _ after => after.freeinode = image.freeinode + count) image

namespace HandsOut

variable {α β : Type}

theorem pure (value : α) : HandsOut (Pure.pure value) 0 := fun _ => rfl

theorem bind {program : Build α} {next : α → Build β} {first second : Nat}
    (before : HandsOut program first) (after : ∀ value, HandsOut (next value) second) :
    HandsOut (program >>= next) (first + second) := by
  intro image
  refine ensures_bind (ensures_mono (before image) fun value between counted => ?_)
  refine ensures_mono (after value between) fun _ last counted' => ?_
  omega

theorem assert (condition : Prop) [Decidable condition] (message : String) :
    HandsOut (Mkfs.assert condition message) 0 := fun _ =>
  ensures_assert (fun _ => trivial) fun _ => rfl

theorem rsect (sec : Nat) : HandsOut (Mkfs.rsect sec) 0 := fun _ =>
  ensures_rsect (fun _ => trivial) fun _ => rfl

theorem wsect (sec : Nat) (block : Block) : HandsOut (Mkfs.wsect sec block) 0 := fun _ => rfl

theorem takeBlock : HandsOut Mkfs.takeBlock 0 := fun _ => rfl

theorem winode (inum : Nat) (node : Dinode) : HandsOut (Mkfs.winode inum node) 0 :=
  (rsect _).bind fun _ => wsect _ _

theorem rinode (inum : Nat) : HandsOut (Mkfs.rinode inum) 0 := (rsect _).bind fun _ => pure _

theorem ialloc (root : Bool) (type : UInt16) (user group other : UInt8) :
    HandsOut (Mkfs.ialloc root type user group other) 1 := by
  intro image
  simp only [Mkfs.ialloc, Ensures, wp_bind, wp_get, wp_modify]
  exact winode _ _ _

theorem entryBlock (node : Dinode) (fbn : Nat) : HandsOut (Mkfs.entryBlock node fbn) 0 := by
  have both : HandsOut (Mkfs.entryBlock node fbn) (0 + 0) := (rsect _).bind fun indirect => by
    split
    · exact takeBlock.bind fun x => (wsect _ _).bind fun _ => pure _
    · exact pure _
  exact both

theorem fileBlock (node : Dinode) (fbn : Nat) : HandsOut (Mkfs.fileBlock node fbn) 0 := by
  by_cases direct : fbn < NDIRECT
  · simp only [Mkfs.fileBlock, dif_pos direct]
    split
    · exact takeBlock.bind fun x => pure _
    · exact pure _
  · rw [fileBlock_eq_entryBlock direct]
    refine bind ?_ fun node => entryBlock node fbn
    split
    · exact takeBlock.bind fun x => pure _
    · exact pure _

theorem appendFrom (fuel : Nat) (node : Dinode) (off : Nat) (bytes : List UInt8) :
    HandsOut (Mkfs.appendFrom fuel node off bytes) 0 := by
  induction fuel generalizing node off bytes with
  | zero => exact pure _
  | succ fuel ih =>
    simp only [Mkfs.appendFrom]
    split
    · exact (assert _ _).bind fun _ => (fileBlock _ _).bind fun _ =>
        (rsect _).bind fun _ => (wsect _ _).bind fun _ => ih _ _ _
    · exact pure _

theorem iappend (inum : Nat) (bytes : List UInt8) : HandsOut (Mkfs.iappend inum bytes) 0 :=
  (rinode inum).bind fun _ => (appendFrom _ _ _ _).bind fun _ => winode _ _

theorem appendData (inum fuel : Nat) (data : List UInt8) :
    HandsOut (Mkfs.appendData inum fuel data) 0 := by
  induction fuel generalizing data with
  | zero => exact pure _
  | succ fuel ih =>
    simp only [Mkfs.appendData]
    split
    · exact (iappend _ _).bind fun _ => ih _
    · exact pure _

theorem file_apped (ino : Nat) (file : HostFile) : HandsOut (Mkfs.file_apped ino file) 1 :=
  (assert _ _).bind fun _ => (assert _ _).bind fun _ => (ialloc _ _ _ _ _).bind fun _ =>
    (iappend _ _).bind fun _ => appendData _ _ _

theorem appendFiles (ino : Nat) (files : List HostFile) :
    HandsOut (Mkfs.appendFiles ino files) files.length := by
  induction files with
  | nil => exact pure _
  | cons file files ih =>
    rw [List.length_cons, add_comm]
    exact (file_apped ino file).bind fun _ => ih

theorem rootDir (name : List UInt8) : HandsOut (Mkfs.rootDir name) 1 :=
  (ialloc _ _ _ _ _).bind fun _ => (iappend _ _).bind fun _ => pure _

theorem balloc (used : Nat) : HandsOut (Mkfs.balloc used) 0 := (assert _ _).bind fun _ => wsect _ _

theorem get : HandsOut (MonadState.get : Build Image) 0 := fun _ => rfl

/-- Besides the inodes of the files there are those of four directories. -/
theorem main (txt bin : List HostFile) :
    HandsOut (Mkfs.main txt bin) (4 + txt.length + bin.length) := by
  have total : 4 + txt.length + bin.length = 0 + (1 + (0 + (0 + (0 + (1 + (1 + (1 + (txt.length +
      (bin.length + (0 + (0 + (0 + 0)))))))))))) := by omega
  rw [total]
  exact (assert _ _).bind fun _ => (ialloc _ _ _ _ _).bind fun _ => (assert _ _).bind fun _ =>
    (iappend _ _).bind fun _ => (iappend _ _).bind fun _ => (rootDir _).bind fun _ =>
    (rootDir _).bind fun _ => (rootDir _).bind fun _ => (appendFiles _ _).bind fun _ =>
    (appendFiles _ _).bind fun _ => (rinode _).bind fun _ => (winode _ _).bind fun _ =>
    get.bind fun _ => balloc _

end HandsOut

theorem main_of_build {txt bin : List HostFile} (built : build txt bin = some image) :
    main txt bin blank = .ok () image := by
  unfold build at built
  cases ended : main txt bin blank with
  | ok value after =>
    rw [ended] at built
    rw [Option.some.inj built]
  | error message after =>
    rw [ended] at built
    simp at built

/-- An image of `mkfs` is consistent iff the inodes fit into the table and the root's entries do not
fill its last block. -/
theorem consistent_iff {txt bin : List HostFile} {image : Image}
    (built : build txt bin = some image) :
    Consistent image ↔ 4 + txt.length + bin.length < NINODES ∧ (5 + txt.length) % 32 ≠ 0 := by
  have ended := main_of_build built
  by_cases few : 4 + txt.length + bin.length < NINODES
  · obtain ⟨image', filled, rfl⟩ := post_of_wp
      (ensures_main holds_blank rfl few fun total => absurd trivial total) ended
    rw [consistent_finish_iff filled few]
    exact (and_iff_right few).symm
  · have inodes : image.freeinode = blank.freeinode + (4 + txt.length + bin.length) := by
      have counted := post_of_wp (HandsOut.main txt bin blank) ended
      exact counted
    have start : blank.freeinode = 1 := rfl
    refine iff_of_false (fun consistent => ?_) fun both => few both.1
    have last := consistent.inodes_inside (4 + txt.length + bin.length) ⟨by omega, by omega⟩
    exact few last

/-- `mkfs` finishes on empty files with good names. -/
theorem build_tame {txt bin : List HostFile} (few : 4 + txt.length + bin.length < NINODES)
    (some : bin ≠ []) (tame : ∀ file ∈ txt ++ bin, Tame file) :
    ∃ image, Filled txt bin image ∧ build txt bin = Option.some (finish image) := by
  have ends := ensures_main holds_blank rfl few fun _ : ¬False => ⟨some, tame, rfl⟩
  obtain ⟨value, image, ended, image', filled, rfl⟩ := Program.returns_of_wp ends
  exact ⟨image', filled, by rw [build, ended]⟩

/-- An empty file with the name `a`. -/
def plain : HostFile := ⟨[0x61], []⟩

theorem tame_plain : Tame plain := by
  refine ⟨?_, ?_, rfl⟩ <;> decide

theorem consistent_one_file : ∃ image, build [] [plain] = some image ∧ Consistent image := by
  have tame : ∀ file ∈ [] ++ [plain], Tame file := by simpa using tame_plain
  obtain ⟨image, -, built⟩ := build_tame (by decide) (by simp) tame
  exact ⟨finish image, built, (consistent_iff built).mpr (by decide)⟩

/-- With 27 text files the root directory has 32 entries, and its rounded size a block too many. -/
theorem not_consistent_full_root :
    ∃ image, build (List.replicate 27 plain) [plain] = some image ∧ ¬Consistent image := by
  have tame : ∀ file ∈ List.replicate 27 plain ++ [plain], Tame file := by
    intro file member
    have same : file = plain := by simpa using member
    rw [same]
    exact tame_plain
  have few : 4 + (List.replicate 27 plain).length + [plain].length < NINODES := by decide
  obtain ⟨image, filled, built⟩ := build_tame few (by simp) tame
  refine ⟨finish image, built, fun consistent => ?_⟩
  exact (consistent_finish_iff filled few).mp consistent (by decide)

end OsCpp.Mkfs
