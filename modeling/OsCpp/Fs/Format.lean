import Mathlib.Data.Nat.Bitwise
import OsCpp.Layout

/-!
# On-disk structures of the file system

Superblock, inodes, bitmap and directory entries of `kernel/include/kernel/fs`, as the bytes of a
block with the layout the compiler gives the C++ structures.
-/

namespace OsCpp

/-- Direct slots of an inode. -/
def NDIRECT : Nat := 12

/-- Entries of an indirect block. -/
def NINDIRECT : Nat := BSIZE / 4

/-- Largest number of blocks of a file. -/
def MAXFILE : Nat := NDIRECT + NINDIRECT

/-- Inodes per block. -/
def IPB : Nat := BSIZE / 128

/-- Bitmap bits per block. -/
def BPB : Nat := BSIZE * 8

/-- Bytes of a name in a directory entry. -/
def DIRSIZ : Nat := 14

/-- Blocks of the image. -/
def FSSIZE : Nat := 2000

def FSMAGIC : Nat := 0x10203040

def ROOTINO : Nat := 1

def T_DIR : UInt16 := 1

def T_FILE : UInt16 := 2

def T_DEVICE : UInt16 := 3

/-- `fs::superblock`. -/
structure Superblock where
  magic : Nat
  size : Nat
  nblocks : Nat
  ninodes : Nat
  nlog : Nat
  logstart : Nat
  inodestart : Nat
  bmapstart : Nat
  deriving DecidableEq

/-- Block containing an inode. -/
def IBLOCK (inum : Nat) (sb : Superblock) : Nat := inum / IPB + sb.inodestart

/-- Block of the free map containing the bit of a block. -/
def BBLOCK (b : Nat) (sb : Superblock) : Nat := b / BPB + sb.bmapstart

/-- `fs::dinode` without its padding. -/
@[ext]
structure Dinode where
  type : UInt16 := 0
  major : UInt16 := 0
  minor : UInt16 := 0
  nlink : UInt16 := 0
  size : UInt32 := 0
  uid : UInt32 := 0
  gid : UInt32 := 0
  mask_user : UInt8 := 0
  mask_group : UInt8 := 0
  mask_other : UInt8 := 0
  addrs : Fin (NDIRECT + 1) → UInt32 := fun _ => 0

def dinodeSize : Nat := 128

namespace Format

/-- Read the inode in a slot of an inode block. -/
def dinode (block : Block) (slot : Nat) : Dinode where
  type := .ofNat (block.field 2 (dinodeSize * slot))
  major := .ofNat (block.field 2 (dinodeSize * slot + 2))
  minor := .ofNat (block.field 2 (dinodeSize * slot + 4))
  nlink := .ofNat (block.field 2 (dinodeSize * slot + 6))
  size := .ofNat (block.field 4 (dinodeSize * slot + 8))
  uid := .ofNat (block.field 4 (dinodeSize * slot + 12))
  gid := .ofNat (block.field 4 (dinodeSize * slot + 16))
  mask_user := .ofNat (block.field 1 (dinodeSize * slot + 20))
  mask_group := .ofNat (block.field 1 (dinodeSize * slot + 21))
  mask_other := .ofNat (block.field 1 (dinodeSize * slot + 22))
  addrs := fun index => .ofNat (block.field 4 (dinodeSize * slot + 24 + 4 * index))

/-- The array of addresses as bytes. -/
def addrBytes (addrs : Fin (NDIRECT + 1) → UInt32) : List UInt8 :=
  (List.ofFn addrs).flatMap fun addr => Bytes.toLE 4 addr.toNat

/-- Store an inode in a slot of an inode block, field by field. -/
def setDinode (block : Block) (slot : Nat) (node : Dinode) : Block :=
  ((((((((((block.setField 2 (dinodeSize * slot) node.type.toNat).setField
    2 (dinodeSize * slot + 2) node.major.toNat).setField
    2 (dinodeSize * slot + 4) node.minor.toNat).setField
    2 (dinodeSize * slot + 6) node.nlink.toNat).setField
    4 (dinodeSize * slot + 8) node.size.toNat).setField
    4 (dinodeSize * slot + 12) node.uid.toNat).setField
    4 (dinodeSize * slot + 16) node.gid.toNat).setField
    1 (dinodeSize * slot + 20) node.mask_user.toNat).setField
    1 (dinodeSize * slot + 21) node.mask_group.toNat).setField
    1 (dinodeSize * slot + 22) node.mask_other.toNat).splice
    (dinodeSize * slot + 24) (addrBytes node.addrs)

/-- Clear a slot of an inode block and give it a type. -/
def newDinode (block : Block) (slot : Nat) (type : UInt16) : Block :=
  (block.splice (dinodeSize * slot) (List.replicate dinodeSize 0)).setField
    2 (dinodeSize * slot) type.toNat

theorem addrBytes_eq (addrs : Fin (NDIRECT + 1) → UInt32) :
    addrBytes addrs = (List.ofFn fun index => (addrs index).toNat).flatMap (Bytes.toLE 4) := by
  have words : (List.ofFn fun index => (addrs index).toNat) = (List.ofFn addrs).map UInt32.toNat := by
    rw [List.map_ofFn]
    rfl
  rw [addrBytes, words, List.flatMap_map]

theorem length_addrBytes (addrs : Fin (NDIRECT + 1) → UInt32) : (addrBytes addrs).length = 52 := by
  rw [addrBytes_eq, Bytes.length_flatMap_toLE, List.length_ofFn]
  rfl

private theorem ofNat_mod_8 (value : UInt8) : UInt8.ofNat (value.toNat % 256 ^ 1) = value := by
  rw [Nat.mod_eq_of_lt (by simpa using value.toNat_lt), UInt8.ofNat_toNat]

private theorem ofNat_mod_16 (value : UInt16) : UInt16.ofNat (value.toNat % 256 ^ 2) = value := by
  rw [Nat.mod_eq_of_lt (by simpa using value.toNat_lt), UInt16.ofNat_toNat]

private theorem ofNat_mod_32 (value : UInt32) : UInt32.ofNat (value.toNat % 256 ^ 4) = value := by
  rw [Nat.mod_eq_of_lt (by simpa using value.toNat_lt), UInt32.ofNat_toNat]

private theorem slot_bound {slot : Nat} (slot_lt : slot < IPB) :
    dinodeSize * slot + 128 ≤ BSIZE := by
  simp only [IPB, BSIZE, dinodeSize] at slot_lt ⊢
  omega

theorem dinode_setDinode (block : Block) {slot : Nat} (slot_lt : slot < IPB) (node : Dinode) :
    dinode (setDinode block slot node) slot = node := by
  have bound := slot_bound slot_lt
  have addrs_length := length_addrBytes node.addrs
  have addrs (index : Fin (NDIRECT + 1)) :
      (setDinode block slot node).field 4 (dinodeSize * slot + 24 + 4 * index) =
        (node.addrs index).toNat % 256 ^ 4 := by
    have count : (List.ofFn fun index => (node.addrs index).toNat).length = 13 := List.length_ofFn
    have inside : index.val < (List.ofFn fun index => (node.addrs index).toNat).length := by
      rw [count]
      exact index.isLt
    rw [setDinode, addrBytes_eq, Bytes.field_splice_flatMap_toLE _ _ _ _ index inside
      (by rw [count]; omega), List.getElem_ofFn]
  apply Dinode.ext
  case addrs =>
    funext index
    simp only [dinode, addrs, ofNat_mod_32]
  all_goals
    simp (disch := omega) only [dinode, setDinode, Bytes.field_splice_of_disjoint,
      Bytes.field_setField, Bytes.field_setField_of_disjoint, ofNat_mod_8, ofNat_mod_16,
      ofNat_mod_32]

private theorem slots_apart {slot other : Nat} (different : other ≠ slot) :
    dinodeSize * other + 128 ≤ dinodeSize * slot ∨ dinodeSize * slot + 128 ≤ dinodeSize * other := by
  simp only [dinodeSize]
  omega

theorem dinode_congr {block changed : Block} {slot : Nat}
    (same : ∀ width offset, offset + width ≤ 128 →
      changed.field width (dinodeSize * slot + offset) =
        block.field width (dinodeSize * slot + offset)) :
    dinode changed slot = dinode block slot := by
  apply Dinode.ext
  case addrs =>
    funext index
    have index_lt : index.val < 13 := index.isLt
    have read := same 4 (24 + 4 * index) (by omega)
    rw [← add_assoc] at read
    simp only [dinode, read]
  case type => simpa only [dinode, add_zero] using congrArg UInt16.ofNat (same 2 0 (by omega))
  all_goals simp (disch := omega) only [dinode, same]

theorem dinode_setDinode_of_ne (block : Block) {slot other : Nat} (different : other ≠ slot)
    (node : Dinode) : dinode (setDinode block slot node) other = dinode block other := by
  have apart := slots_apart different
  have addrs_length := length_addrBytes node.addrs
  apply dinode_congr
  intro width offset inside
  simp (disch := omega) only [setDinode, Bytes.field_splice_of_disjoint,
    Bytes.field_setField_of_disjoint]

/-- Mask of a bit within its byte. -/
def bitMask (bi : Nat) : UInt8 := 1 <<< UInt8.ofNat (bi % 8)

def bit (block : Block) (bi : Nat) : Bool := block.get (bi / 8) &&& bitMask bi ≠ 0

def setBit (block : Block) (bi : Nat) : Block :=
  block.splice (bi / 8) [block.get (bi / 8) ||| bitMask bi]

def clearBit (block : Block) (bi : Nat) : Block :=
  block.splice (bi / 8) [block.get (bi / 8) &&& ~~~bitMask bi]

theorem toNat_bitMask (bi : Nat) : (bitMask bi).toNat = 2 ^ (bi % 8) := by
  have small : bi % 8 < 8 := Nat.mod_lt _ (by decide)
  have all : ∀ place < 8, ((1 : UInt8) <<< UInt8.ofNat place).toNat = 2 ^ place := by decide
  exact all _ small

theorem bit_eq_testBit (block : Block) (bi : Nat) :
    bit block bi = (block.get (bi / 8)).toNat.testBit (bi % 8) := by
  have masked : (block.get (bi / 8) &&& bitMask bi).toNat =
      ((block.get (bi / 8)).toNat.testBit (bi % 8)).toNat * 2 ^ (bi % 8) := by
    rw [UInt8.toNat_and, toNat_bitMask, Nat.and_two_pow]
  rw [bit, Bool.eq_iff_iff, decide_eq_true_iff, ne_eq, ← UInt8.toNat_inj, masked]
  cases (block.get (bi / 8)).toNat.testBit (bi % 8) <;> simp

theorem bit_splice (block : Block) {bi other : Nat} (bi_lt : bi < BPB) (byte : UInt8) :
    bit (block.splice (bi / 8) [byte]) other =
      if other / 8 = bi / 8 then byte.toNat.testBit (other % 8) else bit block other := by
  have inside : bi / 8 + [byte].length ≤ BSIZE := by
    simp only [BPB, BSIZE, List.length_singleton] at bi_lt ⊢
    omega
  rw [bit_eq_testBit]
  split
  case isTrue same =>
    have read := Bytes.get_splice_inside block [byte] inside (show 0 < [byte].length by simp)
    rw [same]
    simp only [add_zero] at read
    rw [read]
    rfl
  case isFalse different =>
    have untouched : (block.splice (bi / 8) [byte]).get (other / 8) = block.get (other / 8) := by
      rcases Nat.lt_or_gt_of_ne different with early | late
      · exact Bytes.get_splice_of_lt block [byte] early
      · exact Bytes.get_splice_of_le block [byte] late
    rw [untouched, bit_eq_testBit]

private theorem eq_iff_place {bi other : Nat} (same : other / 8 = bi / 8) :
    other = bi ↔ bi % 8 = other % 8 := by
  omega

theorem bit_setBit (block : Block) {bi : Nat} (bi_lt : bi < BPB) (other : Nat) :
    bit (setBit block bi) other = if other = bi then true else bit block other := by
  rw [setBit, bit_splice block bi_lt]
  by_cases same : other / 8 = bi / 8
  · rw [if_pos same, UInt8.toNat_or, toNat_bitMask, Nat.testBit_or, Nat.testBit_two_pow,
      bit_eq_testBit, same]
    simp only [eq_iff_place same]
    split <;> simp [*]
  · rw [if_neg same, if_neg fun equal => same (by rw [equal])]

theorem testBit_not_bitMask (bi : Nat) {place : Nat} (place_lt : place < 8) :
    (~~~bitMask bi).toNat.testBit place = decide (bi % 8 ≠ place) := by
  have all : ∀ position < 8, ∀ place < 8,
      (~~~((1 : UInt8) <<< UInt8.ofNat position)).toNat.testBit place =
        decide (position ≠ place) := by
    decide
  exact all _ (Nat.mod_lt _ (by decide)) _ place_lt

theorem bit_clearBit (block : Block) {bi : Nat} (bi_lt : bi < BPB) (other : Nat) :
    bit (clearBit block bi) other = if other = bi then false else bit block other := by
  rw [clearBit, bit_splice block bi_lt]
  by_cases same : other / 8 = bi / 8
  · rw [if_pos same, UInt8.toNat_and, Nat.testBit_and,
      testBit_not_bitMask bi (Nat.mod_lt _ (by decide)), bit_eq_testBit, same]
    simp only [eq_iff_place same]
    split <;> simp [*]
  · rw [if_neg same, if_neg fun equal => same (by rw [equal])]

end Format

/-- A directory entry, `fs::dirent`, as its 32 bytes. -/
abbrev Dirent := Bytes 32

namespace Dirent

def size : Nat := 32

/-- Inode number, zero in a free entry. -/
def inum (entry : Dirent) : Nat := entry.field 2 0

def name (entry : Dirent) : List UInt8 := entry.slice 15 DIRSIZ

def setInum (entry : Dirent) (inum : Nat) : Dirent := entry.setField 2 0 inum

def setName (entry : Dirent) (name : List UInt8) : Dirent := entry.splice 15 name

/-- Copy owner and masks of an inode. -/
def setOwner (entry : Dirent) (node : Dinode) : Dirent :=
  ((((entry.setField 4 4 node.uid.toNat).setField 4 8 node.gid.toNat).setField
    1 12 node.mask_user.toNat).setField 1 13 node.mask_group.toNat).setField
    1 14 node.mask_other.toNat

end Dirent

/-- `std::strncmp`; strings end with their list. -/
def strncmp : Nat → List UInt8 → List UInt8 → Int
  | 0, _, _ => 0
  | count + 1, lhs, rhs =>
    if lhs.headD 0 ≠ 0 ∧ lhs.headD 0 = rhs.headD 0 then strncmp count lhs.tail rhs.tail
    else (lhs.headD 0).toNat - (rhs.headD 0).toNat

/-- `std::strncpy`: the bytes its first loop stores, and how many zeros the second one; the counter
may wrap. -/
def strncpy : List UInt8 → Nat → List UInt8 × Nat
  | _, 0 => ([], 2 ^ 32 - 1)
  | [], count + 1 => ([0], count)
  | c :: src, count + 1 =>
    let (bytes, zeros) := strncpy src count
    (c :: bytes, zeros)

end OsCpp
