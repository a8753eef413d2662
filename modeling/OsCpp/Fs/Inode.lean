import OsCpp.Fs.Kernel
import Mathlib.Data.List.FinRange

/-!
# Blocks, inodes and file contents

`kernel/fs.cpp` up to `writei`.  There is one disk, so the device number every function passes on is
left out.  An inode pointer is the index of its entry in `itable`.
-/

namespace OsCpp.Fs

open Function (update)

def bzero (bno : Nat) : Prog Unit := do
  bread bno
  setData bno (Bytes.zero BSIZE)
  lwrite bno
  brelse bno

/-- Inner loop of `balloc`: the first clear bit from `bi` on, within the block and the disk. -/
def clearBitFrom (block : Block) (b size : Nat) : Nat → Nat → Option Nat
  | 0, _ => none
  | fuel + 1, bi =>
    if bi < BPB ∧ b + bi < size then
      if Format.bit block bi then clearBitFrom block b size fuel (bi + 1) else some bi
    else none

/-- Outer loop of `balloc`, over the bitmap blocks. -/
def ballocFrom (sb : Superblock) : Nat → Nat → Prog Nat
  | 0, _ => pure 0
  | fuel + 1, b =>
    if b < sb.size then do
      bread (BBLOCK b sb)
      let block ← bufData (BBLOCK b sb)
      match clearBitFrom block b sb.size BPB 0 with
      | some bi => do
          setData (BBLOCK b sb) (Format.setBit block bi)
          lwrite (BBLOCK b sb)
          brelse (BBLOCK b sb)
          bzero (b + bi)
          pure (b + bi)
      | none => do
          brelse (BBLOCK b sb)
          ballocFrom sb fuel (b + BPB)
    else pure 0

/-- `fs::balloc`: the block allocated, or zero. -/
def balloc : Prog Nat := do
  let s ← get
  ballocFrom s.sb s.sb.size 0

/-- `fs::bfree`; the test looks at byte `bi % 8`, not at the byte of the bit. -/
def bfree (b : Nat) : Prog Unit := do
  let s ← get
  bread (BBLOCK b s.sb)
  let block ← bufData (BBLOCK b s.sb)
  let bi := b % BPB
  check (block.get (bi % 8) &&& Format.bitMask bi ≠ 0) (.panic "fs::bfree: it's free")
  setData (BBLOCK b s.sb) (Format.clearBit block bi)
  lwrite (BBLOCK b s.sb)
  brelse (BBLOCK b s.sb)

/-- Read an entry of `itable`. -/
def inode (ip : Fin NINODE) : Prog Inode := do
  return (← get).itable ip

def setInode (ip : Fin NINODE) (entry : Inode) : Prog Unit :=
  modify fun s => { s with itable := update s.itable ip entry }

/-- Replace the copy of the on-disk inode in an entry of `itable`. -/
def setNode (ip : Fin NINODE) (node : Dinode) : Prog Unit :=
  modify fun s => { s with itable := update s.itable ip { s.itable ip with node := node } }

/-- The loop of `iget`: the entry that already holds the inode, or the first unreferenced one. -/
def findInode (itable : Fin NINODE → Inode) (inum : Nat) : Option (Fin NINODE) :=
  match (List.finRange NINODE).find? fun ip => 0 < (itable ip).ref ∧ (itable ip).inum = inum with
  | some ip => some ip
  | none => (List.finRange NINODE).find? fun ip => (itable ip).ref = 0

def iget (inum : Nat) : Prog (Fin NINODE) := do
  let s ← get
  let some ip := findInode s.itable inum | throw (.panic "fs::iget: no inode")
  let entry := s.itable ip
  if 0 < entry.ref then setInode ip { entry with ref := entry.ref + 1 }
  else setInode ip { entry with inum := inum, ref := 1, valid := false }
  return ip

def iallocFrom (type : UInt16) : Nat → Nat → Prog (Option (Fin NINODE))
  | 0, _ => pure none
  | fuel + 1, inum => do
    let s ← get
    unless inum < s.sb.ninodes do return none
    bread (IBLOCK inum s.sb)
    let block ← bufData (IBLOCK inum s.sb)
    if (Format.dinode block (inum % IPB)).type = 0 then
      setData (IBLOCK inum s.sb) (Format.newDinode block (inum % IPB) type)
      lwrite (IBLOCK inum s.sb)
      brelse (IBLOCK inum s.sb)
      return some (← iget inum)
    brelse (IBLOCK inum s.sb)
    iallocFrom type fuel (inum + 1)

def ialloc (type : UInt16) : Prog (Option (Fin NINODE)) := do
  let s ← get
  iallocFrom type s.sb.ninodes 1

def iupdate (ip : Fin NINODE) : Prog Unit := do
  let s ← get
  let entry := s.itable ip
  bread (IBLOCK entry.inum s.sb)
  let block ← bufData (IBLOCK entry.inum s.sb)
  setData (IBLOCK entry.inum s.sb) (Format.setDinode block (entry.inum % IPB) entry.node)
  lwrite (IBLOCK entry.inum s.sb)
  brelse (IBLOCK entry.inum s.sb)

def idup (ip : Fin NINODE) : Prog (Fin NINODE) := do
  let entry ← inode ip
  setInode ip { entry with ref := entry.ref + 1 }
  pure ip

def lockInode (ip : Fin NINODE) : Prog Unit := do
  let s ← get
  check ((s.itable ip).lock = none) (.blocked "inode lock")
  setInode ip { s.itable ip with lock := some s.curr }

/-- Release the sleep-lock of an inode. -/
def unlockInode (ip : Fin NINODE) : Prog Unit := do
  let entry ← inode ip
  setInode ip { entry with lock := none }

def ilock (ip : Fin NINODE) : Prog Unit := do
  let entry ← inode ip
  check (1 ≤ entry.ref) (.panic "fs::ilock")
  lockInode ip
  unless entry.valid do
    let s ← get
    bread (IBLOCK entry.inum s.sb)
    let block ← bufData (IBLOCK entry.inum s.sb)
    setNode ip (Format.dinode block (entry.inum % IPB))
    brelse (IBLOCK entry.inum s.sb)
    let entry ← inode ip
    setInode ip { entry with valid := true }
    check (entry.node.type ≠ 0) (.panic "fs::ilock: no type")

def iunlock (ip : Fin NINODE) : Prog Unit := do
  let s ← get
  check ((s.itable ip).lock = some s.curr ∧ 1 ≤ (s.itable ip).ref) (.panic "fs::iunlock")
  unlockInode ip

/-- The loop of `itrunc` over the direct slots. -/
def freeDirect (ip : Fin NINODE) : List (Fin (NDIRECT + 1)) → Prog Unit
  | [] => pure ()
  | slot :: slots => do
      let entry ← inode ip
      if entry.node.addrs slot ≠ 0 then do
        bfree (entry.node.addrs slot).toNat
        setNode ip { entry.node with addrs := update entry.node.addrs slot 0 }
        freeDirect ip slots
      else freeDirect ip slots

/-- The loop of `itrunc` over the indirect block, which frees that block itself for every entry. -/
def freeIndirect (addr : Nat) (block : Block) : List Nat → Prog Unit
  | [] => pure ()
  | j :: js =>
    if block.field 4 (4 * j) ≠ 0 then do
      bfree addr
      freeIndirect addr block js
    else freeIndirect addr block js

/-- The direct slots in the order of the loop. -/
def directSlots : List (Fin (NDIRECT + 1)) := (List.finRange NDIRECT).map Fin.castSucc

def indirectSlot : Fin (NDIRECT + 1) := Fin.last NDIRECT

def itrunc (ip : Fin NINODE) : Prog Unit := do
  let entry ← inode ip
  note (.itrunc (entry.node.addrs indirectSlot ≠ 0))
  freeDirect ip directSlots
  let entry ← inode ip
  if entry.node.addrs indirectSlot ≠ 0 then do
    let addr := (entry.node.addrs indirectSlot).toNat
    bread addr
    let block ← bufData addr
    freeIndirect addr block (List.range NDIRECT)
    brelse addr
    bfree addr
    setNode ip { entry.node with addrs := update entry.node.addrs indirectSlot 0 }
  else pure ()
  let entry ← inode ip
  setNode ip { entry.node with size := 0 }
  iupdate ip

def iput (ip : Fin NINODE) : Prog Unit := do
  let entry ← inode ip
  if entry.ref = 1 ∧ entry.valid ∧ entry.node.nlink = 0 then
    lockInode ip
    itrunc ip
    let entry ← inode ip
    setNode ip { entry.node with type := 0 }
    iupdate ip
    let entry ← inode ip
    setInode ip { entry with valid := false }
    unlockInode ip
  let entry ← inode ip
  setInode ip { entry with ref := entry.ref - 1 }

def iunlockput (ip : Fin NINODE) : Prog Unit := do
  iunlock ip
  iput ip

/-- The block in a slot of an inode; it is allocated if there is none. -/
def slotAddr (ip : Fin NINODE) (slot : Fin (NDIRECT + 1)) : Prog Nat := do
  let entry ← inode ip
  if entry.node.addrs slot ≠ 0 then return (entry.node.addrs slot).toNat
  let addr ← balloc
  if addr = 0 then return 0
  let entry ← inode ip
  setNode ip { entry.node with addrs := update entry.node.addrs slot (.ofNat addr) }
  return addr

/-- The block in an entry of the indirect block `addr`; it is allocated if there is none. -/
def entryAddr (addr index : Nat) : Prog Nat := do
  let block ← bufData addr
  if block.field 4 (4 * index) ≠ 0 then return block.field 4 (4 * index)
  let addr' ← balloc
  if addr' ≠ 0 then
    let block ← bufData addr
    setData addr (block.setField 4 (4 * index) addr')
    lwrite addr
  return addr'

/-- `fs::bmap`, with the two thresholds of the source; an index past `addrs` is undefined behaviour.
-/
def bmap (ip : Fin NINODE) (bn : Nat) : Prog Nat := do
  note (.bmap bn)
  if bn < NINDIRECT then
    if inside : bn < NDIRECT + 1 then return ← slotAddr ip ⟨bn, inside⟩
    throw (.undefined "ip->addrs[bn]")
  check (bn - NDIRECT < NDIRECT) (.panic "fs::bmap: out of range")
  let addr ← slotAddr ip indirectSlot
  if addr = 0 then return 0
  bread addr
  let addr' ← entryAddr addr (bn - NDIRECT)
  brelse addr
  return addr'

/-- Destination of `proc::either_copyout`: a kernel buffer, or user memory with the results of
`copyout`. -/
inductive Dest
  | kernel
  | user (writable : Nat → Nat → Bool) (addr : Nat)

/-- `proc::either_copyout`: the value returned. -/
def Dest.copyout : Dest → Nat → Nat → Int
  | .kernel, _, _ => 0
  | .user writable addr, done, len => if writable (addr + done) len then 1 else 0

/-- Source of `proc::either_copyin`: a kernel buffer, or user memory as the bytes that `vm::copyin`
finds there. -/
inductive Source
  | kernel (bytes : List UInt8)
  | user (memory : Nat → Option UInt8) (addr : Nat)

/-- The bytes `vm::copyin` copies: up to the first page that is not mapped. -/
def copyin (memory : Nat → Option UInt8) (addr : Nat) : Nat → List UInt8
  | 0 => []
  | len + 1 =>
    match memory addr with
    | none => []
    | some byte => byte :: copyin memory (addr + 1) len

/-- `proc::either_copyin`: the bytes copied and the value returned. -/
def Source.copyin : Source → Nat → Nat → List UInt8 × Int
  | .kernel bytes, done, len => ((bytes.drop done).take len, 0)
  | .user memory addr, done, len =>
    let bytes := Fs.copyin memory (addr + done) len
    (bytes, if bytes.length = len then 1 else 0)

/-- The loop of `readi`: the total, and the bytes handed to `either_copyout`. -/
def readBlocks (ip : Fin NINODE) (dst : Dest) (n : Nat) :
    Nat → Nat → Nat → List UInt8 → Prog (Nat × List UInt8)
  | 0, _, tot, bytes => pure (tot, bytes)
  | fuel + 1, offset, tot, bytes => do
    unless tot < n do return (tot, bytes)
    let addr ← bmap ip (offset / BSIZE)
    if addr = 0 then return (tot, bytes)
    bread addr
    let block ← bufData addr
    let m := min (n - tot) (BSIZE - offset % BSIZE)
    brelse addr
    if dst.copyout tot m = -1 then return (2 ^ 32 - 1, bytes)
    readBlocks ip dst n fuel (offset + m) (tot + m) (bytes ++ block.slice (offset % BSIZE) m)

/-- `fs::readi`: the value returned and the bytes copied. -/
def readi (ip : Fin NINODE) (dst : Dest) (offset n : Nat) : Prog (Nat × List UInt8) := do
  let entry ← inode ip
  if entry.node.size.toNat < offset ∨ (offset + n) % 2 ^ 32 < offset then return (0, [])
  let n := if entry.node.size.toNat < offset + n then entry.node.size.toNat - offset else n
  readBlocks ip dst n n offset 0 []

/-- The loop of `writei`: the offset reached and the total. -/
def writeBlocks (ip : Fin NINODE) (src : Source) (n : Nat) : Nat → Nat → Nat → Prog (Nat × Nat)
  | 0, offset, tot => pure (offset, tot)
  | fuel + 1, offset, tot => do
    unless tot < n do return (offset, tot)
    let addr ← bmap ip (offset / BSIZE)
    if addr = 0 then return (offset, tot)
    bread addr
    let block ← bufData addr
    let m := min (n - tot) (BSIZE - offset % BSIZE)
    let (bytes, result) := src.copyin tot m
    setData addr (block.splice (offset % BSIZE) bytes)
    if result = -1 then
      brelse addr
      return (offset, tot)
    lwrite addr
    brelse addr
    writeBlocks ip src n fuel (offset + m) (tot + m)

def writei (ip : Fin NINODE) (src : Source) (offset n : Nat) : Prog Int := do
  let entry ← inode ip
  if entry.node.size.toNat < offset ∨ (offset + n) % 2 ^ 32 < offset then return -1
  if MAXFILE * BSIZE < (offset + n) % 2 ^ 32 then return -1
  let (offset, tot) ← writeBlocks ip src n n offset 0
  let entry ← inode ip
  if entry.node.size.toNat < offset then setNode ip { entry.node with size := .ofNat offset }
  iupdate ip
  return tot

end OsCpp.Fs
