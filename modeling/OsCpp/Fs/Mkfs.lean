import OsCpp.Fs.Syscall
import OsCpp.Lib.Execution

/-!
# The image builder and the start of the kernel

`mkfs/mkfs.cpp`, and the state in which the kernel starts on an image.  The builder is a program over
the image and its two counters that stops where an assertion or a read past the end of the image
fails.
-/

namespace OsCpp
namespace Mkfs

open Function (update)

/-- Inodes of the image. -/
def NINODES : Nat := 200

def nbitmap : Nat := FSSIZE / BPB + 1

def ninodeblocks : Nat := NINODES / IPB + 1

def nlog : Nat := LOGSIZE

/-- Blocks in front of the data blocks. -/
def nmeta : Nat := 2 + nlog + ninodeblocks + nbitmap

/-- The superblock `main` writes. -/
def superblock : Superblock where
  magic := FSMAGIC
  size := FSSIZE
  nblocks := FSSIZE - nmeta
  ninodes := NINODES
  nlog := nlog
  logstart := 2
  inodestart := 2 + nlog
  bmapstart := 2 + nlog + ninodeblocks

/-- The image under construction. -/
structure Image where
  blocks : Nat → Block
  freeinode : Nat
  freeblock : Nat

/-- A piece of the builder. -/
abbrev Build := EStateM String Image

def assert (condition : Prop) [Decidable condition] (message : String) : Build Unit :=
  if condition then pure () else throw message

/-- `rsect`; the image is `FSSIZE` blocks long. -/
def rsect (sec : Nat) : Build Block := do
  assert (sec < FSSIZE) "rsect: fd.read error"
  return (← get).blocks sec

def wsect (sec : Nat) (block : Block) : Build Unit :=
  modify fun image => { image with blocks := update image.blocks sec block }

def winode (inum : Nat) (node : Dinode) : Build Unit := do
  let block ← rsect (IBLOCK inum superblock)
  wsect (IBLOCK inum superblock) (Format.setDinode block (inum % IPB) node)

def rinode (inum : Nat) : Build Dinode := do
  let block ← rsect (IBLOCK inum superblock)
  return Format.dinode block (inum % IPB)

def ialloc (root : Bool) (type : UInt16) (user group other : UInt8) : Build Nat := do
  let inum := (← get).freeinode
  modify fun image => { image with freeinode := inum + 1 }
  let owner : UInt32 := if root then 0 else 1000
  winode inum
    { type, nlink := 1, uid := owner, gid := owner
      mask_user := user, mask_group := group, mask_other := other }
  return inum

/-- `freeblock++`. -/
def takeBlock : Build Nat := do
  let taken := (← get).freeblock
  modify fun image => { image with freeblock := taken + 1 }
  return taken

/-- Disk block of a block of the file in `iappend`, allocated if need be, and the inode with it. -/
def fileBlock (node : Dinode) (fbn : Nat) : Build (Nat × Dinode) := do
  if direct : fbn < NDIRECT then
    let slot : Fin (NDIRECT + 1) := ⟨fbn, Nat.lt_succ_of_lt direct⟩
    if node.addrs slot = 0 then do
      let x ← takeBlock
      return (x, { node with addrs := update node.addrs slot (.ofNat x) })
    else return ((node.addrs slot).toNat, node)
  else do
    let node ←
      if node.addrs Fs.indirectSlot = 0 then do
        let x ← takeBlock
        pure { node with addrs := update node.addrs Fs.indirectSlot (.ofNat x) }
      else pure node
    let indirect ← rsect (node.addrs Fs.indirectSlot).toNat
    if indirect.field 4 (4 * (fbn - NDIRECT)) = 0 then do
      let x ← takeBlock
      wsect (node.addrs Fs.indirectSlot).toNat (indirect.setField 4 (4 * (fbn - NDIRECT)) x)
      return (x, node)
    else return (indirect.field 4 (4 * (fbn - NDIRECT)), node)

/-- The loop of `iappend`: the inode and the offset at its end. -/
def appendFrom : Nat → Dinode → Nat → List UInt8 → Build (Dinode × Nat)
  | 0, node, off, _ => pure (node, off)
  | fuel + 1, node, off, bytes =>
    if bytes ≠ [] then do
      let fbn := off / BSIZE
      assert (fbn < MAXFILE) "fbn < fs::MAXFILE"
      let (x, node) ← fileBlock node fbn
      let n1 := min bytes.length ((fbn + 1) * BSIZE - off)
      let buf ← rsect x
      wsect x (buf.splice (off - fbn * BSIZE) (bytes.take n1))
      appendFrom fuel node (off + n1) (bytes.drop n1)
    else pure (node, off)

def iappend (inum : Nat) (bytes : List UInt8) : Build Unit := do
  let node ← rinode inum
  let (node, off) ← appendFrom bytes.length node node.size.toNat bytes
  winode inum { node with size := .ofNat off }

/-- A file of the host system: its name in the image and its contents. -/
structure HostFile where
  name : List UInt8
  data : List UInt8

/-- A directory entry as `main` fills it in. -/
def entry (inum : Nat) (owner : UInt32) (user group other : UInt8) (name : List UInt8) : Dirent :=
  Dirent.setName
    (Dirent.setOwner (Dirent.setInum (Bytes.zero 32) inum)
      { uid := owner, gid := owner, mask_user := user, mask_group := group, mask_other := other })
    (name.take DIRSIZ)

/-- The loop of `file_apped` over the contents of the file, block by block. -/
def appendData (inum : Nat) : Nat → List UInt8 → Build Unit
  | 0, _ => pure ()
  | fuel + 1, data =>
    if data ≠ [] then do
      iappend inum (data.take BSIZE)
      appendData inum fuel (data.drop BSIZE)
    else pure ()

def initName : List UInt8 := [0x69, 0x6e, 0x69, 0x74]

def file_apped (ino : Nat) (file : HostFile) : Build Unit := do
  assert (Fs.slash ∉ file.name) "index(shortname, '/') == nullptr"
  assert (file.name.length ≤ DIRSIZ) "strlen(shortname) <= fs::DIRSIZ"
  let inum ← ialloc (file.name = initName) T_FILE 7 5 0
  iappend ino ((entry inum 1000 7 5 0 file.name).slice 0 Dirent.size)
  appendData inum file.data.length file.data

/-- `file_apped` for every file of a list. -/
def appendFiles (ino : Nat) : List HostFile → Build Unit
  | [] => pure ()
  | file :: files => do
      file_apped ino file
      appendFiles ino files

/-- A directory below the root. -/
def rootDir (name : List UInt8) : Build Nat := do
  let inum ← ialloc true T_DIR 7 7 7
  iappend ROOTINO ((entry inum 0 7 7 5 name).slice 0 Dirent.size)
  return inum

/-- Bitmap block with the bits of the first blocks set. -/
def usedBits : Nat → Block
  | 0 => Bytes.zero BSIZE
  | used + 1 => Format.setBit (usedBits used) used

def balloc (used : Nat) : Build Unit := do
  assert (used < BPB) "used < fs::BPB"
  wsect superblock.bmapstart (usedBits used)

/-- The superblock as the bytes of block 1. -/
def superblockBytes (sb : Superblock) : List UInt8 :=
  [sb.magic, sb.size, sb.nblocks, sb.ninodes, sb.nlog, sb.logstart, sb.inodestart,
    sb.bmapstart].flatMap (Bytes.toLE 4)

/-- The image after all blocks have been cleared and the superblock has been written. -/
def blank : Image where
  blocks := update (fun _ => Bytes.zero BSIZE) 1
    ((Bytes.zero BSIZE).splice 0 (superblockBytes superblock))
  freeinode := 1
  freeblock := nmeta

/-- `main` after its arguments have been read. -/
def main (txt bin : List HostFile) : Build Unit := do
  assert (bin ≠ []) "!bin_vec.empty()"
  let rootino ← ialloc true T_DIR 7 7 7
  assert (rootino = ROOTINO) "rootino == 1"
  iappend rootino ((entry rootino 0 7 7 5 [0x2e]).slice 0 Dirent.size)
  iappend rootino ((entry rootino 0 7 7 5 [0x2e, 0x2e]).slice 0 Dirent.size)
  let binId ← rootDir [0x62, 0x69, 0x6e]
  let _ ← rootDir [0x68, 0x6f, 0x6d, 0x65]
  let _ ← rootDir [0x74, 0x6d, 0x70]
  appendFiles ROOTINO txt
  appendFiles binId bin
  let din ← rinode rootino
  winode rootino { din with size := .ofNat ((din.size.toNat / BSIZE + 1) * BSIZE) }
  balloc (← get).freeblock

/-- The image built from two lists of files, if `main` finishes. -/
def build (txt bin : List HostFile) : Option Image :=
  match main txt bin blank with
  | .ok _ image => some image
  | .error _ _ => none

end Mkfs

namespace Fs

/-- The superblock in the bytes of block 1. -/
def readSuperblock (block : Block) : Superblock where
  magic := block.field 4 0
  size := block.field 4 4
  nblocks := block.field 4 8
  ninodes := block.field 4 12
  nlog := block.field 4 16
  logstart := block.field 4 20
  inodestart := block.field 4 24
  bmapstart := block.field 4 28

/-- The kernel after `user_init` and `fs::init` on an image with an empty log. -/
def boot (blocks : Nat → Block) : Kernel where
  sb := readSuperblock (blocks 1)
  blocks := blocks
  itable := Function.update (fun _ => {}) ⟨0, NINODE_pos⟩ { inum := ROOTINO, ref := 1 }
  procs := Function.update (fun _ => {}) ⟨0, NPROC_pos⟩ { live := true, cwd := some ⟨0, NINODE_pos⟩ }

/-- A system call made by a process. -/
structure Request where
  pid : Fin NPROC
  user : User
  call : Call

/-- Run a system call to its end. -/
def Request.outcome (request : Request) (s : Kernel) : EStateM.Result Stop Kernel Int :=
  syscall request.user request.call { s with curr := request.pid }

/-- One completed system call of a live process. -/
def step (s : Kernel) (request : Request) : Option Kernel :=
  if (s.procs request.pid).live then
    match request.outcome s with
    | .ok _ next => some next
    | .error _ _ => none
  else none

end Fs
end OsCpp
