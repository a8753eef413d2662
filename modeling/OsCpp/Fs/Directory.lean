import OsCpp.Fs.Inode

/-!
# Directories and paths

`kernel/fs.cpp` from `namecmp` on, and `create` of `kernel/sysfile.cpp`.  Strings are lists of
non-zero bytes; a name buffer of `DIRSIZ` bytes holds at most `DIRSIZ` of them.
-/

namespace OsCpp.Fs

def namecmp (s t : List UInt8) : Int := strncmp DIRSIZ s t

/-- A directory entry from the bytes `readi` has copied. -/
def direntOfBytes (bytes : List UInt8) : Dirent := fun index => bytes.getD index 0

/-- The loop of `dir_lookup`: offset and inode number of the entry found. -/
def lookupFrom (dp : Fin NINODE) (name : List UInt8) : Nat → Nat → Prog (Option (Nat × Nat))
  | 0, _ => pure none
  | fuel + 1, offset => do
    let entry ← inode dp
    unless offset < entry.node.size.toNat do return none
    let (count, bytes) ← readi dp .kernel offset Dirent.size
    check (count = Dirent.size) (.panic "fs::dir_lookup: read error")
    let de := direntOfBytes bytes
    if de.inum ≠ 0 ∧ namecmp name de.name = 0 then return some (offset, de.inum)
    lookupFrom dp name fuel (offset + Dirent.size)

def dir_lookup (dp : Fin NINODE) (name : List UInt8) : Prog (Option (Fin NINODE)) := do
  let entry ← inode dp
  check (entry.node.type = T_DIR) (.panic "fs::dir_lookup: it's not a dir")
  let some (_, inum) ← lookupFrom dp name entry.node.size.toNat 0 | return none
  return some (← iget inum)

/-- The loop of `dir_link`: offset of the first free entry or the end, and the entry last read. -/
def freeEntryFrom (dp : Fin NINODE) : Nat → Nat → Dirent → Prog (Nat × Dirent)
  | 0, off, de => pure (off, de)
  | fuel + 1, off, de => do
    let entry ← inode dp
    unless off < entry.node.size.toNat do return (off, de)
    let (count, bytes) ← readi dp .kernel off Dirent.size
    check (count = Dirent.size) (.panic "fs::dir_link: read")
    let de := direntOfBytes bytes
    if de.inum = 0 then return (off, de)
    freeEntryFrom dp fuel (off + Dirent.size) de

/-- The two overloads of `fs::dir_link`, which differ in the fields filled in after the name. -/
def dirLinkWith (dp : Fin NINODE) (name : List UInt8) (fill : Dirent → Dirent) : Prog Int := do
  if let some ip ← dir_lookup dp name then
    iput ip
    return -1
  let entry ← inode dp
  let (off, de) ← freeEntryFrom dp entry.node.size.toNat 0 (Bytes.zero 32)
  let (bytes, zeros) := strncpy name DIRSIZ
  check (bytes.length + zeros = DIRSIZ) (.undefined "std::strncpy past de.name")
  let de := fill (de.setName (bytes ++ List.replicate zeros 0))
  let written ← writei dp (.kernel (de.slice 0 Dirent.size)) off Dirent.size
  return if written = Dirent.size then 0 else -1

/-- `fs::dir_link(dp, name, inum)`. -/
def dir_link (dp : Fin NINODE) (name : List UInt8) (inum : Nat) : Prog Int :=
  dirLinkWith dp name fun de => de.setInum inum

/-- `fs::dir_link(dp, name, other)`. -/
def dir_link_inode (dp : Fin NINODE) (name : List UInt8) (other : Fin NINODE) : Prog Int := do
  let entry ← inode other
  dirLinkWith dp name fun de => (de.setInum entry.inum).setOwner entry.node

def slash : UInt8 := 0x2f

/-- `fs::skipelem`: the component as far as the name buffer takes it, and the rest of the path. -/
def skipelem (path : List UInt8) : Option (List UInt8 × List UInt8) :=
  let path := path.dropWhile (· = slash)
  if path = [] then none
  else some (path.takeWhile (· ≠ slash), (path.dropWhile (· ≠ slash)).dropWhile (· = slash))

/-- The name buffer after `skipelem`; `DIRSIZ` bytes have their zero stored past it. -/
def nameBuffer (component : List UInt8) : Prog (List UInt8) := do
  check (component.length ≠ DIRSIZ) (.undefined "name[len] in fs::skipelem")
  pure (component.take DIRSIZ)

def namexFrom (parent : Bool) : Nat → Fin NINODE → List UInt8 → List UInt8 →
    Prog (Option (Fin NINODE × List UInt8))
  | 0, _, _, _ => pure none
  | fuel + 1, ip, path, name => do
    let some (component, rest) := skipelem path
      | if parent then
          iput ip
          return none
        return some (ip, name)
    let name ← nameBuffer component
    ilock ip
    let entry ← inode ip
    if entry.node.type ≠ T_DIR then
      iunlockput ip
      return none
    if parent ∧ rest = [] then
      iunlock ip
      return some (ip, name)
    let some next ← dir_lookup ip name
      | iunlockput ip
        return none
    iunlockput ip
    namexFrom parent fuel next rest name

/-- `fs::namex`: the inode and the name buffer. -/
def namex (path : List UInt8) (parent : Bool) : Prog (Option (Fin NINODE × List UInt8)) := do
  if path.head? = some slash then
    let ip ← iget ROOTINO
    return ← namexFrom parent (path.length + 1) ip path []
  let s ← get
  let some cwd := (s.procs s.curr).cwd | throw (.undefined "idup(nullptr)")
  let ip ← idup cwd
  namexFrom parent (path.length + 1) ip path []

def namei (path : List UInt8) : Prog (Option (Fin NINODE)) := do
  return (← namex path false).map Prod.fst

def nameiparent (path : List UInt8) : Prog (Option (Fin NINODE × List UInt8)) := namex path true

/-- The error exit of `create` after the new inode has been set up. -/
def createFailed (dp ip : Fin NINODE) : Prog (Option (Fin NINODE)) := do
  let entry ← inode ip
  setNode ip { entry.node with nlink := 0 }
  iupdate ip
  iunlockput ip
  iunlockput dp
  return none

/-- The end of `create`: enter the new inode into its parent. -/
def createLink (dp ip : Fin NINODE) (name : List UInt8) (type : UInt16) :
    Prog (Option (Fin NINODE)) := do
  if (← dir_link_inode dp name ip) < 0 then return ← createFailed dp ip
  if type = T_DIR then
    let parent ← inode dp
    setNode dp { parent.node with nlink := parent.node.nlink + 1 }
    iupdate dp
  iunlockput dp
  return some ip

/-- The entries `.` and `..` of a new directory, the second only if the first was entered. -/
def linkDots (ip : Fin NINODE) : Prog Bool := do
  let entry ← inode ip
  if (← dir_link ip [0x2e] entry.inum) < 0 then return false
  return decide (0 ≤ (← dir_link ip [0x2e, 0x2e] entry.inum))

/-- The middle of `create`: set up a new inode. -/
def createNew (dp ip : Fin NINODE) (name : List UInt8) (type major minor : UInt16) :
    Prog (Option (Fin NINODE)) := do
  ilock ip
  let s ← get
  let entry := s.itable ip
  setNode ip { entry.node with
    major, minor, nlink := 1, uid := s.uid, gid := s.gid
    mask_user := 7, mask_group := 7, mask_other := 7 }
  iupdate ip
  if type = T_DIR then
    unless ← linkDots ip do return ← createFailed dp ip
  createLink dp ip name type

def create (path : List UInt8) (type major minor : UInt16) : Prog (Option (Fin NINODE)) := do
  let some (dp, name) ← nameiparent path | return none
  ilock dp
  if let some ip ← dir_lookup dp name then
    iunlockput dp
    ilock ip
    let entry ← inode ip
    if type = T_FILE ∧ (entry.node.type = T_FILE ∨ entry.node.type = T_DEVICE) then return some ip
    iunlockput ip
    return none
  let some ip ← ialloc type
    | iunlockput dp
      return none
  createNew dp ip name type major minor

end OsCpp.Fs
