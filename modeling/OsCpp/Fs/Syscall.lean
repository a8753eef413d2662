import OsCpp.Fs.Directory

/-!
# Open files and system calls

`kernel/file.cpp`, the system calls of `kernel/sysfile.cpp`, and the parts of `kernel/loader.cpp` and
`kernel/proc.cpp` that use the file system.  What a call finds outside of the file system (user
memory, the results of the virtual-memory functions, of device drivers and of calls that wait for
other processes) is given with the call.
-/

namespace OsCpp.Fs

open Function (update)

/-- What `loader::exec` finds outside of the file system. -/
structure ExecEnv where
  /-- Did `alloc_pagetable` succeed? -/
  pagetable : Bool
  /-- Result of `uvm_alloc` for a program header; `none` is a panic in `kernel/vm.cpp`. -/
  segment : Nat → Option Bool
  /-- Does `walkaddr` find a page of the segment of a program header? -/
  mapped : Nat → Nat → Bool
  /-- Does `proc::free_pagetable` return? -/
  freed : Bool
  /-- Result of the part after the file has been read; `none` is a panic in `kernel/vm.cpp`. -/
  finish : Option Int

/-- What a system call finds outside of the file system. -/
structure User where
  /-- The bytes `copyin` and `copyinstr` find in user memory. -/
  memory : Nat → Option UInt8
  /-- Results of `copyout`. -/
  writable : Nat → Nat → Bool
  /-- Can the arguments of `exec` be fetched?  `none` if they overrun `argv`. -/
  argv : Option Bool
  exec : ExecEnv
  /-- The slot `fork` finds for the child, if its memory can be copied. -/
  child : Option (Fin NPROC)
  /-- Result of a device driver, of a pipe, or of a call that leaves the file system alone. -/
  other : Int

/-- `static_cast<int>` of a 64-bit register. -/
def toInt (argument : Nat) : Int := (BitVec.ofNat 32 argument).toInt

/-- The bytes `vm::copyinstr` stores, and whether it found the terminating zero within `max`. -/
def copyinstr (memory : Nat → Option UInt8) (addr : Nat) : Nat → List UInt8 × Bool
  | 0 => ([], false)
  | max + 1 =>
    match memory addr with
    | none => ([], false)
    | some 0 => ([], true)
    | some byte =>
      let (bytes, found) := copyinstr memory (addr + 1) max
      (byte :: bytes, found)

/-- `fetch_str` into a buffer of `MAXPATH` bytes, which more than `MAXPATH` bytes overrun. -/
def fetch_str (user : User) (addr len : Nat) : Prog (Option (List UInt8)) := do
  let (bytes, found) := copyinstr user.memory addr len
  check (bytes.length + (if found then 1 else 0) ≤ MAXPATH) (.undefined "path overrun")
  pure (if found then some bytes else none)

def check_permission_for_file (ip : Fin NINODE) (mask : UInt8) : Prog Bool := do
  let s ← get
  let node := (s.itable ip).node
  if node.uid = s.uid then pure (node.mask_user &&& mask ≠ 0)
  else if node.gid = s.gid then pure (node.mask_group &&& mask ≠ 0)
  else pure (node.mask_other &&& mask ≠ 0)

/-- Read an entry of `ftable`. -/
def file (f : Fin NFILE) : Prog File := do
  return (← get).ftable f

def setFile (f : Fin NFILE) (entry : File) : Prog Unit :=
  modify fun s => { s with ftable := update s.ftable f entry }

def alloc : Prog (Option (Fin NFILE)) := do
  let s ← get
  let some f := (List.finRange NFILE).find? fun f => (s.ftable f).ref = 0 | return none
  setFile f { s.ftable f with ref := 1 }
  return some f

def dup (f : Fin NFILE) : Prog Unit := do
  let entry ← file f
  check (1 ≤ entry.ref) (.panic "file::dup")
  setFile f { entry with ref := entry.ref + 1 }

def close (f : Fin NFILE) : Prog Unit := do
  let entry ← file f
  check (1 ≤ entry.ref) (.panic "file::close")
  if 1 < entry.ref then return ← setFile f { entry with ref := entry.ref - 1 }
  setFile f { entry with ref := 0, type := .FD_NONE }
  if entry.type = .FD_INODE ∨ entry.type = .FD_DEVICE then
    let some ip := entry.ip | throw (.undefined "ff.ip")
    begin_op
    iput ip
    end_op

def stat (user : User) (f : Fin NFILE) (addr : Nat) : Prog Int := do
  let entry ← file f
  unless entry.type = .FD_INODE ∨ entry.type = .FD_DEVICE do return -1
  let some ip := entry.ip | throw (.panic "fs::ilock")
  ilock ip
  iunlock ip
  return if user.writable addr 32 then 0 else -1

/-- Is there a device driver with this number?  Only the console registers one. -/
def hasDriver (major : UInt16) : Bool := major = 1

def read (user : User) (f : Fin NFILE) (addr : Nat) (n : Int) : Prog Int := do
  let entry ← file f
  unless entry.readable do return -1
  match entry.type with
  | .FD_PIPE => return user.other
  | .FD_DEVICE => return if hasDriver entry.major then user.other else -1
  | .FD_INODE =>
    let some ip := entry.ip | throw (.panic "fs::ilock")
    ilock ip
    let (count, _) ← readi ip (.user user.writable addr) entry.off (n % 2 ^ 32).toNat
    let rs := toInt count
    if 0 < rs then setFile f { entry with off := (entry.off + rs.toNat) % 2 ^ 32 }
    iunlock ip
    return rs
  | .FD_NONE => throw (.panic "file::read")

/-- Bytes `file::write` writes in one transaction. -/
def maxWrite : Nat := ((MAXOPBLOCKS - 1 - 1 - 2) / 2) * BSIZE

/-- The loop of `file::write`: the number of bytes written. -/
def writeChunks (user : User) (f : Fin NFILE) (ip : Fin NINODE) (addr n : Nat) : Nat → Nat → Prog Nat
  | 0, i => pure i
  | fuel + 1, i => do
    unless i < n do return i
    let n1 := min (n - i) maxWrite
    begin_op
    ilock ip
    let entry ← file f
    let r ← writei ip (.user user.memory (addr + i)) entry.off n1
    if 0 < r then setFile f { entry with off := (entry.off + r.toNat) % 2 ^ 32 }
    iunlock ip
    end_op
    if r ≠ n1 then return i
    writeChunks user f ip addr n fuel (i + n1)

def write (user : User) (f : Fin NFILE) (addr : Nat) (n : Int) : Prog Int := do
  let entry ← file f
  unless entry.writable do return -1
  match entry.type with
  | .FD_PIPE => return user.other
  | .FD_DEVICE => return if hasDriver entry.major then user.other else -1
  | .FD_INODE =>
    let some ip := entry.ip | throw (.panic "fs::ilock")
    let i ← writeChunks user f ip addr n.toNat n.toNat 0
    return if (i : Int) = n then n else -1
  | .FD_NONE => throw (.panic "filewrite")

/-- Replace the running process. -/
def setProcess (process : Process) : Prog Unit :=
  modify fun s => { s with procs := update s.procs s.curr process }

/-- `alloc_fd` and `fd_alloc`: enter a file into the descriptor table. -/
def alloc_fd (f : Fin NFILE) : Prog (Option (Fin NOFILE)) := do
  let s ← get
  let p := s.procs s.curr
  let some fd := (List.finRange NOFILE).find? fun fd => (p.ofile fd).isNone | return none
  setProcess { p with ofile := update p.ofile fd (some f) }
  return some fd

/-- `get_fd`: the descriptor and its file. -/
def get_fd (argument : Nat) : Prog (Option (Fin NOFILE × Fin NFILE)) := do
  let s ← get
  let fd := toInt argument
  if inside : 0 ≤ fd ∧ fd.toNat < NOFILE then
    return ((s.procs s.curr).ofile ⟨fd.toNat, inside.2⟩).map (⟨fd.toNat, inside.2⟩, ·)
  return none

/-- `file::pipealloc` and `sys_pipe`: the third entry of `ftable` is used as if it were a pipe. -/
def sys_pipe : Prog Int := do
  let some f0 ← alloc | return -1
  let some f1 ← alloc
    | close f0
      return -1
  if let some _ ← alloc then throw (.undefined "pi->readopen")
  close f0
  close f1
  return -1

def sys_read (user : User) (a0 a1 a2 : Nat) : Prog Int := do
  let some (_, f) ← get_fd a0 | return -1
  read user f a1 (toInt a2)

def sys_write (user : User) (a0 a1 a2 : Nat) : Prog Int := do
  let some (_, f) ← get_fd a0 | return -1
  write user f a1 (toInt a2)

def sys_fstat (user : User) (a0 a1 : Nat) : Prog Int := do
  let some (_, f) ← get_fd a0 | return -1
  stat user f a1

def sys_dup (a0 : Nat) : Prog Int := do
  let some (_, f) ← get_fd a0 | return -1
  let some fd ← alloc_fd f | return -1
  dup f
  return fd

def sys_close (a0 : Nat) : Prog Int := do
  let some (fd, f) ← get_fd a0 | return -1
  let s ← get
  let p := s.procs s.curr
  setProcess { p with ofile := update p.ofile fd none }
  close f
  return 0

def sys_chdir (user : User) (a0 : Nat) : Prog Int := do
  begin_op
  let some path ← fetch_str user a0 MAXPATH
    | end_op
      return -1
  let some ip ← namei path
    | end_op
      return -1
  ilock ip
  let entry ← inode ip
  if entry.node.type ≠ T_DIR then
    iunlockput ip
    end_op
    return -1
  iunlock ip
  let s ← get
  let some cwd := (s.procs s.curr).cwd | throw (.undefined "iput(nullptr)")
  iput cwd
  end_op
  let s ← get
  setProcess { s.procs s.curr with cwd := some ip }
  return 0

def O_RDONLY : UInt32 := 0x000
def O_WRONLY : UInt32 := 0x001
def O_RDWR : UInt32 := 0x002
def O_CREATE : UInt32 := 0x200
def O_TRUNC : UInt32 := 0x400

/-- The error exit of `sys_open` after the inode has been found. -/
def openFailed (ip : Fin NINODE) : Prog Int := do
  iunlockput ip
  end_op
  return -1

/-- The first part of `sys_open`: find or create the inode, which is then locked. -/
def openInode (path : List UInt8) (mode : UInt32) : Prog (Option (Fin NINODE)) := do
  if mode &&& O_CREATE ≠ 0 then return ← create path T_FILE 0 0
  let some ip ← namei path | return none
  ilock ip
  let entry ← inode ip
  if entry.node.type = T_DIR ∧ mode ≠ O_RDONLY then
    iunlockput ip
    return none
  return some ip

/-- The permission checks of `sys_open`, which compare the whole mode. -/
def openPermitted (ip : Fin NINODE) (mode : UInt32) : Prog Bool :=
  if mode = O_RDONLY then check_permission_for_file ip 4
  else if mode = O_WRONLY ∨ mode = O_TRUNC then check_permission_for_file ip 2
  else if mode = O_RDWR then check_permission_for_file ip 6
  else pure true

/-- The last part of `sys_open`: set up the open file. -/
def openFile (f : Fin NFILE) (ip : Fin NINODE) (mode : UInt32) : Prog Unit := do
  let entry ← file f
  let node := (← inode ip).node
  setFile f { entry with
    type := if node.type = T_DEVICE then .FD_DEVICE else .FD_INODE
    major := if node.type = T_DEVICE then node.major else entry.major
    off := if node.type = T_DEVICE then entry.off else 0
    ip := some ip
    readable := mode &&& O_WRONLY = 0
    writable := mode &&& O_WRONLY ≠ 0 ∨ mode &&& O_RDWR ≠ 0 }
  if mode &&& O_TRUNC ≠ 0 ∧ node.type = T_FILE then itrunc ip

/-- `sys_open` once the inode is locked and its permissions are checked. -/
def openDescriptor (ip : Fin NINODE) (mode : UInt32) : Prog Int := do
  let node := (← inode ip).node
  if node.type = T_DEVICE ∧ (node.major.toInt16 < 0 ∨ (NDEV : Int) ≤ node.major.toInt16.toInt) then
    return ← openFailed ip
  let some f ← alloc | openFailed ip
  let some fd ← alloc_fd f
    | close f
      openFailed ip
  openFile f ip mode
  iunlock ip
  end_op
  return fd

def sys_open (user : User) (a0 a1 : Nat) : Prog Int := do
  let mode : UInt32 := .ofNat a1
  let some path ← fetch_str user a0 MAXPATH | return -1
  begin_op
  let some ip ← openInode path mode
    | end_op
      return -1
  if ← openPermitted ip mode then openDescriptor ip mode else openFailed ip

/-- `sys_mknod`; its error exits leave the transaction open, and its path buffer is too short. -/
def sys_mknod (user : User) (a0 a1 a2 : Nat) : Prog Int := do
  begin_op
  let some path ← fetch_str user a0 MAXFILE | return -1
  let some ip ← create path T_DEVICE (.ofNat a1) (.ofNat a2) | return -1
  iunlockput ip
  end_op
  return 0

def sys_mkdir (user : User) (a0 : Nat) : Prog Int := do
  begin_op
  let some path ← fetch_str user a0 MAXPATH
    | end_op
      return -1
  let some ip ← create path T_DIR 0 0
    | end_op
      return -1
  let s ← get
  setNode ip { (s.itable ip).node with
    uid := s.uid, gid := s.gid, mask_user := 7, mask_group := 7, mask_other := 7 }
  iunlockput ip
  end_op
  return 0

def PGSIZE : Nat := 4096

def ELF_MAGIC : Nat := 0x464C457F

def ELF_PROG_LOAD : Nat := 1

/-- Little-endian field of the bytes `readi` has copied. -/
def bytesField (bytes : List UInt8) (width position : Nat) : Nat :=
  Bytes.ofLE ((bytes.drop position).take width)

/-- `loader::fail_work` while the file is open. -/
def fail_work (user : User) (pagetable : Bool) (ip : Fin NINODE) : Prog Int := do
  check (pagetable → user.exec.freed) (.panic "proc::free_pagetable")
  iunlockput ip
  end_op
  return -1

/-- `loader::loadseg`, from page `page` on. -/
def loadseg (user : User) (header : Nat) (ip : Fin NINODE) (offset sz : Nat) : Nat → Nat → Prog Bool
  | 0, _ => pure true
  | fuel + 1, page => do
    unless page * PGSIZE < sz do return true
    check (user.exec.mapped header page) (.panic "loadseg: address should exist")
    let n := min (sz - page * PGSIZE) PGSIZE
    let (count, _) ← readi ip .kernel ((offset + page * PGSIZE) % 2 ^ 32) n
    if count ≠ n then return false
    loadseg user header ip offset sz fuel (page + 1)

/-- The loop of `loader::exec` over the program headers: have all segments been loaded? -/
def loadSegments (user : User) (ip : Fin NINODE) (phoff phnum : Nat) : Nat → Nat → Prog Bool
  | 0, _ => pure true
  | fuel + 1, i => do
    unless i < phnum do return true
    let (count, bytes) ← readi ip .kernel ((phoff + 56 * i) % 2 ^ 32) 56
    if count ≠ 56 then return false
    if bytesField bytes 4 0 ≠ ELF_PROG_LOAD then
      return ← loadSegments user ip phoff phnum fuel (i + 1)
    let filesz := bytesField bytes 8 32
    let memsz := bytesField bytes 8 40
    let vaddr := bytesField bytes 8 16
    if memsz < filesz ∨ (vaddr + memsz) % 2 ^ 64 < vaddr ∨ vaddr % PGSIZE ≠ 0 then return false
    let some allocated := user.exec.segment i | throw (.panic "kernel/vm.cpp")
    unless allocated do return false
    let sz := filesz % 2 ^ 32
    unless ← loadseg user i ip (bytesField bytes 8 8 % 2 ^ 32) sz sz 0 do return false
    loadSegments user ip phoff phnum fuel (i + 1)

def exec (user : User) (ip : Fin NINODE) : Prog Int := do
  begin_op
  let (count, elf) ← readi ip .kernel 0 64
  if count ≠ 64 ∨ bytesField elf 4 0 ≠ ELF_MAGIC ∨ ¬user.exec.pagetable then
    return ← fail_work user false ip
  let phnum := bytesField elf 2 56
  unless ← loadSegments user ip (bytesField elf 8 32) phnum phnum 0 do
    return ← fail_work user true ip
  iunlockput ip
  end_op
  let some rs := user.exec.finish | throw (.panic "kernel/vm.cpp")
  return rs

/-- `sys_exec`; the path is looked up before the transaction begins. -/
def sys_exec (user : User) (a0 : Nat) : Prog Int := do
  let some path ← fetch_str user a0 MAXPATH | return -1
  let some fetched := user.argv | throw (.undefined "argv[MAXARGV]")
  unless fetched do return -1
  let some ip ← namei path | throw (.panic "fs::ilock")
  ilock ip
  if ← check_permission_for_file ip 1 then return ← exec user ip
  iunlock ip
  return -1

/-- The loop of `proc::fork` over the descriptors. -/
def dupFiles : List (Option (Fin NFILE)) → Prog Unit
  | [] => pure ()
  | none :: files => dupFiles files
  | some f :: files => do
      dup f
      dupFiles files

/-- `proc::fork`. -/
def sys_fork (user : User) : Prog Int := do
  let s ← get
  let some np := user.child | return -1
  check ((s.procs np).live = false) (.panic "proc::alloc: no proc")
  let p := s.procs s.curr
  dupFiles ((List.finRange NOFILE).map p.ofile)
  let some cwd := p.cwd | throw (.undefined "idup(nullptr)")
  let cwd ← idup cwd
  let child : Process :=
    { live := true
      ofile := fun fd => (p.ofile fd).or ((s.procs np).ofile fd)
      cwd := some cwd }
  modify fun s => { s with procs := update s.procs np child }
  return user.other

/-- The loop of `proc::exit` over the descriptors. -/
def closeFiles : List (Fin NOFILE) → Prog Unit
  | [] => pure ()
  | fd :: fds => do
    let s ← get
    if let some f := (s.procs s.curr).ofile fd then
      close f
      let s ← get
      let p := s.procs s.curr
      setProcess { p with ofile := update p.ofile fd none }
    closeFiles fds

/-- `proc::exit`; slot zero is the init process. -/
def sys_exit : Prog Int := do
  let s ← get
  check (s.curr.val ≠ 0) (.panic "proc::exit: init exiting")
  closeFiles (List.finRange NOFILE)
  begin_op
  let s ← get
  let some cwd := (s.procs s.curr).cwd | throw (.undefined "iput(nullptr)")
  iput cwd
  end_op
  let s ← get
  setProcess { s.procs s.curr with cwd := none, live := false }
  return 0

def sys_setuid (a0 : Nat) : Prog Int := do
  modify fun s => { s with uid := .ofNat a0 }
  return 0

def sys_setgid (a0 : Nat) : Prog Int := do
  modify fun s => { s with gid := .ofNat a0 }
  return 0

/-- A system call with its arguments. -/
inductive Call
  | sys_fork
  | sys_exit
  | sys_wait
  | sys_pipe
  | sys_read (fd addr size : Nat)
  | sys_kill
  | sys_exec (path argv : Nat)
  | sys_fstat (fd addr : Nat)
  | sys_chdir (path : Nat)
  | sys_dup (fd : Nat)
  | sys_getpid
  | sys_sbrk
  | sys_sleep
  | sys_uptime
  | sys_open (path mode : Nat)
  | sys_write (fd addr size : Nat)
  | sys_mknod (path major minor : Nat)
  | sys_unlink
  | sys_link
  | sys_mkdir (path : Nat)
  | sys_close (fd : Nat)
  | sys_setuid (id : Nat)
  | sys_setgid (id : Nat)

/-- `syscall::syscall`: the function in the table `syscalls`. -/
def syscall (user : User) : Call → Prog Int
  | .sys_fork => sys_fork user
  | .sys_exit => sys_exit
  | .sys_wait => pure user.other
  | .sys_pipe => sys_pipe
  | .sys_read fd addr size => sys_read user fd addr size
  | .sys_kill => pure user.other
  | .sys_exec path _ => sys_exec user path
  | .sys_fstat fd addr => sys_fstat user fd addr
  | .sys_chdir path => sys_chdir user path
  | .sys_dup fd => sys_dup fd
  | .sys_getpid => pure user.other
  | .sys_sbrk => pure user.other
  | .sys_sleep => pure 0
  | .sys_uptime => pure 0
  | .sys_open path mode => sys_open user path mode
  | .sys_write fd addr size => sys_write user fd addr size
  | .sys_mknod path major minor => sys_mknod user path major minor
  | .sys_unlink => pure 0
  | .sys_link => pure 0
  | .sys_mkdir path => sys_mkdir user path
  | .sys_close fd => sys_close fd
  | .sys_setuid id => sys_setuid id
  | .sys_setgid id => sys_setgid id

end OsCpp.Fs
