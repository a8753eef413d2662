import OsCpp.Fs.Directory
import OsCpp.Lib.Process
import Mathlib.Data.Multiset.Basic

/-!
# References to inodes and open files

The system calls of `kernel/sysfile.cpp` and `kernel/proc.cpp` as far as they count references:
programs over the critical sections of `itable.lock` and `ftable.lock`, the sleep-locks of inodes and
the tables of processes, run by all processes in any interleaving.  What a call reads from the disk
or from user memory decides its way; here it is left open.  A run ends at the first panic and at the
first access outside of an array (`addrs` of an inode with more than 13 blocks, the path of
`sys_mknod`, `argv`, a name of 14 characters).

An access to a process's own descriptors or working directory is done together with the critical
section next to it: no other process looks at them.
-/

namespace OsCpp.Refs

open Function (update)

/-- Index of an entry of `itable`. -/
abbrev Inode := Fin NINODE

/-- Index of an entry of `ftable`. -/
abbrev FileIx := Fin NFILE

abbrev Fd := Fin NOFILE

abbrev Proc := Fin NPROC

/-- What `vm::kfree` is called on. -/
inductive Object
  | page
  | entry (f : FileIx)
  deriving DecidableEq

/-- Reference counts and everything that refers. -/
structure State where
  /-- `itable.inode[i].ref`, `inum` and `lock`. -/
  iref : Inode → Nat
  inum : Inode → Nat
  ilocked : Inode → Option Proc
  fref : FileIx → Nat
  /-- `ip` of an entry of type `FD_INODE` or `FD_DEVICE`. -/
  fip : FileIx → Option Inode
  /-- `pipe` and `writable` of an entry of type `FD_PIPE`; the pipe is an entry of `ftable`. -/
  fpipe : FileIx → Option (FileIx × Bool)
  /-- `readopen` and `writeopen` of a pipe. -/
  ends : FileIx → Bool × Bool
  slot : Proc → Fd → Option FileIx
  cwd : Proc → Option Inode
  live : Proc → Bool
  /-- Entries of `ftable` taken by each call of `pipealloc` that succeeded. -/
  pipes : List (List FileIx)
  kfreed : List Object
  /-- Inodes `sys_exec` had no permission for. -/
  refused : List Inode

/-- What `file::close` finds when it drops the last reference. -/
inductive Closed
  | nothing
  | inode (i : Inode)
  | pipe (pi : FileIx) (writable : Bool)
  deriving DecidableEq

/-- Atomic operations. -/
inductive Op
  /-- `fmt::panic`, or an access outside of an array. -/
  | panic
  | test
  | lookup
  | iget (inum : Nat)
  | idupCwd
  /-- The test of `iput`, which locks an inode that is to be reclaimed. -/
  | ireclaim (i : Inode)
  | idrop (i : Inode)
  | ilock (i : Inode)
  | iunlock (i : Inode)
  | alloc
  /-- `file::alloc` where `pipealloc` means to allocate the pipe. -/
  | allocPipe
  /-- `alloc_fd` in `sys_open` and, if it finds a descriptor, the stores into the open file. -/
  | allocFd (f : FileIx) (i : Inode)
  /-- `get_fd`, `fd_alloc` and `file::dup` in `sys_dup`. -/
  | dupFd (fd : Fd)
  | dupSlot (fd : Fd)
  /-- `p->ofile[fd] = nullptr`, with the file that was there. -/
  | takeSlot (fd : Fd)
  /-- The same in the loop of `exit`. -/
  | exitSlot (fd : Fd)
  | close (f : FileIx)
  /-- The stores at the end of `pipealloc`. -/
  | makePipe (f0 f1 pi : FileIx)
  | pipeFd (f : FileIx)
  | pipeclose (pi : FileIx) (writable : Bool)
  /-- `p->cwd = ip`, with the inode that was there. -/
  | swapCwd (i : Inode)
  /-- `p->cwd = nullptr`, with the inode that was there. -/
  | takeCwd
  /-- The child of `fork` gets its files and its working directory. -/
  | spawn (files : Fd → Option FileIx) (i : Inode)
  | die
  /-- `sys_exec` returns without having put the inode it has no permission for. -/
  | abandon (i : Inode)

/-- Results of the operations. -/
@[reducible] def Op.Result : Op → Type
  | .panic | .idrop _ | .ilock _ | .iunlock _ | .makePipe .. | .pipeclose .. | .spawn .. | .die
  | .abandon _ => Unit
  | .test | .ireclaim _ | .allocFd .. | .dupFd _ => Bool
  | .lookup => Option Nat
  | .iget _ | .idupCwd | .swapCwd _ | .takeCwd => Inode
  | .alloc | .allocPipe | .dupSlot _ | .takeSlot _ | .exitSlot _ => Option FileIx
  | .close _ => Closed
  | .pipeFd _ => Option Fd

/-- What the environment decides. -/
inductive Answer
  | flag (b : Bool)
  | number (n : Option Nat)
  | child (p : Proc)

abbrev Prog := Process.Code Op Op.Result

namespace State

/-- Change a reference count of an inode. -/
def setIref (s : State) (i : Inode) (n : Nat) : State :=
  { s with iref := update s.iref i n }

def setFref (s : State) (f : FileIx) (n : Nat) : State :=
  { s with fref := update s.fref f n }

def setSlot (s : State) (p : Proc) (fd : Fd) (file : Option FileIx) : State :=
  { s with slot := update s.slot p (update (s.slot p) fd file) }

def setLock (s : State) (i : Inode) (holder : Option Proc) : State :=
  { s with ilocked := update s.ilocked i holder }

/-- The entry `iget` finds for a number. -/
def cached (s : State) (inum : Nat) : Option Inode :=
  (List.finRange NINODE).find? fun i => 0 < s.iref i ∧ s.inum i = inum

/-- The entry `iget` recycles. -/
def freeInode (s : State) : Option Inode := (List.finRange NINODE).find? fun i => s.iref i = 0

/-- The entry `file::alloc` finds. -/
def freeFile (s : State) : Option FileIx := (List.finRange NFILE).find? fun f => s.fref f = 0

/-- The descriptor `alloc_fd` finds. -/
def freeFd (s : State) (p : Proc) : Option Fd :=
  (List.finRange NOFILE).find? fun fd => (s.slot p fd).isNone

end State

open Process (Outcome)

def performIget (s : State) (inum : Nat) : Outcome State Inode :=
  match s.cached inum with
  | some i => .next (s.setIref i (s.iref i + 1)) i
  | none =>
    match s.freeInode with
    | some i => .next { s.setIref i 1 with inum := update s.inum i inum } i
    | none => .halt

/-- `file::alloc`. -/
def performAlloc (s : State) : Outcome State (Option FileIx) :=
  match s.freeFile with
  | some f => .next (s.setFref f 1) (some f)
  | none => .next s none

/-- What a closed entry of `ftable` referred to. -/
def closedEntry (s : State) (f : FileIx) : Closed :=
  match s.fpipe f, s.fip f with
  | some (pi, writable), _ => .pipe pi writable
  | none, some i => .inode i
  | none, none => .nothing

/-- The critical section of `file::close`. -/
def performClose (s : State) (f : FileIx) : Outcome State Closed :=
  if s.fref f < 1 then .halt
  else if 1 < s.fref f then .next (s.setFref f (s.fref f - 1)) .nothing
  else
    .next { s.setFref f 0 with
      fip := update s.fip f none
      fpipe := update s.fpipe f none } (closedEntry s f)

/-- `pipeclose`; what `kfree` does to `ftable` is not modelled any further. -/
def performPipeclose (s : State) (pi : FileIx) (writable : Bool) : State :=
  let ends := if writable then ((s.ends pi).1, false) else (false, (s.ends pi).2)
  { s with
    ends := update s.ends pi ends
    kfreed := if ends = (false, false) then s.kfreed ++ [.entry pi] else s.kfreed }

def performLive (s : State) (p : Proc) : (op : Op) → Answer → Outcome State op.Result
  | .panic, _ => .halt
  | .test, .flag b => .next s b
  | .lookup, .number n => .next s n
  | .iget inum, _ => performIget s inum
  | .idupCwd, _ =>
    match s.cwd p with
    | some i => .next (s.setIref i (s.iref i + 1)) i
    | none => .halt
  | .ireclaim i, .flag b =>
    if b then
      if s.iref i = 1 ∧ s.ilocked i = none then .next (s.setLock i (some p)) true else .blocked
    else .next s false
  | .idrop i, _ => .next (s.setIref i (s.iref i - 1)) ()
  | .ilock i, _ =>
    if s.iref i < 1 then .halt
    else if s.ilocked i = none then .next (s.setLock i (some p)) () else .blocked
  | .iunlock i, _ =>
    if s.ilocked i = some p ∧ 1 ≤ s.iref i then .next (s.setLock i none) () else .halt
  | .alloc, _ => performAlloc s
  | .allocPipe, _ => performAlloc s
  | .allocFd f i, _ =>
    match s.freeFd p with
    | some fd => .next { s.setSlot p fd (some f) with fip := update s.fip f (some i) } true
    | none => .next s false
  | .dupFd fd, _ =>
    match s.slot p fd, s.freeFd p with
    | some f, some fd' =>
      if s.fref f < 1 then .halt
      else .next ((s.setSlot p fd' (some f)).setFref f (s.fref f + 1)) true
    | _, _ => .next s false
  | .dupSlot fd, _ =>
    match s.slot p fd with
    | some f => if s.fref f < 1 then .halt else .next (s.setFref f (s.fref f + 1)) (some f)
    | none => .next s none
  | .takeSlot fd, _ => .next (s.setSlot p fd none) (s.slot p fd)
  | .exitSlot fd, _ => .next (s.setSlot p fd none) (s.slot p fd)
  | .close f, _ => performClose s f
  | .makePipe f0 f1 pi, _ =>
    .next { s with
      fpipe := update (update s.fpipe f0 (some (pi, false))) f1 (some (pi, true))
      ends := update s.ends pi (true, true)
      pipes := s.pipes ++ [[f0, f1, pi]] } ()
  | .pipeFd f, _ =>
    match s.freeFd p with
    | some fd => .next (s.setSlot p fd (some f)) (some fd)
    | none => .next s none
  | .pipeclose pi writable, _ => .next (performPipeclose s pi writable) ()
  | .swapCwd i, _ =>
    match s.cwd p with
    | some old => .next { s with cwd := update s.cwd p (some i) } old
    | none => .halt
  | .takeCwd, _ =>
    match s.cwd p with
    | some old => .next { s with cwd := update s.cwd p none } old
    | none => .halt
  | .spawn files i, .child np =>
    if s.live np then .blocked
    else
      .next { s with
        slot := update s.slot np fun fd => (files fd).or (s.slot np fd)
        cwd := update s.cwd np (some i)
        live := update s.live np true } ()
  | .die, _ => .next { s with live := update s.live p false } ()
  | .abandon i, _ => .next { s with refused := s.refused ++ [i] } ()
  | _, _ => .blocked

def perform (s : State) (p : Proc) (op : Op) (answer : Answer) : Outcome State op.Result :=
  if s.live p then performLive s p op answer else .blocked

/-! ## Programs -/

/-- One operation. -/
def act (op : Op) : Prog op.Result := Process.Code.perform op

/-- Stop unless a test succeeds. -/
def check : Prog Unit := do
  if ← act .test then pure () else act .panic

/-- `readi` and `writei`; `bmap` must stay inside of `addrs`. -/
def transfer : Prog Unit := check

/-- `iput`; the inode is truncated while it is locked. -/
def iput (i : Inode) : Prog Unit := do
  if ← act (.ireclaim i) then act (.iunlock i) else pure ()
  act (.idrop i)

def iunlockput (i : Inode) : Prog Unit := do
  act (.iunlock i)
  iput i

def dir_lookup : Prog (Option Inode) := do
  transfer
  match ← act .lookup with
  | none => pure none
  | some inum => do
      let i ← act (.iget inum)
      pure (some i)

/-- `dir_link`: has the entry been made? -/
def dir_link : Prog Bool := do
  match ← dir_lookup with
  | some i => do
      iput i
      pure false
  | none => do
      transfer
      act .test

def namexFrom (parent : Bool) : Nat → Inode → List UInt8 → Prog (Option Inode)
  | 0, _, _ => act .panic >>= fun _ => pure none
  | fuel + 1, ip, path =>
    match Fs.skipelem path with
    | none =>
      if parent then do
        iput ip
        pure none
      else pure (some ip)
    | some (component, rest) =>
      if component.length = DIRSIZ then do
        act .panic
        pure none
      else do
        act (.ilock ip)
        let directory ← act .test
        if ¬directory then do
          iunlockput ip
          pure none
        else if parent ∧ rest = [] then do
          act (.iunlock ip)
          pure (some ip)
        else do
          match ← dir_lookup with
          | none => do
              iunlockput ip
              pure none
          | some next => do
              iunlockput ip
              namexFrom parent fuel next rest

def namex (path : List UInt8) (parent : Bool) : Prog (Option Inode) := do
  let ip ← if path.head? = some Fs.slash then act (.iget ROOTINO) else act .idupCwd
  namexFrom parent (path.length + 1) ip path

def namei (path : List UInt8) : Prog (Option Inode) := namex path false

def nameiparent (path : List UInt8) : Prog (Option Inode) := namex path true

def ialloc : Prog (Option Inode) := do
  match ← act .lookup with
  | none => pure none
  | some inum => do
      let i ← act (.iget inum)
      pure (some i)

/-- The error exit of `create` after the new inode has been set up. -/
def createFailed (dp ip : Inode) : Prog (Option Inode) := do
  iunlockput ip
  iunlockput dp
  pure none

/-- The end of `create`: enter the new inode into its parent. -/
def createLink (dp ip : Inode) : Prog (Option Inode) := do
  if ← dir_link then do
    iunlockput dp
    pure (some ip)
  else createFailed dp ip

/-- The entries `.` and `..` of a new directory. -/
def linkDots : Prog Bool := do
  if ← dir_link then dir_link else pure false

/-- The part of `create` for a name that exists already. -/
def createExisting (dp ip : Inode) (file : Bool) : Prog (Option Inode) := do
  iunlockput dp
  act (.ilock ip)
  let fits ← act .test
  if file ∧ fits then pure (some ip)
  else do
    iunlockput ip
    pure none

/-- The part of `create` for a new name. -/
def createNew (dp : Inode) (directory : Bool) : Prog (Option Inode) := do
  match ← ialloc with
  | none => do
      iunlockput dp
      pure none
  | some ip => do
      act (.ilock ip)
      if directory then do
        if ← linkDots then createLink dp ip else createFailed dp ip
      else createLink dp ip

/-- The kinds of inodes `create` makes. -/
inductive Kind
  | directory
  | file
  | device
  deriving DecidableEq

def create (path : List UInt8) (kind : Kind) : Prog (Option Inode) := do
  match ← nameiparent path with
  | none => pure none
  | some dp => do
      act (.ilock dp)
      match ← dir_lookup with
      | some ip => createExisting dp ip (kind = .file)
      | none => createNew dp (kind = .directory)

/-- The end of `file::close`. -/
def closeEntry : Closed → Prog Unit
  | .nothing => pure ()
  | .inode i => iput i
  | .pipe pi writable => act (.pipeclose pi writable)

def close (f : FileIx) : Prog Unit := act (.close f) >>= closeEntry

/-- `fetch_str` into a buffer of `MAXPATH` bytes: has the path been fetched? -/
def fetch_str (path : List UInt8) (len : Nat) : Prog Bool := do
  if len ≤ path.length then pure false
  else if MAXPATH ≤ path.length then do
    act .panic
    pure false
  else act .test

/-- The first part of `sys_open`: find or create the inode, which is then locked. -/
def openInode (path : List UInt8) (creates : Bool) : Prog (Option Inode) := do
  if creates then create path .file
  else do
    match ← namei path with
    | none => pure none
    | some ip => do
        act (.ilock ip)
        if ← act .test then pure (some ip)
        else do
          iunlockput ip
          pure none

/-- `sys_open` once the inode is locked. -/
def openDescriptor (ip : Inode) : Prog Unit := do
  match ← act .alloc with
  | none => iunlockput ip
  | some f => do
      if ← act (.allocFd f ip) then act (.iunlock ip)
      else do
        close f
        iunlockput ip

def sys_open (path : List UInt8) (creates : Bool) : Prog Unit := do
  if ← fetch_str path MAXPATH then do
    match ← openInode path creates with
    | none => pure ()
    | some ip => do
        -- The permissions and the number of a device.
        if ← act .test then openDescriptor ip else iunlockput ip
  else pure ()

def sys_dup (fd : Fd) : Prog Unit := do
  let _ ← act (.dupFd fd)
  pure ()

def sys_close (fd : Fd) : Prog Unit := do
  match ← act (.takeSlot fd) with
  | none => pure ()
  | some f => close f

/-- `sys_pipe` once `pipealloc` has succeeded. -/
def pipeFds (f0 f1 : FileIx) : Prog Unit := do
  match ← act (.pipeFd f0) with
  | none => do
      close f0
      close f1
  | some fd0 => do
      match ← act (.pipeFd f1) with
      | none => do
          let _ ← act (.takeSlot fd0)
          close f0
          close f1
      | some fd1 => do
          -- The two calls of `copyout`.
          if ← act .test then pure ()
          else do
            let _ ← act (.takeSlot fd0)
            let _ ← act (.takeSlot fd1)
            close f0
            close f1

/-- `sys_pipe` with `pipealloc`. -/
def sys_pipe : Prog Unit := do
  match ← act .alloc with
  | none => pure ()
  | some f0 => do
      match ← act .alloc with
      | none => close f0
      | some f1 => do
          match ← act .allocPipe with
          | none => do
              close f0
              close f1
          | some pi => do
              act (.makePipe f0 f1 pi)
              pipeFds f0 f1

def sys_chdir (path : List UInt8) : Prog Unit := do
  if ← fetch_str path MAXPATH then do
    match ← namei path with
    | none => pure ()
    | some ip => do
        act (.ilock ip)
        if ← act .test then do
          act (.iunlock ip)
          let old ← act (.swapCwd ip)
          iput old
        else iunlockput ip
  else pure ()

def sys_mkdir (path : List UInt8) : Prog Unit := do
  if ← fetch_str path MAXPATH then do
    match ← create path .directory with
    | none => pure ()
    | some ip => iunlockput ip
  else pure ()

def sys_mknod (path : List UInt8) : Prog Unit := do
  if ← fetch_str path MAXFILE then do
    match ← create path .device with
    | none => pure ()
    | some ip => iunlockput ip
  else pure ()

/-- `loader::exec`: whether the file is rejected, or loaded and the rest of the call fails or not, it
is put once. -/
def exec (ip : Inode) : Prog Unit := do
  transfer
  iunlockput ip
  check

def sys_exec (path : List UInt8) : Prog Unit := do
  if ← fetch_str path MAXPATH then do
    check
    if ← act .test then do
      match ← namei path with
      | none => act .panic
      | some ip => do
          act (.ilock ip)
          if ← act .test then exec ip
          else do
            act (.iunlock ip)
            act (.abandon ip)
    else pure ()
  else pure ()

/-- The loop of `fork` over the descriptors. -/
def dupFiles : List Fd → (Fd → Option FileIx) → Prog (Fd → Option FileIx)
  | [], files => pure files
  | fd :: fds, files => do
      let f ← act (.dupSlot fd)
      dupFiles fds (update files fd f)

def sys_fork : Prog Unit := do
  check
  if ← act .test then do
    let files ← dupFiles (List.finRange NOFILE) fun _ => none
    let cwd ← act .idupCwd
    act (.spawn files cwd)
  else pure ()

/-- The loop of `exit` over the descriptors. -/
def closeFiles : List Fd → Prog Unit
  | [] => pure ()
  | fd :: fds => do
      match ← act (.exitSlot fd) with
      | none => closeFiles fds
      | some f => do
          close f
          closeFiles fds

/-- `exit`; process zero is the init process. -/
def sys_exit (p : Proc) : Prog Unit := do
  if p.val = 0 then act .panic
  else do
    closeFiles (List.finRange NOFILE)
    let cwd ← act .takeCwd
    iput cwd
    act .die

/-- The system calls that use references. -/
inductive Call
  | sys_open (path : List UInt8) (creates : Bool)
  | sys_close (fd : Fd)
  | sys_dup (fd : Fd)
  | sys_chdir (path : List UInt8)
  | sys_mkdir (path : List UInt8)
  | sys_mknod (path : List UInt8)
  | sys_exec (path : List UInt8)
  | sys_fork
  | sys_exit
  | sys_pipe
  deriving DecidableEq

def program (p : Proc) : Call → Prog Unit
  | .sys_open path creates => sys_open path creates
  | .sys_close fd => sys_close fd
  | .sys_dup fd => sys_dup fd
  | .sys_chdir path => sys_chdir path
  | .sys_mkdir path => sys_mkdir path
  | .sys_mknod path => sys_mknod path
  | .sys_exec path => sys_exec path
  | .sys_fork => sys_fork
  | .sys_exit => sys_exit p
  | .sys_pipe => sys_pipe

/-- The system with or without calls of `sys_pipe`. -/
def system (pipes : Bool) : Process.System Proc State Op Op.Result Answer Call where
  perform := perform
  begins s p call :=
    if s.live p = true ∧ (pipes = true ∨ call ≠ .sys_pipe) then some (program p call) else none

end OsCpp.Refs
