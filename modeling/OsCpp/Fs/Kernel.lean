import OsCpp.Fs.Format
import OsCpp.Lib.Program

/-!
# Kernel state seen by one system call

The file-system code runs here as a sequential program of the process that made the system call:
other processes run between system calls, not inside them.  Blocks are seen through the buffer cache,
so `blocks` holds the contents that `bread` returns.  The interleaved behaviour of cache and log is
the subject of the `Log` modules; what is kept of it here are the locks a call holds on buffers, the
buffers pinned by `lwrite` (no code path ever unpins them), the header of the log and the panics of
these functions.
-/

namespace OsCpp

/-- In-memory inodes. -/
def NINODE : Nat := 50

theorem NINODE_pos : 0 < NINODE := by decide

/-- Open files of the whole system. -/
def NFILE : Nat := 100

/-- Open files of a process. -/
def NOFILE : Nat := 16

/-- Device drivers. -/
def NDEV : Nat := 10

/-- Processes. -/
def NPROC : Nat := 64

theorem NPROC_pos : 0 < NPROC := by decide

theorem one_lt_NPROC : 1 < NPROC := by decide

/-- Size of the buffer for a path. -/
def MAXPATH : Nat := 128

namespace Fs

/-- Why a system call does not return. -/
inductive Stop
  /-- `fmt::panic` with its text. -/
  | panic (message : String)
  /-- The C++ program has no defined behaviour any more. -/
  | undefined (what : String)
  /-- The call sleeps and only its own process could wake it. -/
  | blocked (what : String)
  deriving DecidableEq

/-- What the log and the block map were asked to do, for statements about whole runs. -/
inductive Event
  | begin_op
  | end_op
  | lwrite (blockno : Nat)
  /-- `bmap` was called for a block of a file. -/
  | bmap (bn : Nat)
  /-- `itrunc` was called; was the slot of the indirect block in use? -/
  | itrunc (indirect : Bool)
  deriving DecidableEq

/-- `file::inode`, an entry of `itable`. -/
structure Inode where
  inum : Nat := 0
  ref : Nat := 0
  valid : Bool := false
  lock : Option (Fin NPROC) := none
  node : Dinode := {}

inductive FileType
  | FD_NONE
  | FD_PIPE
  | FD_INODE
  | FD_DEVICE
  deriving DecidableEq

/-- `file::file`, an entry of `ftable`. -/
structure File where
  type : FileType := .FD_NONE
  ref : Nat := 0
  readable : Bool := false
  writable : Bool := false
  ip : Option (Fin NINODE) := none
  off : Nat := 0
  major : UInt16 := 0

/-- The file-system part of `proc::process`. -/
structure Process where
  live : Bool := false
  ofile : Fin NOFILE → Option (Fin NFILE) := fun _ => none
  cwd : Option (Fin NINODE) := none

/-- Kernel state between two steps of a system call. -/
structure Kernel where
  sb : Superblock
  /-- Contents of the blocks as `bread` returns them. -/
  blocks : Nat → Block
  /-- Blocks whose buffers are locked by the running call. -/
  held : List Nat := []
  /-- Blocks whose buffers `lwrite` has pinned. -/
  pinned : List Nat := []
  outstanding : Nat := 0
  /-- `log.lh.block[0 .. log.lh.n)`. -/
  lh : List Nat := []
  /-- Everything logged since boot, latest first. -/
  trace : List Event := []
  itable : Fin NINODE → Inode := fun _ => {}
  ftable : Fin NFILE → File := fun _ => {}
  procs : Fin NPROC → Process := fun _ => {}
  curr : Fin NPROC := ⟨0, NPROC_pos⟩
  /-- The user structure that all processes share. -/
  uid : UInt32 := 0
  gid : UInt32 := 0

/-- A piece of kernel code. -/
abbrev Prog := EStateM Stop Kernel

/-- Go on only if a condition holds. -/
def check (condition : Prop) [Decidable condition] (stop : Stop) : Prog Unit :=
  if condition then pure () else throw stop

def note (event : Event) : Prog Unit := modify fun s => { s with trace := event :: s.trace }

/-- `bio::bread`: a buffer for the block is found or recycled, locked and filled. -/
def bread (blockno : Nat) : Prog Unit := do
  let s ← get
  check (blockno ∉ s.held) (.blocked "bio::bget")
  check (blockno ∈ s.pinned ∨ s.pinned.length + (s.held.filter (· ∉ s.pinned)).length < NBUF)
    (.panic "no buffers")
  set { s with held := blockno :: s.held }

def brelse (blockno : Nat) : Prog Unit := do
  let s ← get
  check (blockno ∈ s.held) (.panic "bio::brelse: no lock")
  set { s with held := s.held.erase blockno }

/-- Read the data of a buffer. -/
def bufData (blockno : Nat) : Prog Block := do
  return (← get).blocks blockno

/-- Replace the data of a buffer. -/
def setData (blockno : Nat) (block : Block) : Prog Unit :=
  modify fun s => { s with blocks := Function.update s.blocks blockno block }

def outsideOfTrans : Stop := .panic "log_write outside of trans"

def lwrite (blockno : Nat) : Prog Unit := do
  let s ← get
  check (s.lh.length < LOGSIZE ∧ s.lh.length + 1 < s.sb.nlog) (.panic "too big a transaction")
  check (1 ≤ s.outstanding) outsideOfTrans
  set { s with
    lh := if blockno ∈ s.lh then s.lh else s.lh ++ [blockno]
    pinned := if blockno ∈ s.lh then s.pinned else s.pinned.insert blockno
    trace := .lwrite blockno :: s.trace }

/-- The buffers used by `write_log`; the contents of log blocks are not part of this state. -/
def writeLog (start : Nat) : Nat → List Nat → Prog Unit
  | _, [] => pure ()
  | tail, blockno :: rest => do
      bread (start + tail + 1)
      bread blockno
      brelse blockno
      brelse (start + tail + 1)
      writeLog start (tail + 1) rest

/-- The buffer used by `whead`. -/
def whead (start : Nat) : Prog Unit := do
  bread start
  brelse start

/-- The buffers used by `install_trans`. -/
def installTrans (start : Nat) : Nat → List Nat → Prog Unit
  | _, [] => pure ()
  | tail, blockno :: rest => do
      bread (start + tail + 1)
      bread blockno
      brelse (start + tail + 1)
      brelse blockno
      installTrans start (tail + 1) rest

def commit : Prog Unit := do
  let s ← get
  if s.lh = [] then pure ()
  else do
    writeLog s.sb.logstart 0 s.lh
    whead s.sb.logstart
    installTrans s.sb.logstart 0 s.lh
    modify fun s => { s with lh := [] }
    whead s.sb.logstart

/-- `log::begin_op`; no commit is running between the steps of a sequential call. -/
def begin_op : Prog Unit := do
  let s ← get
  check (s.lh.length + (s.outstanding + 1) * MAXOPBLOCKS ≤ LOGSIZE) (.blocked "log::begin_op")
  set { s with outstanding := s.outstanding + 1, trace := .begin_op :: s.trace }

def end_op : Prog Unit := do
  modify fun s => { s with
    outstanding := if s.outstanding = 0 then 2 ^ 32 - 1 else s.outstanding - 1
    trace := .end_op :: s.trace }
  let s ← get
  if s.outstanding = 0 then commit else pure ()

end Fs
end OsCpp
