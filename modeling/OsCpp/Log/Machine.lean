import Mathlib.Data.List.AList
import OsCpp.Lib.Execution
import OsCpp.Log.Bio

/-!
# The log and the buffer cache as one concurrent machine

Processes interleave at the granularity of the locks of `kernel/bio.cpp` and `kernel/log.cpp`: one
event is one critical section, one disk transfer or one statement that touches a locked buffer.
The kernel functions that span several critical sections are instruction lists; a loop is an
instruction that tests its condition when it is reached and expands to its body.  Two history
variables record what the file system contains: `current` after every buffer modification and
`history` at every header write that commits a group.
-/

namespace OsCpp.Log

open Function (update)

/-- Position of the log on disk. The region contains at least its header block. -/
structure Geometry where
  /-- Block number of the header, `sb.logstart`. -/
  start : Nat
  /-- Number of blocks of the region, `sb.nlog`. -/
  size : Nat
  size_pos : 0 < size

/-- The region that `mkfs` lays out: the header follows the superblock, and `nlog` is `LOGSIZE`. -/
def mkfsLog : Geometry where
  start := 2
  size := LOGSIZE
  size_pos := by decide

/-- A disk of zeros, as `mkfs` leaves the log region. -/
def blankDisk : Nat → Block := fun _ => Bytes.zero BSIZE

/-- The panics of `bio.cpp` and `log.cpp`. -/
inductive Panic
  | noBuffers
  | brelseNoLock
  | bwriteNoLock
  | endOpCommitting
  | tooBigTransaction
  | outsideTransaction
  deriving DecidableEq, Repr

/-- The local buffer pointers of `log.cpp`, and those of a file-system operation. -/
inductive Local
  | to
  | source
  | lbuf
  | dbuf
  | head
  | op (index : Nat)
  deriving DecidableEq, Repr

/-- Progress of one reference through `bget`, `bread` and `brelse`. -/
inductive Stage
  /-- `bget` has counted the reference and waits for the sleep-lock. -/
  | referenced
  /-- The sleep-lock is held, the data may not be there yet. -/
  | locked
  | filled
  /-- `brelse` has released the sleep-lock but not yet dropped the reference. -/
  | unlocked
  deriving DecidableEq, Repr

/-- A buffer reference held by a process. -/
structure Handle where
  buf : Fin NBUF
  stage : Stage
  /-- The data was changed and neither logged nor written since. -/
  dirty : Bool
  deriving DecidableEq

/-- Instructions of the kernel functions that span several critical sections. -/
inductive Instr
  | bget (name : Local) (blockno : Nat)
  | acquire (name : Local)
  | fill (name : Local)
  | memmove (target from' : Local)
  | setHead (name : Local)
  | getHead (name : Local)
  | bwrite (name : Local)
  | release (name : Local)
  | put (name : Local)
  | commit
  | writeLog (tail : Nat)
  | installTrans (recovering : Bool) (index : Nat)
  | clear
  | finish
  | booted
  deriving DecidableEq, Repr

def bread (name : Local) (blockno : Nat) : List Instr :=
  [.bget name blockno, .acquire name, .fill name]

def brelse (name : Local) : List Instr := [.release name, .put name]

def whead (geometry : Geometry) : List Instr :=
  bread .head geometry.start ++ [.setHead .head, .bwrite .head] ++ brelse .head

def rhead (geometry : Geometry) : List Instr :=
  bread .head geometry.start ++ [.getHead .head] ++ brelse .head

/-- One iteration of `log::write_log`. -/
def writeLogBody (geometry : Geometry) (tail blockno : Nat) : List Instr :=
  bread .to (geometry.start + tail + 1) ++ bread .source blockno ++
    [.memmove .to .source, .bwrite .to] ++ brelse .source ++ brelse .to

/-- One iteration of `log::install_trans`. -/
def installBody (geometry : Geometry) (recovering : Bool) (index blockno : Nat) : List Instr :=
  bread .lbuf (geometry.start + index + 1) ++ bread .dbuf blockno ++
    [.memmove .dbuf .lbuf, .bwrite .dbuf] ++
    (if recovering then [.bwrite .dbuf] else []) ++ brelse .lbuf ++ brelse .dbuf

/-- The branch of `log::commit` taken when the header is not empty. -/
def commitBody (geometry : Geometry) : List Instr :=
  [.writeLog 0] ++ whead geometry ++ [.installTrans false 0, .clear] ++ whead geometry

def recover (geometry : Geometry) : List Instr :=
  rhead geometry ++ [.installTrans true 0, .clear] ++ whead geometry

/-- What `log.lock` guards. The header is kept as the list `block[0..n)`. -/
structure LogState where
  outstanding : Nat := 0
  committing : Bool := false
  lh : List Nat := []

/-- Offset of `logheader::block[index]`. -/
def blockOffset (index : Nat) : Nat := 4 + 4 * index

/-- Store `n` and `block[0..n)` in the header block, as `whead` does. -/
def storeHead (lh : List Nat) (block : Block) : Block :=
  lh.zipIdx.foldl (fun block entry => block.setField 4 (blockOffset entry.2) entry.1)
    (block.setField 4 0 lh.length)

/-- The entries `rhead` copies from the header block; `n` is a signed 32-bit integer. -/
def loadHead (block : Block) : List Nat :=
  let count := if block.field 4 0 < 2 ^ 31 then block.field 4 0 else 0
  (List.range count).map fun index => block.field 4 (blockOffset index)

/-- Local state of a process. -/
structure Proc where
  /-- Between `begin_op` and `end_op`. -/
  inOp : Bool := false
  /-- Distinct blocks passed to `lwrite` since `begin_op`. -/
  wrote : List Nat := []
  /-- Remaining instructions of the kernel function being executed. -/
  code : List Instr := []

/-- The whole machine. -/
structure State where
  disk : Nat → Block
  cache : Bio.Cache
  handles : AList fun _ : Pid × Local => Handle
  log : LogState
  procs : Pid → Proc
  /-- `recover` has not returned yet. -/
  booting : Bool
  panicked : Option Panic
  /-- Contents of the file system, every modification included. -/
  current : Nat → Block
  /-- Contents at the start and after each commit, latest first. -/
  history : List (Nat → Block)

/-- Process that runs `recover`. -/
def bootPid : Pid := 1

/-- The machine right after power-on. -/
def boot (geometry : Geometry) (disk : Nat → Block) (history : List (Nat → Block)) : State where
  disk := disk
  cache := Bio.init
  handles := ∅
  log := {}
  procs := fun pid => if pid = bootPid then { code := recover geometry ++ [.booted] } else {}
  booting := true
  panicked := none
  current := history.headD disk
  history := history

namespace State

/-- Replace the remaining instructions of a process. -/
def setCode (state : State) (pid : Pid) (code : List Instr) : State :=
  { state with
    procs := update state.procs pid { state.procs pid with code := code } }

def setBuf (state : State) (index : Fin NBUF) (buf : Bio.Buf) : State :=
  { state with cache := state.cache.set index buf }

def setHandle (state : State) (pid : Pid) (name : Local) (handle : Handle) : State :=
  { state with handles := state.handles.insert (pid, name) handle }

def fail (state : State) (panic : Panic) : State := { state with panicked := some panic }

def bufOf (state : State) (handle : Handle) : Bio.Buf := state.cache.buf handle.buf

end State

/-- `bget`: under `bcache.lock`, find or recycle a buffer and count the reference. -/
def stepBget (state : State) (pid : Pid) (name : Local) (blockno : Nat) (rest : List Instr) :
    Option State :=
  match state.handles.lookup (pid, name) with
  | some _ => none
  | none =>
    match state.cache.bget ROOTDEV blockno with
    | none => some (state.fail .noBuffers)
    | some (index, cache) =>
      some (({ state with cache := cache }.setHandle pid name
        { buf := index, stage := .referenced, dirty := false }).setCode pid rest)

/-- `sleeplock::acquire`, enabled when the lock is free. -/
def stepAcquire (state : State) (pid : Pid) (name : Local) (rest : List Instr) : Option State := do
  let handle ← state.handles.lookup (pid, name)
  let buf := state.bufOf handle
  if handle.stage = .referenced ∧ buf.lock = none then
    some (((state.setBuf handle.buf { buf with lock := some pid }).setHandle pid name
      { handle with stage := .locked }).setCode pid rest)
  else none

/-- Rest of `bread`: read the block from disk unless the buffer is valid. -/
def stepFill (state : State) (pid : Pid) (name : Local) (rest : List Instr) : Option State := do
  let handle ← state.handles.lookup (pid, name)
  let buf := state.bufOf handle
  let filled := if buf.valid then buf else { buf with data := state.disk buf.blockno, valid := true }
  if handle.stage = .locked then
    some (((state.setBuf handle.buf filled).setHandle pid name
      { handle with stage := .filled }).setCode pid rest)
  else none

/-- `std::memmove` of a whole block between two locked buffers. -/
def stepMemmove (state : State) (pid : Pid) (target from' : Local) (rest : List Instr) :
    Option State := do
  let into ← state.handles.lookup (pid, target)
  let out ← state.handles.lookup (pid, from')
  if into.stage = .filled ∧ out.stage = .filled then
    some (((state.setBuf into.buf
      { state.bufOf into with data := (state.bufOf out).data }).setHandle pid target
        { into with dirty := true }).setCode pid rest)
  else none

/-- The stores of `whead` into the header buffer. -/
def stepSetHead (state : State) (pid : Pid) (name : Local) (rest : List Instr) : Option State := do
  let handle ← state.handles.lookup (pid, name)
  let buf := state.bufOf handle
  if handle.stage = .filled then
    some (((state.setBuf handle.buf
      { buf with data := storeHead state.log.lh buf.data }).setHandle pid name
        { handle with dirty := true }).setCode pid rest)
  else none

/-- The loads of `rhead` from the header buffer. -/
def stepGetHead (state : State) (pid : Pid) (name : Local) (rest : List Instr) : Option State := do
  let handle ← state.handles.lookup (pid, name)
  if handle.stage = .filled then
    some ({ state with
      log := { state.log with lh := loadHead (state.bufOf handle).data } }.setCode pid rest)
  else none

/-- `bwrite`: write a locked buffer to disk. A non-empty header reaching its block commits. -/
def stepBwrite (geometry : Geometry) (state : State) (pid : Pid) (name : Local)
    (rest : List Instr) : Option State := do
  let handle ← state.handles.lookup (pid, name)
  let buf := state.bufOf handle
  if buf.lock = some pid then
    let written := { state with
      disk := update state.disk buf.blockno buf.data
      history :=
        if buf.blockno = geometry.start ∧ loadHead buf.data ≠ [] then
          state.current :: state.history
        else state.history }
    some ((written.setHandle pid name { handle with dirty := false }).setCode pid rest)
  else some (state.fail .bwriteNoLock)

/-- First half of `brelse`: release the sleep-lock. -/
def stepRelease (state : State) (pid : Pid) (name : Local) (rest : List Instr) : Option State := do
  let handle ← state.handles.lookup (pid, name)
  let buf := state.bufOf handle
  if buf.lock = some pid then
    some (((state.setBuf handle.buf { buf with lock := none }).setHandle pid name
      { handle with stage := .unlocked }).setCode pid rest)
  else some (state.fail .brelseNoLock)

/-- Second half of `brelse`: under `bcache.lock`, drop the reference. -/
def stepPut (state : State) (pid : Pid) (name : Local) (rest : List Instr) : Option State := do
  let handle ← state.handles.lookup (pid, name)
  if handle.stage = .unlocked then
    some ({ state with
      cache := state.cache.brelse handle.buf
      handles := state.handles.erase (pid, name) }.setCode pid rest)
  else none

/-- Execute the next instruction of a process. -/
def stepCode (geometry : Geometry) (state : State) (pid : Pid) : List Instr → Option State
  | [] => none
  | .bget name blockno :: rest => stepBget state pid name blockno rest
  | .acquire name :: rest => stepAcquire state pid name rest
  | .fill name :: rest => stepFill state pid name rest
  | .memmove target from' :: rest => stepMemmove state pid target from' rest
  | .setHead name :: rest => stepSetHead state pid name rest
  | .getHead name :: rest => stepGetHead state pid name rest
  | .bwrite name :: rest => stepBwrite geometry state pid name rest
  | .release name :: rest => stepRelease state pid name rest
  | .put name :: rest => stepPut state pid name rest
  | .commit :: rest =>
    some (state.setCode pid (if state.log.lh ≠ [] then commitBody geometry ++ rest else rest))
  | .writeLog tail :: rest =>
    match state.log.lh[tail]? with
    | some blockno =>
      some (state.setCode pid (writeLogBody geometry tail blockno ++ .writeLog (tail + 1) :: rest))
    | none => some (state.setCode pid rest)
  | .installTrans recovering index :: rest =>
    match state.log.lh[index]? with
    | some blockno =>
      some (state.setCode pid
        (installBody geometry recovering index blockno ++
          .installTrans recovering (index + 1) :: rest))
    | none => some (state.setCode pid rest)
  | .clear :: rest =>
    some ({ state with log := { state.log with lh := [] } }.setCode pid rest)
  | .finish :: rest =>
    some ({ state with log := { state.log with committing := false } }.setCode pid rest)
  | .booted :: rest => some ({ state with booting := false }.setCode pid rest)

/-- `begin_op`, enabled when it does not sleep. -/
def stepBeginOp (state : State) (pid : Pid) : Option State :=
  if state.log.committing then none
  else if state.log.lh.length + (state.log.outstanding + 1) * MAXOPBLOCKS > LOGSIZE then none
  else
    some { state with
      log := { state.log with outstanding := state.log.outstanding + 1 }
      procs := update state.procs pid
        { state.procs pid with inOp := true, wrote := [] } }

/-- `end_op` up to the release of `log.lock`; the last operation goes on to `commit`. -/
def stepEndOp (state : State) (pid : Pid) : Option State :=
  let log := { state.log with outstanding := state.log.outstanding - 1 }
  let left := update state.procs pid { state.procs pid with inOp := false }
  if log.committing then some ({ state with log := log }.fail .endOpCommitting)
  else if log.outstanding = 0 then
    some ({ state with log := { log with committing := true }, procs := left }.setCode pid
      [.commit, .finish])
  else some { state with log := log, procs := left }

/-- Note that the process has passed a block to `lwrite`. -/
def State.note (state : State) (pid : Pid) (blockno : Nat) : State :=
  let proc := state.procs pid
  { state with
    procs := update state.procs pid
      { proc with wrote := if blockno ∈ proc.wrote then proc.wrote else blockno :: proc.wrote } }

/-- `lwrite` of a buffer the process has obtained from `bread`. -/
def stepLwrite (geometry : Geometry) (state : State) (pid : Pid) (name : Local)
    (handle : Handle) : State :=
  let blockno := (state.bufOf handle).blockno
  if state.log.lh.length ≥ LOGSIZE ∨ state.log.lh.length ≥ geometry.size - 1 then
    state.fail .tooBigTransaction
  else if state.log.outstanding < 1 then state.fail .outsideTransaction
  else if blockno ∈ state.log.lh then
    (state.note pid blockno).setHandle pid name { handle with dirty := false }
  else
    { state.note pid blockno with
      cache := state.cache.bpin handle.buf
      log := { state.log with lh := state.log.lh ++ [blockno] } }.setHandle pid name
        { handle with dirty := false }

/-- What may happen next. -/
inductive Event
  | exec (pid : Pid)
  | bread (pid : Pid) (index blockno : Nat)
  /-- The process stores new contents in a buffer it holds. -/
  | modify (pid : Pid) (index : Nat) (block : Block)
  | lwrite (pid : Pid) (index : Nat)
  | brelse (pid : Pid) (index : Nat)
  | beginOp (pid : Pid)
  | endOp (pid : Pid)
  | crash

/-- The machine loses power. -/
def Event.isCrash : Event → Bool
  | .crash => true
  | _ => false

/-- A block outside the log region that the 32-bit header entries can name. -/
def Geometry.Home (geometry : Geometry) (blockno : Nat) : Prop :=
  (blockno < geometry.start ∨ geometry.start + geometry.size ≤ blockno) ∧ blockno < 2 ^ 32

instance (geometry : Geometry) (blockno : Nat) : Decidable (geometry.Home blockno) :=
  inferInstanceAs (Decidable (_ ∧ _))

/-- No reference of the process is dirty. -/
def settled (state : State) (pid : Pid) : Bool :=
  state.handles.entries.all fun entry => entry.1.1 ≠ pid ∨ entry.2.dirty = false

/-- One event.  Buffers are modified and logged between `begin_op` and `end_op` only, and a modified
buffer is logged before it is released. -/
def stepRunning (geometry : Geometry) (state : State) : Event → Option State
  | .exec pid => stepCode geometry state pid (state.procs pid).code
  | .bread pid index blockno =>
    if state.booting = false ∧ (state.procs pid).code = [] ∧ blockno < 2 ^ 32 ∧
        state.handles.lookup (pid, .op index) = none then
      some (state.setCode pid (bread (.op index) blockno))
    else none
  | .modify pid index block => do
      let handle ← state.handles.lookup (pid, .op index)
      let buf := state.bufOf handle
      if (state.procs pid).code = [] ∧ (state.procs pid).inOp ∧
          handle.stage = .filled ∧ geometry.Home buf.blockno then
        some { state.setBuf handle.buf { buf with data := block } with
          handles := state.handles.insert (pid, .op index) { handle with dirty := true }
          current := update state.current buf.blockno block }
      else none
  | .lwrite pid index => do
      let handle ← state.handles.lookup (pid, .op index)
      if (state.procs pid).code = [] ∧ (state.procs pid).inOp ∧
          handle.stage = .filled ∧ geometry.Home (state.bufOf handle).blockno then
        some (stepLwrite geometry state pid (.op index) handle)
      else none
  | .brelse pid index => do
      let handle ← state.handles.lookup (pid, .op index)
      if (state.procs pid).code = [] ∧ handle.stage = .filled ∧ handle.dirty = false then
        some (state.setCode pid (brelse (.op index)))
      else none
  | .beginOp pid =>
    if state.booting = false ∧ (state.procs pid).code = [] ∧ (state.procs pid).inOp = false then
      stepBeginOp state pid
    else none
  | .endOp pid =>
    if (state.procs pid).code = [] ∧ (state.procs pid).inOp ∧ settled state pid then
      stepEndOp state pid
    else none
  | .crash => some (boot geometry state.disk state.history)

/-- One event. After a panic the machine can only be restarted. -/
def step (geometry : Geometry) (state : State) (event : Event) : Option State :=
  if state.panicked.isSome ∧ event.isCrash = false then none else stepRunning geometry state event

section

variable {geometry : Geometry} {state next : State} {pid : Pid} {name : Local} {rest : List Instr}

private theorem ite_some_eq_some {condition : Prop} [Decidable condition] {yes no : State} :
    (if condition then some yes else some no) = some next ↔
      (condition ∧ next = yes) ∨ (¬condition ∧ next = no) := by
  split <;> simp_all [eq_comm]

private theorem bind_ite_eq_some {found : Option Handle} {condition : Handle → Prop}
    [DecidablePred condition] {after : Handle → State} :
    (found.bind fun handle => if condition handle then some (after handle) else none) = some next ↔
      ∃ handle, found = some handle ∧ condition handle ∧ after handle = next := by
  simp only [Option.bind_eq_some_iff, Option.ite_none_right_eq_some, Option.some.injEq]

theorem stepBget_eq_some {blockno : Nat} :
    stepBget state pid name blockno rest = some next ↔
      state.handles.lookup (pid, name) = none ∧
        ((state.cache.bget ROOTDEV blockno = none ∧ next = state.fail .noBuffers) ∨
          ∃ index cache, state.cache.bget ROOTDEV blockno = some (index, cache) ∧
            next = ({ state with cache := cache }.setHandle pid name
              { buf := index, stage := .referenced, dirty := false }).setCode pid rest) := by
  unfold stepBget
  cases state.handles.lookup (pid, name) with
  | some handle => simp
  | none =>
    cases state.cache.bget ROOTDEV blockno with
    | none => simp [eq_comm]
    | some found => simp [Prod.ext_iff, eq_comm]

theorem stepAcquire_eq_some :
    stepAcquire state pid name rest = some next ↔
      ∃ handle, state.handles.lookup (pid, name) = some handle ∧
        (handle.stage = .referenced ∧ (state.bufOf handle).lock = none) ∧
        ((state.setBuf handle.buf { state.bufOf handle with lock := some pid }).setHandle pid name
          { handle with stage := .locked }).setCode pid rest = next :=
  bind_ite_eq_some

theorem stepFill_eq_some :
    stepFill state pid name rest = some next ↔
      ∃ handle, state.handles.lookup (pid, name) = some handle ∧ handle.stage = .locked ∧
        ((state.setBuf handle.buf (if (state.bufOf handle).valid then state.bufOf handle else
          { state.bufOf handle with
            data := state.disk (state.bufOf handle).blockno
            valid := true })).setHandle pid name { handle with stage := .filled }).setCode pid rest
          = next :=
  bind_ite_eq_some

theorem stepMemmove_eq_some {target from' : Local} :
    stepMemmove state pid target from' rest = some next ↔
      ∃ into, state.handles.lookup (pid, target) = some into ∧
        ∃ out, state.handles.lookup (pid, from') = some out ∧
          (into.stage = .filled ∧ out.stage = .filled) ∧
          ((state.setBuf into.buf { state.bufOf into with data := (state.bufOf out).data }).setHandle
            pid target { into with dirty := true }).setCode pid rest = next := by
  simp only [stepMemmove, Option.bind_eq_bind, Option.bind_eq_some_iff,
    Option.ite_none_right_eq_some, Option.some.injEq]

theorem stepSetHead_eq_some :
    stepSetHead state pid name rest = some next ↔
      ∃ handle, state.handles.lookup (pid, name) = some handle ∧ handle.stage = .filled ∧
        ((state.setBuf handle.buf { state.bufOf handle with
          data := storeHead state.log.lh (state.bufOf handle).data }).setHandle pid name
            { handle with dirty := true }).setCode pid rest = next :=
  bind_ite_eq_some

theorem stepGetHead_eq_some :
    stepGetHead state pid name rest = some next ↔
      ∃ handle, state.handles.lookup (pid, name) = some handle ∧ handle.stage = .filled ∧
        { state with log := { state.log with lh := loadHead (state.bufOf handle).data } }.setCode
          pid rest = next :=
  bind_ite_eq_some

theorem stepBwrite_eq_some :
    stepBwrite geometry state pid name rest = some next ↔
      ∃ handle, state.handles.lookup (pid, name) = some handle ∧
        (((state.bufOf handle).lock = some pid ∧
          next = ({ state with
            disk := update state.disk (state.bufOf handle).blockno (state.bufOf handle).data
            history :=
              if (state.bufOf handle).blockno = geometry.start ∧
                  loadHead (state.bufOf handle).data ≠ [] then
                state.current :: state.history
              else state.history }.setHandle pid name
                { handle with dirty := false }).setCode pid rest) ∨
          ((state.bufOf handle).lock ≠ some pid ∧ next = state.fail .bwriteNoLock)) := by
  simp only [stepBwrite, Option.bind_eq_bind, Option.bind_eq_some_iff, ite_some_eq_some]

theorem stepRelease_eq_some :
    stepRelease state pid name rest = some next ↔
      ∃ handle, state.handles.lookup (pid, name) = some handle ∧
        (((state.bufOf handle).lock = some pid ∧
          next = ((state.setBuf handle.buf { state.bufOf handle with lock := none }).setHandle
            pid name { handle with stage := .unlocked }).setCode pid rest) ∨
          ((state.bufOf handle).lock ≠ some pid ∧ next = state.fail .brelseNoLock)) := by
  simp only [stepRelease, Option.bind_eq_bind, Option.bind_eq_some_iff, ite_some_eq_some]

theorem stepPut_eq_some :
    stepPut state pid name rest = some next ↔
      ∃ handle, state.handles.lookup (pid, name) = some handle ∧ handle.stage = .unlocked ∧
        { state with
          cache := state.cache.brelse handle.buf
          handles := state.handles.erase (pid, name) }.setCode pid rest = next :=
  bind_ite_eq_some

theorem ops_setCode (code : List Instr) (owner : Pid) :
    ((state.setCode pid code).procs owner).inOp = (state.procs owner).inOp ∧
      ((state.setCode pid code).procs owner).wrote = (state.procs owner).wrote := by
  by_cases same : owner = pid
  · subst same
    simp [State.setCode]
  · simp [State.setCode, same]

/-- What executing an instruction cannot change, whatever the instruction, and which instructions
change the rest. -/
structure Frame (code : List Instr) (state next : State) : Prop where
  ops : ∀ pid, (next.procs pid).inOp = (state.procs pid).inOp ∧
    (next.procs pid).wrote = (state.procs pid).wrote
  outstanding : next.log.outstanding = state.log.outstanding
  current : next.current = state.current
  disk : next.disk = state.disk ∧ next.history = state.history ∨
    ∃ name rest, code = .bwrite name :: rest
  booting : next.booting = state.booting ∨ ∃ rest, code = .booted :: rest
  committing : next.log.committing = state.log.committing ∨ ∃ rest, code = .finish :: rest
  lh : next.log.lh = state.log.lh ∨
    ∃ rest, code = .clear :: rest ∨ ∃ name, code = .getHead name :: rest
  panicked : next.panicked = state.panicked ∨ ∃ panic, next = state.fail panic ∧
    panic ∈ [.noBuffers, .brelseNoLock, .bwriteNoLock]

theorem frame_fail {code : List Instr} {panic : Panic}
    (known : panic ∈ [.noBuffers, .brelseNoLock, .bwriteNoLock]) :
    Frame code state (state.fail panic) :=
  ⟨fun _ => ⟨rfl, rfl⟩, rfl, rfl, .inl ⟨rfl, rfl⟩, .inl rfl, .inl rfl, .inl rfl, .inr ⟨_, rfl, known⟩⟩

theorem frame_quiet {code : List Instr} (cache : Bio.Cache) (handles : AList fun _ => Handle)
    (rest : List Instr) :
    Frame code state ({ state with cache := cache, handles := handles }.setCode pid rest) :=
  ⟨ops_setCode _, rfl, rfl, .inl ⟨rfl, rfl⟩, .inl rfl, .inl rfl, .inl rfl, .inl rfl⟩

theorem frame_of_stepCode {code : List Instr}
    (stepped : stepCode geometry state pid code = some next) : Frame code state next := by
  cases code with
  | nil => cases stepped
  | cons instr rest =>
    cases instr with
    | bget name blockno =>
      obtain ⟨-, ⟨-, rfl⟩ | ⟨_, _, -, rfl⟩⟩ := stepBget_eq_some.mp stepped
      · exact frame_fail (by simp)
      · exact frame_quiet ..
    | acquire name =>
      obtain ⟨_, -, -, rfl⟩ := stepAcquire_eq_some.mp stepped
      exact frame_quiet ..
    | fill name =>
      obtain ⟨_, -, -, rfl⟩ := stepFill_eq_some.mp stepped
      exact frame_quiet ..
    | memmove target from' =>
      obtain ⟨_, -, _, -, -, rfl⟩ := stepMemmove_eq_some.mp stepped
      exact frame_quiet ..
    | setHead name =>
      obtain ⟨_, -, -, rfl⟩ := stepSetHead_eq_some.mp stepped
      exact frame_quiet ..
    | getHead name =>
      obtain ⟨handle, -, -, rfl⟩ := stepGetHead_eq_some.mp stepped
      generalize loadHead (state.bufOf handle).data = lh
      exact ⟨ops_setCode _, rfl, rfl, .inl ⟨rfl, rfl⟩, .inl rfl, .inl rfl,
        .inr ⟨rest, .inr ⟨name, rfl⟩⟩, .inl rfl⟩
    | bwrite name =>
      obtain ⟨_, -, ⟨-, rfl⟩ | ⟨-, rfl⟩⟩ := stepBwrite_eq_some.mp stepped
      · exact ⟨ops_setCode _, rfl, rfl, .inr ⟨name, rest, rfl⟩, .inl rfl, .inl rfl, .inl rfl,
          .inl rfl⟩
      · exact frame_fail (by simp)
    | release name =>
      obtain ⟨_, -, ⟨-, rfl⟩ | ⟨-, rfl⟩⟩ := stepRelease_eq_some.mp stepped
      · exact frame_quiet ..
      · exact frame_fail (by simp)
    | put name =>
      obtain ⟨_, -, -, rfl⟩ := stepPut_eq_some.mp stepped
      exact frame_quiet ..
    | commit =>
      cases stepped
      exact frame_quiet ..
    | writeLog tail =>
      simp only [stepCode] at stepped
      split at stepped <;> cases stepped <;> exact frame_quiet ..
    | installTrans recovering index =>
      simp only [stepCode] at stepped
      split at stepped <;> cases stepped <;> exact frame_quiet ..
    | clear =>
      cases stepped
      exact ⟨ops_setCode _, rfl, rfl, .inl ⟨rfl, rfl⟩, .inl rfl, .inl rfl, .inr ⟨rest, .inl rfl⟩,
        .inl rfl⟩
    | finish =>
      cases stepped
      exact ⟨ops_setCode _, rfl, rfl, .inl ⟨rfl, rfl⟩, .inl rfl, .inr ⟨rest, rfl⟩, .inl rfl, .inl rfl⟩
    | booted =>
      cases stepped
      exact ⟨ops_setCode _, rfl, rfl, .inl ⟨rfl, rfl⟩, .inr ⟨rest, rfl⟩, .inl rfl, .inl rfl, .inl rfl⟩

theorem stepBeginOp_eq_some :
    stepBeginOp state pid = some next ↔
      state.log.committing = false ∧
        state.log.lh.length + (state.log.outstanding + 1) * MAXOPBLOCKS ≤ LOGSIZE ∧
        { state with
          log := { state.log with outstanding := state.log.outstanding + 1 }
          procs := update state.procs pid
            { state.procs pid with inOp := true, wrote := [] } } = next := by
  simp only [stepBeginOp, Option.ite_none_left_eq_some, Option.some.injEq, Bool.not_eq_true,
    gt_iff_lt, not_lt]

theorem stepRunning_bread_eq_some {index blockno : Nat} :
    stepRunning geometry state (.bread pid index blockno) = some next ↔
      (state.booting = false ∧ (state.procs pid).code = [] ∧ blockno < 2 ^ 32 ∧
        state.handles.lookup (pid, .op index) = none) ∧
        state.setCode pid (bread (.op index) blockno) = next := by
  simp only [stepRunning, Option.ite_none_right_eq_some, Option.some.injEq]

theorem stepRunning_modify_eq_some {index : Nat} {block : Block} :
    stepRunning geometry state (.modify pid index block) = some next ↔
      ∃ handle, state.handles.lookup (pid, .op index) = some handle ∧
        ((state.procs pid).code = [] ∧ (state.procs pid).inOp = true ∧
          handle.stage = .filled ∧ geometry.Home (state.bufOf handle).blockno) ∧
        { state.setBuf handle.buf { state.bufOf handle with data := block } with
          handles := state.handles.insert (pid, .op index) { handle with dirty := true }
          current := update state.current (state.bufOf handle).blockno block } = next :=
  bind_ite_eq_some

theorem stepRunning_lwrite_eq_some {index : Nat} :
    stepRunning geometry state (.lwrite pid index) = some next ↔
      ∃ handle, state.handles.lookup (pid, .op index) = some handle ∧
        ((state.procs pid).code = [] ∧ (state.procs pid).inOp = true ∧
          handle.stage = .filled ∧ geometry.Home (state.bufOf handle).blockno) ∧
        stepLwrite geometry state pid (.op index) handle = next :=
  bind_ite_eq_some

theorem stepRunning_brelse_eq_some {index : Nat} :
    stepRunning geometry state (.brelse pid index) = some next ↔
      ∃ handle, state.handles.lookup (pid, .op index) = some handle ∧
        ((state.procs pid).code = [] ∧ handle.stage = .filled ∧ handle.dirty = false) ∧
        state.setCode pid (brelse (.op index)) = next :=
  bind_ite_eq_some

theorem stepRunning_beginOp_eq_some :
    stepRunning geometry state (.beginOp pid) = some next ↔
      (state.booting = false ∧ (state.procs pid).code = [] ∧ (state.procs pid).inOp = false) ∧
        stepBeginOp state pid = some next := by
  simp only [stepRunning, Option.ite_none_right_eq_some]

theorem stepRunning_endOp_eq_some :
    stepRunning geometry state (.endOp pid) = some next ↔
      ((state.procs pid).code = [] ∧ (state.procs pid).inOp = true ∧ settled state pid = true) ∧
        stepEndOp state pid = some next := by
  simp only [stepRunning, Option.ite_none_right_eq_some]

/-- A system call neither writes to the disk nor ends `recover`. -/
theorem stepRunning_cases {event : Event} (stepped : stepRunning geometry state event = some next) :
    event = .crash ∧ next = boot geometry state.disk state.history ∨
      (∃ pid, event = .exec pid ∧ stepCode geometry state pid (state.procs pid).code = some next) ∨
      next.disk = state.disk ∧ next.history = state.history ∧ next.booting = state.booting := by
  cases event with
  | crash => exact .inl ⟨rfl, (Option.some.inj stepped).symm⟩
  | exec pid => exact .inr (.inl ⟨pid, rfl, stepped⟩)
  | bread pid index blockno =>
    obtain ⟨-, rfl⟩ := stepRunning_bread_eq_some.mp stepped
    exact .inr (.inr ⟨rfl, rfl, rfl⟩)
  | modify pid index block =>
    obtain ⟨handle, -, -, rfl⟩ := stepRunning_modify_eq_some.mp stepped
    exact .inr (.inr ⟨rfl, rfl, rfl⟩)
  | lwrite pid index =>
    obtain ⟨handle, -, -, rfl⟩ := stepRunning_lwrite_eq_some.mp stepped
    refine .inr (.inr ?_)
    simp only [stepLwrite]
    split_ifs <;> exact ⟨rfl, rfl, rfl⟩
  | brelse pid index =>
    obtain ⟨handle, -, -, rfl⟩ := stepRunning_brelse_eq_some.mp stepped
    exact .inr (.inr ⟨rfl, rfl, rfl⟩)
  | beginOp pid =>
    obtain ⟨-, began⟩ := stepRunning_beginOp_eq_some.mp stepped
    obtain ⟨-, -, rfl⟩ := stepBeginOp_eq_some.mp began
    exact .inr (.inr ⟨rfl, rfl, rfl⟩)
  | endOp pid =>
    obtain ⟨-, ended⟩ := stepRunning_endOp_eq_some.mp stepped
    refine .inr (.inr ?_)
    simp only [stepEndOp] at ended
    split_ifs at ended <;> cases ended <;> exact ⟨rfl, rfl, rfl⟩

theorem stepRunning_of_step {event : Event} (stepped : step geometry state event = some next) :
    stepRunning geometry state event = some next := by
  unfold step at stepped
  exact (Option.ite_none_left_eq_some.mp stepped).2

end

end OsCpp.Log
