import OsCpp.Fs.Kernel
import OsCpp.Lib.Execution
import Mathlib.Data.List.FinRange

/-!
# Processes and processors

The scheduler loop, `sched`, `yield`, `sleep`, `wakeup`, `kill`, `fork`, `exit` and `wait` of
`kernel/proc.cpp` run by any number of processors.  A step is a critical section of the lock of one
process; where a routine keeps a lock for longer, the lock is held in the states between its steps.
The registers that `swtch` saves and loads stand for the point at which a kernel thread goes on.

`wait_lock` is held by a processor from one step to another one as well.  The calls that a process
makes besides these (`exec`, `sbrk`, `open`, `chdir` and so on) change its own resources only.
-/

namespace OsCpp.Proc

/-- Index of an entry of `proc_list`. -/
abbrev Slot := Fin NPROC

/-- `proc_status`. -/
inductive Status
  | UNUSED
  | USED
  | SLEEPING
  | RUNNABLE
  | RUNNING
  | ZOMBIE
  deriving DecidableEq

/-- An address that processes sleep on: that of a process, in `wait`, or some other one. -/
inductive Chan
  | proc (p : Slot)
  | other (address : Nat)
  deriving DecidableEq

/-- A place in the code. -/
inductive Point
  /-- User code, and kernel code that is not part of the routines below. -/
  | outside
  /-- `fork`, in the loop of `alloc_proc`. -/
  | allocating (todo : List Slot)
  /-- `fork`, with the lock of the child held. -/
  | copying (np : Slot)
  /-- `fork`, before the parent is set. -/
  | linking (np : Slot)
  /-- `fork`, before the child becomes runnable. -/
  | publishing (np : Slot)
  /-- `exit`, in the loop over the open files. -/
  | closing (status : Int) (todo : List (Fin NOFILE))
  /-- `exit`, before `wait_lock` is taken. -/
  | leaving (status : Int)
  /-- `exit`, in the loop of `reparent`. -/
  | reparenting (status : Int) (todo : List Slot)
  /-- `exit`, in the loop of `wakeup`. -/
  | rousing (chan : Option Chan) (todo : List Slot) (next : Point)
  /-- `exit`, before the process becomes a zombie. -/
  | dying (status : Int)
  /-- `exit`, behind `sched`. -/
  | dead
  /-- `wait`, or the end of its `sleep`, before `wait_lock` is taken. -/
  | entering
  /-- `wait`, in the loop over the children. -/
  | scanning (havekids : Bool) (todo : List Slot)
  /-- `wait`, at the call of `get_killed`. -/
  | checking
  /-- `wait`, at the call of `sleep`. -/
  | dozing
  /-- `kill`, in its loop. -/
  | killing (pid : Nat) (todo : List Slot)
  deriving DecidableEq

/-- Where the kernel thread of a process goes on. -/
inductive Thread
  | code (point : Point)
  /-- `sched` is called, and will return to a point; did the process go to sleep? -/
  | sched (slept : Bool) (next : Point)
  /-- The saved context: behind the `swtch` of `sched`, or at the start of `forkret`. -/
  | switched (slept : Bool) (next : Point)
  deriving DecidableEq

/-- The point at which a thread is or will go on. -/
def Thread.point : Thread → Point
  | .code point | .sched _ point | .switched _ point => point

/-- What a process has. -/
structure Resources where
  trapframe : Option Nat := none
  pagetable : Option Nat := none
  sz : Nat := 0
  cwd : Option Nat := none
  ofile : Fin NOFILE → Option Nat := fun _ => none

variable {Cpu : Type}

/-- `struct process`. -/
structure Process (Cpu : Type) where
  lock : Option Cpu := none
  status : Status := .UNUSED
  pid : Nat := 0
  chan : Option Chan := none
  killed : Bool := false
  xstate : Int := 0
  parent : Option Slot := none
  res : Resources := {}
  /-- The saved context, or where the running thread is. -/
  thread : Thread := .code .outside
  a0 : Int := 0
  /-- Has the context been saved completely? -/
  saved : Bool := false

/-- What a processor does. -/
inductive Mode
  /-- The loop of `scheduler`, between two processes. -/
  | loop
  | enter (p : Slot)
  /-- The kernel thread of a process or its user code. -/
  | run (p : Slot)
  /-- `swtch` from a process, whose context is saved. -/
  | save (p : Slot)
  /-- `scheduler` behind `swtch`. -/
  | leave (p : Slot)
  deriving DecidableEq

/-- `c->proc`. -/
def Mode.proc : Mode → Option Slot
  | .loop => none
  | .enter p | .run p | .save p | .leave p => some p

/-- What becomes of processes that have exited. -/
inductive Note
  | died (p : Slot) (pid : Nat) (xstate : Int)
  /-- `wait` of a process returns the number and the status, when the parent is this one. -/
  | reaped (p : Slot) (pid : Nat) (xstate : Int) (waiter : Slot) (parent : Option Slot)
  deriving DecidableEq

structure State (Cpu : Type) where
  proc_list : Slot → Process Cpu
  mode : Cpu → Mode
  wait_lock : Option Cpu := none
  next_pid : Nat
  panic : Option String := none
  history : List Note := []

def init_proc : Slot := ⟨0, NPROC_pos⟩

/-- `proc_list` in its order. -/
def slots : List Slot := List.finRange NPROC

def user_init (trapframe pagetable cwd : Nat) : State Cpu where
  proc_list := Function.update (fun _ => {}) init_proc
    { status := .RUNNABLE, pid := 1, thread := .switched false .outside, saved := true
      res := { trapframe := some trapframe, pagetable := some pagetable, sz := 4096, cwd := some cwd } }
  mode := fun _ => .loop
  next_pid := 2

/-- The calls of the processes. -/
inductive Call
  | fork
  | exit (status : Int)
  | wait
  | kill (pid : Nat)
  | set_killed
  /-- A call that changes the resources of the process. -/
  | change (pagetable : Option Nat) (sz : Nat) (cwd : Option Nat) (ofile : Fin NOFILE → Option Nat)

/-- What the rest of the system decides. -/
structure Answer where
  /-- The frames for the child of `fork`, if there are enough. -/
  memory : Option (Nat × Nat) := none
  /-- Does `copyout` succeed in `wait`? -/
  copied : Bool := true

inductive Event (Cpu : Type)
  /-- `scheduler` takes the lock of a process that can run. -/
  | pick (c : Cpu) (p : Slot)
  /-- `swtch` has loaded the context of the process. -/
  | enter (c : Cpu)
  | begin (c : Cpu) (call : Call)
  | advance (c : Cpu) (answer : Answer)
  /-- `yield`, on a timer interrupt. -/
  | yield (c : Cpu)
  /-- `sleep` of some other routine. -/
  | sleep (c : Cpu) (address : Nat)
  /-- `wakeup` of some other routine reaches a process in its loop. -/
  | wakeup (c : Cpu) (chan : Chan) (q : Slot)
  /-- `swtch` has saved the context of the process. -/
  | save (c : Cpu)
  /-- `scheduler` releases the lock of the process. -/
  | leave (c : Cpu)

/-- Points at which no lock is held and interrupts are enabled. -/
def Point.preemptible : Point → Bool
  | .outside | .allocating _ | .linking _ | .publishing _ | .closing .. | .leaving _ | .entering
  | .killing .. => true
  | _ => false

/-- Points at which other routines can put the process to sleep: file operations do. -/
def Point.sleepable : Point → Bool
  | .outside | .closing .. | .leaving _ => true
  | _ => false

/-- `static_cast<int32_t>`. -/
def int32 (n : Nat) : Int := (BitVec.ofNat 32 n).toInt

def Process.free (x : Process Cpu) : Process Cpu :=
  { x with
    res := { x.res with trapframe := none, pagetable := none, sz := 0 }
    pid := 0
    parent := none
    chan := none
    killed := false
    status := .UNUSED }

/-- The body of the loop of `wakeup`. -/
def Process.wake (x : Process Cpu) (chan : Option Chan) : Process Cpu :=
  if x.status = .SLEEPING ∧ x.chan = chan then { x with status := .RUNNABLE } else x

/-- `kill` on the process it has found. -/
def Process.kill (x : Process Cpu) : Process Cpu :=
  { x with
    killed := true
    status := if x.status = .SLEEPING then .RUNNABLE else x.status }

namespace State

variable [DecidableEq Cpu] (s : State Cpu) (c : Cpu) (p : Slot)

def set (x : Process Cpu) : State Cpu := { s with proc_list := Function.update s.proc_list p x }

/-- The thread of a process goes on at a point. -/
def goto (point : Point) : State Cpu := s.set p { s.proc_list p with thread := .code point }

/-- A call returns. -/
def ret (value : Int) : State Cpu := (s.set p { s.proc_list p with a0 := value }).goto p .outside

def setMode (mode : Mode) : State Cpu := { s with mode := Function.update s.mode c mode }

def fail (message : String) : State Cpu := { s with panic := some message }

/-- `wait_lock.release()`. -/
def unlock (next : State Cpu) : State Cpu :=
  if s.wait_lock = some c then { next with wait_lock := none } else s.fail "lock::release: no lock"

def sched (slept : Bool) (next : Point) : State Cpu :=
  if (s.proc_list p).lock = some c then
    (s.set p { s.proc_list p with thread := .switched slept next, saved := false }).setMode c (.save p)
  else s.fail "proc::sched: should hold lock"

/-- The end of `yield`, of `sleep` and of `forkret`. -/
def resume (slept : Bool) (next : Point) : State Cpu :=
  let x := s.proc_list p
  if x.lock = some c then
    s.set p { x with lock := none, thread := .code next, chan := if slept then none else x.chan }
  else s.fail "lock::release: no lock"

/-- `alloc_proc` looks at an entry. -/
def alloc (q : Slot) (todo : List Slot) : State Cpu :=
  let x := s.proc_list q
  if x.status = .UNUSED then
    { s.set q { x with lock := some c, pid := s.next_pid, status := .USED } with
      next_pid := (s.next_pid + 1) % 2 ^ 32 }.goto p (.copying q)
  else s.goto p (.allocating todo)

/-- `fork` up to the release of the lock of the child. -/
def copy (np : Slot) (memory : Option (Nat × Nat)) : State Cpu :=
  let x := s.proc_list np
  if x.lock = some c then
    match memory with
    | none => (s.set np { x.free with lock := none }).ret p (-1)
    | some (trapframe, pagetable) =>
      let own := (s.proc_list p).res
      (s.set np { x with
        lock := none
        res := {
          trapframe := some trapframe
          pagetable := some pagetable
          sz := own.sz
          cwd := own.cwd
          ofile := fun fd => (own.ofile fd).or (x.res.ofile fd) }
        thread := .switched false .outside
        saved := true }).goto p (.linking np)
  else s.fail "lock::release: no lock"

/-- `exit` closes a file. -/
def closeFile (status : Int) (fd : Fin NOFILE) (todo : List (Fin NOFILE)) : State Cpu :=
  let x := s.proc_list p
  s.set p { x with
    res := { x.res with ofile := Function.update x.res.ofile fd none }
    thread := .code (.closing status todo) }

/-- `exit` gives up the working directory and takes `wait_lock`. -/
def lockWait (status : Int) : State Cpu :=
  let x := s.proc_list p
  { s.set p { x with
      res := { x.res with cwd := none }
      thread := .code (.reparenting status slots) } with
    wait_lock := some c }

/-- `reparent` looks at an entry. -/
def reparent (status : Int) (q : Slot) (todo : List Slot) : State Cpu :=
  if (s.proc_list q).parent = some p then
    (s.set q { s.proc_list q with parent := some init_proc }).goto p
      (.rousing (some (.proc init_proc)) slots (.reparenting status todo))
  else s.goto p (.reparenting status todo)

/-- The process becomes a zombie. -/
def die (status : Int) : State Cpu :=
  let x := s.proc_list p
  s.unlock c { s.set p { x with
      lock := some c
      xstate := status
      status := .ZOMBIE
      thread := .sched false .dead } with
    history := .died p x.pid status :: s.history }

/-- `wait` looks at a child. -/
def scan (q : Slot) (todo : List Slot) (copied : Bool) : State Cpu :=
  let x := s.proc_list q
  if x.status = .ZOMBIE then
    if copied then
      s.unlock c { (s.set q x.free).ret p (int32 x.pid) with
        history := .reaped q x.pid x.xstate p x.parent :: s.history }
    else s.unlock c (s.ret p (-1))
  else s.goto p (.scanning true todo)

/-- `sleep(p, wait_lock)`. -/
def doze : State Cpu :=
  let x := s.proc_list p
  s.unlock c (s.set p { x with
    lock := some c
    chan := some (.proc p)
    status := .SLEEPING
    thread := .sched true .entering })

/-- Go on if the lock of a process is free. -/
def locking (q : Slot) (next : State Cpu) : Option (State Cpu) :=
  if (s.proc_list q).lock = none then some next else none

/-- Go on if `wait_lock` is free. -/
def waiting (next : State Cpu) : Option (State Cpu) :=
  if s.wait_lock = none then some next else none

/-- The code of a process that runs goes on. -/
def advance (answer : Answer) : Point → Option (State Cpu)
  | .outside => none
  | .allocating [] => some (s.fail "proc::alloc: no proc")
  | .allocating (q :: todo) => s.locking q (s.alloc c p q todo)
  | .copying np => some (s.copy c p np answer.memory)
  | .linking np =>
    s.waiting ((s.set np { s.proc_list np with parent := some p }).goto p (.publishing np))
  | .publishing np =>
    s.locking np ((s.set np { s.proc_list np with status := .RUNNABLE }).ret p
      (int32 (s.proc_list np).pid))
  | .closing status [] => some (s.goto p (.leaving status))
  | .closing status (fd :: todo) => some (s.closeFile p status fd todo)
  | .leaving status => s.waiting (s.lockWait c p status)
  | .reparenting status [] =>
    some (s.goto p (.rousing ((s.proc_list p).parent.map .proc) slots (.dying status)))
  | .reparenting status (q :: todo) => some (s.reparent p status q todo)
  | .rousing _ [] next => some (s.goto p next)
  | .rousing chan (q :: todo) next =>
    if q = p then some (s.goto p (.rousing chan todo next))
    else s.locking q ((s.set q ((s.proc_list q).wake chan)).goto p (.rousing chan todo next))
  | .dying status => s.locking p (s.die c p status)
  | .dead => some (s.fail "proc::exit: zombie exit")
  | .entering => s.waiting { s.goto p (.scanning false slots) with wait_lock := some c }
  | .scanning havekids [] =>
    some (if havekids then s.goto p .checking else s.unlock c (s.ret p (-1)))
  | .scanning havekids (q :: todo) =>
    if (s.proc_list q).parent = some p then s.locking q (s.scan c p q todo answer.copied)
    else some (s.goto p (.scanning havekids todo))
  | .checking =>
    s.locking p (if (s.proc_list p).killed then s.unlock c (s.ret p (-1))
      else s.goto p .dozing)
  | .dozing => s.locking p (s.doze c p)
  | .killing _ [] => some (s.ret p (-1))
  | .killing pid (q :: todo) =>
    s.locking q (if (s.proc_list q).pid = pid then (s.set q (s.proc_list q).kill).ret p 0
      else s.goto p (.killing pid todo))

def proceed (answer : Answer) : Option (State Cpu) :=
  match (s.proc_list p).thread with
  | .code point => s.advance c p answer point
  | .sched slept next => some (s.sched c p slept next)
  | .switched slept next => some (s.resume c p slept next)

/-- A process that runs begins a call. -/
def start : Call → Option (State Cpu)
  | .fork => some (s.goto p (.allocating slots))
  | .exit status =>
    some (if p = init_proc then s.fail "proc::exit: init exiting"
      else s.goto p (.closing status (List.finRange NOFILE)))
  | .wait => some (s.goto p .entering)
  | .kill pid => some (s.goto p (.killing pid slots))
  | .set_killed => s.locking p (s.set p { s.proc_list p with killed := true })
  | .change pagetable sz cwd ofile =>
    some (s.set p { s.proc_list p with
      res := { (s.proc_list p).res with pagetable, sz, cwd, ofile } })

/-- The process that runs on a processor takes its lock and calls `sched`. -/
def stop (status : Status) (chan : Option Chan) (slept : Bool) (next : Point) : Option (State Cpu) :=
  s.locking p (s.set p { s.proc_list p with
    lock := some c
    status
    chan
    thread := .sched slept next })

/-- `yield`, where no lock is held. -/
def preempt : Option (State Cpu) :=
  match (s.proc_list p).thread with
  | .code point =>
    if point.preemptible then s.stop c p .RUNNABLE (s.proc_list p).chan false point else none
  | _ => none

/-- `sleep` of some other routine. -/
def pause (address : Nat) : Option (State Cpu) :=
  match (s.proc_list p).thread with
  | .code point =>
    if point.sleepable then s.stop c p .SLEEPING (some (.other address)) true point else none
  | _ => none

end State

def step [DecidableEq Cpu] (s : State Cpu) (event : Event Cpu) : Option (State Cpu) :=
  if s.panic = none then
    match event with
    | .pick c p =>
      let x := s.proc_list p
      if s.mode c = .loop ∧ x.lock = none ∧ x.status = .RUNNABLE then
        some ((s.set p { x with lock := some c, status := .RUNNING }).setMode c (.enter p))
      else none
    | .enter c =>
      match s.mode c with
      | .enter p => some (s.setMode c (.run p))
      | _ => none
    | .begin c call =>
      match s.mode c with
      | .run p => if (s.proc_list p).thread = .code .outside then s.start p call else none
      | _ => none
    | .advance c answer =>
      match s.mode c with
      | .run p => s.proceed c p answer
      | _ => none
    | .yield c =>
      match s.mode c with
      | .run p => s.preempt c p
      | _ => none
    | .sleep c address =>
      match s.mode c with
      | .run p => s.pause c p address
      | _ => none
    | .wakeup c chan q =>
      if (s.mode c).proc ≠ some q then s.locking q (s.set q ((s.proc_list q).wake (some chan)))
      else none
    | .save c =>
      match s.mode c with
      | .save p =>
        some ((s.set p { s.proc_list p with saved := true }).setMode c (.leave p))
      | _ => none
    | .leave c =>
      match s.mode c with
      | .leave p =>
        some (if (s.proc_list p).lock = some c then
          (s.set p { s.proc_list p with lock := none }).setMode c .loop
        else s.fail "lock::release: no lock")
      | _ => none
  else none

end OsCpp.Proc
