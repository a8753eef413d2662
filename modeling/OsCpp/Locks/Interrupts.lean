import OsCpp.Lib.Execution

/-!
# Interrupts, spinlocks and context switches

`push_off`, `pop_off`, `spinlock::acquire` and `spinlock::release` of `kernel/lock.cpp`, and the switches
of `scheduler`, `sched`, `yield`, `sleep` and `forkret` of `kernel/proc.cpp`, run by any number of
processors.  `noff` and `intena` belong to the processor; a process takes along what it has to
restore, on its own stack, when it moves to another one.

A call is a list of operations that its thread executes one after the other, while other processors
go on.  Which process a scheduler finds runnable is left open: any one that does not run.
-/

namespace OsCpp.Interrupts

open Function (update)

variable {Cpu Pid Name : Type}

/-- A spinlock: that of a process, or some other one. -/
inductive Lock (Pid Name : Type)
  | proc (p : Pid)
  | other (name : Name)
  deriving DecidableEq

inductive Op (Pid Name : Type)
  | push_off
  | pop_off
  /-- The loop of `acquire`. -/
  | take (l : Lock Pid Name)
  /-- `release` before `pop_off`. -/
  | drop (l : Lock Pid Name)
  | sched
  | swtch (p : Pid)
  deriving DecidableEq

inductive Call (Pid Name : Type)
  | push_off
  | pop_off
  | acquire (l : Lock Pid Name)
  | release (l : Lock Pid Name)
  | yield
  | sleep (l : Lock Pid Name)
  deriving DecidableEq

def acquire (l : Lock Pid Name) : List (Op Pid Name) := [.push_off, .take l]

def release (l : Lock Pid Name) : List (Op Pid Name) := [.drop l, .pop_off]

/-- What a process does in a call. -/
def program (p : Pid) : Call Pid Name → List (Op Pid Name)
  | .push_off => [.push_off]
  | .pop_off => [.pop_off]
  | .acquire l => acquire l
  | .release l => release l
  | .yield => acquire (.proc p) ++ [.sched] ++ release (.proc p)
  | .sleep l =>
    acquire (.proc p) ++ release l ++ [.sched] ++ release (.proc p) ++ acquire l

/-- What a scheduler does with a process. -/
def visit (p : Pid) : List (Op Pid Name) := acquire (.proc p) ++ [.swtch p] ++ release (.proc p)

/-- A kernel thread: that of a process or of a scheduler. -/
structure Thread (Pid Name : Type) where
  todo : List (Op Pid Name) := []
  /-- `intena` of `sched`. -/
  intena : Bool := false
  /-- Is the process at the start of `forkret`? -/
  fresh : Bool := false
  /-- Has the process been switched from? -/
  away : Bool := false
  /-- The states of the interrupts before the outstanding calls of `push_off`, latest first. -/
  saved : List Bool := []
  /-- Calls of `push_off` that have not been matched. -/
  raw : Nat := 0
  held : List (Lock Pid Name) := []
  /-- The last call, and the interrupts and outstanding calls before it. -/
  call : Option (Call Pid Name) := none
  entry : Bool × List Bool := (false, [])

/-- `struct cpu`. -/
structure Processor (Pid : Type) where
  noff : UInt32 := 0
  intena : Bool := false
  intr : Bool := false
  runs : Option Pid := none
  /-- Calls of `push_off` less those of `pop_off`. -/
  outstanding : Nat := 0

structure State (Cpu Pid Name : Type) where
  cpus : Cpu → Processor Pid
  scheduler : Cpu → Thread Pid Name
  procs : Pid → Thread Pid Name
  locks : Lock Pid Name → Option Cpu
  panic : Option String := none

/-- A process that has not run, at the start of `forkret`. -/
def forkret (p : Pid) : Thread Pid Name :=
  { todo := release (.proc p), fresh := true, away := true, saved := [false] }

def init : State Cpu Pid Name where
  cpus := fun _ => {}
  scheduler := fun _ => {}
  procs := forkret
  locks := fun _ => none

def Processor.push_off (cpu : Processor Pid) : Processor Pid :=
  { cpu with
    intr := false
    intena := if cpu.noff = 0 then cpu.intr else cpu.intena
    noff := cpu.noff + 1
    outstanding := cpu.outstanding + 1 }

def Processor.pop_off (cpu : Processor Pid) : Except String (Processor Pid) :=
  if cpu.intr then .error "pop_off - interruptible"
  else if cpu.noff < 1 then .error "pop_off"
  else
    let cpu := { cpu with noff := cpu.noff - 1, outstanding := cpu.outstanding - 1 }
    .ok (if cpu.noff = 0 ∧ cpu.intena then { cpu with intr := true } else cpu)

inductive Event (Cpu Pid Name : Type)
  /-- Interrupts are enabled or disabled outside of these routines. -/
  | interrupts (c : Cpu) (enabled : Bool)
  | call (c : Cpu) (call : Call Pid Name)
  | visit (c : Cpu) (p : Pid)
  | op (c : Cpu)
  /-- The scheduler finds that the process cannot run. -/
  | skip (c : Cpu)
  /-- The entry of a process that does not run is used for a new one. -/
  | reuse (p : Pid)

variable [DecidableEq Cpu] [DecidableEq Pid] [DecidableEq Name]

/-- Operations that all threads have. -/
def basic (c : Cpu) (cpu : Processor Pid) (th : Thread Pid Name) (locks : Lock Pid Name → Option Cpu) :
    Option (Except String (Processor Pid × Thread Pid Name × (Lock Pid Name → Option Cpu))) :=
  match th.todo with
  | .push_off :: todo => some (.ok (cpu.push_off, { th with todo, saved := cpu.intr :: th.saved }, locks))
  | .pop_off :: todo =>
    some (cpu.pop_off.map fun cpu => (cpu, { th with todo, saved := th.saved.tail }, locks))
  | .take l :: todo =>
    if locks l = some c then some (.error "lock::acquire: already holding the lock")
    else if locks l = none then
      some (.ok (cpu, { th with todo }, update locks l (some c)))
    else none
  | .drop l :: todo =>
    some (if locks l = some c then .ok (cpu, { th with todo }, update locks l none)
      else .error "lock::release: no lock")
  | _ => none

/-- A call that matches earlier ones changes what is outstanding. -/
def Thread.matched (th : Thread Pid Name) : Call Pid Name → Option (Thread Pid Name)
  | .push_off => some { th with raw := th.raw + 1 }
  | .pop_off => if 0 < th.raw then some { th with raw := th.raw - 1 } else none
  | .acquire l => some { th with held := l :: th.held }
  | .release l => if l ∈ th.held then some { th with held := th.held.erase l } else none
  | .yield => some th
  | .sleep l => if l ∈ th.held then some th else none

namespace State

variable (s : State Cpu Pid Name) (c : Cpu) (p : Pid)

def fail (message : String) : State Cpu Pid Name := { s with panic := some message }

def setCpu (cpu : Processor Pid) : State Cpu Pid Name := { s with cpus := update s.cpus c cpu }

def setProc (th : Thread Pid Name) : State Cpu Pid Name :=
  { s with procs := update s.procs p th }

def setScheduler (th : Thread Pid Name) : State Cpu Pid Name :=
  { s with scheduler := update s.scheduler c th }

/-- `sched`, up to the point where it has been switched to the scheduler. -/
def sched (todo : List (Op Pid Name)) : State Cpu Pid Name :=
  let cpu := s.cpus c
  if s.locks (.proc p) ≠ some c then s.fail "proc::sched: should hold lock"
  else if cpu.noff ≠ 1 then s.fail "proc::sched: sched locks"
  else if cpu.intr then s.fail "proc::sched: interruptible"
  else
    (s.setProc p { s.procs p with todo, intena := cpu.intena, away := true }).setCpu c
      { cpu with runs := none }

/-- `swtch` of the scheduler, and the end of `sched` of the process. -/
def swtch (todo : List (Op Pid Name)) : State Cpu Pid Name :=
  let cpu := s.cpus c
  let th := s.procs p
  let s := s.setScheduler c { s.scheduler c with todo }
  if th.fresh then
    (s.setProc p { th with away := false, fresh := false, saved := [cpu.intena] }).setCpu c
      { cpu with runs := some p }
  else
    (s.setProc p { th with away := false }).setCpu c { cpu with runs := some p, intena := th.intena }

/-- The next operation of a process. -/
def opProc : Option (State Cpu Pid Name) :=
  match (s.procs p).todo with
  | .sched :: todo => some (s.sched c p todo)
  | _ => (basic c (s.cpus c) (s.procs p) s.locks).map fun
      | .error message => s.fail message
      | .ok (cpu, th, locks) => { (s.setProc p th).setCpu c cpu with locks }

/-- The next operation of a scheduler. -/
def opScheduler : Option (State Cpu Pid Name) :=
  match (s.scheduler c).todo with
  | .swtch p :: todo => if (s.procs p).away then some (s.swtch c p todo) else none
  | _ => (basic c (s.cpus c) (s.scheduler c) s.locks).map fun
      | .error message => s.fail message
      | .ok (cpu, th, locks) => { (s.setScheduler c th).setCpu c cpu with locks }

def begin (call : Call Pid Name) : Option (State Cpu Pid Name) :=
  let th := s.procs p
  if th.todo = [] then
    (th.matched call).map fun th => s.setProc p
      { th with todo := program p call, call := some call, entry := ((s.cpus c).intr, th.saved) }
  else none

end State

def step (s : State Cpu Pid Name) (event : Event Cpu Pid Name) : Option (State Cpu Pid Name) :=
  if s.panic = none then
    match event with
    | .interrupts c enabled =>
      let cpu := s.cpus c
      if cpu.noff = 0 then
        match cpu.runs with
        | none =>
          if (s.scheduler c).todo = [] then some (s.setCpu c { cpu with intr := enabled }) else none
        | some p =>
          if (s.procs p).todo = [] then
            some ((s.setProc p { s.procs p with call := none }).setCpu c { cpu with intr := enabled })
          else none
      else none
    | .call c call =>
      match (s.cpus c).runs with
      | none => none
      | some p => s.begin c p call
    | .visit c p =>
      if (s.cpus c).runs = none ∧ (s.scheduler c).todo = [] then
        some (s.setScheduler c { s.scheduler c with todo := visit p })
      else none
    | .op c =>
      match (s.cpus c).runs with
      | none => s.opScheduler c
      | some p => s.opProc c p
    | .skip c =>
      match (s.cpus c).runs, (s.scheduler c).todo with
      | none, .swtch _ :: todo => some (s.setScheduler c { s.scheduler c with todo })
      | _, _ => none
    | .reuse p => if (s.procs p).away then some (s.setProc p (forkret p)) else none
  else none

end OsCpp.Interrupts
