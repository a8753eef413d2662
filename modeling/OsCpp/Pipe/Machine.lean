import OsCpp.Layout
import OsCpp.Lib.Execution

/-!
# Pipes

`pipewrite`, `piperead` and `pipeclose` of `kernel/pipe.cpp` run by any number of processes.  Steps
are the iterations of their loops: `pi->lock` keeps other users of the pipe out between two of them,
but not `proc::kill`, which takes no part in that lock.  `sleep` gives up the lock and goes to sleep
in one step, because it holds the lock of its process in between.
-/

namespace OsCpp.Pipe

open Function (update)

/-- Size of the ring. -/
def PIPESIZE : UInt32 := 512

/-- What a process can sleep on. -/
inductive Chan
  | nread
  | nwrite
  deriving DecidableEq

/-- A call at a point where it has, or needs, `pi->lock`. -/
inductive Call
  /-- `pipewrite` at its loop, with `i` of `n` bytes accepted. -/
  | write (n i : Nat)
  /-- `piperead` at the loop that waits for data. -/
  | await (n : Nat)
  | close (writable : Bool)
  deriving DecidableEq

/-- Where the holder of `pi->lock` is: the copying loop of `piperead` never gives the lock up. -/
inductive Task
  | run (call : Call)
  /-- `piperead` at the loop that copies, with `i` of `n` bytes copied. -/
  | copy (n i : Nat)
  deriving DecidableEq

/-- What a process is doing with the pipe. -/
inductive Phase
  | idle
  | entering (call : Call)
  | inside
  | sleeping (chan : Chan) (call : Call)
  deriving DecidableEq

/-- The pipe, its users, and the history of its bytes. -/
structure State where
  data : Nat → UInt8 := fun _ => 0
  nread : UInt32 := 0
  nwrite : UInt32 := 0
  readopen : Bool := true
  writeopen : Bool := true
  /-- Holder of `pi->lock` and where it is. -/
  lock : Option (Pid × Task) := none
  phase : Pid → Phase := fun _ => .idle
  killed : Pid → Bool := fun _ => false
  accepted : List UInt8 := []
  removed : List UInt8 := []
  /-- Bytes the running copy loop has stored in its reader's memory. -/
  stored : List UInt8 := []
  /-- Results of the calls of `piperead` that have returned, with the bytes they stored. -/
  results : List (Nat × List UInt8) := []

/-- A pipe as `pipealloc` sets it up. -/
def pipealloc : State := {}

namespace State

def wakeup (s : State) (chan : Chan) : State :=
  { s with phase := fun p =>
      match s.phase p with
      | .sleeping other call => if other = chan then .entering call else .sleeping other call
      | phase => phase }

/-- Give up the lock and leave the process in a phase. -/
def leave (s : State) (p : Pid) (phase : Phase) : State :=
  { s with lock := none, phase := update s.phase p phase }

/-- One iteration of the loop of `pipewrite`, with the byte `copyin` finds. -/
def writeStep (s : State) (p : Pid) (n i : Nat) (byte : Option UInt8) : State :=
  if i < n then
    if s.readopen = false ∨ s.killed p = true then s.leave p .idle
    else if s.nwrite = s.nread + PIPESIZE then
      (s.wakeup .nread).leave p (.sleeping .nwrite (.write n i))
    else
      match byte with
      | none => (s.wakeup .nread).leave p .idle
      | some ch =>
        { s with
          data := update s.data (s.nwrite % PIPESIZE).toNat ch
          nwrite := s.nwrite + 1
          lock := some (p, .run (.write n (i + 1)))
          accepted := s.accepted ++ [ch] }
  else (s.wakeup .nread).leave p .idle

/-- One iteration of the waiting loop of `piperead`. -/
def awaitStep (s : State) (p : Pid) (n : Nat) : State :=
  if s.nread = s.nwrite ∧ s.writeopen = true then
    if s.killed p = true then s.leave p .idle
    else s.leave p (.sleeping .nread (.await n))
  else { s with lock := some (p, .copy n 0) }

/-- The end of `piperead` with `i` bytes copied. -/
def returnRead (s : State) (p : Pid) (i : Nat) : State :=
  { (s.wakeup .nwrite).leave p .idle with
    stored := []
    results := s.results ++ [(i, s.stored)] }

/-- One iteration of the copying loop of `piperead`, with the result of `copyout`. -/
def copyStep (s : State) (p : Pid) (n i : Nat) (copied : Bool) : State :=
  if i < n ∧ s.nread ≠ s.nwrite then
    let ch := s.data (s.nread % PIPESIZE).toNat
    let taken := { s with nread := s.nread + 1, removed := s.removed ++ [ch] }
    if copied then
      { taken with lock := some (p, .copy n (i + 1)), stored := s.stored ++ [ch] }
    else taken.returnRead p i
  else s.returnRead p i

/-- `pipeclose`. -/
def closeStep (s : State) (p : Pid) (writable : Bool) : State :=
  if writable then ({ s with writeopen := false }.wakeup .nread).leave p .idle
  else ({ s with readopen := false }.wakeup .nwrite).leave p .idle

end State

inductive Event
  | pipewrite (p : Pid) (n : Nat)
  | piperead (p : Pid) (n : Nat)
  | pipeclose (p : Pid) (writable : Bool)
  | acquire (p : Pid)
  /-- The holder of `pi->lock` goes through one iteration, in which the copies would succeed. -/
  | advance (byte : Option UInt8) (copied : Bool)
  | kill (p : Pid)

/-- `proc::kill`: a process that sleeps is made runnable. -/
def State.kill (s : State) (p : Pid) : State :=
  { s with
    killed := update s.killed p true
    phase := update s.phase p
      (match s.phase p with
      | .sleeping _ call => .entering call
      | phase => phase) }

def State.begin (s : State) (p : Pid) (call : Call) : Option State :=
  if s.phase p = .idle then
    some { s with phase := update s.phase p (.entering call) }
  else none

/-- An iteration of the call that holds the lock. -/
def State.advance (s : State) (byte : Option UInt8) (copied : Bool) : Pid → Task → State
  | p, .run (.write n i) => s.writeStep p n i byte
  | p, .run (.await n) => s.awaitStep p n
  | p, .run (.close writable) => s.closeStep p writable
  | p, .copy n i => s.copyStep p n i copied

/-- One step of the system.  When both ends are closed the pipe has been freed and is no longer
used. -/
def step (s : State) (event : Event) : Option State :=
  if s.readopen = false ∧ s.writeopen = false then none
  else
    match event with
    | .pipewrite p n => s.begin p (.write n 0)
    | .piperead p n => s.begin p (.await n)
    | .pipeclose p writable => s.begin p (.close writable)
    | .acquire p =>
      match s.lock, s.phase p with
      | none, .entering call =>
        some { s with lock := some (p, .run call), phase := update s.phase p .inside }
      | _, _ => none
    | .advance byte copied =>
      match s.lock with
      | some (p, task) => some (s.advance byte copied p task)
      | none => none
    | .kill p => some (s.kill p)

/-- What one step does: it begins a call, takes the lock, runs an iteration or kills. -/
theorem step_cases {s t : State} {event : Event} (taken : step s event = some t) :
    (∃ p call, s.phase p = .idle ∧ t = { s with phase := update s.phase p (.entering call) }) ∨
    (∃ p call, s.lock = none ∧ s.phase p = .entering call ∧
      t = { s with lock := some (p, .run call), phase := update s.phase p .inside }) ∨
    (∃ byte copied p task, event = .advance byte copied ∧ s.lock = some (p, task) ∧
      t = s.advance byte copied p task) ∨ (∃ p, t = s.kill p) := by
  have begun : ∀ {p call}, s.begin p call = some t → ∃ p call, s.phase p = .idle ∧
      t = { s with phase := update s.phase p (.entering call) } := by
    intro p call begins
    simp only [State.begin] at begins
    split at begins
    · next idle => exact ⟨p, call, idle, (Option.some.inj begins).symm⟩
    · simp at begins
  simp only [step] at taken
  split at taken
  · simp at taken
  · cases event with
    | pipewrite p n => exact .inl (begun taken)
    | piperead p n => exact .inl (begun taken)
    | pipeclose p writable => exact .inl (begun taken)
    | acquire p =>
      simp only at taken
      split at taken
      · next call free waiting =>
        exact .inr (.inl ⟨p, call, free, waiting, (Option.some.inj taken).symm⟩)
      · simp at taken
    | advance byte copied =>
      simp only at taken
      split at taken
      · next p task held =>
        exact .inr (.inr (.inl ⟨byte, copied, p, task, rfl, held, (Option.some.inj taken).symm⟩))
      · simp at taken
    | kill p => exact .inr (.inr (.inr ⟨p, (Option.some.inj taken).symm⟩))

/-- The holder of the lock is the one that advances. -/
theorem step_advance {s t : State} {byte : Option UInt8} {copied : Bool} {p : Pid} {task : Task}
    (held : s.lock = some (p, task)) (taken : step s (.advance byte copied) = some t) :
    t = s.advance byte copied p task := by
  simp only [step, held] at taken
  split at taken
  · simp at taken
  · exact (Option.some.inj taken).symm

end OsCpp.Pipe
