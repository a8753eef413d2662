import OsCpp.Lib.Monitor

/-!
# Sleep-locks

`sleeplock::acquire`, `release` and `holding` of `kernel/lock.cpp` with `sleep`, `wakeup` and `kill`
of `kernel/proc.cpp`, run by any number of processes.  The spinlock `lk` is the lock of a monitor
whose data are the two fields that it protects, and the lock of a process is its private lock there:
`sleep` takes it before it releases `lk` and the scheduler releases it when the process sleeps.
-/

namespace OsCpp.SleepLock

open Monitor (Code Event Keeps Move Pays Phase State start step)
open Function (update)

/-- The fields that `lk` protects. -/
structure Fields where
  locked : Bool := false
  pid : UInt32 := 0
  deriving DecidableEq

/-- Where a process is. -/
inductive Point
  | out
  /-- In `acquire`, at the lock `lk` or at the test of its loop. -/
  | acquiring
  | holding
  /-- In `release`, before `locked` is cleared. -/
  | releasing
  /-- In `release`, behind `wakeup`. -/
  | released
  deriving DecidableEq

/-- The process has come out of `acquire` and has not cleared `locked` in `release`. -/
def Point.owner : Point → Bool
  | holding | releasing => true
  | _ => false

variable {Pid : Type} [DecidableEq Pid]

/-- The calls: `release` is called by the holder only. -/
def call : Point → Option Point
  | .out => some .acquiring
  | .holding => some .releasing
  | _ => none

/-- The bodies of `acquire` and `release` under `lk`; `pid` is that of the running process. -/
def body (pid : UInt32) (fields : Fields) : Point → Option (Move Fields Point)
  | .acquiring =>
    if fields.locked then some (.sleep .acquiring)
    else some (.leave { locked := true, pid := pid } .holding)
  | .releasing => some (.wake { locked := false, pid := 0 } .released)
  | .released => some (.leave fields .out)
  | .out | .holding => none

/-- `sleeplock::holding` of a process with a number. -/
def holding (pid : UInt32) (fields : Fields) : Bool := fields.locked && fields.pid == pid

/-- The lock among processes with numbers. -/
def code (procs : List Pid) (complete : ∀ p, p ∈ procs) (pid : Pid → UInt32) :
    Code Pid Fields Point Unit where
  procs := procs
  complete := complete
  outer := fun _ _ point fields => (call point).map fun next => (fields, next)
  enters := fun point => point = .acquiring ∨ point = .releasing
  move := fun p _ _ point fields => body (pid p) fields point

/-- A lock that nobody has used. -/
def init : State Pid Fields Point := start {} .out

variable {procs : List Pid} {complete : ∀ p, p ∈ procs} {pid : Pid → UInt32}

/-! ## Mutual exclusion -/

/-- The fields say whether there is an owner, and which one. -/
structure Exclusive (pid : Pid → UInt32) (fields : Fields) (points : Pid → Point) : Prop where
  once : ∀ {p q}, (points p).owner = true → (points q).owner = true → p = q
  locked : fields.locked = true ↔ ∃ p, (points p).owner = true
  named : ∀ {p}, (points p).owner = true → fields.pid = pid p

section

variable {fields : Fields} {points : Pid → Point} {p : Pid} {next : Point}

/-- A process moves on and stays an owner, or stays none. -/
theorem Exclusive.move (exclusive : Exclusive pid fields points)
    (same : next.owner = (points p).owner) : Exclusive pid fields (update points p next) := by
  have owner : ∀ q, (update points p next q).owner = (points q).owner := by
    intro q
    rcases eq_or_ne q p with rfl | other
    · simpa using same
    · simp [other]
  refine ⟨fun left right => ?_, ?_, fun here => ?_⟩
  · rw [owner] at left right
    exact exclusive.once left right
  · simpa only [owner] using exclusive.locked
  · rw [owner] at here
    exact exclusive.named here

theorem Exclusive.acquire (exclusive : Exclusive pid fields points) (free : fields.locked = false) :
    Exclusive pid { locked := true, pid := pid p } (update points p .holding) := by
  have nobody : ∀ q, (points q).owner = false := by
    intro q
    by_contra owner
    have locked := exclusive.locked.mpr ⟨q, by simpa using owner⟩
    simp [free] at locked
  have only : ∀ {q}, (update points p .holding q).owner = true → q = p := by
    intro q owner
    by_contra other
    simp [other, nobody q] at owner
  refine ⟨fun left right => (only left).trans (only right).symm, ?_, fun owner => ?_⟩
  · exact iff_of_true rfl ⟨p, by simp [Point.owner]⟩
  · rw [only owner]

theorem Exclusive.release (exclusive : Exclusive pid fields points)
    (owner : (points p).owner = true) :
    Exclusive pid { locked := false, pid := 0 } (update points p .released) := by
  have nobody : ∀ q, (update points p .released q).owner = false := by
    intro q
    rcases eq_or_ne q p with rfl | other
    · simp [Point.owner]
    · by_contra another
      exact other (exclusive.once (by simpa [other] using another) owner)
  refine ⟨fun left => ?_, ?_, fun owner => ?_⟩
  · simp [nobody] at left
  · simp [nobody]
  · simp [nobody] at owner

theorem Exclusive.body (exclusive : Exclusive pid fields points)
    {move : Move Fields Point} (moved : body (pid p) fields (points p) = some move) :
    Exclusive pid (move.result fields).1 (update points p (move.result fields).2) := by
  cases point : points p with
  | acquiring =>
    simp only [SleepLock.body, point] at moved
    split at moved
    · cases moved
      exact exclusive.move (by rw [point]; rfl)
    · next free =>
      cases moved
      exact exclusive.acquire (by simpa using free)
  | releasing =>
    simp only [SleepLock.body, point] at moved
    cases moved
    exact exclusive.release (by rw [point]; rfl)
  | released =>
    simp only [SleepLock.body, point] at moved
    cases moved
    exact exclusive.move (by rw [point]; rfl)
  | out | holding => simp [SleepLock.body, point] at moved

theorem Exclusive.call (exclusive : Exclusive pid fields points)
    (called : call (points p) = some next) : Exclusive pid fields (update points p next) := by
  refine exclusive.move ?_
  cases point : points p <;> simp_all [SleepLock.call, Point.owner]
  · rw [← called]
  · rw [← called]

omit [DecidableEq Pid] in
theorem exclusive_init : Exclusive pid {} fun _ => Point.out := by
  refine ⟨fun owner => ?_, ?_, fun owner => ?_⟩
  · simp [Point.owner] at owner
  · simp [Point.owner]
  · simp [Point.owner] at owner

end

theorem keeps_exclusive : Keeps (code procs complete pid) (Exclusive pid) where
  outer := by
    intro p _ fields points _ _ exclusive stepped
    obtain ⟨after, called, same⟩ := Option.map_eq_some_iff.mp stepped
    cases same
    exact exclusive.call called
  move := fun exclusive moved => exclusive.body moved

/-! ## Wakeups -/

omit [DecidableEq Pid] in
/-- A process sleeps on the lock only while it is locked. -/
theorem pays : Pays (code procs complete pid) (Exclusive pid)
    (fun fields => fields.locked = true) fun _ => False where
  outer := by
    intro p _ fields points _ _ _ stepped locked
    obtain ⟨after, -, same⟩ := Option.map_eq_some_iff.mp stepped
    cases same
    exact locked
  go := by
    intro p _ _ fields points _ _ _ moved
    cases point : points p <;> simp [code, body, point] at moved
    split at moved <;> simp at moved
  sleep := by
    intro p _ _ fields points _ _ moved
    cases point : points p <;> simp [code, body, point] at moved
    split at moved
    · assumption
    · simp at moved
  leave := by
    intro p _ _ fields points _ _ _ moved
    refine ⟨id, fun locked => ?_⟩
    cases point : points p <;> simp [code, body, point] at moved
    · simp [locked] at moved
    · rw [← moved.1]
      exact locked

/-- At most one process has the lock, whose number is in it, and nobody sleeps on a free lock. -/
structure Correct (pid : Pid → UInt32) (s : State Pid Fields Point) : Prop where
  exclusion : ∀ p q, (s.points p).owner = true → (s.points q).owner = true → p = q
  holder : s.data.locked = true → ∃ p, (s.points p).owner = true ∧ s.data.pid = pid p
  owned : ∀ p, (s.points p).owner = true → s.data.locked = true ∧ s.data.pid = pid p
  awake : s.lock = none → s.data.locked = false → ∀ p point, s.phase p ≠ .asleep point

/-- Sleep-locks exclude each other's owners and lose no wakeup, in every interleaving. -/
theorem sleeplock_correct {s : Monitor.State Pid Fields Point}
    {events : List (Monitor.Event Pid Unit)}
    (run : Execution.Run (Monitor.step (code procs complete pid)) (fun _ _ => True) init events s) :
    Correct pid s := by
  have exclusive := keeps_exclusive.of_run exclusive_init run
  have awake := Monitor.noLostWakeup_of_run keeps_exclusive pays exclusive_init run
  refine ⟨fun p q => exclusive.once, fun locked => ?_, fun p owner => ?_, ?_⟩
  · obtain ⟨p, owner⟩ := exclusive.locked.mp locked
    exact ⟨p, owner, exclusive.named owner⟩
  · exact ⟨exclusive.locked.mpr ⟨p, owner⟩, exclusive.named owner⟩
  · intro free unlocked p point asleep
    have locked := awake free p (by simp [asleep, Phase.sleeps])
    simp [unlocked] at locked

/-- Two processes want the lock: the second one sleeps, is killed and sleeps again, and the first one
wakes it. -/
def contended : List (Event Bool Unit) :=
  [.outer false (), .enter false, .move false (), .outer true (), .enter true, .move true (),
    .fall true, .kill true, .enter true, .move true (), .fall true, .outer false (), .enter false,
    .move false (), .wake false, .wake false, .wake false, .move false (), .enter true,
    .move true ()]

theorem sleeplock_correct_contended :
    ∃ s, Execution.Run
        (Monitor.step (code [false, true] (by decide) fun p => if p then 2 else 1)) (fun _ _ => True)
        init contended s ∧
      s.data = { locked := true, pid := 2 } ∧ Correct (fun p => if p then 2 else 1) s := by
  obtain ⟨s, run, data⟩ : ∃ s, Execution.Run
      (Monitor.step (code [false, true] (by decide) fun p => if p then 2 else 1)) (fun _ _ => True)
      init contended s ∧ s.data = { locked := true, pid := 2 } :=
    ⟨_, Execution.run_of_exec rfl, rfl⟩
  exact ⟨s, run, data, sleeplock_correct run⟩

/-- With different numbers, `holding` says whether the process is the owner. -/
theorem holding_iff_owner (different : Function.Injective pid) {s : State Pid Fields Point}
    {events : List (Event Pid Unit)} {guard : State Pid Fields Point → _ → Prop}
    (run : Execution.Run (step (code procs complete pid)) guard init events s) (p : Pid) :
    holding (pid p) s.data = true ↔ (s.points p).owner = true := by
  have exclusive := keeps_exclusive.of_run exclusive_init run
  constructor
  · intro holds
    simp only [holding, Bool.and_eq_true, beq_iff_eq] at holds
    obtain ⟨q, owner⟩ := exclusive.locked.mp holds.1
    have same : q = p := different ((exclusive.named owner).symm.trans holds.2)
    rwa [← same]
  · intro owner
    simp [holding, exclusive.named owner, exclusive.locked.mpr ⟨p, owner⟩]

theorem holding_iff_owner_acquired :
    ∃ s, Execution.Run (step (code [()] (by simp) fun _ => 7)) (fun _ _ => True) init
        [.outer () (), .enter (), .move () ()] s ∧ (s.points ()).owner = true :=
  Iff.mp (exists_congr fun _ => and_congr_right fun run =>
      holding_iff_owner (fun _ _ _ => rfl) run ())
    ⟨_, Execution.run_of_exec rfl, rfl⟩

end OsCpp.SleepLock
