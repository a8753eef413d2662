import OsCpp.Fs.Kernel
import OsCpp.Lib.Execution
import Mathlib.Data.List.FinRange

/-!
# Credentials

The user and group numbers that `check_permission_for_file` and `create` use for a process are those
of the `struct user` its field `user` points to.  `user_init` points the first process to `root`, and
`fork` copies the pointer; the array `user_list` is declared and never used.
-/

namespace OsCpp.Credentials

open Function (update update_of_ne update_self)

/-- `proc::user`. -/
structure User where
  uid : UInt32 := 0
  gid : UInt32 := 0
  deriving DecidableEq

/-- The objects of type `struct user`. -/
inductive Pointer
  | root
  | user_list (index : Fin NPROC)
  deriving DecidableEq

inductive Status
  | UNUSED
  | live
  | ZOMBIE
  deriving DecidableEq

/-- The fields of `struct process` that matter here. -/
structure Process where
  status : Status := .UNUSED
  user : Option Pointer := none

structure State where
  users : Pointer → User := fun _ => {}
  proc_list : Fin NPROC → Process := fun _ => {}

inductive Call
  /-- `fork`; is there enough memory for the child? -/
  | fork (memory : Bool)
  | exec
  | setuid (id : UInt32)
  | setgid (id : UInt32)
  | exit
  | wait (child : Fin NPROC)

def init_proc : Fin NPROC := ⟨0, NPROC_pos⟩

def user_init : State where
  proc_list := update (fun _ => {}) init_proc { status := .live, user := some .root }

namespace State

def setProc (s : State) (p : Fin NPROC) (process : Process) : State :=
  { s with proc_list := update s.proc_list p process }

def Live (s : State) (p : Fin NPROC) : Prop := (s.proc_list p).status = .live

instance (s : State) (p : Fin NPROC) : Decidable (s.Live p) := by
  unfold Live
  infer_instance

/-- The numbers that are used for a process. -/
def credentials (s : State) (p : Fin NPROC) : Option User := (s.proc_list p).user.map s.users

/-- Change the object that a process points to. -/
def setUser (s : State) (p : Fin NPROC) (change : User → User) : Option State :=
  (s.proc_list p).user.map fun pointer =>
    { s with users := update s.users pointer (change (s.users pointer)) }

/-- The slot `alloc_proc` finds. -/
def unused (s : State) : Option (Fin NPROC) :=
  (List.finRange NPROC).find? fun p => (s.proc_list p).status = .UNUSED

def fork (s : State) (p : Fin NPROC) (memory : Bool) : Option State :=
  match s.unused with
  | none => none -- The kernel panics.
  | some np => some (if memory then s.setProc np { status := .live, user := (s.proc_list p).user } else s)

/-- A call of a live process. -/
def call (s : State) (p : Fin NPROC) : Call → Option State
  | .fork memory => s.fork p memory
  | .exec => some s
  | .setuid id => s.setUser p fun user => { user with uid := id }
  | .setgid id => s.setUser p fun user => { user with gid := id }
  | .exit => if p = init_proc then none else some (s.setProc p { s.proc_list p with status := .ZOMBIE })
  | .wait child =>
    if (s.proc_list child).status = .ZOMBIE then
      some (s.setProc child { s.proc_list child with status := .UNUSED })
    else some s

end State

def step (s : State) : Fin NPROC × Call → Option State
  | (p, call) => if s.Live p then s.call p call else none

/-- All live processes point to the same object. -/
def Shared (s : State) : Prop := ∀ p, s.Live p → (s.proc_list p).user = some .root

theorem shared_user_init : Shared user_init := by
  intro p live
  rcases eq_or_ne p init_proc with rfl | other
  · simp [user_init]
  · simp [user_init, State.Live, update_of_ne other] at live

theorem Shared.setProc {s : State} (shared : Shared s) {p : Fin NPROC} {process : Process}
    (points : process.status = .live → process.user = some .root) : Shared (s.setProc p process) := by
  intro q live
  rcases eq_or_ne q p with rfl | other
  · simp only [State.Live, State.setProc, update_self] at live ⊢
    exact points live
  · simp only [State.Live, State.setProc, update_of_ne other] at live ⊢
    exact shared q live

theorem Shared.setUser {s t : State} (shared : Shared s) {p : Fin NPROC} {change : User → User}
    (taken : s.setUser p change = some t) : Shared t := by
  obtain ⟨pointer, -, rfl⟩ := Option.map_eq_some_iff.mp taken
  exact shared

theorem shared_step {s t : State} {event : Fin NPROC × Call} (shared : Shared s)
    (taken : step s event = some t) : Shared t := by
  obtain ⟨p, call⟩ := event
  obtain ⟨live, taken⟩ := Option.ite_none_right_eq_some.mp taken
  cases call with
  | fork memory =>
    simp only [State.call, State.fork] at taken
    split at taken
    · simp at taken
    · cases taken
      split
      · exact shared.setProc fun _ => shared p live
      · exact shared
  | exec =>
    cases taken
    exact shared
  | setuid id =>
    simp only [State.call] at taken
    exact shared.setUser taken
  | setgid id =>
    simp only [State.call] at taken
    exact shared.setUser taken
  | exit =>
    simp only [State.call] at taken
    split at taken
    · simp at taken
    · cases taken
      exact shared.setProc (by simp)
  | wait child =>
    simp only [State.call] at taken
    split at taken
    all_goals cases taken
    · exact shared.setProc (by simp)
    · exact shared

/-- `setuid` and `setgid`. -/
inductive Change
  | uid (id : UInt32)
  | gid (id : UInt32)
  deriving DecidableEq

def Change.call : Change → Call
  | .uid id => .setuid id
  | .gid id => .setgid id

def Change.apply : Change → User → User
  | .uid id, user => { user with uid := id }
  | .gid id, user => { user with gid := id }

/-- The call sets a number that its caller has already. -/
def Change.Idle (change : Change) (s : State) (p : Fin NPROC) : Prop :=
  match change with
  | .uid id => (s.credentials p).map User.uid = some id
  | .gid id => (s.credentials p).map User.gid = some id

theorem step_change {s t : State} {p : Fin NPROC} {change : Change}
    (taken : step s (p, change.call) = some t) : s.Live p ∧ s.setUser p change.apply = some t := by
  obtain ⟨live, taken⟩ := Option.ite_none_right_eq_some.mp taken
  cases change <;> exact ⟨live, taken⟩

/-- A call of `setuid` or `setgid` leaves the credentials of all live processes unchanged if and
only if it changes nothing at all. -/
theorem unchanged_iff_idle {events : List (Fin NPROC × Call)} {s t : State} {p q : Fin NPROC}
    {change : Change} (run : Execution.Run step (fun _ _ => True) user_init events s)
    (other : s.Live q) (taken : step s (p, change.call) = some t) :
    t.credentials q = s.credentials q ↔ change.Idle s p := by
  have shared : Shared s := run.invariant (fun shared _ taken => shared_step shared taken)
    shared_user_init
  obtain ⟨live, changed⟩ := step_change taken
  have mine := shared p live
  have theirs := shared q other
  simp only [State.setUser, mine, Option.map_some, Option.some.injEq] at changed
  subst changed
  simp only [State.credentials, mine, theirs, Option.map_some, update_self,
    Option.some.injEq, Change.Idle]
  cases change with
  | uid id =>
    constructor
    · intro same
      exact (congrArg User.uid same).symm
    · rintro rfl
      rfl
  | gid id =>
    constructor
    · intro same
      exact (congrArg User.gid same).symm
    · rintro rfl
      rfl

/-- The first process and its child. -/
def forked : State := user_init.setProc ⟨1, one_lt_NPROC⟩ { status := .live, user := some .root }

theorem run_forked :
    Execution.Run step (fun _ _ => True) user_init [(init_proc, .fork true)] forked := by
  refine Execution.Run.single trivial ?_
  have found : user_init.unused = some ⟨1, by decide⟩ := by decide
  have live : user_init.Live init_proc := by decide
  have root : (user_init.proc_list init_proc).user = some .root := by decide
  simp only [step, if_pos live, State.call, State.fork, found, if_true, root]
  rfl

/-- A child that sets its user number to 7 changes that of its parent. -/
theorem setuid_changes_parent :
    ∃ events s t, Execution.Run step (fun _ _ => True) user_init events s ∧
      s.Live ⟨1, by decide⟩ ∧ s.Live init_proc ∧
      step s (⟨1, by decide⟩, .setuid 7) = some t ∧
      s.credentials init_proc = some { uid := 0 } ∧ t.credentials init_proc = some { uid := 7 } := by
  refine ⟨_, _, _, run_forked, by decide, by decide, rfl, by decide, by decide⟩

theorem unchanged_iff_idle_forked :
    (Change.uid 0).Idle forked ⟨1, by decide⟩ ∧
      ∃ t, step forked (⟨1, by decide⟩, .setuid 0) = some t ∧
        t.credentials init_proc = forked.credentials init_proc := by
  have idle : (Change.uid 0).Idle forked ⟨1, by decide⟩ := by
    simp only [Change.Idle]
    decide
  obtain ⟨t, taken⟩ : ∃ t, step forked (⟨1, by decide⟩, (Change.uid 0).call) = some t := ⟨_, rfl⟩
  exact ⟨idle, t, taken, (unchanged_iff_idle run_forked (by decide) taken).mpr idle⟩

end OsCpp.Credentials
