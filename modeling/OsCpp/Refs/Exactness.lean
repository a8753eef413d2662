import OsCpp.Refs.Accounts

/-!
# Exact reference counts

The counts of `itable` and `ftable` in the states without a system call in progress.
-/

namespace OsCpp.Refs

open Tally (count count_none hit hit_none hit_some)
open Ledger (hold idle)
open Process (Config Event Outcome System)
open Execution (Run run_of_exec)
open Function (update)

/-- `pipealloc` finds no third entry of `ftable`. -/
def PipeFails (s : State) (_ : Proc) (op : Op) (_ : Answer) : Prop :=
  match op with
  | .allocPipe => s.freeFile = none
  | _ => True

instance (s : State) (p : Proc) (op : Op) (answer : Answer) : Decidable (PipeFails s p op answer) := by
  cases op <;> simp only [PipeFails] <;> infer_instance

theorem freeInode_spec {s : State} {i : Inode} (found : s.freeInode = some i) : s.iref i = 0 := by
  simpa using List.find?_some found

theorem freeFile_spec {s : State} {f : FileIx} (found : s.freeFile = some f) : s.fref f = 0 := by
  simpa using List.find?_some found

theorem freeFd_spec {s : State} {p : Proc} {fd : Fd} (found : s.freeFd p = some fd) :
    s.slot p fd = none := by
  simpa using List.find?_some found

theorem count_hold (l : Ledger) (f g : FileIx) :
    (l.hold f).files.count g = l.files.count g + hit g (some f) := by
  simp [hold, Multiset.count_cons, hit_some, eq_comm (a := g)]

section

variable {pipes : Bool} {s next : State} {ledgers : Proc → Ledger} {p : Proc}

/-- The operation ended in a ledger that the invariant and the postcondition fit. -/
def Accounted {α : Type} (next : State) (ledgers : Proc → Ledger) (p : Proc) (result : α)
    (post : α → Ledger → Prop) : Prop := ∃ l, Accounts next (update ledgers p l) ∧ post result l

section

variable (accounts : Accounts s ledgers) (alive : s.live p = true)
include accounts alive

theorem accounted_iget {inum : Nat}
    {i : Inode} {post : Inode → Ledger → Prop} (after : ∀ i, post i ((ledgers p).gain i))
    (performed : performIget s inum = .next next i) : Accounted next ledgers p i post := by
  rw [performIget] at performed
  split at performed
  · cases performed
    exact ⟨_, accounts.gain alive rfl, after _⟩
  · split at performed
    · next found =>
      cases performed
      exact ⟨_, accounts.gain alive (by rw [freeInode_spec found]), after _⟩
    · simp at performed

theorem accounted_alloc {result : Option FileIx} {post : Option FileIx → Ledger → Prop} (full : post none (ledgers p))
    (after : ∀ f, post (some f) ((ledgers p).allocate f))
    (performed : performAlloc s = .next next result) : Accounted next ledgers p result post := by
  rw [performAlloc] at performed
  split at performed
  · next found =>
    cases performed
    exact ⟨_, accounts.allocate alive (freeFile_spec found), after _⟩
  · cases performed
    exact ⟨_, accounts.keep, full⟩

theorem accounted_close {f : FileIx}
    {result : Closed} {post : Closed → Ledger → Prop} (held : f ∈ (ledgers p).files)
    (nothing : post .nothing ((ledgers p).release f))
    (inode : ∀ i, post (.inode i) (((ledgers p).release f).gain i))
    (performed : performClose s f = .next next result) : Accounted next ledgers p result post := by
  rw [performClose] at performed
  split at performed
  · simp at performed
  · split at performed
    · next shared =>
      cases performed
      exact ⟨_, accounts.closeShared alive held shared, nothing⟩
    · cases performed
      have last : s.fref f = 1 := by omega
      rw [closedEntry, accounts.pipeless.types f]
      cases open_ : s.fip f with
      | none =>
        exact ⟨_, accounts.closeLast alive held last fun i => by rw [open_, hit_none]; rfl, nothing⟩
      | some i =>
        refine ⟨_, accounts.closeLast alive held last fun j => ?_, inode i⟩
        rw [open_, hit_some, Multiset.count_cons]
        simp only [eq_comm (a := j)]
        rfl

theorem accounted_performLive {op : Op} {answer : Answer} {result : op.Result}
    {post : op.Result → Ledger → Prop}
    (holds : spec pipes op post (ledgers p)) (fails : pipes = true → PipeFails s p op answer)
    (performed : performLive s p op answer = .next next result) :
    Accounted next ledgers p result post := by
  cases op with
  | panic => simp [performLive] at performed
  | test =>
    cases answer with
    | flag b =>
      obtain ⟨rfl, rfl⟩ := Outcome.next.inj performed
      exact ⟨_, accounts.keep, holds b⟩
    | number | child => simp [performLive] at performed
  | lookup =>
    cases answer with
    | number n =>
      obtain ⟨rfl, rfl⟩ := Outcome.next.inj performed
      exact ⟨_, accounts.keep, holds n⟩
    | flag | child => simp [performLive] at performed
  | iget inum => exact accounted_iget accounts alive holds performed
  | idupCwd =>
    simp only [performLive] at performed
    split at performed
    · cases performed
      exact ⟨_, accounts.gain alive rfl, holds _⟩
    · simp at performed
  | ireclaim i =>
    cases answer with
    | flag b =>
      simp only [performLive] at performed
      split at performed
      · split at performed
        · next free =>
          cases performed
          exact ⟨_, accounts.lock alive free.2, holds.2.2⟩
        · simp at performed
      · cases performed
        exact ⟨_, accounts.keep, holds.2.1⟩
    | number | child => simp [performLive] at performed
  | idrop i =>
    cases performed
    exact ⟨_, accounts.idrop alive holds.1, holds.2⟩
  | ilock i =>
    simp only [performLive] at performed
    split at performed
    · simp at performed
    · split at performed
      · next free =>
        cases performed
        exact ⟨_, accounts.lock alive free, holds.2⟩
      · simp at performed
  | iunlock i =>
    simp only [performLive] at performed
    split at performed
    · next mine =>
      cases performed
      exact ⟨_, accounts.unlock alive mine.1, holds.2⟩
    · simp at performed
  | alloc => exact accounted_alloc accounts alive holds.1 holds.2 performed
  | allocPipe =>
    have full : s.freeFile = none := fails holds.1
    simp only [performLive, performAlloc, full] at performed
    cases performed
    exact ⟨_, accounts.keep, holds.2⟩
  | allocFd f i =>
    obtain ⟨began, fresh, held, failed, stored⟩ := holds
    simp only [performLive] at performed
    split at performed
    · next found =>
      cases performed
      exact ⟨_, accounts.allocFd alive (freeFd_spec found) began fresh held, stored⟩
    · cases performed
      exact ⟨_, accounts.keep, failed⟩
  | dupFd fd =>
    simp only [performLive] at performed
    split at performed
    · next stored found =>
      split at performed
      · simp at performed
      · cases performed
        exact ⟨_, accounts.dupFd alive stored (freeFd_spec found) holds.1, holds.2 true⟩
    · cases performed
      exact ⟨_, accounts.keep, holds.2 false⟩
  | dupSlot fd =>
    simp only [performLive] at performed
    split at performed
    · next stored =>
      split at performed
      · simp at performed
      · cases performed
        exact ⟨_, accounts.dupSlot alive stored, holds.2 _⟩
    · cases performed
      exact ⟨_, accounts.keep, holds.1⟩
  | takeSlot fd =>
    cases performed
    cases stored : s.slot p fd with
    | none =>
      exact ⟨_, accounts.takeSlot alive rfl rfl rfl (fun g => by rw [stored, hit_none]; rfl)
        (fun _ => .inl) rfl, holds.1⟩
    | some f =>
      refine ⟨(ledgers p).hold f, accounts.takeSlot alive rfl rfl rfl (fun g => ?_) (fun _ => .inl)
        rfl, holds.2 f⟩
      rw [stored, count_hold]
  | exitSlot fd =>
    cases performed
    obtain ⟨reached, empty, found⟩ := holds
    have cleared : ∀ other : Fd, other.val < fd.val + 1 →
        other.val < (ledgers p).cleared ∨ other = fd := by
      intro other below
      rw [reached, Fin.ext_iff]
      omega
    cases stored : s.slot p fd with
    | none =>
      exact ⟨{ ledgers p with cleared := fd.val + 1 }, accounts.takeSlot alive rfl rfl rfl
        (fun g => by rw [stored, hit_none]; rfl) cleared rfl, empty⟩
    | some f =>
      refine ⟨{ ledgers p with cleared := fd.val + 1 }.hold f, accounts.takeSlot alive rfl rfl rfl
        (fun g => ?_) cleared rfl, found f⟩
      rw [stored, count_hold]
  | close f => exact accounted_close accounts alive holds.1 holds.2.1 holds.2.2 performed
  | makePipe | pipeFd | pipeclose => exact holds.elim
  | swapCwd i =>
    simp only [performLive] at performed
    split at performed
    · next was =>
      cases performed
      exact ⟨_, accounts.swapCwd alive was holds.1 holds.2.1, holds.2.2 _⟩
    · simp at performed
  | takeCwd =>
    simp only [performLive] at performed
    split at performed
    · next was =>
      cases performed
      exact ⟨_, accounts.takeCwd alive was, holds _⟩
    · simp at performed
  | spawn files i =>
    obtain ⟨counted, stale, held, after⟩ := holds
    cases answer with
    | child np =>
      simp only [performLive] at performed
      split at performed
      · simp at performed
      · next unborn =>
        cases performed
        exact ⟨_, accounts.spawn alive (by simpa using unborn) counted stale held, after⟩
    | flag | number => simp [performLive] at performed
  | die =>
    cases performed
    exact ⟨_, accounts.die holds.1, holds.2⟩
  | abandon i =>
    cases performed
    exact ⟨_, accounts.abandon alive holds.1, holds.2⟩

end

end

theorem sound (pipes : Bool) :
    (system pipes).Sound (logic pipes) (fun s p op answer => pipes = true → PipeFails s p op answer)
      Accounts idle where
  performs := by
    intro s ledgers p op answer next result post accounts holds fails performed
    simp only [system, perform] at performed
    split at performed
    · next alive => exact accounted_performLive accounts alive holds fails performed
    · simp at performed
  begins := by
    intro s p call prog begun
    simp only [system] at begun
    split at begun
    · next called =>
      cases begun
      exact settled_program called.2
    · simp at begun

/-- The first entry of `proc_list`, which the init process has. -/
def initProc : Proc := ⟨0, NPROC_pos⟩

/-- The first entry of `itable`, which the root gets. -/
def rootInode : Inode := ⟨0, NINODE_pos⟩

/-- The state the first process starts in: its working directory is the root. -/
def init : State where
  iref := update (fun _ => 0) rootInode 1
  inum := update (fun _ => 0) rootInode ROOTINO
  ilocked _ := none
  fref _ := 0
  fip _ := none
  fpipe _ := none
  ends _ := (false, false)
  slot _ _ := none
  cwd := update (fun _ => none) initProc (some rootInode)
  live := update (fun _ => false) initProc true
  pipes := []
  kfreed := []
  refused := []

/-- No process is in a system call. -/
def start : Config Proc State Op Op.Result := ⟨init, fun _ => .ret (), false⟩

theorem accounts_init : Accounts init fun _ => idle where
  inodes i := by
    have cwd := Tally.count_update (fun _ : Proc => none) initProc (some rootInode) i
    simp only [hit_none, count_none, hit_some] at cwd
    simp only [State.owners, init, count_none, idle, Multiset.count_zero,
      Finset.sum_const_zero, List.count_nil]
    rcases eq_or_ne i rootInode with rfl | other
    · rw [if_pos rfl] at cwd
      rw [Function.update_self]
      omega
    · rw [if_neg other.symm] at cwd
      rw [Function.update_of_ne other]
      omega
  files f := by simp [State.descriptors, init, idle]
  vacant := ⟨fun _ _ => rfl, fun _ => le_rfl, fun _ _ member => absurd member (by simp [idle])⟩
  locked := ⟨fun _ _ => by simp [init, idle], fun _ => by simp [idle]⟩
  cleared := by
    refine ⟨fun _ _ _ => rfl, fun _ homeless => absurd homeless (by simp [idle]),
      fun p dead => ⟨rfl, ?_, fun _ => rfl⟩⟩
    have other : p ≠ initProc := by
      rintro rfl
      simp [init] at dead
    simp [init, other]
  pipeless := ⟨fun _ => rfl, rfl, rfl⟩

theorem settles_start (pipes : Bool) :
    System.Settles (logic pipes) Accounts idle start :=
  ⟨fun _ => idle, accounts_init, fun _ => rfl⟩

/-! ## Open files -/

/-- Number of descriptors of all processes that refer to an entry of `ftable`. -/
def descriptorsOf (s : State) (f : FileIx) : Nat :=
  (Finset.univ.filter fun slot : Proc × Fd => s.slot slot.1 slot.2 = some f).card

theorem descriptors_eq (s : State) (f : FileIx) : s.descriptors f = descriptorsOf s f := by
  simp only [State.descriptors, descriptorsOf, count, hit, Finset.card_filter]
  rw [Fintype.sum_prod_type]

/-- Nobody is in a system call. -/
def Quiet (config : Config Proc State Op Op.Result) : Prop :=
  ∀ p, (config.code p).returned = true

/-- The counts of open files are exact, pipes are no files, and only pages are given to `kfree`. -/
def OpenFilesExact (config : Config Proc State Op Op.Result) : Prop :=
  (Quiet config → ∀ f, config.state.fref f = descriptorsOf config.state f) ∧
    (∀ taken ∈ config.state.pipes, taken.length = 2) ∧
    ∀ object ∈ config.state.kfreed, object = .page

/-- Unless `pipealloc` gets a third entry of `ftable`, the counts of open files are exact. -/
theorem openFilesExact_of_pipeFails {events : List (Event Proc Answer Call)}
    {config : Config Proc State Op Op.Result}
    (run : Run (system true).step (System.guard PipeFails) start events config) :
    OpenFilesExact config := by
  have settles := (sound true).settles_run (settles_start true)
    (run.mono fun {config event} guarded => by
      cases event with
      | start pid call => trivial
      | run pid answer =>
        simp only [System.guard] at guarded ⊢
        split
        · trivial
        · next running =>
          rw [running] at guarded
          exact fun _ => guarded)
  refine ⟨fun quiet f => ?_, ?_, ?_⟩
  · have balanced := (settles.inv_idle quiet).files f
    simpa [Ledger.idle, descriptors_eq] using balanced
  · obtain ⟨_, accounts, _⟩ := settles
    simp [accounts.pipeless.pipes]
  · obtain ⟨_, accounts, _⟩ := settles
    simp [accounts.pipeless.kfreed]

/-- The steps of the init process that need no particular answer. -/
def runs (n : Nat) : List (Event Proc Answer Call) :=
  List.replicate n (.run initProc (.flag true))

/-- The init process opens the root and duplicates the descriptor. -/
def openAndDup : List (Event Proc Answer Call) :=
  .start initProc (.sys_open [Fs.slash] false) :: runs 8 ++
    .start initProc (.sys_dup ⟨0, by decide⟩) :: runs 1

theorem openFilesExact_openAndDup :
    ∃ config, Run (system true).step (System.guard PipeFails) start openAndDup config ∧
      config.state.fref ⟨0, by decide⟩ = 2 ∧ OpenFilesExact config := by
  obtain ⟨config, run, two⟩ : ∃ config,
      Run (system true).step (System.guard PipeFails) start openAndDup config ∧
      config.state.fref ⟨0, by decide⟩ = 2 := ⟨_, run_of_exec rfl, rfl⟩
  exact ⟨config, run, two, openFilesExact_of_pipeFails run⟩

def makePipe : List (Event Proc Answer Call) := .start initProc .sys_pipe :: runs 7

def closeEnds : List (Event Proc Answer Call) :=
  .start initProc (.sys_close ⟨0, by decide⟩) :: runs 3 ++
    .start initProc (.sys_close ⟨1, by decide⟩) :: runs 3

/-- A call of `pipe` takes three entries of `ftable`, and nothing refers to one of them. -/
theorem makePipe_takes_entry :
    ∃ opened closed,
      Run (system true).step (fun _ _ => True) start makePipe opened ∧ Quiet opened ∧
      opened.state.fref ⟨2, by decide⟩ = 1 ∧
      (∀ p fd, opened.state.slot p fd ≠ some ⟨2, by decide⟩) ∧
      opened.state.pipes = [[⟨0, by decide⟩, ⟨1, by decide⟩, ⟨2, by decide⟩]] ∧
      Run (system true).step (fun _ _ => True) start (makePipe ++ closeEnds) closed ∧
      closed.state.kfreed = [.entry ⟨2, by decide⟩] :=
  ⟨_, _, run_of_exec rfl, by unfold Quiet; decide +kernel, rfl, by decide +kernel, rfl,
    run_of_exec rfl, rfl⟩

/-! ## Inodes -/

/-- Number of open files and of working directories that refer to an entry of `itable`. -/
def referencesTo (s : State) (i : Inode) : Nat :=
  (Finset.univ.filter fun f => 0 < s.fref f ∧ s.fip f = some i).card +
    (Finset.univ.filter fun p => s.live p = true ∧ s.cwd p = some i).card

/-- The counts of inodes are exact and no inode is locked. -/
def InodesExact (s : State) : Prop := ∀ i, s.iref i = referencesTo s i ∧ s.ilocked i = none

theorem Accounts.references {s : State} {ledgers : Proc → Ledger} (accounts : Accounts s ledgers)
    (i : Inode) : count s.fip i + count s.cwd i = referencesTo s i := by
  rw [Tally.count_eq_card, Tally.count_eq_card, referencesTo]
  congr 2
  · refine Finset.filter_congr fun f _ => ⟨fun stored => ⟨?_, stored⟩, And.right⟩
    refine pos_of_ne_zero fun free => ?_
    simp [accounts.vacant.unused f free] at stored
  · refine Finset.filter_congr fun p _ => ⟨fun stored => ⟨?_, stored⟩, And.right⟩
    by_contra dead
    simp [(accounts.cleared.dead p (by simpa using dead)).2.1] at stored

theorem settles_run {events : List (Event Proc Answer Call)}
    {config : Config Proc State Op Op.Result}
    (run : Run (system false).step (fun _ _ => True) start events config) :
    System.Settles (logic false) Accounts idle config := by
  refine (sound false).settles_run (settles_start false) (run.mono fun {config event} _ => ?_)
  cases event with
  | start pid call => trivial
  | run pid answer =>
    simp only [System.guard]
    split
    · trivial
    · exact fun piped => by simp at piped

/-- Between system calls, the counts of inodes are exact iff `sys_exec` has never been refused a
permission. -/
theorem inodesExact_iff_refused_eq_nil {events : List (Event Proc Answer Call)}
    {config : Config Proc State Op Op.Result}
    (run : Run (system false).step (fun _ _ => True) start events config)
    (quiet : Quiet config) : InodesExact config.state ↔ config.state.refused = [] := by
  have accounts := (settles_run run).inv_idle quiet
  have counted : ∀ i, config.state.iref i =
      referencesTo config.state i + config.state.refused.count i := fun i => by
    have balanced := accounts.inodes i
    rw [State.owners, accounts.references] at balanced
    simpa [Ledger.idle] using balanced
  have unlocked : ∀ i, config.state.ilocked i = none := fun i => by
    refine Option.eq_none_iff_forall_ne_some.mpr fun p locked => ?_
    simpa [Ledger.idle] using (accounts.locked.holder p i).mp locked
  constructor
  · intro exact_
    refine List.eq_nil_iff_forall_not_mem.mpr fun i refused => ?_
    have excess := List.count_pos_iff.mpr refused
    have here := counted i
    have equal := (exact_ i).1
    omega
  · intro granted i
    refine ⟨?_, unlocked i⟩
    simpa [granted] using counted i

theorem inodesExact_openAndDup :
    ∃ config, Run (system false).step (fun _ _ => True) start openAndDup config ∧
      config.state.iref rootInode = 2 ∧ InodesExact config.state := by
  obtain ⟨config, run, two, quiet, granted⟩ : ∃ config,
      Run (system false).step (fun _ _ => True) start openAndDup config ∧
      config.state.iref rootInode = 2 ∧ Quiet config ∧ config.state.refused = [] :=
    ⟨_, run_of_exec rfl, rfl, by unfold Quiet; decide +kernel, rfl⟩
  exact ⟨config, run, two, (inodesExact_iff_refused_eq_nil run quiet).mpr granted⟩

/-- The init process executes the root, for which it has no permission. -/
def refusedExec : List (Event Proc Answer Call) :=
  .start initProc (.sys_exec [Fs.slash]) :: runs 5 ++ .run initProc (.flag false) :: runs 2

/-- A refused `exec` leaves a reference to its inode that nobody has. -/
theorem refusedExec_leaks :
    ∃ config, Run (system false).step (fun _ _ => True) start refusedExec config ∧
      Quiet config ∧ config.state.iref rootInode = 2 ∧
      (∀ f, config.state.fref f = 0) ∧
      ∀ p, config.state.live p = true ∧ config.state.cwd p = some rootInode → p = initProc :=
  ⟨_, run_of_exec rfl, by unfold Quiet; decide +kernel, rfl, by decide +kernel,
    by decide +kernel⟩

end OsCpp.Refs
