import OsCpp.Refs.Machine
import OsCpp.Lib.Tally

/-!
# Ledgers of system calls

What a system call holds while it is in progress: references to inodes and open files that are not
stored anywhere yet, and sleep-locks.
-/

namespace OsCpp.Refs

open Multiset (mem_cons_self cons_swap erase_cons_head)

/-- What a system call in progress holds. -/
@[ext]
structure Ledger where
  inodes : Multiset Inode := 0
  locks : Multiset Inode := 0
  files : Multiset FileIx := 0
  /-- Entries of `ftable` just allocated, which nobody else refers to. -/
  fresh : Multiset FileIx := 0
  /-- Number of descriptors `exit` has cleared. -/
  cleared : Nat := 0
  /-- `exit` has given up the working directory. -/
  homeless : Bool := false

namespace Ledger

/-- The ledger of a process outside of system calls. -/
def idle : Ledger := {}

variable (l : Ledger)

def gain (i : Inode) : Ledger := { l with inodes := i ::ₘ l.inodes }

def drop (i : Inode) : Ledger := { l with inodes := l.inodes.erase i }

def lock (i : Inode) : Ledger := { l with locks := i ::ₘ l.locks }

def unlock (i : Inode) : Ledger := { l with locks := l.locks.erase i }

def hold (f : FileIx) : Ledger := { l with files := f ::ₘ l.files }

/-- Hold an entry that was just allocated. -/
def allocate (f : FileIx) : Ledger := { l with files := f ::ₘ l.files, fresh := f ::ₘ l.fresh }

def release (f : FileIx) : Ledger :=
  { l with files := l.files.erase f, fresh := l.fresh.erase f }

end Ledger

/-- What the operations need from the ledger and do to it. -/
def spec (pipes : Bool) : (op : Op) → (op.Result → Ledger → Prop) → Ledger → Prop
  | .panic, _, _ => True
  | .test, post, l => ∀ b, post b l
  | .lookup, post, l => ∀ n, post n l
  | .iget _, post, l => ∀ i, post i (l.gain i)
  | .idupCwd, post, l => ∀ i, post i (l.gain i)
  | .ireclaim i, post, l => i ∈ l.inodes ∧ post false l ∧ post true (l.lock i)
  | .idrop i, post, l => i ∈ l.inodes ∧ post () (l.drop i)
  | .ilock i, post, l => i ∈ l.inodes ∧ post () (l.lock i)
  | .iunlock i, post, l => i ∈ l.locks ∧ post () (l.unlock i)
  | .alloc, post, l => post none l ∧ ∀ f, post (some f) (l.allocate f)
  | .allocPipe, post, l => pipes = true ∧ post none l
  | .allocFd f i, post, l => l.cleared = 0 ∧ f ∈ l.fresh ∧ i ∈ l.inodes ∧ post false l ∧
      post true ((l.release f).drop i)
  | .dupFd _, post, l => l.cleared = 0 ∧ ∀ b, post b l
  | .dupSlot _, post, l => post none l ∧ ∀ f, post (some f) (l.hold f)
  | .takeSlot _, post, l => post none l ∧ ∀ f, post (some f) (l.hold f)
  | .exitSlot fd, post, l => l.cleared = fd.val ∧ post none { l with cleared := fd.val + 1 } ∧
      ∀ f, post (some f) ({ l with cleared := fd.val + 1 }.hold f)
  | .close f, post, l => f ∈ l.files ∧ post .nothing (l.release f) ∧
      ∀ i, post (.inode i) ((l.release f).gain i)
  | .makePipe .., _, _ => False
  | .pipeFd _, _, _ => False
  | .pipeclose .., _, _ => False
  | .swapCwd i, post, l => l.homeless = false ∧ i ∈ l.inodes ∧ ∀ old, post old ((l.drop i).gain old)
  | .takeCwd, post, l => ∀ i, post i { l.gain i with homeless := true }
  | .spawn files i, post, l => (∀ f, l.files.count f = Tally.count files f) ∧ l.fresh = 0 ∧
      i ∈ l.inodes ∧ post () { l.drop i with files := 0 }
  | .die, post, l => l = { cleared := NOFILE, homeless := true } ∧ post () Ledger.idle
  | .abandon i, post, l => i ∈ l.inodes ∧ post () (l.drop i)

theorem spec_mono {pipes : Bool} {op : Op} {post weaker : op.Result → Ledger → Prop} {l : Ledger}
    (weaken : ∀ result after, post result after → weaker result after)
    (holds : spec pipes op post l) : spec pipes op weaker l := by
  cases op with
  | panic => trivial
  | test | lookup | iget | idupCwd | takeCwd => exact fun b => weaken _ _ (holds b)
  | ireclaim i => exact ⟨holds.1, weaken _ _ holds.2.1, weaken _ _ holds.2.2⟩
  | idrop i | ilock i | iunlock i | allocPipe | die | abandon i => exact ⟨holds.1, weaken _ _ holds.2⟩
  | alloc | dupSlot fd | takeSlot fd => exact ⟨weaken _ _ holds.1, fun f => weaken _ _ (holds.2 f)⟩
  | exitSlot fd => exact ⟨holds.1, weaken _ _ holds.2.1, fun f => weaken _ _ (holds.2.2 f)⟩
  | allocFd f i =>
    exact ⟨holds.1, holds.2.1, holds.2.2.1, weaken _ _ holds.2.2.2.1, weaken _ _ holds.2.2.2.2⟩
  | dupFd fd => exact ⟨holds.1, fun b => weaken _ _ (holds.2 b)⟩
  | close f => exact ⟨holds.1, weaken _ _ holds.2.1, fun i => weaken _ _ (holds.2.2 i)⟩
  | makePipe | pipeFd | pipeclose => exact holds
  | swapCwd i => exact ⟨holds.1, holds.2.1, fun old => weaken _ _ (holds.2.2 old)⟩
  | spawn files i => exact ⟨holds.1, holds.2.1, holds.2.2.1, weaken _ _ holds.2.2.2⟩

def logic (pipes : Bool) : Process.Logic Op Op.Result Ledger := ⟨spec pipes, spec_mono⟩

/-- From this ledger the program ends in the postcondition. -/
def wp {α : Type} (pipes : Bool) (prog : Prog α) (post : α → Ledger → Prop) : Ledger → Prop :=
  (logic pipes).wp prog post

section

variable {pipes : Bool} {l : Ledger} {i j : Inode} {f g : FileIx} {α : Type}

/-! ### Operations -/

variable {path : List UInt8} {post : Unit → Ledger → Prop}

theorem wp_panic : wp pipes (act .panic) post l := trivial

theorem wp_act {op : Op} {post : op.Result → Ledger → Prop} :
    wp pipes (act op) post l ↔ spec pipes op post l := .rfl

/-! ### Programs -/

theorem wp_pure (value : α) {post : α → Ledger → Prop} : wp pipes (pure value) post = post value :=
  rfl

theorem wp_bind {β : Type} (prog : Prog β) (next : β → Prog α) {post : α → Ledger → Prop} :
    wp pipes (prog >>= next) post = wp pipes prog fun value => wp pipes (next value) post :=
  funext fun _ => propext (Process.Logic.wp_bind prog next)

@[simp] theorem drop_gain : (l.gain i).drop i = l := by simp [Ledger.gain, Ledger.drop]

@[simp] theorem drop_gain_gain : ((l.gain i).gain j).drop i = l.gain j := by
  simp only [Ledger.gain, Ledger.drop, cons_swap j i, erase_cons_head]

@[simp] theorem unlock_lock : (l.lock i).unlock i = l := by simp [Ledger.lock, Ledger.unlock]

@[simp] theorem unlock_lock_lock : ((l.lock i).lock j).unlock i = l.lock j := by
  simp only [Ledger.lock, Ledger.unlock, cons_swap j i, erase_cons_head]

/-- Locks and references are independent. -/
@[simp] theorem lock_gain : (l.gain i).lock j = (l.lock j).gain i := rfl

@[simp] theorem unlock_gain : (l.gain i).unlock j = (l.unlock j).gain i := rfl

@[simp] theorem release_hold : (l.hold f).release f = { l with fresh := l.fresh.erase f } := by
  simp [Ledger.hold, Ledger.release]

@[simp] theorem release_allocate : (l.allocate f).release f = l := by
  simp [Ledger.allocate, Ledger.release]

@[simp] theorem release_allocate_allocate :
    ((l.allocate f).allocate g).release f = l.allocate g := by
  simp only [Ledger.allocate, Ledger.release, cons_swap g f, erase_cons_head]

@[simp] theorem mem_inodes_gain : i ∈ (l.gain i).inodes := mem_cons_self _ _

@[simp] theorem mem_inodes_gain_gain : i ∈ ((l.gain i).gain j).inodes := by simp [Ledger.gain]

@[simp] theorem mem_locks_lock : i ∈ (l.lock i).locks := mem_cons_self _ _

@[simp] theorem mem_locks_lock_lock : i ∈ ((l.lock i).lock j).locks := by simp [Ledger.lock]

@[simp] theorem mem_files_hold : f ∈ (l.hold f).files := mem_cons_self _ _

@[simp] theorem mem_files_allocate : f ∈ (l.allocate f).files := mem_cons_self _ _

@[simp] theorem inodes_lock : (l.lock i).inodes = l.inodes := rfl

@[simp] theorem locks_gain : (l.gain i).locks = l.locks := rfl

theorem wp_check (after : post () l) : wp pipes check post l := by
  rw [check, wp_bind, wp_act]
  intro b
  cases b with
  | true => exact after
  | false => exact wp_panic

theorem wp_transfer (after : post () l) : wp pipes transfer post l := wp_check after

theorem wp_iput (held : i ∈ l.inodes) (after : post () (l.drop i)) : wp pipes (iput i) post l := by
  rw [iput, wp_bind, wp_act]
  refine ⟨held, wp_act.mpr ⟨held, after⟩, wp_act.mpr ⟨by simp, wp_act.mpr ?_⟩⟩
  simpa using ⟨held, after⟩

theorem wp_iunlockput (after : post () l) : wp pipes (iunlockput i) post ((l.lock i).gain i) := by
  rw [iunlockput, wp_bind, wp_act]
  refine ⟨by simp, wp_iput ?_ ?_⟩
  · simp
  · simpa using after

/-- `iunlockput` of a directory while one of its entries is held. -/
theorem wp_iunlockput_parent (after : post () (l.gain j)) :
    wp pipes (iunlockput i) post (((l.lock i).gain i).gain j) := by
  rw [iunlockput, wp_bind, wp_act]
  refine ⟨by simp, wp_iput ?_ ?_⟩
  · simp
  · simpa using after

theorem wp_dir_lookup {post : Option Inode → Ledger → Prop} (missing : post none l)
    (found : ∀ i, post (some i) (l.gain i)) : wp pipes dir_lookup post l := by
  simp only [dir_lookup, wp_bind]
  refine wp_transfer (wp_act.mpr fun number => ?_)
  cases number with
  | none => exact missing
  | some inum =>
    rw [wp_bind, wp_act]
    exact found

theorem wp_ialloc {post : Option Inode → Ledger → Prop} (missing : post none l)
    (found : ∀ i, post (some i) (l.gain i)) : wp pipes ialloc post l := by
  rw [ialloc, wp_bind, wp_act]
  intro number
  cases number with
  | none => exact missing
  | some inum =>
    rw [wp_bind, wp_act]
    exact found

theorem wp_dir_link {post : Bool → Ledger → Prop} (after : ∀ b, post b l) :
    wp pipes dir_link post l := by
  rw [dir_link, wp_bind]
  refine wp_dir_lookup ?_ fun i => ?_
  · rw [wp_bind]
    exact wp_transfer (wp_act.mpr after)
  · simp only [wp_bind, wp_pure]
    refine wp_iput (by simp) ?_
    simpa using after false

theorem wp_linkDots {post : Bool → Ledger → Prop} (after : ∀ b, post b l) :
    wp pipes linkDots post l := by
  rw [linkDots, wp_bind]
  refine wp_dir_link fun b => ?_
  cases b with
  | true => exact wp_dir_link after
  | false => exact after false

/-- The loop of `namex` exchanges the reference it has for that of its result. -/
theorem wp_namexFrom {post : Option Inode → Ledger → Prop} {parent : Bool} (missing : post none l)
    (found : ∀ i, post (some i) (l.gain i)) (fuel : Nat) (ip : Inode) (path : List UInt8) :
    wp pipes (namexFrom parent fuel ip path) post (l.gain ip) := by
  induction fuel generalizing ip path with
  | zero =>
    rw [namexFrom, wp_bind]
    exact wp_panic
  | succ fuel ih =>
    rw [namexFrom]
    split
    · split
      · simp only [wp_bind, wp_pure]
        refine wp_iput (by simp) ?_
        simpa using missing
      · exact found ip
    · next component rest _ =>
      split
      · rw [wp_bind]
        exact wp_panic
      · simp only [wp_bind]
        refine wp_act.mpr ⟨by simp, wp_act.mpr fun directory => ?_⟩
        rw [lock_gain]
        split
        · simp only [wp_bind, wp_pure]
          exact wp_iunlockput missing
        · split
          · simp only [wp_bind, wp_pure]
            exact wp_act.mpr ⟨by simp, by simpa using found ip⟩
          · rw [wp_bind]
            refine wp_dir_lookup ?_ fun next => ?_
            · simp only [wp_bind, wp_pure]
              exact wp_iunlockput missing
            · simp only [wp_bind]
              exact wp_iunlockput_parent (ih next rest)

/-- `namex` returns a reference, or nothing. -/
theorem wp_namex {post : Option Inode → Ledger → Prop} {parent : Bool}
    (missing : post none l) (found : ∀ i, post (some i) (l.gain i)) :
    wp pipes (namex path parent) post l := by
  simp only [namex]
  split
  · rw [wp_bind, wp_act]
    exact fun ip => wp_namexFrom missing found _ ip _
  · rw [wp_bind, wp_act]
    exact fun ip => wp_namexFrom missing found _ ip _

section

variable {post : Option Inode → Ledger → Prop} (failed : post none l)
include failed

theorem wp_createFailed :
    wp pipes (createFailed i j) post ((((l.lock i).lock j).gain i).gain j) := by
  simp only [createFailed, wp_bind, wp_pure]
  exact wp_iunlockput (l := (l.lock i).gain i) (wp_iunlockput failed)

theorem wp_createLink (made : post (some j) ((l.lock j).gain j)) :
    wp pipes (createLink i j) post ((((l.lock i).lock j).gain i).gain j) := by
  rw [createLink, wp_bind]
  refine wp_dir_link fun b => ?_
  cases b with
  | false => exact wp_createFailed failed
  | true =>
    simp only [if_true, wp_bind, wp_pure, iunlockput]
    refine wp_act.mpr ⟨by simp, wp_iput ?_ ?_⟩
    · simp
    · simpa using made

theorem wp_createExisting {file : Bool}
    (made : post (some j) ((l.lock j).gain j)) :
    wp pipes (createExisting i j file) post (((l.lock i).gain i).gain j) := by
  simp only [createExisting, wp_bind]
  refine wp_iunlockput_parent (wp_act.mpr ⟨by simp, wp_act.mpr fun fits => ?_⟩)
  rw [lock_gain]
  split
  · exact made
  · simp only [wp_bind, wp_pure]
    exact wp_iunlockput failed

theorem wp_createNew {directory : Bool}
    (made : ∀ j, post (some j) ((l.lock j).gain j)) :
    wp pipes (createNew i directory) post ((l.lock i).gain i) := by
  rw [createNew, wp_bind]
  refine wp_ialloc ?_ fun j => ?_
  · simp only [wp_bind, wp_pure]
    exact wp_iunlockput failed
  · simp only [wp_bind]
    refine wp_act.mpr ⟨by simp, ?_⟩
    simp only [lock_gain]
    split
    · rw [wp_bind]
      refine wp_linkDots fun b => ?_
      cases b with
      | true => exact wp_createLink failed (made j)
      | false => exact wp_createFailed failed
    · exact wp_createLink failed (made j)

theorem wp_create {kind : Kind} (made : ∀ i, post (some i) ((l.lock i).gain i)) :
    wp pipes (create path kind) post l := by
  rw [create, wp_bind]
  refine wp_namex failed fun dp => ?_
  simp only [wp_bind]
  refine wp_act.mpr ⟨by simp, ?_⟩
  rw [lock_gain]
  refine wp_dir_lookup ?_ fun ip => ?_
  · exact wp_createNew failed made
  · exact wp_createExisting failed (made ip)

end

theorem wp_close (held : f ∈ l.files) (after : post () (l.release f)) :
    wp pipes (close f) post l := by
  rw [close, wp_bind, wp_act]
  refine ⟨held, after, fun i => wp_iput (by simp) ?_⟩
  simpa using after

theorem wp_fetch_str {post : Bool → Ledger → Prop} {len : Nat}
    (after : ∀ b, post b l) : wp pipes (fetch_str path len) post l := by
  rw [fetch_str]
  split
  · exact after false
  · split
    · rw [wp_bind]
      exact wp_panic
    · exact wp_act.mpr after

theorem wp_openInode {post : Option Inode → Ledger → Prop} {creates : Bool}
    (failed : post none l) (found : ∀ i, post (some i) ((l.lock i).gain i)) :
    wp pipes (openInode path creates) post l := by
  rw [openInode]
  split
  · exact wp_create failed found
  · rw [wp_bind]
    refine wp_namex failed fun ip => ?_
    simp only [wp_bind]
    refine wp_act.mpr ⟨by simp, wp_act.mpr fun opens => ?_⟩
    rw [lock_gain]
    cases opens with
    | true => exact found ip
    | false => exact wp_iunlockput failed

theorem wp_openDescriptor (after : post () l)
    (began : l.cleared = 0) : wp pipes (openDescriptor i) post ((l.lock i).gain i) := by
  rw [openDescriptor, wp_bind, wp_act]
  refine ⟨wp_iunlockput after, fun f => ?_⟩
  simp only [wp_bind]
  refine wp_act.mpr ⟨began, mem_cons_self _ _, by simp [Ledger.allocate], ?_, ?_⟩
  · simp only [Bool.false_eq_true, if_false, wp_bind]
    refine wp_close mem_files_allocate ?_
    rw [release_allocate]
    exact wp_iunlockput after
  · rw [release_allocate, drop_gain]
    exact wp_act.mpr ⟨by simp, by simpa using after⟩

end

section

variable {pipes : Bool}

/-- The call leaves nothing behind. -/
def Settled (pipes : Bool) (prog : Prog Unit) : Prop :=
  wp pipes prog (fun _ l => l = Ledger.idle) Ledger.idle

/-- A call does nothing when it cannot fetch its path. -/
theorem settled_fetch_str {path : List UInt8} {len : Nat} {prog : Prog Unit}
    (settled : Settled pipes prog) :
    Settled pipes (fetch_str path len >>= fun fetched => if fetched = true then prog else pure ()) := by
  rw [Settled, wp_bind]
  refine wp_fetch_str fun fetched => ?_
  cases fetched with
  | false => exact rfl
  | true => exact settled

theorem settled_sys_open (path : List UInt8) (creates : Bool) :
    Settled pipes (sys_open path creates) := by
  refine settled_fetch_str ?_
  simp only [Settled, wp_bind]
  refine wp_openInode rfl fun ip => wp_act.mpr fun permitted => ?_
  cases permitted with
  | true => exact wp_openDescriptor rfl rfl
  | false => exact wp_iunlockput rfl

theorem settled_sys_close (fd : Fd) : Settled pipes (sys_close fd) := by
  rw [Settled, sys_close, wp_bind, wp_act]
  exact ⟨rfl, fun f => wp_close (by simp) (by simp [Ledger.idle])⟩

theorem settled_sys_dup (fd : Fd) : Settled pipes (sys_dup fd) := by
  rw [Settled, sys_dup, wp_bind, wp_act]
  exact ⟨rfl, fun _ => rfl⟩

theorem settled_sys_chdir (path : List UInt8) : Settled pipes (sys_chdir path) := by
  refine settled_fetch_str ?_
  simp only [Settled, wp_bind]
  refine wp_namex rfl fun ip => ?_
  simp only [wp_bind]
  refine wp_act.mpr ⟨by simp, wp_act.mpr fun directory => ?_⟩
  rw [lock_gain]
  cases directory with
  | false => exact wp_iunlockput rfl
  | true =>
    simp only [if_true, wp_bind]
    refine wp_act.mpr ⟨by simp, ?_⟩
    rw [unlock_gain, unlock_lock]
    refine wp_act.mpr ⟨rfl, by simp, fun old => ?_⟩
    rw [drop_gain]
    exact wp_iput (by simp) (by simp)

theorem settled_sys_mkdir (path : List UInt8) : Settled pipes (sys_mkdir path) := by
  refine settled_fetch_str ?_
  simp only [Settled, wp_bind]
  exact wp_create rfl fun _ => wp_iunlockput rfl

theorem settled_sys_mknod (path : List UInt8) : Settled pipes (sys_mknod path) := by
  refine settled_fetch_str ?_
  simp only [Settled, wp_bind]
  exact wp_create rfl fun _ => wp_iunlockput rfl

theorem settled_sys_exec (path : List UInt8) : Settled pipes (sys_exec path) := by
  refine settled_fetch_str ?_
  simp only [Settled, wp_bind]
  refine wp_check (wp_act.mpr fun collected => ?_)
  cases collected with
  | false => exact rfl
  | true =>
    simp only [if_true, wp_bind]
    refine wp_namex wp_panic fun ip => ?_
    simp only [wp_bind]
    refine wp_act.mpr ⟨by simp, wp_act.mpr fun permitted => ?_⟩
    rw [lock_gain]
    cases permitted with
    | true =>
      simp only [if_true, exec, wp_bind]
      exact wp_transfer (wp_iunlockput (wp_check rfl))
    | false =>
      refine wp_act.mpr ⟨by simp, wp_act.mpr ⟨by simp, ?_⟩⟩
      rw [unlock_gain, unlock_lock, drop_gain]

/-- The loop of `fork` holds a reference for each descriptor it copies. -/
theorem wp_dupFiles {post : (Fd → Option FileIx) → Ledger → Prop} {l : Ledger}
    (after : ∀ files held, (∀ f, Multiset.count f held = Tally.count files f) →
      post files { l with files := held })
    {fds : List Fd} {files : Fd → Option FileIx} {held : Multiset FileIx} (distinct : fds.Nodup)
    (empty : ∀ fd ∈ fds, files fd = none)
    (counted : ∀ f, Multiset.count f held = Tally.count files f) :
    wp pipes (dupFiles fds files) post { l with files := held } := by
  induction fds generalizing files held with
  | nil => exact after files held counted
  | cons fd fds ih =>
    obtain ⟨fresh, distinct⟩ := List.nodup_cons.mp distinct
    have still : ∀ file, ∀ other ∈ fds, Function.update files fd file other = none := by
      intro file other member
      rw [Function.update_of_ne (ne_of_mem_of_not_mem member fresh)]
      exact empty other (List.mem_cons_of_mem fd member)
    have here : files fd = none := empty fd List.mem_cons_self
    rw [dupFiles, wp_bind, wp_act]
    refine ⟨ih distinct (still none) ?_, fun file => ?_⟩
    · rw [← here, Function.update_eq_self]
      exact counted
    · refine ih distinct (still (some file)) fun f => ?_
      have changed := Tally.count_update files fd (some file) f
      have before := counted f
      rw [here, Tally.hit_none] at changed
      rw [Tally.hit_some] at changed
      rw [Multiset.count_cons]
      simp only [eq_comm (a := f)]
      omega

theorem settled_sys_fork : Settled pipes sys_fork := by
  simp only [Settled, sys_fork, wp_bind]
  refine wp_check (wp_act.mpr fun copied => ?_)
  cases copied with
  | false => exact rfl
  | true =>
    simp only [if_true, wp_bind]
    refine wp_dupFiles (l := Ledger.idle) (fun files held counted => ?_) (List.nodup_finRange NOFILE)
      (fun _ _ => rfl) fun f => by simp
    refine wp_act.mpr fun cwd => wp_act.mpr ⟨counted, rfl, by simp, ?_⟩
    rw [drop_gain]
    rfl

theorem wp_closeFiles {post : Unit → Ledger → Prop} {l : Ledger} {cleared : Nat} {fds : List Fd}
    (ordered : fds.map Fin.val = List.range' cleared fds.length) (owned : l.fresh = 0)
    (after : post () { l with cleared := cleared + fds.length }) :
    wp pipes (closeFiles fds) post { l with cleared := cleared } := by
  induction fds generalizing cleared with
  | nil => exact after
  | cons fd fds ih =>
    simp only [List.map_cons, List.length_cons, List.range'_succ, List.cons.injEq] at ordered
    obtain ⟨here, ordered⟩ := ordered
    have rest : wp pipes (closeFiles fds) post { l with cleared := fd.val + 1 } := by
      refine ih (here ▸ ordered) ?_
      rwa [List.length_cons, ← here, ← add_assoc, add_right_comm] at after
    rw [closeFiles, wp_bind, wp_act]
    refine ⟨here.symm, rest, fun f => ?_⟩
    simp only [wp_bind]
    refine wp_close (by simp) ?_
    rw [release_hold]
    simpa [owned] using rest

theorem settled_sys_exit (p : Proc) : Settled pipes (sys_exit p) := by
  rw [Settled, sys_exit]
  split
  · exact wp_panic
  · simp only [wp_bind]
    refine wp_closeFiles (l := Ledger.idle) ?_ rfl ?_
    · decide
    · refine wp_act.mpr fun cwd => wp_iput (by simp [Ledger.gain]) (wp_act.mpr ⟨?_, rfl⟩)
      simp [Ledger.gain, Ledger.drop, Ledger.idle]

/-- When `pipealloc` finds no third entry, `sys_pipe` closes the two it has. -/
theorem settled_sys_pipe : Settled true sys_pipe := by
  rw [Settled, sys_pipe, wp_bind, wp_act]
  refine ⟨rfl, fun f0 => ?_⟩
  simp only [wp_bind]
  refine wp_act.mpr ⟨wp_close (by simp) (by simp), fun f1 => ?_⟩
  simp only [wp_bind]
  refine wp_act.mpr ⟨rfl, ?_⟩
  simp only [wp_bind]
  refine wp_close (by simp [Ledger.allocate]) ?_
  rw [release_allocate_allocate]
  exact wp_close (by simp) (by simp)

/-- Every system call gives back what it acquires. -/
theorem settled_program {p : Proc} {call : Call} (called : pipes = true ∨ call ≠ .sys_pipe) :
    Settled pipes (program p call) := by
  cases call with
  | sys_open path creates => exact settled_sys_open path creates
  | sys_close fd => exact settled_sys_close fd
  | sys_dup fd => exact settled_sys_dup fd
  | sys_chdir path => exact settled_sys_chdir path
  | sys_mkdir path => exact settled_sys_mkdir path
  | sys_mknod path => exact settled_sys_mknod path
  | sys_exec path => exact settled_sys_exec path
  | sys_fork => exact settled_sys_fork
  | sys_exit => exact settled_sys_exit p
  | sys_pipe =>
    rcases called with rfl | other
    · exact settled_sys_pipe
    · exact absurd rfl other

end

end OsCpp.Refs
