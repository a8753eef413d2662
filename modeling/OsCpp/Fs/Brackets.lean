import Mathlib
import OsCpp.Fs.Mkfs

/-!
# Transactions and buffers of the system calls

Every system call releases the buffers it locks and closes the transactions it opens, on every path,
and the last one to close commits.  The exception is `sys_mknod`, whose error exits leave a
transaction open.  Only `sys_read` and `sys_exec` may log a block outside of a transaction.
-/

namespace OsCpp.Fs

open Std.Do

set_option mvcgen.warning false

/-- Where a call is: the number of open transactions, and whether it commits. -/
structure Point where
  count : Nat
  commits : Bool

def Point.inside (x : Point) : Point := { x with count := x.count + 1 }

/-- The blocks whose buffers a call has locked. -/
structure Held where
  blocks : Multiset Nat

def Held.push (h : Held) (b : Nat) : Held := ⟨b ::ₘ h.blocks⟩

/-- The log has room for the open transactions; with none open it is empty, except while it is
committed. -/
def At (x : Point) (h : Held) (s : Kernel) : Prop :=
  s.outstanding = x.count ∧ s.held = h.blocks ∧ x.count * MAXOPBLOCKS ≤ LOGSIZE ∧
    (x.count = 0 → x.commits = false → s.lh = [])

/-- Blocks may be logged here, since a transaction is open or because of `p`. -/
class May (p : Prop) (x : Point) : Prop where
  may : x.count ≠ 0 ∨ p

variable {p : Prop} {x : Point} {h : Held} {n : Nat} {c : Bool} {α : Type}

instance : May p x.inside := ⟨.inl (Nat.succ_ne_zero _)⟩

/-- A part of a call, and where it is when it returns; it logs blocks outside of transactions only
because of `p`. -/
abbrev Moves (p : Prop) (x : Point) (h : Held) (program : Prog α) (after : α → Point) (h' : Held) :
    Prop :=
  ⦃fun s => ⌜At x h s⌝⦄ program
  ⦃post⟨fun value s => ⌜At (after value) h' s⌝, fun stop _ => ⌜stop = outsideOfTrans → p⌝⟩⦄

abbrev Stays (p : Prop) (x : Point) (h : Held) (program : Prog α) : Prop :=
  Moves p x h program (fun _ => x) h

variable (b fuel offset m tot : Nat) (ip dp : Fin NINODE) (name path : List UInt8) (type : UInt16)
  (user : User) (f : Fin NFILE) (a0 a1 a2 : Nat)

attribute [spec] bufData setData note bzero balloc inode setInode setNode ialloc idup lockInode
  unlockInode iunlock iunlockput dir_lookup dir_link dir_link_inode namei nameiparent createFailed
  linkDots file setFile alloc dup setProcess alloc_fd get_fd fetch_str check_permission_for_file
  openPermitted openFile openFailed fail_work

@[spec] theorem check_stays {q : Prop} [Decidable q] {stop : Stop} (other : stop ≠ outsideOfTrans) :
    Stays p x h (check q stop) := by
  mvcgen [check]
  exact fun same => absurd same other

@[spec] theorem bread_moves : Moves p x h (bread b) (fun _ => x) (h.push b) := by
  mvcgen [bread, check]
  · rename_i here _ _
    exact ⟨here.1, congrArg (b ::ₘ ·) here.2.1, here.2.2⟩
  all_goals exact nofun

@[spec] theorem brelse_moves : Moves p x (h.push b) (brelse b) (fun _ => x) h := by
  mvcgen [brelse, check]
  · rename_i here _
    refine ⟨here.1, ?_, here.2.2⟩
    rw [← Multiset.coe_erase, here.2.1]
    exact Multiset.erase_cons_head ..
  · exact nofun

@[spec] theorem lwrite_stays [may : May p x] : Stays p x h (lwrite b) := by
  mvcgen [lwrite, check]
  · rename_i s here _ some
    exact ⟨here.1, here.2.1, here.2.2.1, fun none => by simp [here.1, none] at some⟩
  · rename_i s here _ none
    exact may.may.resolve_left fun some => none (by rw [here.1]; omega)
  · exact nofun

@[spec] theorem writeLog_stays (blocks : List Nat) : Stays p x h (writeLog m b blocks) := by
  cases h -- so that it is not mistaken for the buffers locked further on
  induction blocks generalizing b <;> mvcgen [writeLog, *]

theorem At.swap {a b : Nat} {s : Kernel} (here : At x ((h.push a).push b) s) :
    At x ((h.push b).push a) s :=
  ⟨here.1, here.2.1.trans (Multiset.cons_swap ..), here.2.2⟩

@[spec] theorem installTrans_stays (blocks : List Nat) : Stays p x h (installTrans m b blocks) := by
  cases h
  induction blocks generalizing b <;> mvcgen [installTrans, *]
  rotate_left
  · exact At.swap ‹_›
  · assumption

@[spec] theorem whead_stays : Stays p x h (whead b) := by
  cases h
  mvcgen [whead]

@[spec] theorem commit_moves : Moves p ⟨n, true⟩ h commit (fun _ => ⟨n, c⟩) h := by
  mvcgen [commit]
  · rename_i here empty
    exact ⟨here.1, here.2.1, here.2.2.1, fun _ _ => empty⟩
  · rename_i here _
    exact ⟨here.1, here.2.1, here.2.2.1, fun _ _ => rfl⟩

@[spec] theorem begin_op_moves : Moves p x h begin_op (fun _ => x.inside) h := by
  mvcgen [begin_op, check]
  · rename_i s here room
    have opened : s.outstanding + 1 = x.inside.count := congrArg (· + 1) here.1
    exact ⟨opened, here.2.1, opened ▸ le_of_add_le_right room, nofun⟩
  · exact nofun

@[spec] theorem end_op_moves : Moves p x.inside h end_op (fun _ => x) h := by
  have closes {s : Kernel} (here : At x.inside h s) :
      (if s.outstanding = 0 then 2 ^ 32 - 1 else s.outstanding - 1) = x.count := by
    simp [show s.outstanding = x.count + 1 from here.1]
  have fits {s : Kernel} (here : At x.inside h s) : x.count * MAXOPBLOCKS ≤ LOGSIZE :=
    (Nat.mul_le_mul_right _ le_self_add).trans here.2.2.1
  mvcgen [end_op]
  · rename_i here _ _
    exact ⟨closes here, here.2.1, fits here, nofun⟩
  · rename_i here _ _
    exact ⟨closes here, here.2.1, fits here, fun none => absurd ((closes here).trans none) ‹_›⟩

@[spec] theorem iget_stays : Stays p x h (iget m) := by
  mvcgen [iget]
  nofun

@[spec] theorem ilock_stays : Stays p x h (ilock ip) := by
  cases h
  mvcgen [ilock]

section

variable [May p x]

@[spec] theorem ballocFrom_stays (sb : Superblock) : Stays p x h (ballocFrom sb fuel b) := by
  cases h
  induction fuel generalizing b <;> mvcgen [ballocFrom, *]

@[spec] theorem bfree_stays : Stays p x h (bfree b) := by
  cases h
  mvcgen [bfree]

@[spec] theorem iallocFrom_stays : Stays p x h (iallocFrom type fuel m) := by
  cases h
  induction fuel generalizing m <;> mvcgen [iallocFrom, *]

@[spec] theorem iupdate_stays : Stays p x h (iupdate ip) := by
  cases h
  mvcgen [iupdate]

@[spec] theorem freeDirect_stays (slots : List (Fin (NDIRECT + 1))) :
    Stays p x h (freeDirect ip slots) := by
  induction slots <;> mvcgen [freeDirect, *]

@[spec] theorem freeIndirect_stays (block : Block) (js : List Nat) :
    Stays p x h (freeIndirect b block js) := by
  induction js <;> mvcgen [freeIndirect, *]

@[spec] theorem itrunc_stays : Stays p x h (itrunc ip) := by
  cases h
  mvcgen [itrunc]

@[spec] theorem iput_stays : Stays p x h (iput ip) := by
  mvcgen [iput]

@[spec] theorem slotAddr_stays (slot : Fin (NDIRECT + 1)) : Stays p x h (slotAddr ip slot) := by
  mvcgen [slotAddr]

@[spec] theorem entryAddr_stays : Stays p x h (entryAddr b m) := by
  mvcgen [entryAddr]

@[spec] theorem bmap_stays : Stays p x h (bmap ip b) := by
  cases h
  mvcgen [bmap] with first | infer_instance | nofun

@[spec] theorem readBlocks_stays (dst : Dest) (bytes : List UInt8) :
    Stays p x h (readBlocks ip dst m fuel offset tot bytes) := by
  cases h
  induction fuel generalizing offset tot bytes <;> mvcgen [readBlocks, *]

@[spec] theorem readi_stays (dst : Dest) : Stays p x h (readi ip dst offset m) := by
  mvcgen [readi]

@[spec] theorem writeBlocks_stays (src : Source) :
    Stays p x h (writeBlocks ip src m fuel offset tot) := by
  cases h
  induction fuel generalizing offset tot <;> mvcgen [writeBlocks, *]

@[spec] theorem writei_stays (src : Source) : Stays p x h (writei ip src offset m) := by
  mvcgen [writei]

@[spec] theorem lookupFrom_stays : Stays p x h (lookupFrom dp name fuel offset) := by
  induction fuel generalizing offset <;> mvcgen [lookupFrom, *]

@[spec] theorem freeEntryFrom_stays (de : Dirent) : Stays p x h (freeEntryFrom dp fuel offset de) := by
  induction fuel generalizing offset de <;> mvcgen [freeEntryFrom, *]

@[spec] theorem dirLinkWith_stays (fill : Dirent → Dirent) : Stays p x h (dirLinkWith dp name fill) := by
  mvcgen [dirLinkWith]

@[spec] theorem namexFrom_stays (parent : Bool) : Stays p x h (namexFrom parent fuel ip path name) := by
  induction fuel generalizing ip path name <;> mvcgen [namexFrom, nameBuffer, *]

@[spec] theorem namex_stays (parent : Bool) : Stays p x h (namex path parent) := by
  mvcgen [namex] with first | infer_instance | nofun

@[spec] theorem createLink_stays : Stays p x h (createLink dp ip name type) := by
  mvcgen [createLink]

@[spec] theorem createNew_stays (major minor : UInt16) :
    Stays p x h (createNew dp ip name type major minor) := by
  mvcgen [createNew] with infer_instance

@[spec] theorem create_stays (major minor : UInt16) : Stays p x h (create path type major minor) := by
  mvcgen [create] with infer_instance

@[spec] theorem openInode_stays (mode : UInt32) : Stays p x h (openInode path mode) := by
  mvcgen [openInode] with infer_instance

@[spec] theorem loadseg_stays (page : Nat) : Stays p x h (loadseg user b ip offset m fuel page) := by
  induction fuel generalizing page <;> mvcgen [loadseg, *]

@[spec] theorem loadSegments_stays : Stays p x h (loadSegments user ip offset m fuel b) := by
  induction fuel generalizing b <;> mvcgen [loadSegments, *] with nofun

end

@[spec] theorem close_stays : Stays p x h (close f) := by
  cases x
  mvcgen [close] with first | infer_instance | nofun

@[spec] theorem writeChunks_stays :
    Stays p ⟨n, c⟩ h (writeChunks user f ip a0 m fuel b) := by
  induction fuel generalizing b <;> mvcgen [writeChunks, *] with infer_instance

@[spec] theorem openDescriptor_moves (mode : UInt32) :
    Moves p (Point.inside ⟨n, c⟩) h (openDescriptor ip mode) (fun _ => ⟨n, c⟩) h := by
  mvcgen [openDescriptor] with infer_instance

@[spec] theorem exec_stays : Stays p ⟨n, c⟩ h (exec user ip) := by
  mvcgen [exec] with first | infer_instance | nofun

@[spec] theorem dupFiles_stays (files : List (Option (Fin NFILE))) : Stays p x h (dupFiles files) := by
  fun_induction dupFiles <;> mvcgen [dupFiles, *]

@[spec] theorem closeFiles_stays (fds : List (Fin NOFILE)) :
    Stays p ⟨n, c⟩ h (closeFiles fds) := by
  induction fds <;> mvcgen [closeFiles, *]

/-- The calls that read a file or look up a path outside of a transaction. -/
abbrev Call.Loose : Call → Prop
  | .sys_read .. | .sys_exec .. => True
  | _ => False

/-- How many transactions a call leaves open that returns a value. -/
def Call.leaves : Call → Int → Nat
  | .sys_mknod .., result => if result = -1 then 1 else 0
  | _, _ => 0

instance : May (True ∧ n = 0) ⟨n, c⟩ := ⟨by simp; omega⟩

theorem syscall_moves (call : Call) : Moves (call.Loose ∧ n = 0) ⟨n, c⟩ h (syscall user call)
    (fun result => ⟨n + call.leaves result, c⟩) h := by
  cases call <;> mvcgen [syscall, sys_fork, sys_exit, sys_pipe, sys_read, read, sys_exec, sys_fstat,
    stat, sys_chdir, sys_dup, sys_open, sys_write, write, sys_mknod, sys_mkdir, sys_close, sys_setuid,
    sys_setgid] with first | infer_instance | nofun

/-- Where a call ends, and when it stops for logging a block outside of a transaction. -/
theorem Request.ends (request : Request) {s : Kernel} (here : At ⟨n, c⟩ h s) :
    match request.outcome s with
    | .ok result t => At ⟨n + request.call.leaves result, c⟩ h t
    | .error stop _ => stop = outsideOfTrans → request.call.Loose ∧ n = 0 := by
  have ends := syscall_moves request.user request.call { s with curr := request.pid } here
  unfold outcome
  split
  all_goals
    rename_i ran
    simpa [wp, PredTrans.apply, EStateM.run, ran] using ends

/-- The transactions that a run of calls leaves open. -/
def leaked : Kernel → List Request → Nat
  | _, [] => 0
  | s, request :: requests =>
    match request.outcome s with
    | .ok result t => request.call.leaves result + leaked t requests
    | .error .. => 0

theorem at_of_run {requests : List Request} {s t : Kernel} (here : At ⟨n, c⟩ h s)
    (ran : requests.foldlM step s = some t) : At ⟨n + leaked s requests, c⟩ h t := by
  induction requests generalizing n s with
  | nil => exact Option.some.inj ran ▸ here
  | cons request requests ih =>
    obtain ⟨next, taken, rest⟩ := Option.bind_eq_some_iff.mp ran
    have ends := request.ends here
    rw [step, Option.ite_none_right_eq_some] at taken
    rw [leaked]
    split at ends
    · rename_i result t' ran
      simp only [ran, Option.some.injEq] at taken
      rw [← add_assoc]
      exact ih ends (taken.2 ▸ rest)
    · rename_i ran
      simp [ran] at taken

/-- In every run from boot no buffer stays locked, the transactions left open are those of `sys_mknod`
calls that failed, and the log has room for them; as long as there are none, the log is empty between
calls, and only `sys_read` and `sys_exec` can log a block outside of a transaction. -/
theorem transactions_closed {blocks : Nat → Block} {requests : List Request} {t : Kernel}
    (ran : requests.foldlM step (boot blocks) = some t) :
    t.outstanding = leaked (boot blocks) requests ∧ t.held = [] ∧ t.outstanding * MAXOPBLOCKS ≤ LOGSIZE ∧
      (t.outstanding = 0 → t.lh = []) ∧
      ∀ (request : Request) (next : Kernel), request.outcome t = .error outsideOfTrans next →
        request.call.Loose ∧ t.outstanding = 0 := by
  have here : At ⟨0 + leaked (boot blocks) requests, false⟩ ⟨0⟩ t :=
    at_of_run ⟨rfl, rfl, zero_le, fun _ _ => rfl⟩ ran
  rw [zero_add] at here
  refine ⟨here.1, by simpa using here.2.1, here.1 ▸ here.2.2.1,
    fun none => here.2.2.2 (here.1 ▸ none) rfl, fun request next stopped => ?_⟩
  have ends := request.ends here
  rw [stopped] at ends
  exact here.1 ▸ ends rfl

theorem transactions_closed_mknod :
    let request : Request := ⟨⟨0, NPROC_pos⟩, ⟨fun _ => none, fun _ _ => false, none,
      ⟨false, fun _ => none, fun _ _ => false, false, none⟩, none, 0⟩, .sys_mknod 0 0 0⟩
    ∃ t, [request].foldlM step (boot fun _ => Bytes.zero _) = some t ∧ t.outstanding = 1 := by
  intro request
  have ran : [request].foldlM step (boot fun _ => Bytes.zero _) = some _ := rfl
  exact ⟨_, ran, (transactions_closed ran).1⟩

end OsCpp.Fs
