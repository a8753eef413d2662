import OsCpp.Lib.Execution
import Mathlib.Algebra.Order.BigOperators.Group.Finset
import Mathlib.Data.Fintype.BigOperators

/-!
# The inode table

`ialloc`, `iget`, `idup`, `ilock`, `iunlock` and `iput` of `kernel/fs.cpp` by any number of processes.
What is done under `itable.lock`, under the lock of the buffer of a dinode, or by a single statement of
the reclaim branch of `iput`, is one step.  Of inodes, the type and the link count matter.  Each entry
also records, for the proofs only, how many references each process has.  Processes use references
and locks they have; `ref` does not overflow.
-/

namespace OsCpp.ITable

open Function (update)

/-- Entries of `itable`. -/
def NINODE : Nat := 50

/-- Device and inode number. -/
abbrev Key := Nat × Nat

structure Dinode where
  type : UInt16 := 0
  nlink : Nat := 0
  deriving DecidableEq

/-- `file::inode`, with its references. -/
structure Inode (Pid : Type) where
  key : Key := (0, 0)
  ref : Nat := 0
  valid : Bool := false
  lock : Option Pid := none
  type : UInt16 := 0
  nlink : Nat := 0
  refs : Pid → Nat := fun _ => 0

/-- Where a process is. -/
inductive Phase
  | out
  /-- The loop of `ialloc`. -/
  | scanning (dev : Nat) (type : UInt16) (inum : Nat)
  /-- Before `iget` in `ialloc`, with the type that the dinode had. -/
  | fetching (key : Key) (was : UInt16)
  /-- `ilock` has the lock and reads the dinode. -/
  | loading (i : Fin NINODE)
  /-- `iput` would sleep, holding `itable.lock`. -/
  | stuck (i : Fin NINODE)
  /-- Before `itrunc(ip)`. -/
  | truncating (i : Fin NINODE)
  /-- Before `ip->type = 0; iupdate(ip)`. -/
  | clearing (i : Fin NINODE)
  /-- Before `ip->valid = 0`. -/
  | invalidating (i : Fin NINODE)
  /-- Before `ip->lock.release()`. -/
  | unlocking (i : Fin NINODE)
  /-- Before `itable.lock.acquire(); --ip->ref`. -/
  | dropping (i : Fin NINODE)
  deriving DecidableEq

structure State (Pid : Type) where
  table : Fin NINODE → Inode Pid
  disk : Key → Dinode
  phase : Pid → Phase

inductive Event (Pid : Type)
  | ialloc (p : Pid) (dev : Nat) (type : UInt16)
  | iget (p : Pid) (key : Key)
  | idup (p : Pid) (i : Fin NINODE)
  | ilock (p : Pid) (i : Fin NINODE)
  | iunlock (p : Pid) (i : Fin NINODE)
  | iput (p : Pid) (i : Fin NINODE)
  | step (p : Pid)
  /-- The holder of the lock changes the link count. -/
  | setNlink (p : Pid) (i : Fin NINODE) (nlink : Nat)
  | iupdate (p : Pid) (i : Fin NINODE)
  /-- A reference changes hands. -/
  | give (p q : Pid) (i : Fin NINODE)

variable {Pid : Type} [DecidableEq Pid]

/-- The loop of `iget`: the entry to use, and whether it has the inode already. -/
def search (table : Fin NINODE → Inode Pid) (key : Key) :
    List (Fin NINODE) → Option (Fin NINODE) → Option (Fin NINODE × Bool)
  | [], node => node.map fun i => (i, false)
  | i :: rest, node =>
    if 0 < (table i).ref ∧ (table i).key = key then some (i, true)
    else search table key rest (if node = none ∧ (table i).ref = 0 then some i else node)

/-- One more reference of a process. -/
def Inode.take (node : Inode Pid) (p : Pid) : Inode Pid :=
  { node with ref := node.ref + 1, refs := update node.refs p (node.refs p + 1) }

/-- One reference of a process less. -/
def Inode.drop (node : Inode Pid) (p : Pid) : Inode Pid :=
  { node with ref := node.ref - 1, refs := update node.refs p (node.refs p - 1) }

/-- A new entry of `iget`. -/
def Inode.fresh (node : Inode Pid) (key : Key) (p : Pid) : Inode Pid :=
  { node with key, ref := 1, valid := false, refs := update node.refs p (node.refs p + 1) }

namespace State

variable (s : State Pid) (p : Pid)

def set (i : Fin NINODE) (node : Inode Pid) : State Pid :=
  { s with table := update s.table i node }

def goto (phase : Phase) : State Pid := { s with phase := update s.phase p phase }

def write (key : Key) (dinode : Dinode) : State Pid :=
  { s with disk := update s.disk key dinode }

/-- `iget`, which panics if the table is full. -/
def iget (key : Key) : Option (State Pid) := do
  let (i, found) ← search s.table key (List.finRange NINODE) none
  some (s.set i (if found then (s.table i).take p else (s.table i).fresh key p))

def iupdate (i : Fin NINODE) : State Pid :=
  s.write (s.table i).key { type := (s.table i).type, nlink := (s.table i).nlink }

/-- `iput` up to where it releases `itable.lock`. -/
def iput (i : Fin NINODE) : State Pid :=
  let ip := s.table i
  if ip.ref = 1 ∧ ip.valid = true ∧ ip.nlink = 0 then
    if ip.lock = none then (s.set i { ip with lock := some p }).goto p (.truncating i)
    else s.goto p (.stuck i)
  else s.set i (ip.drop p)

/-- The process goes on with its call. -/
def advance (ninodes : Nat) : Phase → Option (State Pid)
  | .out | .stuck _ => none
  | .scanning dev type inum =>
    if inum < ninodes then
      if (s.disk (dev, inum)).type = 0 then
        some ((s.write (dev, inum) { type }).goto p (.fetching (dev, inum) (s.disk (dev, inum)).type))
      else some (s.goto p (.scanning dev type (inum + 1)))
    else some (s.goto p .out)
  | .fetching key _ => (s.goto p .out).iget p key
  | .loading i =>
    let dinode := s.disk (s.table i).key
    -- `ilock` panics if there is no type.
    if dinode.type ≠ 0 then
      some ((s.set i { s.table i with valid := true, type := dinode.type, nlink := dinode.nlink }).goto p
        .out)
    else none
  | .truncating i => some ((s.iupdate i).goto p (.clearing i))
  | .clearing i => some (((s.set i { s.table i with type := 0 }).iupdate i).goto p (.invalidating i))
  | .invalidating i => some ((s.set i { s.table i with valid := false }).goto p (.unlocking i))
  | .unlocking i => some ((s.set i { s.table i with lock := none }).goto p (.dropping i))
  | .dropping i => some ((s.set i ((s.table i).drop p)).goto p .out)

end State

/-- A process may give up a reference: it keeps one to an inode it has locked. -/
def Inode.Spare (node : Inode Pid) (p : Pid) : Prop :=
  1 ≤ node.refs p ∧ (node.lock = some p → 2 ≤ node.refs p)

instance (node : Inode Pid) (p : Pid) : Decidable (node.Spare p) := inferInstanceAs (Decidable (_ ∧ _))

def step (ninodes : Nat) (s : State Pid) : Event Pid → Option (State Pid)
  | .ialloc p dev type =>
    if s.phase p = .out ∧ type ≠ 0 then some (s.goto p (.scanning dev type 1)) else none
  | .iget p key => if s.phase p = .out then s.iget p key else none
  | .idup p i =>
    if s.phase p = .out ∧ 1 ≤ (s.table i).refs p then some (s.set i ((s.table i).take p)) else none
  | .ilock p i =>
    if s.phase p = .out ∧ 1 ≤ (s.table i).refs p ∧ (s.table i).lock = none then
      some ((s.set i { s.table i with lock := some p }).goto p
        (if (s.table i).valid then .out else .loading i))
    else none
  | .iunlock p i =>
    if s.phase p = .out ∧ (s.table i).lock = some p then some (s.set i { s.table i with lock := none })
    else none
  | .iput p i => if s.phase p = .out ∧ (s.table i).Spare p then some (s.iput p i) else none
  | .step p => s.advance p ninodes (s.phase p)
  | .setNlink p i nlink =>
    if s.phase p = .out ∧ (s.table i).lock = some p ∧ (s.table i).valid = true then
      some (s.set i { s.table i with nlink })
    else none
  | .iupdate p i =>
    if s.phase p = .out ∧ (s.table i).lock = some p ∧ (s.table i).valid = true then some (s.iupdate i)
    else none
  | .give p q i =>
    if s.phase p = .out ∧ (s.table i).Spare p then
      let refs := update (s.table i).refs p ((s.table i).refs p - 1)
      some (s.set i { s.table i with refs := update refs q (refs q + 1) })
    else none

/-- The link count of an inode is not zero: that in memory if it is valid, or else that on disk. -/
def State.Linked (s : State Pid) (key : Key) : Prop :=
  (∀ i, 0 < (s.table i).ref → (s.table i).key = key → (s.table i).valid = true →
    (s.table i).nlink ≠ 0) ∧
  ((∀ i, 0 < (s.table i).ref → (s.table i).key = key → (s.table i).valid = false) →
    (s.disk key).nlink ≠ 0)

instance (s : State Pid) (key : Key) : Decidable (s.Linked key) := inferInstanceAs (Decidable (_ ∧ _))

/-- Inodes without links are named by no directory entry, so that nobody calls `iget` for them. -/
def Named (s : State Pid) : Event Pid → Prop
  | .iget _ key => s.Linked key
  | _ => True

instance (s : State Pid) (event : Event Pid) : Decidable (Named s event) := by
  cases event <;> unfold Named <;> infer_instance

end OsCpp.ITable
