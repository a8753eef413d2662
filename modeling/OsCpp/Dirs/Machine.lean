import OsCpp.Dirs.Directory
import OsCpp.Lib.Execution

/-!
# Creating files and directories

`create` of `kernel/sysfile.cpp`, called by `open` with `O_CREATE`, `mkdir` and `mknod`, by any number
of processes.  A call holds the lock of the parent from `ilock(dp)` to `iunlockput(dp)`, and that of the
new inode; steps are what it does in between.  `nameiparent` finds some directory; which dinodes
`ialloc` finds free, and whether there are blocks for entries, is left open.  A new inode that
`create` gives up is reclaimed by its `iput`, since nobody else refers to it.  Owners do not change.
-/

namespace OsCpp.Dirs

/-- Arguments of `create`: the parent and the name that `nameiparent` finds, and the type. -/
structure Call where
  dp : Nat
  name : Name
  type : UInt16
  deriving DecidableEq

/-- Where a call is. -/
inductive Phase
  | out
  /-- The parent is locked. -/
  | looking (c : Call)
  /-- The name has been found and the parent unlocked. -/
  | found (c : Call) (inum : Nat)
  /-- The new inode is locked. -/
  | setting (c : Call) (inum : Nat)
  /-- Before `dir_link(ip, ".", ip->inum)`. -/
  | linkingDot (c : Call) (inum : Nat)
  /-- Before `dir_link(ip, "..", ip->inum)`. -/
  | linkingDots (c : Call) (inum : Nat)
  /-- Before `dir_link(dp, name, ip)`. -/
  | linking (c : Call) (inum : Nat)
  /-- Before `dp->nlink++`. -/
  | counting (c : Call) (inum : Nat)
  /-- Before the last `iunlockput(dp)`. -/
  | leaving (c : Call) (inum : Nat)
  /-- `create` has returned the locked inode. -/
  | holding (c : Call) (inum : Nat)
  deriving DecidableEq

structure State (Pid : Type) where
  node : Nat → Node
  dir : Nat → Dir
  lock : Nat → Option Pid
  phase : Pid → Phase
  /-- Calls of `create` that have returned an inode: parent, name and inode. -/
  opened : List (Nat × Name × Nat) := []
  /-- Directories that have been made, with their parents. -/
  made : List (Nat × Nat) := []

/-- `"."`. -/
def dot : Name := ⟨[0x2e], by decide⟩

/-- `".."`. -/
def dots : Name := ⟨[0x2e, 0x2e], by decide⟩

theorem small_ninodes : 200 ≤ 2 ^ 16 := by decide

theorem zero_notMem_a : (0 : UInt8) ∉ [0x61] := by decide

/-- What the rest of the system decides. -/
structure Answer where
  /-- The free dinode that `ialloc` finds. -/
  inum : Option Nat := none
  /-- Does `writei` get a block? -/
  room : Bool := true

inductive Event (Pid : Type)
  /-- `nameiparent` and `ilock(dp)`. -/
  | start (p : Pid) (c : Call)
  | step (p : Pid) (answer : Answer)

variable {Pid : Type} [DecidableEq Pid]

/-- The superblock, and the owner of what a process makes. -/
structure Setup (Pid : Type) where
  ninodes : Nat
  /-- Inode numbers fit into entries: `mkfs` makes 200. -/
  numbered : ninodes ≤ 2 ^ 16
  uid : Pid → UInt32
  gid : Pid → UInt32

namespace State

variable (s : State Pid) (p : Pid)

def setNode (inum : Nat) (node : Node) : State Pid :=
  { s with node := Function.update s.node inum node }

def setDir (inum : Nat) (d : Dir) : State Pid := { s with dir := Function.update s.dir inum d }

def setLock (inum : Nat) (holder : Option Pid) : State Pid :=
  { s with lock := Function.update s.lock inum holder }

def goto (phase : Phase) : State Pid := { s with phase := Function.update s.phase p phase }

/-- `create` returns an inode. -/
def succeed (c : Call) (inum : Nat) : State Pid :=
  { s.goto p (.holding c inum) with opened := (c.dp, c.name, inum) :: s.opened }

/-- The error exits of `create` after the new inode has been set up: it is reclaimed. -/
def failed (c : Call) (inum : Nat) : State Pid :=
  ((((s.setNode inum {}).setDir inum {}).setLock inum none).setLock c.dp none).goto p .out

/-- `ialloc` and `ilock` of the new inode. -/
def ialloc (ninodes : Nat) (c : Call) : Option Nat → Option (State Pid)
  | none => some ((s.setLock c.dp none).goto p .out)
  | some inum =>
    if 1 ≤ inum ∧ inum < ninodes ∧ (s.node inum).type = 0 ∧ s.lock inum = none ∧ c.type ≠ 0 then
      some ((((s.setNode inum { type := c.type }).setDir inum {}).setLock inum (some p)).goto p
        (.setting c inum))
    else none

/-- A call goes on. -/
def advance (setup : Setup Pid) (answer : Answer) : Phase → Option (State Pid)
  | .out => none
  | .looking c => do
      match ← dir_lookup (s.dir c.dp) c.name with
      | some inum => some ((s.setLock c.dp none).goto p (.found c inum))
      | none => s.ialloc p setup.ninodes c answer.inum
  | .found c inum =>
    if s.lock inum = none then
      if c.type = T_FILE ∧ ((s.node inum).type = T_FILE ∨ (s.node inum).type = T_DEVICE) then
        some ((s.setLock inum (some p)).succeed p c inum)
      else some (s.goto p .out)
    else none
  | .setting c inum =>
    some ((s.setNode inum { s.node inum with
      nlink := 1, uid := setup.uid p, gid := setup.gid p
      mask_user := 7, mask_group := 7, mask_other := 7 }).goto p
      (if c.type = T_DIR then .linkingDot c inum else .linking c inum))
  | .linkingDot c inum => do
      let (d, linked) ← dir_link (s.dir inum) dot inum answer.room
      some (if linked then (s.setDir inum d).goto p (.linkingDots c inum) else s.failed p c inum)
  | .linkingDots c inum => do
      let (d, linked) ← dir_link (s.dir inum) dots inum answer.room
      some (if linked then (s.setDir inum d).goto p (.linking c inum) else s.failed p c inum)
  | .linking c inum => do
      let (d, linked) ← dir_link_inode (s.dir c.dp) c.name inum (s.node inum) answer.room
      some (if linked then
        if c.type = T_DIR then
          { (s.setDir c.dp d).goto p (.counting c inum) with made := (inum, c.dp) :: s.made }
        else (s.setDir c.dp d).goto p (.leaving c inum)
      else s.failed p c inum)
  | .counting c inum =>
    some ((s.setNode c.dp { s.node c.dp with nlink := (s.node c.dp).nlink + 1 }).goto p
      (.leaving c inum))
  | .leaving c inum => some ((s.setLock c.dp none).succeed p c inum)
  | .holding c inum =>
    -- `sys_mkdir` sets the owner again.
    let s := if c.type = T_DIR then s.setNode inum { s.node inum with
      uid := setup.uid p, gid := setup.gid p, mask_user := 7, mask_group := 7, mask_other := 7 } else s
    some ((s.setLock inum none).goto p .out)

end State

def step (setup : Setup Pid) (s : State Pid) : Event Pid → Option (State Pid)
  | .start p c =>
    if s.phase p = .out ∧ (s.node c.dp).type = T_DIR ∧ s.lock c.dp = none then
      some ((s.setLock c.dp (some p)).goto p (.looking c))
    else none
  | .step p answer => s.advance p setup answer (s.phase p)

/-! ## The steps one by one -/

/-- What `create` stores in a new inode. -/
def Setup.created (setup : Setup Pid) (p : Pid) (node : Node) : Node :=
  { node with
    nlink := 1, uid := setup.uid p, gid := setup.gid p
    mask_user := 7, mask_group := 7, mask_other := 7 }

/-- What `sys_mkdir` stores in it afterwards. -/
def Setup.owned (setup : Setup Pid) (p : Pid) (node : Node) : Node :=
  { node with
    uid := setup.uid p, gid := setup.gid p, mask_user := 7, mask_group := 7, mask_other := 7 }

/-- The steps of a process. -/
inductive Move (setup : Setup Pid) (s : State Pid) (p : Pid) : State Pid → Prop
  | start {c : Call} (phase : s.phase p = .out) (isDir : (s.node c.dp).type = T_DIR)
      (unlocked : s.lock c.dp = none) :
      Move setup s p ((s.setLock c.dp (some p)).goto p (.looking c))
  | find {c : Call} {inum : Nat} (phase : s.phase p = .looking c)
      (looked : dir_lookup (s.dir c.dp) c.name = some (some inum)) :
      Move setup s p ((s.setLock c.dp none).goto p (.found c inum))
  | full {c : Call} (phase : s.phase p = .looking c) :
      Move setup s p ((s.setLock c.dp none).goto p .out)
  | allocate {c : Call} {inum : Nat} (phase : s.phase p = .looking c) (nonzero : inum ≠ 0)
      (below : inum < setup.ninodes) (unused : (s.node inum).type = 0) (unlocked : s.lock inum = none)
      (typed : c.type ≠ 0) :
      Move setup s p ((((s.setNode inum { type := c.type }).setDir inum {}).setLock inum
        (some p)).goto p (.setting c inum))
  | reopen {c : Call} {inum : Nat} (phase : s.phase p = .found c inum) (unlocked : s.lock inum = none)
      (isFile : c.type = T_FILE) : Move setup s p ((s.setLock inum (some p)).succeed p c inum)
  | refuse {c : Call} {inum : Nat} (phase : s.phase p = .found c inum) : Move setup s p (s.goto p .out)
  | setDir {c : Call} {inum : Nat} (phase : s.phase p = .setting c inum) (isDir : c.type = T_DIR) :
      Move setup s p ((s.setNode inum (setup.created p (s.node inum))).goto p (.linkingDot c inum))
  | setFile {c : Call} {inum : Nat} (phase : s.phase p = .setting c inum) (isFile : c.type ≠ T_DIR) :
      Move setup s p ((s.setNode inum (setup.created p (s.node inum))).goto p (.linking c inum))
  | dot {c : Call} {inum : Nat} {d : Dir} {room : Bool} (phase : s.phase p = .linkingDot c inum)
      (linked : dir_link (s.dir inum) Dirs.dot inum room = some (d, true)) :
      Move setup s p ((s.setDir inum d).goto p (.linkingDots c inum))
  | dots {c : Call} {inum : Nat} {d : Dir} {room : Bool} (phase : s.phase p = .linkingDots c inum)
      (linked : dir_link (s.dir inum) Dirs.dots inum room = some (d, true)) :
      Move setup s p ((s.setDir inum d).goto p (.linking c inum))
  | fail {c : Call} {inum : Nat} (phase : s.phase p = .linkingDot c inum ∨
        s.phase p = .linkingDots c inum ∨ s.phase p = .linking c inum) :
      Move setup s p (s.failed p c inum)
  | linkDir {c : Call} {inum : Nat} {d : Dir} {room : Bool} (phase : s.phase p = .linking c inum)
      (linked : dir_link_inode (s.dir c.dp) c.name inum (s.node inum) room = some (d, true))
      (isDir : c.type = T_DIR) :
      Move setup s p
        { (s.setDir c.dp d).goto p (.counting c inum) with made := (inum, c.dp) :: s.made }
  | linkFile {c : Call} {inum : Nat} {d : Dir} {room : Bool} (phase : s.phase p = .linking c inum)
      (linked : dir_link_inode (s.dir c.dp) c.name inum (s.node inum) room = some (d, true))
      (isFile : c.type ≠ T_DIR) : Move setup s p ((s.setDir c.dp d).goto p (.leaving c inum))
  | count {c : Call} {inum : Nat} (phase : s.phase p = .counting c inum) :
      Move setup s p ((s.setNode c.dp { s.node c.dp with nlink := (s.node c.dp).nlink + 1 }).goto p
        (.leaving c inum))
  | leave {c : Call} {inum : Nat} (phase : s.phase p = .leaving c inum) :
      Move setup s p ((s.setLock c.dp none).succeed p c inum)
  | closeDir {c : Call} {inum : Nat} (phase : s.phase p = .holding c inum) (isDir : c.type = T_DIR) :
      Move setup s p (((s.setNode inum (setup.owned p (s.node inum))).setLock inum none).goto p .out)
  | closeFile {c : Call} {inum : Nat} (phase : s.phase p = .holding c inum) :
      Move setup s p ((s.setLock inum none).goto p .out)

section

variable {setup : Setup Pid} {s t : State Pid} {p : Pid} {answer : Answer} {c : Call} {inum : Nat}

theorem move_of_looking (phase : s.phase p = .looking c)
    (taken : s.advance p setup answer (.looking c) = some t) : Move setup s p t := by
  rw [State.advance] at taken
  obtain ⟨found, looked, taken⟩ := Option.bind_eq_some_iff.mp taken
  cases found with
  | some inum =>
    cases taken
    exact .find phase looked
  | none =>
    cases free : answer.inum with
    | none =>
      simp only [free, State.ialloc] at taken
      cases taken
      exact .full phase
    | some inum =>
      simp only [free, State.ialloc, Option.ite_none_right_eq_some] at taken
      obtain ⟨⟨positive, below, unused, unlocked, typed⟩, ⟨⟩⟩ := taken
      exact .allocate phase (by omega) below unused unlocked typed

theorem move_of_found (phase : s.phase p = .found c inum)
    (taken : s.advance p setup answer (.found c inum) = some t) : Move setup s p t := by
  rw [State.advance, Option.ite_none_right_eq_some] at taken
  obtain ⟨unlocked, taken⟩ := taken
  split at taken
  · rename_i types
    cases taken
    exact .reopen phase unlocked types.1
  · cases taken
    exact .refuse phase

theorem move_of_setting (phase : s.phase p = .setting c inum)
    (taken : s.advance p setup answer (.setting c inum) = some t) : Move setup s p t := by
  cases taken
  split
  · rename_i isDir
    exact .setDir phase isDir
  · rename_i isFile
    exact .setFile phase isFile

theorem move_of_linkingDot (phase : s.phase p = .linkingDot c inum)
    (taken : s.advance p setup answer (.linkingDot c inum) = some t) : Move setup s p t := by
  rw [State.advance] at taken
  obtain ⟨⟨d, linked⟩, link, taken⟩ := Option.bind_eq_some_iff.mp taken
  cases taken
  cases linked with
  | false => exact .fail (.inl phase)
  | true => exact .dot phase link

theorem move_of_linkingDots (phase : s.phase p = .linkingDots c inum)
    (taken : s.advance p setup answer (.linkingDots c inum) = some t) : Move setup s p t := by
  rw [State.advance] at taken
  obtain ⟨⟨d, linked⟩, link, taken⟩ := Option.bind_eq_some_iff.mp taken
  cases taken
  cases linked with
  | false => exact .fail (.inr (.inl phase))
  | true => exact .dots phase link

theorem move_of_linking (phase : s.phase p = .linking c inum)
    (taken : s.advance p setup answer (.linking c inum) = some t) : Move setup s p t := by
  rw [State.advance] at taken
  obtain ⟨⟨d, linked⟩, link, taken⟩ := Option.bind_eq_some_iff.mp taken
  cases taken
  cases linked with
  | false => exact .fail (.inr (.inr phase))
  | true =>
    rw [if_pos rfl]
    split
    · rename_i isDir
      exact .linkDir phase link isDir
    · rename_i isFile
      exact .linkFile phase link isFile

theorem move_of_advance (taken : s.advance p setup answer (s.phase p) = some t) : Move setup s p t := by
  cases phase : s.phase p with
  | out =>
    rw [phase] at taken
    cases taken
  | looking c => exact move_of_looking phase (phase ▸ taken)
  | found c inum => exact move_of_found phase (phase ▸ taken)
  | setting c inum => exact move_of_setting phase (phase ▸ taken)
  | linkingDot c inum => exact move_of_linkingDot phase (phase ▸ taken)
  | linkingDots c inum => exact move_of_linkingDots phase (phase ▸ taken)
  | linking c inum => exact move_of_linking phase (phase ▸ taken)
  | counting c inum =>
    rw [phase] at taken
    cases taken
    exact .count phase
  | leaving c inum =>
    rw [phase] at taken
    cases taken
    exact .leave phase
  | holding c inum =>
    rw [phase] at taken
    cases taken
    split
    · rename_i isDir
      exact .closeDir phase isDir
    · exact .closeFile phase

theorem move_of_step {event : Event Pid} (taken : step setup s event = some t) :
    ∃ p, Move setup s p t := by
  cases event with
  | start p c =>
    rw [step, Option.ite_none_right_eq_some] at taken
    obtain ⟨⟨phase, isDir, unlocked⟩, ⟨⟩⟩ := taken
    exact ⟨p, .start phase isDir unlocked⟩
  | step p answer => exact ⟨p, move_of_advance taken⟩

end

end OsCpp.Dirs
