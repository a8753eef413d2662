import OsCpp.Dirs.Growth
import OsCpp.Fs.Mkfs

/-!
# The directories that `mkfs` builds

`main` and `file_apped` of `mkfs/mkfs.cpp`, as far as inodes and directory entries go: `iappend` puts an
entry at the end of a directory, and what is in the files does not matter.  `main` stops where an
assertion fails.
-/

namespace OsCpp.Dirs

open Function (update update_of_ne update_self)

/-- The image under construction. -/
structure Image where
  node : Nat → Node := fun _ => {}
  dir : Nat → Dir := fun _ => {}
  freeinode : Nat := 1

namespace Image

/-- `ialloc`: the inode number is `freeinode` before. -/
def ialloc (image : Image) (root : Bool) (type : UInt16) (user group other : UInt8) : Image :=
  let owner : UInt32 := if root then 0 else 1000
  { image with
    node := update image.node image.freeinode
      { type, nlink := 1, uid := owner, gid := owner
        mask_user := user, mask_group := group, mask_other := other }
    freeinode := image.freeinode + 1 }

/-- `iappend` of an entry. -/
def iappend (image : Image) (inum : Nat) (de : Entry) : Image :=
  { image with
    dir := update image.dir inum
      { size := (image.dir inum).size + Dirent.size
        slot := update (image.dir inum).slot (image.dir inum).count de } }

/-- A directory entry as `main` fills it in. -/
def entry (inum : Nat) (owner : UInt32) (user group other : UInt8) (name : Name) : Entry where
  inum := inum % 2 ^ 16
  uid := owner
  gid := owner
  mask_user := user
  mask_group := group
  mask_other := other
  name := name.field

/-- `"init"`. -/
def initName : Name := ⟨Mkfs.initName, by decide⟩

/-- Inode of a file of the host system. -/
def fileNode (name : Name) : Node :=
  let owner : UInt32 := if name = initName then 0 else 1000
  { type := T_FILE, nlink := 1, uid := owner, gid := owner
    mask_user := 7, mask_group := 5, mask_other := 0 }

/-- `file_apped`, given the name in the image. -/
def file_apped (image : Image) (ino : Nat) (name : Name) : Option Image :=
  if Fs.slash ∉ name.bytes ∧ name.bytes.length ≤ DIRSIZ then
    some ((image.ialloc (name = initName) T_FILE 7 5 0).iappend ino
      (entry image.freeinode 1000 7 5 0 name))
  else none

/-- `file_apped` for every file of a list. -/
def appendFiles (ino : Nat) : List Name → Image → Option Image
  | [], image => some image
  | name :: names, image => image.file_apped ino name >>= appendFiles ino names

/-- A directory below the root. -/
def rootDir (image : Image) (name : Name) : Image :=
  (image.ialloc true T_DIR 7 7 7).iappend ROOTINO (entry image.freeinode 0 7 7 5 name)

def binName : Name := ⟨[0x62, 0x69, 0x6e], by decide⟩

def homeName : Name := ⟨[0x68, 0x6f, 0x6d, 0x65], by decide⟩

def tmpName : Name := ⟨[0x74, 0x6d, 0x70], by decide⟩

/-- The root directory and the three directories in it. -/
def top : Image :=
  ((((((({} : Image).ialloc true T_DIR 7 7 7).iappend ROOTINO (entry ROOTINO 0 7 7 5 dot)).iappend
    ROOTINO (entry ROOTINO 0 7 7 5 dots)).rootDir binName).rootDir homeName).rootDir tmpName)

/-- The size of the root directory is rounded up. -/
def roundRoot (image : Image) : Image :=
  { image with
    dir := update image.dir ROOTINO
      { image.dir ROOTINO with size := ((image.dir ROOTINO).size / BSIZE + 1) * BSIZE } }

/-- `main`, given the names of the files in the image. -/
def main (txt bin : List Name) : Option Image := do
  if bin = [] then none
  else
    let image ← appendFiles ROOTINO txt top
    let image ← appendFiles 2 bin image
    some image.roundRoot

/-- The kernel starts on the image. -/
def boot (Pid : Type) (image : Image) : State Pid where
  node := image.node
  dir := image.dir
  lock _ := none
  phase _ := .out

/-! ## What is in the image -/

/-- What `appendFiles` does. -/
structure Appended (ino : Nat) (names : List Name) (image image' : Image) : Prop where
  dirs : ∀ d ≠ ino, image'.dir d = image.dir d
  size : (image'.dir ino).size = (image.dir ino).size + 32 * names.length
  slot : ∀ k, (image'.dir ino).slot k =
    if k < (image.dir ino).count then (image.dir ino).slot k
    else match names[k - (image.dir ino).count]? with
      | some name => entry (image.freeinode + (k - (image.dir ino).count)) 1000 7 5 0 name
      | none => (image.dir ino).slot k
  node : ∀ i, image'.node i =
    if i < image.freeinode then image.node i
    else match names[i - image.freeinode]? with
      | some name => fileNode name
      | none => image.node i
  freeinode : image'.freeinode = image.freeinode + names.length

theorem count_add (d : Dir) (slot : Nat → Entry) :
    (Dir.mk (d.size + Dirent.size) slot).count = d.count + 1 := Nat.add_div_right d.size (by decide)

theorem ialloc_dir (image : Image) (root : Bool) (type : UInt16) (user group other : UInt8) :
    (image.ialloc root type user group other).dir = image.dir := rfl

theorem iappend_self (image : Image) (ino : Nat) (de : Entry) : (image.iappend ino de).dir ino =
    { size := (image.dir ino).size + Dirent.size
      slot := update (image.dir ino).slot (image.dir ino).count de } := update_self ..

theorem appendFiles_spec {ino : Nat} {names : List Name} {image image' : Image}
    (appended : appendFiles ino names image = some image') : Appended ino names image image' := by
  induction names generalizing image with
  | nil =>
    cases appended
    refine ⟨fun _ _ => rfl, rfl, fun k => ?_, fun i => ?_, rfl⟩
    · split <;> rfl
    · split <;> rfl
  | cons name names ih =>
    obtain ⟨next, first, rest⟩ := Option.bind_eq_some_iff.mp appended
    rw [file_apped, Option.ite_none_right_eq_some] at first
    obtain ⟨-, first⟩ := first
    cases first
    have done := ih rest
    have here := iappend_self (image.ialloc (name = initName) T_FILE 7 5 0) ino
      (entry image.freeinode 1000 7 5 0 name)
    change _ = Dir.mk ((image.dir ino).size + Dirent.size) (update (image.dir ino).slot
      (image.dir ino).count _) at here
    have count := count_add (image.dir ino) (update (image.dir ino).slot
          (image.dir ino).count (entry image.freeinode 1000 7 5 0 name))
    have nodes : ((image.ialloc (name = initName) T_FILE 7 5 0).iappend ino
        (entry image.freeinode 1000 7 5 0 name)).node =
        update image.node image.freeinode (fileNode name) := by
      simp only [iappend, ialloc, fileNode, decide_eq_true_eq]
    refine ⟨fun d other => ?_, ?_, fun k => ?_, fun i => ?_, ?_⟩
    · rw [done.dirs d other]
      exact update_of_ne other _ _
    · rw [done.size, here]
      change (image.dir ino).size + 32 + 32 * names.length = _
      rw [List.length_cons]
      omega
    · rw [done.slot k, here, count]
      dsimp only
      rcases Nat.lt_trichotomy k (image.dir ino).count with earlier | rfl | later
      · rw [if_pos (by omega), if_pos earlier, update_of_ne (by omega)]
      · rw [if_pos (by omega), if_neg (by omega), update_self, Nat.sub_self]
        rfl
      · rw [if_neg (by omega), if_neg (by omega), update_of_ne (by omega)]
        obtain ⟨j, rfl⟩ : ∃ j, k = (image.dir ino).count + (j + 1) :=
          ⟨k - (image.dir ino).count - 1, by omega⟩
        rw [Nat.add_sub_cancel_left, List.getElem?_cons_succ,
          show (image.dir ino).count + (j + 1) - ((image.dir ino).count + 1) = j by omega]
        change (match names[j]? with
          | some name => entry (image.freeinode + 1 + j) 1000 7 5 0 name
          | none => _) = _
        rw [add_assoc image.freeinode 1 j, add_comm 1 j]
    · rw [done.node i, nodes]
      change (if i < image.freeinode + 1 then _ else match names[i - (image.freeinode + 1)]? with
        | some name => fileNode name
        | none => _) = _
      rcases Nat.lt_trichotomy i image.freeinode with earlier | rfl | later
      · rw [if_pos (by omega), if_pos earlier, update_of_ne (by omega)]
      · rw [if_pos (by omega), if_neg (by omega), update_self, Nat.sub_self]
        rfl
      · rw [if_neg (by omega), if_neg (by omega), update_of_ne (by omega)]
        obtain ⟨j, rfl⟩ : ∃ j, i = image.freeinode + (j + 1) := ⟨i - image.freeinode - 1, by omega⟩
        rw [Nat.add_sub_cancel_left, List.getElem?_cons_succ,
          show image.freeinode + (j + 1) - (image.freeinode + 1) = j by omega]
    · rw [done.freeinode, List.length_cons]
      change image.freeinode + 1 + names.length = _
      omega

/-- Inodes of the image. -/
def nodeAt (txt bin : List Name) (i : Nat) : Node :=
  if i < 5 then top.node i
  else match (txt ++ bin)[i - 5]? with
    | some name => fileNode name
    | none => {}

/-- Entries of the root directory. -/
def rootAt (txt : List Name) (k : Nat) : Entry :=
  if k < 5 then (top.dir ROOTINO).slot k
  else match txt[k - 5]? with
    | some name => entry k 1000 7 5 0 name
    | none => {}

/-- Entries of the directory `bin`. -/
def binAt (txt bin : List Name) (k : Nat) : Entry :=
  match bin[k]? with
  | some name => entry (5 + txt.length + k) 1000 7 5 0 name
  | none => {}

structure Built (txt bin : List Name) (image : Image) : Prop where
  node : ∀ i, image.node i = nodeAt txt bin i
  rootSlot : ∀ k, (image.dir ROOTINO).slot k = rootAt txt k
  rootSize : (image.dir ROOTINO).size = (32 * (5 + txt.length) / BSIZE + 1) * BSIZE
  binSlot : ∀ k, (image.dir 2).slot k = binAt txt bin k
  binSize : (image.dir 2).size = 32 * bin.length
  other : ∀ d, d ≠ ROOTINO → d ≠ 2 → image.dir d = {}

theorem roundRoot_root (image : Image) : image.roundRoot.dir ROOTINO =
    { image.dir ROOTINO with size := ((image.dir ROOTINO).size / BSIZE + 1) * BSIZE } := by
  simp only [roundRoot, update_self]

theorem roundRoot_other (image : Image) {d : Nat} (other : d ≠ ROOTINO) :
    image.roundRoot.dir d = image.dir d := update_of_ne other _ _

theorem rootDir_slot (image : Image) (name : Name) {k : Nat} (other : k ≠ (image.dir ROOTINO).count) :
    ((image.rootDir name).dir ROOTINO).slot k = (image.dir ROOTINO).slot k := by
  rw [rootDir, iappend_self, ialloc_dir]
  exact update_of_ne other _ _

theorem iappend_slot (image : Image) (de : Entry) {k : Nat} (other : k ≠ (image.dir ROOTINO).count) :
    ((image.iappend ROOTINO de).dir ROOTINO).slot k = (image.dir ROOTINO).slot k := by
  rw [iappend_self]
  exact update_of_ne other _ _

theorem top_slot {k : Nat} (beyond : 5 ≤ k) : (top.dir ROOTINO).slot k = {} := by
  have past : ∀ {d : Dir}, d.count < 5 → k ≠ d.count := fun below => by omega
  rw [top, rootDir_slot _ _ (past (by decide)), rootDir_slot _ _ (past (by decide)),
    rootDir_slot _ _ (past (by decide)), iappend_slot _ _ (past (by decide)),
    iappend_slot _ _ (past (by decide))]
  rfl

theorem top_node {i : Nat} (beyond : 5 ≤ i) : top.node i = {} := by
  change update (update (update (update (fun _ => ({} : Node)) 1 _) 2 _)
    3 _) 4 _ i = _
  rw [update_of_ne (by omega), update_of_ne (by omega),
    update_of_ne (by omega), update_of_ne (by omega)]

theorem top_dir {d : Nat} (other : d ≠ ROOTINO) : top.dir d = {} := by
  change update (update (update (update (update
    (fun _ => ({} : Dir)) ROOTINO _) ROOTINO _) ROOTINO _) ROOTINO _) ROOTINO _ d = _
  simp only [update_of_ne other]

theorem built_of_main {txt bin : List Name} {image : Image} (built : main txt bin = some image) :
    Built txt bin image := by
  rw [main] at built
  split at built
  · cases built
  · obtain ⟨middle, first, built⟩ := Option.bind_eq_some_iff.mp built
    obtain ⟨last, second, built⟩ := Option.bind_eq_some_iff.mp built
    cases built
    have one := appendFiles_spec first
    have two := appendFiles_spec second
    have count : (top.dir ROOTINO).count = 5 := rfl
    have size : (top.dir ROOTINO).size = 160 := rfl
    have free : top.freeinode = 5 := rfl
    have bin_before : middle.dir 2 = {} := by rw [one.dirs 2 (by decide), top_dir (by decide)]
    have root_after : last.dir ROOTINO = middle.dir ROOTINO := two.dirs ROOTINO (by decide)
    refine ⟨fun i => ?_, fun k => ?_, ?_, fun k => ?_, ?_, fun d notRoot notBin => ?_⟩
    · change last.node i = _
      rw [two.node i, one.node i, one.freeinode, free, nodeAt]
      by_cases early : i < 5
      · rw [if_pos (by omega), if_pos early, if_pos early]
      · obtain ⟨j, rfl⟩ : ∃ j, i = 5 + j := ⟨i - 5, by omega⟩
        rw [if_neg early, if_neg early, top_node (by omega), Nat.add_sub_cancel_left]
        by_cases inside : j < txt.length
        · rw [if_pos (by omega), List.getElem?_append_left inside]
        · rw [if_neg (by omega), List.getElem?_append_right (by omega),
            List.getElem?_eq_none (l := txt) (by omega),
            show 5 + j - (5 + txt.length) = j - txt.length by omega]
    · rw [roundRoot_root]
      change (last.dir ROOTINO).slot k = _
      rw [root_after, one.slot k, count, free, rootAt]
      by_cases early : k < 5
      · rw [if_pos early, if_pos early]
      · rw [if_neg early, if_neg early, top_slot (by omega), Nat.add_sub_of_le (by omega)]
    · rw [roundRoot_root]
      change ((last.dir ROOTINO).size / BSIZE + 1) * BSIZE = _
      rw [root_after, one.size, size]
      congr 3
      omega
    · rw [roundRoot_other last (by decide), two.slot k, bin_before, one.freeinode, free, binAt]
      exact if_neg not_lt_zero
    · rw [roundRoot_other last (by decide), two.size, bin_before]
      exact zero_add _
    · rw [roundRoot_other last notRoot, two.dirs d notBin, one.dirs d notRoot, top_dir notRoot]

section

variable {txt bin : List Name} {image : Image} {d k : Nat}

/-- An entry that `file_apped` makes. -/
structure FileEntry (image : Image) (d k inum : Nat) (name : Name) : Prop where
  slot : (image.dir d).slot k = entry inum 1000 7 5 0 name
  number : ((image.dir d).slot k).inum = inum
  node : image.node ((image.dir d).slot k).inum = fileNode name

variable (built : Built txt bin image)

include built

theorem Built.live_cases
    (few : 4 + txt.length + bin.length < Mkfs.NINODES) (live : (image.dir d).Live k) :
    d = ROOTINO ∧ k < 5 ∨
      d = ROOTINO ∧ 5 ≤ k ∧ (∃ name, txt[k - 5]? = some name ∧ FileEntry image d k k name) ∨
      d = 2 ∧ ∃ name, bin[k]? = some name ∧ FileEntry image d k (5 + txt.length + k) name := by
  change _ < 200 at few
  by_cases root : d = ROOTINO
  · subst root
    by_cases early : k < 5
    · exact .inl ⟨rfl, early⟩
    · refine .inr (.inl ⟨rfl, by omega, ?_⟩)
      have slot := built.rootSlot k
      rw [rootAt, if_neg early] at slot
      cases found : txt[k - 5]? with
      | none =>
        rw [found] at slot
        exact absurd (congrArg Entry.inum slot) live.2
      | some name =>
        rw [found] at slot
        have inside : k - 5 < txt.length := (List.getElem?_eq_some_iff.mp found).1
        have number : ((image.dir ROOTINO).slot k).inum = k := by
          rw [slot]
          exact Nat.mod_eq_of_lt (by omega)
        refine ⟨name, rfl, slot, number, ?_⟩
        rw [number, built.node, nodeAt, if_neg early, List.getElem?_append_left inside, found]
  · by_cases second : d = 2
    · subst second
      refine .inr (.inr ⟨rfl, ?_⟩)
      have slot := built.binSlot k
      rw [binAt] at slot
      cases found : bin[k]? with
      | none =>
        rw [found] at slot
        exact absurd (congrArg Entry.inum slot) live.2
      | some name =>
        rw [found] at slot
        have inside : k < bin.length := (List.getElem?_eq_some_iff.mp found).1
        have number : ((image.dir 2).slot k).inum = 5 + txt.length + k := by
          rw [slot]
          exact Nat.mod_eq_of_lt (by omega)
        refine ⟨name, rfl, slot, number, ?_⟩
        rw [number, built.node, nodeAt, if_neg (by omega),
          List.getElem?_append_right (by omega),
          show 5 + txt.length + k - 5 - txt.length = k by omega, found]
    · have empty := live.1
      rw [built.other d root second] at empty
      exact absurd empty not_lt_zero

omit built in
/-- The entries of the root directory that `main` makes itself. -/
theorem top_entries : ∀ k < 5, ((top.dir ROOTINO).slot k).inum < 5 ∧
    ((top.dir ROOTINO).slot k).inum ≠ 0 ∧
    (top.node ((top.dir ROOTINO).slot k).inum).type = T_DIR := by decide

theorem Built.root_early (early : k < 5) :
    (image.dir ROOTINO).slot k = (top.dir ROOTINO).slot k ∧
      image.node ((image.dir ROOTINO).slot k).inum = top.node ((top.dir ROOTINO).slot k).inum := by
  have slot := built.rootSlot k
  rw [rootAt, if_pos early] at slot
  refine ⟨slot, ?_⟩
  rw [slot, built.node, nodeAt, if_pos (top_entries k early).1]

theorem Built.root_count : 5 ≤ (image.dir ROOTINO).count := by
  have size := built.rootSize
  change _ = (_ / 1024 + 1) * 1024 at size
  change 5 ≤ (image.dir ROOTINO).size / 32
  omega

theorem Built.root_live (early : k < 5) : (image.dir ROOTINO).Live k := by
  have count := built.root_count
  refine ⟨by omega, ?_⟩
  rw [(built.root_early early).1]
  exact (top_entries k early).2.1

section

variable (few : 4 + txt.length + bin.length < Mkfs.NINODES)
include few

theorem Built.txt_live {name : Name} (later : 5 ≤ k) (found : txt[k - 5]? = some name) : (image.dir ROOTINO).Live k := by
  change _ < 200 at few
  have inside : k - 5 < txt.length := (List.getElem?_eq_some_iff.mp found).1
  have size := built.rootSize
  change _ = (_ / 1024 + 1) * 1024 at size
  have slot := built.rootSlot k
  rw [rootAt, if_neg (by omega), found] at slot
  refine ⟨?_, ?_⟩
  · change k < (image.dir ROOTINO).size / 32
    omega
  · rw [slot]
    change k % 2 ^ 16 ≠ 0
    omega

theorem Built.bin_live {name : Name} (found : bin[k]? = some name) : (image.dir 2).Live k := by
  change _ < 200 at few
  have inside : k < bin.length := (List.getElem?_eq_some_iff.mp found).1
  have size := built.binSize
  have slot := built.binSlot k
  rw [binAt, found] at slot
  refine ⟨?_, ?_⟩
  · change k < (image.dir 2).size / 32
    omega
  · rw [slot]
    change (5 + txt.length + k) % 2 ^ 16 ≠ 0
    omega

theorem Built.sound (Pid : Type) : Sound (image.boot Pid) where
  whole d := by
    change (image.dir d).size = 32 * ((image.dir d).size / 32)
    by_cases root : d = ROOTINO
    · have size := built.rootSize
      change _ = (_ / 1024 + 1) * 1024 at size
      rw [root]
      omega
    · by_cases second : d = 2
      · rw [second, built.binSize]
        omega
      · rw [built.other d root second]
        rfl
  live d k live := by
    change (image.node ((image.dir d).slot k).inum).type ≠ 0
    rcases built.live_cases few live with ⟨rfl, early⟩ | ⟨rfl, -, name, -, file⟩ | ⟨rfl, name, -, file⟩
    · rw [(built.root_early early).2, (top_entries k early).2.2]
      decide
    · rw [file.node]
      exact (by decide : T_FILE ≠ 0)
    · rw [file.node]
      exact (by decide : T_FILE ≠ 0)
  phase _ := rfl
  empty d unused := by
    change (image.node d).type = 0 at unused
    have used : ∀ i < 5, i ≠ 0 → (top.node i).type ≠ 0 := by decide
    by_cases root : d = ROOTINO
    · subst root
      rw [built.node, nodeAt, if_pos (by decide)] at unused
      exact absurd unused (used 1 (by decide) (by decide))
    · by_cases second : d = 2
      · subst second
        rw [built.node, nodeAt, if_pos (by decide)] at unused
        exact absurd unused (used 2 (by decide) (by decide))
      · change (image.dir d).count = 0
        rw [built.other d root second]
        rfl

end

end

end Image

def program : Name := ⟨[0x6c, 0x73], by decide⟩

def oneProgram : Image := (Image.main [] [program]).getD {}

/-- User 1000 makes the directory `a` in `home` and the file `b` in it. -/
def makeTwo : List (Event Unit) :=
  let a : Call := ⟨3, ⟨[0x61], zero_notMem_a⟩, T_DIR⟩
  let b : Call := ⟨6, ⟨[0x62], by decide⟩, T_FILE⟩
  ([.start () a, .step () { inum := some 6 }] : List (Event Unit)) ++ List.replicate 7 (.step () {}) ++
    ([.start () b, .step () { inum := some 7 }] : List (Event Unit)) ++ List.replicate 4 (.step () {})

def oneUser : Setup Unit where
  ninodes := 200
  numbered := small_ninodes
  uid _ := 1000
  gid _ := 1000

end OsCpp.Dirs
