import OsCpp.Frames.Conservation
import OsCpp.Frames.Image
import OsCpp.Refs.Machine

/-!
# `sys_exec`

`sys_exec` of `kernel/sysfile.cpp` with `exec` of `kernel/loader.cpp`, run without interruption.  What
the call reads from user memory, from the file system and from the file is given; what it does to the
free list, the page table of its process, the inode and the log is modelled.  The exit at which it
returns is its result; where the kernel panics or leaves an array, it stops.
-/

namespace OsCpp.Exec

open Frames

abbrev Inode := Refs.Inode

def MAXARGV : Nat := 32

def ELF_MAGIC : UInt32 := 0x464C457F

def ELF_PROG_LOAD : UInt32 := 1

/-- What `readi` returns. -/
inductive Read (α : Type)
  /-- A block lies beyond those an inode can have, and `bmap` panics or leaves `addrs`. -/
  | stops
  | short
  | full (value : α)

structure Elfhdr where
  magic : UInt32
  entry : UInt64
  phnum : UInt16

structure Proghdr where
  type : UInt32
  flags : UInt32
  vaddr : UInt64
  filesz : UInt64
  memsz : UInt64

/-- What `namei` and `ilock` find. -/
inductive Lookup
  /-- A panic of the file system, as for an inode without type. -/
  | stops
  | missing
  | found (ip : Inode)

/-- What the call reads. -/
structure World where
  /-- Does `fetch_str` find the path? -/
  path : Bool
  /-- `fetch_addr` of an element of `argv`. -/
  uargv : Nat → Option UInt64
  /-- `fetch_str` of an argument, with the length of the string. -/
  string : Nat → Option (Fin PGSIZE)
  lookup : Lookup
  /-- `check_permission_for_file`. -/
  permitted : Bool
  elf : Read Elfhdr
  ph : Nat → Read Proghdr
  /-- A page of a segment. -/
  page : Nat → Nat → Read Unit
  last : List UInt8

/-- The fields of the trapframe that `exec` sets. -/
structure Trapframe where
  epc : Nat
  sp : Nat
  a1 : Nat

/-- The state that the call may change. -/
structure Kernel where
  memory : State
  iref : Inode → Nat
  ilocked : Inode → Bool
  /-- `log.outstanding`. -/
  outstanding : Nat
  name : List UInt8
  trapframe : Trapframe

/-- Where the call returns. -/
inductive Exit
  | done
  | path
  | argv
  | argument
  | refused
  /-- `exec` fails before it clears the stack guard. -/
  | image
  /-- The arguments do not fit onto the stack. -/
  | tooLong
  deriving DecidableEq

/-- Why the call does not return. -/
inductive Stop
  /-- A panic on a page table, or on a lock that is not free. -/
  | panic
  /-- The value of an empty `optional` is used as an address. -/
  | garbage
  /-- `argv[MAXARGV]` is written. -/
  | overrun
  /-- The file system panics, or leaves `addrs`. -/
  | fileSystem
  /-- `ilock` of a null pointer panics. -/
  | noFile
  /-- A panic after the image has been replaced. -/
  | late
  deriving DecidableEq

/-- How a panic counts that follows the exit of `exec`. -/
def Exit.stop (exit : Exit) : Stop := if exit = .done then .late else .panic

abbrev ExecM := EStateM Stop Kernel

/-- A routine on frames and page tables. -/
def mem {α : Type} (p : Slot) (stop : Stop) (prog : Prog α) : ExecM α := fun k =>
  match prog.alone (steps p) k.memory with
  | .next memory value => .ok value { k with memory := memory }
  | _ => .error stop k

/-- `fail_work4exec`, and the loop at the end of `sys_exec`. -/
def kfreeAll (p : Slot) (stop : Stop) : List Frame → ExecM Unit
  | [] => pure ()
  | page :: pages => do
      mem p stop (act (.kfree page))
      kfreeAll p stop pages

/-- The loop of `sys_exec` over `argv`, with the pages it has filled. -/
def fetchArgs (w : World) (p : Slot) :
    Nat → List Frame → List Nat → ExecM (Except Exit (List Frame × List Nat))
  | 0, pages, _ =>
    match w.uargv pages.length with
    | none => do
        kfreeAll p .panic pages
        pure (.error .argv)
    | some _ => throw .overrun
  | left + 1, pages, lengths =>
    match w.uargv pages.length with
    | none => do
        kfreeAll p .panic pages
        pure (.error .argv)
    | some uarg =>
      if uarg = 0 then pure (.ok (pages, lengths))
      else do
        match ← mem p .panic (act .kalloc) with
        | none => throw .garbage
        | some page =>
          match w.string pages.length with
          | none => do
              kfreeAll p .panic (pages ++ [page])
              pure (.error .argument)
          | some length => fetchArgs w p left (pages ++ [page]) (lengths ++ [length.val])

/-! ## Inodes and the log -/

/-- The reference `namei` returns. -/
def iget (ip : Inode) : ExecM Unit :=
  modify fun k => { k with iref := Function.update k.iref ip (k.iref ip + 1) }

/-- `ilock`; a call that is not interrupted would wait for ever. -/
def ilock (ip : Inode) : ExecM Unit := do
  let k ← get
  if k.iref ip < 1 ∨ k.ilocked ip = true then throw .panic
  else set { k with ilocked := Function.update k.ilocked ip true }

def iunlock (ip : Inode) : ExecM Unit := do
  let k ← get
  if k.ilocked ip = false ∨ k.iref ip < 1 then throw .panic
  else set { k with ilocked := Function.update k.ilocked ip false }

/-- `iput`, as far as the reference is concerned. -/
def iput (ip : Inode) : ExecM Unit :=
  modify fun k => { k with iref := Function.update k.iref ip (k.iref ip - 1) }

def iunlockput (ip : Inode) : ExecM Unit := do
  iunlock ip
  iput ip

def begin_op : ExecM Unit := modify fun k => { k with outstanding := k.outstanding + 1 }

def end_op : ExecM Unit := modify fun k => { k with outstanding := k.outstanding - 1 }

/-! ## `loader::exec` -/

/-- `fail_work` with a page table. -/
def discard (p : Slot) (t : Table) (sz : Nat) : ExecM Unit := mem p .panic (free_pagetable t sz)

/-- `fail_work` with an inode, and the same after the last program header. -/
def release (ip : Inode) : ExecM Unit := do
  iunlockput ip
  end_op

def flags2perm (flags : UInt32) : Flags where
  x := flags &&& 1 ≠ 0
  w := flags &&& 2 ≠ 0

/-- `loadseg`: has the segment been read? -/
def loadseg (page : Nat → Read Unit) (t : Table) : Nat → Nat → Nat → ExecM Bool
  | 0, _, _ => pure true
  | n + 1, index, va =>
    match t.lookup va with
    | some ⟨true, ⟨_, _, _, true⟩, _⟩ =>
      match page index with
      | .stops => throw .fileSystem
      | .short => pure false
      | .full _ => loadseg page t n (index + 1) (va + PGSIZE)
    | _ => throw .panic

/-- Is the program header refused? -/
def Proghdr.bad (ph : Proghdr) : Bool :=
  ph.memsz < ph.filesz || ph.vaddr + ph.memsz < ph.vaddr || ph.vaddr.toNat % PGSIZE != 0

/-- `fail_work` with a page table and an inode. -/
def fail_work (p : Slot) (ip : Inode) (t : Table) (sz : Nat) : ExecM (Option (Table × Nat)) := do
  discard p t sz
  release ip
  pure none

/-- The loop over the program headers. -/
def loadAll (w : World) (p : Slot) (ip : Inode) :
    Nat → Nat → Table → Nat → ExecM (Option (Table × Nat))
  | 0, _, t, sz => pure (some (t, sz))
  | left + 1, index, t, sz =>
    match w.ph index with
    | .stops => throw .fileSystem
    | .short => fail_work p ip t sz
    | .full ph =>
      if ph.type ≠ ELF_PROG_LOAD then loadAll w p ip left (index + 1) t sz
      else if ph.bad = true then fail_work p ip t sz
      else do
        let (t, sz1) ← mem p .panic
          (uvm_alloc t sz (ph.vaddr + ph.memsz).toNat (flags2perm ph.flags))
        if sz1 = 0 then fail_work p ip t sz
        else do
          let loaded ← loadseg (w.page index) t
            ((ph.filesz.toNat % 2 ^ 32 + PGSIZE - 1) / PGSIZE) 0 ph.vaddr.toNat
          if loaded then loadAll w p ip left (index + 1) t sz1 else fail_work p ip t sz1

/-- Push the argument strings, and then the array of their addresses, onto a page that is mapped. -/
def pushArgs (stackbase : Nat) : List Nat → Nat → Nat → Option Nat
  | [], argc, sp =>
    let sp := (sp - (argc + 1) * 8) / 16 * 16
    if sp < stackbase then none else some sp
  | length :: lengths, argc, sp =>
    let sp := (sp - (length + 1)) / 16 * 16
    if sp < stackbase then none else pushArgs stackbase lengths (argc + 1) sp

/-- The new image replaces the old one. -/
def commit (w : World) (p : Slot) (entry : UInt64) (t : Table) (sz sp : Nat) : ExecM Unit := do
  modify fun k => { k with name := w.last, trapframe := ⟨entry.toNat, sp, sp⟩ }
  let (old, oldsz) ← mem p .late (act .takeTable)
  mem p .late (act (.putTable t sz))
  mem p .late (free_pagetable old oldsz)

/-- The stack and the arguments. -/
def finish (w : World) (p : Slot) (lengths : List Nat) (entry : UInt64) (t : Table) (sz : Nat) :
    ExecM Exit := do
  let (t, sz1) ← mem p .panic (uvm_alloc t sz (sz + (USERSTACK + 1) * PGSIZE) { w := true })
  if sz1 = 0 then do
    discard p t sz
    pure .image
  else do
    let t ← mem p .panic (uvm_clear t (sz1 - (USERSTACK + 1) * PGSIZE))
    match pushArgs (sz1 - USERSTACK * PGSIZE) lengths 0 sz1 with
    | none => do
        discard p t sz1
        pure .tooLong
    | some sp => do
        commit w p entry t sz1 sp
        pure .done

def exec (w : World) (p : Slot) (ip : Inode) (lengths : List Nat) : ExecM Exit := do
  begin_op
  match w.elf with
  | .stops => throw .fileSystem
  | .short => do
      release ip
      pure .image
  | .full elf =>
    if elf.magic ≠ ELF_MAGIC then do
      release ip
      pure .image
    else do
      let k ← get
      match ← mem p .panic (alloc_pagetable ((k.memory.proc_list p).trapframe.getD 0)) with
      | none => do
          release ip
          pure .image
      | some t => do
          match ← loadAll w p ip elf.phnum.toNat 0 t 0 with
          | none => pure .image
          | some (t, sz) => do
              release ip
              finish w p lengths elf.entry t (PG_ROUND_UP sz)

def sys_exec (w : World) (p : Slot) : ExecM Exit :=
  if w.path = false then pure .path
  else do
    match ← fetchArgs w p MAXARGV [] [] with
    | .error exit => pure exit
    | .ok (pages, lengths) =>
      match w.lookup with
      | .stops => throw .fileSystem
      | .missing => throw .noFile
      | .found ip => do
          iget ip
          ilock ip
          if w.permitted then do
            let exit ← exec w p ip lengths
            kfreeAll p exit.stop pages
            pure exit
          else do
            iunlock ip
            pure .refused

end OsCpp.Exec
