import OsCpp.Fs.Kernel
import OsCpp.Frames.Table
import OsCpp.Lib.Process

/-!
# Address spaces

The routines of `kernel/vm.cpp` that build and free the page table of a process, and the calls that
use them: `grow`, `fork`, `exec`, `exit` and `wait`.  They are programs over the critical sections of
`kmem.lock` and of the process table, run by all processes in any interleaving.  The page table a
routine works on is passed along as a value, since no other process looks at it meanwhile; a process
takes its own table out of the process table for the time of a call.

A routine that forgets a frame says so with `lose`: `uvm_clear` invalidates an entry whose frame is
then found by nobody, and `uvm_copy` drops the frame that it could not map.
-/

namespace OsCpp.Frames

/-- Index of an entry of `proc_list`. -/
abbrev Slot := Fin NPROC

inductive Status
  | UNUSED
  | USED
  | RUNNABLE
  | ZOMBIE
  deriving DecidableEq

/-- The fields of a `struct process` that hold frames. -/
structure Entry where
  status : Status := .UNUSED
  trapframe : Option Frame := none
  pagetable : Option Table := none
  sz : Nat := 0

structure State where
  freelist : List Frame
  proc_list : Slot → Entry
  /-- Frames that no routine will ever find again. -/
  lost : List Frame

/-- What `exec` finds in a program header. -/
inductive Segment
  /-- The header cannot be read. -/
  | unreadable
  /-- The segment is not to be loaded. -/
  | other
  /-- One of the three checks fails. -/
  | malformed
  | load (vaddr filesz memsz : Nat) (perm : Flags)

/-- Atomic operations. -/
inductive Op
  | panic (message : String)
  /-- A test of data that is not modelled. -/
  | test
  /-- A number read from data that is not modelled. -/
  | number
  | segment
  | kalloc
  | kfree (frame : Frame)
  /-- The frame is not recorded anywhere any more. -/
  | lose (frame : Frame)
  | trapframe
  /-- `p->pagetable` and `p->sz`, for the time of a call or for good. -/
  | takeTable
  | putTable (t : Table) (sz : Nat)
  | allocProc
  /-- `p->status = UNUSED`. -/
  | freeProc (np : Slot)
  /-- `np` gets its fields and becomes `RUNNABLE`. -/
  | spawn (np : Slot) (trapframe : Frame) (t : Table) (sz : Nat)
  /-- The search of `wait`, which takes the fields of a zombie. -/
  | reap
  /-- `p->status = ZOMBIE`. -/
  | die

/-- Results of the operations. -/
@[reducible] def Op.Result : Op → Type
  | .panic _ | .kfree _ | .lose _ | .putTable .. | .freeProc _ | .spawn .. | .die => Unit
  | .test => Bool
  | .number => Nat
  | .segment => Segment
  | .kalloc => Option Frame
  | .trapframe => Frame
  | .takeTable => Table × Nat
  | .allocProc => Option Slot
  | .reap => Option (Slot × Frame × Table × Nat)

/-- What the environment decides. -/
inductive Answer
  | flag (b : Bool)
  | number (n : Nat)
  | segment (segment : Segment)
  | zombie (np : Option Slot)

abbrev Prog := Process.Code Op Op.Result

open Process (Outcome)

namespace State

def setProc (s : State) (p : Slot) (entry : Entry) : State :=
  { s with proc_list := Function.update s.proc_list p entry }

/-- The entry `alloc_proc` finds. -/
def unused (s : State) : Option Slot :=
  (List.finRange NPROC).find? fun p => (s.proc_list p).status = .UNUSED

end State

def performKalloc (s : State) : Outcome State (Option Frame) :=
  match s.freelist with
  | [] => .next s none
  | frame :: rest => .next { s with freelist := rest } (some frame)

/-- `wait` takes the fields of a zombie. -/
def performReap (s : State) : Option Slot → Outcome State (Option (Slot × Frame × Table × Nat))
  | none => .next s none
  | some np =>
    match s.proc_list np with
    | ⟨.ZOMBIE, some trapframe, some t, sz⟩ =>
      .next (s.setProc np { status := .USED }) (some (np, trapframe, t, sz))
    | _ => .blocked

/-- Perform an operation of a process that runs. -/
def performRunning (s : State) (p : Slot) : (op : Op) → Answer → Outcome State op.Result
  | .panic _, _ => .halt
  | .test, .flag b => .next s b
  | .number, .number n => .next s n
  | .segment, .segment segment => .next s segment
  | .kalloc, _ => performKalloc s
  | .kfree frame, _ => .next { s with freelist := frame :: s.freelist } ()
  | .lose frame, _ => .next { s with lost := s.lost ++ [frame] } ()
  | .trapframe, _ =>
    match (s.proc_list p).trapframe with
    | some frame => .next s frame
    | none => .halt
  | .takeTable, _ =>
    match (s.proc_list p).pagetable with
    | some t => .next (s.setProc p { s.proc_list p with pagetable := none }) (t, (s.proc_list p).sz)
    | none => .halt
  | .putTable t sz, _ =>
    .next (s.setProc p { s.proc_list p with pagetable := some t, sz := sz }) ()
  | .allocProc, _ =>
    match s.unused with
    | some np => .next (s.setProc np { s.proc_list np with status := .USED }) (some np)
    | none => .next s none
  | .freeProc np, _ => .next (s.setProc np {}) ()
  | .spawn np trapframe t sz, _ => .next (s.setProc np ⟨.RUNNABLE, some trapframe, some t, sz⟩) ()
  | .reap, .zombie np => performReap s np
  | .die, _ => .next (s.setProc p { s.proc_list p with status := .ZOMBIE }) ()
  | _, _ => .blocked

def perform (s : State) (p : Slot) (op : Op) (answer : Answer) : Outcome State op.Result :=
  if (s.proc_list p).status = .RUNNABLE then performRunning s p op answer else .blocked

/-! ## Page tables -/

/-- One operation. -/
def act (op : Op) : Prog op.Result := Process.Code.perform op

/-- The second step of `walk`. -/
def walkMid (t : Table) (mid : Mid) (va : Nat) (alloc : Bool) : Prog (Table × Option Pte) :=
  match mid.entries (PX 1 va) with
  | some low => pure (t, some (low.entries (PX 0 va)))
  | none =>
    if alloc then do
      match ← act .kalloc with
      | none => pure (t, none)
      | some frame =>
        pure (t.set (PX 2 va) (some (mid.set (PX 1 va) (some (Low.zero frame)))), some {})
    else pure (t, none)

/-- `walk`, with the entry it finds. -/
def walk (t : Table) (va : Nat) (alloc : Bool) : Prog (Table × Option Pte) :=
  if VA_MAX < va then do
    act (.panic "vm::walk: va > VA_MAX")
    pure (t, none)
  else
    match t.entries (PX 2 va) with
    | some mid => walkMid t mid va alloc
    | none =>
      if alloc then do
        match ← act .kalloc with
        | none => pure (t, none)
        | some frame => walkMid (t.set (PX 2 va) (some (Mid.zero frame))) (Mid.zero frame) va alloc
      else pure (t, none)

/-- The loop of `map_pages`; a page is mapped in each turn. -/
def mapFrom (flags : Flags) : Nat → Table → Nat → Frame → Prog (Table × Bool)
  | 0, t, _, _ => pure (t, true)
  | n + 1, t, a, pa => do
      match ← walk t a true with
      | (t, none) => pure (t, false)
      | (t, some pte) =>
        if pte.v then do
          act (.panic "vm::mappages: remap")
          pure (t, false)
        else mapFrom flags n (t.store a ⟨true, flags, pa⟩) (a + PGSIZE) (pa + 1)

/-- `map_pages`; the size is given in pages. -/
def map_pages (t : Table) (va : Nat) (pa : Frame) (npages : Nat) (flags : Flags) :
    Prog (Table × Bool) :=
  if va % PGSIZE ≠ 0 then do
    act (.panic "mappages: va not aligned")
    pure (t, false)
  else if npages = 0 then do
    act (.panic "mappages: size")
    pure (t, false)
  else mapFrom flags npages t va pa

/-- The loop of `uvm_unmap`. -/
def unmapFrom (do_free : Bool) : Nat → Table → Nat → Prog Table
  | 0, t, _ => pure t
  | n + 1, t, a => do
      match ← walk t a false with
      | (t, none) => do
          act (.panic "vm::uvm_unmap: walk")
          pure t
      | (t, some pte) =>
        if pte.v = false then unmapFrom do_free n t (a + PGSIZE)
        else if pte.flags = {} then do
          act (.panic "vm::uvm_unmap: not a leaf")
          pure t
        else do
          if do_free then act (.kfree pte.pa) else pure ()
          unmapFrom do_free n (t.store a {}) (a + PGSIZE)

def uvm_unmap (t : Table) (va npages : Nat) (do_free : Bool) : Prog Table :=
  if va % PGSIZE ≠ 0 then do
    act (.panic "vm::uvm_unmap: not aligned")
    pure t
  else unmapFrom do_free npages t va

/-- The indices of a node in their order. -/
@[irreducible] def indices : List (Fin 512) := List.finRange 512

/-- Free the node an entry points to. -/
def freeChild {Child : Type} (free : Child → Prog Unit) : Option Child → Prog Unit
  | none => pure ()
  | some child => free child

/-- Free the nodes among some entries. -/
def freeEach {Child : Type} (free : Child → Prog Unit) (entries : Fin 512 → Option Child) :
    List (Fin 512) → Prog Unit
  | [] => pure ()
  | index :: rest => do
      freeChild free (entries index)
      freeEach free entries rest

/-- `free_walk` at the lowest level, where no entry may be valid. -/
def freeLow (low : Low) : Prog Unit := do
  if indices.any fun index => (low.entries index).v then act (.panic "vm::free_walk: leaf")
  else act (.kfree low.frame)

/-- `free_walk` at the middle level. -/
def freeMid (mid : Mid) : Prog Unit := do
  freeEach freeLow mid.entries indices
  act (.kfree mid.frame)

def free_walk (t : Table) : Prog Unit := do
  freeEach freeMid t.entries indices
  act (.kfree t.frame)

def uvm_free (t : Table) (sz : Nat) : Prog Unit := do
  let t ← if 0 < sz then uvm_unmap t 0 (PG_ROUND_UP sz / PGSIZE) true else pure t
  free_walk t

/-- `uvm_dealloc`, with the size it returns. -/
def uvm_dealloc (t : Table) (oldsz newsz : Nat) : Prog (Table × Nat) :=
  if oldsz ≤ newsz then pure (t, oldsz)
  else if PG_ROUND_UP newsz < PG_ROUND_UP oldsz then do
    let t ← uvm_unmap t (PG_ROUND_UP newsz) ((PG_ROUND_UP oldsz - PG_ROUND_UP newsz) / PGSIZE) true
    pure (t, newsz)
  else pure (t, newsz)

/-- The loop of `uvm_alloc`. -/
def allocFrom (oldsz newsz : Nat) (flags : Flags) : Nat → Table → Nat → Prog (Table × Nat)
  | 0, t, _ => pure (t, newsz)
  | n + 1, t, a => do
      match ← act .kalloc with
      | none => do
          let (t, _) ← uvm_dealloc t a oldsz
          pure (t, 0)
      | some mem => do
          match ← map_pages t a mem 1 flags with
          | (t, true) => allocFrom oldsz newsz flags n t (a + PGSIZE)
          | (t, false) => do
              act (.kfree mem)
              let (t, _) ← uvm_dealloc t a oldsz
              pure (t, 0)

/-- `uvm_alloc`, with the size it returns. -/
def uvm_alloc (t : Table) (oldsz newsz : Nat) (xperm : Flags) : Prog (Table × Nat) :=
  if newsz < oldsz then pure (t, oldsz)
  else
    let oldsz := PG_ROUND_UP oldsz
    allocFrom oldsz newsz { xperm with r := true, u := true } ((newsz - oldsz + PGSIZE - 1) / PGSIZE)
      t oldsz

/-- The loop of `uvm_copy`. -/
def copyFrom (old : Table) : Nat → Table → Nat → Prog (Table × Bool)
  | 0, new, _ => pure (new, true)
  | n + 1, new, i => do
      match ← walk old i false with
      | (_, none) => do
          act (.panic "vm::uvm_copy: pte not exit")
          pure (new, false)
      | (_, some pte) =>
        if pte.v = false then copyFrom old n new (i + PGSIZE)
        else do
          match ← act .kalloc with
          | none => do
              let new ← uvm_unmap new i (i / PGSIZE) true
              pure (new, false)
          | some mem => do
              match ← map_pages new i mem 1 pte.flags with
              | (new, true) => copyFrom old n new (i + PGSIZE)
              | (new, false) => do
                  act (.lose mem)
                  let new ← uvm_unmap new i (i / PGSIZE) true
                  pure (new, false)

def uvm_copy (old new : Table) (sz : Nat) : Prog (Table × Bool) :=
  copyFrom old ((sz + PGSIZE - 1) / PGSIZE) new 0

/-- `uvm_clear`: the frame of a valid entry cannot be found afterwards. -/
def uvm_clear (t : Table) (va : Nat) : Prog Table := do
  match ← walk t va false with
  | (t, none) => do
      act (.panic "vm::uvm_clear: pte not exit")
      pure t
  | (t, some pte) => do
      if pte.v = true ∧ pte.flags.u = true then act (.lose pte.pa) else pure ()
      pure (t.store va { pte with v := false })

/-! ## Processes -/

/-- The frame of the trampoline, which belongs to the kernel. -/
def trampoline : Frame := 0

def alloc_pagetable (trapframe : Frame) : Prog (Option Table) := do
  match ← act .kalloc with
  | none => pure none
  | some root => do
      match ← map_pages (Table.zero root) TRAMPOLINE trampoline 1 { r := true, x := true } with
      | (t, false) => do
          uvm_free t 0
          pure none
      | (t, true) => do
          match ← map_pages t TRAPFRAME trapframe 1 { r := true, w := true } with
          | (t, false) => do
              let t ← uvm_unmap t TRAMPOLINE 1 false
              uvm_free t 0
              pure none
          | (t, true) => pure (some t)

def free_pagetable (t : Table) (sz : Nat) : Prog Unit := do
  let t ← uvm_unmap t TRAMPOLINE 1 false
  let t ← uvm_unmap t TRAPFRAME 1 false
  uvm_free t sz

/-- `free` of a process with its fields. -/
def free (np : Slot) (trapframe : Frame) (t : Table) (sz : Nat) : Prog Unit := do
  act (.kfree trapframe)
  free_pagetable t sz
  act (.freeProc np)

def alloc_proc : Prog (Option (Slot × Frame × Table)) := do
  match ← act .allocProc with
  | none => do
      act (.panic "proc::alloc: no proc")
      pure none
  | some np => do
      match ← act .kalloc with
      | none => do
          act (.freeProc np)
          pure none
      | some trapframe => do
          match ← alloc_pagetable trapframe with
          | none => do
              act (.kfree trapframe)
              act (.freeProc np)
              pure none
          | some t => pure (some (np, trapframe, t))

def grow (n : Int) : Prog Unit := do
  let (t, sz) ← act .takeTable
  if 0 < n then do
    let (t, newsz) ← uvm_alloc t sz (sz + n.toNat) { w := true }
    act (.putTable t (if newsz = 0 then sz else newsz))
  else if n < 0 ∧ n.natAbs ≤ sz then do
    let (t, newsz) ← uvm_dealloc t sz (sz - n.natAbs)
    act (.putTable t newsz)
  else act (.putTable t sz)

/-- `fork`: has a child been made? -/
def fork : Prog Bool := do
  match ← alloc_proc with
  | none => pure false
  | some (np, trapframe, new) => do
      let (old, sz) ← act .takeTable
      let (new, copied) ← uvm_copy old new sz
      act (.putTable old sz)
      if copied then do
        act (.spawn np trapframe new sz)
        pure true
      else do
        free np trapframe new 0
        pure false

def loadseg (t : Table) : Nat → Nat → Prog Bool
  | 0, _ => pure true
  | n + 1, va =>
    match t.lookup va with
    | some ⟨true, ⟨_, _, _, true⟩, _⟩ => do
        if ← act .test then loadseg t n (va + PGSIZE) else pure false
    | _ => do
        act (.panic "loadseg: address should exist")
        pure false

def fail_work (t : Table) (sz : Nat) : Prog (Option (Table × Nat)) := do
  free_pagetable t sz
  pure none

/-- The loop of `exec` over the program headers. -/
def loadAll : Nat → Table → Nat → Prog (Option (Table × Nat))
  | 0, t, sz => pure (some (t, sz))
  | n + 1, t, sz => do
      match ← act .segment with
      | .unreadable | .malformed => fail_work t sz
      | .other => loadAll n t sz
      | .load vaddr filesz memsz perm => do
          let (t, sz1) ← uvm_alloc t sz (vaddr + memsz) perm
          if sz1 = 0 then fail_work t sz
          else do
            if ← loadseg t ((filesz + PGSIZE - 1) / PGSIZE) vaddr then loadAll n t sz1
            else fail_work t sz1

/-- Pages of the user stack. -/
def USERSTACK : Nat := 1

/-- The image `exec` builds, with its stack. -/
def buildImage : Prog (Option (Table × Nat)) := do
  -- The ELF header can be read and has the magic number.
  if ← act .test then do
    let trapframe ← act .trapframe
    match ← alloc_pagetable trapframe with
    | none => pure none
    | some t => do
        let phnum ← act .number
        match ← loadAll phnum t 0 with
        | none => pure none
        | some (t, sz) => do
            let sz := PG_ROUND_UP sz
            let (t, sz1) ← uvm_alloc t sz (sz + (USERSTACK + 1) * PGSIZE) { w := true }
            if sz1 = 0 then fail_work t sz
            else do
              let t ← uvm_clear t (sz1 - (USERSTACK + 1) * PGSIZE)
              -- The arguments fit and have been copied.
              if ← act .test then pure (some (t, sz1)) else fail_work t sz1
  else pure none

def exec : Prog Unit := do
  match ← buildImage with
  | none => pure ()
  | some (t, sz) => do
      let (old, oldsz) ← act .takeTable
      act (.putTable t sz)
      free_pagetable old oldsz

/-- `wait`, if there is a zombie. -/
def wait : Prog Unit := do
  match ← act .reap with
  | none => pure ()
  | some (np, trapframe, t, sz) => free np trapframe t sz

/-- The calls that change address spaces. -/
inductive Call
  | grow (n : Int)
  | fork
  | exec
  | exit
  | wait
  deriving DecidableEq

def program : Call → Prog Unit
  | .grow n => grow n
  | .fork => do
      let _ ← fork
      pure ()
  | .exec => exec
  | .exit => act .die
  | .wait => wait

/-- All processes. -/
def system : Process.System Slot State Op Op.Result Answer Call where
  perform := perform
  begins s p call := if (s.proc_list p).status = .RUNNABLE then some (program call) else none

end OsCpp.Frames
