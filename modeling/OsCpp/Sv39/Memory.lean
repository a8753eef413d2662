import OsCpp.Frames.Table
import OsCpp.Lib.Program
import OsCpp.Lib.Radix

/-!
# Page tables in memory

The routines of `kernel/vm.cpp` that build and change page tables, over physical memory: every page frame
has 512 words of 64 bits, which are page-table entries in some frames and data in others.  Entries pack
the address of a frame and ten flags as `kernel/arch/riscv.h` does.  Addresses are natural numbers; the
frame at an address is its quotient by the page size.  The free list is kept as the list of its frames.
-/

namespace OsCpp.Sv39

open Frames (PX PGSIZE VA_MAX PG_ROUND_UP)

def PTE_V : Nat := 1

def PTE_R : Nat := 2

def PTE_W : Nat := 4

def PTE_U : Nat := 16

def PTE2PA (pte : Nat) : Nat := pte / 2 ^ 10 * 2 ^ 12 % 2 ^ 64

def PA2PTE (pa : Nat) : Nat := pa / 2 ^ 12 * 2 ^ 10 % 2 ^ 64

def PTE_FLAGS (pte : Nat) : Nat := pte &&& 1023

structure Memory where
  ram : Nat → Fin 512 → Nat
  freelist : List Nat

/-- Programs that change memory and may panic. -/
abbrev Prog := EStateM String Memory

def load (frame : Nat) (index : Fin 512) : Prog Nat := do
  return (← get).ram frame index

def put (frame : Nat) (index : Fin 512) (word : Nat) : Prog Unit :=
  modify fun m => { m with ram := Radix.store m.ram frame index word }

/-- `std::memset` of a whole frame, with eight times the byte. -/
def memset (frame word : Nat) : Prog Unit :=
  modify fun m => { m with ram := Function.update m.ram frame fun _ => word }

/-- `std::memmove` of a whole frame. -/
def memmove (dest src : Nat) : Prog Unit :=
  modify fun m => { m with ram := Function.update m.ram dest (m.ram src) }

/-- What `kfree` leaves in a frame: bytes 1, and the address of the next free frame. -/
def freed (rest : List Nat) : Fin 512 → Nat :=
  Function.update (fun _ => 0x0101010101010101) 0 ((rest.head?.map (· * PGSIZE)).getD 0)

def kfree (frame : Nat) : Prog Unit :=
  modify fun m =>
    { ram := Function.update m.ram frame (freed m.freelist), freelist := frame :: m.freelist }

def kalloc : Prog (Option Nat) := do
  match (← get).freelist with
  | [] => return none
  | frame :: rest =>
    modify fun m => { m with freelist := rest }
    memset frame 0x0505050505050505
    return some frame

/-- The body of the loop of `walk`: from a node to the next one. -/
def descend (va : Nat) (alloc : Bool) (level pagetable : Nat) : Prog (Option Nat) := do
  let pte ← load pagetable (PX level va)
  if pte &&& PTE_V ≠ 0 then return some (PTE2PA pte / PGSIZE)
  else if alloc then
    match ← kalloc with
    | none => return none
    | some frame =>
      memset frame 0
      put pagetable (PX level va) (PA2PTE (frame * PGSIZE) ||| PTE_V)
      return some frame
  else return none

/-- `walk`: the node of the lowest level and the index of the entry. -/
def walk (pagetable va : Nat) (alloc : Bool) : Prog (Option (Nat × Fin 512)) := do
  if va > VA_MAX then throw "vm::walk: va > VA_MAX"
  else
    match ← descend va alloc 2 pagetable with
    | none => return none
    | some mid =>
      match ← descend va alloc 1 mid with
      | none => return none
      | some low => return some (low, PX 0 va)

/-- The loop of `map_pages`, with the number of pages left. -/
def mapFrom (pagetable flag : Nat) : Nat → Nat → Nat → Prog Bool
  | _, _, 0 => return true
  | a, pa, n + 1 => do
      match ← walk pagetable a true with
      | none => return false
      | some (low, index) =>
        let pte ← load low index
        if pte &&& PTE_V ≠ 0 then throw "vm::mappages: remap"
        else
          put low index (PA2PTE pa ||| flag ||| PTE_V)
          mapFrom pagetable flag (a + PGSIZE) (pa + PGSIZE) n

def map_pages (pagetable va pa size flag : Nat) : Prog Bool := do
  if va % PGSIZE ≠ 0 then throw "mappages: va not aligned"
  else if size % PGSIZE ≠ 0 then throw "mappages: size not aligned"
  else if size = 0 then throw "mappages: size"
  else mapFrom pagetable flag va pa (size / PGSIZE)

def uvm_create : Prog (Option Nat) := do
  match ← kalloc with
  | none => return none
  | some frame =>
    memset frame 0
    return some frame

/-- The loop of `uvm_unmap`, with the number of pages left. -/
def unmapFrom (pagetable : Nat) (do_free : Bool) : Nat → Nat → Prog Unit
  | _, 0 => return ()
  | a, n + 1 => do
      match ← walk pagetable a false with
      | none => throw "vm::uvm_unmap: walk"
      | some (low, index) =>
        let pte ← load low index
        if pte &&& PTE_V = 0 then unmapFrom pagetable do_free (a + PGSIZE) n
        else if PTE_FLAGS pte = PTE_V then throw "vm::uvm_unmap: not a leaf"
        else
          if do_free then kfree (PTE2PA pte / PGSIZE)
          put low index 0
          unmapFrom pagetable do_free (a + PGSIZE) n

def uvm_unmap (pagetable va npages : Nat) (do_free : Bool) : Prog Unit := do
  if va % PGSIZE ≠ 0 then throw "vm::uvm_unmap: not aligned"
  else unmapFrom pagetable do_free va npages

/-- Number of pages of some bytes. -/
def pages (bytes : Nat) : Nat := (bytes + PGSIZE - 1) / PGSIZE

def uvm_dealloc (pagetable oldsz newsz : Nat) : Prog Nat := do
  if newsz ≥ oldsz then return oldsz
  else
    if PG_ROUND_UP newsz < PG_ROUND_UP oldsz then
      uvm_unmap pagetable (PG_ROUND_UP newsz) ((PG_ROUND_UP oldsz - PG_ROUND_UP newsz) / PGSIZE) true
    return newsz

/-- The loop of `uvm_alloc`, with the number of pages left. -/
def allocFrom (pagetable oldsz newsz xperm : Nat) : Nat → Nat → Prog Nat
  | _, 0 => return newsz
  | a, n + 1 => do
      match ← kalloc with
      | none =>
        let _ ← uvm_dealloc pagetable a oldsz
        return 0
      | some mem =>
        memset mem 0
        if ← map_pages pagetable a (mem * PGSIZE) PGSIZE (PTE_R ||| PTE_U ||| xperm) then
          allocFrom pagetable oldsz newsz xperm (a + PGSIZE) n
        else
          kfree mem
          let _ ← uvm_dealloc pagetable a oldsz
          return 0

def uvm_alloc (pagetable oldsz newsz xperm : Nat) : Prog Nat := do
  if oldsz > newsz then return oldsz
  else
    let start := PG_ROUND_UP oldsz
    allocFrom pagetable start newsz xperm start (pages (newsz - start))

/-- The loop of `uvm_copy`, with the number of pages left. -/
def copyFrom (old_pagetable new_pagetable : Nat) : Nat → Nat → Prog Bool
  | _, 0 => return true
  | i, n + 1 => do
      match ← walk old_pagetable i false with
      | none => throw "vm::uvm_copy: pte not exit"
      | some (low, index) =>
        let pte ← load low index
        if pte &&& PTE_V = 0 then copyFrom old_pagetable new_pagetable (i + PGSIZE) n
        else
          match ← kalloc with
          | none =>
            uvm_unmap new_pagetable i (i / PGSIZE) true
            return false
          | some mem =>
            memmove mem (PTE2PA pte / PGSIZE)
            if ← map_pages new_pagetable i (mem * PGSIZE) PGSIZE (PTE_FLAGS pte) then
              copyFrom old_pagetable new_pagetable (i + PGSIZE) n
            else
              uvm_unmap new_pagetable i (i / PGSIZE) true
              return false

def uvm_copy (old_pagetable new_pagetable sz : Nat) : Prog Bool :=
  copyFrom old_pagetable new_pagetable 0 (pages sz)

/-- `grow`, with the size of the process before and after. -/
def grow (pagetable sz : Nat) (n : Int) : Prog (Int × Nat) := do
  if n > 0 then
    let size ← uvm_alloc pagetable sz (sz + n.toNat) PTE_W
    if size = 0 then return (-1, sz) else return (0, size)
  else if n < 0 then
    let size ← uvm_dealloc pagetable sz ((sz + n) % 2 ^ 64).toNat
    return (0, size)
  else return (0, sz)

end OsCpp.Sv39
