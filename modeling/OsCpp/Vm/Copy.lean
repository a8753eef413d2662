import OsCpp.Vm.Paging

/-!
# Copies between kernel and user memory

`copyout`, `copyin` and `copyinstr` of `kernel/vm.cpp`, with the list of the accesses they make to
user memory.  Every access remembers the memory in which its page was looked up, since a copy may
change the page table itself.
-/

namespace OsCpp.Vm

def Memory.store (memory : Memory) (address : UInt64) (byte : UInt8) : Memory :=
  Function.update memory address byte

/-- The ascending loop of `std::memmove`, from an index on. -/
def moveForward (memory : Memory) (dest src : UInt64) : Nat → Nat → Memory
  | _, 0 => memory
  | index, count + 1 =>
    moveForward
      (memory.store (dest + UInt64.ofNat index) (memory (src + UInt64.ofNat index)))
      dest src (index + 1) count

/-- The descending loop of `std::memmove`. -/
def moveBackward (memory : Memory) (dest src : UInt64) : Nat → Memory
  | 0 => memory
  | count + 1 =>
    moveBackward
      (memory.store (dest + UInt64.ofNat count) (memory (src + UInt64.ofNat count))) dest src count

def memmove (memory : Memory) (dest src : UInt64) (count : UInt32) : Memory :=
  if dest = src ∨ count = 0 then memory
  else if dest < src then moveForward memory dest src 0 count.toNat
  else moveBackward memory dest src count.toNat

structure Access where
  /-- Memory when the page was looked up. -/
  memory : Memory
  va : UInt64
  pa : UInt64
  count : Nat

/-- Result of a copy: the returned flag or the text of a panic, the memory and the accesses. -/
structure Outcome where
  result : Except String Bool
  memory : Memory
  accesses : List Access

/-- Put an access in front. -/
def Outcome.after (outcome : Outcome) (access : Access) : Outcome :=
  { outcome with accesses := access :: outcome.accesses }

/-- Number of bytes copied by one iteration: the rest of the page, but at most `len`. -/
def chunk (va len : UInt64) : UInt64 :=
  let n := PGSIZE.toUInt64 - (va - PG_ROUND_DOWN va)
  if n > len then len else n

theorem toNat_sub_PG_ROUND_DOWN (va : UInt64) :
    (va - PG_ROUND_DOWN va).toNat = va.toNat / 2 ^ 32 * 2 ^ 32 + va.toNat % 2 ^ 12 := by
  have rounded := toNat_PG_ROUND_DOWN va
  have below : PG_ROUND_DOWN va ≤ va := by
    rw [UInt64.le_iff_toNat_le]
    omega
  rw [UInt64.toNat_sub_of_le _ _ below]
  omega

theorem toNat_chunk (va len : UInt64) :
    (chunk va len).toNat =
      min len.toNat ((2 ^ 64 - (va.toNat / 2 ^ 32 * 2 ^ 32 + va.toNat % 2 ^ 12) + 4096) % 2 ^ 64) := by
  have rest : (PGSIZE.toUInt64 - (va - PG_ROUND_DOWN va)).toNat =
      (2 ^ 64 - (va.toNat / 2 ^ 32 * 2 ^ 32 + va.toNat % 2 ^ 12) + 4096) % 2 ^ 64 := by
    rw [UInt64.toNat_sub, toNat_sub_PG_ROUND_DOWN]
    rfl
  unfold chunk
  dsimp only
  rw [← rest]
  split
  case isTrue more =>
    rw [gt_iff_lt, UInt64.lt_iff_toNat_lt] at more
    omega
  case isFalse bounded =>
    rw [gt_iff_lt, UInt64.not_lt, UInt64.le_iff_toNat_le] at bounded
    omega

/-- The source loops terminate because every iteration copies at least one byte. -/
theorem chunk_pos (va : UInt64) {len : UInt64} (len_ne : len ≠ 0) : 0 < (chunk va len).toNat := by
  have len_pos : len.toNat ≠ 0 := fun zero => len_ne (UInt64.toNat_inj.mp zero)
  have bounded := va.toNat_lt
  rw [toNat_chunk]
  omega

theorem chunk_of_low {va len : UInt64} (low : va.toNat < 2 ^ 32) :
    (chunk va len).toNat = min len.toNat (4096 - va.toNat % 4096) := by
  rw [toNat_chunk]
  omega

theorem chunk_le (va len : UInt64) : (chunk va len).toNat ≤ len.toNat := by
  rw [toNat_chunk]
  exact min_le_left _ _

theorem toNat_sub_chunk (va len : UInt64) :
    (len - chunk va len).toNat = len.toNat - (chunk va len).toNat :=
  UInt64.toNat_sub_of_le _ _ (UInt64.le_iff_toNat_le.mpr (chunk_le va len))

/-- The loop shared by `copyout` and `copyin`. -/
def copyLoop (lookup : Memory → UInt64 → Except String (Option UInt64))
    (move : Memory → UInt64 → UInt64 → UInt32 → Memory) (memory : Memory)
    (kernel va len : UInt64) : Outcome :=
  if len = 0 then ⟨.ok true, memory, []⟩
  else
    let va0 := PG_ROUND_DOWN va
    match lookup memory va0 with
    | .error message => ⟨.error message, memory, []⟩
    | .ok none => ⟨.ok false, memory, []⟩
    | .ok (some pa0) =>
      let n := chunk va len
      let pa := pa0 + (va - va0)
      (copyLoop lookup move (move memory kernel pa n.toUInt32) (kernel + n)
        (va0 + PGSIZE.toUInt64) (len - n)).after ⟨memory, va, pa, n.toUInt32.toNat⟩
termination_by len.toNat
decreasing_by
  have progress := chunk_pos va ‹_›
  have bounded := chunk_le va len
  rw [toNat_sub_chunk]
  omega

/-- The tests of `copyout` on the page at `va0`. -/
def writablePage (pagetable : UInt64) (memory : Memory) (va0 : UInt64) :
    Except String (Option UInt64) :=
  if va0 > VA_MAX then .ok none
  else
    (walk memory pagetable va0).map fun
      | none => none
      | some entry =>
        let pte := memory.load64 entry
        if pte &&& PTE_V = 0 ∨ pte &&& PTE_U = 0 ∨ pte &&& PTE_W = 0 then none
        else some (PTE2PA pte)

/-- The test of `copyin` and `copyinstr` on the page at `va0`. -/
def readablePage (pagetable : UInt64) (memory : Memory) (va0 : UInt64) :
    Except String (Option UInt64) :=
  (walkaddr memory pagetable va0).map fun pa0 => if pa0 = 0 then none else some pa0

def copyout (memory : Memory) (pagetable dstva src len : UInt64) : Outcome :=
  copyLoop (writablePage pagetable)
    (fun memory kernel user count => memmove memory user kernel count) memory src dstva len

def copyin (memory : Memory) (pagetable dst srcva len : UInt64) : Outcome :=
  copyLoop (readablePage pagetable)
    (fun memory kernel user count => memmove memory kernel user count) memory dst srcva len

/-- The inner loop of `copyinstr`: the memory, the bytes read, and whether the zero was among them.
-/
def copyBytes (memory : Memory) (dst p : UInt64) : Nat → Memory × Nat × Bool
  | 0 => (memory, 0, false)
  | n + 1 =>
    if memory p = 0 then (memory.store dst 0, 1, true)
    else
      let (rest, count, found) := copyBytes (memory.store dst (memory p)) (dst + 1) (p + 1) n
      (rest, count + 1, found)

def copyinstr (memory : Memory) (pagetable dst srcva len : UInt64) : Outcome :=
  if len = 0 then ⟨.ok false, memory, []⟩
  else
    let va0 := PG_ROUND_DOWN srcva
    match readablePage pagetable memory va0 with
    | .error message => ⟨.error message, memory, []⟩
    | .ok none => ⟨.ok false, memory, []⟩
    | .ok (some pa0) =>
      let n := chunk srcva len
      let pa := pa0 + (srcva - va0)
      let (copied, count, found) := copyBytes memory dst pa n.toNat
      if found then ⟨.ok true, copied, [⟨memory, srcva, pa, count⟩]⟩
      else
        (copyinstr copied pagetable (dst + n) (va0 + PGSIZE.toUInt64) (len - n)).after
          ⟨memory, srcva, pa, count⟩
termination_by len.toNat
decreasing_by
  have progress := chunk_pos srcva ‹_›
  have bounded := chunk_le srcva len
  rw [toNat_sub_chunk]
  omega

end OsCpp.Vm
