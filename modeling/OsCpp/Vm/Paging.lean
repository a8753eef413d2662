import Mathlib.Data.Nat.Bitwise
import OsCpp.Lib.Bytes

/-!
# Page tables

Address arithmetic of `kernel/arch/riscv.h` with its machine types, and the two page-table walks of
`kernel/vm.cpp` that the user-memory copies use.  Physical memory is a byte for every 64-bit address;
the kernel runs on an identity mapping, so kernel pointers are physical addresses.
-/

namespace OsCpp.Vm

/-- Physical memory. -/
abbrev Memory := UInt64 → UInt8

/-- Load a little-endian 64-bit word. -/
def Memory.load64 (memory : Memory) (address : UInt64) : UInt64 :=
  UInt64.ofNat (Bytes.ofLE ((List.range 8).map fun index => memory (address + UInt64.ofNat index)))

def PTE_V : UInt64 := (1 : UInt64) <<< 0

def PTE_W : UInt64 := (1 : UInt64) <<< 2

def PTE_U : UInt64 := (1 : UInt64) <<< 4

def PGSIZE : UInt32 := 4096

/-- The mask is computed in 32 bits and then extended. -/
def PG_ROUND_DOWN (addr : UInt64) : UInt64 := addr &&& (~~~(PGSIZE - 1)).toUInt64

def PTE2PA (pte : UInt64) : UInt64 := (pte >>> 10) <<< 12

def PX_MASK : UInt32 := 0x1FF

def PG_SHIFT : UInt32 := 12

def PX_SHIFT (level : UInt32) : UInt64 := (PG_SHIFT + 9 * level).toUInt64

def PX (level : UInt32) (va : UInt64) : UInt64 := (va >>> PX_SHIFT level) &&& PX_MASK.toUInt64

def VA_MAX : UInt64 := (1 : UInt64) <<< 38

/-- Address of one entry of a page-table page, `&pagetable[PX(level, va)]`. -/
def entryAddress (pagetable : UInt64) (level : UInt32) (va : UInt64) : UInt64 :=
  pagetable + 8 * PX level va

/-- The loop of `walk` without allocation, from a level down to the leaf. -/
def descend (memory : Memory) (va : UInt64) : List UInt32 → UInt64 → Option UInt64
  | [], pagetable => some (entryAddress pagetable 0 va)
  | level :: levels, pagetable =>
    let pte := memory.load64 (entryAddress pagetable level va)
    if pte &&& PTE_V ≠ 0 then descend memory va levels (PTE2PA pte) else none

/-- `vm::walk` with `alloc = false`: the address of the leaf entry, if all interior nodes exist. -/
def walk (memory : Memory) (pagetable va : UInt64) : Except String (Option UInt64) :=
  if va > VA_MAX then .error "vm::walk: va > VA_MAX"
  else .ok (descend memory va [2, 1] pagetable)

def walkaddr (memory : Memory) (pagetable va : UInt64) : Except String UInt64 :=
  if va > VA_MAX then .ok 0
  else
    (walk memory pagetable va).map fun
      | none => 0
      | some entry =>
        let pte := memory.load64 entry
        if pte &&& PTE_V = 0 then 0
        else if pte &&& PTE_U = 0 then 0
        else PTE2PA pte

/-- The frame mapped at the page of a virtual address for user access, and for user writes if
`writable` is set. -/
def UserFrame (memory : Memory) (pagetable : UInt64) (writable : Bool) (va frame : UInt64) : Prop :=
  va ≤ VA_MAX ∧ ∃ entry, descend memory va [2, 1] pagetable = some entry ∧
    memory.load64 entry &&& PTE_V ≠ 0 ∧ memory.load64 entry &&& PTE_U ≠ 0 ∧
    (writable = true → memory.load64 entry &&& PTE_W ≠ 0) ∧ PTE2PA (memory.load64 entry) = frame

/-- Rounding down keeps the low 32 bits of the address only. -/
theorem toNat_PG_ROUND_DOWN (addr : UInt64) :
    (PG_ROUND_DOWN addr).toNat = addr.toNat % 2 ^ 32 / 2 ^ 12 * 2 ^ 12 := by
  have mask : (~~~(PGSIZE - 1)).toUInt64.toNat = (2 ^ 20 - 1) * 2 ^ 12 := by decide
  rw [PG_ROUND_DOWN, UInt64.toNat_and, mask]
  apply Nat.eq_of_testBit_eq
  intro index
  rw [Nat.testBit_and, Nat.testBit_mul_two_pow, Nat.testBit_two_pow_sub_one,
    Nat.testBit_mul_two_pow, Nat.testBit_div_two_pow, Nat.testBit_mod_two_pow]
  by_cases high : 12 ≤ index
  · have below : index - 12 < 20 ↔ index < 32 := by omega
    simp [high, below, Bool.and_comm]
  · simp [high]

theorem PX_congr {level : UInt32} (known : level ∈ [0, 1, 2]) {va other : UInt64}
    (same : va.toNat / 2 ^ 12 = other.toNat / 2 ^ 12) : PX level va = PX level other := by
  have shifted : ∀ more : Nat, va.toNat >>> (12 + more) = other.toNat >>> (12 + more) := by
    intro more
    rw [Nat.shiftRight_eq_div_pow, Nat.shiftRight_eq_div_pow, pow_add, ← Nat.div_div_eq_div_mul,
      ← Nat.div_div_eq_div_mul, same]
  have shifts : ∃ more, (PX_SHIFT level).toNat % 64 = 12 + more := by
    simp only [List.mem_cons, List.not_mem_nil, or_false] at known
    rcases known with rfl | rfl | rfl
    · exact ⟨0, by decide⟩
    · exact ⟨9, by decide⟩
    · exact ⟨18, by decide⟩
  obtain ⟨more, shift⟩ := shifts
  have words : va >>> PX_SHIFT level = other >>> PX_SHIFT level := by
    apply UInt64.toNat_inj.mp
    rw [UInt64.toNat_shiftRight, UInt64.toNat_shiftRight, shift, shifted]
  rw [PX, PX, words]

theorem descend_congr {memory : Memory} {va other : UInt64} {levels : List UInt32}
    (known : ∀ level ∈ levels, level ∈ [1, 2]) (same : va.toNat / 2 ^ 12 = other.toNat / 2 ^ 12)
    (pagetable : UInt64) :
    descend memory va levels pagetable = descend memory other levels pagetable := by
  induction levels generalizing pagetable with
  | nil => rw [descend, descend, entryAddress, entryAddress, PX_congr (by simp) same]
  | cons level levels ih =>
    have here : level ∈ [0, 1, 2] := .tail _ (known level (by simp))
    rw [descend, descend, entryAddress, entryAddress, PX_congr here same]
    simp only [ih fun level member => known level (.tail _ member)]

theorem UserFrame.congr {memory : Memory} {pagetable va other frame : UInt64} {writable : Bool}
    (mapped : UserFrame memory pagetable writable va frame)
    (same : va.toNat / 2 ^ 12 = other.toNat / 2 ^ 12) (below : other ≤ VA_MAX) :
    UserFrame memory pagetable writable other frame := by
  obtain ⟨-, entry, leaf, flags⟩ := mapped
  refine ⟨below, entry, ?_, flags⟩
  rw [← leaf]
  exact (descend_congr (by simp) same pagetable).symm

theorem toNat_PTE2PA_mod (pte : UInt64) : (PTE2PA pte).toNat % 2 ^ 12 = 0 := by
  rw [PTE2PA, UInt64.toNat_shiftLeft]
  simp [Nat.shiftLeft_eq]

theorem walk_of_le {memory : Memory} {pagetable va : UInt64} (below : va ≤ VA_MAX) :
    walk memory pagetable va = .ok (descend memory va [2, 1] pagetable) :=
  if_neg (UInt64.not_lt.mpr below)

theorem walkaddr_eq (memory : Memory) (pagetable va : UInt64) :
    ∃ pa, walkaddr memory pagetable va = .ok pa ∧
      (pa ≠ 0 → UserFrame memory pagetable false va pa) := by
  unfold walkaddr
  split
  case isTrue => exact ⟨0, rfl, fun nonzero => absurd rfl nonzero⟩
  case isFalse high =>
    have below : va ≤ VA_MAX := UInt64.not_lt.mp high
    rw [walk_of_le below]
    refine ⟨_, rfl, fun nonzero => ?_⟩
    cases leaf : descend memory va [2, 1] pagetable with
    | none =>
      rw [leaf] at nonzero
      exact absurd rfl nonzero
    | some entry =>
      rw [leaf] at nonzero
      dsimp only at nonzero ⊢
      by_cases valid : memory.load64 entry &&& PTE_V = 0
      · simp [valid] at nonzero
      · by_cases user : memory.load64 entry &&& PTE_U = 0
        · simp [valid, user] at nonzero
        · simp only [valid, user, if_false]
          exact ⟨below, entry, leaf, valid, user, by simp, rfl⟩

end OsCpp.Vm
