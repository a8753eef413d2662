import OsCpp.Vm.Exactness

/-!
# Strings and overlapping moves

`strncpy` and `memmove` of `micro_libcxx/src/cstring.cpp`, and `memmove` of `ulibc`.  The two loops of
`strncpy` share an unsigned counter, which wraps when the source fills the field.
-/

namespace OsCpp

/-! ## Moves -/

namespace Ulibc

open Vm (Memory)

/-- `while (n--) *d++ = *s++`. -/
def copyUp (memory : Memory) (d s : UInt64) : Nat → Memory
  | 0 => memory
  | n + 1 => copyUp (memory.store d (memory s)) (d + 1) (s + 1) n

/-- `while (n--) *--d = *--s`. -/
def copyDown (memory : Memory) (d s : UInt64) : Nat → Memory
  | 0 => memory
  | n + 1 => copyDown (memory.store (d - 1) (memory (s - 1))) (d - 1) (s - 1) n

/-- `memmove` of `ulibc`, and the pointer it returns. -/
def memmove (memory : Memory) (dest src n : UInt64) : Memory × UInt64 :=
  if dest = 0 ∨ src = 0 then (memory, 0)
  else if dest < src ∨ dest ≥ src + n then (copyUp memory dest src n.toNat, dest)
  else if dest > src then (copyDown memory (dest + n) (src + n) n.toNat, dest)
  else (memory, dest)

end Ulibc

namespace Vm

open Set (Iio)
open UInt64 (ofNat)

variable {m before : Memory} {dest src : UInt64}

theorem add_ofNat_inj {a : UInt64} {i j : Nat} (less : i < 2 ^ 64) (less' : j < 2 ^ 64)
    (same : a + ofNat i = a + ofNat j) : i = j := by
  have numbers := congrArg UInt64.toNat (UInt64.add_right_inj a |>.mp same)
  rw [UInt64.toNat_ofNat', UInt64.toNat_ofNat'] at numbers
  omega

theorem add_ofNat_succ (a : UInt64) (n : Nat) : a + ofNat n + 1 = a + ofNat (n + 1) := add_ofNat a n 1

section

variable (m : Memory) (dest src : UInt64) (index count : Nat)

theorem copyUp_eq : Ulibc.copyUp m (dest + ofNat index) (src + ofNat index) count =
    moveForward m dest src index count := by
  induction count generalizing m index with
  | zero => rfl
  | succ count ih =>
    rw [Ulibc.copyUp, moveForward, ← ih, add_ofNat_succ, add_ofNat_succ]

theorem copyDown_eq : Ulibc.copyDown m (dest + ofNat count) (src + ofNat count) count =
    moveBackward m dest src count := by
  induction count generalizing m with
  | zero => rfl
  | succ count ih =>
    have back : ∀ a : UInt64, a + ofNat (count + 1) - 1 = a + ofNat count := by
      intro a
      rw [← add_ofNat_succ, UInt64.add_sub_cancel]
    rw [Ulibc.copyDown, moveBackward, back, back, ih]

end

/-- The bytes of one range have been moved to another. -/
abbrev Moved (dest src : UInt64) (count : Nat) : Memory → Memory → Prop :=
  Copied (src + ofNat ·) (dest + ofNat ·) (Iio count)

theorem Copied.unique {source place : Nat → UInt64} {indices : Set Nat} {after other : Memory}
    (copied : Copied source place indices m after) (copied' : Copied source place indices m other) :
    after = other := by
  funext address
  by_cases inside : ∃ i ∈ indices, address = place i
  · obtain ⟨i, member, rfl⟩ := inside
    rw [copied.stored i member, copied'.stored i member]
  · have outside : ∀ i ∈ indices, address ≠ place i := fun i member same => inside ⟨i, member, same⟩
    rw [copied.kept _ outside, copied'.kept _ outside]

section

variable {count : Nat} (dest_fits : dest.toNat + count ≤ 2 ^ 64) (src_fits : src.toNat + count ≤ 2 ^ 64)
include dest_fits src_fits

theorem meet {i j : Nat} (less : i < count) (less' : j < count)
    (same : src + ofNat j = dest + ofNat i) : src.toNat + j = dest.toNat + i := by
  have numbers := congrArg UInt64.toNat same
  rw [UInt64.toNat_add, UInt64.toNat_add, UInt64.toNat_ofNat', UInt64.toNat_ofNat'] at numbers
  omega

theorem moved_forward (order : dest.toNat ≤ src.toNat ∨ src.toNat + count ≤ dest.toNat) :
    Moved dest src count m (moveForward m dest src 0 count) := by
  have moved : Moved dest src (0 + count) m (moveForward m dest src 0 count) := by
    refine .moveForward (fun i _ j _ => add_ofNat_inj (by omega) (by omega)) (by simp) (by simp)
      (zero_add count).le (fun j less i before same => ?_) (zero_add count) ⟨by simp, ?_⟩
    · have met := meet dest_fits src_fits (before.trans less) less same
      omega
    · exact fun _ _ => rfl
  rwa [zero_add] at moved

theorem moved_backward (order : src.toNat ≤ dest.toNat) :
    Moved dest src count m (moveBackward m dest src count) := by
  have moved : Moved dest src (0 + count) m (moveBackward m dest src count) := by
    refine .moveBackward (fun i _ j _ => add_ofNat_inj (by omega) (by omega)) (by simp) (by simp)
      (zero_add count).le (fun j less i less' after same => ?_) le_rfl ⟨by simp, ?_⟩
    · have met := meet dest_fits src_fits less' less same
      omega
    · exact fun _ _ => rfl
  rwa [zero_add] at moved

end

section

variable {count : UInt32} (dest_fits : dest.toNat + count.toNat ≤ 2 ^ 64)
  (src_fits : src.toNat + count.toNat ≤ 2 ^ 64)
include dest_fits src_fits

theorem moved_memmove : Moved dest src count.toNat m (memmove m dest src count) := by
  rw [memmove]
  split
  · next same =>
    rcases same with rfl | rfl
    · exact ⟨fun _ _ => rfl, fun _ _ => rfl⟩
    · exact ⟨fun i less => absurd less (Nat.not_lt_zero i), fun _ _ => rfl⟩
  · split
    · next less => exact moved_forward dest_fits src_fits (.inl (UInt64.lt_iff_toNat_lt.mp less).le)
    · next le => exact moved_backward dest_fits src_fits (UInt64.not_lt.mp le)

theorem moved_ulibc (dest_pos : dest ≠ 0) (src_pos : src ≠ 0) :
    ∃ after, Ulibc.memmove m dest src count.toUInt64 = (after, dest) ∧
      Moved dest src count.toNat m after := by
  have up : Ulibc.copyUp m dest src count.toNat = moveForward m dest src 0 count.toNat := by
    simpa using copyUp_eq m dest src 0 count.toNat
  have down := copyDown_eq m dest src count.toNat
  have size : count.toUInt64 = ofNat count.toNat := by simp
  -- The end of the source may be the end of the address space; then `dest` is not above `src`.
  have limit : (src + count.toUInt64).toNat = (src.toNat + count.toNat) % 2 ^ 64 := by simp
  rw [Ulibc.memmove, if_neg (not_or.mpr ⟨dest_pos, src_pos⟩), UInt32.toNat_toUInt64, up, size, down]
  simp only [← size, ge_iff_le, gt_iff_lt, UInt64.lt_iff_toNat_lt, UInt64.le_iff_toNat_le, limit]
  split
  · exact ⟨_, rfl, moved_forward dest_fits src_fits (by omega)⟩
  · split
    · exact ⟨_, rfl, moved_backward dest_fits src_fits (by omega)⟩
    · obtain rfl : dest = src := UInt64.toNat_inj.mp (by omega)
      exact ⟨m, rfl, fun _ _ => rfl, fun _ _ => rfl⟩

/-- Both versions of `memmove` move the bytes, whether or not the ranges overlap. -/
theorem memmoves_agree (dest_pos : dest ≠ 0) (src_pos : src ≠ 0) :
    Ulibc.memmove m dest src count.toUInt64 = (memmove m dest src count, dest) ∧
      Moved dest src count.toNat m (memmove m dest src count) := by
  have kernel : Moved dest src count.toNat m (memmove m dest src count) :=
    moved_memmove dest_fits src_fits
  obtain ⟨after, called, moved⟩ := moved_ulibc (m := m) dest_fits src_fits dest_pos src_pos
  rw [called, moved.unique kernel]
  exact ⟨rfl, kernel⟩

end

theorem memmoves_agree_overlap :
    Ulibc.memmove (·.toUInt8) 0x1001 0x1000 (UInt32.toUInt64 8) =
        (memmove (·.toUInt8) 0x1001 0x1000 8, 0x1001) ∧
      Moved 0x1001 0x1000 8 (·.toUInt8) (memmove (·.toUInt8) 0x1001 0x1000 8) :=
  memmoves_agree (by decide) (by decide) (by decide) (by decide)

/-! ## Strings -/

/-- The first loop of `std::strncpy`.  The test that ends it decrements the counter once more. -/
def copyString (memory : Memory) (dest src : UInt64) : Nat → Memory × UInt64 × UInt32
  | 0 => (memory, dest, 0 - 1)
  | count + 1 =>
    let c := memory src
    if c = 0 then (memory.store dest c, dest + 1, .ofNat count)
    else copyString (memory.store dest c) (dest + 1) (src + 1) count

/-- The second loop of `std::strncpy`. -/
def fillZeros (memory : Memory) (dest : UInt64) : Nat → Memory × UInt64
  | 0 => (memory, dest)
  | count + 1 => fillZeros (memory.store dest 0) (dest + 1) count

/-- `std::strncpy`: the memory, and where `dest` points in the end. -/
def strncpy (memory : Memory) (dest src : UInt64) (count : UInt32) : Memory × UInt64 :=
  let (memory, dest, count) := copyString memory dest src count.toNat
  fillZeros memory dest count.toNat

/-- No byte of a string before this one is the NUL. -/
def InString (memory : Memory) (src : UInt64) (i : Nat) : Prop := ∀ k < i, memory (src + ofNat k) ≠ 0

instance (memory : Memory) (src : UInt64) (i : Nat) : Decidable (InString memory src i) :=
  inferInstanceAs (Decidable (∀ k < i, _))

/-- The first bytes of a field hold a string, with zeros after it, and nothing else has changed. -/
structure Field (dest src : UInt64) (before : Memory) (count : Nat) (after : Memory) : Prop where
  stored : ∀ i < count,
    after (dest + ofNat i) = if InString before src i then before (src + ofNat i) else 0
  kept : ∀ address, (∀ i < count, address ≠ dest + ofNat i) → after address = before address

def FieldWritten (before : Memory) (dest src : UInt64) (count : UInt32) (result : Memory × UInt64) :
    Prop :=
  result.2 = dest + count.toUInt64 ∧ Field dest src before count.toNat result.1

section

variable {n : Nat}

theorem Field.store (field : Field dest src before n m) (small : n < 2 ^ 32) {c : UInt8}
    (byte : c = if InString before src n then before (src + ofNat n) else 0) :
    Field dest src before (n + 1) (m.store (dest + ofNat n) c) where
  stored i less := by
    rcases Nat.lt_succ_iff_lt_or_eq.mp less with old | rfl
    · refine (Function.update_of_ne (fun same => ?_) _ _).trans (field.stored i old)
      exact old.ne (add_ofNat_inj (by omega) (by omega) same)
    · rw [← byte]
      exact Function.update_self ..
  kept address other := by
    rw [Memory.store, Function.update_of_ne (other n n.lt_succ_self)]
    exact field.kept address fun i less => other i (by omega)

theorem fillZeros_stop (count : Nat) :
    (fillZeros m (dest + ofNat n) count).2 = dest + ofNat (n + count) := by
  induction count generalizing m n with
  | zero => rfl
  | succ count ih => rw [fillZeros, add_ofNat_succ, ih, add_right_comm, add_assoc]

theorem Field.fillZeros (field : Field dest src before n m) {count : Nat} (small : n + count < 2 ^ 32)
    (ended : ∃ z < n, before (src + ofNat z) = 0) :
    Field dest src before (n + count) (fillZeros m (dest + ofNat n) count).1 := by
  induction count generalizing n m with
  | zero => exact field
  | succ count ih =>
    obtain ⟨z, less, nul⟩ := ended
    have past : ¬InString before src n := fun inside => inside z less nul
    have more := ih (field.store (by omega) (if_neg past).symm) (by omega) ⟨z, by omega, nul⟩
    rwa [← add_ofNat_succ, add_right_comm] at more

theorem copyString_spec {rest count : Nat} (total : n + rest = count) (small : count < 2 ^ 32)
    (apart : ∀ i < count, InString before src i → ∀ j < count, src + ofNat i ≠ dest + ofNat j)
    (inside : InString before src n) (field : Field dest src before n m) :
    ∃ after stop left,
      copyString m (dest + ofNat n) (src + ofNat n) rest = (after, dest + ofNat stop, left) ∧
      ((∃ z < count, before (src + ofNat z) = 0 ∧ stop = z + 1 ∧ left = .ofNat (count - stop) ∧
        Field dest src before stop after) ∨
      InString before src count ∧ stop = count ∧ left = 0 - 1) := by
  induction rest generalizing n m with
  | zero =>
    obtain rfl : n = count := total
    exact ⟨m, n, _, rfl, .inr ⟨inside, rfl, rfl⟩⟩
  | succ rest ih =>
    have unread : m (src + ofNat n) = before (src + ofNat n) :=
      field.kept _ fun j less => apart n (by omega) inside j (by omega)
    have more := field.store (by omega) (if_pos inside).symm
    rw [copyString, unread, add_ofNat_succ, add_ofNat_succ]
    split
    · next nul =>
      refine ⟨_, n + 1, _, rfl, .inl ⟨n, by omega, nul, rfl, ?_, more⟩⟩
      rw [← total, Nat.add_sub_add_left, Nat.add_sub_cancel]
    · next nonzero =>
      refine ih (by omega) (fun k less => ?_) more
      rcases Nat.lt_succ_iff_lt_or_eq.mp less with old | rfl
      · exact inside k old
      · exact nonzero

/-- The field is filled exactly if and only if the string ends in it. -/
theorem strncpy_exact_iff (before : Memory) (dest src : UInt64) (count : UInt32)
    (apart : ∀ i < count.toNat, InString before src i → ∀ j < count.toNat,
      src + ofNat i ≠ dest + ofNat j) :
    FieldWritten before dest src count (strncpy before dest src count) ↔
      ∃ i < count.toNat, before (src + ofNat i) = 0 := by
  have small := count.toNat_lt
  have spec := copyString_spec (n := 0) (Nat.zero_add _) small apart nofun ⟨nofun, fun _ _ => rfl⟩
  simp only [show ∀ a : UInt64, a + ofNat 0 = a from fun a => UInt64.add_zero a] at spec
  obtain ⟨after, stop, left, called, ended⟩ := spec
  have size : count.toUInt64 = ofNat count.toNat := by simp
  simp only [FieldWritten, strncpy, called, fillZeros_stop, size]
  rcases ended with ⟨z, less, nul, rfl, rfl, field⟩ | ⟨inside, rfl, rfl⟩
  · have counter : (UInt32.ofNat (count.toNat - (z + 1))).toNat = count.toNat - (z + 1) := by
      rw [UInt32.toNat_ofNat']
      omega
    have all : z + 1 + (count.toNat - (z + 1)) = count.toNat := by omega
    have filled := field.fillZeros (all ▸ small) ⟨z, z.lt_succ_self, nul⟩
    rw [all] at filled
    rw [counter, all]
    exact iff_of_true ⟨rfl, filled⟩ ⟨z, less, nul⟩
  · have wrapped : (0 - 1 : UInt32).toNat = 2 ^ 32 - 1 := rfl
    rw [wrapped]
    refine iff_of_false (fun written => ?_) fun ⟨i, less, nul⟩ => inside i less nul
    have same := add_ofNat_inj (by omega) (by omega) written.1
    omega

end

def fileName (length : Nat) : Memory := fun a =>
  if 0x1000 ≤ a ∧ a < 0x1000 + ofNat length then 0x61 else 0

theorem strncpy_exact_short :
    FieldWritten (fileName 13) 0x2000 0x1000 14 (strncpy (fileName 13) 0x2000 0x1000 14) := by
  refine (strncpy_exact_iff _ _ _ _ fun i less _ j less' same => ?_).mpr ⟨13, by decide, by decide⟩
  have numbers := congrArg UInt64.toNat same
  have count : (14 : UInt32).toNat = 14 := rfl
  simp at numbers
  omega

/-- A name of 14 bytes is followed by four gigabytes of zeros. -/
theorem strncpy_overruns :
    ¬FieldWritten (fileName 14) 0x2000 0x1000 14 (strncpy (fileName 14) 0x2000 0x1000 14) := by
  obtain ⟨after, copied⟩ : ∃ after, copyString (fileName 14) 0x2000 0x1000 (14 : UInt32).toNat =
      (after, 0x2000 + ofNat 14, 0 - 1) := ⟨_, rfl⟩
  rintro ⟨stop, -⟩
  simp only [strncpy, copied, fillZeros_stop] at stop
  exact absurd stop (by decide)

end Vm
end OsCpp
