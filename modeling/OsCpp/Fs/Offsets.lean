import OsCpp.Fs.Faults

/-!
# Processes that share an open file

`file::read` and `file::write` by any number of processes on one `struct file`, which they have from
`dup` or `fork`.  A read, and each chunk of a write, is one step under the lock of the inode; between
them the inode may be changed through other open files.
-/

namespace OsCpp.Offsets

open Faults (File Memory)

structure State (Pid : Type) where
  file : File
  /-- Calls of `file::write` in progress: address and number of bytes, and how many are written. -/
  writing : Pid → Option (Nat × Nat × Nat) := fun _ => none
  /-- History: the intervals that were read or written, the latest first, as start and length. -/
  used : List (Nat × Nat) := []

inductive Event (Pid : Type)
  | read (p : Pid) (memory : Memory) (addr : Nat) (n : Int)
  | write (p : Pid) (addr : Nat) (n : Int)
  /-- The loop of `file::write` goes on. -/
  | chunk (p : Pid) (memory : Memory)
  /-- The inode is changed by others. -/
  | other (size : UInt32) (data : Nat → UInt8) (found : Nat → Bool)

variable {Pid : Type} [DecidableEq Pid]

/-- A transfer at the offset of the file: the file has been moved on, the interval is remembered. -/
def State.transfer (s : State Pid) (file : File) (r : Int) : State Pid :=
  { s with file, used := if 0 < r then (s.file.off, r.toNat) :: s.used else s.used }

def step (s : State Pid) : Event Pid → Option (State Pid)
  | .read p memory addr n =>
    if s.writing p = none then
      (Faults.read s.file memory addr n).map fun (file, _, rs) => s.transfer file rs
    else none
  | .write p addr n =>
    if s.writing p = none ∧ s.file.writable then
      some { s with writing := Function.update s.writing p (some (addr, n.toNat, 0)) }
    else none
  | .chunk p memory =>
    (s.writing p).bind fun (addr, n, i) =>
      if i < n then
        let n1 := min (n - i) Fs.maxWrite
        (Faults.writei s.file (.user memory (addr + i)) s.file.off n1).map fun (file, r) =>
          { s.transfer (if 0 < r then { file with off := file.off + r.toNat } else file) r with
            writing := Function.update s.writing p (if r ≠ n1 then none else some (addr, n, i + n1)) }
      else some { s with writing := Function.update s.writing p none }
  | .other size data found =>
    some { s with file := { s.file with size := size.toNat, data, found } }

/-- Intervals, the latest first, that follow one another from `low` to `high`. -/
def Tiles (low : Nat) : Nat → List (Nat × Nat) → Prop
  | high, [] => high = low
  | high, (start, length) :: rest => start + length = high ∧ Tiles low start rest

section

variable {low high : Nat} {used : List (Nat × Nat)}

section

variable (tiles : Tiles low high used)
include tiles

theorem Tiles.le : low ≤ high := by
  induction used generalizing high with
  | nil => exact tiles.ge
  | cons interval rest ih => exact (ih tiles.2).trans (tiles.1 ▸ le_self_add)

theorem Tiles.mem_iff (x : Nat) : (∃ c ∈ used, c.1 ≤ x ∧ x < c.1 + c.2) ↔ low ≤ x ∧ x < high := by
  induction used generalizing high with
  | nil =>
    have same : high = low := tiles
    simp [same]
  | cons interval rest ih =>
    obtain ⟨here, tiles⟩ := tiles
    have below := tiles.le
    simp only [List.mem_cons, exists_eq_or_imp, ih tiles]
    omega

theorem Tiles.ends_le : ∀ c ∈ used, c.1 + c.2 ≤ high := by
  induction used generalizing high with
  | nil => simp
  | cons interval rest ih =>
    rintro c (_ | ⟨_, member⟩)
    · exact tiles.1.le
    · exact (ih tiles.2 c member).trans (tiles.1 ▸ le_self_add)

theorem Tiles.pairwise : used.Pairwise fun later earlier => earlier.1 + earlier.2 ≤ later.1 := by
  induction used generalizing high with
  | nil => exact .nil
  | cons interval rest ih => exact .cons tiles.2.ends_le (ih tiles.2)

end

end

/-- The intervals used so far lead from an offset to that of the file. -/
def Tiled (low : Nat) (s : State Pid) : Prop := Tiles low s.file.off s.used

omit [DecidableEq Pid] in
theorem tiles_transfer {s : State Pid} {low : Nat} (tiles : Tiled low s) {file : File} {r : Int}
    (moved : file.off = s.file.off + r.toNat) : Tiled low (s.transfer file r) := by
  simp only [Tiled, State.transfer]
  split
  · exact ⟨moved.symm, tiles⟩
  · next none =>
    rw [moved, Int.toNat_of_nonpos (Int.not_lt.mp none)]
    exact tiles

theorem tiles_step {s t : State Pid} {low : Nat} {event : Event Pid} (tiles : Tiled low s)
    (taken : step s event = some t) : Tiled low t := by
  cases event with
  | read p memory addr n =>
    obtain ⟨-, taken⟩ := Option.ite_none_right_eq_some.mp taken
    obtain ⟨⟨file, after, rs⟩, ran, rfl⟩ := Option.map_eq_some_iff.mp taken
    exact tiles_transfer tiles (Faults.read_spec ran).2
  | write p addr n =>
    obtain ⟨-, taken⟩ := Option.ite_none_right_eq_some.mp taken
    cases taken
    exact tiles
  | chunk p memory =>
    obtain ⟨⟨addr, n, i⟩, -, taken⟩ := Option.bind_eq_some_iff.mp taken
    dsimp only at taken
    split at taken
    · obtain ⟨⟨file, r⟩, ran, rfl⟩ := Option.map_eq_some_iff.mp taken
      refine tiles_transfer tiles ?_
      have same := (Faults.writei_spec ran).1
      split
      · exact congrArg (· + r.toNat) same
      · next none =>
        rw [Int.toNat_of_nonpos (Int.not_lt.mp none)]
        exact same
    · cases taken
      exact tiles
  | other size data found =>
    cases taken
    exact tiles

end OsCpp.Offsets
