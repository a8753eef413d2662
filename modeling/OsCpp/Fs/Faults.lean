import OsCpp.Console.Machine
import OsCpp.Fs.Syscall

/-!
# Faults in user buffers

`file::read`, `file::write` and `console::read` together with the bytes they move.  A file is seen
here as its bytes: which block of the disk holds them is a matter of `bmap`, of which only the
answers are kept.  `vm::copyin` and `vm::copyout` stop at the first page that is not accessible and
return `bool`; `either_copyin` and `either_copyout` return that value as `int`, and their callers
compare it with -1.
-/

namespace OsCpp.Faults

open Fs (Source maxWrite)

/-- User memory, as far as it is accessible. -/
abbrev Memory := Nat → Option UInt8

/-- An open file on an inode. -/
structure File where
  readable : Bool := true
  writable : Bool := true
  off : Nat := 0
  size : Nat := 0
  data : Nat → UInt8 := fun _ => 0
  /-- Blocks that `bmap` finds or gets. -/
  found : Nat → Bool := fun _ => true

/-- `bmap`: is there a block?  Beyond `addrs` it has no defined behaviour, or panics. -/
def File.bmap (f : File) (bn : Nat) : Option Bool :=
  if bn ≤ NDIRECT then some (f.found bn) else none

/-- Store bytes at a position. -/
def splice (data : Nat → UInt8) (position : Nat) (bytes : List UInt8) (index : Nat) : UInt8 :=
  if position ≤ index then (bytes[index - position]?).getD (data index) else data index

/-- `either_copyout` to user memory: the memory and the value returned. -/
def copyout (memory : Memory) (addr : Nat) : List UInt8 → Memory × Int
  | [] => (memory, 1)
  | byte :: bytes =>
    match memory addr with
    | none => (memory, 0)
    | some _ => copyout (Function.update memory addr (some byte)) (addr + 1) bytes

/-- The loop of `readi`. -/
def readBlocks (f : File) (addr n : Nat) : Nat → Nat → Nat → Memory → Option (Nat × Memory)
  | 0, _, tot, memory => some (tot, memory)
  | fuel + 1, offset, tot, memory =>
    if tot < n then do
      let found ← f.bmap (offset / BSIZE)
      if found then
        let m := min (n - tot) (BSIZE - offset % BSIZE)
        let (memory, result) :=
          copyout memory (addr + tot) ((List.range m).map fun i => f.data (offset + i))
        if result = -1 then some (2 ^ 32 - 1, memory)
        else readBlocks f addr n fuel (offset + m) (tot + m) memory
      else some (tot, memory)
    else some (tot, memory)

def readi (f : File) (memory : Memory) (addr offset n : Nat) : Option (Nat × Memory) :=
  if f.size < offset ∨ (offset + n) % 2 ^ 32 < offset then some (0, memory)
  else
    let n := if f.size < offset + n then f.size - offset else n
    readBlocks f addr n n offset 0 memory

/-- `file::read`: the file, the memory and the value returned. -/
def read (f : File) (memory : Memory) (addr : Nat) (n : Int) : Option (File × Memory × Int) :=
  if f.readable then do
    let (tot, memory) ← readi f memory addr f.off (n % 2 ^ 32).toNat
    let rs := Fs.toInt tot
    some (if 0 < rs then { f with off := f.off + rs.toNat } else f, memory, rs)
  else some (f, memory, -1)

/-- The loop of `writei`: the file, the offset reached and the total. -/
def writeBlocks (src : Source) (n : Nat) : Nat → Nat → Nat → File → Option (File × Nat × Nat)
  | 0, offset, tot, f => some (f, offset, tot)
  | fuel + 1, offset, tot, f =>
    if tot < n then do
      let found ← f.bmap (offset / BSIZE)
      if found then
        let m := min (n - tot) (BSIZE - offset % BSIZE)
        let (bytes, result) := src.copyin tot m
        let f := { f with data := splice f.data offset bytes }
        if result = -1 then some (f, offset, tot)
        else writeBlocks src n fuel (offset + m) (tot + m) f
      else some (f, offset, tot)
    else some (f, offset, tot)

def writei (f : File) (src : Source) (offset n : Nat) : Option (File × Int) :=
  if f.size < offset ∨ (offset + n) % 2 ^ 32 < offset then some (f, -1)
  else if MAXFILE * BSIZE < (offset + n) % 2 ^ 32 then some (f, -1)
  else do
    let (f, offset, tot) ← writeBlocks src n n offset 0 f
    some (if f.size < offset then { f with size := offset } else f, tot)

/-- The loop of `file::write`: the file and the number of bytes written. -/
def writeChunks (memory : Memory) (addr n : Nat) : Nat → Nat → File → Option (File × Nat)
  | 0, i, f => some (f, i)
  | fuel + 1, i, f =>
    if i < n then do
      let n1 := min (n - i) maxWrite
      let (f, r) ← writei f (.user memory (addr + i)) f.off n1
      let f := if 0 < r then { f with off := f.off + r.toNat } else f
      if r ≠ n1 then some (f, i) else writeChunks memory addr n fuel (i + n1) f
    else some (f, i)

/-- `file::write`: the file and the value returned. -/
def write (f : File) (memory : Memory) (addr : Nat) (n : Int) : Option (File × Int) :=
  if f.writable then do
    let (f, i) ← writeChunks memory addr n.toNat n.toNat 0 f
    some (f, if (i : Int) = n then n else -1)
  else some (f, -1)

/-- The loop of `console::read`, with `n` of `target` bytes to go; when no more come, the process is
killed. -/
def consoleLoop (target : Nat) : Nat → Nat → List UInt8 → Memory → Memory × Int
  | _, 0, _, memory => (memory, target)
  | _, _ + 1, [], memory => (memory, -1)
  | dst, n + 1, c :: input, memory =>
    if c = Console.ctrl 'D' then (memory, target - (n + 1 : Nat))
    else
      let (memory, result) := copyout memory dst [c]
      if result = -1 then (memory, target - (n + 1 : Nat))
      else if c = Console.newline then (memory, target - n)
      else consoleLoop target (dst + 1) n input memory

/-- `console::read`: the memory and the value returned. -/
def consoleRead (input : List UInt8) (memory : Memory) (addr : Nat) (n : Int) : Memory × Int :=
  consoleLoop n.toNat addr n.toNat input memory

/-! ## Copying -/

section

variable {memory : Memory} {addr : Nat} {bytes : List UInt8}

theorem copyout_ne (memory : Memory) (addr : Nat) (bytes : List UInt8) :
    (copyout memory addr bytes).2 ≠ -1 := by
  induction bytes generalizing memory addr with
  | nil => simp [copyout]
  | cons byte bytes ih =>
    rw [copyout]
    split
    · simp
    · exact ih _ _

/-- What is accessible stays so, and what is not as well. -/
theorem copyout_eq_none_iff (memory : Memory) (addr : Nat) (bytes : List UInt8) (a : Nat) :
    (copyout memory addr bytes).1 a = none ↔ memory a = none := by
  induction bytes generalizing memory addr with
  | nil => simp [copyout]
  | cons byte bytes ih =>
    rw [copyout]
    split
    · rfl
    · next old here =>
      rw [ih]
      rcases eq_or_ne a addr with rfl | other
      · simp [here]
      · rw [Function.update_of_ne other]

/-- Addresses before the buffer keep their bytes. -/
theorem copyout_below {a : Nat} (below : a < addr) :
    (copyout memory addr bytes).1 a = memory a := by
  induction bytes generalizing memory addr with
  | nil => simp [copyout]
  | cons byte bytes ih =>
    rw [copyout]
    split
    · rfl
    · rw [ih (by omega), Function.update_of_ne (by omega)]

theorem copyout_stored (accessible : ∀ i < bytes.length, memory (addr + i) ≠ none) {i : Nat}
    (inside : i < bytes.length) : (copyout memory addr bytes).1 (addr + i) = bytes[i]? := by
  induction bytes generalizing memory addr i with
  | nil => simp at inside
  | cons byte bytes ih =>
    rw [copyout]
    split
    · next fault => exact absurd fault (accessible 0 (by simp))
    · cases i with
      | zero =>
        rw [copyout_below (by omega), add_zero, Function.update_self, List.getElem?_cons_zero]
      | succ i =>
        rw [List.length_cons, Nat.add_lt_add_iff_right] at inside
        rw [show addr + (i + 1) = addr + 1 + i by omega, List.getElem?_cons_succ]
        refine ih (fun j inside => ?_) inside
        rw [Function.update_of_ne (by omega), show addr + 1 + j = addr + (j + 1) by omega]
        exact accessible (j + 1) (by simpa using inside)

end

variable {addr : Nat} {f : File} {memory : Memory}

theorem copyin_accessible {n : Nat}
    (accessible : ∀ i < n, memory (addr + i) ≠ none) {i : Nat} (inside : i < n) :
    (Fs.copyin memory addr n)[i]? = memory (addr + i) := by
  induction n generalizing addr i with
  | zero => omega
  | succ n ih =>
    rw [Fs.copyin]
    split
    · next fault => exact absurd fault (accessible 0 (by omega))
    · next byte here =>
      cases i with
      | zero => rw [List.getElem?_cons_zero, add_zero, here]
      | succ i =>
        rw [List.getElem?_cons_succ, show addr + (i + 1) = addr + 1 + i by omega]
        refine ih (fun j inside => ?_) (by omega)
        rw [show addr + 1 + j = addr + (j + 1) by omega]
        exact accessible (j + 1) (by omega)

theorem splice_below {data : Nat → UInt8} {position : Nat} {bytes : List UInt8} {i : Nat}
    (below : i < position) : splice data position bytes i = data i := if_neg (by omega)

theorem splice_at {data : Nat → UInt8} {position : Nat} {bytes : List UInt8} {i : Nat} {byte : UInt8}
    (here : bytes[i]? = some byte) : splice data position bytes (position + i) = byte := by
  rw [splice, if_pos le_self_add, Nat.add_sub_cancel_left, here]
  rfl

theorem copyin_ne (memory : Memory) (addr tot m : Nat) : ((Source.user memory addr).copyin tot m).2 ≠ -1 := by
  simp only [Source.copyin]
  split <;> simp

/-! ## Reading -/

/-- `k` bytes are moved to an address. -/
structure Moved (source : Nat → Option UInt8) (addr k : Nat) (memory memory' : Memory) : Prop where
  accessible : ∀ a, memory' a = none ↔ memory a = none
  below : ∀ a < addr, memory' a = memory a
  stored : (∀ i < k, memory (addr + i) ≠ none) → ∀ i < k, memory' (addr + i) = source i

namespace Moved

variable {source : Nat → Option UInt8} {addr m k : Nat} {memory memory₁ memory₂ : Memory}

theorem nil : Moved source addr 0 memory memory :=
  ⟨fun _ => .rfl, fun _ _ => rfl, fun _ _ inside => absurd inside not_lt_zero⟩

theorem copyout {bytes : List UInt8} (length : bytes.length = m) (same : ∀ i < m, bytes[i]? = source i) :
    Moved source addr m memory (Faults.copyout memory addr bytes).1 := by
  subst length
  refine ⟨copyout_eq_none_iff _ _ _, fun a => copyout_below, fun accessible i inside => ?_⟩
  rw [copyout_stored accessible inside, same i inside]

theorem trans (first : Moved source addr m memory memory₁)
    (rest : Moved (fun i => source (m + i)) (addr + m) k memory₁ memory₂) :
    Moved source addr (m + k) memory memory₂ := by
  refine ⟨fun a => (rest.accessible a).trans (first.accessible a), fun a below => ?_,
    fun accessible i inside => ?_⟩
  · rw [rest.below a (by omega), first.below a below]
  · rcases lt_or_ge i m with near | far
    · rw [rest.below _ (by omega)]
      exact first.stored (fun j inside => accessible j (by omega)) i near
    · obtain ⟨j, rfl⟩ := Nat.exists_eq_add_of_le far
      rw [← add_assoc]
      refine rest.stored (fun j inside fault => ?_) j (by omega)
      rw [first.accessible, add_assoc] at fault
      exact accessible (m + j) (by omega) fault

theorem forget (moved : Moved source addr k memory memory₁) : Moved source addr 0 memory memory₁ :=
  ⟨moved.accessible, moved.below, fun _ _ inside => absurd inside not_lt_zero⟩

/-- All bytes have been stored exactly if all addresses are accessible. -/
theorem stored_iff (moved : Moved source addr k memory memory₁) (bytes : ∀ i < k, source i ≠ none) :
    (∀ i < k, memory₁ (addr + i) = source i) ↔ ∀ i < k, memory (addr + i) ≠ none := by
  refine ⟨fun stored i inside fault => bytes i inside ?_, moved.stored⟩
  rw [← stored i inside, moved.accessible, fault]

end Moved

def File.bytes (f : File) (offset i : Nat) : Option UInt8 := some (f.data (offset + i))

theorem File.bytes_add (f : File) (offset m : Nat) :
    (fun i => f.bytes offset (m + i)) = f.bytes (offset + m) := by
  funext i
  rw [File.bytes, File.bytes, add_assoc]

theorem Moved.block (f : File) (offset addr m : Nat) (memory : Memory) :
    Moved (f.bytes offset) addr m memory
      (Faults.copyout memory addr ((List.range m).map fun i => f.data (offset + i))).1 := by
  refine .copyout (by rw [List.length_map, List.length_range]) fun i inside => ?_
  rw [List.getElem?_map, List.getElem?_range inside]
  rfl

theorem readBlocks_spec {n fuel offset tot total : Nat} {memory' : Memory}
    (ran : readBlocks f addr n fuel offset tot memory = some (total, memory')) :
    ∃ k ≤ n - tot, total = tot + k ∧ (k ≠ 0 → offset + k ≤ (NDIRECT + 1) * BSIZE) ∧
      Moved (f.bytes offset) (addr + tot) k memory memory' := by
  induction fuel generalizing offset tot memory with
  | zero =>
    cases ran
    exact ⟨0, zero_le, rfl, fun some => absurd rfl some, .nil⟩
  | succ fuel ih =>
    rw [readBlocks] at ran
    split at ran
    · next wanted =>
      obtain ⟨found, mapped, ran⟩ := Option.bind_eq_some_iff.mp ran
      have small : offset / BSIZE ≤ NDIRECT := (Option.ite_none_right_eq_some.mp mapped).1
      cases found with
      | false =>
        cases ran
        exact ⟨0, zero_le, rfl, fun some => absurd rfl some, .nil⟩
      | true =>
        rw [if_pos rfl] at ran
        dsimp only at ran
        rw [if_neg (copyout_ne _ _ _)] at ran
        obtain ⟨k, few, total_eq, limit, moved⟩ := ih ran
        refine ⟨min (n - tot) (BSIZE - offset % BSIZE) + k, by omega,
          total_eq.trans (add_assoc _ _ _), fun _ => ?_,
          (Moved.block f offset (addr + tot) _ memory).trans ?_⟩
        · have block : offset + (BSIZE - offset % BSIZE) ≤ (NDIRECT + 1) * BSIZE := by
            simp only [BSIZE, NDIRECT] at small ⊢
            omega
          omega
        · rwa [add_assoc, f.bytes_add]
    · cases ran
      exact ⟨0, zero_le, rfl, fun some => absurd rfl some, .nil⟩

theorem readi_spec {n offset total : Nat} {memory' : Memory}
    (ran : readi f memory addr offset n = some (total, memory')) :
    total ≤ (NDIRECT + 1) * BSIZE ∧ Moved (f.bytes offset) addr total memory memory' := by
  rw [readi] at ran
  split at ran
  · cases ran
    exact ⟨zero_le, .nil⟩
  · obtain ⟨k, -, rfl, limit, moved⟩ := readBlocks_spec ran
    rw [zero_add]
    refine ⟨?_, moved⟩
    rcases Nat.eq_zero_or_pos k with rfl | some
    · exact zero_le
    · have within := limit some.ne'
      omega

theorem toInt_of_small {n : Nat} (small : n ≤ (NDIRECT + 1) * BSIZE) : Fs.toInt n = n := by
  simp only [NDIRECT, BSIZE] at small
  rw [Fs.toInt, BitVec.toInt_ofNat', Int.bmod_def]
  omega

theorem read_spec {f' : File} {memory' : Memory} {n rs : Int}
    (ran : read f memory addr n = some (f', memory', rs)) :
    Moved (f.bytes f.off) addr rs.toNat memory memory' ∧ f'.off = f.off + rs.toNat := by
  rw [read] at ran
  split at ran
  · obtain ⟨⟨total, after⟩, moving, ran⟩ := Option.bind_eq_some_iff.mp ran
    obtain ⟨small, moved⟩ := readi_spec moving
    simp only [toInt_of_small small] at ran
    cases ran
    refine ⟨moved, ?_⟩
    split
    · rfl
    · next none_moved =>
      have zero : total = 0 := by omega
      simp [zero]
  · cases ran
    exact ⟨.nil, rfl⟩

/-! ## Writing -/

/-- `k` bytes at an address are written to a file from an offset on. -/
structure Written (memory : Memory) (addr offset k : Nat) (data data' : Nat → UInt8) : Prop where
  below : ∀ i < offset, data' i = data i
  stored : (∀ i < k, memory (addr + i) ≠ none) →
    ∀ i < k, memory (addr + i) = some (data' (offset + i))

namespace Written

variable {memory : Memory} {addr offset m k : Nat} {data data₁ data₂ : Nat → UInt8}

theorem nil : Written memory addr offset 0 data data :=
  ⟨fun _ _ => rfl, fun _ _ inside => absurd inside not_lt_zero⟩

theorem block : Written memory addr offset m data (splice data offset (Fs.copyin memory addr m)) := by
  refine ⟨fun i => splice_below, fun accessible i inside => ?_⟩
  have found := copyin_accessible accessible inside
  cases here : memory (addr + i) with
  | none => exact absurd here (accessible i inside)
  | some byte => rw [splice_at (found.trans here)]

theorem trans (first : Written memory addr offset m data data₁)
    (rest : Written memory (addr + m) (offset + m) k data₁ data₂) :
    Written memory addr offset (m + k) data data₂ := by
  refine ⟨fun i below => ?_, fun accessible i inside => ?_⟩
  · rw [rest.below i (by omega), first.below i below]
  · rcases lt_or_ge i m with near | far
    · rw [rest.below _ (by omega)]
      exact first.stored (fun j inside => accessible j (by omega)) i near
    · obtain ⟨j, rfl⟩ := Nat.exists_eq_add_of_le far
      rw [← add_assoc, ← add_assoc]
      refine rest.stored (fun j inside => ?_) j (by omega)
      rw [add_assoc]
      exact accessible (m + j) (by omega)

end Written

theorem writeBlocks_spec {n fuel offset tot offset' total : Nat} {f' : File}
    (ran : writeBlocks (.user memory addr) n fuel offset tot f = some (f', offset', total)) :
    f'.off = f.off ∧
      ∃ k ≤ n - tot, total = tot + k ∧ Written memory (addr + tot) offset k f.data f'.data := by
  induction fuel generalizing offset tot f with
  | zero =>
    cases ran
    exact ⟨rfl, 0, zero_le, rfl, .nil⟩
  | succ fuel ih =>
    rw [writeBlocks] at ran
    split at ran
    · next wanted =>
      obtain ⟨found, -, ran⟩ := Option.bind_eq_some_iff.mp ran
      cases found with
      | false =>
        cases ran
        exact ⟨rfl, 0, zero_le, rfl, .nil⟩
      | true =>
        rw [if_pos rfl] at ran
        dsimp only at ran
        rw [if_neg (copyin_ne _ _ _ _)] at ran
        obtain ⟨off, k, few, total_eq, written⟩ := ih ran
        refine ⟨off, _, ?_, total_eq.trans (add_assoc _ _ _), Written.block.trans ?_⟩
        · omega
        · rwa [add_assoc]
    · cases ran
      exact ⟨rfl, 0, zero_le, rfl, .nil⟩

theorem writei_spec {n offset : Nat} {f' : File} {r : Int}
    (ran : writei f (.user memory addr) offset n = some (f', r)) :
    f'.off = f.off ∧ (r = -1 ∧ f'.data = f.data ∨
      ∃ k ≤ n, r = k ∧ Written memory addr offset k f.data f'.data) := by
  rw [writei] at ran
  split at ran
  · cases ran
    exact ⟨rfl, .inl ⟨rfl, rfl⟩⟩
  · split at ran
    · cases ran
      exact ⟨rfl, .inl ⟨rfl, rfl⟩⟩
    · obtain ⟨⟨after, offset', total⟩, wrote, ran⟩ := Option.bind_eq_some_iff.mp ran
      obtain ⟨off, k, few, rfl, written⟩ := writeBlocks_spec wrote
      cases ran
      split
      · exact ⟨off, .inr ⟨k, few, by rw [zero_add], written⟩⟩
      · exact ⟨off, .inr ⟨k, few, by rw [zero_add], written⟩⟩

theorem writeChunks_spec {n fuel i i' : Nat} {f' : File} (enough : n - i ≤ fuel)
    (partly : i ≤ n) (ran : writeChunks memory addr n fuel i f = some (f', i')) :
    ∃ k ≤ n - i, f'.off = f.off + k ∧ (i' = n ↔ k = n - i) ∧
      Written memory (addr + i) f.off k f.data f'.data := by
  induction fuel generalizing i f with
  | zero =>
    cases ran
    exact ⟨0, zero_le, rfl, by omega, .nil⟩
  | succ fuel ih =>
    rw [writeChunks] at ran
    split at ran
    · next wanted =>
      have some_bytes : 1 ≤ min (n - i) maxWrite := by
        simp only [maxWrite, MAXOPBLOCKS, BSIZE]
        omega
      generalize chunk : min (n - i) maxWrite = n1 at ran some_bytes
      obtain ⟨⟨g, r⟩, wrote, ran⟩ := Option.bind_eq_some_iff.mp ran
      dsimp only at ran
      obtain ⟨off, ⟨rfl, data⟩ | ⟨k, few, rfl, written⟩⟩ := writei_spec wrote
      · rw [if_pos (by omega), if_neg (by omega)] at ran
        cases ran
        exact ⟨0, zero_le, off, by omega, data ▸ .nil⟩
      · have moved : (if 0 < (k : Int) then { g with off := g.off + (k : Int).toNat } else g) =
            { g with off := f.off + k } := by
          split
          · rw [off, Int.toNat_natCast]
          · next none_written =>
            obtain rfl : k = 0 := by omega
            rw [add_zero, ← off]
        rw [moved] at ran
        split at ran
        · next fewer =>
          cases ran
          exact ⟨k, by omega, rfl, by omega, written⟩
        · next whole =>
          obtain rfl : k = n1 := by omega
          obtain ⟨rest, fewer, off', all, written'⟩ := ih (by omega) (by omega) ran
          refine ⟨k + rest, by omega, off'.trans (add_assoc _ _ _), by omega, written.trans ?_⟩
          rwa [add_assoc]
    · cases ran
      exact ⟨0, zero_le, rfl, by omega, .nil⟩

theorem write_spec {f' : File} {n rs : Int} (ran : write f memory addr n = some (f', rs)) :
    ∃ k ≤ n.toNat, f'.off = f.off + k ∧ (rs = -1 ∨ rs = n ∧ k = n.toNat) ∧
      Written memory addr f.off k f.data f'.data := by
  rw [write] at ran
  split at ran
  · obtain ⟨⟨g, i⟩, wrote, ran⟩ := Option.bind_eq_some_iff.mp ran
    obtain ⟨k, few, off, all, written⟩ := writeChunks_spec (Nat.sub_le _ _) zero_le wrote
    cases ran
    refine ⟨k, few, off, ?_, written⟩
    split
    · exact .inr ⟨rfl, all.mp (by omega)⟩
    · exact .inl rfl
  · cases ran
    exact ⟨0, zero_le, rfl, .inl rfl, .nil⟩

/-! ## The console -/

theorem consoleLoop_spec (dst : Nat) (input : List UInt8) (memory : Memory) {target n : Nat}
    (le : n ≤ target) :
    ∃ k ≤ n, k ≤ input.length ∧ ((consoleLoop target dst n input memory).2 = -1 ∨
        (consoleLoop target dst n input memory).2 = (target - n + k : Nat)) ∧
      Moved (input[·]?) dst k memory (consoleLoop target dst n input memory).1 := by
  induction input generalizing dst n memory with
  | nil =>
    cases n with
    | zero => exact ⟨0, le_rfl, zero_le, .inr rfl, .nil⟩
    | succ n => exact ⟨0, zero_le, zero_le, .inl rfl, .nil⟩
  | cons c input ih =>
    cases n with
    | zero => exact ⟨0, le_rfl, zero_le, .inr rfl, .nil⟩
    | succ n =>
      rw [consoleLoop]
      split
      · exact ⟨0, zero_le, zero_le, .inr (by simp; omega), .nil⟩
      · dsimp only
        rw [if_neg (copyout_ne _ _ _)]
        have byte : Moved ((c :: input)[·]?) dst 1 memory (copyout memory dst [c]).1 :=
          .copyout rfl fun i inside => by
            obtain rfl : i = 0 := by omega
            rfl
        split
        · exact ⟨1, by omega, by simp, .inr (by omega), byte⟩
        · obtain ⟨k, few, short, result, moved⟩ :=
            ih (dst + 1) (copyout memory dst [c]).1 (show n ≤ target by omega)
          refine ⟨1 + k, by omega, by simp; omega, result.imp_right fun value => ?_, byte.trans ?_⟩
          · rw [value]
            omega
          · simpa only [add_comm 1, List.getElem?_cons_succ] using moved

theorem consoleRead_spec (input : List UInt8) (memory : Memory) (addr : Nat) (n : Int) :
    (consoleRead input memory addr n).2.toNat ≤ input.length ∧
      Moved (input[·]?) addr (consoleRead input memory addr n).2.toNat memory
        (consoleRead input memory addr n).1 := by
  obtain ⟨k, few, short, killed | value, moved⟩ :=
    consoleLoop_spec addr input memory (le_refl n.toNat)
  · rw [consoleRead, killed]
    exact ⟨zero_le, moved.forget⟩
  · rw [consoleRead, value, Nat.sub_self, zero_add, Int.toNat_natCast]
    exact ⟨short, moved⟩

/-! ## Reports -/

/-- A call says truly how many bytes it has moved, and the offset has advanced by `advance`. -/
structure ReadReports (source : Nat → Option UInt8) (memory memory' : Memory) (addr : Nat) (n rs : Int)
    (advance : Nat) : Prop where
  stored : ∀ i < rs.toNat, memory' (addr + i) = source i
  stops : ∀ i < n.toNat, memory (addr + i) = none → rs ≤ i ∧ advance ≤ i

/-- `file::write` reports success only for accessible bytes that the file has got, and does not get
past a fault. -/
structure WriteReports (f f' : File) (memory : Memory) (addr : Nat) (n rs : Int) : Prop where
  whole : rs = n → ∀ i < n.toNat,
    memory (addr + i) ≠ none ∧ memory (addr + i) = some (f'.data (f.off + i))
  stops : ∀ i < n.toNat, memory (addr + i) = none → rs ≤ i ∧ f'.off ≤ f.off + i

theorem Moved.reports_iff {source : Nat → Option UInt8} {memory' : Memory} {n rs : Int}
    {advance : Nat} (moved : Moved source addr rs.toNat memory memory')
    (bytes : ∀ i < rs.toNat, source i ≠ none) (le : advance ≤ rs.toNat) :
    ReadReports source memory memory' addr n rs advance ↔
      ∀ i < rs.toNat, memory (addr + i) ≠ none := by
  rw [← moved.stored_iff bytes]
  refine ⟨fun reports => reports.stored, fun stored => ⟨stored, fun i _ fault => ?_⟩⟩
  have before : rs.toNat ≤ i := by
    by_contra reached
    exact (moved.stored_iff bytes).mp stored i (by omega) fault
  omega

theorem Written.reports_iff {f' : File} {k : Nat} {n rs : Int}
    (written : Written memory addr f.off k f.data f'.data) (off : f'.off = f.off + k)
    (le : k ≤ n.toNat) (result : rs = -1 ∨ rs = n ∧ k = n.toNat) :
    WriteReports f f' memory addr n rs ↔ ∀ i < f'.off - f.off, memory (addr + i) ≠ none := by
  rw [off, Nat.add_sub_cancel_left]
  constructor
  · intro reports i inside fault
    have stopped := (reports.stops i (by omega) fault).2
    omega
  · intro accessible
    refine ⟨fun returned i inside => ?_, fun i inside fault => ?_⟩
    · have all : k = n.toNat := by omega
      exact ⟨accessible i (by omega), written.stored accessible i (by omega)⟩
    · have before : k ≤ i := by
        by_contra reached
        exact accessible i (by omega) fault
      omega

/-- A file with the bytes `7 7 7 7`. -/
def sevens : File := { size := 4, data := fun _ => 7 }

/-- Four bytes at address 16 are accessible. -/
def fourBytes : Memory := fun a => if 16 ≤ a ∧ a < 20 then some 9 else none

end OsCpp.Faults
