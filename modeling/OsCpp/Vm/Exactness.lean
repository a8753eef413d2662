import OsCpp.Vm.Confinement
import Mathlib.Order.Interval.Set.LinearOrder

/-!
# User copies are exact

Where the pages of a process are mapped to distinct frames that hold no page table, the copies move
the bytes of the virtual range and no others, through whatever frames it is mapped to.
-/

namespace OsCpp.Vm

open Set (Iio)
open UInt64 (ofNat toNat_inj toNat_ofNat')

/-- The bytes with some indices have been copied, and nothing else has changed. -/
structure Copied (source place : Nat → UInt64) (indices : Set Nat) (before after : Memory) : Prop where
  stored : ∀ i ∈ indices, after (place i) = before (source i)
  kept : ∀ address, (∀ i ∈ indices, address ≠ place i) → after address = before address

/-- Places that are different, and apart from the sources. -/
structure Plan (len : Nat) (source place : Nat → UInt64) : Prop where
  distinct : ∀ i < len, ∀ j < len, place i = place j → i = j
  apart : ∀ i < len, ∀ j < len, source i ≠ place j

/-- The first zero among the bytes to be copied. -/
def FirstZero (before : Memory) (source : Nat → UInt64) (z : Nat) : Prop :=
  before (source z) = 0 ∧ ∀ i < z, before (source i) ≠ 0

variable {len base n : Nat} {source place : Nat → UInt64} {indices : Set Nat} {before m : Memory}
  {dest src : UInt64}

/-- One more byte, read from the memory as it is by now. -/
theorem Copied.store (copied : Copied source place indices before m) {k : Nat}
    (unread : ∀ i ∈ indices, source k ≠ place i) (fresh : ∀ i ∈ indices, place i ≠ place k)
    {more : Set Nat} (added : ∀ i, i ∈ more ↔ i = k ∨ i ∈ indices) :
    Copied source place more before (m.store (place k) (m (source k))) := by
  rw [copied.kept _ unread]
  refine ⟨fun i member => ?_, fun address other => ?_⟩
  · rcases (added i).mp member with rfl | old
    · exact Function.update_self ..
    · exact (Function.update_of_ne (fresh i old) _ _).trans (copied.stored i old)
  · have apart := other k ((added k).mpr (.inl rfl))
    exact (Function.update_of_ne apart _ _).trans
      (copied.kept address fun i old => other i ((added i).mpr (.inr old)))

section

variable (distinct : ∀ i < len, ∀ j < len, place i = place j → i = j)
  (dests : ∀ i < n, dest + ofNat i = place (base + i))
  (sources : ∀ i < n, src + ofNat i = source (base + i)) (fits : base + n ≤ len)
include distinct dests sources fits

theorem Copied.moveForward (ahead : ∀ j < len, ∀ i < j, source j ≠ place i) {index count : Nat}
    (total : index + count = n) (copied : Copied source place (Iio (base + index)) before m) :
    Copied source place (Iio (base + n)) before (moveForward m dest src index count) := by
  induction count generalizing index m with
  | zero =>
    rw [← total]
    exact copied
  | succ count ih =>
    rw [Vm.moveForward, dests index (by omega), sources index (by omega)]
    refine ih (by omega) (copied.store (ahead _ (by omega)) (fun i less same => ?_) fun i => ?_)
    · rw [Set.mem_Iio] at less
      exact less.ne (distinct i (by omega) _ (by omega) same)
    · simp only [Set.mem_Iio]
      omega

theorem Copied.moveBackward
    (behind : ∀ j < len, ∀ i < len, i < base ∨ j < i → source j ≠ place i) {count : Nat}
    (le : count ≤ n)
    (copied : Copied source place (Iio base ∪ Set.Ico (base + count) (base + n)) before m) :
    Copied source place (Iio (base + n)) before (moveBackward m dest src count) := by
  induction count generalizing m with
  | zero =>
    have all : Iio base ∪ Set.Ico (base + 0) (base + n) = Iio (base + n) :=
      Set.Iio_union_Ico_eq_Iio (Nat.le_add_right base n)
    exact all ▸ copied
  | succ count ih =>
    rw [Vm.moveBackward, dests count (by omega), sources count (by omega)]
    refine ih (by omega) (copied.store (fun i member => ?_) (fun i member same => ?_) fun i => ?_)
    · rw [Set.mem_union, Set.mem_Iio, Set.mem_Ico] at member
      exact behind _ (by omega) i (by omega) (by omega)
    · rw [Set.mem_union, Set.mem_Iio, Set.mem_Ico] at member
      have here := distinct i (by omega) _ (by omega) same
      omega
    · simp only [Set.mem_union, Set.mem_Iio, Set.mem_Ico]
      omega

end

section

variable (plan : Plan len source place) (dests : ∀ i < n, dest + ofNat i = place (base + i))
  (sources : ∀ i < n, src + ofNat i = source (base + i)) (fits : base + n ≤ len)
include plan dests sources fits

theorem Plan.memmove (positive : 0 < n) (short : n ≤ 4096)
    (copied : Copied source place (Iio base) before m) :
    Copied source place (Iio (base + n)) before (memmove m dest src (ofNat n).toUInt32) := by
  have count : (ofNat n).toUInt32.toNat = n := by
    rw [UInt64.toNat_toUInt32, toNat_ofNat']
    omega
  have apart : dest ≠ src := by
    rintro rfl
    exact plan.apart base (by omega) base (by omega) ((sources 0 positive).symm.trans (dests 0 positive))
  have some : (ofNat n).toUInt32 ≠ 0 := fun zero => by
    rw [zero] at count
    exact absurd count (by simpa using positive.ne)
  rw [Vm.memmove, if_neg (not_or.mpr ⟨apart, some⟩), count]
  split
  · exact .moveForward plan.distinct dests sources fits
      (fun j less i before => plan.apart j less i (before.trans less)) (zero_add n) copied
  · refine .moveBackward plan.distinct dests sources fits
      (fun j less i less' _ => plan.apart j less i less') le_rfl ?_
    rwa [Set.Ico_self, Set.union_empty]

/-- The inner loop of `copyinstr` copies the next bytes up to the first zero. -/
theorem Plan.copyBytes (copied : Copied source place (Iio base) before m)
    (known : ∀ i < base, before (source i) ≠ 0) :
    match copyBytes m dest src n with
    | (after, _, true) => ∃ z < base + n, FirstZero before source z ∧
        Copied source place (Iio (z + 1)) before after
    | (after, _, false) => (∀ i < base + n, before (source i) ≠ 0) ∧
        Copied source place (Iio (base + n)) before after := by
  induction n generalizing m dest src base with
  | zero => exact ⟨known, copied⟩
  | succ n ih =>
    obtain rfl : dest = place base := by simpa using dests 0 n.succ_pos
    obtain rfl : src = source base := by simpa using sources 0 n.succ_pos
    have unread : m (source base) = before (source base) :=
      copied.kept _ fun i member => plan.apart base (by omega) i (member.trans (by omega))
    have more : Copied source place (Iio (base + 1)) before
        (m.store (place base) (m (source base))) := by
      refine copied.store (fun i less => plan.apart base (by omega) i (less.trans (by omega)))
        (fun i less same => less.ne (plan.distinct i (less.trans (by omega)) _ (by omega) same))
        fun i => ?_
      simp only [Set.mem_Iio]
      omega
    rw [Vm.copyBytes]
    by_cases found : m (source base) = 0
    · rw [found] at more
      rw [if_pos found]
      exact ⟨base, by omega, ⟨unread ▸ found, known⟩, more⟩
    · rw [if_neg found]
      rw [unread] at found
      have step : ∀ i, base + 1 + i = base + (i + 1) := by omega
      have next : ∀ {f : Nat → UInt64} {a : UInt64}, (∀ i < n + 1, a + ofNat i = f (base + i)) →
          ∀ i < n, a + 1 + ofNat i = f (base + 1 + i) := by
        intro f a all i less
        rw [step, ← all _ (by omega), UInt64.ofNat_add, UInt64.add_assoc, UInt64.add_comm 1]
        rfl
      have rest := ih (next dests) (next sources) (by omega) more fun i less =>
        (Nat.lt_succ_iff_lt_or_eq.mp less).elim (known i) fun same => same ▸ found
      rw [step] at rest
      generalize Vm.copyBytes (m.store (place base) (m (source base))) _ _ n = result at rest ⊢
      obtain ⟨after, count, _ | _⟩ := result <;> exact rest

end

/-- The entries that a walk reads. -/
def entries (memory : Memory) (va : UInt64) : List UInt32 → UInt64 → List UInt64
  | [], pagetable => [entryAddress pagetable 0 va]
  | level :: levels, pagetable =>
    entryAddress pagetable level va ::
      entries memory va levels (PTE2PA (memory.load64 (entryAddress pagetable level va)))

/-- The bytes of the entries through which the addresses below `sz` are mapped. -/
def InTable (memory : Memory) (pagetable : UInt64) (sz : Nat) (address : UInt64) : Prop :=
  ∃ v < sz, ∃ entry ∈ entries memory (ofNat v) [2, 1] pagetable, ∃ i < 8, address = entry + ofNat i

/-- A memory with the same page table. -/
def Agrees (memory : Memory) (pagetable : UInt64) (sz : Nat) (m : Memory) : Prop :=
  ∀ address, InTable memory pagetable sz address → m address = memory address

/-- Where a byte of the user is. -/
def physical (frame : Nat → UInt64) (v : Nat) : UInt64 := frame (v / 4096) + ofNat (v % 4096)

/-- The memory of a process: its pages are mapped to distinct frames, which hold no page table. -/
structure Space (memory : Memory) (pagetable : UInt64) (sz : Nat) (frame : Nat → UInt64) : Prop where
  small : sz ≤ 2 ^ 27
  mapped : ∀ v < sz, UserFrame memory pagetable true (ofNat v) (frame (v / 4096))
  nonzero : ∀ v < sz, frame (v / 4096) ≠ 0
  distinct : ∀ v < sz, ∀ w < sz, frame (v / 4096) = frame (w / 4096) → v / 4096 = w / 4096
  apart : ∀ v < sz, ¬InTable memory pagetable sz (physical frame v)

/-- A buffer of the kernel is neither in the pages of the process nor in its page table. -/
structure Buffer (memory : Memory) (pagetable : UInt64) (sz : Nat) (frame : Nat → UInt64)
    (start : UInt64) (len : Nat) : Prop where
  user : ∀ i < len, ∀ v < sz, start + ofNat i ≠ physical frame v
  table : ∀ i < len, ¬InTable memory pagetable sz (start + ofNat i)

theorem descend_of_same {memory m : Memory} {va pagetable : UInt64} {levels : List UInt32}
    (same : ∀ entry ∈ entries memory va levels pagetable, m.load64 entry = memory.load64 entry) :
    descend m va levels pagetable = descend memory va levels pagetable ∧
      ∀ leaf, descend memory va levels pagetable = some leaf → m.load64 leaf = memory.load64 leaf := by
  induction levels generalizing pagetable with
  | nil =>
    refine ⟨rfl, ?_⟩
    rintro _ ⟨⟩
    exact same _ (.head _)
  | cons level levels ih =>
    have rest := ih fun entry member => same entry (.tail _ member)
    rw [descend, descend, same _ (.head _)]
    split
    · exact rest
    · exact ⟨rfl, (by simp)⟩

theorem UserFrame.found {m : Memory} {pagetable va frame : UInt64}
    (mapped : UserFrame m pagetable true va frame) (nonzero : frame ≠ 0) :
    writablePage pagetable m va = .ok (some frame) ∧ readablePage pagetable m va = .ok (some frame) := by
  obtain ⟨below, entry, leaf, valid, user, writes, rfl⟩ := mapped
  have inside := UInt64.not_lt.mpr below
  rw [writablePage, readablePage, walkaddr, if_neg inside, if_neg inside, walk_of_le below, leaf]
  simp [Except.map, valid, user, writes, nonzero]

theorem add_ofNat (a : UInt64) (i j : Nat) : a + ofNat i + ofNat j = a + ofNat (i + j) := by
  rw [UInt64.ofNat_add, UInt64.add_assoc]

theorem physical_add {frame : Nat → UInt64} {v i : Nat} (less : v % 4096 + i < 4096) :
    physical frame v + ofNat i = physical frame (v + i) := by
  have page : (v + i) / 4096 = v / 4096 := by omega
  have offset : (v + i) % 4096 = v % 4096 + i := by omega
  rw [physical, physical, page, offset, add_ofNat]

namespace Space

variable {memory start : Memory} {pagetable buf va0 : UInt64} {sz va v : Nat} {frame : Nat → UInt64}
  (space : Space memory pagetable sz frame)
include space

theorem found (agrees : Agrees memory pagetable sz m) (less : v < sz) :
    writablePage pagetable m (PG_ROUND_DOWN (ofNat v)) = .ok (some (frame (v / 4096))) ∧
      readablePage pagetable m (PG_ROUND_DOWN (ofNat v)) = .ok (some (frame (v / 4096))) := by
  have small := space.small
  obtain ⟨below, leaf, walked, flags⟩ := space.mapped v less
  have same : ∀ entry ∈ entries memory (ofNat v) [2, 1] pagetable,
      m.load64 entry = memory.load64 entry := by
    intro entry member
    rw [Memory.load64, Memory.load64, List.map_congr_left fun i index =>
      agrees _ ⟨v, less, entry, member, i, List.mem_range.mp index, rfl⟩]
  obtain ⟨path, loaded⟩ := descend_of_same same
  have here : UserFrame m pagetable true (ofNat v) (frame (v / 4096)) :=
    ⟨below, leaf, path.trans walked, by rwa [loaded leaf walked]⟩
  refine (here.congr ?_ (PG_ROUND_DOWN_le _)).found (space.nonzero v less)
  rw [toNat_PG_ROUND_DOWN, toNat_ofNat']
  omega

theorem physical_inj {w : Nat} (less : v < sz) (less' : w < sz)
    (same : physical frame v = physical frame w) : v = w := by
  have aligned : ∀ {v}, v < sz → (frame (v / 4096)).toNat % 4096 = 0 := by
    intro v less
    obtain ⟨-, entry, -, -, -, -, here⟩ := space.mapped v less
    exact here ▸ toNat_PTE2PA_mod _
  have numbers := congrArg UInt64.toNat same
  have first := aligned less
  have second := aligned less'
  have bound := (frame (v / 4096)).toNat_lt
  have bound' := (frame (w / 4096)).toNat_lt
  simp only [physical, UInt64.toNat_add, toNat_ofNat'] at numbers
  have frames : frame (v / 4096) = frame (w / 4096) := toNat_inj.mp (by omega)
  have pages := space.distinct v less w less' frames
  omega

/-- What one iteration computes from its address and the number of bytes left. -/
theorem chunk_eq {rest : Nat} (positive : 0 < rest) (inside : v + rest ≤ sz) :
    ofNat rest ≠ 0 ∧ ∃ n ≤ rest, 0 < n ∧ v % 4096 + n ≤ 4096 ∧
      chunk (ofNat v) (ofNat rest) = ofNat n ∧
      ofNat rest - ofNat n = ofNat (rest - n) ∧
      frame (v / 4096) + (ofNat v - PG_ROUND_DOWN (ofNat v)) = physical frame v ∧
      (n < rest → PG_ROUND_DOWN (ofNat v) + PGSIZE.toUInt64 = ofNat (v + n)) := by
  have small := space.small
  have number : ∀ {k}, k ≤ sz → (ofNat k).toNat = k := by
    intro k le
    rw [toNat_ofNat']
    omega
  have here := number (k := v) (by omega)
  have low : (ofNat v).toNat < 2 ^ 32 := by omega
  refine ⟨fun zero => ?_, min rest (4096 - v % 4096), by omega, by omega, by omega, ?_, ?_, ?_,
    fun more => ?_⟩
  · have left := number (k := rest) (by omega)
    rw [zero] at left
    exact positive.ne left
  · apply toNat_inj.mp
    rw [chunk_of_low low, here, number (by omega), number (by omega)]
  · exact (UInt64.ofNat_sub (by omega)).symm
  · rw [physical]
    congr 1
    apply toNat_inj.mp
    rw [toNat_sub_PG_ROUND_DOWN, here, toNat_ofNat']
    omega
  · apply toNat_inj.mp
    rw [Trace.toNat_next low, here, number (by omega)]
    omega

section

variable (inside : va + len ≤ sz) (spares : ∀ i < len, ¬InTable memory pagetable sz (place i))
  (agrees : Agrees memory pagetable sz start)
include inside spares agrees

omit space inside in
theorem agrees_of_copied {done : Nat} (le : done ≤ len)
    (copied : Copied source place (Iio done) start m) : Agrees memory pagetable sz m := by
  intro address table
  refine (copied.kept address fun i less same => ?_).trans (agrees address table)
  exact spares i (less.trans_le le) (same ▸ table)

/-- The loop of `copyout` and `copyin`, when some bytes have been copied. -/
theorem copyLoop_copied {lookup : Memory → UInt64 → Except String (Option UInt64)}
    (move : Memory → UInt64 → UInt64 → UInt32 → Memory) (buf : UInt64)
    (looks : ∀ {m v}, Agrees memory pagetable sz m → v < sz →
      lookup m (PG_ROUND_DOWN (ofNat v)) = .ok (some (frame (v / 4096))))
    (moves : ∀ {m done n}, done + n ≤ len → 0 < n → (va + done) % 4096 + n ≤ 4096 →
      Copied source place (Iio done) start m → Copied source place (Iio (done + n)) start
        (move m (buf + ofNat done) (physical frame (va + done)) (ofNat n).toUInt32))
    {done : Nat} (le : done ≤ len) (here : done < len → va0 = ofNat (va + done))
    (copied : Copied source place (Iio done) start m) :
    let outcome := copyLoop lookup move m (buf + ofNat done) va0 (ofNat (len - done))
    outcome.result = .ok true ∧ Copied source place (Iio len) start outcome.memory := by
  induction left : len - done using Nat.strong_induction_on generalizing done m va0 with
  | _ rest ih =>
    rcases Nat.eq_zero_or_pos rest with rfl | positive
    · obtain rfl : done = len := by omega
      rw [show ofNat 0 = 0 from rfl, copyLoop_zero]
      exact ⟨rfl, copied⟩
    obtain ⟨some, n, fits, progress, page, count, less, pa, next⟩ :=
      space.chunk_eq (v := va + done) positive (by omega)
    rw [here (by omega), copyLoop, if_neg some]
    dsimp only
    rw [looks (agrees_of_copied spares agrees le copied) (by omega)]
    dsimp only
    rw [count, pa, less, add_ofNat]
    refine ih (rest - n) (by omega) (by omega) (fun more => ?_) (moves (by omega) progress page copied)
      (by omega)
    rw [next (by omega), add_assoc]

/-- `copyinstr`, when some bytes have been copied and none was zero. -/
theorem copyinstr_copied (buf : UInt64) (plan : Plan len source place)
    (dests : ∀ i, place i = buf + ofNat i)
    (virtual : ∀ {done n i}, (va + done) % 4096 + n ≤ 4096 → i < n →
      physical frame (va + done) + ofNat i = source (done + i))
    {done : Nat} (le : done ≤ len) (here : done < len → va0 = ofNat (va + done))
    (copied : Copied source place (Iio done) start m) (known : ∀ i < done, start (source i) ≠ 0) :
    let outcome := copyinstr m pagetable (buf + ofNat done) va0 (ofNat (len - done))
    outcome.result = .ok true ∧ (∃ z < len, FirstZero start source z ∧
        Copied source place (Iio (z + 1)) start outcome.memory) ∨
      outcome.result = .ok false ∧ (∀ i < len, start (source i) ≠ 0) ∧
        Copied source place (Iio len) start outcome.memory := by
  induction left : len - done using Nat.strong_induction_on generalizing done m va0 with
  | _ rest ih =>
    rcases Nat.eq_zero_or_pos rest with rfl | positive
    · obtain rfl : done = len := by omega
      rw [show ofNat 0 = 0 from rfl, copyinstr_zero]
      exact .inr ⟨rfl, known, copied⟩
    obtain ⟨some, n, fits, progress, page, count, less, pa, next⟩ :=
      space.chunk_eq (v := va + done) positive (by omega)
    have number : (ofNat n).toNat = n := by
      rw [toNat_ofNat']
      omega
    have bytes := plan.copyBytes (fun i _ => (add_ofNat buf done i).trans (dests _).symm)
      (fun i less => virtual page less) (by omega) copied known
    rw [here (by omega), copyinstr, if_neg some]
    dsimp only
    rw [(space.found (agrees_of_copied spares agrees le copied) (by omega)).2]
    dsimp only
    rw [count, pa, less, number, add_ofNat]
    generalize copyBytes m (buf + ofNat done) (physical frame (va + done)) n = result at bytes ⊢
    obtain ⟨after, read, _ | _⟩ := result
    · refine ih (rest - n) (by omega) (by omega) (fun more => ?_) bytes.2 bytes.1 (by omega)
      rw [next (by omega), add_assoc]
    · obtain ⟨z, small, first, copied⟩ := bytes
      exact .inl ⟨rfl, z, by omega, first, copied⟩

end

end Space

/-- Copies of a range below `sz` are exact; `copyinstr` stops at the first zero. -/
theorem copies_exact {memory : Memory} {pagetable buf dst : UInt64} {sz va len : Nat}
    {frame : Nat → UInt64} (space : Space memory pagetable sz frame) (inside : va + len ≤ sz)
    (buffer : Buffer memory pagetable sz frame buf len)
    (target : Buffer memory pagetable sz frame dst len) :
    let user := fun i => physical frame (va + i)
    let out := copyout memory pagetable (ofNat va) buf (ofNat len)
    let back := copyin out.memory pagetable dst (ofNat va) (ofNat len)
    let string := copyinstr memory pagetable dst (ofNat va) (ofNat len)
    (out.result = .ok true ∧ Copied (buf + ofNat ·) user (Iio len) memory out.memory) ∧
    (back.result = .ok true ∧
      Copied user (dst + ofNat ·) (Iio len) out.memory back.memory ∧
      ∀ i < len, back.memory (dst + ofNat i) = memory (buf + ofNat i)) ∧
    (string.result = .ok true ∧ (∃ z < len, FirstZero memory user z ∧
        Copied user (dst + ofNat ·) (Iio (z + 1)) memory string.memory) ∨
      string.result = .ok false ∧ (∀ i < len, memory (user i) ≠ 0) ∧
        Copied user (dst + ofNat ·) (Iio len) memory string.memory) := by
  intro user out back string
  have none : ∀ {source place : Nat → UInt64} {m : Memory}, Copied source place (Iio 0) m m :=
    ⟨fun i less => absurd less (Nat.not_lt_zero i), fun _ _ => rfl⟩
  have first : ∀ a : UInt64, a + ofNat 0 = a := UInt64.add_zero
  have virtual : ∀ {done n i : Nat}, (va + done) % 4096 + n ≤ 4096 → i < n →
      physical frame (va + done) + ofNat i = user (done + i) := by
    intro done n i page less
    rw [physical_add (by omega), Nat.add_assoc]
  have spares : ∀ i < len, ¬InTable memory pagetable sz (user i) := fun i less =>
    space.apart (va + i) (by omega)
  have outPlan : Plan len (buf + ofNat ·) user :=
    ⟨fun i less j less' same => Nat.add_left_cancel (space.physical_inj (by omega) (by omega) same),
      fun i less j less' => buffer.user i less (va + j) (by omega)⟩
  have inPlan : Plan len user (dst + ofNat ·) := by
    refine ⟨fun i less j less' same => ?_, fun i less j less' =>
      (target.user j less' (va + i) (by omega)).symm⟩
    have small := space.small
    have number := congrArg UInt64.toNat ((UInt64.add_right_inj dst).mp same)
    rw [toNat_ofNat', toNat_ofNat'] at number
    omega
  have copied := space.copyLoop_copied inside spares (fun _ _ => rfl)
    (fun memory kernel user count => memmove memory user kernel count) buf
    (fun agrees less => (space.found agrees less).1)
    (fun fits positive page => outPlan.memmove (fun i less => virtual page less)
      (fun i _ => add_ofNat ..) fits positive (by omega)) len.zero_le (fun _ => rfl) none
  rw [first] at copied
  have fetched := space.copyLoop_copied inside target.table
    (Space.agrees_of_copied spares (fun _ _ => rfl) le_rfl copied.2)
    (fun memory kernel user count => memmove memory kernel user count) dst
    (fun agrees less => (space.found agrees less).2)
    (fun fits positive page => inPlan.memmove (fun i _ => add_ofNat ..)
      (fun i less => virtual page less) fits positive (by omega)) len.zero_le (fun _ => rfl) none
  have read := space.copyinstr_copied inside target.table (fun _ _ => rfl) dst inPlan
    (fun _ => rfl) virtual len.zero_le (fun _ => rfl) none
    fun i less => absurd less (Nat.not_lt_zero i)
  rw [first] at fetched read
  refine ⟨copied, ⟨fetched.1, fetched.2, fun i less => ?_⟩, read⟩
  exact (fetched.2.stored i less).trans (copied.2.stored i less)

theorem copies_exact_onePage :
    let out := copyout onePage 0x80001000 0 0x80005000 2
    out.result = .ok true ∧ out.memory 0x80004000 = onePage 0x80005000 ∧
      (copyin out.memory 0x80001000 0x80006000 0 2).result = .ok true := by
  have walked : ∀ v < 2, ofNat v ≤ VA_MAX ∧
      descend onePage (ofNat v) [2, 1] 0x80001000 = some 0x80003000 ∧
      entries onePage (ofNat v) [2, 1] 0x80001000 = [0x80001000, 0x80002000, 0x80003000] ∧
      (physical (fun _ => 0x80004000) v).toNat = 0x80004000 + v := by decide +kernel
  have table : ∀ address, InTable onePage 0x80001000 2 address → address.toNat < 0x80004000 := by
    rintro _ ⟨v, less, entry, member, i, small, rfl⟩
    rw [(walked v less).2.2.1] at member
    have low : ∀ i < 8, [0x80001000, 0x80002000, 0x80003000].all fun entry : UInt64 =>
        (entry + ofNat i).toNat < 0x80004000 := by decide +kernel
    exact of_decide_eq_true (List.all_eq_true.mp (low i small) entry member)
  have space : Space onePage 0x80001000 2 fun _ => 0x80004000 := by
    refine ⟨by decide, fun v less => ?_, fun v _ => by decide, fun v less w less' _ => by omega,
      fun v less inTable => ?_⟩
    · exact ⟨(walked v less).1, _, (walked v less).2.1, by decide +kernel⟩
    · have := table _ inTable
      have := (walked v less).2.2.2
      omega
  have buffer (buf : UInt64) (high : ∀ i < 2, 0x80005000 ≤ (buf + ofNat i).toNat) :
      Buffer onePage 0x80001000 2 (fun _ => 0x80004000) buf 2 := by
    refine ⟨fun i less v less' same => ?_, fun i less inTable => ?_⟩
    · have := same ▸ high i less
      have := (walked v less').2.2.2
      omega
    · have := table _ inTable
      have := high i less
      omega
  have inside : 0 + 2 ≤ 2 := by decide
  have exact := copies_exact space inside (buffer 0x80005000 (by decide))
    (buffer 0x80006000 (by decide))
  exact ⟨exact.1.1, exact.1.2.stored 0 (by decide), exact.2.1.1⟩

end OsCpp.Vm
