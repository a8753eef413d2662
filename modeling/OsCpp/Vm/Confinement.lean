import OsCpp.Vm.Copy

/-!
# Confinement of user copies

Below 4 GiB, every byte accessed lies in the frame mapped at its own page; from 4 GiB on the 32-bit
mask of `PG_ROUND_DOWN` makes the copies look up another page and reach past its frame.
-/

namespace OsCpp.Vm

open UInt64 (toNat_add toNat_ofNat' toNat_inj)

/-- Every byte accessed lies in the frame mapped at its own virtual page. -/
def Access.Confined (access : Access) (pagetable : UInt64) (writable : Bool) : Prop :=
  ∀ index < access.count, ∃ frame,
    UserFrame access.memory pagetable writable (access.va + UInt64.ofNat index) frame ∧
      frame.toNat ≤ (access.pa + UInt64.ofNat index).toNat ∧
      (access.pa + UInt64.ofNat index).toNat < frame.toNat + 4096

/-- All user frames of the page table lie in the first 4 GiB, where the memory of the machine is. -/
def FramesBelow (memory : Memory) (pagetable : UInt64) : Prop :=
  ∀ writable va frame, UserFrame memory pagetable writable va frame → frame.toNat + 4096 ≤ 2 ^ 32

/-- Accesses through consecutive pages from a virtual address on, and their total size. -/
inductive Trace (pagetable : UInt64) (writable : Bool) : UInt64 → List Access → Nat → Prop
  | nil (va : UInt64) : Trace pagetable writable va [] 0
  | last {memory : Memory} {va frame : UInt64} {count : Nat}
      (mapped : UserFrame memory pagetable writable (PG_ROUND_DOWN va) frame)
      (inside : va.toNat < 2 ^ 32 → count ≤ 4096 - va.toNat % 4096) :
      Trace pagetable writable va [⟨memory, va, frame + (va - PG_ROUND_DOWN va), count⟩] count
  | cons {memory : Memory} {va frame : UInt64} {count total : Nat} {rest : List Access}
      (mapped : UserFrame memory pagetable writable (PG_ROUND_DOWN va) frame)
      (whole : va.toNat < 2 ^ 32 → count = 4096 - va.toNat % 4096)
      (following : Trace pagetable writable (PG_ROUND_DOWN va + PGSIZE.toUInt64) rest total) :
      Trace pagetable writable va (⟨memory, va, frame + (va - PG_ROUND_DOWN va), count⟩ :: rest)
        (count + total)

section

variable {memory : Memory} {pagetable va frame : UInt64} {writable : Bool} {index : Nat}

theorem userFrame_of_low (mapped : UserFrame memory pagetable writable (PG_ROUND_DOWN va) frame)
    (low : va.toNat < 2 ^ 32) (inside : index < 4096 - va.toNat % 4096) :
    UserFrame memory pagetable writable (va + UInt64.ofNat index) frame := by
  have rounded := toNat_PG_ROUND_DOWN va
  have sum : (va + UInt64.ofNat index).toNat = va.toNat + index := by
    rw [toNat_add, toNat_ofNat']
    omega
  apply mapped.congr
  · omega
  · rw [UInt64.le_iff_toNat_le, sum]
    have limit : VA_MAX.toNat = 2 ^ 38 := by decide
    omega

theorem toNat_access (frame va : UInt64) (index : Nat) :
    (frame + (va - PG_ROUND_DOWN va) + UInt64.ofNat index).toNat =
      (frame.toNat + va.toNat / 2 ^ 32 * 2 ^ 32 + va.toNat % 2 ^ 12 + index) % 2 ^ 64 := by
  rw [toNat_add, toNat_add, toNat_sub_PG_ROUND_DOWN, toNat_ofNat']
  omega

theorem confined_of_low {count : Nat}
    (mapped : UserFrame memory pagetable writable (PG_ROUND_DOWN va) frame)
    (count_low : count ≠ 0 → va.toNat < 2 ^ 32)
    (inside : va.toNat < 2 ^ 32 → count ≤ 4096 - va.toNat % 4096) :
    Access.Confined ⟨memory, va, frame + (va - PG_ROUND_DOWN va), count⟩ pagetable writable := by
  intro index index_lt
  have low := count_low (Nat.ne_zero_of_lt index_lt)
  have aligned : frame.toNat % 2 ^ 12 = 0 := by
    obtain ⟨-, _, -, -, -, -, rfl⟩ := mapped
    exact toNat_PTE2PA_mod _
  have bounded := frame.toNat_lt
  have in_page : index < 4096 - va.toNat % 4096 := lt_of_lt_of_le index_lt (inside low)
  refine ⟨frame, userFrame_of_low mapped low in_page, ?_⟩
  rw [toNat_access]
  omega

/-- An access from 4 GiB on leaves every frame of the machine. -/
theorem low_of_confined {count : Nat} (below : FramesBelow memory pagetable)
    (mapped : UserFrame memory pagetable writable (PG_ROUND_DOWN va) frame) (count_ne : count ≠ 0)
    (confined : Access.Confined ⟨memory, va, frame + (va - PG_ROUND_DOWN va), count⟩ pagetable
      writable) : va.toNat < 2 ^ 32 := by
  obtain ⟨target, target_mapped, from_start, before_end⟩ := confined 0 (by dsimp only; omega)
  dsimp only at from_start before_end
  have frame_low := below _ _ _ mapped
  have target_low := below _ _ _ target_mapped
  have bounded := va.toNat_lt
  rw [toNat_access] at from_start before_end
  omega

end

namespace Trace

variable {pagetable va : UInt64} {writable : Bool} {accesses : List Access} {total : Nat}

theorem toNat_next (low : va.toNat < 2 ^ 32) :
    (PG_ROUND_DOWN va + PGSIZE.toUInt64).toNat = va.toNat + (4096 - va.toNat % 4096) := by
  have size : PGSIZE.toUInt64.toNat = 4096 := by decide
  rw [toNat_add, toNat_PG_ROUND_DOWN, size]
  omega

theorem total_nil (trace : Trace pagetable writable va [] total) : total = 0 := by
  cases trace
  rfl

section

variable (trace : Trace pagetable writable va accesses total)
include trace

theorem confined (low : ∀ access ∈ accesses, access.count ≠ 0 → access.va.toNat < 2 ^ 32) :
    ∀ access ∈ accesses, access.Confined pagetable writable := by
  induction trace with
  | nil => simp
  | last mapped inside =>
    intro access member
    rw [List.mem_singleton.mp member]
    exact confined_of_low mapped (low _ (.head _)) inside
  | cons mapped whole _ ih =>
    intro access member
    rcases List.mem_cons.mp member with rfl | later
    · exact confined_of_low mapped (low _ List.mem_cons_self) fun low => (whole low).le
    · exact ih (fun access member => low access (.tail _ member)) access later

theorem low (below : ∀ access ∈ accesses, FramesBelow access.memory pagetable)
    (confined : ∀ access ∈ accesses, access.Confined pagetable writable) :
    ∀ access ∈ accesses, access.count ≠ 0 → access.va.toNat < 2 ^ 32 := by
  induction trace with
  | nil => simp
  | last mapped inside =>
    intro access member count_ne
    have here := confined _ (.head _)
    have frames := below _ (.head _)
    rw [List.mem_singleton.mp member] at count_ne ⊢
    exact low_of_confined frames mapped count_ne here
  | cons mapped whole _ ih =>
    intro access member count_ne
    rcases List.mem_cons.mp member with rfl | later
    · exact low_of_confined (below _ List.mem_cons_self) mapped count_ne
        (confined _ List.mem_cons_self)
    · exact ih (fun access member => below access (.tail _ member))
        (fun access member => confined access (.tail _ member)) access later count_ne

theorem reached (low : ∀ access ∈ accesses, access.va.toNat < 2 ^ 32) :
    ∀ index < total, ∃ access ∈ accesses, ∃ frame,
      UserFrame access.memory pagetable writable (va + UInt64.ofNat index) frame := by
  induction trace with
  | nil => simp
  | last mapped inside =>
    have here := low _ (.head _)
    intro index index_lt
    exact ⟨_, List.mem_singleton_self _, _,
      userFrame_of_low mapped here (lt_of_lt_of_le index_lt (inside here))⟩
  | @cons memory va frame count total rest mapped whole _ ih =>
    have here : va.toNat < 2 ^ 32 := low _ List.mem_cons_self
    intro index index_lt
    by_cases first : index < count
    · exact ⟨_, List.mem_cons_self, _,
        userFrame_of_low mapped here (lt_of_lt_of_le first (whole here).le)⟩
    · obtain ⟨access, member, frame, later⟩ :=
        ih (fun access member => low access (.tail _ member)) (index - count)
          (by omega)
      have same : PG_ROUND_DOWN va + PGSIZE.toUInt64 + UInt64.ofNat (index - count) =
          va + UInt64.ofNat index := by
        have next := toNat_next here
        have full := whole here
        apply toNat_inj.mp
        rw [toNat_add, next, toNat_add, toNat_ofNat', toNat_ofNat']
        omega
      exact ⟨access, .tail _ member, frame, same ▸ later⟩

end

end Trace

section

variable {pagetable : UInt64} {writable : Bool}
  {lookup : Memory → UInt64 → Except String (Option UInt64)}

/-- Every access of the copy starts below 4 GiB. -/
def Outcome.Low (outcome : Outcome) : Prop := ∀ access ∈ outcome.accesses, access.va.toNat < 2 ^ 32

/-- What a copy guarantees: its accesses form a trace, and true below 4 GiB means that the range was
reached. -/
structure Spec (pagetable : UInt64) (writable : Bool) (va len : UInt64) (range : Nat → Prop)
    (outcome : Outcome) : Prop where
  trace : ∃ total, Trace pagetable writable va outcome.accesses total ∧
    (outcome.result = .ok true → outcome.Low → range total)
  returns : ∃ flag, outcome.result = .ok flag
  nonempty : len.toNat < 2 ^ 32 → ∀ access ∈ outcome.accesses, access.count ≠ 0
  low : va.toNat + len.toNat ≤ 2 ^ 32 → outcome.Low

theorem Spec.stopped {va len : UInt64} {range : Nat → Prop} {outcome : Outcome}
    (no_access : outcome.accesses = []) (returns : ∃ flag, outcome.result = .ok flag)
    (reaches : outcome.result = .ok true → range 0) :
    Spec pagetable writable va len range outcome where
  trace := ⟨0, no_access ▸ .nil va, fun accepted _ => reaches accepted⟩
  returns := returns
  nonempty := by simp [no_access]
  low := by simp [Outcome.Low, no_access]

/-- A page test that does not panic and accepts user pages only. -/
def Accepts (pagetable : UInt64) (writable : Bool)
    (lookup : Memory → UInt64 → Except String (Option UInt64)) : Prop :=
  ∀ memory va, ∃ page, lookup memory (PG_ROUND_DOWN va) = .ok page ∧
    ∀ frame, page = some frame → UserFrame memory pagetable writable (PG_ROUND_DOWN va) frame

theorem PG_ROUND_DOWN_le (va : UInt64) : PG_ROUND_DOWN va ≤ VA_MAX := by
  have rounded := toNat_PG_ROUND_DOWN va
  have limit : VA_MAX.toNat = 2 ^ 38 := by decide
  rw [UInt64.le_iff_toNat_le]
  omega

theorem accepts_writablePage (pagetable : UInt64) :
    Accepts pagetable true (writablePage pagetable) := by
  intro memory va
  have below := PG_ROUND_DOWN_le va
  rw [writablePage, if_neg (UInt64.not_lt.mpr below), walk_of_le below]
  refine ⟨_, rfl, fun frame found => ?_⟩
  cases leaf : descend memory (PG_ROUND_DOWN va) [2, 1] pagetable with
  | none => simp [leaf] at found
  | some entry =>
    simp only [leaf, Option.ite_none_left_eq_some, not_or, Option.some.injEq] at found
    obtain ⟨⟨valid, user, writes⟩, rfl⟩ := found
    exact ⟨below, entry, leaf, valid, user, fun _ => writes, rfl⟩

theorem accepts_readablePage (pagetable : UInt64) :
    Accepts pagetable false (readablePage pagetable) := by
  intro memory va
  obtain ⟨pa, found, mapped⟩ := walkaddr_eq memory pagetable (PG_ROUND_DOWN va)
  rw [readablePage, found]
  refine ⟨_, rfl, fun frame accepted => ?_⟩
  rw [Option.ite_none_left_eq_some, Option.some.injEq] at accepted
  exact accepted.2 ▸ mapped accepted.1

theorem Spec.after {memory : Memory} {va frame len : UInt64} {count : Nat} {outcome : Outcome}
    {range rest : Nat → Prop} (len_ne : len ≠ 0)
    (mapped : UserFrame memory pagetable writable (PG_ROUND_DOWN va) frame)
    (whole : (chunk va len).toNat < 2 ^ 32 → count = (chunk va len).toNat)
    (finished : len = chunk va len → outcome.accesses = [])
    (extends_range : ∀ total, va.toNat < 2 ^ 32 → rest total → range (count + total))
    (spec : Spec pagetable writable (PG_ROUND_DOWN va + PGSIZE.toUInt64) (len - chunk va len) rest
      outcome) :
    Spec pagetable writable va len range
      (outcome.after ⟨memory, va, frame + (va - PG_ROUND_DOWN va), count⟩) := by
  have progress := chunk_pos va len_ne
  have bounded := chunk_le va len
  have remaining := toNat_sub_chunk va len
  have whole_low (low : va.toNat < 2 ^ 32) : count = min len.toNat (4096 - va.toNat % 4096) := by
    have here := @chunk_of_low va len low
    rw [whole (by omega), here]
  obtain ⟨⟨total, trace, reaches⟩, returns, nonempty, low⟩ := spec
  refine ⟨⟨count + total, ?_, fun accepted low => ?_⟩, returns, fun small => ?_, fun near => ?_⟩
  · by_cases last : len = chunk va len
    · have empty := finished last
      rw [Outcome.after, empty]
      rw [empty] at trace
      obtain rfl := trace.total_nil
      refine .last mapped fun low => ?_
      rw [whole_low low]
      exact min_le_right _ _
    · refine .cons mapped (fun low => ?_) trace
      have partial_chunk : (chunk va len).toNat ≠ len.toNat := fun same =>
        last (toNat_inj.mp same.symm)
      rw [chunk_of_low low] at partial_chunk
      rw [whole_low low]
      omega
  · exact extends_range total (low _ List.mem_cons_self)
      (reaches accepted fun access member => low access (.tail _ member))
  · intro access member
    rcases List.mem_cons.mp member with rfl | later
    · have here := whole (by omega)
      dsimp only
      omega
    · exact nonempty (by omega) access later
  · have here : va.toNat < 2 ^ 32 := by omega
    have next := Trace.toNat_next here
    have size := @chunk_of_low va len here
    intro access member
    rcases List.mem_cons.mp member with rfl | later
    · exact here
    · by_cases last : len = chunk va len
      · simp [finished last] at later
      · refine low ?_ access later
        have partial_chunk : (chunk va len).toNat ≠ len.toNat := fun same =>
          last (toNat_inj.mp same.symm)
        omega

theorem copyLoop_zero (move : Memory → UInt64 → UInt64 → UInt32 → Memory) (memory : Memory)
    (kernel va : UInt64) : copyLoop lookup move memory kernel va 0 = ⟨.ok true, memory, []⟩ := by
  rw [copyLoop, if_pos rfl]

theorem copyLoop_spec (accepts : Accepts pagetable writable lookup)
    (move : Memory → UInt64 → UInt64 → UInt32 → Memory) (memory : Memory)
    (kernel va len : UInt64) :
    Spec pagetable writable va len (· = len.toNat) (copyLoop lookup move memory kernel va len) := by
  fun_induction copyLoop lookup move memory kernel va len with
  | case1 memory kernel va => exact .stopped rfl ⟨true, rfl⟩ fun _ => rfl
  | case2 memory kernel va len len_ne va0 message found =>
    obtain ⟨page, accepted, -⟩ := accepts memory va
    simp [va0, accepted] at found
  | case3 memory kernel va len len_ne va0 found =>
    exact .stopped rfl ⟨false, rfl⟩ fun accepted => by simp at accepted
  | case4 memory kernel va len len_ne va0 pa0 found n pa ih =>
    obtain ⟨page, accepted, mapped⟩ := accepts memory va
    have same : page = some pa0 := Except.ok.inj (accepted.symm.trans found)
    have whole (small : n.toNat < 2 ^ 32) : n.toUInt32.toNat = n.toNat := by
      rw [UInt64.toNat_toUInt32, Nat.mod_eq_of_lt small]
    refine Spec.after len_ne (mapped pa0 same) whole (fun last => ?_) ?_ ih
    · have done : len - n = 0 := by
        rw [show n = len from last.symm, UInt64.sub_self]
      rw [done, copyLoop_zero]
    · rintro total low rfl
      have bounded : n.toNat ≤ len.toNat := chunk_le va len
      have size : n.toNat = min len.toNat (4096 - va.toNat % 4096) := chunk_of_low low
      have counted := whole (by omega)
      have remaining : (len - n).toNat = len.toNat - n.toNat := toNat_sub_chunk va len
      omega

theorem copyBytes_count (memory : Memory) (dst p : UInt64) (n : Nat) :
    (copyBytes memory dst p n).2.1 ≤ n ∧
      ((copyBytes memory dst p n).2.2 = false → (copyBytes memory dst p n).2.1 = n) ∧
      ((copyBytes memory dst p n).2.2 = true → 0 < (copyBytes memory dst p n).2.1) := by
  induction n generalizing memory dst p with
  | zero => simp [copyBytes]
  | succ n ih =>
    rw [copyBytes]
    split
    case isTrue => simp
    case isFalse =>
      obtain ⟨bounded, unfinished, -⟩ := ih (memory.store dst (memory p)) (dst + 1) (p + 1)
      exact ⟨Nat.succ_le_succ bounded, fun missing => congrArg (· + 1) (unfinished missing),
        fun _ => Nat.succ_pos _⟩

theorem copyinstr_zero (memory : Memory) (pagetable dst va : UInt64) :
    copyinstr memory pagetable dst va 0 = ⟨.ok false, memory, []⟩ := by
  rw [copyinstr, if_pos rfl]

theorem copyinstr_spec (memory : Memory) (pagetable dst va len : UInt64) :
    Spec pagetable false va len (fun total => 0 < total ∧ total ≤ len.toNat)
      (copyinstr memory pagetable dst va len) := by
  induction remaining : len.toNat using Nat.strong_induction_on generalizing memory dst va len with
  | _ size ih =>
  subst remaining
  have failed (outcome : Outcome) (no_access : outcome.accesses = [])
      (refused : outcome.result = .ok false) :
      Spec pagetable false va len (fun total => 0 < total ∧ total ≤ len.toNat) outcome :=
    .stopped no_access ⟨false, refused⟩ fun accepted => by simp [refused] at accepted
  obtain ⟨page, accepted, mapped⟩ := accepts_readablePage pagetable memory va
  rw [copyinstr]
  dsimp only
  rw [accepted]
  split
  case isTrue len_zero => exact failed _ rfl rfl
  case isFalse len_ne =>
  cases page with
  | none => exact failed _ rfl rfl
  | some frame =>
    have user := mapped frame rfl
    have progress := chunk_pos va len_ne
    have bounded := chunk_le va len
    have rest := toNat_sub_chunk va len
    obtain ⟨count_le, unfinished, finished⟩ :=
      copyBytes_count memory dst (frame + (va - PG_ROUND_DOWN va)) (chunk va len).toNat
    rcases bytes : copyBytes memory dst (frame + (va - PG_ROUND_DOWN va)) (chunk va len).toNat
      with ⟨copied, count, found⟩
    simp only [bytes] at count_le unfinished finished
    dsimp only
    rw [bytes]
    dsimp only
    cases found with
    | true =>
      have reads := finished rfl
      refine ⟨⟨count, .last user fun low => ?_, fun _ _ => ⟨reads, by omega⟩⟩, ⟨true, rfl⟩,
        fun _ access member => ?_, fun near access member => ?_⟩
      · rw [chunk_of_low low] at count_le
        omega
      · rw [List.mem_singleton.mp member]
        exact reads.ne_zero
      · rw [List.mem_singleton.mp member]
        dsimp only
        omega
    | false =>
      have whole := unfinished rfl
      have later := ih (len - chunk va len).toNat (by omega) copied (dst + chunk va len)
        (PG_ROUND_DOWN va + PGSIZE.toUInt64) (len - chunk va len) rfl
      refine Spec.after len_ne user (fun _ => whole) (fun last => ?_) ?_ later
      · have done : len - chunk va len = 0 := by
          rw [← last, UInt64.sub_self]
        rw [done, copyinstr_zero]
      · rintro total - ⟨total_pos, total_le⟩
        omega

end

/-- A call of one of the three copies, with its kernel buffer. -/
inductive Copy
  | copyin (dst : UInt64)
  | copyout (src : UInt64)
  | copyinstr (dst : UInt64)

/-- Run a copy on a user range. -/
def Copy.run (memory : Memory) (pagetable va len : UInt64) : Copy → Outcome
  | .copyin dst => Vm.copyin memory pagetable dst va len
  | .copyout src => Vm.copyout memory pagetable va src len
  | .copyinstr dst => Vm.copyinstr memory pagetable dst va len

/-- Whether the copy writes to user memory. -/
def Copy.writes : Copy → Bool
  | .copyout _ => true
  | _ => false

/-- Size of the range a successful copy has gone through: all of it, or up to the terminating zero. -/
def Copy.Reaches (len : UInt64) (total : Nat) : Copy → Prop
  | .copyinstr _ => 0 < total ∧ total ≤ len.toNat
  | _ => total = len.toNat

theorem Copy.spec (copy : Copy) (memory : Memory) (pagetable va len : UInt64) :
    Spec pagetable copy.writes va len (copy.Reaches len) (copy.run memory pagetable va len) := by
  cases copy with
  | copyin dst => exact copyLoop_spec (accepts_readablePage pagetable) _ memory dst va len
  | copyout src => exact copyLoop_spec (accepts_writablePage pagetable) _ memory src va len
  | copyinstr dst => exact copyinstr_spec memory pagetable dst va len

/-- The copy accesses bytes of user pages only, and returns true only if its range is mapped. -/
structure Copy.Sound (copy : Copy) (pagetable va len : UInt64) (outcome : Outcome) : Prop where
  confined : ∀ access ∈ outcome.accesses, access.Confined pagetable copy.writes
  mapped : outcome.result = .ok true → ∃ total, copy.Reaches len total ∧
    ∀ index < total, ∃ access ∈ outcome.accesses, ∃ frame,
      UserFrame access.memory pagetable copy.writes (va + UInt64.ofNat index) frame
  returns : ∃ flag, outcome.result = .ok flag

theorem sound_of_low {copy : Copy} {memory : Memory} {pagetable va len : UInt64}
    (low : (copy.run memory pagetable va len).Low) :
    copy.Sound pagetable va len (copy.run memory pagetable va len) := by
  obtain ⟨⟨total, trace, reaches⟩, returns, -, -⟩ := copy.spec memory pagetable va len
  exact ⟨trace.confined fun access member _ => low access member,
    fun accepted => ⟨total, reaches accepted low, trace.reached low⟩, returns⟩

/-- The copies meet their specification exactly on the first 4 GiB of the address space; accesses of
zero bytes need a length of at least 4 GiB. -/
theorem copy_sound_iff_low (copy : Copy) (memory : Memory) (pagetable va len : UInt64) :
    ((copy.run memory pagetable va len).Low →
      copy.Sound pagetable va len (copy.run memory pagetable va len)) ∧
    ((∀ access ∈ (copy.run memory pagetable va len).accesses, FramesBelow access.memory pagetable) →
      ((∀ access ∈ (copy.run memory pagetable va len).accesses,
          access.Confined pagetable copy.writes) ↔
        ∀ access ∈ (copy.run memory pagetable va len).accesses,
          access.count ≠ 0 → access.va.toNat < 2 ^ 32)) ∧
    (len.toNat < 2 ^ 32 →
      ∀ access ∈ (copy.run memory pagetable va len).accesses, access.count ≠ 0) ∧
    (va.toNat + len.toNat ≤ 2 ^ 32 → (copy.run memory pagetable va len).Low) := by
  obtain ⟨⟨total, trace, -⟩, -, nonempty, low⟩ := copy.spec memory pagetable va len
  exact ⟨sound_of_low, fun frames => ⟨trace.low frames, trace.confined⟩, nonempty, low⟩

/-- A page table at `0x80001000` with one user page, virtual page zero in the frame at
`0x80004000`. -/
def onePage : Memory := fun address =>
  if 3 < address.toNat % 4096 then 0
  else if address = 0x80001000 ∨ address = 0x80002000 then 0x01
  else if address = 0x80003000 then 0x17
  else if address = 0x80001001 then 0x08
  else if address = 0x80002001 then 0x0c
  else if address = 0x80003001 then 0x10
  else if address.toNat % 4096 = 3 then 0x20
  else 0

theorem copyout_one {memory : Memory} {pagetable dstva src frame : UInt64}
    (page : writablePage pagetable memory (PG_ROUND_DOWN dstva) = .ok (some frame))
    (one : chunk dstva 1 = 1) :
    copyout memory pagetable dstva src 1 =
      ⟨.ok true, memmove memory (frame + (dstva - PG_ROUND_DOWN dstva)) src 1,
        [⟨memory, dstva, frame + (dstva - PG_ROUND_DOWN dstva), 1⟩]⟩ := by
  rw [copyout, copyLoop, if_neg (by decide)]
  dsimp only
  rw [page, one]
  dsimp only
  rw [UInt64.sub_self, copyLoop_zero]
  rfl

/-- A write through the unmapped address 4 GiB succeeds, 4 GiB above the frame of page zero. -/
theorem copyout_escapes_onePage :
    (copyout onePage 0x80001000 0x100000000 0x80005000 1).result = .ok true ∧
      ∃ access ∈ (copyout onePage 0x80001000 0x100000000 0x80005000 1).accesses,
        access.pa = 0x180004000 ∧ ¬access.Confined 0x80001000 true := by
  have page : writablePage 0x80001000 onePage (PG_ROUND_DOWN 0x100000000) =
      .ok (some 0x80004000) := by
    decide +kernel
  rw [copyout_one page (by decide)]
  refine ⟨rfl, _, List.mem_singleton_self _, by decide, fun confined => ?_⟩
  obtain ⟨frame, ⟨-, entry, leaf, -⟩, -⟩ := confined 0 Nat.one_pos
  have unmapped : descend onePage (0x100000000 + UInt64.ofNat 0) [2, 1] 0x80001000 = none := by
    decide +kernel
  cases unmapped.symm.trans leaf

theorem PX_lt (level : UInt32) (va : UInt64) : (PX level va).toNat < 512 := by
  have mask : PX_MASK.toUInt64.toNat = 2 ^ 9 - 1 := by decide
  rw [PX, UInt64.toNat_and, mask, Nat.and_two_pow_sub_one_eq_mod]
  exact Nat.mod_lt _ (by decide)

theorem entries_onePage (level : UInt32) (va : UInt64) :
    (onePage.load64 (entryAddress 0x80001000 level va) &&& PTE_V ≠ 0 →
        PTE2PA (onePage.load64 (entryAddress 0x80001000 level va)) = 0x80002000) ∧
      (onePage.load64 (entryAddress 0x80002000 level va) &&& PTE_V ≠ 0 →
        PTE2PA (onePage.load64 (entryAddress 0x80002000 level va)) = 0x80003000) ∧
      (PTE2PA (onePage.load64 (entryAddress 0x80003000 level va))).toNat + 4096 ≤ 2 ^ 32 := by
  have all : ∀ index < 512,
      (onePage.load64 (0x80001000 + 8 * UInt64.ofNat index) &&& PTE_V ≠ 0 →
          PTE2PA (onePage.load64 (0x80001000 + 8 * UInt64.ofNat index)) = 0x80002000) ∧
        (onePage.load64 (0x80002000 + 8 * UInt64.ofNat index) &&& PTE_V ≠ 0 →
          PTE2PA (onePage.load64 (0x80002000 + 8 * UInt64.ofNat index)) = 0x80003000) ∧
        (PTE2PA (onePage.load64 (0x80003000 + 8 * UInt64.ofNat index))).toNat + 4096 ≤ 2 ^ 32 := by
    decide +kernel
  have here := all _ (PX_lt level va)
  rwa [UInt64.ofNat_toNat] at here

theorem framesBelow_onePage : FramesBelow onePage 0x80001000 := by
  rintro writable va frame ⟨-, entry, leaf, -, -, -, rfl⟩
  simp only [descend, Option.ite_none_right_eq_some] at leaf
  obtain ⟨root_valid, middle_valid, ⟨⟩⟩ := leaf
  rw [(entries_onePage 2 va).1 root_valid] at middle_valid ⊢
  rw [(entries_onePage 1 va).2.1 middle_valid]
  exact (entries_onePage 0 va).2.2

theorem copyout_sound_onePage :
    Copy.Sound (.copyout 0x80005000) 0x80001000 8 1
        (Copy.run onePage 0x80001000 8 1 (.copyout 0x80005000)) ∧
      ∀ access ∈ (Copy.run onePage 0x80001000 8 1 (.copyout 0x80005000)).accesses,
        access.count ≠ 0 ∧ access.va.toNat < 2 ^ 32 := by
  obtain ⟨sound, exact_low, nonempty, low⟩ :=
    copy_sound_iff_low (.copyout 0x80005000) onePage 0x80001000 8 1
  have run := low (by decide)
  have page : writablePage 0x80001000 onePage (PG_ROUND_DOWN 8) = .ok (some 0x80004000) := by
    decide +kernel
  have frames : ∀ access ∈ (Copy.run onePage 0x80001000 8 1 (.copyout 0x80005000)).accesses,
      FramesBelow access.memory 0x80001000 := by
    rw [Copy.run, copyout_one page (by decide)]
    intro access member
    rw [List.mem_singleton.mp member]
    exact framesBelow_onePage
  have counted := nonempty (by decide)
  exact ⟨sound run, fun access member => ⟨counted access member,
    (exact_low frames).mp (sound run).confined access member (counted access member)⟩⟩

end OsCpp.Vm
