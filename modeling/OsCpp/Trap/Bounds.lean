import OsCpp.Fs.Syscall
import Mathlib.Tactic.IntervalCases

/-!
# Arrays driven by system-call arguments

The indices at which a system call touches the table `syscalls`, the descriptor table of its process,
and the local arrays that take its arguments: `path`, `argv` and `ustack`.  Registers and user memory
are arbitrary; what else decides how far a call gets is given by its surroundings.
-/

namespace OsCpp.Trap

open Fs

def MAXARGV : Nat := 32

/-- Arrays a system call indexes. -/
inductive Target
  | syscalls
  | ofile
  | path
  | argv
  | ustack
  deriving DecidableEq

structure Access where
  array : Target
  index : Nat
  deriving DecidableEq

/-- The registers of the trapframe that a call reads. -/
structure Registers where
  a0 : UInt64
  a1 : UInt64
  a2 : UInt64
  a7 : UInt64

/-- What a call meets besides its registers. -/
structure Surroundings where
  /-- The bytes `copyin` and `copyinstr` find in user memory. -/
  memory : Nat → Option UInt8
  sz : Nat
  opened : Nat → Bool
  /-- Frames `kalloc` can still hand out. -/
  frames : Nat
  /-- The call gets to `alloc_fd`, or to the argument loop of `loader::exec`. -/
  reaches : Bool
  /-- The string of an argument fits on the stack and is copied there. -/
  pushes : Nat → Bool
  /-- Both calls of `copyout` in `sys_pipe` succeed. -/
  copies : Bool

def syscalls : List (Registers → Fs.Call) :=
  [fun _ => .sys_fork, fun _ => .sys_exit, fun _ => .sys_wait, fun _ => .sys_pipe,
    fun r => .sys_read r.a0.toNat r.a1.toNat r.a2.toNat, fun _ => .sys_kill,
    fun r => .sys_exec r.a0.toNat r.a1.toNat, fun r => .sys_fstat r.a0.toNat r.a1.toNat,
    fun r => .sys_chdir r.a0.toNat, fun r => .sys_dup r.a0.toNat, fun _ => .sys_getpid,
    fun _ => .sys_sbrk, fun _ => .sys_sleep, fun _ => .sys_uptime,
    fun r => .sys_open r.a0.toNat r.a1.toNat,
    fun r => .sys_write r.a0.toNat r.a1.toNat r.a2.toNat,
    fun r => .sys_mknod r.a0.toNat r.a1.toNat r.a2.toNat, fun _ => .sys_unlink,
    fun _ => .sys_link, fun r => .sys_mkdir r.a0.toNat, fun r => .sys_close r.a0.toNat,
    fun r => .sys_setuid r.a0.toNat, fun r => .sys_setgid r.a0.toNat]

/-- `sizeof(syscalls)`, in bytes. -/
def sizeofSyscalls : Nat := 8 * syscalls.length

/-- Number of elements of an array. -/
def Target.size : Target → Nat
  | .syscalls => Trap.syscalls.length
  | .ofile => NOFILE
  | .path => MAXPATH
  | .argv => MAXARGV
  | .ustack => MAXARGV

def Access.InBounds (access : Access) : Prop := access.index < access.array.size

instance (access : Access) : Decidable access.InBounds :=
  inferInstanceAs (Decidable (access.index < access.array.size))

/-- Accesses to the first `count` elements of an array. -/
def sweep (array : Target) (count : Nat) : List Access := (List.range count).map (⟨array, ·⟩)

/-- The string `copyinstr` stores with a terminating zero, if it finds one. -/
def fetched (env : Surroundings) (addr len : Nat) : Bool := (copyinstr env.memory addr len).2

/-- Bytes `fetch_str` stores in its buffer. -/
def stored (env : Surroundings) (addr len : Nat) : Nat :=
  (copyinstr env.memory addr len).1.length + if fetched env addr len then 1 else 0

/-- `fetch_str` into the array `path`. -/
def fetchPath (env : Surroundings) (addr len : Nat) : List Access := sweep .path (stored env addr len)

/-- `fetch_addr` of element `i` of the user's array of arguments. -/
def fetch_addr (env : Surroundings) (uargv i : Nat) : Option Nat :=
  let addr := (uargv + 8 * i) % 2 ^ 64
  if env.sz ≤ addr ∨ env.sz < (addr + 8) % 2 ^ 64 then none
  else ((List.range 8).mapM fun k => env.memory (addr + k)).map Bytes.ofLE

def get_fd (argument : Nat) : List Access :=
  let fd := toInt argument
  if fd < 0 ∨ (NOFILE : Int) ≤ fd then [] else [⟨.ofile, fd.toNat⟩]

/-- Has the call of `get_fd` found an open file? -/
def hasFile (env : Surroundings) (argument : Nat) : Bool :=
  let fd := toInt argument
  0 ≤ fd ∧ fd < NOFILE ∧ env.opened fd.toNat = true

/-- The descriptor `alloc_fd` finds. -/
def freeFd (opened : Nat → Bool) : Option Nat := (List.range NOFILE).find? fun fd => !opened fd

/-- `alloc_fd`: it looks at descriptors up to the first free one, which it sets. -/
def alloc_fd (opened : Nat → Bool) : List Access :=
  match freeFd opened with
  | none => sweep .ofile NOFILE
  | some fd => sweep .ofile (fd + 1) ++ [⟨.ofile, fd⟩]

/-- `sys_pipe` once `pipealloc` has succeeded. -/
def pipeFds (env : Surroundings) : List Access :=
  alloc_fd env.opened ++
    match freeFd env.opened with
    | none => []
    | some fd0 =>
      let opened := Function.update env.opened fd0 true
      alloc_fd opened ++
        match freeFd opened with
        | none => [⟨.ofile, fd0⟩]
        | some fd1 => if env.copies then [] else [⟨.ofile, fd0⟩, ⟨.ofile, fd1⟩]

/-- The loops of `fail_work4exec` and at the end of `sys_exec`, with `n` arguments in `argv`. -/
def freeArgv (n : Nat) : List Access := sweep .argv (min (n + 1) MAXARGV)

/-- The loop of `sys_exec` from argument `i` on, and the number of arguments it collects. -/
def collect (env : Surroundings) (uargv : Nat) : Nat → Nat → List Access × Option Nat
  | 0, _ => ([], none)
  | fuel + 1, i =>
    if MAXARGV < i then (freeArgv i, none)
    else
      match fetch_addr env uargv i with
      | none => (freeArgv i, none)
      | some 0 => ([⟨.argv, i⟩], some i)
      | some uarg =>
        -- An empty `kalloc().value()` ends the call.
        if env.frames ≤ i then ([], none)
        else if fetched env uarg PGSIZE then
          let (accesses, argc) := collect env uargv fuel (i + 1)
          (⟨.argv, i⟩ :: accesses, argc)
        else (⟨.argv, i⟩ :: freeArgv (i + 1), none)

/-- The loop of `loader::exec` that pushes arguments, with `n` of them in `argv`. -/
def push (env : Surroundings) (n : Nat) : Nat → Nat → List Access
  | 0, _ => []
  | fuel + 1, argc =>
    ⟨.argv, argc⟩ ::
      if argc < n then
        if MAXARGV ≤ argc then []
        else if env.pushes argc then ⟨.ustack, argc⟩ :: push env n fuel (argc + 1)
        else []
      else ⟨.ustack, argc⟩ :: sweep .ustack (argc + 1)

def sys_exec (env : Surroundings) (path uargv : Nat) : List Access :=
  fetchPath env path MAXPATH ++
    if fetched env path MAXPATH then
      match collect env uargv (MAXARGV + 2) 0 with
      | (accesses, none) => accesses
      | (accesses, some n) =>
        accesses ++
          if env.reaches then push env n (MAXARGV + 1) 0 ++ freeArgv n else freeArgv n
    else []

/-- The accesses of a system call. -/
def call (env : Surroundings) : Fs.Call → List Access
  | .sys_fork => sweep .ofile NOFILE
  | .sys_exit => sweep .ofile NOFILE
  | .sys_pipe => if env.reaches then pipeFds env else []
  | .sys_read fd _ _ => get_fd fd
  | .sys_write fd _ _ => get_fd fd
  | .sys_fstat fd _ => get_fd fd
  | .sys_dup fd => get_fd fd ++ if hasFile env fd then alloc_fd env.opened else []
  | .sys_close fd => get_fd fd ++ if hasFile env fd then get_fd fd else []
  | .sys_exec path argv => sys_exec env path argv
  | .sys_chdir path => fetchPath env path MAXPATH
  | .sys_mkdir path => fetchPath env path MAXPATH
  | .sys_open path _ =>
    fetchPath env path MAXPATH ++ if env.reaches then alloc_fd env.opened else []
  | .sys_mknod path _ _ => fetchPath env path MAXFILE
  | .sys_wait | .sys_kill | .sys_getpid | .sys_sbrk | .sys_sleep | .sys_uptime | .sys_unlink
  | .sys_link | .sys_setuid _ | .sys_setgid _ => []

/-- `syscall::syscall`; a number beyond the table calls whatever lies behind it. -/
def syscall (r : Registers) (env : Surroundings) : List Access :=
  let num := r.a7.toNat
  if num ≤ sizeofSyscalls then
    ⟨.syscalls, num⟩ ::
      match syscalls[num]? with
      | some entry => call env (entry r)
      | none => []
  else []

/-- Every access of the list is inside its array. -/
def Safe (accesses : List Access) : Prop := ∀ access ∈ accesses, access.InBounds

/-- The user's memory holds 128 bytes other than zero and one more byte at an address. -/
def LongPath (env : Surroundings) (addr : Nat) : Prop :=
  (∀ k < MAXPATH, ∃ byte, env.memory (addr + k) = some byte ∧ byte ≠ 0) ∧
    env.memory (addr + MAXPATH) ≠ none

/-- Argument `i` is fetched by `sys_exec`. -/
def Fetched (env : Surroundings) (uargv i : Nat) : Prop :=
  ∃ uarg, fetch_addr env uargv i = some uarg ∧ uarg ≠ 0 ∧ i < env.frames ∧
    fetched env uarg PGSIZE = true

/-- Slot `i` of `argv` is stored to: with the null pointer, or with a page. -/
def Stored (env : Surroundings) (uargv i : Nat) : Prop :=
  ∃ uarg, fetch_addr env uargv i = some uarg ∧ (uarg = 0 ∨ i < env.frames)

/-- `sys_exec` collects 32 arguments and stores one slot more. -/
def LongArgv (env : Surroundings) (path uargv : Nat) : Prop :=
  fetched env path MAXPATH = true ∧ (∀ i < MAXARGV, Fetched env uargv i) ∧ Stored env uargv MAXARGV

section

variable {env : Surroundings}

@[simp]
theorem safe_nil : Safe [] := by simp [Safe]

@[simp]
theorem safe_cons {access : Access} {accesses : List Access} :
    Safe (access :: accesses) ↔ access.InBounds ∧ Safe accesses := by
  simp [Safe]

@[simp]
theorem safe_append {left right : List Access} : Safe (left ++ right) ↔ Safe left ∧ Safe right := by
  simp only [Safe, List.mem_append]
  exact ⟨fun safe => ⟨fun a h => safe a (.inl h), fun a h => safe a (.inr h)⟩,
    fun safe a h => h.elim (safe.1 a) (safe.2 a)⟩

/-- A sweep is safe when it stays inside its array. -/
@[simp]
theorem safe_sweep {array : Target} {count : Nat} : Safe (sweep array count) ↔ count ≤ array.size := by
  simp only [Safe, sweep, List.mem_map, List.mem_range, forall_exists_index, and_imp,
    forall_apply_eq_imp_iff₂, Access.InBounds]
  exact ⟨fun safe => le_of_not_gt fun more => lt_irrefl _ (safe _ more),
    fun bound i small => lt_of_lt_of_le small bound⟩

theorem safe_get_fd (argument : Nat) : Safe (get_fd argument) := by
  simp only [get_fd]
  split
  · simp
  · simp only [safe_cons, Access.InBounds, Target.size, safe_nil, and_true]
    omega

theorem freeFd_lt {opened : Nat → Bool} {fd : Nat} (found : freeFd opened = some fd) :
    fd < NOFILE := List.mem_range.mp (List.mem_of_find?_eq_some found)

theorem safe_alloc_fd (opened : Nat → Bool) : Safe (alloc_fd opened) := by
  simp only [alloc_fd]
  split
  · simp [Target.size]
  · next found =>
    have below := freeFd_lt found
    rw [safe_append, safe_sweep, safe_cons]
    exact ⟨below, below, safe_nil⟩

theorem safe_pipeFds : Safe (pipeFds env) := by
  simp only [pipeFds, safe_append, safe_alloc_fd, true_and]
  split
  · simp
  · next fd0 found =>
    have first : Access.InBounds ⟨.ofile, fd0⟩ := freeFd_lt found
    simp only [safe_append, safe_alloc_fd, true_and]
    split
    · simp [first]
    · next found' =>
      split
      · simp
      · simp only [safe_cons, first, true_and, safe_nil, and_true]
        exact freeFd_lt found'

theorem safe_freeArgv (n : Nat) : Safe (freeArgv n) := by
  simp [freeArgv, Target.size]

end

section

variable {env : Surroundings}

/-- The first byte of a string decides what else is stored. -/
theorem stored_succ (env : Surroundings) (addr len : Nat) :
    stored env addr (len + 1) =
      match env.memory addr with
      | none => 0
      | some byte => if byte = 0 then 1 else stored env (addr + 1) len + 1 := by
  cases found : env.memory addr with
  | none => simp [stored, fetched, copyinstr, found]
  | some byte =>
    by_cases zero : byte = 0
    · simp [stored, fetched, copyinstr, found, zero]
    · simp only [stored, fetched, copyinstr, found, zero, if_false, List.length_cons]
      rw [add_right_comm]
      congr

theorem stored_le (env : Surroundings) (addr len : Nat) : stored env addr len ≤ len := by
  induction len generalizing addr with
  | zero => simp [stored, fetched, copyinstr]
  | succ len ih =>
    have rest := ih (addr + 1)
    rw [stored_succ]
    split
    · exact zero_le
    · split
      · exact Nat.le_add_left 1 len
      · exact Nat.succ_le_succ rest

theorem lt_stored_iff {addr len m : Nat} (small : m < len) :
    m < stored env addr len ↔
      (∀ k < m, ∃ byte, env.memory (addr + k) = some byte ∧ byte ≠ 0) ∧
        env.memory (addr + m) ≠ none := by
  induction m generalizing addr len with
  | zero =>
    obtain ⟨len, rfl⟩ := Nat.exists_eq_add_one.mpr small
    rw [stored_succ]
    cases found : env.memory addr with
    | none => simp
    | some byte => by_cases zero : byte = 0 <;> simp [zero]
  | succ m ih =>
    obtain ⟨len, rfl⟩ := Nat.exists_eq_add_one.mpr (Nat.zero_lt_of_lt small)
    have later : (∀ k < m + 1, ∃ byte, env.memory (addr + k) = some byte ∧ byte ≠ 0) ↔
        (∃ byte, env.memory addr = some byte ∧ byte ≠ 0) ∧
          ∀ k < m, ∃ byte, env.memory (addr + 1 + k) = some byte ∧ byte ≠ 0 := by
      rw [Nat.forall_lt_succ_left']
      simp only [add_zero, add_assoc, add_comm 1]
    rw [later, stored_succ, show addr + (m + 1) = addr + 1 + m by omega, and_assoc,
      ← ih (Nat.lt_of_succ_lt_succ small)]
    cases found : env.memory addr with
    | none => simp
    | some byte => by_cases zero : byte = 0 <;> simp [zero]

/-- Paths of at most `MAXPATH` bytes fit. -/
theorem safe_fetchPath (addr : Nat) : Safe (fetchPath env addr MAXPATH) := by
  rw [fetchPath, safe_sweep]
  exact stored_le env addr MAXPATH

/-- The path of `sys_mknod` fits exactly when it is not too long. -/
theorem safe_mknod_iff (addr : Nat) : Safe (fetchPath env addr MAXFILE) ↔ ¬LongPath env addr := by
  rw [fetchPath, safe_sweep, ← not_lt, LongPath, ← lt_stored_iff (by decide : MAXPATH < MAXFILE)]
  rfl

end

section

variable {env : Surroundings} {uargv : Nat}

theorem collect_succ {fuel i : Nat} (bound : i ≤ MAXARGV) :
    (Fetched env uargv i ∧ collect env uargv (fuel + 1) i =
      (⟨.argv, i⟩ :: (collect env uargv fuel (i + 1)).1, (collect env uargv fuel (i + 1)).2)) ∨
    (¬Fetched env uargv i ∧ Stored env uargv i ∧ ∃ accesses argc, Safe accesses ∧
      collect env uargv (fuel + 1) i = (⟨.argv, i⟩ :: accesses, argc) ∧ (argc = none ∨ argc = some i)) ∨
    (¬Stored env uargv i ∧ ∃ accesses, Safe accesses ∧
      collect env uargv (fuel + 1) i = (accesses, none)) := by
  rw [collect, if_neg (Nat.not_lt.mpr bound)]
  cases found : fetch_addr env uargv i with
  | none => exact .inr (.inr ⟨by simp [Stored, found], _, safe_freeArgv i, rfl⟩)
  | some uarg =>
    cases uarg with
    | zero =>
      exact .inr (.inl ⟨by simp [Fetched, found], ⟨0, found, .inl rfl⟩, [], some i, safe_nil, rfl,
        .inr rfl⟩)
    | succ uarg =>
      simp only
      split_ifs with empty string
      · exact .inr (.inr ⟨by simp [Stored, found, Nat.not_lt.mpr empty], [], safe_nil, rfl⟩)
      · exact .inl ⟨⟨_, found, by omega, by omega, string⟩, rfl⟩
      · exact .inr (.inl ⟨by simp [Fetched, found, string], ⟨_, found, .inr (by omega)⟩, _, none,
          safe_freeArgv (i + 1), rfl, .inl rfl⟩)

/-- The loop of `sys_exec` overruns `argv` exactly when the 33rd slot is stored to. -/
theorem safe_collect_iff {fuel i : Nat} (bound : i ≤ MAXARGV) (enough : MAXARGV + 2 ≤ fuel + i) :
    Safe (collect env uargv fuel i).1 ↔
      ¬((∀ k, i ≤ k → k < MAXARGV → Fetched env uargv k) ∧ Stored env uargv MAXARGV) := by
  induction fuel generalizing i with
  | zero => omega
  | succ fuel ih =>
    rcases lt_or_eq_of_le bound with inside | rfl
    · have here : Access.InBounds ⟨.argv, i⟩ := inside
      have later : (∀ k, i ≤ k → k < MAXARGV → Fetched env uargv k) ↔
          Fetched env uargv i ∧ ∀ k, i + 1 ≤ k → k < MAXARGV → Fetched env uargv k := by
        constructor
        · exact fun all => ⟨all i le_rfl inside, fun k above => all k (by omega)⟩
        · rintro ⟨first, rest⟩ k above below
          rcases Nat.eq_or_lt_of_le above with rfl | above
          · exact first
          · exact rest k above below
      rw [later]
      rcases collect_succ bound with ⟨got, result⟩ | ⟨missing, -, accesses, argc, safe, result, -⟩ |
        ⟨unstored, accesses, safe, result⟩
      · rw [result, safe_cons, ih inside (by omega)]
        simp [here, got]
      · rw [result]
        simp [here, safe, missing]
      · have missing : ¬Fetched env uargv i := by
          rintro ⟨uarg, found, -, room, -⟩
          exact unstored ⟨uarg, found, .inr room⟩
        rw [result]
        simp [safe, missing]
    · have outside : ¬Access.InBounds ⟨.argv, MAXARGV⟩ := lt_irrefl _
      have none_left : ∀ k, MAXARGV ≤ k → k < MAXARGV → Fetched env uargv k := by omega
      rcases collect_succ bound with ⟨⟨uarg, found, -, room, -⟩, result⟩ |
        ⟨-, stored, accesses, argc, -, result, -⟩ | ⟨unstored, accesses, safe, result⟩
      · have stored : Stored env uargv MAXARGV := ⟨uarg, found, .inr room⟩
        rw [result, safe_cons]
        exact iff_of_false (fun safe => outside safe.1) (not_not.mpr ⟨none_left, stored⟩)
      · rw [result, safe_cons]
        exact iff_of_false (fun safe => outside safe.1) (not_not.mpr ⟨none_left, stored⟩)
      · rw [result]
        simp [safe, unstored]

/-- The slot behind the last argument that is accepted is stored to. -/
theorem mem_collect {fuel i n : Nat} (bound : i ≤ MAXARGV)
    (collected : (collect env uargv fuel i).2 = some n) :
    (⟨.argv, n⟩ : Access) ∈ (collect env uargv fuel i).1 := by
  induction fuel generalizing i with
  | zero => simp [collect] at collected
  | succ fuel ih =>
    rcases collect_succ bound with ⟨-, result⟩ | ⟨-, -, accesses, argc, -, result, ends⟩ |
      ⟨-, accesses, -, result⟩
    · rw [result] at collected ⊢
      rcases lt_or_eq_of_le bound with inside | rfl
      · exact .tail _ (ih inside collected)
      · cases fuel with
        | zero => simp [collect] at collected
        | succ fuel => simp [collect] at collected
    · rw [result] at collected ⊢
      rcases ends with rfl | rfl
      · simp at collected
      · cases collected
        exact .head _
    · rw [result] at collected
      simp at collected

theorem safe_push {n fuel argc : Nat} (few : n < MAXARGV) (bound : argc ≤ n) :
    Safe (push env n fuel argc) := by
  induction fuel generalizing argc with
  | zero => simp [push]
  | succ fuel ih =>
    have here : Access.InBounds ⟨.argv, argc⟩ := lt_of_le_of_lt bound few
    have there : Access.InBounds ⟨.ustack, argc⟩ := lt_of_le_of_lt bound few
    simp only [push, safe_cons, here, true_and]
    split_ifs with more full pushed
    · simp
    · simp [there, ih more]
    · simp
    · simp only [safe_cons, there, safe_sweep, true_and]
      exact lt_of_le_of_lt bound few

/-- `sys_exec` stays in bounds exactly when there are not too many arguments. -/
theorem safe_exec_iff (path : Nat) : Safe (sys_exec env path uargv) ↔ ¬LongArgv env path uargv := by
  simp only [sys_exec, safe_append, safe_fetchPath, true_and, LongArgv]
  cases found : fetched env path MAXPATH with
  | false => simp
  | true =>
    have collected : Safe (collect env uargv (MAXARGV + 2) 0).1 ↔ _ :=
      safe_collect_iff zero_le le_rfl
    simp only [Nat.zero_le, true_imp_iff] at collected
    simp only [if_true, true_and, ← collected]
    split
    · next accesses stopped => rw [stopped]
    · next accesses n stopped =>
      rw [stopped]
      have last := mem_collect zero_le (congrArg Prod.snd stopped)
      rw [stopped] at last
      refine ⟨fun safe => (safe_append.mp safe).1, fun safe => safe_append.mpr ⟨safe, ?_⟩⟩
      have few : n < MAXARGV := safe _ last
      split
      · exact safe_append.mpr ⟨safe_push few zero_le, safe_freeArgv n⟩
      · exact safe_freeArgv n

end

/-- Calls other than `exec` and `mknod` stay in bounds. -/
theorem safe_call_iff (env : Surroundings) (c : Fs.Call) :
    Safe (call env c) ↔
      (∀ path argv, c = .sys_exec path argv → ¬LongArgv env path argv) ∧
        ∀ path major minor, c = .sys_mknod path major minor → ¬LongPath env path := by
  cases c with
  | sys_exec path argv => simp [call, safe_exec_iff]
  | sys_mknod path major minor => simp [call, safe_mknod_iff]
  | sys_pipe =>
    simp only [call]
    split <;> simp [safe_pipeFds]
  | sys_open path mode =>
    simp only [call, safe_append, safe_fetchPath]
    split <;> simp [safe_alloc_fd]
  | sys_dup fd =>
    simp only [call, safe_append, safe_get_fd]
    split <;> simp [safe_alloc_fd]
  | sys_close fd =>
    simp only [call, safe_append, safe_get_fd]
    split <;> simp [safe_get_fd]
  | _ => simp [call, safe_get_fd, safe_fetchPath, Target.size]

/-- Where the table holds `exec` and `mknod`. -/
theorem syscalls_cases {r : Registers} {num : Nat} (small : num < 23) :
    ∃ entry, syscalls[num]? = some entry ∧
      (∀ path argv, entry r = .sys_exec path argv ↔
        num = 6 ∧ path = r.a0.toNat ∧ argv = r.a1.toNat) ∧
      ∀ path major minor, entry r = .sys_mknod path major minor ↔
        num = 16 ∧ path = r.a0.toNat ∧ major = r.a1.toNat ∧ minor = r.a2.toNat := by
  interval_cases num <;> exact ⟨_, rfl, by simp [eq_comm], by simp [eq_comm]⟩

/-- A system call stays in bounds unless its number is just behind the table, it passes 32 arguments
to `exec`, or an overlong path to `mknod`. -/
theorem syscall_inBounds_iff (r : Registers) (env : Surroundings) :
    (∀ access ∈ syscall r env, access.InBounds) ↔
      (r.a7.toNat < 23 ∨ 184 < r.a7.toNat) ∧
      (r.a7.toNat = 6 → ¬LongArgv env r.a0.toNat r.a1.toNat) ∧
      (r.a7.toNat = 16 → ¬LongPath env r.a0.toNat) := by
  change Safe (syscall r env) ↔ _
  have bytes : sizeofSyscalls = 184 := rfl
  simp only [syscall, bytes]
  rcases Nat.lt_or_ge r.a7.toNat 23 with small | large
  · obtain ⟨entry, found, exec, mknod⟩ := syscalls_cases (r := r) small
    have inside : Access.InBounds ⟨.syscalls, r.a7.toNat⟩ := small
    rw [if_pos (by omega), found]
    simp only [safe_cons, inside, safe_call_iff, exec, mknod, small, true_and, true_or]
    constructor
    · rintro ⟨argv, path⟩
      exact ⟨fun six => argv _ _ ⟨six, rfl, rfl⟩, fun sixteen => path _ _ _ ⟨sixteen, rfl, rfl, rfl⟩⟩
    · rintro ⟨argv, path⟩
      refine ⟨?_, ?_⟩
      · rintro _ _ ⟨six, rfl, rfl⟩
        exact argv six
      · rintro _ _ _ ⟨sixteen, rfl, rfl, rfl⟩
        exact path sixteen
  · have outside : ¬Access.InBounds ⟨.syscalls, r.a7.toNat⟩ := Nat.not_lt.mpr large
    split
    · next near => simp [outside, Nat.not_lt.mpr large, Nat.not_lt.mpr near]
    · next far =>
      refine iff_of_true safe_nil ⟨.inr (by omega), by omega, by omega⟩

/-- A process with nothing in its memory. -/
def bare : Surroundings where
  memory := fun _ => none
  sz := 0
  opened := fun _ => false
  frames := 0
  reaches := false
  pushes := fun _ => false
  copies := false

/-- System call 23 calls the word behind the table. -/
theorem syscall_escapes_table :
    ⟨.syscalls, 23⟩ ∈ syscall ⟨0, 0, 0, 23⟩ bare ∧ ¬Access.InBounds ⟨.syscalls, 23⟩ :=
  ⟨List.mem_cons_self, by decide⟩

end OsCpp.Trap
