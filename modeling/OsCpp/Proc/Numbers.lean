import OsCpp.Proc.Recycling

/-!
# Numbers of processes

`alloc_pid` counts modulo 2^32 and looks at no process; `fork` returns its numbers as `int32_t`.
-/

namespace OsCpp.Proc

open Execution (Run exists_run_of_exec)
open State (alloc copy locking proceed)

variable {Cpu : Type}

/-- The entry that `alloc_proc` finds in a step, and that gets a number. -/
def State.numbers (s : State Cpu) : Event Cpu → Option Slot
  | .advance c _ =>
    match s.mode c with
    | .run p =>
      match (s.proc_list p).thread with
      | .code (.allocating (q :: _)) => if (s.proc_list q).status = .UNUSED then some q else none
      | _ => none
    | _ => none
  | _ => none

/-- `alloc_pid` hands out numbers below 2^31 only. -/
def Counts (s : State Cpu) (event : Event Cpu) : Prop :=
  s.numbers event = none ∨ s.next_pid < 2 ^ 31

instance (s : State Cpu) (event : Event Cpu) : Decidable (Counts s event) :=
  inferInstanceAs (Decidable (_ ∨ _))

/-- No process gets a number, or is in use that was not. -/
def Renamed (s t : State Cpu) : Prop :=
  t.next_pid = s.next_pid ∧ ∀ q, (t.proc_list q).status ≠ .UNUSED →
    (s.proc_list q).status ≠ .UNUSED ∧ (t.proc_list q).pid = (s.proc_list q).pid

/-- One entry gets the next number. -/
structure Hands (s t : State Cpu) (q : Slot) : Prop where
  next : t.next_pid = (s.next_pid + 1) % 2 ^ 32
  fresh : (t.proc_list q).pid = s.next_pid
  entry : ∀ r ≠ q, (t.proc_list r).status ≠ .UNUSED →
    (s.proc_list r).status ≠ .UNUSED ∧ (t.proc_list r).pid = (s.proc_list r).pid

theorem renamed_step [DecidableEq Cpu] {s t : State Cpu} {event : Event Cpu} {home : Slot → Option Cpu}
    (placed : Placed s home) (idle : s.numbers event = none) (taken : step s event = some t) :
    Renamed s t := by
  have changes := Changes.step placed taken
  have none : ∀ q, ¬Allocs s event q := by
    rintro q ⟨unused, p, todo, c, answer, rfl, runs, code⟩
    simp [State.numbers, runs, code, unused] at idle
  refine ⟨changes.1.resolve_right fun ⟨q, allocs⟩ => none q allocs, fun q used => ?_⟩
  exact ((changes.2 q).used used).resolve_right (none q)

theorem goto_entry (s : State Cpu) (p r : Slot) (point : Point) :
    ((s.goto p point).proc_list r).status = (s.proc_list r).status ∧
      ((s.goto p point).proc_list r).pid = (s.proc_list r).pid := by
  rcases eq_or_ne r p with rfl | other
  · simp [State.goto]
  · simp [State.goto, set_other_entry _ _ other]

theorem hands_step [DecidableEq Cpu] {s t : State Cpu} {event : Event Cpu} {q : Slot} (numbers : s.numbers event = some q)
    (taken : step s event = some t) : Hands s t q ∧ (t.proc_list q).status ≠ .UNUSED := by
  cases event with
  | advance c answer =>
    simp only [State.numbers] at numbers
    split at numbers
    next p runs =>
      split at numbers
      next q' todo code =>
        obtain ⟨unused, same⟩ := Option.ite_none_right_eq_some.mp numbers
        obtain rfl := Option.some.inj same
        simp only [step, runs, Option.ite_none_right_eq_some, proceed, code, State.advance,
          locking_eq_some, alloc, if_pos unused] at taken
        obtain ⟨-, -, rfl⟩ := taken
        refine ⟨⟨rfl, ?_, fun r apart used => ?_⟩, ?_⟩
        · rw [(goto_entry _ p q' _).2]
          exact congrArg Process.pid (set_self ..)
        · rw [(goto_entry _ p r _).1] at used
          rw [(goto_entry _ p r _).2]
          have kept : (s.set q' { s.proc_list q' with
              lock := some c, pid := s.next_pid, status := .USED }).proc_list r = s.proc_list r :=
            set_other_entry _ _ apart
          exact ⟨kept ▸ used, congrArg Process.pid kept⟩
        · rw [(goto_entry _ p q' _).1]
          have fresh : ((s.set q' { s.proc_list q' with
              lock := some c, pid := s.next_pid, status := .USED }).proc_list q').status = .USED :=
            congrArg Process.status (set_self ..)
          intro gone
          cases fresh.symm.trans gone
      next => cases numbers
    next => cases numbers
  | _ => cases numbers

/-! ## Different numbers -/

/-- The processes have different numbers from one up to the next one. -/
structure Numbered (s : State Cpu) : Prop where
  positive : ∀ q, (s.proc_list q).status ≠ .UNUSED → 1 ≤ (s.proc_list q).pid
  below : ∀ q, (s.proc_list q).status ≠ .UNUSED → (s.proc_list q).pid < s.next_pid
  unique : ∀ q r, (s.proc_list q).status ≠ .UNUSED → (s.proc_list r).status ≠ .UNUSED →
    (s.proc_list q).pid = (s.proc_list r).pid → q = r
  first : 1 ≤ s.next_pid
  last : s.next_pid ≤ 2 ^ 31

namespace Numbered

variable {s t : State Cpu}

theorem renamed (numbered : Numbered s) (renamed : Renamed s t) : Numbered t := by
  obtain ⟨next, entry⟩ := renamed
  refine ⟨fun q used => ?_, fun q used => ?_, fun q r used used' same => ?_, ?_, ?_⟩
  · rw [(entry q used).2]
    exact numbered.positive q (entry q used).1
  · rw [(entry q used).2, next]
    exact numbered.below q (entry q used).1
  · rw [(entry q used).2, (entry r used').2] at same
    exact numbered.unique q r (entry q used).1 (entry r used').1 same
  · rw [next]
    exact numbered.first
  · rw [next]
    exact numbered.last

theorem hands (numbered : Numbered s) {q : Slot} (hands : Hands s t q) (small : s.next_pid < 2 ^ 31) :
    Numbered t := by
  have first := numbered.first
  have next : t.next_pid = s.next_pid + 1 := by
    rw [hands.next]
    omega
  have old : ∀ r ≠ q, (t.proc_list r).status ≠ .UNUSED →
      1 ≤ (t.proc_list r).pid ∧ (t.proc_list r).pid < s.next_pid := by
    intro r other used
    obtain ⟨before, same⟩ := hands.entry r other used
    rw [same]
    exact ⟨numbered.positive r before, numbered.below r before⟩
  refine ⟨fun r used => ?_, fun r used => ?_, fun r r' used used' same => ?_, by omega, by omega⟩
  · rcases eq_or_ne r q with rfl | other
    · rw [hands.fresh]
      exact first
    · exact (old r other used).1
  · rcases eq_or_ne r q with rfl | other
    · rw [hands.fresh, next]
      omega
    · have below := (old r other used).2
      omega
  · have fresh := hands.fresh
    rcases eq_or_ne r q with rfl | other
    · by_contra apart
      have below := (old r' (Ne.symm apart) used').2
      omega
    · rcases eq_or_ne r' q with rfl | other'
      · have below := (old r other used).2
        omega
      · obtain ⟨before, pid⟩ := hands.entry r other used
        obtain ⟨before', pid'⟩ := hands.entry r' other' used'
        exact numbered.unique r r' before before' (by rw [← pid, ← pid', same])

theorem step [DecidableEq Cpu] (numbered : Numbered s) {home : Slot → Option Cpu}
    (placed : Placed s home) {event : Event Cpu} (counts : Counts s event)
    (taken : step s event = some t) : Numbered t := by
  cases numbers : s.numbers event with
  | none => exact numbered.renamed (renamed_step placed numbers taken)
  | some q =>
    refine numbered.hands (hands_step numbers taken).1 (counts.resolve_left ?_)
    simp [numbers]

theorem user_init (trapframe pagetable cwd : Nat) :
    Numbered (user_init trapframe pagetable cwd : State Cpu) := by
  have only : ∀ q, ((Proc.user_init trapframe pagetable cwd : State Cpu).proc_list q).status ≠ .UNUSED →
      q = init_proc := by
    intro q used
    by_contra other
    rw [user_init_other other] at used
    exact used rfl
  refine ⟨fun q used => ?_, fun q used => ?_, fun q r used used' _ => ?_, ?_, ?_⟩
  · obtain rfl := only q used
    rw [user_init_first]
  · obtain rfl := only q used
    rw [user_init_first]
    exact Nat.lt_succ_self 1
  · rw [only q used, only r used']
  · exact Nat.le_succ 1
  · exact Nat.le_of_ble_eq_true rfl

end Numbered

/-- The numbers that are positive as `int32_t`. -/
theorem int32_pos_iff {n : Nat} (small : n ≤ 2 ^ 31) (positive : 1 ≤ n) : 0 < int32 n ↔ n < 2 ^ 31 := by
  rw [int32, BitVec.toInt_ofNat', Int.bmod_def]
  omega

section

variable [DecidableEq Cpu] {trapframe pagetable cwd : Nat} {events : List (Event Cpu)} {s t : State Cpu}
  {event : Event Cpu}

theorem numbered_run (run : Run step Counts (user_init trapframe pagetable cwd) events s) :
    Numbered s ∧ ∃ home, Placed s home := by
  induction run with
  | nil => exact ⟨Numbered.user_init _ _ _, _, placed_user_init _ _ _⟩
  | snoc _ counts taken ih =>
    obtain ⟨numbered, _, placed⟩ := ih
    exact ⟨numbered.step placed counts taken, placed.step taken⟩

/-- The value `fork` returns to the parent when the child becomes runnable. -/
theorem fork_returns {c : Cpu} {p np : Slot} {answer : Answer} (runs : s.mode c = .run p)
    (code : (s.proc_list p).thread = .code (.publishing np))
    (taken : step s (.advance c answer) = some t) :
    (t.proc_list p).thread = .code .outside ∧ (t.proc_list p).a0 = int32 (s.proc_list np).pid := by
  simp only [step, runs, Option.ite_none_right_eq_some, proceed, code, State.advance,
    locking_eq_some] at taken
  obtain ⟨-, -, rfl⟩ := taken
  simp [State.ret, State.goto]

/-- Numbers below 2^31 are different and positive; the first one from 2^31 on is negative for
`fork`. -/
theorem pids_identify
    (run : Run step Counts (user_init trapframe pagetable cwd) events s) :
    (∀ q, (s.proc_list q).status ≠ .UNUSED → (s.proc_list q).pid ≠ 0) ∧
    (∀ q r, (s.proc_list q).status ≠ .UNUSED → (s.proc_list r).status ≠ .UNUSED →
      (s.proc_list q).pid = (s.proc_list r).pid → q = r) ∧
    ∀ {event : Event Cpu} {t : State Cpu}, step s event = some t →
      (Counts s event ↔ ∀ q, (t.proc_list q).status ≠ .UNUSED → 0 < int32 (t.proc_list q).pid) ∧
      ∀ c p np answer, event = .advance c answer → s.mode c = .run p →
        (s.proc_list p).thread = .code (.publishing np) →
        (t.proc_list p).thread = .code .outside ∧ 0 < (t.proc_list p).a0 := by
  obtain ⟨numbered, home, placed⟩ := numbered_run run
  have positive : ∀ {u : State Cpu}, Numbered u → ∀ q, (u.proc_list q).status ≠ .UNUSED →
      0 < int32 (u.proc_list q).pid := by
    intro u numbered q used
    have below := (numbered.below q used).trans_le numbered.last
    exact (int32_pos_iff below.le (numbered.positive q used)).mpr below
  refine ⟨fun q used => ?_, numbered.unique, fun {event t} taken => ⟨⟨fun counts => ?_, fun shown => ?_⟩,
    ?_⟩⟩
  · have first := numbered.positive q used
    omega
  · exact positive (numbered.step placed counts taken)
  · cases numbers : s.numbers event with
    | none => exact .inl numbers
    | some q =>
      obtain ⟨hands, used⟩ := hands_step numbers taken
      have sign := shown q used
      rw [hands.fresh, int32_pos_iff numbered.last numbered.first] at sign
      exact .inr sign
  · rintro c p np answer rfl runs code
    obtain ⟨returned, value⟩ := fork_returns runs code taken
    refine ⟨returned, value ▸ positive numbered np ?_⟩
    rw [placed.child p np (by rw [code]; rfl)]
    decide

end

/-- The first process forks and both numbers are positive. -/
def forkTwo : List (Event Unit) :=
  [.pick () init_proc, .enter (), .advance () {}] ++ forkOne ++
    [.advance () { memory := some (4, 5) }, .advance () {}]

theorem pids_identify_fork_two :
    ∃ s, Run step Counts (user_init 1 2 3) forkTwo s ∧
      (∃ t, step s (.advance () {}) = some t ∧ (t.proc_list init_proc).a0 = 2 ∧
        (t.proc_list second).status = .RUNNABLE ∧ 0 < (t.proc_list init_proc).a0) ∧
      ∀ q r, (s.proc_list q).status ≠ .UNUSED → (s.proc_list r).status ≠ .UNUSED →
        (s.proc_list q).pid = (s.proc_list r).pid → q = r := by
  obtain ⟨s, run, reached⟩ : ∃ s, Run step Counts (user_init 1 2 3) forkTwo s ∧
      decide (s.mode () = .run init_proc ∧
        (s.proc_list init_proc).thread = .code (.publishing second) ∧
        (step s (.advance () {})).any (fun t =>
          decide ((t.proc_list init_proc).a0 = 2 ∧ (t.proc_list second).status = .RUNNABLE)) = true) =
        true :=
    exists_run_of_exec (by decide +kernel)
  obtain ⟨runs, code, reached⟩ := of_decide_eq_true reached
  obtain ⟨-, unique, stepped⟩ := pids_identify run
  cases taken : step s (.advance () {}) with
  | none => simp [taken] at reached
  | some t =>
    rw [taken] at reached
    obtain ⟨value, child⟩ := of_decide_eq_true reached
    exact ⟨s, run, ⟨t, taken, value, child, ((stepped taken).2 _ _ _ _ rfl runs code).2⟩, unique⟩

/-! ## Numbers run out -/

/-- Only the first process is there, and it runs at a point. -/
structure Alone (s : State Unit) (point : Point) (next : Nat) : Prop where
  runs : s.mode () = .run init_proc
  code : (s.proc_list init_proc).thread = .code point
  status : (s.proc_list init_proc).status = .RUNNING
  lock : (s.proc_list init_proc).lock = none
  pid : (s.proc_list init_proc).pid = 1
  wait_lock : s.wait_lock = none
  panic : s.panic = none
  next : s.next_pid = next % 2 ^ 32

/-- The second entry is free. -/
structure Vacant (s : State Unit) : Prop where
  status : (s.proc_list second).status = .UNUSED
  lock : (s.proc_list second).lock = none

/-- The second entry has a number and is held by `fork`. -/
structure Taken (s : State Unit) (pid : Nat) : Prop where
  status : (s.proc_list second).status = .USED
  lock : (s.proc_list second).lock = some ()
  pid : (s.proc_list second).pid = pid % 2 ^ 32

theorem slots_eq : ∃ rest, slots = init_proc :: second :: rest := ⟨_, rfl⟩

theorem second_ne : second ≠ init_proc := by decide

section

variable {s : State Unit} {n : Nat}

theorem Alone.goto {old : Point} (alone : Alone s old n) (point : Point) :
    Alone (s.goto init_proc point) point n := by
  obtain ⟨runs, code, status, lock, pid, wait_lock, panic, next⟩ := alone
  refine ⟨runs, ?_, ?_, ?_, ?_, wait_lock, panic, next⟩ <;> rw [State.goto, set_self] <;> assumption

theorem Alone.ret {old : Point} (alone : Alone s old n) (value : Int) :
    Alone (s.ret init_proc value) .outside n := by
  have valued : Alone (s.set init_proc { s.proc_list init_proc with a0 := value }) old n := by
    obtain ⟨runs, code, status, lock, pid, wait_lock, panic, next⟩ := alone
    refine ⟨runs, ?_, ?_, ?_, ?_, wait_lock, panic, next⟩ <;> rw [set_self] <;> assumption
  exact valued.goto .outside

theorem Alone.set_second {point : Point} (alone : Alone s point n) (x : Process Unit) :
    Alone (s.set second x) point n := by
  obtain ⟨runs, code, status, lock, pid, wait_lock, panic, next⟩ := alone
  refine ⟨runs, ?_, ?_, ?_, ?_, wait_lock, panic, next⟩ <;>
    rw [set_other_entry _ _ second_ne.symm] <;> assumption

theorem second_goto (s : State Unit) (point : Point) :
    (s.goto init_proc point).proc_list second = s.proc_list second := set_other_entry _ _ second_ne

theorem second_ret (s : State Unit) (value : Int) :
    (s.ret init_proc value).proc_list second = s.proc_list second := by
  rw [State.ret, second_goto, set_other_entry _ _ second_ne]

theorem Alone.advance {point : Point} (alone : Alone s point n) (answer : Answer) :
    step s (.advance () answer) = s.advance () init_proc answer point := by
  simp [step, alone.panic, alone.runs, proceed, alone.code]

section

variable (alone : Alone s .outside n) (vacant : Vacant s)
include alone vacant

/-- `fork` gets the second entry and the next number. -/
theorem Alone.fork_allocates :
    ∃ t, Run step (fun _ _ => True) s forkOne t ∧ Alone t (.copying second) (n + 1) ∧
      Taken t n := by
  obtain ⟨rest, slots_eq⟩ := slots_eq
  have begins : step s (.begin () .fork) = some (s.goto init_proc (.allocating slots)) := by
    simp [step, alone.panic, alone.runs, alone.code, State.start]
  have searching := alone.goto (.allocating slots)
  have vacant_then : Vacant (s.goto init_proc (.allocating slots)) :=
    ⟨by rw [second_goto, vacant.status], by rw [second_goto, vacant.lock]⟩
  generalize s.goto init_proc (.allocating slots) = u at begins searching vacant_then
  rw [slots_eq] at searching
  have passes : step u (.advance () {}) = some (u.goto init_proc (.allocating (second :: rest))) := by
    rw [searching.advance]
    simp [State.advance, locking, searching.lock, alloc, searching.status]
  have reaching := searching.goto (.allocating (second :: rest))
  have vacant_still : Vacant (u.goto init_proc (.allocating (second :: rest))) :=
    ⟨by rw [second_goto, vacant_then.status], by rw [second_goto, vacant_then.lock]⟩
  generalize u.goto init_proc (.allocating (second :: rest)) = v at passes reaching vacant_still
  have numbers : step v (.advance () {}) = some (v.alloc () init_proc second rest) := by
    rw [reaching.advance]
    simp [State.advance, locking, vacant_still.lock]
  have run : Run step (fun _ _ => True) s forkOne (v.alloc () init_proc second rest) :=
    Run.trans (Run.trans (Run.single trivial begins)
      (Run.single trivial passes)) (Run.single trivial numbers)
  refine ⟨_, run, ?_, ?_⟩
  · simp only [alloc, if_pos vacant_still.status]
    obtain ⟨runs, code, status, lock, pid, wait_lock, panic, -⟩ := reaching.set_second
      { v.proc_list second with lock := some (), pid := v.next_pid, status := .USED }
    have counted : (v.next_pid + 1) % 2 ^ 32 = (n + 1) % 2 ^ 32 := by
      rw [reaching.next, Nat.mod_add_mod]
    have kept : Alone { v.set second { v.proc_list second with
        lock := some (), pid := v.next_pid, status := .USED } with
        next_pid := (v.next_pid + 1) % 2 ^ 32 } (.allocating (second :: rest)) (n + 1) :=
      ⟨runs, code, status, lock, pid, wait_lock, panic, counted⟩
    exact kept.goto _
  · simp only [alloc, if_pos vacant_still.status]
    refine ⟨?_, ?_, ?_⟩ <;> rw [second_goto]
    · exact congrArg Process.status (set_self ..)
    · exact congrArg Process.lock (set_self ..)
    · exact (congrArg Process.pid (set_self ..)).trans reaching.next

/-- `fork` without memory uses up a number. -/
theorem Alone.fork_fails :
    ∃ t, Run step (fun _ _ => True) s (forkOne ++ [.advance () {}]) t ∧
      Alone t .outside (n + 1) ∧ Vacant t := by
  obtain ⟨u, run, copying, taken⟩ := alone.fork_allocates vacant
  have fails : step u (.advance () {}) =
      some ((u.set second { (u.proc_list second).free with lock := none }).ret init_proc (-1)) := by
    rw [copying.advance]
    simp [State.advance, copy, taken.lock]
  refine ⟨_, run.snoc trivial fails, (copying.set_second _).ret _, ?_, ?_⟩ <;> rw [second_ret, set_self]
  rfl

/-- `fork` with memory makes a child with the next number and returns it. -/
theorem Alone.fork_succeeds : ∃ events t, Run step (fun _ _ => True) s events t ∧
      (t.proc_list init_proc).status = .RUNNING ∧ (t.proc_list init_proc).pid = 1 ∧
      (t.proc_list init_proc).a0 = int32 (n % 2 ^ 32) ∧
      (t.proc_list second).status = .RUNNABLE ∧ (t.proc_list second).pid = n % 2 ^ 32 := by
  obtain ⟨u, run, copying, taken⟩ := alone.fork_allocates vacant
  have copies : ∃ v, step u (.advance () { memory := some (4, 5) }) = some v ∧
      Alone v (.linking second) (n + 1) ∧ (v.proc_list second).lock = none ∧
      (v.proc_list second).pid = n % 2 ^ 32 := by
    rw [copying.advance]
    simp only [State.advance, copy, taken.lock, if_true]
    refine ⟨_, rfl, (copying.set_second _).goto _, ?_, ?_⟩ <;> rw [second_goto, set_self]
    exact taken.pid
  obtain ⟨v, copies, linking, released, pid⟩ := copies
  have links : ∃ w, step v (.advance () {}) = some w ∧ Alone w (.publishing second) (n + 1) ∧
      (w.proc_list second).lock = none ∧ (w.proc_list second).pid = n % 2 ^ 32 := by
    rw [linking.advance]
    simp only [State.advance, State.waiting, linking.wait_lock, if_true]
    refine ⟨_, rfl, (linking.set_second _).goto _, ?_, ?_⟩ <;> rw [second_goto, set_self] <;> assumption
  obtain ⟨w, links, publishing, free, number⟩ := links
  have publishes : step w (.advance () {}) = some ((w.set second { w.proc_list second with
      status := .RUNNABLE }).ret init_proc (int32 (w.proc_list second).pid)) := by
    rw [publishing.advance]
    simp only [State.advance, locking, free, if_true]
  have after := (publishing.set_second { w.proc_list second with status := .RUNNABLE }).ret
    (int32 (w.proc_list second).pid)
  refine ⟨_, _, ((run.snoc trivial copies).snoc trivial links).snoc trivial publishes, after.status,
    after.pid, ?_, ?_, ?_⟩
  · rw [State.ret, State.goto, set_self, set_self, number]
  · rw [second_ret, set_self]
  · rw [second_ret, set_self, number]

end

end

/-- The first process runs and has tried to fork any number of times. -/
theorem forks_fail (k : Nat) : ∃ events s,
    Run step (fun _ _ => True) (user_init 1 2 3) events s ∧ Alone s .outside (2 + k) ∧
      Vacant s := by
  induction k with
  | zero =>
    obtain ⟨s, run, reached⟩ : ∃ s, Run step (fun _ _ => True) (user_init 1 2 3)
        [.pick () init_proc, .enter (), .advance () {}] s ∧
        decide ((s.mode () = .run init_proc ∧ (s.proc_list init_proc).thread = .code .outside ∧
          (s.proc_list init_proc).status = .RUNNING ∧ (s.proc_list init_proc).lock = none ∧
          (s.proc_list init_proc).pid = 1 ∧ s.wait_lock = none ∧ s.panic = none ∧ s.next_pid = 2) ∧
          (s.proc_list second).status = .UNUSED ∧ (s.proc_list second).lock = none) = true :=
      exists_run_of_exec (by decide +kernel)
    obtain ⟨⟨runs, code, status, lock, pid, wait_lock, panic, next⟩, unused, free⟩ :=
      of_decide_eq_true reached
    exact ⟨_, s, run, ⟨runs, code, status, lock, pid, wait_lock, panic, next⟩, unused, free⟩
  | succ k ih =>
    obtain ⟨events, s, run, alone, vacant⟩ := ih
    obtain ⟨t, more, alone, vacant⟩ := alone.fork_fails vacant
    exact ⟨_, t, run.trans more, alone, vacant⟩

/-- After enough calls of `fork`, one returns a negative number, and a later one repeats the first
number. -/
theorem fork_repeats_number :
    (∃ (events : List (Event Unit)) (s : State Unit),
      Run step (fun _ _ => True) (user_init 1 2 3) events s ∧
      (s.proc_list second).status = .RUNNABLE ∧ (s.proc_list init_proc).a0 = -2 ^ 31) ∧
    (∃ (events : List (Event Unit)) (s : State Unit),
      Run step (fun _ _ => True) (user_init 1 2 3) events s ∧
      (s.proc_list second).status = .RUNNABLE ∧ (s.proc_list second).pid = 0) ∧
    ∃ (events : List (Event Unit)) (s : State Unit),
      Run step (fun _ _ => True) (user_init 1 2 3) events s ∧
      (s.proc_list second).status = .RUNNABLE ∧ (s.proc_list init_proc).status = .RUNNING ∧
      (s.proc_list second).pid = (s.proc_list init_proc).pid := by
  have forks : ∀ k, ∃ (events : List (Event Unit)) (s : State Unit),
      Run step (fun _ _ => True) (user_init 1 2 3) events s ∧
      (s.proc_list init_proc).status = .RUNNING ∧ (s.proc_list init_proc).pid = 1 ∧
      (s.proc_list init_proc).a0 = int32 ((2 + k) % 2 ^ 32) ∧
      (s.proc_list second).status = .RUNNABLE ∧ (s.proc_list second).pid = (2 + k) % 2 ^ 32 := by
    intro k
    obtain ⟨events, s, run, alone, vacant⟩ := forks_fail k
    obtain ⟨more, t, child, shown⟩ := alone.fork_succeeds vacant
    exact ⟨_, t, run.trans child, shown⟩
  refine ⟨?_, ?_, ?_⟩
  · obtain ⟨events, s, run, -, -, value, status, -⟩ := forks (2 ^ 31 - 2)
    exact ⟨events, s, run, status, value.trans (by decide)⟩
  · obtain ⟨events, s, run, -, -, -, status, pid⟩ := forks (2 ^ 32 - 2)
    exact ⟨events, s, run, status, pid.trans (by decide)⟩
  · obtain ⟨events, s, run, running, own, -, status, pid⟩ := forks (2 ^ 32 - 1)
    exact ⟨events, s, run, status, running, (pid.trans (by decide)).trans own.symm⟩

end OsCpp.Proc
