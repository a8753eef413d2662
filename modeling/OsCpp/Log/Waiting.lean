import OsCpp.Layout
import OsCpp.Lib.Monitor
import OsCpp.Lib.Tally

/-!
# Waiting for space in the log

`begin_op`, `lwrite`, `end_op` and `commit` of `kernel/log.cpp` as users of the monitor whose lock is
`log.lock` and whose sleepers are the processes in `begin_op`.  `commit` runs without the lock and
clears `log.lh.n`; what it reads and writes besides is the subject of the other modules on the log.
-/

namespace OsCpp.LogSpace

open Monitor (Code Event Keeps Move Pays Phase State start)

/-- The fields of `log` that decide about space. -/
structure Fields where
  outstanding : UInt32 := 0
  committing : Bool := false
  /-- `lh.block`, as far as it is in use. -/
  block : List Nat := []
  deriving DecidableEq

/-- Where a process is, with the operations that it has begun and not ended. -/
inductive Point
  | out (ops : Nat)
  | beginning (ops : Nat)
  | writing (ops blockno : Nat)
  /-- In `end_op`, before its first critical section; the operations besides the one that ends. -/
  | ending (ops : Nat)
  /-- In `end_op`, behind the `wakeup` of an operation that is not the last one. -/
  | ended (ops : Nat)
  /-- In `commit`, before `log.lh.n` is cleared. -/
  | committing (ops : Nat)
  /-- In `end_op`, before its second critical section. -/
  | committed (ops : Nat)
  /-- In `end_op`, behind the `wakeup` after a commit. -/
  | finished (ops : Nat)
  deriving DecidableEq

/-- Calls that a process can make. -/
inductive Call
  | begin_op
  | lwrite (blockno : Nat)
  | end_op
  deriving DecidableEq

/-- The test of `begin_op` for space, in the arithmetic of `uint32_t`. -/
def Fields.full (fields : Fields) : Prop :=
  UInt32.ofNat LOGSIZE <
    UInt32.ofNat fields.block.length + (fields.outstanding + 1) * UInt32.ofNat MAXOPBLOCKS

instance (fields : Fields) : Decidable fields.full := inferInstanceAs (Decidable (_ < _))

/-- What a process does without `log.lock`: it makes a call, or `commit` clears the header. -/
def outer (call : Call) (fields : Fields) : Point → Option (Fields × Point)
  | .out ops =>
    match call, ops with
    | .begin_op, ops => some (fields, .beginning ops)
    | .lwrite blockno, ops => some (fields, .writing ops blockno)
    | .end_op, ops + 1 => some (fields, .ending ops)
    | .end_op, 0 => none
  | .committing ops => some ({ fields with block := [] }, .committed ops)
  | _ => none

/-- The critical section of `lwrite` in a log of a size, unless it panics. -/
def lwrite (size : Nat) (fields : Fields) (blockno : Nat) : Option Fields :=
  if LOGSIZE ≤ fields.block.length ∨ size - 1 ≤ fields.block.length then none
  else if fields.outstanding < 1 then none
  else if blockno ∈ fields.block then some fields
  else some { fields with block := fields.block ++ [blockno] }

/-- What a process does with `log.lock`. -/
def body (size : Nat) (fields : Fields) : Point → Option (Move Fields Point)
  | .beginning ops =>
    if fields.committing then some (.sleep (.beginning ops))
    else if fields.full then some (.sleep (.beginning ops))
    else some (.leave { fields with outstanding := fields.outstanding + 1 } (.out (ops + 1)))
  | .writing ops blockno => (lwrite size fields blockno).map fun after => .leave after (.out ops)
  | .ending ops =>
    let fields := { fields with outstanding := fields.outstanding - 1 }
    if fields.committing then none
    else if fields.outstanding = 0 then
      some (.leave { fields with committing := true } (.committing ops))
    else some (.wake fields (.ended ops))
  | .ended ops => some (.leave fields (.out ops))
  | .committed ops => some (.wake { fields with committing := false } (.finished ops))
  | .finished ops => some (.leave fields (.out ops))
  | .out _ | .committing _ => none

variable {Pid : Type} [DecidableEq Pid]

/-- Points at which `log.lock` is taken. -/
def enters : Point → Bool
  | .beginning _ | .writing _ _ | .ending _ | .committed _ => true
  | _ => false

/-- The log among processes. -/
def code (procs : List Pid) (complete : ∀ p, p ∈ procs) (size : Nat) :
    Code Pid Fields Point Call where
  procs := procs
  complete := complete
  outer := fun _ call point fields => outer call fields point
  enters := enters
  move := fun _ _ _ point fields => body size fields point

/-- The log after recovery. -/
def init : State Pid Fields Point := start {} (.out 0)

/-! ## Operations in progress -/

/-- The operations of a process that are counted. -/
def Point.busy : Point → Nat
  | out ops | beginning ops | writing ops _ | ended ops | committing ops | committed ops
  | finished ops => ops
  | ending ops => ops + 1

def Point.commits : Point → Nat
  | committing _ | committed _ => 1
  | _ => 0

variable [Fintype Pid]

/-- The counts are those of the processes, and there is space for the operations. -/
structure Counted (fields : Fields) (points : Pid → Point) : Prop where
  outstanding : fields.outstanding.toNat = ∑ p, (points p).busy
  committing : (if fields.committing then 1 else 0) = ∑ p, (points p).commits
  few : fields.outstanding.toNat ≤ 3
  short : fields.block.length ≤ LOGSIZE

section

variable {fields after : Fields} {points : Pid → Point} {p : Pid} {next : Point}

variable (counted : Counted fields points)

include counted

theorem Counted.move
    (outstanding : after.outstanding.toNat + (points p).busy = fields.outstanding.toNat + next.busy)
    (committing : (if after.committing then 1 else 0) + (points p).commits =
      (if fields.committing then 1 else 0) + next.commits)
    (few : after.outstanding.toNat ≤ 3) (short : after.block.length ≤ LOGSIZE) :
    Counted after (Function.update points p next) := by
  have busy := Tally.sum_update Point.busy points p next
  have commits := Tally.sum_update Point.commits points p next
  refine ⟨?_, ?_, few, short⟩
  · have before := counted.outstanding
    omega
  · have before := counted.committing
    omega

omit [DecidableEq Pid] in
theorem Counted.busy_le (p : Pid) : (points p).busy ≤ fields.outstanding.toNat := by
  rw [counted.outstanding]
  exact Tally.le_sum Point.busy points p

omit [DecidableEq Pid] in
theorem Counted.committing_of_commits
    (commits : (points p).commits = 1) : fields.committing = true := by
  have part := Tally.le_sum Point.commits points p
  have total := counted.committing
  by_contra idle
  simp only [idle, if_false] at total
  omega

omit [DecidableEq Pid] in
/-- Without overflow the test says what it should. -/
theorem Counted.full_iff :
    fields.full ↔ LOGSIZE < fields.block.length + (fields.outstanding.toNat + 1) * MAXOPBLOCKS := by
  have few := counted.few
  have short := counted.short
  simp only [Fields.full, UInt32.lt_iff_toNat_lt, UInt32.toNat_add, UInt32.toNat_mul,
    UInt32.toNat_ofNat', LOGSIZE, MAXOPBLOCKS] at short ⊢
  have one : (1 : UInt32).toNat = 1 := rfl
  rw [one]
  omega

theorem Counted.lwrite {size blockno ops : Nat} (here : points p = .writing ops blockno)
    (written : LogSpace.lwrite size fields blockno = some after) :
    Counted after (Function.update points p (.out ops)) := by
  have same : after.outstanding = fields.outstanding ∧ after.committing = fields.committing ∧
      after.block.length ≤ LOGSIZE := by
    have short := counted.short
    simp only [LogSpace.lwrite] at written
    split at written
    · simp at written
    · next room =>
      split at written
      · simp at written
      · split at written
        · cases written
          exact ⟨rfl, rfl, short⟩
        · cases written
          refine ⟨rfl, rfl, ?_⟩
          simp only [List.length_append, List.length_singleton]
          omega
  obtain ⟨outstanding, committing, short⟩ := same
  refine counted.move ?_ ?_ (outstanding ▸ counted.few) short
  · rw [outstanding, here]
    rfl
  · rw [committing, here]
    rfl

theorem Counted.body {size : Nat} {move : Move Fields Point}
    (moved : body size fields (points p) = some move) :
    Counted (move.result fields).1 (Function.update points p (move.result fields).2) := by
  have few := counted.few
  have short := counted.short
  cases point : points p with
  | beginning ops =>
    simp only [LogSpace.body, point] at moved
    split at moved
    · cases moved
      exact counted.move (by rw [point]; rfl) (by rw [point]; rfl) few short
    · split at moved
      · cases moved
        exact counted.move (by rw [point]; rfl) (by rw [point]; rfl) few short
      · next space =>
        cases moved
        rw [counted.full_iff] at space
        simp only [LOGSIZE, MAXOPBLOCKS] at space
        have increased : (fields.outstanding + 1).toNat = fields.outstanding.toNat + 1 := by
          rw [UInt32.toNat_add]
          change (_ + 1) % _ = _
          omega
        refine counted.move ?_ (by rw [point]; rfl) ?_ short
        · rw [point]
          change (fields.outstanding + 1).toNat + ops = fields.outstanding.toNat + (ops + 1)
          omega
        · exact increased ▸ by omega
  | writing ops blockno =>
    simp only [LogSpace.body, point] at moved
    obtain ⟨after, written, rfl⟩ := Option.map_eq_some_iff.mp moved
    exact counted.lwrite point written
  | ending ops =>
    have busy := counted.busy_le p
    rw [point] at busy
    have one : 1 ≤ fields.outstanding.toNat := (Nat.le_add_left 1 ops).trans busy
    have decreased : (fields.outstanding - 1).toNat = fields.outstanding.toNat - 1 :=
      UInt32.toNat_sub_of_le _ _ (UInt32.le_iff_toNat_le.mpr one)
    have total : (fields.outstanding - 1).toNat + (ops + 1) = fields.outstanding.toNat + ops := by
      omega
    have fewer : (fields.outstanding - 1).toNat ≤ 3 := by omega
    simp only [LogSpace.body, point] at moved
    split at moved
    · simp at moved
    · next idle =>
      split at moved
      · cases moved
        refine counted.move (by rw [point]; exact total) ?_ fewer short
        rw [point]
        simp [Move.result, idle, Point.commits]
      · cases moved
        exact counted.move (by rw [point]; exact total) (by rw [point]; rfl) fewer short
  | committed ops =>
    have committing := counted.committing_of_commits (p := p) (by rw [point]; rfl)
    simp only [LogSpace.body, point] at moved
    cases moved
    refine counted.move (by rw [point]; rfl) ?_ few short
    rw [point]
    simp [Move.result, committing, Point.commits]
  | ended ops | finished ops =>
    simp only [LogSpace.body, point] at moved
    cases moved
    exact counted.move (by rw [point]; rfl) (by rw [point]; rfl) few short
  | out ops | committing ops => simp [LogSpace.body, point] at moved

theorem Counted.outer {call : Call} (stepped : outer call fields (points p) = some (after, next)) :
    Counted after (Function.update points p next) := by
  cases point : points p with
  | out ops =>
    simp only [LogSpace.outer, point] at stepped
    split at stepped
    · cases stepped
      exact counted.move (by rw [point]; rfl) (by rw [point]; rfl) counted.few counted.short
    · cases stepped
      exact counted.move (by rw [point]; rfl) (by rw [point]; rfl) counted.few counted.short
    · cases stepped
      exact counted.move (by rw [point]; rfl) (by rw [point]; rfl) counted.few counted.short
    · simp at stepped
  | committing ops =>
    simp only [LogSpace.outer, point] at stepped
    cases stepped
    exact counted.move (by rw [point]; rfl) (by rw [point]; rfl) counted.few zero_le
  | beginning ops | writing ops _ | ending ops | ended ops | committed ops | finished ops =>
    simp [LogSpace.outer, point] at stepped

omit counted in
omit [DecidableEq Pid] in
theorem counted_init : Counted {} fun _ : Pid => Point.out 0 := by
  refine ⟨?_, ?_, ?_, ?_⟩ <;> simp [Point.busy, Point.commits]

end

variable {procs : List Pid} {complete : ∀ p, p ∈ procs} {size : Nat}

theorem keeps_counted : Keeps (code procs complete size) Counted where
  outer := fun counted stepped => counted.outer stepped
  move := fun counted moved => counted.body moved

/-! ## Space and wakeups -/

/-- Why a process in `begin_op` cannot go on. -/
def NoSpace (fields : Fields) : Prop :=
  fields.committing = true ∨
    LOGSIZE < fields.block.length + (fields.outstanding.toNat + 1) * MAXOPBLOCKS

/-- The header only grows in `lwrite`. -/
theorem NoSpace.lwrite {fields after : Fields} {blockno : Nat} (waits : NoSpace fields)
    (written : lwrite size fields blockno = some after) : NoSpace after := by
  simp only [LogSpace.lwrite] at written
  split at written
  · simp at written
  · split at written
    · simp at written
    · split at written
      · cases written
        exact waits
      · cases written
        refine waits.imp_right fun full => full.trans_le ?_
        simp only [List.length_append, List.length_singleton]
        omega

omit [DecidableEq Pid] in
/-- Whoever makes space wakes the sleepers. -/
theorem pays : Pays (code procs complete size) Counted NoSpace fun _ => False where
  outer := by
    intro p call fields points after next counted stepped waits
    cases point : points p with
    | out ops =>
      simp only [code, outer, point] at stepped
      split at stepped
      · cases stepped
        exact waits
      · cases stepped
        exact waits
      · cases stepped
        exact waits
      · simp at stepped
    | committing ops =>
      -- The header is cleared while `committing` is set.
      have committing : fields.committing = true :=
        counted.committing_of_commits (p := p) (by rw [point]; rfl)
      simp only [code, outer, point] at stepped
      cases stepped
      exact .inl committing
    | beginning ops | writing ops _ | ending ops | ended ops | committed ops | finished ops =>
      simp [code, outer, point] at stepped
  go := by
    intro p killed call fields points after next _ moved
    cases point : points p <;> simp [code, body, point] at moved
    · split at moved
      · simp at moved
      · split at moved <;> simp at moved
    · split at moved <;> simp at moved
  sleep := by
    intro p killed call fields points next counted moved
    cases point : points p <;> simp [code, body, point] at moved
    · split at moved
      · next committing => exact .inl committing
      · split at moved
        · next full => exact .inr (counted.full_iff.mp full)
        · simp at moved
    · split at moved <;> simp at moved
  leave := by
    intro p killed call fields points after next counted moved
    refine ⟨id, fun waits => ?_⟩
    cases point : points p with
    | beginning ops =>
      simp only [code, body, point] at moved
      split at moved
      · simp at moved
      · split at moved
        · simp at moved
        · next idle space =>
          rw [counted.full_iff] at space
          exact absurd waits (not_or.mpr ⟨idle, space⟩)
    | writing ops blockno =>
      simp only [code, body, point] at moved
      obtain ⟨after', written, same⟩ := Option.map_eq_some_iff.mp moved
      obtain ⟨rfl, -⟩ := Move.leave.inj same
      exact waits.lwrite written
    | ending ops =>
      simp only [code, body, point] at moved
      split at moved
      · simp at moved
      · split at moved
        · cases moved
          exact .inl rfl
        · simp at moved
    | ended ops | finished ops =>
      simp only [code, body, point] at moved
      cases moved
      exact waits
    | out ops | committing ops | committed ops => simp [code, body, point] at moved

/-- When `log.lock` is free, a process sleeps in `begin_op` only during a commit or for want of
space. -/
theorem sleeps_only_without_space {s : Monitor.State Pid Fields Point}
    {events : List (Monitor.Event Pid Call)}
    (run : Execution.Run (Monitor.step (code procs complete size)) (fun _ _ => True) init events s)
    (free : s.lock = none) {p : Pid} {point : Point} (asleep : s.phase p = .asleep point) :
    s.data.committing = true ∨
      LOGSIZE < s.data.block.length + (s.data.outstanding.toNat + 1) * MAXOPBLOCKS :=
  Monitor.noLostWakeup_of_run keeps_counted pays counted_init run free p
    (by simp [asleep, Phase.sleeps])

/-- Three operations begin, and a fourth one sleeps until the first of them ends. -/
def crowded : List (Event (Fin 4) Call) :=
  [.outer 0 .begin_op, .enter 0, .move 0 .begin_op, .outer 1 .begin_op, .enter 1, .move 1 .begin_op,
    .outer 2 .begin_op, .enter 2, .move 2 .begin_op, .outer 3 .begin_op, .enter 3, .move 3 .begin_op,
    .fall 3]

theorem sleeps_only_without_space_crowded :
    ∃ s, Execution.Run (Monitor.step (code [0, 1, 2, 3] (by decide) 30)) (fun _ _ => True) init crowded s ∧
      s.lock = none ∧ s.phase 3 = .asleep (.beginning 0) ∧
      (s.data.committing = true ∨
        LOGSIZE < s.data.block.length + (s.data.outstanding.toNat + 1) * MAXOPBLOCKS) := by
  obtain ⟨s, run, reached⟩ : ∃ s, Execution.Run
      (Monitor.step (code [0, 1, 2, 3] (by decide) 30)) (fun _ _ => True) init crowded s ∧
      decide (s.lock = none ∧ s.phase 3 = .asleep (.beginning 0)) = true := by
    apply Execution.exists_run_of_exec
    decide +kernel
  obtain ⟨free, asleep⟩ := of_decide_eq_true reached
  exact ⟨s, run, free, asleep, sleeps_only_without_space run free asleep⟩

end OsCpp.LogSpace
