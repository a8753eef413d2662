import Mathlib.Algebra.Order.BigOperators.Group.Finset
import OsCpp.Log.Crash

/-!
# Log reservation

`begin_op` admits an operation only if every active operation may still log `MAXOPBLOCKS` blocks.
`lwrite` however stops at one entry less than `LOGSIZE`, because the region includes the header.
-/

namespace OsCpp.Log

open Execution (Run)

variable {geometry : Geometry} {state next : State} {system : Option Pid}
  {phase : WriteAhead.Phase} {env : Pid → Env} {pid : Pid}

/-- Every `lwrite` concerns one of at most `MAXOPBLOCKS` distinct blocks of its operation. -/
def withinBudget (state : State) : Event → Bool
  | .lwrite pid index =>
    match state.handles.lookup (pid, .op index) with
    | some handle =>
      decide ((state.bufOf handle).blockno ∈ (state.procs pid).wrote) ||
        decide ((state.procs pid).wrote.length < MAXOPBLOCKS)
    | none => true
  | _ => true

/-- Every `lwrite` finds fewer than `log.size - 1` entries in the header. -/
def hasRoom (geometry : Geometry) (state : State) : Event → Bool
  | .lwrite _ _ => decide (state.log.lh.length < geometry.size - 1)
  | _ => true

/-- Number of blocks that an operation may still log. -/
def remaining (state : State) (pid : Pid) : Nat := MAXOPBLOCKS - (state.procs pid).wrote.length

/-- The entries of the header and the shares of the active operations fit in `LOGSIZE`. -/
structure Reserved (state : State) (ops : Finset Pid) : Prop where
  members : ∀ pid, pid ∈ ops ↔ (state.procs pid).inOp = true
  logged : ∀ pid ∈ ops, ∀ blockno ∈ (state.procs pid).wrote, blockno ∈ state.log.lh
  bound : state.log.lh.length + ∑ pid ∈ ops, remaining state pid ≤ LOGSIZE

variable {ops : Finset Pid}

theorem Reserved.congr (reserved : Reserved state ops)
    (same : ∀ pid, (next.procs pid).inOp = (state.procs pid).inOp ∧
      (next.procs pid).wrote = (state.procs pid).wrote)
    (lh : next.log.lh = state.log.lh) : Reserved next ops := by
  refine ⟨fun pid => ?_, fun pid member => ?_, ?_⟩
  · rw [(same pid).1]
    exact reserved.members pid
  · rw [(same pid).2, lh]
    exact reserved.logged pid member
  · have sums : ∑ pid ∈ ops, remaining next pid = ∑ pid ∈ ops, remaining state pid :=
      Finset.sum_congr rfl fun pid _ => by rw [remaining, remaining, (same pid).2]
    rw [lh, sums]
    exact reserved.bound

theorem reserved_of_nobody (nobody : ∀ pid, (state.procs pid).inOp = false)
    (fits : state.log.lh.length ≤ LOGSIZE) : Reserved state ∅ :=
  ⟨by simp [nobody], by simp, by simpa using fits⟩

theorem Related.reserved_stepCode (related : Related geometry state system phase env)
    (reserved : Reserved state ops) (fits : next.log.lh.length ≤ LOGSIZE)
    (stepped : Log.stepCode geometry state pid (state.procs pid).code = some next) :
    ∃ ops, Reserved next ops := by
  have frame := frame_of_stepCode stepped
  rcases frame.lh with same | ⟨rest, code⟩
  · exact ⟨ops, reserved.congr frame.ops same⟩
  · have is_system : system = some pid := by
      have typed := related.threads.typed pid
      rcases code with code | ⟨name, code⟩
      · rw [code] at typed
        obtain ⟨_, _, mode, -⟩ := typed
        exact (modeOf_eq_system mode).1
      · rw [code] at typed
        obtain ⟨_, mode, -⟩ := typed
        exact (modeOf_eq_system mode).1
    refine ⟨∅, reserved_of_nobody (fun owner => ?_) fits⟩
    rw [(frame.ops owner).1]
    exact related.threads.nobody is_system owner

theorem sum_remaining_le (state : State) (ops : Finset Pid) :
    ∑ pid ∈ ops, remaining state pid ≤ ops.card * MAXOPBLOCKS := by
  simpa using Finset.sum_le_card_nsmul ops (remaining state) MAXOPBLOCKS fun _ _ => Nat.sub_le _ _

theorem Reserved.beginOp (reserved : Reserved state ops)
    (card : ops.card = state.log.outstanding) (outside : (state.procs pid).inOp = false)
    (began : stepBeginOp state pid = some next) : Reserved next (insert pid ops) := by
  obtain ⟨-, admitted, next_eq⟩ := stepBeginOp_eq_some.mp began
  have new : pid ∉ ops := by simp [reserved.members, outside]
  have lh : next.log.lh = state.log.lh := by rw [← next_eq]
  have entered : (next.procs pid).inOp = true ∧ (next.procs pid).wrote = [] := by
    simp [← next_eq]
  have others : ∀ owner, owner ≠ pid → (next.procs owner).inOp = (state.procs owner).inOp ∧
      (next.procs owner).wrote = (state.procs owner).wrote := by
    intro owner different
    simp [← next_eq, different]
  refine ⟨fun owner => ?_, fun owner member => ?_, ?_⟩
  · by_cases same : owner = pid
    · simp [same, entered.1]
    · simp [same, (others owner same).1, reserved.members]
  · by_cases same : owner = pid
    · simp [same, entered.2]
    · have member : owner ∈ ops := (Finset.mem_insert.mp member).resolve_left same
      rw [(others owner same).2, lh]
      exact reserved.logged owner member
  · have shares := sum_remaining_le next ops
    have share : remaining next pid = MAXOPBLOCKS := by simp [remaining, entered.2]
    rw [card] at shares
    rw [add_mul, one_mul] at admitted
    rw [Finset.sum_insert new, share, lh]
    omega

theorem Reserved.endOp (reserved : Reserved state ops) (running : state.log.committing = false)
    (ended : stepEndOp state pid = some next) : Reserved next (ops.erase pid) := by
  have lh : next.log.lh = state.log.lh := by
    simp only [stepEndOp, running, Bool.false_eq_true, if_false] at ended
    split_ifs at ended <;> cases ended <;> rfl
  have left : (next.procs pid).inOp = false := by
    simp only [stepEndOp, running, Bool.false_eq_true, if_false] at ended
    split_ifs at ended <;> cases ended <;> simp [State.setCode]
  have others : ∀ owner, owner ≠ pid → (next.procs owner).inOp = (state.procs owner).inOp ∧
      (next.procs owner).wrote = (state.procs owner).wrote := by
    intro owner different
    simp only [stepEndOp, running, Bool.false_eq_true, if_false] at ended
    split_ifs at ended <;> cases ended <;> simp [State.setCode, different]
  refine ⟨fun owner => ?_, fun owner member => ?_, ?_⟩
  · by_cases same : owner = pid
    · simp [same, left]
    · simp [same, (others owner same).1, reserved.members]
  · obtain ⟨different, member⟩ := Finset.mem_erase.mp member
    rw [(others owner different).2, lh]
    exact reserved.logged owner member
  · have sums : ∑ owner ∈ ops.erase pid, remaining next owner =
        ∑ owner ∈ ops.erase pid, remaining state owner := by
      refine Finset.sum_congr rfl fun owner member => ?_
      rw [remaining, remaining, (others owner (Finset.ne_of_mem_erase member)).2]
    have fewer : ∑ owner ∈ ops.erase pid, remaining state owner ≤
        ∑ owner ∈ ops, remaining state owner :=
      Finset.sum_le_sum_of_subset (Finset.erase_subset pid ops)
    rw [lh, sums]
    exact (Nat.add_le_add_left fewer _).trans reserved.bound

/-- A logged block is paid for by the share of its operation, unless it is absorbed. -/
theorem Reserved.lwrite {blockno : Nat} (reserved : Reserved state ops)
    (active : (state.procs pid).inOp = true)
    (budget : blockno ∈ (state.procs pid).wrote ∨ (state.procs pid).wrote.length < MAXOPBLOCKS)
    (procs : next.procs = Function.update state.procs pid { state.procs pid with
      wrote := if blockno ∈ (state.procs pid).wrote then (state.procs pid).wrote
        else blockno :: (state.procs pid).wrote })
    (lh : next.log.lh = if blockno ∈ state.log.lh then state.log.lh
      else state.log.lh ++ [blockno]) : Reserved next ops := by
  have member : pid ∈ ops := (reserved.members pid).mpr active
  have others : ∀ owner, owner ≠ pid → next.procs owner = state.procs owner := by
    intro owner different
    simp [procs, different]
  have kept : ∀ entry ∈ state.log.lh, entry ∈ next.log.lh := by
    intro entry inside
    rw [lh]
    split
    · exact inside
    · simp [inside]
  have enlisted : blockno ∈ next.log.lh := by
    rw [lh]
    split
    · assumption
    · simp
  refine ⟨fun owner => ?_, fun owner operating entry logged => ?_, ?_⟩
  · by_cases same : owner = pid
    · simp [same, procs, reserved.members]
    · rw [others owner same, reserved.members]
  · by_cases same : owner = pid
    · subst same
      simp only [procs, Function.update_self] at logged
      split at logged
      · exact kept entry (reserved.logged owner operating entry logged)
      · rcases List.mem_cons.mp logged with rfl | logged
        · exact enlisted
        · exact kept entry (reserved.logged owner operating entry logged)
    · rw [others owner same] at logged
      exact kept entry (reserved.logged owner operating entry logged)
  · have rest : ∑ owner ∈ ops.erase pid, remaining next owner =
        ∑ owner ∈ ops.erase pid, remaining state owner := by
      refine Finset.sum_congr rfl fun owner member => ?_
      rw [remaining, remaining, others owner (Finset.ne_of_mem_erase member)]
    have before := Finset.add_sum_erase ops (remaining state) member
    have after := Finset.add_sum_erase ops (remaining next) member
    have bound := reserved.bound
    -- Either the block is absorbed or it uses one unit of the operation's own share.
    have paid : next.log.lh.length + remaining next pid ≤
        state.log.lh.length + remaining state pid := by
      rw [remaining, remaining, lh, procs, Function.update_self]
      by_cases wrote : blockno ∈ (state.procs pid).wrote
      · have inside := reserved.logged pid member blockno wrote
        simp [wrote, inside]
      · have share := budget.resolve_left wrote
        simp only [wrote, if_false, List.length_cons]
        split <;> simp <;> omega
    omega

/-- What the reservation is meant to guarantee in a reachable state. -/
structure Safe (geometry : Geometry) (state : State) : Prop where
  noOverflow : state.panicked ≠ some .tooBigTransaction
  noEndOpPanic : state.panicked ≠ some .endOpCommitting
  exclusive : state.log.committing = true → state.log.outstanding = 0
  /-- The block that `write_log` is about to write belongs to the log region. -/
  inRegion : ∀ pid rest handle, (state.procs pid).code = .bwrite .to :: rest →
    state.handles.lookup (pid, .to) = some handle →
    geometry.start ≤ (state.bufOf handle).blockno ∧
      (state.bufOf handle).blockno < geometry.start + geometry.size
  reserved : ∃ ops, Reserved state ops

theorem Related.outstanding_of_committing (related : Related geometry state system phase env)
    (committing : state.log.committing = true) : state.log.outstanding = 0 := by
  cases runs : system with
  | none =>
    rw [(related.threads.idle runs).2.2] at committing
    cases committing
  | some runner => exact (related.threads.busy runner runs).2

theorem Related.writeLog_inRegion (related : Related geometry state system phase env)
    {rest : List Instr} {handle : Handle} (code : (state.procs pid).code = .bwrite .to :: rest)
    (found : state.handles.lookup (pid, .to) = some handle) :
    geometry.start ≤ (state.bufOf handle).blockno ∧
      (state.bufOf handle).blockno < geometry.start + geometry.size := by
  have typed := related.threads.typed pid
  rw [code] at typed
  obtain ⟨_, _, _, slot, mode, -, copies, -, known, -, writes, -⟩ := typed
  obtain ⟨-, -, rfl⟩ := modeOf_eq_system mode
  obtain ⟨index, rfl⟩ := copies rfl
  obtain ⟨_, entry, at_block, -, -⟩ := related.threads.matched pid .to slot known
  cases found.symm.trans entry
  obtain ⟨place, -⟩ := Option.ite_none_right_eq_some.mp writes
  obtain ⟨-, -, -, moved⟩ := related.invariant.phase
  obtain ⟨_, named, -⟩ := moved rfl
  have index_lt : index < state.log.lh.length := (List.getElem?_eq_some_iff.mp named).1
  have bound : state.log.lh.length ≤ min LOGSIZE (geometry.size - 1) := related.invariant.bound
  rw [show (state.bufOf handle).blockno = slot.blockno from at_block, place]
  omega

theorem stepLwrite_cases (geometry : Geometry) (state : State) (pid : Pid) (name : Local)
    (handle : Handle) :
    (geometry.size - 1 ≤ state.log.lh.length ∨ LOGSIZE ≤ state.log.lh.length) ∧
        stepLwrite geometry state pid name handle = state.fail .tooBigTransaction ∨
      (state.log.lh.length < geometry.size - 1 ∧ state.log.lh.length < LOGSIZE) ∧
        (stepLwrite geometry state pid name handle = state.fail .outsideTransaction ∨
          ∃ next, stepLwrite geometry state pid name handle = next ∧
            next.panicked = state.panicked ∧
            next.procs = Function.update state.procs pid { state.procs pid with
              wrote := if (state.bufOf handle).blockno ∈ (state.procs pid).wrote then
                  (state.procs pid).wrote
                else (state.bufOf handle).blockno :: (state.procs pid).wrote } ∧
            next.log.lh = if (state.bufOf handle).blockno ∈ state.log.lh then state.log.lh
              else state.log.lh ++ [(state.bufOf handle).blockno]) := by
  simp only [stepLwrite]
  split
  case isTrue full => exact .inl ⟨full.symm, rfl⟩
  case isFalse room =>
    refine .inr ⟨by omega, ?_⟩
    split
    · exact .inl rfl
    · refine .inr ⟨_, rfl, ?_⟩
      split <;> exact ⟨rfl, rfl, rfl⟩

theorem Related.reserved_step {event : Event} (related : Related geometry state system phase env)
    (reserved : ∃ ops, Reserved state ops) (budget : withinBudget state event = true)
    (stepped : Log.step geometry state event = some next) : ∃ ops, Reserved next ops := by
  obtain ⟨ops, reserved⟩ := reserved
  obtain ⟨_, _, _, after, -⟩ := related.step stepped
  have fits : next.log.lh.length ≤ LOGSIZE := by
    have bound : next.log.lh.length ≤ min LOGSIZE (geometry.size - 1) := after.invariant.bound
    omega
  replace stepped := stepRunning_of_step stepped
  cases event with
  | crash =>
    cases stepped
    refine ⟨∅, reserved_of_nobody (fun owner => ?_) zero_le⟩
    simp only [boot]
    split <;> rfl
  | exec pid => exact related.reserved_stepCode reserved fits stepped
  | bread pid index blockno =>
    obtain ⟨-, rfl⟩ := stepRunning_bread_eq_some.mp stepped
    exact ⟨ops, reserved.congr (ops_setCode _) rfl⟩
  | modify pid index block =>
    obtain ⟨handle, -, -, rfl⟩ := stepRunning_modify_eq_some.mp stepped
    exact ⟨ops, reserved.congr (fun _ => ⟨rfl, rfl⟩) rfl⟩
  | lwrite pid index =>
    obtain ⟨handle, found, ⟨-, active, -, -⟩, rfl⟩ := stepRunning_lwrite_eq_some.mp stepped
    simp only [withinBudget, found, Bool.or_eq_true, decide_eq_true_eq] at budget
    rcases stepLwrite_cases geometry state pid (.op index) handle with
      ⟨-, failed⟩ | ⟨-, failed | ⟨_, rfl, -, procs, lh⟩⟩
    · rw [failed]
      exact ⟨ops, reserved.congr (fun _ => ⟨rfl, rfl⟩) rfl⟩
    · rw [failed]
      exact ⟨ops, reserved.congr (fun _ => ⟨rfl, rfl⟩) rfl⟩
    · exact ⟨ops, reserved.lwrite active budget procs lh⟩
  | brelse pid index =>
    obtain ⟨handle, -, -, rfl⟩ := stepRunning_brelse_eq_some.mp stepped
    exact ⟨ops, reserved.congr (ops_setCode _) rfl⟩
  | beginOp pid =>
    obtain ⟨⟨-, -, outside⟩, began⟩ := stepRunning_beginOp_eq_some.mp stepped
    obtain ⟨active, members, card⟩ := related.threads.counted
    have same : ops = active := Finset.ext fun owner => by rw [reserved.members, members]
    exact ⟨_, reserved.beginOp (same ▸ card) outside began⟩
  | endOp pid =>
    obtain ⟨⟨-, active, -⟩, ended⟩ := stepRunning_endOp_eq_some.mp stepped
    have running := (related.threads.idle (related.threads.idle_of_inOp active)).2.2
    exact ⟨_, reserved.endOp running ended⟩

/-- The two panics can only come from `lwrite` without room. -/
theorem Related.panicked_step {event : Event} (related : Related geometry state system phase env)
    (size_eq : geometry.size = LOGSIZE) (room : hasRoom geometry state event = true)
    (before : state.panicked ≠ some .tooBigTransaction ∧ state.panicked ≠ some .endOpCommitting)
    (stepped : Log.step geometry state event = some next) :
    next.panicked ≠ some .tooBigTransaction ∧ next.panicked ≠ some .endOpCommitting := by
  replace stepped := stepRunning_of_step stepped
  cases event with
  | crash =>
    cases stepped
    simp [boot]
  | exec pid =>
    rcases (frame_of_stepCode stepped).panicked with same | ⟨panic, rfl, known⟩
    · rwa [same]
    · simp only [State.fail, ne_eq, Option.some.injEq]
      constructor <;> rintro rfl <;> simp at known
  | bread pid index blockno =>
    obtain ⟨-, rfl⟩ := stepRunning_bread_eq_some.mp stepped
    exact before
  | modify pid index block =>
    obtain ⟨handle, -, -, rfl⟩ := stepRunning_modify_eq_some.mp stepped
    exact before
  | lwrite pid index =>
    obtain ⟨handle, found, -, rfl⟩ := stepRunning_lwrite_eq_some.mp stepped
    simp only [hasRoom, decide_eq_true_eq] at room
    rcases stepLwrite_cases geometry state pid (.op index) handle with
      ⟨full, -⟩ | ⟨-, failed | ⟨_, rfl, same, -, -⟩⟩
    · omega
    · rw [failed]
      simp [State.fail]
    · rwa [same]
  | brelse pid index =>
    obtain ⟨handle, -, -, rfl⟩ := stepRunning_brelse_eq_some.mp stepped
    exact before
  | beginOp pid =>
    obtain ⟨-, began⟩ := stepRunning_beginOp_eq_some.mp stepped
    obtain ⟨-, -, rfl⟩ := stepBeginOp_eq_some.mp began
    exact before
  | endOp pid =>
    obtain ⟨⟨-, active, -⟩, ended⟩ := stepRunning_endOp_eq_some.mp stepped
    have running := (related.threads.idle (related.threads.idle_of_inOp active)).2.2
    simp only [stepEndOp, running, Bool.false_eq_true, if_false] at ended
    split_ifs at ended <;> cases ended <;> exact before

theorem safe_of_run {disk : Nat → Block} {events : List Event}
    (size_eq : geometry.size = LOGSIZE) (empty : loadHead (disk geometry.start) = [])
    (run : Run (step geometry)
      (fun state event => withinBudget state event = true ∧ hasRoom geometry state event = true)
      (boot geometry disk [disk]) events state) : Safe geometry state := by
  have kept : (∃ system phase env, Related geometry state system phase env) ∧
      (∃ ops, Reserved state ops) ∧
      state.panicked ≠ some .tooBigTransaction ∧ state.panicked ≠ some .endOpCommitting := by
    apply run.invariant
    · rintro source event target ⟨⟨_, _, _, related⟩, reserved, panicked⟩ ⟨budget, room⟩ stepped
      obtain ⟨_, _, _, after, -⟩ := related.step stepped
      exact ⟨⟨_, _, _, after⟩, related.reserved_step reserved budget stepped,
        related.panicked_step size_eq room panicked stepped⟩
    · refine ⟨⟨_, _, _, related_boot (by simp) (recoverable_of_empty empty)⟩, ⟨∅, ?_⟩, by simp [boot]⟩
      refine reserved_of_nobody (fun owner => ?_) zero_le
      simp only [boot]
      split <;> rfl
  obtain ⟨⟨system, phase, env, related⟩, reserved, panicked⟩ := kept
  exact ⟨panicked.1, panicked.2, related.outstanding_of_committing,
    fun _ _ _ code found => related.writeLog_inRegion code found, reserved⟩

/-- One process logs the blocks from `first` on inside its operation. -/
def logs (pid first count : Nat) : List Event :=
  (List.range count).flatMap fun index =>
    [.bread pid index (first + index)] ++ executes pid 3 ++
      [.lwrite pid index, .brelse pid index] ++ executes pid 2

/-- Three concurrent operations log ten blocks each. -/
def threeFullOperations : List Event :=
  executes bootPid 16 ++ [.beginOp 2, .beginOp 3, .beginOp 4] ++
    logs 2 100 10 ++ logs 3 200 10 ++ logs 4 300 9 ++ [.bread 4 9 309] ++ executes 4 3 ++
    [.lwrite 4 9]

end OsCpp.Log
