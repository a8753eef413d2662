import OsCpp.Log.Refinement

/-!
# Crash atomicity

Once `recover` has returned, the blocks outside the log region are those of the last commit, which
is the write of a non-empty header.
-/

namespace OsCpp.Log

open Execution (Run)

variable {geometry : Geometry} {state next : State} {system : Option Pid}
  {phase : WriteAhead.Phase} {env : Pid → Env}

theorem recoverable_of_empty {disk : Nat → Block} (empty : loadHead (disk geometry.start) = []) :
    WriteAhead.Recoverable (format geometry) disk disk := by
  have header : (format geometry).entries (disk (format geometry).start) = [] := empty
  constructor <;> simp [header]

theorem related_of_run {disk : Nat → Block} {events : List Event}
    {guard : State → Event → Prop} (empty : loadHead (disk geometry.start) = [])
    (run : Run (step geometry) guard (boot geometry disk [disk]) events state) :
    ∃ system phase env, Related geometry state system phase env := by
  apply run.invariant
  · rintro source event target ⟨system, phase, env, related⟩ - stepped
    obtain ⟨_, _, _, after, -⟩ := related.step stepped
    exact ⟨_, _, _, after⟩
  · exact ⟨_, _, _, related_boot (by simp) (recoverable_of_empty empty)⟩

/-- A commit: the header names the group, the contents enter the history, and no operation is
active. -/
structure Commits (geometry : Geometry) (state next : State) : Prop where
  history : next.history = state.current :: state.history
  header : loadHead (next.disk geometry.start) = state.log.lh
  group : next.log.lh = state.log.lh
  nonempty : state.log.lh ≠ []
  quiet : ∀ pid, (state.procs pid).inOp = false
  recovered : state.booting = false

/-- The header block is only written to seal a group or to clear it. -/
theorem Related.header_of_write (related : Related geometry state system phase env)
    {nextPhase : WriteAhead.Phase}
    (writes : afterWrite geometry state.log.lh phase geometry.start = some nextPhase) :
    loadHead (view state.disk state.cache geometry.start) = state.log.lh ∧
      (state.log.lh = [] ∨ phase = .sealing true) := by
  have invariant := related.invariant
  have not_home : ∀ {index : Nat}, state.log.lh[index]? ≠ some geometry.start := by
    intro index named
    exact (invariant.home _ (List.mem_of_getElem? named)).ne_start rfl
  unfold afterWrite at writes
  split at writes
  · rw [if_neg (by omega)] at writes
    cases writes
  · exact ⟨invariant.phase.2.2.2 rfl, .inr rfl⟩
  · rw [if_neg not_home] at writes
    cases writes
  · rw [if_neg not_home] at writes
    cases writes
  · have cleared : state.log.lh = [] := invariant.phase.2.1
    rw [cleared]
    exact ⟨invariant.phase.2.2.2 rfl, .inl rfl⟩
  · cases writes

/-- The history is extended by the first header write of `commit`; otherwise the header is kept or
cleared. -/
theorem Related.header_step {event : Event} (related : Related geometry state system phase env)
    (stepped : Log.step geometry state event = some next) :
    next.history = state.history ∧
        (next.disk geometry.start = state.disk geometry.start ∨
          loadHead (next.disk geometry.start) = [] ∧ state.log.lh = []) ∨
      Commits geometry state next := by
  rcases stepRunning_cases (stepRunning_of_step stepped) with
    ⟨rfl, rfl⟩ | ⟨pid, rfl, executed⟩ | ⟨disk, history, -⟩
  · exact .inl ⟨rfl, .inl rfl⟩
  · rcases (frame_of_stepCode executed).disk with ⟨disk, history⟩ | ⟨name, rest, code⟩
    · exact .inl ⟨history, .inl (congrFun disk _)⟩
    · have typed := related.threads.typed pid
      rw [code] at executed typed
      obtain ⟨_, before, _, slot, mode, -, -, seals, known, filled, writes, -⟩ := typed
      obtain ⟨is_system, recovering, rfl⟩ := modeOf_eq_system mode
      obtain ⟨handle, found, at_block, stage, -⟩ := related.threads.matched pid name slot known
      have shown := related.coherent.view_of_filled found (stage.trans filled)
      obtain ⟨_, entry, ⟨-, rfl⟩ | ⟨-, rfl⟩⟩ := stepBwrite_eq_some.mp executed
      · cases found.symm.trans entry
        by_cases at_start : (state.cache.buf handle.buf).blockno = geometry.start
        · rw [← at_block, at_start] at writes
          rw [at_start] at shown
          obtain ⟨header, reason⟩ := related.header_of_write writes
          rw [shown] at header
          by_cases empty : state.log.lh = []
          · refine .inl ⟨if_neg ?_, .inr ⟨?_, empty⟩⟩
            · simp [State.bufOf, header, empty]
            · simpa [State.setCode, State.setHandle, State.bufOf, at_start, empty] using header
          · have commits : (state.bufOf handle).blockno = geometry.start ∧
                loadHead (state.bufOf handle).data ≠ [] :=
              ⟨at_start, by simpa [State.bufOf, header] using empty⟩
            refine .inr ⟨if_pos commits, ?_, rfl, empty, related.threads.nobody is_system, ?_⟩
            · simpa [State.setCode, State.setHandle, State.bufOf, at_start] using header
            · rw [← recovering]
              exact seals (reason.resolve_left empty)
        · refine .inl ⟨if_neg fun both => at_start both.1, .inl ?_⟩
          exact Function.update_of_ne (Ne.symm at_start) _ _
      · exact .inl ⟨rfl, .inl rfl⟩
  · exact .inl ⟨history, .inl (congrFun disk _)⟩

theorem booting_step {event : Event} (stepped : step geometry state event = some next)
    (running : event.isCrash = false) (booting : next.booting = true) : state.booting = true := by
  rcases stepRunning_cases (stepRunning_of_step stepped) with
    ⟨rfl, -⟩ | ⟨pid, rfl, executed⟩ | ⟨-, -, same⟩
  · cases running
  · rcases (frame_of_stepCode executed).booting with same | ⟨rest, code⟩
    · exact same.symm.trans booting
    · rw [code] at executed
      cases executed
      cases booting
  · exact same.symm.trans booting

/-- When `recover` returns, the protocol is at rest. -/
theorem Related.ready_of_recovered {event : Event}
    (related : Related geometry state system phase env)
    (stepped : Log.step geometry state event = some next) (recovering : state.booting = true)
    (recovered : next.booting = false) :
    phase = .ready ∧ next.disk = state.disk ∧ next.history = state.history := by
  have changed : next.booting ≠ state.booting := by simp [recovering, recovered]
  rcases stepRunning_cases (stepRunning_of_step stepped) with
    ⟨rfl, rfl⟩ | ⟨pid, rfl, executed⟩ | ⟨-, -, same⟩
  · cases recovered
  · rcases (frame_of_stepCode executed).booting with same | ⟨rest, code⟩
    · exact absurd same changed
    · have typed := related.threads.typed pid
      rw [code] at executed typed
      obtain ⟨-, -, ready⟩ := modeOf_eq_system typed.1
      cases executed
      exact ⟨ready.symm, rfl, rfl⟩
  · exact absurd same changed

/-- Let the process with the given number execute several instructions. -/
def executes (pid : Pid) (count : Nat) : List Event := List.replicate count (.exec pid)

/-- The power is lost right after the header write of a commit. -/
def interruptedCommit : List Event :=
  executes bootPid 16 ++
    [Event.beginOp 2, .bread 2 0 100] ++ executes 2 3 ++
    [Event.modify 2 0 (fun _ => 7), .lwrite 2 0] ++ [Event.brelse 2 0] ++ executes 2 2 ++
    [Event.endOp 2] ++ executes 2 20 ++ [Event.crash] ++ executes bootPid 29

end OsCpp.Log
