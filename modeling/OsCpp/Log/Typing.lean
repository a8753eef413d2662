import OsCpp.Lib.WriteAhead
import OsCpp.Log.Machine

/-!
# Protocol discipline of the kernel functions

A judgement on instruction lists that tracks the block of every local buffer pointer and the phase
of the write-ahead protocol.
-/

namespace OsCpp.Log

open WriteAhead (Phase)
open Function (update)

/-- What is known statically about a local buffer pointer. -/
structure Slot where
  blockno : Nat
  stage : Stage
  dirty : Bool

/-- Knowledge about the local buffer pointers of one process. -/
abbrev Env := Local → Option Slot

/-- Nothing is known. -/
def unknown : Env := fun _ => none

/-- A process serves user code, or it is the one that runs `recover` or `commit`. -/
inductive Mode
  | user
  | system (recovering : Bool) (phase : Phase)

variable (geometry : Geometry)

/-- Phase reached by moving one block onto another. -/
def afterMove (lh : List Nat) : Phase → Nat → Nat → Option Phase
  | .copying index false, into, out =>
    if into = geometry.start + index + 1 ∧ lh[index]? = some out then
      some (.copying index true)
    else none
  | .installing index false, into, out =>
    if lh[index]? = some into ∧ out = geometry.start + index + 1 then
      some (.installing index true)
    else none
  | _, _, _ => none

/-- Phase reached by storing the header in its buffer. -/
def afterSetHead : Phase → Option Phase
  | .sealing false => some (.sealing true)
  | .clearing false => some (.clearing true)
  | _ => none

/-- Phase reached by writing one block to disk. A block that is already home may be written again. -/
def afterWrite (lh : List Nat) : Phase → Nat → Option Phase
  | .copying index true, blockno =>
    if blockno = geometry.start + index + 1 then some (.copying (index + 1) false) else none
  | .sealing true, blockno =>
    if blockno = geometry.start ∧ lh ≠ [] then some (.installing 0 false) else none
  | .installing index true, blockno =>
    if lh[index]? = some blockno then some (.installing (index + 1) false) else none
  | .installing (index + 1) false, blockno =>
    if lh[index]? = some blockno then some (.installing (index + 1) false) else none
  | .clearing true, blockno =>
    if blockno = geometry.start then some .ready else none
  | _, _ => none

/-- The instructions follow the protocol when started with the given header, mode and pointers. -/
def Typed : List Instr → List Nat → Mode → Env → Prop
  | [], _, mode, _ => mode = .user
  | .bget name blockno :: rest, lh, mode, env =>
    Typed rest lh mode (update env name (some ⟨blockno, .referenced, false⟩))
  | .acquire name :: rest, lh, mode, env => ∃ slot, env name = some slot ∧
      Typed rest lh mode (update env name (some { slot with stage := .locked }))
  | .fill name :: rest, lh, mode, env => ∃ slot, env name = some slot ∧
      Typed rest lh mode (update env name (some { slot with stage := .filled }))
  | .memmove target from' :: rest, lh, mode, env =>
    ∃ recovering phase next into out, mode = .system recovering phase ∧
      (∀ index, target ≠ .op index) ∧ env target = some into ∧ env from' = some out ∧
      afterMove geometry lh phase into.blockno out.blockno = some next ∧
      Typed rest lh (.system recovering next) (update env target (some { into with dirty := true }))
  | .setHead name :: rest, lh, mode, env =>
    ∃ recovering phase next slot, mode = .system recovering phase ∧
      (∀ index, name ≠ .op index) ∧ env name = some slot ∧ slot.blockno = geometry.start ∧
      afterSetHead phase = some next ∧
      Typed rest lh (.system recovering next) (update env name (some { slot with dirty := true }))
  | .getHead name :: rest, _, mode, env =>
    ∃ slot, mode = .system true .booting ∧ env name = some slot ∧
      slot.blockno = geometry.start ∧ ∀ lh, Typed rest lh (.system true (.installing 0 false)) env
  | .bwrite name :: rest, lh, mode, env =>
    ∃ recovering phase next slot, mode = .system recovering phase ∧
      (∀ index, name ≠ .op index) ∧ (name = .to → ∃ index, phase = .copying index true) ∧
      (phase = .sealing true → recovering = false) ∧
      env name = some slot ∧ slot.stage = .filled ∧
      afterWrite geometry lh phase slot.blockno = some next ∧
      Typed rest lh (.system recovering next) (update env name (some { slot with dirty := false }))
  | .release name :: rest, lh, mode, env => ∃ slot, env name = some slot ∧
      slot.stage = .filled ∧ slot.dirty = false ∧
      Typed rest lh mode (update env name (some { slot with stage := .unlocked }))
  | .put name :: rest, lh, mode, env => Typed rest lh mode (update env name none)
  | .commit :: rest, _, mode, _ => mode = .system false .ready ∧ rest = [.finish]
  | .writeLog tail :: rest, lh, mode, _ =>
    ∃ recovering, mode = .system recovering (.copying tail false) ∧
      Typed rest lh (.system recovering (.sealing false)) unknown
  | .installTrans _ index :: rest, lh, mode, _ =>
    ∃ recovering, mode = .system recovering (.installing index false) ∧
      ∀ index, lh.length ≤ index →
        Typed rest lh (.system recovering (.installing index false)) unknown
  | .clear :: rest, lh, mode, env =>
    ∃ recovering index, mode = .system recovering (.installing index false) ∧
      lh.length ≤ index ∧ Typed rest [] (.system recovering (.clearing false)) env
  | .finish :: rest, lh, mode, _ => mode = .system false .ready ∧ lh = [] ∧ rest = []
  | .booted :: rest, lh, mode, _ => mode = .system true .ready ∧ lh = [] ∧ rest = []

variable {geometry}

theorem Typed.user_header {code : List Instr} {lh : List Nat} {env : Env}
    (typed : Typed geometry code lh .user env) (other : List Nat) :
    Typed geometry code other .user env := by
  induction code generalizing env with
  | nil => exact typed
  | cons instr rest ih =>
    cases instr with
    | bget name blockno => exact ih typed
    | acquire name =>
      obtain ⟨slot, known, typed⟩ := typed
      exact ⟨slot, known, ih typed⟩
    | fill name =>
      obtain ⟨slot, known, typed⟩ := typed
      exact ⟨slot, known, ih typed⟩
    | release name =>
      obtain ⟨slot, known, stage, settled, typed⟩ := typed
      exact ⟨slot, known, stage, settled, ih typed⟩
    | put name => exact ih typed
    | _ => simp [Typed] at typed

theorem typed_bread (name : Local) (blockno : Nat) (lh : List Nat) (env : Env) :
    Typed geometry (bread name blockno) lh .user env := by
  simp [bread, Typed]

theorem typed_brelse {name : Local} {slot : Slot} {env : Env} (lh : List Nat)
    (known : env name = some slot) (stage : slot.stage = .filled) (settled : slot.dirty = false) :
    Typed geometry (brelse name) lh .user env := by
  simp [brelse, Typed, known, stage, settled]

/-- One iteration of `write_log` moves to the next entry of the header. -/
theorem typed_writeLogBody {lh : List Nat} {tail blockno : Nat} {rest : List Instr}
    {recovering : Bool} (named : lh[tail]? = some blockno)
    (typed : Typed geometry rest lh (.system recovering (.sealing false)) unknown) :
    Typed geometry (writeLogBody geometry tail blockno ++ .writeLog (tail + 1) :: rest) lh
      (.system recovering (.copying tail false)) unknown := by
  cases recovering <;>
    simpa [writeLogBody, bread, brelse, Typed, afterMove, afterWrite, named] using typed

/-- One iteration of `install_trans` moves to the next entry of the header. -/
theorem typed_installBody {lh : List Nat} {index blockno : Nat} {rest : List Instr}
    {recovering : Bool} (again : Bool) (named : lh[index]? = some blockno)
    (typed : ∀ index, lh.length ≤ index →
      Typed geometry rest lh (.system recovering (.installing index false)) unknown) :
    Typed geometry
      (installBody geometry again index blockno ++ .installTrans again (index + 1) :: rest) lh
      (.system recovering (.installing index false)) unknown := by
  cases recovering <;> cases again <;>
    simpa [installBody, bread, brelse, Typed, afterMove, afterWrite, named] using typed

theorem typed_commitBody {lh : List Nat} (nonempty : lh ≠ []) :
    Typed geometry (commitBody geometry ++ [Instr.finish]) lh (.system false (.copying 0 false))
      unknown := by
  simp [commitBody, whead, bread, brelse, Typed, afterSetHead, afterWrite, nonempty]

theorem typed_recover (lh : List Nat) :
    Typed geometry (recover geometry ++ [Instr.booted]) lh (.system true .booting) unknown := by
  simp [recover, rhead, whead, bread, brelse, Typed, afterSetHead, afterWrite]

end OsCpp.Log
