import Mathlib.Data.Finset.Card
import OsCpp.Log.Cache
import OsCpp.Log.Typing

/-!
# The log refines write-ahead logging

Every event of the machine is a step of the protocol of `WriteAhead`, or none at all.  At most one
process runs `commit` or `recover`, and nobody modifies a buffer meanwhile.
-/

namespace OsCpp.Log

open Function (update update_of_ne update_self)
open State (setCode setHandle)
open WriteAhead (Phase)

private theorem field_stored_of_le (entries : List Nat) (first offset : Nat) (block : Block)
    (before : offset + 4 ≤ blockOffset first) :
    ((entries.zipIdx first).foldl
      (fun block entry => block.setField 4 (blockOffset entry.2) entry.1) block).field 4 offset =
      block.field 4 offset := by
  induction entries generalizing first block with
  | nil => rfl
  | cons entry entries ih =>
    rw [List.zipIdx_cons, List.foldl_cons, ih]
    · exact Bytes.field_setField_of_disjoint _ _ _ _ _ _ (.inl before)
    · unfold blockOffset at before ⊢
      omega

private theorem field_stored (entries : List Nat) (first index : Nat) (block : Block)
    (index_lt : index < entries.length) (fits : first + entries.length ≤ LOGSIZE)
    (small : ∀ entry ∈ entries, entry < 2 ^ 32) :
    ((entries.zipIdx first).foldl
      (fun block entry => block.setField 4 (blockOffset entry.2) entry.1) block).field 4
        (blockOffset (first + index)) = entries[index] := by
  induction entries generalizing first index block with
  | nil => simp at index_lt
  | cons entry entries ih =>
    rw [List.length_cons] at index_lt fits
    rw [List.zipIdx_cons, List.foldl_cons]
    cases index with
    | zero =>
      have entry_lt := small entry (by simp)
      have logsize : LOGSIZE = 30 := rfl
      have inside : blockOffset first + 4 ≤ BSIZE := by
        unfold blockOffset BSIZE
        omega
      rw [field_stored_of_le _ _ _ _ (by unfold blockOffset; omega), add_zero,
        Bytes.field_setField _ _ _ _ inside]
      simpa using Nat.mod_eq_of_lt entry_lt
    | succ index =>
      have shifted := ih (first + 1) index
        (block.setField 4 (blockOffset first) entry) (by omega) (by omega)
        (fun other member => small other (by simp [member]))
      rw [show first + (index + 1) = first + 1 + index by omega, shifted]
      simp

/-- `rhead` reads back what `whead` stored. -/
theorem loadHead_storeHead {lh : List Nat} (block : Block) (fits : lh.length ≤ LOGSIZE)
    (small : ∀ entry ∈ lh, entry < 2 ^ 32) : loadHead (storeHead lh block) = lh := by
  have logsize : LOGSIZE = 30 := rfl
  have count : (storeHead lh block).field 4 0 = lh.length := by
    unfold storeHead
    rw [field_stored_of_le _ _ _ _ (by simp [blockOffset]),
      Bytes.field_setField _ _ _ _ (by simp [BSIZE])]
    apply Nat.mod_eq_of_lt
    omega
  have count_lt : lh.length < 2 ^ 31 := by omega
  unfold loadHead
  simp only [count, count_lt, if_true]
  apply List.ext_getElem
  · simp
  · intro index _ index_lt
    have stored := field_stored lh 0 index (block.setField 4 0 lh.length) index_lt (by omega) small
    simpa [storeHead] using stored

/-- The log region and header of `log.cpp` as a write-ahead format. -/
def format (geometry : Geometry) : WriteAhead.Format Block where
  start := geometry.start
  capacity := min LOGSIZE (geometry.size - 1)
  Encodable := fun blockno => blockno < 2 ^ 32
  entries := loadHead
  record := storeHead
  entries_record := fun _ block fits small => loadHead_storeHead block (by omega) small

theorem Geometry.home_format {geometry : Geometry} {blockno : Nat}
    (outside : blockno < geometry.start ∨ geometry.start + geometry.size ≤ blockno) :
    (format geometry).Home blockno := by
  have size_pos := geometry.size_pos
  unfold WriteAhead.Format.Home format
  dsimp only
  omega

/-- The process has changed the block through this reference and not logged it yet. -/
def DirtyAt (cache : Bio.Cache) (handles : Handles) (key : Pid × Local) (blockno : Nat) : Prop :=
  ∃ handle, handles.lookup key = some handle ∧ handle.dirty = true ∧
    (cache.buf handle.buf).blockno = blockno

/-- Blocks that some operation has changed and not logged yet. -/
def pending (cache : Bio.Cache) (handles : Handles) : Set Nat :=
  { blockno | ∃ pid index, DirtyAt cache handles (pid, .op index) blockno }

/-- The protocol state behind a machine state. -/
def abstraction (state : State) (phase : Phase) : WriteAhead.State Block where
  disk := state.disk
  memory := view state.disk state.cache
  group := state.log.lh
  pending := pending state.cache state.handles
  current := state.current
  committed := state.history.headD state.disk
  phase := phase

/-- The references of a process are as the judgement predicts. -/
def Matches (cache : Bio.Cache) (handles : Handles) (pid : Pid) (env : Env) : Prop :=
  ∀ name slot, env name = some slot → ∃ handle, handles.lookup (pid, name) = some handle ∧
    (cache.buf handle.buf).blockno = slot.blockno ∧ handle.stage = slot.stage ∧
      handle.dirty = slot.dirty

/-- The mode of a process, given the one that runs `commit` or `recover`. -/
def modeOf (system : Option Pid) (recovering : Bool) (phase : Phase) (pid : Pid) : Mode :=
  if system = some pid then .system recovering phase else .user

/-- What the processes are doing. -/
structure Threads (geometry : Geometry) (state : State) (system : Option Pid) (phase : Phase)
    (env : Pid → Env) : Prop where
  typed : ∀ pid, Typed geometry (state.procs pid).code state.log.lh
    (modeOf system state.booting phase pid) (env pid)
  matched : ∀ pid, Matches state.cache state.handles pid (env pid)
  idle : system = none → phase = .ready ∧ state.booting = false ∧ state.log.committing = false
  busy : ∀ pid, system = some pid → state.log.committing = !state.booting ∧
    state.log.outstanding = 0
  counted : ∃ ops : Finset Pid, (∀ pid, pid ∈ ops ↔ (state.procs pid).inOp = true) ∧
    ops.card = state.log.outstanding
  dirty : ∀ pid index handle, state.handles.lookup (pid, .op index) = some handle →
    handle.dirty = true → (state.procs pid).inOp = true

/-- Blocks whose buffers the log keeps pinned. -/
def pinned (state : State) : List Nat := if state.booting then [] else state.log.lh

/-- The simulation relation, together with the invariant of the protocol. -/
structure Related (geometry : Geometry) (state : State) (system : Option Pid) (phase : Phase)
    (env : Pid → Env) : Prop where
  coherent : Coherent state.disk state.cache state.handles (pinned state)
  recorded : state.history ≠ []
  threads : Threads geometry state system phase env
  invariant : WriteAhead.Invariant (format geometry) (abstraction state phase)

/-- The machine state is related to what the protocol reaches by at most one step. -/
def Advances (geometry : Geometry) (state : State) (phase : Phase) (next : State) : Prop :=
  ∃ system nextPhase env, Related geometry next system nextPhase env ∧
    Relation.ReflGen (WriteAhead.Step (format geometry)) (abstraction state phase)
      (abstraction next nextPhase)

/-- No buffer somebody refers to gets another block. -/
def Stable (cache other : Bio.Cache) (handles : Handles) : Prop :=
  ∀ {key handle}, handles.lookup key = some handle →
    (other.buf handle.buf).blockno = (cache.buf handle.buf).blockno

section

variable {cache other : Bio.Cache} {handles : Handles} {key : Pid × Local} {new : Handle}

theorem stable_set {index : Fin NBUF} {buf : Bio.Buf}
    (same : buf.blockno = (cache.buf index).blockno) : Stable cache (cache.set index buf) handles := by
  intro _ handle _
  by_cases equal : handle.buf = index
  · rw [equal]
    simpa using same
  · rw [Bio.Cache.set_buf_of_ne _ _ equal]

theorem stable_brelse (index : Fin NBUF) : Stable cache (cache.brelse index) handles := by
  intro _ handle _
  rw [Bio.Cache.brelse_buf]
  split <;> rfl

theorem stable_recycle {disk : Nat → Block} {pinned : List Nat} {index : Fin NBUF} {buf : Bio.Buf}
    (coherent : Coherent disk cache handles pinned)
    (unreferenced : (cache.buf index).refcnt = 0) : Stable cache (cache.set index buf) handles := by
  intro _ handle found
  rw [Bio.Cache.set_buf_of_ne _ _ ((coherent.victim_free unreferenced).1 _ _ found)]

variable (stable : Stable cache other handles)

include stable

theorem dirtyAt_insert {place : Pid × Local} {blockno : Nat} :
    DirtyAt other (handles.insert key new) place blockno ↔
      if place = key then new.dirty = true ∧ (other.buf new.buf).blockno = blockno
      else DirtyAt cache handles place blockno := by
  unfold DirtyAt
  split
  case isTrue same =>
    subst same
    simp
  case isFalse different =>
    rw [AList.lookup_insert_ne different]
    constructor
    · rintro ⟨handle, found, dirty, at_block⟩
      exact ⟨handle, found, dirty, (stable found).symm.trans at_block⟩
    · rintro ⟨handle, found, dirty, at_block⟩
      exact ⟨handle, found, dirty, (stable found).trans at_block⟩

omit stable in
theorem pending_congr {newHandles : Handles}
    (same : ∀ pid index blockno, DirtyAt other newHandles (pid, .op index) blockno ↔
      DirtyAt cache handles (pid, .op index) blockno) :
    pending other newHandles = pending cache handles := by
  ext blockno
  simp only [pending, Set.mem_ofPred_eq, same]

theorem pending_insert_clean (clean : new.dirty = false)
    (undirtied : ∀ old, handles.lookup key = some old → old.dirty = false) :
    pending other (handles.insert key new) = pending cache handles := by
  apply pending_congr
  intro pid index blockno
  rw [dirtyAt_insert stable]
  split
  case isTrue same =>
    subst same
    simp only [clean, Bool.false_eq_true, false_and, false_iff]
    rintro ⟨old, found, dirty, -⟩
    rw [undirtied old found] at dirty
    cases dirty
  case isFalse => rfl

variable {pid : Pid}

/-- A reference that becomes dirty makes its block pending. -/
theorem pending_insert_dirty {index : Nat} {old : Handle}
    (found : handles.lookup (pid, .op index) = some old) (same : new.buf = old.buf)
    (dirty : new.dirty = true) :
    pending other (handles.insert (pid, .op index) new) =
      insert (cache.buf old.buf).blockno (pending cache handles) := by
  have at_block : (other.buf new.buf).blockno = (cache.buf old.buf).blockno := by
    rw [same]
    exact stable found
  ext blockno
  simp only [pending, Set.mem_insert_iff, Set.mem_ofPred_eq, dirtyAt_insert stable]
  constructor
  · rintro ⟨owner, place, entry⟩
    split at entry
    · exact .inl (entry.2.symm.trans at_block)
    · exact .inr ⟨owner, place, entry⟩
  · rintro (rfl | ⟨owner, place, entry⟩)
    · exact ⟨pid, index, by simp [dirty, at_block]⟩
    · refine ⟨owner, place, ?_⟩
      split
      case isTrue here =>
        obtain ⟨handle, entry, -, here_block⟩ := entry
        rw [here, found] at entry
        cases entry
        exact ⟨dirty, at_block.trans here_block⟩
      case isFalse => exact entry

theorem pending_insert_logged {index : Nat} {old : Handle}
    (found : handles.lookup (pid, .op index) = some old) (clean : new.dirty = false)
    (alone : ∀ place, DirtyAt cache handles place (cache.buf old.buf).blockno →
      place = (pid, .op index)) :
    pending other (handles.insert (pid, .op index) new) =
      pending cache handles \ {(cache.buf old.buf).blockno} := by
  ext blockno
  simp only [pending, Set.mem_sdiff, Set.mem_singleton_iff, Set.mem_ofPred_eq,
    dirtyAt_insert stable]
  constructor
  · rintro ⟨owner, place, entry⟩
    split at entry
    case isTrue =>
      rw [clean] at entry
      cases entry.1
    case isFalse elsewhere =>
      refine ⟨⟨owner, place, entry⟩, ?_⟩
      rintro rfl
      exact elsewhere (alone _ entry)
  · rintro ⟨⟨owner, place, entry⟩, different⟩
    refine ⟨owner, place, ?_⟩
    rw [if_neg]
    · exact entry
    · intro here
      obtain ⟨handle, entry, -, here_block⟩ := entry
      rw [here, found] at entry
      cases entry
      exact different here_block.symm

theorem pending_insert_local {name : Local} (notOp : ∀ index, name ≠ .op index) :
    pending other (handles.insert (pid, name) new) = pending cache handles := by
  apply pending_congr
  intro owner index blockno
  rw [dirtyAt_insert stable, if_neg]
  intro same
  exact notOp index (Prod.mk.inj same).2.symm

theorem pending_erase (undirtied : ∀ old, handles.lookup key = some old → old.dirty = false) :
    pending other (handles.erase key) = pending cache handles := by
  apply pending_congr
  intro pid index blockno
  constructor
  · rintro ⟨handle, found, dirty, at_block⟩
    obtain ⟨-, entry⟩ := AList.lookup_erase_eq_some.mp found
    exact ⟨handle, entry, dirty, (stable entry).symm.trans at_block⟩
  · rintro ⟨handle, found, dirty, at_block⟩
    refine ⟨handle, AList.lookup_erase_eq_some.mpr ⟨?_, found⟩, dirty,
      (stable found).trans at_block⟩
    rintro rfl
    rw [undirtied handle found] at dirty
    cases dirty

omit stable in
theorem matches_unknown : Matches cache handles pid unknown := by
  intro name slot known
  cases known

omit stable in
theorem env_update {env : Pid → Env} {name : Local} {slot : Option Slot} (owner : Pid) (place : Local) :
    update env pid (update (env pid) name slot) owner place =
      if (owner, place) = (pid, name) then slot else env owner place := by
  by_cases same : owner = pid
  · subst same
    by_cases equal : place = name <;> simp [equal]
  · simp [same]

theorem matches_insert {env : Pid → Env} {name : Local}
    (matched : ∀ owner, Matches cache handles owner (env owner))
    (owner : Pid) :
    Matches other (handles.insert (pid, name) new) owner
      (update env pid (update (env pid) name
        (some ⟨(other.buf new.buf).blockno, new.stage, new.dirty⟩)) owner) := by
  intro place slot known
  rw [env_update] at known
  split at known
  · next here =>
    cases here
    cases known
    exact ⟨new, by simp, rfl, rfl, rfl⟩
  · next here =>
    obtain ⟨handle, found, at_block, stage, dirty⟩ := matched owner place slot known
    exact ⟨handle, (AList.lookup_insert_ne here).trans found, (stable found).trans at_block, stage,
      dirty⟩

theorem matches_erase {env : Pid → Env} {name : Local}
    (matched : ∀ owner, Matches cache handles owner (env owner))
    (owner : Pid) :
    Matches other (handles.erase (pid, name)) owner
      (update env pid (update (env pid) name none) owner) := by
  intro place slot known
  rw [env_update] at known
  split at known
  · cases known
  · next here =>
    obtain ⟨handle, found, at_block, stage, dirty⟩ := matched owner place slot known
    exact ⟨handle, AList.lookup_erase_eq_some.mpr ⟨here, found⟩, (stable found).trans at_block,
      stage, dirty⟩

end

section

variable {geometry : Geometry} {state next : State} {system : Option Pid} {phase nextPhase : Phase}
  {env : Pid → Env} {pid : Pid} {proc : Proc} {rest : List Instr} {local' : Env}

/-- One process goes on, and the others are not affected. -/
theorem Threads.exec (threads : Threads geometry state system phase env)
    (procs : next.procs = update state.procs pid proc) (inOp : proc.inOp = (state.procs pid).inOp)
    (booting : next.booting = state.booting)
    (committing : next.log.committing = state.log.committing)
    (outstanding : next.log.outstanding = state.log.outstanding)
    (phases : system = some pid ∨ nextPhase = phase)
    (header : next.log.lh = state.log.lh ∨ ∀ owner, system = some owner → owner = pid)
    (typed : Typed geometry proc.code next.log.lh (modeOf system state.booting nextPhase pid) local')
    (matched : ∀ owner, Matches next.cache next.handles owner (update env pid local' owner))
    (dirty : ∀ owner index handle, next.handles.lookup (owner, .op index) = some handle →
      handle.dirty = true → (state.procs owner).inOp = true) :
    Threads geometry next system nextPhase (update env pid local') := by
  have inOp : ∀ owner, (next.procs owner).inOp = (state.procs owner).inOp := by
    intro owner
    by_cases same : owner = pid
    · subst same
      simpa [procs] using inOp
    · simp [procs, same]
  refine ⟨?_, matched, ?_, ?_, ?_, ?_⟩
  · intro owner
    rw [booting]
    by_cases same : owner = pid
    · subst same
      simpa [procs] using typed
    · have before := threads.typed owner
      simp only [procs, update_of_ne same]
      by_cases is_system : system = some owner
      · have phase_eq : nextPhase = phase := by
          rcases phases with moved | phase_eq
          · rw [is_system] at moved
            exact absurd (Option.some.inj moved) same
          · exact phase_eq
        rcases header with lh | alone
        · rwa [lh, phase_eq]
        · exact absurd (alone owner is_system) same
      · simp only [modeOf, is_system, if_false] at before ⊢
        exact before.user_header _
  · intro none_runs
    rcases phases with is_system | phase_eq
    · rw [none_runs] at is_system
      cases is_system
    · rw [booting, committing, phase_eq]
      exact threads.idle none_runs
  · intro runner runs
    rw [booting, committing, outstanding]
    exact threads.busy runner runs
  · obtain ⟨ops, members, card⟩ := threads.counted
    exact ⟨ops, fun owner => by rw [inOp]; exact members owner, card.trans outstanding.symm⟩
  · intro owner index handle found is_dirty
    rw [inOp]
    exact dirty owner index handle found is_dirty

/-- The instruction does not touch any reference. -/
theorem Threads.jump (threads : Threads geometry state system phase env)
    (known : Matches state.cache state.handles pid local')
    (cache : next.cache = state.cache) (handles : next.handles = state.handles)
    (procs : next.procs = update state.procs pid { state.procs pid with code := rest })
    (booting : next.booting = state.booting)
    (committing : next.log.committing = state.log.committing)
    (outstanding : next.log.outstanding = state.log.outstanding)
    (frame : system = some pid ∨ next.log.lh = state.log.lh ∧ nextPhase = phase)
    (typed : Typed geometry rest next.log.lh (modeOf system state.booting nextPhase pid) local') :
    Threads geometry next system nextPhase (update env pid local') := by
  have phases : system = some pid ∨ nextPhase = phase := frame.imp_right And.right
  have header : next.log.lh = state.log.lh ∨ ∀ owner, system = some owner → owner = pid := by
    rcases frame with is_system | ⟨lh, -⟩
    · exact .inr fun owner runs => Option.some.inj (runs.symm.trans is_system)
    · exact .inl lh
  refine threads.exec procs rfl booting committing outstanding phases header typed ?_ ?_
  · intro owner
    rw [cache, handles]
    by_cases same : owner = pid
    · subst same
      simpa using known
    · simpa [same] using threads.matched owner
  · rw [handles]
    exact threads.dirty

/-- A reference may be dirty if its process is inside an operation. -/
theorem Threads.dirty_insert (threads : Threads geometry state system phase env) {name : Local}
    {new : Handle}
    (allowed : ∀ index, name = .op index → new.dirty = true → (state.procs pid).inOp = true)
    (owner : Pid) (index : Nat) (handle : Handle)
    (found : (state.handles.insert (pid, name) new).lookup (owner, .op index) = some handle)
    (dirty : handle.dirty = true) : (state.procs owner).inOp = true := by
  rcases AList.lookup_insert_eq_some.mp found with ⟨same, rfl⟩ | ⟨-, entry⟩
  · cases same
    exact allowed index rfl dirty
  · exact threads.dirty owner index handle entry dirty

variable (related : Related geometry state system phase env)

include related

/-- Everything in the relation but the protocol state is established, which makes one step. -/
theorem Related.advance (nextPhase : Phase) {nextSystem : Option Pid} {nextEnv : Pid → Env}
    (coherent : Coherent next.disk next.cache next.handles (pinned next))
    (recorded : next.history ≠ []) (threads : Threads geometry next nextSystem nextPhase nextEnv)
    (steps : Relation.ReflGen (WriteAhead.Step (format geometry)) (abstraction state phase)
      (abstraction next nextPhase)) : Advances geometry state phase next := by
  refine ⟨nextSystem, nextPhase, nextEnv, ⟨coherent, recorded, threads, ?_⟩, steps⟩
  rcases (Relation.reflGen_iff _ _ _).mp steps with same | step
  · rw [same]
    exact related.invariant
  · exact related.invariant.step step

theorem Related.typed {code : List Instr} (here : (state.procs pid).code = code) :
    Typed geometry code state.log.lh (modeOf system state.booting phase pid) (env pid) :=
  here ▸ related.threads.typed pid

/-- An event that the protocol does not see. -/
theorem Related.quiet {nextSystem : Option Pid} {nextEnv : Pid → Env}
    (coherent : Coherent next.disk next.cache next.handles (pinned next))
    (threads : Threads geometry next nextSystem phase nextEnv) (disk : next.disk = state.disk)
    (memory : view next.disk next.cache = view state.disk state.cache)
    (group : next.log.lh = state.log.lh)
    (unlogged : pending next.cache next.handles = pending state.cache state.handles)
    (current : next.current = state.current) (history : next.history = state.history) :
    Advances geometry state phase next := by
  apply related.advance phase coherent _ threads
  · have same : abstraction next phase = abstraction state phase := by
      unfold abstraction
      rw [memory, group, unlogged, current, history, disk]
    rw [same]
  · rw [history]
    exact related.recorded

variable {name : Local}

/-- A reference that is not dirty is created or changes its stage. -/
theorem Related.reference
    {new : Handle} {cache : Bio.Cache} (stable : Stable state.cache cache state.handles)
    (coherent : Coherent state.disk cache (state.handles.insert (pid, name) new) (pinned state))
    (clean : new.dirty = false)
    (undirtied : ∀ old, state.handles.lookup (pid, name) = some old → old.dirty = false)
    (same_view : view state.disk cache = view state.disk state.cache)
    (typed : Typed geometry rest state.log.lh (modeOf system state.booting phase pid)
      (update (env pid) name (some ⟨(cache.buf new.buf).blockno, new.stage, new.dirty⟩))) :
    Advances geometry state phase
      (({ state with cache := cache }.setHandle pid name new).setCode pid rest) := by
  refine related.quiet coherent
    (related.threads.exec rfl rfl rfl rfl rfl (.inr rfl) (.inl rfl) typed
      (matches_insert stable related.threads.matched) ?_)
    rfl same_view rfl (pending_insert_clean stable clean undirtied) rfl rfl
  exact related.threads.dirty_insert fun _ _ dirty => absurd dirty (by simp [clean])

theorem Related.bget {blockno : Nat}
    (code : (state.procs pid).code = .bget name blockno :: rest)
    (stepped : stepBget state pid name blockno rest = some next) :
    next = state.fail .noBuffers ∨ Advances geometry state phase next := by
  have typed := related.typed code
  have coherent := related.coherent
  unfold stepBget at stepped
  cases fresh : state.handles.lookup (pid, name) with
  | some handle => simp [fresh] at stepped
  | none =>
    simp only [fresh, Bio.Cache.bget] at stepped
    have undirtied : ∀ old, state.handles.lookup (pid, name) = some old → old.dirty = false := by
      simp [fresh]
    cases hit : state.cache.lookup ROOTDEV blockno with
    | some index =>
      simp only [hit] at stepped
      cases stepped
      have caches := caches_of_lookup hit
      have after := coherent.bget_hit fresh caches
      right
      refine related.reference (stable_set (by rfl)) after rfl undirtied ?_ ?_
      · exact coherent.view_congr after (sameData_set ⟨rfl, rfl, rfl, rfl⟩)
      · simpa [Typed, caches.2] using typed
    | none =>
      cases recycled : state.cache.victim with
      | none =>
        simp only [hit, recycled, Option.some.injEq] at stepped
        exact .inl stepped.symm
      | some index =>
        simp only [hit, recycled] at stepped
        cases stepped
        have unreferenced := refcnt_of_victim recycled
        right
        refine related.reference (stable_recycle coherent unreferenced)
          (coherent.bget_miss fresh hit unreferenced) rfl undirtied ?_ ?_
        · exact coherent.view_bget_miss fresh hit unreferenced
        · simpa [Typed] using typed

omit related in
theorem Threads.slot (threads : Threads geometry state system phase env) {handle : Handle} {slot : Slot}
    (found : state.handles.lookup (pid, name) = some handle) (known : env pid name = some slot) :
    (state.bufOf handle).blockno = slot.blockno ∧ handle.stage = slot.stage ∧
      handle.dirty = slot.dirty := by
  obtain ⟨_, entry, facts⟩ := threads.matched pid name slot known
  cases found.symm.trans entry
  exact facts

theorem Related.clean {handle : Handle} (found : state.handles.lookup (pid, name) = some handle)
    (stage : handle.stage ≠ .filled) : handle.dirty = false := by
  by_contra dirty
  exact stage (related.coherent.dirty found (by simpa using dirty))

theorem Related.acquire
    (code : (state.procs pid).code = .acquire name :: rest)
    (stepped : stepAcquire state pid name rest = some next) :
    Advances geometry state phase next := by
  have coherent := related.coherent
  obtain ⟨handle, found, ⟨stage, free⟩, rfl⟩ := stepAcquire_eq_some.mp stepped
  obtain ⟨slot, known, typed⟩ := related.typed code
  obtain ⟨at_block, -, dirty⟩ := related.threads.slot found known
  have undirtied := related.clean found (by simp [stage])
  have after := coherent.acquire found stage free
  refine related.reference (stable_set (by rfl)) after undirtied ?_ ?_ ?_
  · intro old entry
    cases found.symm.trans entry
    exact undirtied
  · exact coherent.view_congr after (sameData_set ⟨rfl, rfl, rfl, rfl⟩)
  · simpa [← at_block, dirty] using typed

theorem Related.fill
    (code : (state.procs pid).code = .fill name :: rest)
    (stepped : stepFill state pid name rest = some next) : Advances geometry state phase next := by
  have coherent := related.coherent
  obtain ⟨handle, found, stage, rfl⟩ := stepFill_eq_some.mp stepped
  obtain ⟨slot, known, typed⟩ := related.typed code
  obtain ⟨at_block, -, dirty⟩ := related.threads.slot found known
  have undirtied := related.clean found (by simp [stage])
  have replaced : ∀ old, state.handles.lookup (pid, name) = some old → old.dirty = false := by
    intro old entry
    cases found.symm.trans entry
    exact undirtied
  cases valid : (state.bufOf handle).valid with
  | true =>
    have after := coherent.fill found stage valid
    simp only [if_true]
    refine related.reference (stable_set (by rfl)) after undirtied replaced ?_ ?_
    · exact coherent.view_congr after (sameData_set (.refl _))
    · simpa [← at_block, dirty] using typed
  | false =>
    have after := coherent.overwrite found (by simp [stage, Stage.Holding])
      (state.disk (state.cache.buf handle.buf).blockno) handle.dirty (fun _ => ⟨undirtied, rfl⟩)
    simp only [Bool.false_eq_true, if_false]
    refine related.reference (stable_set (by rfl)) after undirtied replaced ?_ ?_
    · exact (coherent.view_overwrite found (by simp [stage, Stage.Holding]) _).trans
        (coherent.update_view_of_invalid found valid)
    · simpa [← at_block, dirty] using typed

theorem Related.release
    (code : (state.procs pid).code = .release name :: rest)
    (stepped : stepRelease state pid name rest = some next) :
    Advances geometry state phase next := by
  have coherent := related.coherent
  obtain ⟨slot, known, filled, settled, typed⟩ := related.typed code
  obtain ⟨handle, found, at_block, stage, dirty⟩ := related.threads.matched pid name slot known
  rw [filled] at stage
  rw [settled] at dirty
  have held : (state.bufOf handle).lock = some pid :=
    coherent.held found (by simp [stage, Stage.Holding])
  simp only [stepRelease, found, Option.bind_eq_bind, Option.bind_some, held, if_true] at stepped
  cases stepped
  have after := coherent.release found stage dirty
  refine related.reference (stable_set (by rfl)) after dirty ?_ ?_ ?_
  · intro old entry
    cases found.symm.trans entry
    exact dirty
  · exact coherent.view_congr after (sameData_set ⟨rfl, rfl, rfl, rfl⟩)
  · simpa [State.bufOf, at_block, dirty, settled] using typed

theorem Related.put
    (code : (state.procs pid).code = .put name :: rest)
    (stepped : stepPut state pid name rest = some next) : Advances geometry state phase next := by
  have typed := related.typed code
  have coherent := related.coherent
  obtain ⟨handle, found, stage, rfl⟩ := stepPut_eq_some.mp stepped
  have undirtied : ∀ old, state.handles.lookup (pid, name) = some old → old.dirty = false := by
    intro old entry
    cases found.symm.trans entry
    exact related.clean found (by simp [stage])
  have after := coherent.put found stage
  have stable : Stable state.cache (state.cache.brelse handle.buf) state.handles := stable_brelse _
  have same_view := coherent.view_congr after fun place => by
    rw [Bio.Cache.brelse_buf]
    split <;> exact ⟨rfl, rfl, rfl, rfl⟩
  refine related.quiet after
    (related.threads.exec rfl rfl rfl rfl rfl (.inr rfl) (.inl rfl) typed
      (matches_erase stable related.threads.matched) ?_)
    rfl same_view rfl (pending_erase stable undirtied) rfl rfl
  intro owner index handle found is_dirty
  exact related.threads.dirty owner index handle (AList.lookup_erase_eq_some.mp found).2 is_dirty

/-- The process goes on elsewhere. -/
theorem Related.jump (known : Matches state.cache state.handles pid local')
    (typed : Typed geometry rest state.log.lh (modeOf system state.booting phase pid) local') :
    Advances geometry state phase (state.setCode pid rest) :=
  related.quiet related.coherent
    (related.threads.jump known rfl rfl rfl rfl rfl rfl (.inr ⟨rfl, rfl⟩) typed) rfl rfl rfl rfl rfl rfl

omit related in
theorem modeOf_eq_system {recovering known : Bool} {expected : Phase}
    (mode : modeOf system known phase pid = .system recovering expected) :
    system = some pid ∧ recovering = known ∧ expected = phase := by
  unfold modeOf at mode
  split at mode
  case isTrue is_system =>
    cases mode
    exact ⟨is_system, rfl, rfl⟩
  case isFalse => cases mode

theorem Related.store
    {handle : Handle} {block : Block} (nextPhase : Phase) (is_system : system = some pid)
    (notOp : ∀ index, name ≠ .op index)
    (found : state.handles.lookup (pid, name) = some handle) (stage : handle.stage = .filled)
    (typed : Typed geometry rest state.log.lh (.system state.booting nextPhase)
      (update (env pid) name (some ⟨(state.bufOf handle).blockno, handle.stage, true⟩)))
    (step : WriteAhead.Step (format geometry) (abstraction state phase)
      { abstraction state phase with
        memory := update (view state.disk state.cache) (state.bufOf handle).blockno block
        phase := nextPhase }) :
    Advances geometry state phase
      (((state.setBuf handle.buf { state.bufOf handle with data := block }).setHandle pid name
        { handle with dirty := true }).setCode pid rest) := by
  obtain ⟨after, same_view⟩ := related.coherent.store found stage block
  have stable : Stable state.cache
      (state.cache.set handle.buf { state.bufOf handle with data := block }) state.handles :=
    stable_set (by rfl)
  refine related.advance nextPhase after related.recorded
    (related.threads.exec rfl rfl rfl rfl rfl (.inl is_system) (.inl rfl) ?_
      (matches_insert stable related.threads.matched) ?_) (.single ?_)
  · simpa [modeOf, is_system, setCode, setHandle, State.setBuf] using typed
  · exact related.threads.dirty_insert fun index same => absurd same (notOp index)
  · have same : abstraction (((state.setBuf handle.buf { state.bufOf handle with
        data := block }).setHandle pid name { handle with dirty := true }).setCode pid rest)
          nextPhase =
        { abstraction state phase with
          memory := update (view state.disk state.cache) (state.bufOf handle).blockno block
          phase := nextPhase } := by
      unfold abstraction
      dsimp only [setCode, setHandle, State.setBuf]
      rw [pending_insert_local stable notOp]
      exact congrArg (fun memory => WriteAhead.State.mk _ memory _ _ _ _ _) same_view
    rw [same]
    exact step

theorem Related.memmove {target from' : Local}
    (code : (state.procs pid).code = .memmove target from' :: rest)
    (stepped : stepMemmove state pid target from' rest = some next) :
    Advances geometry state phase next := by
  obtain ⟨into, into_found, out, out_found, ⟨into_stage, out_stage⟩, rfl⟩ := stepMemmove_eq_some.mp stepped
  obtain ⟨recovering, before, after, intoSlot, outSlot, mode, notOp, into_known, out_known, moves,
    typed⟩ := related.typed code
  obtain ⟨is_system, rfl, rfl⟩ := modeOf_eq_system mode
  obtain ⟨into_block, into_slot_stage, -⟩ := related.threads.slot into_found into_known
  obtain ⟨out_block, -, -⟩ := related.threads.slot out_found out_known
  have source : (state.bufOf out).data = view state.disk state.cache outSlot.blockno := by
    rw [← out_block]
    exact (related.coherent.view_of_filled out_found out_stage).symm
  refine related.store after is_system notOp into_found into_stage ?_ ?_
  · rw [into_block, into_slot_stage]
    exact typed
  · rw [source, into_block]
    unfold afterMove at moves
    split at moves
    · obtain ⟨places, ⟨⟩⟩ := Option.ite_none_right_eq_some.mp moves
      rw [places.1]
      exact .copyLog _ _ rfl places.2
    · obtain ⟨places, ⟨⟩⟩ := Option.ite_none_right_eq_some.mp moves
      rw [places.2]
      exact .copyHome _ _ rfl places.1
    · cases moves

theorem Related.setHead
    (code : (state.procs pid).code = .setHead name :: rest)
    (stepped : stepSetHead state pid name rest = some next) :
    Advances geometry state phase next := by
  obtain ⟨handle, found, stage, rfl⟩ := stepSetHead_eq_some.mp stepped
  obtain ⟨recovering, before, after, slot, mode, notOp, known, is_head, sets, typed⟩ := related.typed code
  obtain ⟨is_system, rfl, rfl⟩ := modeOf_eq_system mode
  obtain ⟨at_block, slot_stage, -⟩ := related.threads.slot found known
  have at_start : (state.bufOf handle).blockno = geometry.start := at_block.trans is_head
  have header : (state.bufOf handle).data = view state.disk state.cache geometry.start := by
    rw [← at_start]
    exact (related.coherent.view_of_filled found stage).symm
  refine related.store after is_system notOp found stage ?_ ?_
  · rw [at_start, slot_stage, ← is_head]
    exact typed
  · rw [header, at_start]
    unfold afterSetHead at sets
    split at sets
    · cases sets
      exact .setHead rfl
    · cases sets
      have empty : state.log.lh = [] := related.invariant.phase.2.1
      rw [empty]
      exact .setClear rfl
    · cases sets

omit related in
theorem abstraction_loaded (state : State) (pid : Pid) (rest : List Instr) (group : List Nat)
    (phase after : Phase) :
    abstraction ({ state with log := { state.log with lh := group } }.setCode pid rest) after =
      { abstraction state phase with
        group := group
        phase := after } :=
  rfl

theorem Related.getHead
    (code : (state.procs pid).code = .getHead name :: rest)
    (stepped : stepGetHead state pid name rest = some next) :
    Advances geometry state phase next := by
  obtain ⟨handle, found, stage, rfl⟩ := stepGetHead_eq_some.mp stepped
  obtain ⟨slot, mode, known, is_head, typed⟩ := related.typed code
  obtain ⟨is_system, booting, rfl⟩ := modeOf_eq_system mode
  obtain ⟨at_block, -, -⟩ := related.threads.slot found known
  have header : (state.bufOf handle).data = view state.disk state.cache geometry.start := by
    rw [← is_head, ← at_block]
    exact (related.coherent.view_of_filled found stage).symm
  rw [header]
  -- What the header holds matters for the last part only.
  generalize loaded : loadHead (view state.disk state.cache geometry.start) = group
  refine related.advance (.installing 0 false) ?_ related.recorded
    (related.threads.jump (related.threads.matched pid) rfl rfl rfl rfl rfl rfl (.inl is_system) ?_)
    (.single ?_)
  · simpa [pinned, setCode, ← booting] using related.coherent
  · simpa [modeOf, is_system, ← booting, setCode] using typed _
  · have loads : (format geometry).entries
        ((abstraction state .booting).memory (format geometry).start) =
          loadHead (view state.disk state.cache geometry.start) := rfl
    have read := @WriteAhead.Step.readHead _ (format geometry) (abstraction state .booting) rfl
    rw [loads, loaded] at read
    rw [abstraction_loaded state pid rest _ .booting]
    exact read

/-- The part of the protocol state that a block write changes. -/
theorem Related.afterWrite_step {blockno : Nat} {committed : Nat → Block}
    (writes : afterWrite geometry state.log.lh phase blockno = some nextPhase)
    (latest : committed = if blockno = geometry.start ∧
      loadHead (view state.disk state.cache blockno) ≠ [] then state.current
      else (abstraction state phase).committed) :
    Relation.ReflGen (WriteAhead.Step (format geometry)) (abstraction state phase)
      { abstraction state phase with
        disk := update state.disk blockno (view state.disk state.cache blockno)
        committed := committed
        phase := nextPhase } := by
  have invariant := related.invariant
  unfold afterWrite at writes
  split at writes
  · obtain ⟨place, ⟨⟩⟩ := Option.ite_none_right_eq_some.mp writes
    subst place
    rw [if_neg (by omega)] at latest
    rw [latest]
    exact .single (.writeLog _ rfl)
  · obtain ⟨place, ⟨⟩⟩ := Option.ite_none_right_eq_some.mp writes
    have sealed : loadHead (view state.disk state.cache geometry.start) = state.log.lh :=
      invariant.phase.2.2.2 rfl
    rw [place.1, sealed, if_pos ⟨rfl, place.2⟩] at latest
    rw [latest, place.1]
    exact .single (.writeHead rfl)
  · obtain ⟨named, ⟨⟩⟩ := Option.ite_none_right_eq_some.mp writes
    have home := invariant.home blockno (List.mem_of_getElem? named)
    rw [if_neg fun both => home.ne_start both.1] at latest
    rw [latest]
    exact .single (.writeHome _ _ rfl named)
  · obtain ⟨named, ⟨⟩⟩ := Option.ite_none_right_eq_some.mp writes
    have home := invariant.home blockno (List.mem_of_getElem? named)
    have installed := invariant.phase.2.1.home _ blockno (Nat.lt_succ_self _) named
    rw [if_neg fun both => home.ne_start both.1] at latest
    have again : update state.disk blockno (view state.disk state.cache blockno) = state.disk :=
      Function.update_eq_self_iff.mpr (installed.2.trans installed.1.symm)
    rw [latest, again]
    exact .refl
  · obtain ⟨place, ⟨⟩⟩ := Option.ite_none_right_eq_some.mp writes
    have cleared : loadHead (view state.disk state.cache geometry.start) = [] :=
      invariant.phase.2.2.2 rfl
    rw [place, cleared, if_neg (by simp)] at latest
    rw [latest, place]
    exact .single (.writeClear rfl)
  · cases writes

theorem Related.bwrite
    (code : (state.procs pid).code = .bwrite name :: rest)
    (stepped : stepBwrite geometry state pid name rest = some next) :
    Advances geometry state phase next := by
  have coherent := related.coherent
  obtain ⟨recovering, before, after, slot, mode, notOp, -, -, known, filled, writes, typed⟩ := related.typed code
  obtain ⟨is_system, rfl, rfl⟩ := modeOf_eq_system mode
  obtain ⟨handle, found, at_block, stage, -⟩ := related.threads.matched pid name slot known
  have stage_filled := stage.trans filled
  have held : (state.bufOf handle).lock = some pid :=
    coherent.held found (by simp [stage_filled, Stage.Holding])
  simp only [stepBwrite, found, Option.bind_eq_bind, Option.bind_some, held, if_true] at stepped
  cases stepped
  have shown : (state.bufOf handle).data = view state.disk state.cache slot.blockno := by
    rw [← at_block]
    exact (coherent.view_of_filled found stage_filled).symm
  have stable : Stable state.cache state.cache state.handles := fun _ => rfl
  refine related.advance after (coherent.bwrite found stage_filled) ?_
    (related.threads.exec rfl rfl rfl rfl rfl (.inl is_system) (.inl rfl) ?_
      (matches_insert stable related.threads.matched) ?_) ?_
  · show (if _ then _ else _) ≠ []
    split
    · simp
    · exact related.recorded
  · simpa [modeOf, is_system, setCode, setHandle, at_block, stage] using typed
  · exact related.threads.dirty_insert fun index same => absurd same (notOp index)
  · have same_view := coherent.view_bwrite found stage_filled
    have at_block : (state.bufOf handle).blockno = slot.blockno := at_block
    rw [show (state.cache.buf handle.buf).data = _ from shown,
      show (state.cache.buf handle.buf).blockno = slot.blockno from at_block] at same_view
    obtain ⟨committed, older, recorded⟩ := List.exists_cons_of_ne_nil related.recorded
    have steps := related.afterWrite_step writes rfl
    unfold abstraction at steps ⊢
    dsimp only [setCode, setHandle] at steps ⊢
    rw [pending_insert_local stable notOp, shown, at_block, same_view]
    rw [recorded] at steps ⊢
    by_cases commits : slot.blockno = geometry.start ∧
        loadHead (view state.disk state.cache slot.blockno) ≠ []
    · simpa only [if_pos commits, List.headD_cons] using steps
    · simpa only [if_neg commits, List.headD_cons] using steps

theorem Related.writeLog {tail : Nat}
    (code : (state.procs pid).code = .writeLog tail :: rest)
    (stepped : stepCode geometry state pid (.writeLog tail :: rest) = some next) :
    Advances geometry state phase next := by
  obtain ⟨recovering, mode, typed⟩ := related.typed code
  obtain ⟨is_system, rfl, rfl⟩ := modeOf_eq_system mode
  cases named : state.log.lh[tail]? with
  | some blockno =>
    simp only [stepCode, named] at stepped
    cases stepped
    refine related.jump matches_unknown ?_
    rw [modeOf, if_pos is_system]
    exact typed_writeLogBody named typed
  | none =>
    simp only [stepCode, named] at stepped
    cases stepped
    refine related.advance (.sealing false) related.coherent related.recorded
      (related.threads.jump matches_unknown rfl rfl rfl rfl rfl rfl (.inl is_system) ?_)
      (.single (.logged tail rfl (List.getElem?_eq_none_iff.mp named)))
    rw [modeOf, if_pos is_system]
    exact typed

theorem Related.installTrans {recovering : Bool} {index : Nat}
    (code : (state.procs pid).code = .installTrans recovering index :: rest)
    (stepped : stepCode geometry state pid (.installTrans recovering index :: rest) = some next) :
    Advances geometry state phase next := by
  obtain ⟨_, mode, typed⟩ := related.typed code
  obtain ⟨is_system, rfl, rfl⟩ := modeOf_eq_system mode
  cases named : state.log.lh[index]? with
  | some blockno =>
    simp only [stepCode, named] at stepped
    cases stepped
    refine related.jump matches_unknown ?_
    rw [modeOf, if_pos is_system]
    exact typed_installBody recovering named typed
  | none =>
    simp only [stepCode, named] at stepped
    cases stepped
    refine related.jump matches_unknown ?_
    rw [modeOf, if_pos is_system]
    exact typed index (List.getElem?_eq_none_iff.mp named)

theorem Related.clear
    (code : (state.procs pid).code = .clear :: rest)
    (stepped : stepCode geometry state pid (.clear :: rest) = some next) :
    Advances geometry state phase next := by
  obtain ⟨_, index, mode, complete, typed⟩ := related.typed code
  obtain ⟨is_system, rfl, rfl⟩ := modeOf_eq_system mode
  simp only [stepCode] at stepped
  cases stepped
  refine related.advance (.clearing false) ?_ related.recorded
    (related.threads.jump (related.threads.matched pid) rfl rfl rfl rfl rfl rfl (.inl is_system) ?_)
    (.single (.installed index rfl complete))
  · have unpinned : Coherent state.disk state.cache state.handles [] := by
      apply related.coherent.unpin
      intro blockno member
      have logged : blockno ∈ state.log.lh := by
        unfold pinned at member
        split at member
        · cases member
        · exact member
      obtain ⟨place, place_lt, named⟩ := List.mem_iff_getElem.mp logged
      have installed := related.invariant.phase.2.1.home place blockno (by omega)
        (List.getElem?_eq_some_iff.mpr ⟨place_lt, named⟩)
      exact installed.2.trans installed.1.symm
    have none_pinned : pinned ({ state with log := { state.log with lh := [] } }.setCode pid rest) =
        [] := by
      unfold pinned
      split <;> rfl
    rw [none_pinned]
    exact unpinned
  · rw [modeOf, if_pos is_system]
    exact typed

omit related in
theorem Threads.nobody (threads : Threads geometry state system phase env)
    (is_system : system = some pid) (owner : Pid) : (state.procs owner).inOp = false := by
  obtain ⟨ops, members, card⟩ := threads.counted
  rw [(threads.busy pid is_system).2] at card
  by_contra active
  have member := (members owner).mpr (by simpa using active)
  rw [Finset.card_eq_zero.mp card] at member
  simp at member

theorem Related.pending_eq_empty (nobody : ∀ owner, (state.procs owner).inOp = false) :
    pending state.cache state.handles = ∅ := by
  apply Set.eq_empty_of_forall_notMem
  rintro blockno ⟨owner, index, handle, found, dirty, -⟩
  have active := related.threads.dirty owner index handle found dirty
  rw [nobody owner] at active
  cases active

theorem Related.commit
    (code : (state.procs pid).code = .commit :: rest)
    (stepped : stepCode geometry state pid (.commit :: rest) = some next) :
    Advances geometry state phase next := by
  obtain ⟨mode, rfl⟩ := related.typed code
  obtain ⟨is_system, booting, rfl⟩ := modeOf_eq_system mode
  by_cases empty : state.log.lh = []
  · simp only [stepCode, empty, ne_eq, not_true_eq_false, if_false] at stepped
    cases stepped
    refine related.jump matches_unknown ?_
    rw [modeOf, if_pos is_system, ← booting]
    exact ⟨rfl, empty, rfl⟩
  · simp only [stepCode, empty, ne_eq, not_false_eq_true, if_true] at stepped
    cases stepped
    refine related.advance (.copying 0 false) related.coherent related.recorded
      (related.threads.jump matches_unknown rfl rfl rfl rfl rfl rfl (.inl is_system) ?_)
      (.single (.begin rfl (related.pending_eq_empty (related.threads.nobody is_system))))
    rw [modeOf, if_pos is_system, ← booting]
    exact typed_commitBody empty

omit related in
/-- `commit` or `recover` ends. -/
theorem Threads.leave (threads : Threads geometry state system .ready env)
    (is_system : system = some pid) (cache : next.cache = state.cache)
    (handles : next.handles = state.handles)
    (procs : next.procs = update state.procs pid { state.procs pid with code := [] })
    (booting : next.booting = false) (committing : next.log.committing = false)
    (outstanding : next.log.outstanding = state.log.outstanding) :
    Threads geometry next none .ready env := by
  have inOp : ∀ owner, (next.procs owner).inOp = (state.procs owner).inOp := by
    intro owner
    by_cases same : owner = pid
    · subst same
      simp [procs]
    · simp [procs, same]
  refine ⟨?_, ?_, fun _ => ⟨rfl, booting, committing⟩, by simp, ?_, ?_⟩
  · intro owner
    by_cases same : owner = pid
    · subst same
      simp [procs, Typed, modeOf]
    · have before := threads.typed owner
      simp only [modeOf, is_system, Option.some.injEq, Ne.symm same, if_false] at before
      simpa [procs, same, modeOf] using before.user_header _
  · rw [cache, handles]
    exact threads.matched
  · obtain ⟨ops, members, card⟩ := threads.counted
    exact ⟨ops, fun owner => by rw [inOp]; exact members owner, card.trans outstanding.symm⟩
  · intro owner index handle found is_dirty
    rw [inOp]
    rw [handles] at found
    exact threads.dirty owner index handle found is_dirty

theorem Related.finish
    (code : (state.procs pid).code = .finish :: rest)
    (stepped : stepCode geometry state pid (.finish :: rest) = some next) :
    Advances geometry state phase next := by
  obtain ⟨mode, empty, rfl⟩ := related.typed code
  obtain ⟨is_system, booting, rfl⟩ := modeOf_eq_system mode
  simp only [stepCode] at stepped
  cases stepped
  exact related.quiet related.coherent
    (related.threads.leave is_system rfl rfl rfl booting.symm rfl rfl) rfl rfl rfl rfl rfl rfl

theorem Related.booted
    (code : (state.procs pid).code = .booted :: rest)
    (stepped : stepCode geometry state pid (.booted :: rest) = some next) :
    Advances geometry state phase next := by
  obtain ⟨mode, empty, rfl⟩ := related.typed code
  obtain ⟨is_system, booting, rfl⟩ := modeOf_eq_system mode
  simp only [stepCode] at stepped
  cases stepped
  have committing : state.log.committing = false := by
    simpa [← booting] using (related.threads.busy pid is_system).1
  refine related.quiet ?_ (related.threads.leave is_system rfl rfl rfl rfl committing rfl)
    rfl rfl rfl rfl rfl rfl
  simpa [pinned, setCode, ← booting, empty] using related.coherent

/-- Every instruction of a kernel function makes at most one step of the protocol. -/
theorem Related.stepCode
    (stepped : stepCode geometry state pid (state.procs pid).code = some next) :
    (∃ panic, next = state.fail panic) ∨ Advances geometry state phase next := by
  cases code : (state.procs pid).code with
  | nil =>
    rw [code] at stepped
    cases stepped
  | cons instr rest =>
    rw [code] at stepped
    cases instr with
    | bget name blockno =>
      rcases related.bget code stepped with failed | advances
      · exact .inl ⟨_, failed⟩
      · exact .inr advances
    | acquire name => exact .inr (related.acquire code stepped)
    | fill name => exact .inr (related.fill code stepped)
    | memmove target from' => exact .inr (related.memmove code stepped)
    | setHead name => exact .inr (related.setHead code stepped)
    | getHead name => exact .inr (related.getHead code stepped)
    | bwrite name => exact .inr (related.bwrite code stepped)
    | release name => exact .inr (related.release code stepped)
    | put name => exact .inr (related.put code stepped)
    | commit => exact .inr (related.commit code stepped)
    | writeLog tail => exact .inr (related.writeLog code stepped)
    | installTrans recovering index => exact .inr (related.installTrans code stepped)
    | clear => exact .inr (related.clear code stepped)
    | finish => exact .inr (related.finish code stepped)
    | booted => exact .inr (related.booted code stepped)

end

section

variable {geometry : Geometry} {state next : State} {system : Option Pid} {phase : Phase}
  {env : Pid → Env} {pid : Pid} {index : Nat} {handle : Handle}

theorem Threads.mode_of_waiting (threads : Threads geometry state system phase env)
    (waiting : (state.procs pid).code = []) : modeOf system state.booting phase pid = .user := by
  have typed := threads.typed pid
  rwa [waiting] at typed

theorem Threads.idle_of_inOp (threads : Threads geometry state system phase env)
    (active : (state.procs pid).inOp = true) : system = none := by
  cases runs : system with
  | none => rfl
  | some runner =>
    rw [threads.nobody runs pid] at active
    cases active

variable (related : Related geometry state system phase env)

include related

theorem Related.call {code : List Instr} {local' : Env} (waiting : (state.procs pid).code = [])
    (known : Matches state.cache state.handles pid local')
    (typed : Typed geometry code state.log.lh .user local') :
    Advances geometry state phase (state.setCode pid code) := by
  refine related.jump known ?_
  rw [related.threads.mode_of_waiting waiting]
  exact typed

omit related in
/-- Inside an operation a process changes one of its references, and perhaps the header. -/
theorem Threads.access (threads : Threads geometry state system phase env) {proc : Proc}
    {new : Handle} (active : (state.procs pid).inOp = true)
    (procs : next.procs = update state.procs pid proc) (waiting : proc.code = [])
    (inOp : proc.inOp = true) (handles : next.handles = state.handles.insert (pid, .op index) new)
    (stable : Stable state.cache next.cache state.handles) (booting : next.booting = state.booting)
    (committing : next.log.committing = state.log.committing)
    (outstanding : next.log.outstanding = state.log.outstanding) :
    Threads geometry next system phase (update env pid unknown) := by
  have idle := threads.idle_of_inOp active
  refine threads.exec procs (inOp.trans active.symm) booting committing outstanding (.inr rfl)
    (.inr ?_) ?_ ?_ ?_
  · intro owner runs
    rw [idle] at runs
    cases runs
  · simp [waiting, Typed, modeOf, idle]
  · intro owner
    rw [handles]
    by_cases same : owner = pid
    · subst same
      simpa using matches_unknown
    · rw [update_of_ne same]
      intro name slot known
      obtain ⟨old, found, at_block, stage, dirty⟩ := threads.matched owner name slot known
      have different : (owner, name) ≠ (pid, .op index) := fun equal => same (Prod.mk.inj equal).1
      exact ⟨old, (AList.lookup_insert_ne different).trans found, (stable found).trans at_block,
        stage, dirty⟩
  · rw [handles]
    exact threads.dirty_insert fun _ _ _ => active

theorem Related.modify (block : Block)
    (waiting : (state.procs pid).code = []) (active : (state.procs pid).inOp = true)
    (found : state.handles.lookup (pid, .op index) = some handle) (stage : handle.stage = .filled)
    (home : geometry.Home (state.bufOf handle).blockno) :
    Advances geometry state phase
      { state.setBuf handle.buf { state.bufOf handle with data := block } with
        handles := state.handles.insert (pid, .op index) { handle with dirty := true }
        current := update state.current (state.bufOf handle).blockno block } := by
  have after := (related.coherent.store found stage block).1
  have same_view : view state.disk
      (state.cache.set handle.buf { state.bufOf handle with data := block }) =
      update (view state.disk state.cache) (state.bufOf handle).blockno block :=
    (related.coherent.store found stage block).2
  have ready := (related.threads.idle (related.threads.idle_of_inOp active)).1
  have stable : Stable state.cache
      (state.cache.set handle.buf { state.bufOf handle with data := block }) state.handles :=
    stable_set (by rfl)
  have unlogged : pending (state.cache.set handle.buf { state.bufOf handle with data := block })
      (state.handles.insert (pid, .op index) { handle with dirty := true }) =
      insert (state.bufOf handle).blockno (pending state.cache state.handles) :=
    pending_insert_dirty stable found (by rfl) rfl
  refine related.advance phase after related.recorded
    (related.threads.access active (Function.update_eq_self pid _).symm waiting active rfl stable
      rfl rfl rfl) (.single ?_)
  have step : WriteAhead.Step (format geometry) (abstraction state phase) _ :=
    .modify (state.bufOf handle).blockno block ready (Geometry.home_format home.1) home.2
  unfold abstraction at step ⊢
  dsimp only [State.setBuf] at step ⊢
  rw [same_view, unlogged]
  exact step

theorem Related.lwrite
    (waiting : (state.procs pid).code = []) (active : (state.procs pid).inOp = true)
    (found : state.handles.lookup (pid, .op index) = some handle) (stage : handle.stage = .filled)
    (home : geometry.Home (state.bufOf handle).blockno) :
    (∃ panic, stepLwrite geometry state pid (.op index) handle = state.fail panic) ∨
      Advances geometry state phase (stepLwrite geometry state pid (.op index) handle) := by
  have coherent := related.coherent
  obtain ⟨ready, booting, -⟩ := related.threads.idle (related.threads.idle_of_inOp active)
  have pinned_eq : pinned state = state.log.lh := by simp [pinned, booting]
  rw [pinned_eq] at coherent
  have alone : ∀ place, DirtyAt state.cache state.handles place (state.bufOf handle).blockno →
      place = (pid, .op index) := by
    rintro place ⟨other, entry, dirty, same⟩
    have buf_eq : other.buf = handle.buf :=
      coherent.unique ⟨coherent.mapped entry, same⟩ ⟨coherent.mapped found, rfl⟩
    exact coherent.exclusive entry found (by simp [coherent.dirty entry dirty, Stage.Holding])
      (by simp [stage, Stage.Holding]) buf_eq
  unfold stepLwrite
  dsimp only
  split
  · exact .inl ⟨_, rfl⟩
  case isFalse room =>
  split
  · exact .inl ⟨_, rfl⟩
  right
  split
  case isTrue member =>
    have after := coherent.absorb found stage member
    rw [← pinned_eq] at after
    have stable : Stable state.cache state.cache state.handles := fun _ => rfl
    refine related.advance phase after related.recorded
      (related.threads.access active rfl waiting active rfl stable rfl rfl rfl) (.single ?_)
    have step : WriteAhead.Step (format geometry) (abstraction state phase) _ :=
      .enlist (state.bufOf handle).blockno state.log.lh ready (Geometry.home_format home.1) home.2
        (if_pos member).symm related.invariant.bound
    unfold abstraction at step ⊢
    dsimp only [setHandle, State.note] at step ⊢
    rw [pending_insert_logged stable found rfl alone]
    exact step
  case isFalse absent =>
    have after := coherent.enlist found stage absent
    have same_view := coherent.view_congr after (sameData_set ⟨rfl, rfl, rfl, rfl⟩)
    have stable : Stable state.cache (state.cache.bpin handle.buf) state.handles :=
      stable_set (by rfl)
    have fits : (state.log.lh ++ [(state.bufOf handle).blockno]).length ≤
        (format geometry).capacity := by
      simp only [format, List.length_append, List.length_cons, List.length_nil]
      omega
    refine related.advance phase (by simpa [pinned, booting, setHandle, State.note, State.bufOf] using after)
      related.recorded
      (related.threads.access active rfl waiting active rfl stable rfl rfl rfl) (.single ?_)
    have step : WriteAhead.Step (format geometry) (abstraction state phase) _ :=
      .enlist (state.bufOf handle).blockno _ ready (Geometry.home_format home.1) home.2
        (if_neg absent).symm fits
    unfold abstraction at step ⊢
    dsimp only [setHandle, State.note] at step ⊢
    rw [pending_insert_logged stable found rfl alone, same_view]
    exact step

theorem Related.beginOp (up : state.booting = false)
    (outside : (state.procs pid).inOp = false) (stepped : stepBeginOp state pid = some next) :
    Advances geometry state phase next := by
  have threads := related.threads
  obtain ⟨committing, -, rfl⟩ := stepBeginOp_eq_some.mp stepped
  have idle : system = none := by
    cases runs : system with
    | none => rfl
    | some runner =>
      have busy := (threads.busy runner runs).1
      simp [up, committing] at busy
  have after : Threads geometry { state with
      log := { state.log with outstanding := state.log.outstanding + 1 }
      procs := update state.procs pid { state.procs pid with inOp := true, wrote := [] } }
      none phase env := by
    refine ⟨?_, threads.matched, fun _ => threads.idle idle, by simp, ?_, ?_⟩
    · intro owner
      by_cases same : owner = pid
      · subst same
        simpa [idle] using threads.typed owner
      · simpa [same, idle] using threads.typed owner
    · obtain ⟨ops, members, card⟩ := threads.counted
      have new : pid ∉ ops := by simp [members, outside]
      refine ⟨insert pid ops, ?_, by simp [new, card]⟩
      intro owner
      by_cases same : owner = pid
      · simp [same]
      · simp [same, members]
    · intro owner place handle found dirty
      have active := threads.dirty owner place handle found dirty
      by_cases same : owner = pid
      · simp [same]
      · simpa [same] using active
  exact related.quiet related.coherent after rfl rfl rfl rfl rfl rfl

omit related in
theorem dirty_of_settled (settles : settled state pid = true) {name : Local}
    (found : state.handles.lookup (pid, name) = some handle) : handle.dirty = false := by
  have entry := List.all_eq_true.mp settles _ (AList.mem_entries_of_lookup found)
  simpa using entry

theorem Related.endOp (active : (state.procs pid).inOp = true)
    (settles : settled state pid = true) (stepped : stepEndOp state pid = some next) :
    Advances geometry state phase next := by
  have threads := related.threads
  have idle := threads.idle_of_inOp active
  obtain ⟨ready, up, committing⟩ := threads.idle idle
  obtain ⟨ops, members, card⟩ := threads.counted
  have card_erase : (ops.erase pid).card = state.log.outstanding - 1 := by
    rw [Finset.card_erase_of_mem ((members pid).mpr active), card]
  have dirty : ∀ owner place handle, state.handles.lookup (owner, .op place) = some handle →
      handle.dirty = true → owner ≠ pid ∧ (state.procs owner).inOp = true := by
    intro owner place handle found is_dirty
    refine ⟨?_, threads.dirty owner place handle found is_dirty⟩
    rintro rfl
    rw [dirty_of_settled settles found] at is_dirty
    cases is_dirty
  simp only [stepEndOp, committing, Bool.false_eq_true, if_false] at stepped
  split at stepped
  case isTrue last =>
    have after : Threads geometry next (some pid) phase (update env pid unknown) := by
      cases stepped
      refine ⟨?_, ?_, by simp, ?_, ⟨ops.erase pid, ?_, card_erase⟩, ?_⟩
      · intro owner
        by_cases same : owner = pid
        · subst same
          simp [setCode, modeOf, Typed, up, ready]
        · simpa [setCode, modeOf, same, Ne.symm same, idle] using threads.typed owner
      · intro owner
        by_cases same : owner = pid
        · subst same
          simpa using matches_unknown
        · simpa [setCode, same] using threads.matched owner
      · intro runner _
        simp [setCode, up, last]
      · intro owner
        by_cases same : owner = pid
        · simp [setCode, same]
        · simp [setCode, same, members]
      · intro owner place handle found is_dirty
        obtain ⟨different, still⟩ := dirty owner place handle found is_dirty
        simpa [setCode, different] using still
    cases stepped
    exact related.quiet related.coherent after rfl rfl rfl rfl rfl rfl
  case isFalse =>
    have after : Threads geometry next none phase env := by
      cases stepped
      refine ⟨?_, threads.matched, fun _ => ⟨ready, up, rfl⟩, by simp,
        ⟨ops.erase pid, ?_, card_erase⟩, ?_⟩
      · intro owner
        by_cases same : owner = pid
        · subst same
          simpa [idle] using threads.typed owner
        · simpa [same, idle] using threads.typed owner
      · intro owner
        by_cases same : owner = pid
        · simp [same]
        · simp [same, members]
      · intro owner place handle found is_dirty
        obtain ⟨different, still⟩ := dirty owner place handle found is_dirty
        simpa [different] using still
    cases stepped
    exact related.quiet related.coherent after rfl rfl rfl rfl rfl rfl

omit related in
theorem related_boot {disk : Nat → Block} {history : List (Nat → Block)} (recorded : history ≠ [])
    (recoverable : WriteAhead.Recoverable (format geometry) disk (history.headD disk)) :
    Related geometry (boot geometry disk history) (some bootPid) .booting fun _ => unknown := by
  have unlogged : pending Bio.init ∅ = ∅ := by
    simp [pending, DirtyAt]
  refine ⟨coherent_init disk, recorded, ⟨?_, fun _ => matches_unknown, by simp, ?_, ?_, ?_⟩, ?_⟩
  · intro pid
    by_cases same : pid = bootPid
    · subst same
      simpa [boot, modeOf] using typed_recover []
    · simp [boot, modeOf, same, Ne.symm same, Typed]
  · simp [boot]
  · refine ⟨∅, ?_, rfl⟩
    intro pid
    simp only [boot]
    split <;> simp
  · simp [boot]
  · exact ⟨by simp [abstraction, boot], by simp [abstraction, boot], by simp [abstraction, boot],
      recoverable, unlogged, view_init disk, rfl⟩

theorem Related.fail (panic : Panic) : Advances geometry state phase (state.fail panic) :=
  related.quiet related.coherent
    ⟨related.threads.typed, related.threads.matched, related.threads.idle, related.threads.busy,
      related.threads.counted, related.threads.dirty⟩ rfl rfl rfl rfl rfl rfl

theorem Related.crash : Advances geometry state phase (boot geometry state.disk state.history) := by
  have step : WriteAhead.Step (format geometry) (abstraction state phase) _ := .crash
  refine ⟨_, _, _, related_boot related.recorded related.invariant.recoverable, .single ?_⟩
  have unlogged : pending Bio.init ∅ = ∅ := by
    simp [pending, DirtyAt]
  unfold abstraction boot at *
  dsimp only at *
  rw [unlogged, view_init]
  exact step

/-- Every event makes at most one step of the protocol. -/
theorem Related.step {event : Event}
    (stepped : step geometry state event = some next) : Advances geometry state phase next := by
  replace stepped := stepRunning_of_step stepped
  cases event with
  | crash =>
    cases stepped
    exact related.crash
  | exec pid =>
    rcases related.stepCode stepped with ⟨panic, rfl⟩ | advances
    · exact related.fail panic
    · exact advances
  | bread pid index blockno =>
    obtain ⟨⟨-, waiting, -, -⟩, rfl⟩ := stepRunning_bread_eq_some.mp stepped
    exact related.call waiting matches_unknown (typed_bread _ _ _ _)
  | modify pid index block =>
    obtain ⟨handle, found, ⟨waiting, active, stage, home⟩, rfl⟩ := stepRunning_modify_eq_some.mp stepped
    exact related.modify block waiting active found stage home
  | lwrite pid index =>
    obtain ⟨handle, found, ⟨waiting, active, stage, home⟩, rfl⟩ := stepRunning_lwrite_eq_some.mp stepped
    rcases related.lwrite waiting active found stage home with ⟨panic, failed⟩ | advances
    · rw [failed]
      exact related.fail panic
    · exact advances
  | brelse pid index =>
    obtain ⟨handle, found, ⟨waiting, stage, clean⟩, rfl⟩ := stepRunning_brelse_eq_some.mp stepped
    have known : Matches state.cache state.handles pid (update unknown (.op index)
        (some ⟨(state.bufOf handle).blockno, .filled, false⟩)) := by
      intro name slot is_known
      by_cases same : name = .op index
      · subst same
        simp only [update_self] at is_known
        cases is_known
        exact ⟨handle, found, rfl, stage, clean⟩
      · simp [same, unknown] at is_known
    exact related.call waiting known (typed_brelse _ (update_self _ _ _) rfl rfl)
  | beginOp pid =>
    obtain ⟨⟨up, -, outside⟩, stepped⟩ := stepRunning_beginOp_eq_some.mp stepped
    exact related.beginOp up outside stepped
  | endOp pid =>
    obtain ⟨⟨-, active, settles⟩, stepped⟩ := stepRunning_endOp_eq_some.mp stepped
    exact related.endOp active settles stepped

end

end OsCpp.Log
