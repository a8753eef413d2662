import OsCpp.Log.Crash

/-!
# Reference accounting of the buffer cache

A buffer is referenced once by every `bread` not yet matched by `brelse`, and once more while its
block is in the header.  These pins are never given back: `install_trans` does not call `bupin`.
-/

namespace OsCpp.Log

open Execution (Run)
open Bio.Cache (set_buf_of_ne set_buf_self brelse_buf)

/-- Every reference count is made of the references held, the pin of the log and a surplus. -/
def Accounted (cache : Bio.Cache) (handles : Handles) (pinned : List Nat)
    (surplus : Fin NBUF → Nat) : Prop :=
  ∀ index, (cache.buf index).refcnt = refs handles index + pin cache pinned index + surplus index

section

variable {disk : Nat → Block} {cache other : Bio.Cache} {handles : Handles} {pinned : List Nat}
  {key : Pid × Local} {handle new : Handle} {surplus : Fin NBUF → Nat}

variable (accounted : Accounted cache handles pinned surplus)

include accounted

theorem Accounted.same (found : handles.lookup key = some handle) (same : new.buf = handle.buf)
    (refcnt : ∀ index, (other.buf index).refcnt = (cache.buf index).refcnt)
    (identity : ∀ index, (other.buf index).dev = (cache.buf index).dev ∧
      (other.buf index).blockno = (cache.buf index).blockno) :
    Accounted other (handles.insert key new) pinned surplus := by
  intro index
  rw [refcnt, refs_insert_same found same, pin_congr (identity index).1 (identity index).2]
  exact accounted index

omit accounted in
theorem pin_set {place index : Fin NBUF} {buf : Bio.Buf}
    (dev : index = place → buf.dev = (cache.buf place).dev)
    (blockno : index = place → buf.blockno = (cache.buf place).blockno) :
    pin (cache.set place buf) pinned index = pin cache pinned index := by
  by_cases equal : index = place
  · subst equal
    exact pin_congr (by simpa using dev rfl) (by simpa using blockno rfl)
  · exact pin_congr (by simp [equal]) (by simp [equal])

theorem Accounted.set
    (found : handles.lookup key = some handle) (same : new.buf = handle.buf) {place : Fin NBUF}
    {buf : Bio.Buf} (refcnt : buf.refcnt = (cache.buf place).refcnt)
    (dev : buf.dev = (cache.buf place).dev) (blockno : buf.blockno = (cache.buf place).blockno) :
    Accounted (cache.set place buf) (handles.insert key new) pinned surplus := by
  apply accounted.same found same
  · intro index
    by_cases equal : index = place
    · subst equal
      simpa using refcnt
    · simp [equal]
  · intro index
    by_cases equal : index = place
    · subst equal
      simp [dev, blockno]
    · simp [equal]

theorem Accounted.bget {index : Fin NBUF} {blockno : Nat}
    (coherent : Coherent disk cache handles pinned) (fresh : handles.lookup key = none)
    (got : cache.bget ROOTDEV blockno = some (index, other)) :
    Accounted other (handles.insert key { buf := index, stage := .referenced, dirty := false })
      pinned surplus := by
  unfold Bio.Cache.bget at got
  cases hit : cache.lookup ROOTDEV blockno with
  | some place =>
    simp only [hit, Option.some.injEq, Prod.mk.injEq] at got
    obtain ⟨rfl, rfl⟩ := got
    intro other
    have before := accounted other
    rw [refs_insert_new fresh]
    by_cases equal : other = place
    · subst equal
      rw [pin_set (by intro _; rfl) (by intro _; rfl)]
      simp only [set_buf_self, if_true]
      omega
    · rw [pin_set (by intro _; rfl) (by intro _; rfl), set_buf_of_ne _ _ equal,
        if_neg (Ne.symm equal)]
      exact before
  | none =>
    cases recycled : cache.victim with
    | none => simp [hit, recycled] at got
    | some place =>
      simp only [hit, recycled, Option.some.injEq, Prod.mk.injEq] at got
      obtain ⟨rfl, rfl⟩ := got
      have unpinned : blockno ∉ pinned := by
        intro member
        obtain ⟨holder, caches, -⟩ := coherent.cached blockno member
        exact not_caches_of_lookup coherent.listed hit caches
      intro other
      have before := accounted other
      rw [refs_insert_new fresh]
      by_cases equal : other = place
      · subst equal
        rw [refcnt_of_victim recycled] at before
        simp only [pin, set_buf_self, unpinned, and_false, if_false, if_true]
        omega
      · rw [pin_set (fun same => absurd same equal) (fun same => absurd same equal),
          set_buf_of_ne _ _ equal, if_neg (Ne.symm equal)]
        exact before

theorem Accounted.put (found : handles.lookup key = some handle) :
    Accounted (cache.brelse handle.buf) (handles.erase key) pinned surplus := by
  intro index
  have before := accounted index
  have erased := refs_erase found index
  have same_pin : pin (cache.brelse handle.buf) pinned index = pin cache pinned index :=
    pin_congr (by rw [brelse_buf]; split <;> rfl)
      (by rw [brelse_buf]; split <;> rfl)
  rw [same_pin, brelse_buf]
  by_cases equal : index = handle.buf
  · subst equal
    simp only [if_true] at erased ⊢
    omega
  · rw [if_neg (Ne.symm equal)] at erased
    rw [if_neg equal]
    omega

theorem Accounted.enlist (coherent : Coherent disk cache handles pinned)
    (found : handles.lookup key = some handle) (same : new.buf = handle.buf)
    (absent : (cache.buf handle.buf).blockno ∉ pinned) :
    Accounted (cache.bpin handle.buf) (handles.insert key new)
      (pinned ++ [(cache.buf handle.buf).blockno]) surplus := by
  have mapped := coherent.mapped found
  intro index
  have before := accounted index
  rw [refs_insert_same found same]
  by_cases equal : index = handle.buf
  · subst equal
    simp only [pin, absent, and_false, if_false] at before
    simp only [Bio.Cache.bpin, pin, set_buf_self, mapped]
    simp
    omega
  · have elsewhere : (cache.buf index).dev = ROOTDEV →
        (cache.buf index).blockno ≠ (cache.buf handle.buf).blockno :=
      fun dev blockno => equal (coherent.unique ⟨dev, blockno⟩ ⟨mapped, rfl⟩)
    have same_pin : pin (cache.bpin handle.buf) (pinned ++ [(cache.buf handle.buf).blockno]) index =
        pin cache pinned index := by
      unfold pin
      rw [Bio.Cache.bpin, set_buf_of_ne _ _ equal]
      congr 1
      simp only [List.mem_append, List.mem_singleton, eq_iff_iff, and_congr_right_iff]
      intro dev
      simp [elsewhere dev]
    rw [same_pin, Bio.Cache.bpin, set_buf_of_ne _ _ equal]
    exact before

/-- Emptying the header turns the pins into surplus. -/
theorem Accounted.unpin :
    Accounted cache handles [] fun index => surplus index + pin cache pinned index := by
  intro index
  have before := accounted index
  simp only [pin, List.not_mem_nil, and_false, if_false] at before ⊢
  omega

end

section

variable {geometry : Geometry} {state next : State} {system : Option Pid}
  {phase : WriteAhead.Phase} {env : Pid → Env} {pid : Pid} {surplus : Fin NBUF → Nat}

/-- What one step does to the accounts; only a `commit` that empties the header changes the surplus.
-/
def Books (geometry : Geometry) (state next : State) (surplus : Fin NBUF → Nat) : Prop :=
  Accounted next.cache next.handles (pinned next) surplus ∧
      (next.log.lh = state.log.lh ∨ state.booting = true ∨
        loadHead (state.disk geometry.start) = []) ∨
    (state.booting = false ∧ loadHead (state.disk geometry.start) = state.log.lh) ∧
      Accounted next.cache next.handles (pinned next)
        fun index => surplus index + pin state.cache state.log.lh index

variable (related : Related geometry state system phase env)

include related

theorem Related.books_stepCode
    (accounted : Accounted state.cache state.handles (pinned state) surplus)
    (stepped : Log.stepCode geometry state pid (state.procs pid).code = some next) :
    Books geometry state next surplus := by
  have coherent := related.coherent
  have typed := related.threads.typed pid
  cases code : (state.procs pid).code with
  | nil =>
    rw [code] at stepped
    cases stepped
  | cons instr rest =>
    rw [code] at stepped typed
    cases instr with
    | bget name blockno =>
      obtain ⟨fresh, ⟨-, rfl⟩ | ⟨index, cache, got, rfl⟩⟩ := stepBget_eq_some.mp stepped
      · exact .inl ⟨accounted, .inl rfl⟩
      · exact .inl ⟨accounted.bget coherent fresh got, .inl rfl⟩
    | acquire name =>
      obtain ⟨handle, found, -, rfl⟩ := stepAcquire_eq_some.mp stepped
      exact .inl ⟨accounted.set found rfl rfl rfl rfl, .inl rfl⟩
    | fill name =>
      obtain ⟨handle, found, -, rfl⟩ := stepFill_eq_some.mp stepped
      refine .inl ⟨?_, .inl rfl⟩
      cases (state.bufOf handle).valid with
      | true => exact accounted.set found rfl rfl rfl rfl
      | false => exact accounted.set found rfl rfl rfl rfl
    | memmove target from' =>
      obtain ⟨into, found, out, -, -, rfl⟩ := stepMemmove_eq_some.mp stepped
      exact .inl ⟨accounted.set found rfl rfl rfl rfl, .inl rfl⟩
    | setHead name =>
      obtain ⟨handle, found, -, rfl⟩ := stepSetHead_eq_some.mp stepped
      exact .inl ⟨accounted.set found rfl rfl rfl rfl, .inl rfl⟩
    | getHead name =>
      obtain ⟨handle, found, -, rfl⟩ := stepGetHead_eq_some.mp stepped
      obtain ⟨_, mode, -⟩ := typed
      obtain ⟨-, booting, -⟩ := modeOf_eq_system mode
      refine .inl ⟨?_, .inr (.inl booting.symm)⟩
      simpa [pinned, State.setCode, ← booting] using accounted
    | bwrite name =>
      obtain ⟨handle, found, ⟨-, rfl⟩ | ⟨-, rfl⟩⟩ := stepBwrite_eq_some.mp stepped
      · exact .inl ⟨accounted.same found rfl (fun _ => rfl) fun _ => ⟨rfl, rfl⟩, .inl rfl⟩
      · exact .inl ⟨accounted, .inl rfl⟩
    | release name =>
      obtain ⟨handle, found, ⟨-, rfl⟩ | ⟨-, rfl⟩⟩ := stepRelease_eq_some.mp stepped
      · exact .inl ⟨accounted.set found rfl rfl rfl rfl, .inl rfl⟩
      · exact .inl ⟨accounted, .inl rfl⟩
    | put name =>
      obtain ⟨handle, found, -, rfl⟩ := stepPut_eq_some.mp stepped
      exact .inl ⟨accounted.put found, .inl rfl⟩
    | commit =>
      cases stepped
      exact .inl ⟨accounted, .inl rfl⟩
    | writeLog tail =>
      simp only [Log.stepCode] at stepped
      split at stepped <;> cases stepped <;> exact .inl ⟨accounted, .inl rfl⟩
    | installTrans recovering index =>
      simp only [Log.stepCode] at stepped
      split at stepped <;> cases stepped <;> exact .inl ⟨accounted, .inl rfl⟩
    | clear =>
      cases stepped
      cases up : state.booting with
      | true =>
        refine .inl ⟨?_, .inr (.inl up)⟩
        simpa [pinned, State.setCode, up] using accounted
      | false =>
        have unpinned := accounted.unpin
        simp only [pinned, up, Bool.false_eq_true, if_false] at unpinned
        obtain ⟨_, _, mode, -⟩ := typed
        obtain ⟨-, -, rfl⟩ := modeOf_eq_system mode
        refine .inr ⟨⟨up, related.invariant.phase.2.1.header⟩, ?_⟩
        simpa [pinned, State.setCode, up] using unpinned
    | finish =>
      cases stepped
      exact .inl ⟨accounted, .inl rfl⟩
    | booted =>
      cases stepped
      obtain ⟨mode, empty, -⟩ := typed
      obtain ⟨-, booting, -⟩ := modeOf_eq_system mode
      refine .inl ⟨?_, .inl rfl⟩
      simpa [pinned, State.setCode, ← booting, empty] using accounted

theorem Related.books_step {event : Event}
    (accounted : Accounted state.cache state.handles (pinned state) surplus)
    (running : event.isCrash = false) (stepped : Log.step geometry state event = some next) :
    Books geometry state next surplus := by
  replace stepped := stepRunning_of_step stepped
  cases event with
  | crash => cases running
  | exec pid => exact related.books_stepCode accounted stepped
  | bread pid index blockno =>
    obtain ⟨-, rfl⟩ := stepRunning_bread_eq_some.mp stepped
    exact .inl ⟨accounted, .inl rfl⟩
  | modify pid index block =>
    obtain ⟨handle, found, -, rfl⟩ := stepRunning_modify_eq_some.mp stepped
    exact .inl ⟨accounted.set found rfl rfl rfl rfl, .inl rfl⟩
  | lwrite pid index =>
    obtain ⟨handle, found, ⟨-, active, -, -⟩, rfl⟩ := stepRunning_lwrite_eq_some.mp stepped
    obtain ⟨rfl, up, -⟩ := related.threads.idle (related.threads.idle_of_inOp active)
    have coherent := related.coherent
    have header : loadHead (state.disk geometry.start) = [] :=
      (related.invariant.during rfl).empty
    refine .inl ⟨?_, .inr (.inr header)⟩
    simp only [pinned, up, Bool.false_eq_true, if_false] at accounted coherent
    simp only [stepLwrite]
    split
    · simpa [pinned, State.fail, up] using accounted
    split
    · simpa [pinned, State.fail, up] using accounted
    split
    · have kept : Accounted state.cache
          (state.handles.insert (pid, .op index) { handle with dirty := false }) state.log.lh
          surplus := accounted.same found rfl (fun _ => rfl) fun _ => ⟨rfl, rfl⟩
      simpa [pinned, State.setHandle, State.note, up] using kept
    case isFalse absent =>
      have pinned_now : Accounted (state.cache.bpin handle.buf)
          (state.handles.insert (pid, .op index) { handle with dirty := false })
          (state.log.lh ++ [(state.bufOf handle).blockno]) surplus :=
        accounted.enlist coherent found rfl absent
      simpa [pinned, State.setHandle, State.note, up] using pinned_now
  | brelse pid index =>
    obtain ⟨handle, -, -, rfl⟩ := stepRunning_brelse_eq_some.mp stepped
    exact .inl ⟨accounted, .inl rfl⟩
  | beginOp pid =>
    obtain ⟨-, began⟩ := stepRunning_beginOp_eq_some.mp stepped
    obtain ⟨-, -, rfl⟩ := stepBeginOp_eq_some.mp began
    exact .inl ⟨accounted, .inl rfl⟩
  | endOp pid =>
    obtain ⟨-, ended⟩ := stepRunning_endOp_eq_some.mp stepped
    simp only [stepEndOp] at ended
    split_ifs at ended <;> cases ended <;> exact .inl ⟨accounted, .inl rfl⟩

/-- Until the first commit nothing is lost; afterwards some buffer has a surplus, or a group is
being installed. -/
structure Ledger (geometry : Geometry) (disk : Nat → Block) (state : State)
    (surplus : Fin NBUF → Nat) : Prop where
  accounted : Accounted state.cache state.handles (pinned state) surplus
  fresh : state.history = [disk] →
    (∀ index, surplus index = 0) ∧ loadHead (state.disk geometry.start) = []
  leaked : state.history ≠ [disk] → (∃ index, surplus index ≠ 0) ∨
    loadHead (state.disk geometry.start) = state.log.lh ∧ state.log.lh ≠ []
  booting : state.booting = true → state.history = [disk]

omit related in
theorem ledger_boot {disk : Nat → Block} (empty : loadHead (disk geometry.start) = []) :
    Ledger geometry disk (boot geometry disk [disk]) fun _ => 0 := by
  refine ⟨?_, fun _ => ⟨fun _ => rfl, empty⟩, fun other => absurd rfl other, fun _ => rfl⟩
  intro index
  simp [boot, Bio.init, pinned, pin, refs]

/-- Emptying a header that is not empty gives some buffer a surplus. -/
theorem Related.pin_ne_zero (up : state.booting = false) (nonempty : state.log.lh ≠ []) :
    ∃ index, pin state.cache state.log.lh index ≠ 0 := by
  obtain ⟨blockno, rest, entries⟩ := List.exists_cons_of_ne_nil nonempty
  have member : blockno ∈ state.log.lh := by simp [entries]
  obtain ⟨index, caches, -⟩ := related.coherent.cached blockno (by simpa [pinned, up] using member)
  refine ⟨index, ?_⟩
  unfold pin
  rw [if_pos ⟨caches.1, by rw [caches.2]; exact member⟩]
  exact one_ne_zero

theorem Ledger.step {disk : Nat → Block} {event : Event}
    (ledger : Ledger geometry disk state surplus) (running : event.isCrash = false)
    (stepped : Log.step geometry state event = some next) :
    ∃ surplus, Ledger geometry disk next surplus := by
  have booting := booting_step stepped running
  rcases related.header_step stepped with ⟨history, header⟩ | commits
  · have empty : state.history = [disk] → loadHead (next.disk geometry.start) = [] := by
      intro same
      rcases header with kept | ⟨cleared, -⟩
      · rw [kept]
        exact (ledger.fresh same).2
      · exact cleared
    rcases related.books_step ledger.accounted running stepped with
      ⟨accounted, lh⟩ | ⟨⟨up, installed⟩, accounted⟩
    · refine ⟨surplus, accounted, ?_, ?_, ?_⟩
      · rw [history]
        exact fun same => ⟨(ledger.fresh same).1, empty same⟩
      · rw [history]
        intro different
        rcases ledger.leaked different with lost | ⟨sealed, nonempty⟩
        · exact .inl lost
        · right
          have kept : next.disk geometry.start = state.disk geometry.start :=
            header.resolve_right fun cleared => nonempty cleared.2
          have same_lh : next.log.lh = state.log.lh := by
            rcases lh with same | up | no_header
            · exact same
            · exact absurd (ledger.booting up) different
            · exact absurd (sealed.symm.trans no_header) nonempty
          rw [kept, same_lh]
          exact ⟨sealed, nonempty⟩
      · rw [history]
        exact fun up => ledger.booting (booting up)
    · refine ⟨_, accounted, ?_, ?_, ?_⟩
      · rw [history]
        intro same
        obtain ⟨zero, no_header⟩ := ledger.fresh same
        have no_group : state.log.lh = [] := installed.symm.trans no_header
        exact ⟨fun index => by simp [zero index, pin, no_group], empty same⟩
      · rw [history]
        intro different
        left
        rcases ledger.leaked different with ⟨index, lost⟩ | ⟨-, nonempty⟩
        · exact ⟨index, by omega⟩
        · obtain ⟨index, pins⟩ := related.pin_ne_zero up nonempty
          exact ⟨index, by omega⟩
      · rw [history]
        exact fun up => ledger.booting (booting up)
  · obtain ⟨committed, older, recorded⟩ := List.exists_cons_of_ne_nil related.recorded
    have different : next.history ≠ [disk] := by simp [commits.history, recorded]
    have sealed : loadHead (next.disk geometry.start) = next.log.lh ∧ next.log.lh ≠ [] := by
      rw [commits.group]
      exact ⟨commits.header, commits.nonempty⟩
    have up : next.booting ≠ true := by
      intro up
      have before := booting up
      rw [commits.recovered] at before
      cases before
    rcases related.books_step ledger.accounted running stepped with ⟨accounted, -⟩ | ⟨-, accounted⟩
    · exact ⟨_, accounted, fun same => absurd same different, fun _ => .inr sealed,
        fun impossible => absurd impossible up⟩
    · exact ⟨_, accounted, fun same => absurd same different, fun _ => .inr sealed,
        fun impossible => absurd impossible up⟩

end

variable {geometry : Geometry} {state : State}

/-- An operation that logs block 100 and holds its buffer. -/
def openOperation : List Event :=
  executes bootPid 16 ++ [.beginOp 2, .bread 2 0 100] ++ executes 2 3 ++ [.lwrite 2 0]

/-- The operation releases its buffer and commits. -/
def finishedOperation : List Event :=
  openOperation ++ [.brelse 2 0] ++ executes 2 2 ++ [.endOp 2] ++ executes 2 45

end OsCpp.Log
