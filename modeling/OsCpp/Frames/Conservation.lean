import OsCpp.Frames.Calls

/-!
# Conservation of frames

Every page frame is on the free list, owned by a process, held by a call in progress or lost, in
every interleaving.  Frames are lost by `uvm_clear` and by an `uvm_copy` that runs out of memory.
-/

namespace OsCpp.Frames

open Process (Code Config Event Outcome System)
open Function (update update_apply update_of_ne)
open State (setProc)
open Multiset (count_add coe_count count_zero)

def Entry.frames (entry : Entry) : Multiset Frame :=
  below (fun frame => {frame}) entry.trapframe + below Table.frames entry.pagetable

theorem Entry.count_frames (entry : Entry) (frame : Frame) :
    entry.frames.count frame = (below (fun frame => {frame}) entry.trapframe).count frame +
      (below Table.frames entry.pagetable).count frame := count_add frame _ _

theorem Entry.frames_vacant {entry : Entry} (trapframe : entry.trapframe = none)
    (pagetable : entry.pagetable = none) : entry.frames = 0 := by
  rw [Entry.frames, trapframe, pagetable]
  rfl

/-- How many processes own a frame. -/
def State.ownedCount (s : State) (frame : Frame) : Nat := ∑ p, (s.proc_list p).frames.count frame

structure Conserved (total : List Frame) (s : State) (ledgers : Slot → Ledger) : Prop where
  frames : ∀ frame, s.freelist.count frame + s.ownedCount frame +
    (∑ p, (ledgers p).held.count frame) + s.lost.count frame = total.count frame
  tables : ∀ p t, (s.proc_list p).pagetable = some t → Sane t (s.proc_list p).sz
  away : ∀ p, (ledgers p).away = true → (s.proc_list p).pagetable = none
  child : ∀ p np, (ledgers p).child = some np →
    (s.proc_list np).status = .USED ∧ (s.proc_list np).frames = 0
  unique : ∀ p q np, (ledgers p).child = some np → (ledgers q).child = some np → p = q
  unused : ∀ np, (s.proc_list np).status = .UNUSED → s.proc_list np = {}
  idle : ∀ p, (s.proc_list p).status ≠ .RUNNABLE → ledgers p = Ledger.idle

section

variable {total : List Frame} {s next : State} {ledgers : Slot → Ledger} {p : Slot}

theorem card_le_of_count {part : Multiset Frame}
    (less : ∀ frame, part.count frame ≤ total.count frame) : part.card ≤ total.length := by
  have below : part ≤ (total : Multiset Frame) := by
    refine Multiset.le_iff_count.mpr fun frame => ?_
    rw [coe_count]
    exact less frame
  simpa using Multiset.card_le_card below

theorem ownedCount_setProc (s : State) (p : Slot) (entry : Entry) (frame : Frame) :
    (s.setProc p entry).ownedCount frame + (s.proc_list p).frames.count frame =
      s.ownedCount frame + entry.frames.count frame :=
  Tally.sum_update (fun entry : Entry => entry.frames.count frame) s.proc_list p entry

namespace Conserved

variable (conserved : Conserved total s ledgers)

include conserved

theorem frames_step {l : Ledger}
    (change : ∀ frame, next.freelist.count frame + next.ownedCount frame + l.held.count frame +
      next.lost.count frame = s.freelist.count frame + s.ownedCount frame +
        (ledgers p).held.count frame + s.lost.count frame) (frame : Frame) :
    next.freelist.count frame + next.ownedCount frame +
      (∑ q, (update ledgers p l q).held.count frame) + next.lost.count frame =
        total.count frame := by
  have before := conserved.frames frame
  have here := change frame
  have sum := Tally.sum_update (fun ledger : Ledger => ledger.held.count frame) ledgers p l
  omega

theorem card_held (p : Slot) : (ledgers p).held.card ≤ total.length := by
  refine card_le_of_count fun frame => ?_
  have all := conserved.frames frame
  have single := Tally.le_sum (fun ledger : Ledger => ledger.held.count frame) ledgers p
  omega

theorem keep : Conserved total s (update ledgers p (ledgers p)) := by
  rwa [Function.update_eq_self]

variable (alive : (s.proc_list p).status = .RUNNABLE)

include alive

/-- Frames pass between the free list, the ledger and the lost ones. -/
theorem pass {freelist lost : List Frame} {held : Multiset Frame}
    (change : ∀ frame, freelist.count frame + held.count frame + lost.count frame =
      s.freelist.count frame + (ledgers p).held.count frame + s.lost.count frame) :
    Conserved total { s with freelist := freelist, lost := lost }
      (update ledgers p ((ledgers p).hold held)) := by
  have same : ∀ q, (update ledgers p ((ledgers p).hold held) q).child = (ledgers q).child ∧
      (update ledgers p ((ledgers p).hold held) q).away = (ledgers q).away := by
    intro q
    rcases eq_or_ne q p with rfl | other
    · simp [Ledger.hold]
    · simp [other]
  refine ⟨conserved.frames_step fun frame => ?_, conserved.tables, fun q => ?_, fun q np => ?_,
    fun q q' np => ?_, conserved.unused, fun q stopped => ?_⟩
  · have here := change frame
    simp only [State.ownedCount, Ledger.hold]
    omega
  · rw [(same q).2]
    exact conserved.away q
  · rw [(same q).1]
    exact conserved.child q np
  · rw [(same q).1, (same q').1]
    exact conserved.unique q q' np
  · have other : q ≠ p := by
      rintro rfl
      exact stopped alive
    rw [update_of_ne other]
    exact conserved.idle q stopped

theorem own {entry : Entry} {l : Ledger}
    (change : ∀ frame, entry.frames.count frame + l.held.count frame =
      (s.proc_list p).frames.count frame + (ledgers p).held.count frame)
    (tables : ∀ t, entry.pagetable = some t → Sane t entry.sz)
    (away : l.away = true → entry.pagetable = none) (child : l.child = (ledgers p).child)
    (status : entry.status = .RUNNABLE ∨ entry.status = .ZOMBIE ∧ l = Ledger.idle) :
    Conserved total (s.setProc p entry) (update ledgers p l) := by
  have children : ∀ q, (update ledgers p l q).child = (ledgers q).child := by
    intro q
    rcases eq_or_ne q p with rfl | other
    · simpa using child
    · simp [other]
  refine ⟨conserved.frames_step fun frame => ?_, fun q t => ?_, fun q => ?_, fun q np => ?_,
    fun q q' np => ?_, fun q => ?_, fun q stopped => ?_⟩
  · have here := change frame
    have owned := ownedCount_setProc s p entry frame
    simp only [setProc] at owned ⊢
    omega
  · rcases eq_or_ne q p with rfl | other
    · simpa [setProc] using tables t
    · simpa [setProc, other] using conserved.tables q t
  · rcases eq_or_ne q p with rfl | other
    · simpa [setProc] using away
    · simpa [setProc, other] using conserved.away q
  · rw [children]
    intro filled
    have reserved := conserved.child q np filled
    have other : np ≠ p := by
      rintro rfl
      simp [alive] at reserved
    simpa [setProc, other] using reserved
  · rw [children, children]
    exact conserved.unique q q' np
  · rcases eq_or_ne q p with rfl | other
    · intro unused
      rcases status with running | ⟨ended, _⟩
      · simp [setProc, running] at unused
      · simp [setProc, ended] at unused
    · simpa [setProc, other] using conserved.unused q
  · rcases eq_or_ne q p with rfl | other
    · rcases status with running | ⟨_, idle⟩
      · exact absurd running (by simpa [setProc] using stopped)
      · simpa using idle
    · rw [update_of_ne other]
      exact conserved.idle q (by simpa [setProc, other] using stopped)

theorem fill {np : Slot} {entry : Entry} {l : Ledger}
    (stopped : (s.proc_list np).status ≠ .RUNNABLE) (others : ∀ q ≠ p, (ledgers q).child ≠ some np)
    (change : ∀ frame, entry.frames.count frame + l.held.count frame =
      (s.proc_list np).frames.count frame + (ledgers p).held.count frame)
    (tables : ∀ t, entry.pagetable = some t → Sane t entry.sz)
    (unused : entry.status = .UNUSED → entry = {}) (away : l.away = (ledgers p).away)
    (child : ∀ np', l.child = some np' → np' = np ∧ entry.status = .USED ∧ entry.frames = 0) :
    Conserved total (s.setProc np entry) (update ledgers p l) := by
  have apart : np ≠ p := by
    rintro rfl
    exact stopped alive
  have sleeping : ledgers np = Ledger.idle := conserved.idle np stopped
  refine ⟨conserved.frames_step fun frame => ?_, fun q t => ?_, fun q => ?_, fun q np' => ?_,
    fun q q' np' => ?_, fun q => ?_, fun q ended => ?_⟩
  · have here := change frame
    have owned := ownedCount_setProc s np entry frame
    simp only [setProc] at owned ⊢
    omega
  · rcases eq_or_ne q np with rfl | other
    · simpa [setProc] using tables t
    · simpa [setProc, other] using conserved.tables q t
  · rcases eq_or_ne q np with rfl | other
    · simp [apart, sleeping, Ledger.idle]
    · rcases eq_or_ne q p with rfl | different
      · simpa [setProc, other, away] using conserved.away q
      · simpa [setProc, other, different] using conserved.away q
  · rcases eq_or_ne q p with rfl | different
    · intro filled
      obtain ⟨rfl, used, empty⟩ := child np' (by simpa using filled)
      simpa [setProc] using ⟨used, empty⟩
    · intro filled
      have filled : (ledgers q).child = some np' := by simpa [different] using filled
      have other : np' ≠ np := by
        rintro rfl
        exact others q different filled
      simpa [setProc, other] using conserved.child q np' filled
  · intro left right
    rcases eq_or_ne q p with rfl | first
    · obtain ⟨rfl, _⟩ := child np' (by simpa using left)
      by_contra apart'
      exact others q' (Ne.symm apart') (by simpa [Ne.symm apart'] using right)
    · rcases eq_or_ne q' p with rfl | second
      · obtain ⟨rfl, _⟩ := child np' (by simpa using right)
        exact absurd (by simpa [first] using left) (others q first)
      · exact conserved.unique q q' np' (by simpa [first] using left) (by simpa [second] using right)
  · rcases eq_or_ne q np with rfl | other
    · simpa [setProc] using unused
    · simpa [setProc, other] using conserved.unused q
  · have running : q ≠ p := by
      rintro rfl
      exact ended (by simpa [setProc, Ne.symm apart] using alive)
    rw [update_of_ne running]
    rcases eq_or_ne q np with rfl | other
    · exact sleeping
    · exact conserved.idle q (by simpa [setProc, other] using ended)

end Conserved

/-- The operation ended in a ledger that the invariant and the postcondition fit. -/
def Accounted {α : Type} (total : List Frame) (next : State) (ledgers : Slot → Ledger) (p : Slot)
    (result : α) (post : α → Ledger → Prop) : Prop :=
  ∃ l, Conserved total next (update ledgers p l) ∧ post result l

theorem count_singleton_add (frame other : Frame) (held : Multiset Frame) :
    ({frame} + held).count other = [frame].count other + held.count other := by
  rw [count_add, ← coe_count, Multiset.coe_singleton]

theorem accounted_kalloc (conserved : Conserved total s ledgers)
    (alive : (s.proc_list p).status = .RUNNABLE) {result : Option Frame}
    {post : Option Frame → Ledger → Prop} (full : post none (ledgers p))
    (after : ∀ frame, post (some frame) ((ledgers p).hold ({frame} + (ledgers p).held)))
    (performed : performKalloc s = .next next result) :
    Accounted total next ledgers p result post := by
  rw [performKalloc] at performed
  split at performed
  · cases performed
    exact ⟨_, conserved.keep, full⟩
  · next frame rest list =>
    cases performed
    refine ⟨_, conserved.pass alive fun other => ?_, after frame⟩
    have moved : (frame :: rest).count other = rest.count other + [frame].count other := by
      rw [List.count_cons, List.count_singleton]
    rw [list, count_singleton_add, moved]
    omega

/-- `kfree`, and forgetting a frame. -/
theorem accounted_release (conserved : Conserved total s ledgers)
    (alive : (s.proc_list p).status = .RUNNABLE) {frame : Frame} {freelist lost : List Frame}
    {post : Unit → Ledger → Prop}
    (passed : ∀ other, freelist.count other + lost.count other =
      s.freelist.count other + s.lost.count other + [frame].count other)
    (holds : ∃ rest, (ledgers p).held = {frame} + rest ∧ post () ((ledgers p).hold rest)) :
    Accounted total { s with freelist := freelist, lost := lost } ledgers p () post := by
  obtain ⟨rest, held, after⟩ := holds
  refine ⟨_, conserved.pass alive fun other => ?_, after⟩
  have here := passed other
  rw [held, count_singleton_add]
  omega

theorem unused_spec {np : Slot} (found : s.unused = some np) :
    (s.proc_list np).status = .UNUSED := by
  simpa using List.find?_some found

/-- An entry that is not reserved is nobody's child. -/
theorem Conserved.others_of_status (conserved : Conserved total s ledgers) {np : Slot}
    (status : (s.proc_list np).status ≠ .USED) (q : Slot) : (ledgers q).child ≠ some np :=
  fun filled => status (conserved.child q np filled).1

theorem accounted_reap (conserved : Conserved total s ledgers)
    (alive : (s.proc_list p).status = .RUNNABLE) {zombie : Option Slot}
    {result : Option (Slot × Frame × Table × Nat)}
    {post : Option (Slot × Frame × Table × Nat) → Ledger → Prop} (nobody : post none (ledgers p))
    (after : ∀ np trapframe t sz, Sane t sz → post (some (np, trapframe, t, sz))
      { ledgers p with
        held := {trapframe} + (t.frames + (ledgers p).held)
        child := some np })
    (performed : performReap s zombie = .next next result) :
    Accounted total next ledgers p result post := by
  cases zombie with
  | none =>
    cases performed
    exact ⟨_, conserved.keep, nobody⟩
  | some np =>
    simp only [performReap] at performed
    split at performed
    · next trapframe t sz entry =>
      cases performed
      have status : (s.proc_list np).status = .ZOMBIE := by rw [entry]
      have sane : Sane t sz := by
        have table := conserved.tables np t (by rw [entry])
        rwa [entry] at table
      refine ⟨{ ledgers p with
          held := {trapframe} + (t.frames + (ledgers p).held)
          child := some np },
        conserved.fill alive (by simp [status])
          (fun q _ => conserved.others_of_status (by simp [status]) q) (fun frame => ?_) nofun nofun
          rfl fun np' filled => ⟨(Option.some.inj filled).symm, rfl, Entry.frames_vacant rfl rfl⟩,
        after np trapframe t sz sane⟩
      rw [entry, Entry.count_frames, Entry.count_frames]
      simp only [below, count_add, count_zero]
      omega
    · simp at performed

theorem accounted_performRunning {op : Op} {answer : Answer} {result : op.Result}
    {post : op.Result → Ledger → Prop} (bounded : total.length ≤ NFRAME)
    (conserved : Conserved total s ledgers) (alive : (s.proc_list p).status = .RUNNABLE)
    (holds : spec op post (ledgers p)) (performed : performRunning s p op answer = .next next result) :
    Accounted total next ledgers p result post := by
  cases op with
  | panic => simp [performRunning] at performed
  | test =>
    cases answer with
    | flag b =>
      obtain ⟨rfl, rfl⟩ := Outcome.next.inj performed
      exact ⟨_, conserved.keep, holds b⟩
    | number | segment | zombie => simp [performRunning] at performed
  | number =>
    cases answer with
    | number n =>
      obtain ⟨rfl, rfl⟩ := Outcome.next.inj performed
      exact ⟨_, conserved.keep, holds n⟩
    | flag | segment | zombie => simp [performRunning] at performed
  | segment =>
    cases answer with
    | segment segment =>
      obtain ⟨rfl, rfl⟩ := Outcome.next.inj performed
      exact ⟨_, conserved.keep, holds segment⟩
    | flag | number | zombie => simp [performRunning] at performed
  | kalloc =>
    have answers := holds ((conserved.card_held p).trans bounded)
    exact accounted_kalloc conserved alive answers.1 answers.2 performed
  | kfree frame =>
    cases performed
    refine accounted_release conserved alive (fun other => ?_) holds
    rw [List.count_cons, List.count_singleton]
    omega
  | lose frame =>
    cases performed
    refine accounted_release conserved alive (fun other => ?_) holds
    rw [List.count_append]
    omega
  | trapframe =>
    simp only [performRunning] at performed
    split at performed
    · cases performed
      exact ⟨_, conserved.keep, holds _⟩
    · simp at performed
  | takeTable =>
    simp only [performRunning] at performed
    split at performed
    · next t found =>
      cases performed
      refine ⟨{ ledgers p with held := t.frames + (ledgers p).held, away := true },
        conserved.own alive (fun frame => ?_) (by simp) (fun _ => rfl) rfl (.inl alive),
        holds.2 t _ (conserved.tables p t found)⟩
      rw [Entry.count_frames, Entry.count_frames, found]
      simp only [below, count_add, count_zero]
      omega
    · simp at performed
  | putTable t sz =>
    cases performed
    obtain ⟨away, sane, rest, held, after⟩ := holds
    have empty := conserved.away p away
    refine ⟨{ ledgers p with held := rest, away := false },
      conserved.own alive (fun frame => ?_) (fun t' same => ?_) (by simp) rfl (.inl alive), after⟩
    · rw [held, Entry.count_frames, Entry.count_frames, empty]
      simp only [below, count_add, count_zero]
      omega
    · cases same
      exact sane
  | allocProc =>
    obtain ⟨free, full, after⟩ := holds
    simp only [performRunning] at performed
    split at performed
    · next np found =>
      cases performed
      have status := unused_spec found
      have vacant := conserved.unused np status
      refine ⟨{ ledgers p with child := some np }, conserved.fill alive (by simp [status])
        (fun q _ => conserved.others_of_status (by simp [status]) q) (fun frame => ?_)
        (fun t stored => ?_) (by simp) rfl
        fun np' filled => ⟨(Option.some.inj filled).symm, rfl,
          Entry.frames_vacant (by rw [vacant]) (by rw [vacant])⟩, after np⟩
      · rw [Entry.count_frames, Entry.count_frames]
      · simp [vacant] at stored
    · cases performed
      exact ⟨_, conserved.keep, full⟩
  | freeProc np =>
    cases performed
    obtain ⟨used, empty⟩ := conserved.child p np holds.1
    refine ⟨{ ledgers p with child := none }, conserved.fill alive (by simp [used])
      (fun q other filled => other (conserved.unique q p np filled holds.1)) (fun frame => ?_) (by simp)
      (fun _ => rfl) rfl (by simp), holds.2⟩
    rw [empty, Entry.frames_vacant rfl rfl]
  | spawn np trapframe t sz =>
    cases performed
    obtain ⟨child, sane, rest, held, after⟩ := holds
    obtain ⟨used, empty⟩ := conserved.child p np child
    refine ⟨{ ledgers p with held := rest, child := none }, conserved.fill alive (by simp [used])
      (fun q other filled => other (conserved.unique q p np filled child)) (fun frame => ?_)
      (fun t' same => ?_) (by simp) rfl (by simp), after⟩
    · rw [held, empty, Entry.count_frames]
      simp only [below, count_add, count_zero]
      omega
    · cases same
      exact sane
  | reap =>
    obtain ⟨free, nobody, after⟩ := holds
    cases answer with
    | zombie np => exact accounted_reap conserved alive nobody after performed
    | flag | number | segment => simp [performRunning] at performed
  | die =>
    cases performed
    obtain ⟨idle, after⟩ := holds
    refine ⟨Ledger.idle, conserved.own alive (fun frame => ?_) (fun t stored => ?_) (by rintro ⟨⟩)
      (by rw [idle]) (.inr ⟨rfl, rfl⟩), after⟩
    · rw [idle, Entry.count_frames, Entry.count_frames]
    · exact conserved.tables p t stored

end

/-- The operations keep the accounts, and the calls settle their ledgers. -/
theorem sound {total : List Frame} (bounded : total.length ≤ NFRAME) :
    system.Sound logic (fun _ _ _ _ => True) (Conserved total) Ledger.idle where
  performs := by
    intro s ledgers p op answer next result post conserved holds _ performed
    simp only [system, perform] at performed
    split at performed
    · next alive => exact accounted_performRunning bounded conserved alive holds performed
    · simp at performed
  begins := by
    intro s p call prog begun
    simp only [system] at begun
    split at begun
    · cases begun
      exact settled_program call
    · simp at begun

theorem Conserved.count_free {total : List Frame} {s after : State} {ledgers : Slot → Ledger}
    (conserved : Conserved total s ledgers)
    (later : Conserved total after ledgers) (same : after.proc_list = s.proc_list) (frame : Frame) :
    after.freelist.count frame + after.lost.count frame =
      s.freelist.count frame + s.lost.count frame := by
  have before := conserved.frames frame
  have now := later.frames frame
  have owned : after.ownedCount frame = s.ownedCount frame := by
    simp only [State.ownedCount, same]
  omega

/-! ## Runs from the first process -/

def bootNodes : Table :=
  ((Table.zero 2).set (PX 2 TRAMPOLINE)
    (some ((Mid.zero 3).set (PX 1 TRAMPOLINE) (some (Low.zero 4))))).set (PX 2 0)
    (some ((Mid.zero 6).set (PX 1 0) (some (Low.zero 7))))

/-- The page table `alloc_proc` and `uvm_first` make for the first process. -/
def bootTable : Table :=
  ((bootNodes.store TRAMPOLINE ⟨true, { r := true, x := true }, trampoline⟩).store TRAPFRAME
    ⟨true, { r := true, w := true }, 1⟩).store 0 ⟨true, ⟨true, true, true, true⟩, 5⟩

/-- The state `user_init` leaves, with some free frames. -/
def init (free : Nat) : State where
  freelist := List.range' 8 free
  proc_list := update (fun _ => {}) ⟨0, NPROC_pos⟩ ⟨.RUNNABLE, some 1, some bootTable, PGSIZE⟩
  lost := []

def allFrames (free : Nat) : List Frame := List.range' 1 (7 + free)

/-- Nobody is in a call. -/
def start (free : Nat) : Config Slot State Op Op.Result := ⟨init free, fun _ => .ret (), false⟩

theorem invalid_bootNodes {va : Nat} {pte : Pte} (found : bootNodes.lookup va = some pte) :
    pte.v = false := by
  obtain ⟨mid, low, upper, lower, rfl⟩ := Table.lookup_eq_some.mp found
  simp only [bootNodes, Node.set, Table.zero, Node.fill, update_apply] at upper
  have zero : ∀ {frame : Frame} {index : Fin 512} {child : Low},
      (update (Mid.zero frame).entries index (some child)) (PX 1 va) = some low → low = child := by
    intro frame index child found
    rw [update_apply] at found
    split at found
    · exact (Option.some.inj found).symm
    · simp [Mid.zero, Node.fill] at found
  split at upper
  · cases upper
    rw [zero lower]
    rfl
  · split at upper
    · cases upper
      rw [zero lower]
      rfl
    · simp at upper

theorem not_kernelAt_bootNodes (va : Nat) : ¬KernelAt bootNodes va := by
  rintro ⟨pte, found, valid, _⟩
  rw [invalid_bootNodes found] at valid
  cases valid

/-- The entries of the first page table before they are written. -/
theorem lookup_bootNodes : bootNodes.lookup TRAMPOLINE = some {} ∧
    (bootNodes.store TRAMPOLINE ⟨true, { r := true, x := true }, trampoline⟩).lookup TRAPFRAME =
      some {} ∧
    ((bootNodes.store TRAMPOLINE ⟨true, { r := true, x := true }, trampoline⟩).store TRAPFRAME
      ⟨true, { r := true, w := true }, 1⟩).lookup 0 = some {} := by
  decide +kernel

theorem sane_bootTable : Sane bootTable (1 * PGSIZE) := by
  obtain ⟨first, second, third⟩ := lookup_bootNodes
  rw [← zero_mul PGSIZE] at third
  refine Sane.store (n := 0) ⟨?_, ?_, ?_, fun va kernel => ?_⟩ third rfl rfl
  · exact kernelAt_store second (by simp) (kernelAt_self first rfl)
  · exact kernelAt_self second rfl
  · rw [zero_mul]
    exact userOn_zero 0
  · rcases kernelAt_of_store second kernel with same | older
    · exact .inr same
    · rcases kernelAt_of_store first older with same | none
      · exact .inl same
      · exact absurd none (not_kernelAt_bootNodes va)

theorem frames_bootNodes : bootNodes.frames = {2, 3, 4, 6, 7} := by
  rw [bootNodes, frames_set_none (by decide +kernel), frames_set_none (by decide +kernel),
    frames_set_low rfl, frames_set_low rfl]
  simp only [Table.frames_zero, Mid.frames_zero, Low.frames_zero]
  decide

theorem frames_bootTable : bootTable.frames = {2, 3, 4, 6, 7} + {5} := by
  obtain ⟨first, second, third⟩ := lookup_bootNodes
  have nodes := Table.frames_store ⟨true, { r := true, x := true }, trampoline⟩ first
  have kernel := Table.frames_store ⟨true, { r := true, w := true }, 1⟩ second
  have page := Table.frames_store ⟨true, ⟨true, true, true, true⟩, 5⟩ third
  rw [Pte.frames_zero, add_zero] at nodes kernel page
  rw [bootTable, page, kernel, nodes, frames_bootNodes]
  rfl

theorem conserved_init (free : Nat) : Conserved (allFrames free) (init free) fun _ => Ledger.idle where
  frames frame := by
    have owned := ownedCount_setProc ⟨List.range' 8 free, fun _ => {}, []⟩ ⟨0, by decide⟩
      ⟨.RUNNABLE, some 1, some bootTable, PGSIZE⟩ frame
    have nobody : (⟨List.range' 8 free, fun _ => {}, []⟩ : State).ownedCount frame = 0 := by
      simp [State.ownedCount, Entry.frames_vacant]
    have mine : (Entry.mk .RUNNABLE (some 1) (some bootTable) PGSIZE).frames.count frame =
        (List.range' 1 7).count frame := by
      have boot : Entry.frames ⟨.RUNNABLE, some 1, some bootTable, PGSIZE⟩ =
          ((List.range' 1 7 : List Frame) : Multiset Frame) := by
        simp only [Entry.frames, below, frames_bootTable]
        decide
      rw [boot, coe_count]
    have split : allFrames free = List.range' 1 7 ++ List.range' 8 free := by
      rw [allFrames, ← List.range'_append]
    rw [nobody, mine, Entry.frames_vacant rfl rfl, count_zero] at owned
    rw [split, List.count_append]
    simp only [init, setProc, Ledger.idle, count_zero, Finset.sum_const_zero,
      List.count_nil] at owned ⊢
    omega
  tables p t stored := by
    rcases eq_or_ne p ⟨0, by decide⟩ with rfl | other
    · simp only [init, Function.update_self, Option.some.injEq] at stored ⊢
      rw [← stored]
      simpa using sane_bootTable
    · simp [init, other] at stored
  away p away := by simp [Ledger.idle] at away
  child p np child := by simp [Ledger.idle] at child
  unique p q np child := by simp [Ledger.idle] at child
  unused p unused := by
    rcases eq_or_ne p ⟨0, by decide⟩ with rfl | other
    · simp [init] at unused
    · simp [init, other]
  idle _ _ := rfl

def owned (s : State) : Multiset Frame := ∑ p, (s.proc_list p).frames

/-- Frames that are free, owned or held by calls in progress. -/
def present (s : State) (held : Slot → Multiset Frame) : Multiset Frame :=
  (s.freelist : Multiset Frame) + owned s + ∑ p, held p

theorem count_present (s : State) (held : Slot → Multiset Frame) (frame : Frame) :
    (present s held).count frame =
      s.freelist.count frame + s.ownedCount frame + ∑ p, (held p).count frame := by
  simp only [present, owned, State.ownedCount, count_add, Multiset.count_sum',
    coe_count]

section

variable {free : Nat} {events : List (Event Slot Answer Call)} {config : Config Slot State Op Op.Result} (fits : 7 + free ≤ NFRAME) (run : Execution.Run system.step (fun _ _ => True) (start free) events config)
include fits run

theorem conserved_run : ∃ ledgers, Conserved (allFrames free) config.state ledgers ∧
      ∀ p, (config.code p).returned = true → ledgers p = Ledger.idle := by
  have bounded : (allFrames free).length ≤ NFRAME := by simpa [allFrames] using fits
  have initially : System.Settles logic (Conserved (allFrames free)) Ledger.idle (start free) :=
    ⟨fun _ => Ledger.idle, conserved_init free, fun _ => rfl⟩
  have guarded := run.mono fun {config event} (_ : True) =>
    (show System.guard (fun _ _ _ _ => True) config event by
      cases event with
      | start pid call => trivial
      | run pid answer =>
        simp only [System.guard]
        split <;> trivial)
  obtain ⟨ledgers, conserved, programs⟩ := (sound bounded).settles_run initially guarded
  refine ⟨ledgers, conserved, fun p returned => ?_⟩
  have settled := programs p
  cases code : config.code p with
  | ret value => rwa [code] at settled
  | act op next => simp [code, Code.returned] at returned

/-- In every state of every run, a frame that is not present is lost. -/
theorem present_run :
    ∃ held : Slot → Multiset Frame, (∀ p, (config.code p).returned = true → held p = 0) ∧
      ∀ frame, (present config.state held).count frame + config.state.lost.count frame =
        (allFrames free).count frame := by
  obtain ⟨ledgers, conserved, settled⟩ := conserved_run fits run
  refine ⟨fun p => (ledgers p).held, fun p returned => ?_, fun frame => ?_⟩
  · exact congrArg Ledger.held (settled p returned)
  · rw [count_present]
    exact conserved.frames frame

end

/-- The steps of the first process. -/
def runs (n : Nat) : List (Event Slot Answer Call) :=
  List.replicate n (.run ⟨0, NPROC_pos⟩ (.flag true))

def growOnce : List (Event Slot Answer Call) := .start ⟨0, NPROC_pos⟩ (.grow 4096) :: runs 3

/-- Nobody is in a call. -/
def quiet (config : Config Slot State Op Op.Result) : Bool :=
  (List.finRange NPROC).all fun p => (config.code p).returned

/-- The first process executes a program without segments. -/
def execEmpty : List (Event Slot Answer Call) :=
  .start ⟨0, NPROC_pos⟩ .exec :: runs 5 ++ .run ⟨0, NPROC_pos⟩ (.number 0) :: runs 14

end OsCpp.Frames
