import OsCpp.Frames.Conservation
import OsCpp.Frames.Image
import OsCpp.Refs.Exactness

/-!
# `fork` is not all-or-nothing

A `fork` that makes no child leaves everything as it was only if it fails before it has a frame for
the first page: `uvm_copy` unmaps the wrong pages, and `free` is called with a size of zero.
-/

namespace OsCpp.Frames

open Process (Outcome)
open Function (update update_idem update_of_ne update_self)

/-- The first page of an address space is mapped. -/
def FirstMapped (t : Table) (sz : Nat) : Prop :=
  0 < sz ∧ ∃ pte, t.lookup 0 = some pte ∧ pte.v = true

/-- One of the first pages is mapped. -/
def Leaf (t : Table) (j : Nat) : Prop :=
  ∃ k < j, ∃ pte, t.lookup (k * PGSIZE) = some pte ∧ pte.v = true

theorem Leaf.mono {t : Table} {j j' : Nat} (leaf : Leaf t j) (less : j ≤ j') : Leaf t j' := by
  obtain ⟨k, below, mapped⟩ := leaf
  exact ⟨k, below.trans_le less, mapped⟩

section

variable {stuck : Prop} {p : Slot} {free lost : List Frame} {procs : Slot → Entry}
  (alive : (procs p).status = .RUNNABLE)

include alive

/-- `uvm_copy` undoes the copying at the wrong addresses: it panics, or a copied page stays. -/
theorem ends_unmap_copied {t : Table} {j : Nat} {post : Table → State → Prop} (positive : 0 < j)
    (small : j < 2 ^ 25) (copied : Leaf t j ∨ t.lookup (j * PGSIZE) = none)
    (after : ∀ t' free', Leaf t' j → post t' ⟨free', procs, lost⟩) :
    ends True p (uvm_unmap t (j * PGSIZE) (j * PGSIZE / PGSIZE) true) post ⟨free, procs, lost⟩ := by
  have aligned : j * PGSIZE % PGSIZE = 0 := Nat.mul_mod_left j PGSIZE
  rw [uvm_unmap, if_neg (not_not_intro aligned), Nat.mul_div_cancel _ (by decide)]
  rcases copied with ⟨k, below, pte, found, valid⟩ | absent
  · refine ends_unmapFrom alive fun t' free' kept => after t' free' ⟨k, below, pte, ?_, valid⟩
    rw [kept, found]
    intro i inside same
    rw [← add_mul] at same
    have page := samePage_mul same (by omega) (by omega)
    omega
  · obtain ⟨n, rfl⟩ := Nat.exists_eq_succ_of_ne_zero positive.ne'
    rw [unmapFrom, ends_bind]
    refine ends_walk_lookup (fun _ => trivial) ?_
    rw [absent]
    exact ends_panic_bind trivial

variable {post : Table × Bool → State → Prop}

theorem ends_copyFrom {old new : Table} {n j : Nat}
    (few : old.frames.card ≤ NFRAME) (positive : 0 < j)
    (covered : ∀ k < j, ∃ pte, old.lookup (k * PGSIZE) = some pte)
    (copied : Leaf new j ∨ ∀ k < 2 ^ 25, new.lookup (k * PGSIZE) = none)
    (after : ∀ t' ok free' lost', ok = true ∨ Leaf t' (2 ^ 25) → post (t', ok) ⟨free', procs, lost'⟩) :
    ends True p (copyFrom old n new (j * PGSIZE)) post ⟨free, procs, lost⟩ := by
  induction n generalizing new j free lost with
  | zero => exact after new true free lost (.inl rfl)
  | succ n ih =>
    have next : j * PGSIZE + PGSIZE = (j + 1) * PGSIZE := (Nat.succ_mul j PGSIZE).symm
    rw [copyFrom, ends_bind]
    refine ends_walk_lookup (fun _ => trivial) ?_
    cases found : old.lookup (j * PGSIZE) with
    | none => exact ends_panic_bind trivial
    | some pte =>
      have covered' : ∀ k < j + 1, ∃ pte, old.lookup (k * PGSIZE) = some pte := by
        intro k below
        rcases Nat.lt_succ_iff_lt_or_eq.mp below with before | rfl
        · exact covered k before
        · exact ⟨pte, found⟩
      have small : j < 2 ^ 25 := Nat.lt_of_succ_lt (small_of_covered few covered')
      have undone : ∀ t' free' lost', Leaf t' j → post (t', false) ⟨free', procs, lost'⟩ :=
        fun t' free' lost' leaf => after t' false free' lost' (.inr (leaf.mono small.le))
      simp only
      split
      · rw [next]
        exact ih (Nat.succ_pos j) covered' (copied.imp_left fun leaf => leaf.mono (Nat.le_succ j))
      · rw [ends_bind]
        cases free with
        | nil =>
          refine ends_kalloc_nil alive ?_
          rw [ends_bind]
          exact ends_unmap_copied alive positive small (copied.imp_right fun bare => bare j small)
            fun t' free' leaf => undone t' free' lost leaf
        | cons mem free =>
          refine ends_kalloc_cons alive ?_
          rw [ends_bind]
          have bounded : j * PGSIZE ≤ VA_MAX := by
            simp only [PGSIZE, VA_MAX]
            omega
          refine ends_map_pages alive (Nat.mul_mod_left j PGSIZE) bounded (fun _ _ _ => trivial)
            (fun _ t' walked absent => ?_) fun _ t' entry walked there => ?_
          · simp only [ends_bind]
            exact ends_lose alive (ends_unmap_copied alive positive small (.inr absent)
              fun t' free' leaf => undone t' free' _ leaf)
          · have leaf : Leaf (t'.store (j * PGSIZE) ⟨true, pte.flags, mem⟩) (j + 1) := by
              refine ⟨j, Nat.lt_succ_self j, ⟨true, pte.flags, mem⟩, ?_, rfl⟩
              rw [Table.lookup_store there, if_pos ⟨rfl, rfl, rfl⟩]
            change ends True p (copyFrom old n _ (j * PGSIZE + PGSIZE)) post _
            rw [next]
            exact ih (Nat.succ_pos j) covered' (.inl leaf)

theorem ends_uvm_copy {old new : Table} {sz : Nat}
    (few : old.frames.card ≤ NFRAME) (fresh : Fresh new) (supplied : free = [] → ¬FirstMapped old sz)
    (after : ∀ t' ok free' lost', ok = true ∨ Leaf t' (2 ^ 25) ∨ lost.length < lost'.length →
      post (t', ok) ⟨free', procs, lost'⟩) :
    ends True p (uvm_copy old new sz) post ⟨free, procs, lost⟩ := by
  rw [uvm_copy]
  cases count : (sz + PGSIZE - 1) / PGSIZE with
  | zero => exact after new true free lost (.inl rfl)
  | succ n =>
    have positive : 0 < sz := by
      simp only [PGSIZE] at count
      omega
    have next : 0 + PGSIZE = 1 * PGSIZE := by decide
    have later : ∀ t' ok free' lost', ok = true ∨ Leaf t' (2 ^ 25) →
        post (t', ok) ⟨free', procs, lost'⟩ :=
      fun t' ok free' lost' result => after t' ok free' lost' (result.imp_right .inl)
    rw [copyFrom, ends_bind]
    refine ends_walk_lookup (fun _ => trivial) ?_
    cases found : old.lookup 0 with
    | none => exact ends_panic_bind trivial
    | some pte =>
      have covered : ∀ k < 1, ∃ pte, old.lookup (k * PGSIZE) = some pte := by
        intro k below
        obtain rfl : k = 0 := by omega
        exact ⟨pte, by rwa [zero_mul]⟩
      simp only
      split
      · rw [next]
        exact ends_copyFrom alive few one_pos covered (.inr fresh.bare) later
      · next valid =>
        have valid : pte.v = true := by simpa using valid
        rw [ends_bind]
        cases free with
        | nil => exact absurd ⟨positive, pte, found, valid⟩ (supplied rfl)
        | cons mem free =>
          refine ends_kalloc_cons alive ?_
          rw [ends_bind]
          refine ends_map_pages alive (Nat.zero_mod PGSIZE) zero_le (fun _ _ _ => trivial)
            (fun _ t' walked absent => ?_) fun _ t' entry walked there => ?_
          · simp only [ends_bind]
            exact ends_lose alive (after t' false [] _ (.inr (.inr (by simp))))
          · have leaf : Leaf (t'.store 0 ⟨true, pte.flags, mem⟩) 1 := by
              refine ⟨0, one_pos, ⟨true, pte.flags, mem⟩, ?_, rfl⟩
              rw [zero_mul, Table.lookup_store there, if_pos ⟨rfl, rfl, rfl⟩]
            change ends True p (copyFrom old n _ (0 + PGSIZE)) post _
            rw [next]
            exact ends_copyFrom alive few one_pos covered (.inl leaf) later

/-- Without a frame for the first page `uvm_copy` fails and changes nothing. -/
theorem ends_uvm_copy_first {old new : Table} {sz : Nat}
    (mapped : FirstMapped old sz) (after : post (new, false) ⟨[], procs, lost⟩) :
    ends stuck p (uvm_copy old new sz) post ⟨[], procs, lost⟩ := by
  obtain ⟨positive, pte, found, valid⟩ := mapped
  obtain ⟨n, count⟩ : ∃ n, (sz + PGSIZE - 1) / PGSIZE = n + 1 := by
    refine Nat.exists_eq_succ_of_ne_zero ?_
    simp only [PGSIZE]
    omega
  rw [uvm_copy, count, copyFrom, ends_bind]
  refine ends_walk_lookup (fun large => absurd large not_lt_zero) ?_
  rw [found]
  simp only [valid, Bool.true_eq_false, if_false, ends_bind]
  exact ends_kalloc_nil alive after

end

/-! ## Processes -/

section

variable {stuck : Prop} {p np : Slot} {free lost : List Frame} {procs : Slot → Entry}

theorem update_vacant (vacant : procs np = {}) (entry : Entry) :
    update (update procs np entry) np {} = procs := by
  rw [update_idem]
  exact Function.update_eq_self_iff.mpr vacant.symm

variable (alive : (procs p).status = .RUNNABLE)

include alive

theorem ne_of_vacant (vacant : procs np = {}) : np ≠ p := by
  rintro rfl
  rw [vacant] at alive
  cases alive

theorem ends_alloc_proc {post : Option (Slot × Frame × Table) → State → Prop}
    (found : State.unused ⟨free, procs, lost⟩ = some np) (vacant : procs np = {})
    (failed : free.length < 4 → ∀ free', post none ⟨free', procs, lost⟩)
    (made : 4 ≤ free.length → ∀ trapframe t, Fresh t → post (some (np, trapframe, t))
      ⟨free.drop 4, update procs np { procs np with status := .USED }, lost⟩) :
    ends stuck p alloc_proc post ⟨free, procs, lost⟩ := by
  have other := ne_of_vacant alive vacant
  rw [alloc_proc, ends_bind]
  refine ends_allocProc alive (fun none => ?_) fun np' found' => ?_
  · rw [found] at none
    cases none
  · rw [found] at found'
    cases found'
    have alive' : (update procs np { procs np with status := .USED } p).status = .RUNNABLE := by
      rwa [update_of_ne other.symm]
    have restored := update_vacant vacant { procs np with status := .USED }
    rw [ends_bind]
    cases free with
    | nil =>
      refine ends_kalloc_nil alive' ?_
      rw [ends_bind]
      refine ends_freeProc alive' ?_
      rw [restored]
      exact failed (by simp) []
    | cons trapframe free =>
      refine ends_kalloc_cons alive' ?_
      rw [ends_bind]
      refine ends_alloc_pagetable alive' (fun few free' => ?_) fun enough t fresh => ?_
      · simp only [ends_bind]
        refine ends_kfree alive' (ends_freeProc alive' ?_)
        rw [restored]
        exact failed (Nat.succ_lt_succ few) _
      · exact made (Nat.succ_le_succ enough) trapframe t fresh

theorem ends_alloc_proc_full {post : Option (Slot × Frame × Table) → State → Prop}
    (full : State.unused ⟨free, procs, lost⟩ = none) :
    ends True p alloc_proc post ⟨free, procs, lost⟩ := by
  rw [alloc_proc, ends_bind]
  refine ends_allocProc alive (fun _ => ends_panic_bind trivial) fun np found => ?_
  rw [full] at found
  cases found

theorem ends_fork_late (vacant : ∀ np, State.unused ⟨free, procs, lost⟩ = some np → procs np = {})
    (few : ∀ t, (procs p).pagetable = some t → t.frames.card ≤ NFRAME) (enough : 4 ≤ free.length)
    (supplied : free.length = 4 → ∀ t, (procs p).pagetable = some t → ¬FirstMapped t (procs p).sz) :
    ends True p fork (fun made after => made = true ∨ lost.length < after.lost.length)
      ⟨free, procs, lost⟩ := by
  rw [fork, ends_bind]
  cases found : State.unused ⟨free, procs, lost⟩ with
  | none => exact ends_alloc_proc_full alive found
  | some np =>
    have other := ne_of_vacant alive (vacant np found)
    refine ends_alloc_proc alive found (vacant np found)
      (fun short => absurd enough (Nat.not_le.mpr short)) fun _ trapframe new fresh => ?_
    have same : update procs np { procs np with status := .USED } p = procs p :=
      update_of_ne other.symm _ _
    rw [ends_bind]
    refine ends_takeTable (by rwa [same]) (fun _ => trivial) fun old table => ?_
    rw [same] at table ⊢
    have alive' : (update (update procs np { procs np with status := .USED }) p
        { procs p with pagetable := none } p).status = .RUNNABLE := by
      rwa [update_self]
    rw [ends_bind]
    refine ends_uvm_copy alive' (few old table) fresh (fun none => ?_) fun t' ok free' lost' result => ?_
    · refine supplied ?_ old table
      have none := List.drop_eq_nil_iff.mp none
      omega
    · simp only [ends_bind]
      refine ends_putTable alive' ?_
      have alive'' : (update (update (update procs np
          { procs np with status := .USED }) p { procs p with pagetable := none }) p
          { procs p with pagetable := some old, sz := (procs p).sz } p).status = .RUNNABLE := by
        rwa [update_self]
      rw [update_self]
      cases ok with
      | true =>
        rw [if_pos rfl, ends_bind]
        exact ends_true fun _ _ => .inl rfl
      | false =>
        rw [if_neg Bool.false_ne_true, ends_bind]
        rcases result with made | ⟨k, below, pte, mapped, valid⟩ | grew
        · cases made
        · simp only [Frames.free, ends_bind]
          exact ends_kfree alive'' (ends_free_pagetable_leaf alive'' below mapped valid _)
        · exact Process.Logic.wp_mono (fun _ _ more => .inr more) (ends_lost grew)

/-- A `fork` that fails early leaves everything as it was. -/
theorem ends_fork_early (found : State.unused ⟨free, procs, lost⟩ = some np) (vacant : procs np = {})
    (early : free.length < 4 ∨ free.length = 4 ∧
      ∃ t, (procs p).pagetable = some t ∧ FirstMapped t (procs p).sz) :
    ends False p fork
      (fun made after => made = false ∧ after.proc_list = procs ∧ after.lost = lost)
      ⟨free, procs, lost⟩ := by
  have other := ne_of_vacant alive vacant
  rw [fork, ends_bind]
  refine ends_alloc_proc alive found vacant (fun _ free' => ⟨rfl, rfl, rfl⟩)
    fun enough trapframe new fresh => ?_
  obtain ⟨exact_four, t, table, mapped⟩ := early.resolve_left (Nat.not_lt.mpr enough)
  have used : free.drop 4 = [] := List.drop_eq_nil_iff.mpr exact_four.le
  have same : update procs np { procs np with status := .USED } p = procs p :=
    update_of_ne other.symm _ _
  rw [ends_bind, used]
  refine ends_takeTable (by rwa [same]) (fun absent => ?_) fun old taken => ?_
  · rw [same, table] at absent
    cases absent
  rw [same] at taken ⊢
  rw [table] at taken
  cases taken
  have alive' : (update (update procs np { procs np with status := .USED }) p
      { procs p with pagetable := none } p).status = .RUNNABLE := by
    rwa [update_self]
  rw [ends_bind]
  refine ends_uvm_copy_first alive' mapped ?_
  simp only [ends_bind]
  refine ends_putTable alive' ?_
  have restored : update (update (update procs np
      { procs np with status := .USED }) p { procs p with pagetable := none }) p
      { procs p with pagetable := some t, sz := (procs p).sz } =
      update procs np { procs np with status := .USED } := by
    rw [update_idem, ← table]
    exact Function.update_eq_self_iff.mpr same.symm
  rw [update_self, restored, if_neg Bool.false_ne_true, ends_bind]
  have alive'' : (update procs np { procs np with status := .USED } p).status = .RUNNABLE := by
    rwa [same]
  simp only [Frames.free, ends_bind]
  refine ends_kfree alive'' (ends_free_image alive'' fresh.image (by decide) fun free' =>
    ends_freeProc alive'' ?_)
  rw [update_vacant vacant]
  exact ⟨rfl, rfl, rfl⟩

end

/-! ## The call -/

/-- Address spaces and references. -/
structure Kernel where
  memory : State
  refs : Refs.State

/-- The end of `fork`, after its tests: the child shares the open files and the working directory. -/
def share : Refs.Prog Unit := do
  let files ← Refs.dupFiles (List.finRange NOFILE) fun _ => none
  let cwd ← Refs.act .idupCwd
  Refs.act (.spawn files cwd)

/-- `fork` without interruption: has a child been made? -/
def forkAlone (p : Slot) (k : Kernel) : Outcome Kernel Bool :=
  match fork.alone (steps p) k.memory with
  | .blocked => .blocked
  | .halt => .halt
  | .next memory false => .next { k with memory := memory } false
  | .next memory true =>
    match share.alone (fun refs op => Refs.perform refs p op (.child (k.memory.unused.getD p)))
      k.refs with
    | .blocked => .blocked
    | .halt => .halt
    | .next refs _ => .next ⟨memory, refs⟩ true

/-- Free frames, processes with their address spaces, and references are as before. -/
structure Unchanged (k k' : Kernel) : Prop where
  freelist : k'.memory.freelist.Perm k.memory.freelist
  proc_list : k'.memory.proc_list = k.memory.proc_list
  refs : k'.refs = k.refs

/-- `fork` returns, and if it has made no child, nothing has changed. -/
def AllOrNothing (p : Slot) (k : Kernel) : Prop :=
  ∃ k' made, forkAlone p k = .next k' made ∧ (made = false → Unchanged k k')

/-- `fork` makes a child. -/
def Forks (p : Slot) (k : Kernel) : Prop := ∃ k', forkAlone p k = .next k' true

/-- There is an unused process, but no frame for the first page of its address space. -/
def FailsEarly (p : Slot) (s : State) : Prop :=
  s.unused ≠ none ∧ (s.freelist.length < 4 ∨ s.freelist.length = 4 ∧
    ∃ t, (s.proc_list p).pagetable = some t ∧ FirstMapped t (s.proc_list p).sz)

section

variable {total : List Frame} {s after : State} {ledgers : Slot → Ledger} {p : Slot} {made : Bool}

theorem Conserved.fork (conserved : Conserved total s ledgers) (bounded : total.length ≤ NFRAME)
    (idle : ledgers p = Ledger.idle) (ended : Frames.fork.alone (steps p) s = .next after made) :
    Conserved total after ledgers := by
  have settles : logic.wp Frames.fork (fun _ l => l = Ledger.idle) (ledgers p) := by
    rw [idle]
    exact wp_fork fun _ => rfl
  obtain ⟨l, kept, rfl⟩ := (sound bounded).alone (fun _ _ => trivial) conserved settles ended
  rwa [← idle, Function.update_eq_self] at kept

theorem below_some {Child : Type} (weight : Child → Multiset Frame) (child : Child) :
    below weight (some child) = weight child := rfl

/-- The page table of a process fits into physical memory. -/
theorem Conserved.card_table (conserved : Conserved total s ledgers) {t : Table}
    (table : (s.proc_list p).pagetable = some t) : t.frames.card ≤ total.length := by
  rw [← below_some Table.frames t, ← table]
  refine card_le_of_count fun frame => ?_
  have all := conserved.frames frame
  have single : (s.proc_list p).frames.count frame ≤ s.ownedCount frame :=
    Tally.le_sum (fun entry : Entry => entry.frames.count frame) s.proc_list p
  rw [Entry.count_frames] at single
  omega

variable (conserved : Conserved total s ledgers) (bounded : total.length ≤ NFRAME)
  (idle : ledgers p = Ledger.idle) (alive : (s.proc_list p).status = .RUNNABLE)

include conserved bounded idle alive

/-- A `fork` that leaves everything as it was has failed early. -/
theorem failsEarly_of_unchanged (ended : fork.alone (steps p) s = .next after false)
    (freelist : after.freelist.Perm s.freelist) (procs : after.proc_list = s.proc_list) :
    FailsEarly p s := by
  have vacant : ∀ np, s.unused = some np → s.proc_list np = {} :=
    fun np found => conserved.unused np (unused_spec found)
  have lost : after.lost.Perm s.lost := by
    refine List.perm_iff_count.mpr fun frame => ?_
    have counted := conserved.count_free (conserved.fork bounded idle ended) procs frame
    have same := List.perm_iff_count.mp freelist frame
    omega
  by_contra late
  rcases Option.eq_none_or_eq_some s.unused with full | ⟨np, found⟩
  · have stops : ends True p fork (fun _ _ => False) s := by
      rw [fork, ends_bind]
      exact ends_alloc_proc_full alive full
    rw [ends, Process.Logic.wp_alone, ended] at stops
    exact stops
  · have known : s.unused ≠ none := by simp [found]
    have finishes := ends_fork_late alive vacant
      (fun t table => (conserved.card_table table).trans bounded)
      (by
        by_contra short
        exact late ⟨known, .inl (Nat.not_le.mp short)⟩)
      (fun four t table mapped => late ⟨known, .inr ⟨four, t, table, mapped⟩⟩)
    rw [ends, Process.Logic.wp_alone, ended] at finishes
    rcases finishes with made | more
    · cases made
    · exact absurd lost.length_eq more.ne'

theorem unchanged_of_failsEarly (early : FailsEarly p s) :
    ∃ after, fork.alone (steps p) s = .next after false ∧ after.freelist.Perm s.freelist ∧
      after.proc_list = s.proc_list := by
  obtain ⟨known, short⟩ := early
  obtain ⟨np, found⟩ := Option.ne_none_iff_exists'.mp known
  have finishes := ends_fork_early alive found (conserved.unused np (unused_spec found)) short
  rw [ends, Process.Logic.wp_alone] at finishes
  cases ended : fork.alone (steps p) s with
  | blocked | halt =>
    rw [ended] at finishes
    exact absurd finishes id
  | next after made =>
    rw [ended] at finishes
    obtain ⟨rfl, procs, lost⟩ := finishes
    refine ⟨after, rfl, List.perm_iff_count.mpr fun frame => ?_, procs⟩
    have counted := conserved.count_free (conserved.fork bounded idle ended) procs frame
    rw [lost] at counted
    omega

end

/-- The frames that are free after an operation that has failed. -/
def leftover : Outcome Kernel Bool → Option Nat
  | .next k' false => some k'.memory.freelist.length
  | _ => none

theorem of_leftover {outcome : Outcome Kernel Bool} {n : Nat} (left : leftover outcome = some n) :
    ∃ k', outcome = .next k' false ∧ k'.memory.freelist.length = n := by
  rcases outcome with _ | _ | ⟨k', _ | _⟩ <;> cases left
  exact ⟨k', rfl, rfl⟩

def stops : Outcome Kernel Bool → Bool
  | .halt => true
  | _ => false

theorem of_stops {outcome : Outcome Kernel Bool} (stopped : stops outcome = true) :
    outcome = .halt := by
  cases outcome <;> cases stopped
  rfl

end OsCpp.Frames
