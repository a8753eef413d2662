import OsCpp.Frames.Calls

/-!
# Address-space routines without interruption

What the routines of `kernel/vm.cpp` and `alloc_proc` do when no other process runs meanwhile: how
many frames they need, and when they panic.
-/

namespace OsCpp.Frames

open Process (Outcome)
open Table (lookup lookup_eq_some lookup_store lowNode zero)
open Node (fill)

/-- The operations of a process that is not interrupted; `fork` asks nothing of the environment. -/
def steps (p : Slot) (s : State) (op : Op) : Outcome State op.Result := perform s p op (.flag true)

/-- The uninterrupted program ends in the postcondition; `stuck` allows it not to end. -/
def ends {α : Type} (stuck : Prop) (p : Slot) (prog : Prog α) (post : α → State → Prop) :
    State → Prop := (Process.Logic.alone (steps p) stuck).wp prog post

section

variable {stuck : Prop} {p : Slot} {free lost : List Frame} {procs : Slot → Entry} {s : State}
  {α β : Type}

theorem ends_pure (value : α) {post : α → State → Prop} :
    ends stuck p (pure value) post = post value := rfl

theorem ends_bind (prog : Prog β) (next : β → Prog α) {post : α → State → Prop} :
    ends stuck p (prog >>= next) post = ends stuck p prog fun value => ends stuck p (next value) post :=
  funext fun _ => propext (Process.Logic.wp_bind prog next)

theorem ends_true {prog : Prog α} {post : α → State → Prop} (holds : ∀ value after, post value after) :
    ends True p prog post s := Process.Logic.wp_alone_true holds

variable {post : Unit → State → Prop}

theorem ends_panic {message : String} (allowed : stuck) :
    ends stuck p (act (.panic message)) post s := by
  change (steps p s (.panic message)).Ends stuck post
  rw [steps, perform]
  split <;> exact allowed

theorem ends_panic_bind {message : String} {next : Unit → Prog α} {post : α → State → Prop}
    (allowed : stuck) : ends stuck p (act (.panic message) >>= next) post s := by
  rw [ends_bind]
  exact ends_panic allowed

variable (alive : (procs p).status = .RUNNABLE)

include alive

theorem ends_act {op : Op} {post : op.Result → State → Prop} :
    ends stuck p (act op) post ⟨free, procs, lost⟩ ↔
      (performRunning ⟨free, procs, lost⟩ p op (.flag true)).Ends stuck post := by
  change (steps p ⟨free, procs, lost⟩ op).Ends stuck post ↔ _
  rw [steps, perform, if_pos alive]

theorem ends_kalloc_nil {post : Option Frame → State → Prop} (after : post none ⟨[], procs, lost⟩) :
    ends stuck p (act .kalloc) post ⟨[], procs, lost⟩ := by
  rw [ends_act alive]
  exact after

theorem ends_kalloc_cons {post : Option Frame → State → Prop} {frame : Frame}
    (after : post (some frame) ⟨free, procs, lost⟩) :
    ends stuck p (act .kalloc) post ⟨frame :: free, procs, lost⟩ := by
  rw [ends_act alive]
  exact after

theorem ends_kfree {frame : Frame} (after : post () ⟨frame :: free, procs, lost⟩) :
    ends stuck p (act (.kfree frame)) post ⟨free, procs, lost⟩ := by
  rw [ends_act alive]
  exact after

theorem ends_lose {frame : Frame} (after : post () ⟨free, procs, lost ++ [frame]⟩) :
    ends stuck p (act (.lose frame)) post ⟨free, procs, lost⟩ := by
  rw [ends_act alive]
  exact after

theorem ends_takeTable {post : Table × Nat → State → Prop}
    (absent : (procs p).pagetable = none → stuck)
    (after : ∀ t, (procs p).pagetable = some t → post (t, (procs p).sz)
      ⟨free, Function.update procs p { procs p with pagetable := none }, lost⟩) :
    ends stuck p (act .takeTable) post ⟨free, procs, lost⟩ := by
  rw [ends_act alive]
  simp only [performRunning]
  split
  · next t found => exact after t found
  · next none => exact absent none

theorem ends_putTable {t : Table} {sz : Nat}
    (after : post () ⟨free, Function.update procs p
      { procs p with pagetable := some t, sz := sz }, lost⟩) :
    ends stuck p (act (.putTable t sz)) post ⟨free, procs, lost⟩ := by
  rw [ends_act alive]
  exact after

theorem ends_allocProc {post : Option Slot → State → Prop}
    (full : State.unused ⟨free, procs, lost⟩ = none → post none ⟨free, procs, lost⟩)
    (after : ∀ np, State.unused ⟨free, procs, lost⟩ = some np → post (some np)
      ⟨free, Function.update procs np { procs np with status := .USED }, lost⟩) :
    ends stuck p (act .allocProc) post ⟨free, procs, lost⟩ := by
  rw [ends_act alive]
  simp only [performRunning]
  split
  · next np found => exact after np found
  · next none => exact full none

theorem ends_freeProc {np : Slot} (after : post () ⟨free, Function.update procs np {}, lost⟩) :
    ends stuck p (act (.freeProc np)) post ⟨free, procs, lost⟩ := by
  rw [ends_act alive]
  exact after

end

/-- No operation finds a lost frame again. -/
theorem lost_le_perform {s after : State} {p : Slot} {op : Op} {answer : Answer} {result : op.Result}
    (performed : perform s p op answer = .next after result) :
    s.lost.length ≤ after.lost.length := by
  rw [perform] at performed
  split at performed
  · cases op with
    | panic => simp [performRunning] at performed
    | kalloc =>
      simp only [performRunning, performKalloc] at performed
      split at performed <;>
      · cases performed
        exact le_rfl
    | lose frame =>
      obtain ⟨rfl, _⟩ := Outcome.next.inj performed
      simp
    | kfree | putTable | freeProc | spawn | die =>
      obtain ⟨rfl, _⟩ := Outcome.next.inj performed
      exact le_rfl
    | trapframe | takeTable | allocProc =>
      simp only [performRunning] at performed
      split at performed <;> cases performed
      all_goals exact le_rfl
    | test | number | segment =>
      cases answer <;> cases performed
      exact le_rfl
    | reap =>
      cases answer with
      | zombie np =>
        cases np with
        | none =>
          obtain ⟨rfl, _⟩ := Outcome.next.inj performed
          exact le_rfl
        | some np =>
          simp only [performRunning, performReap] at performed
          split at performed <;> cases performed
          exact le_rfl
      | flag | number | segment => simp [performRunning] at performed
  · cases performed

theorem ends_lost {α : Type} {p : Slot} {prog : Prog α} {s : State} {bound : Nat}
    (already : bound ≤ s.lost.length) :
    ends True p prog (fun _ after => bound ≤ after.lost.length) s := by
  induction prog generalizing s with
  | ret value => exact already
  | act op next ih =>
    change (steps p s op).Ends True _
    cases performed : steps p s op with
    | next after result => exact ih result (already.trans (lost_le_perform performed))
    | blocked | halt => trivial

/-! ## Page tables -/

/-- Nodes a node of the middle level lacks for an address. -/
def Mid.missing (mid : Mid) (va : Nat) : Nat := if (mid.entries (PX 1 va)).isSome then 0 else 1

/-- Nodes a table lacks for an address. -/
def Table.missing (t : Table) (va : Nat) : Nat :=
  match t.entries (PX 2 va) with
  | none => 2
  | some mid => mid.missing va

/-- A walk has added nodes for an address, and no others. -/
structure Walked (t : Table) (va : Nat) (t' : Table) : Prop extends Grown t t' where
  apart : ∀ other, ¬(PX 2 other = PX 2 va ∧ PX 1 other = PX 1 va) → t'.lookup other = t.lookup other

theorem Walked.refl (t : Table) (va : Nat) : Walked t va t := ⟨Grown.refl t, fun _ _ => rfl⟩

theorem Walked.trans {t₁ t₂ t₃ : Table} {va : Nat} (first : Walked t₁ va t₂)
    (second : Walked t₂ va t₃) : Walked t₁ va t₃ :=
  ⟨first.toGrown.trans second.toGrown,
    fun other different => (second.apart other different).trans (first.apart other different)⟩

theorem walked_mid {t : Table} {va : Nat} (frame : Frame) (empty : t.entries (PX 2 va) = none) :
    Walked t va (t.set (PX 2 va) (some (Mid.zero frame))) := by
  refine ⟨grown_mid frame empty, fun other _ => ?_⟩
  by_cases top : PX 2 other = PX 2 va
  · simp [lookup, lowNode, Node.set, top, empty, Mid.zero, fill]
  · simp [lookup, lowNode, Node.set, Function.update_of_ne top]

theorem walked_low {t : Table} {va : Nat} {mid : Mid} (frame : Frame)
    (upper : t.entries (PX 2 va) = some mid) (empty : mid.entries (PX 1 va) = none) :
    Walked t va (t.set (PX 2 va) (some (mid.set (PX 1 va) (some (Low.zero frame))))) := by
  refine ⟨grown_low frame upper empty, fun other different => ?_⟩
  by_cases top : PX 2 other = PX 2 va
  · have middle : PX 1 other ≠ PX 1 va := fun same => different ⟨top, same⟩
    simp [lookup, lowNode, Node.set, top, middle, upper]
  · simp [lookup, lowNode, Node.set, top]

section

variable {stuck : Prop} {p : Slot} {free lost : List Frame} {procs : Slot → Entry} {t : Table}
  {va : Nat}

variable {post : Table × Option Pte → State → Prop}

theorem ends_walk_lookup {s : State}
    (bounded : VA_MAX < va → stuck) (after : post (t, t.lookup va) s) :
    ends stuck p (walk t va false) post s := by
  rw [walk]
  split
  · next large => exact ends_panic_bind (bounded large)
  · split
    · next mid upper =>
      rw [walkMid]
      split
      · next low lower => simpa [ends_pure, lookup, lowNode, upper, lower] using after
      · next empty => simpa [ends_pure, lookup, lowNode, upper, empty] using after
    · next empty => simpa [ends_pure, lookup, lowNode, empty] using after

variable (alive : (procs p).status = .RUNNABLE)

include alive

theorem ends_walkMid {mid : Mid} (upper : t.entries (PX 2 va) = some mid)
    (full : free.length < mid.missing va → ∀ t', Walked t va t' → t'.lookup va = none →
      post (t', none) ⟨[], procs, lost⟩)
    (found : mid.missing va ≤ free.length → ∀ t' pte, Walked t va t' → t'.lookup va = some pte →
      post (t', some pte) ⟨free.drop (mid.missing va), procs, lost⟩) :
    ends stuck p (walkMid t mid va true) post ⟨free, procs, lost⟩ := by
  rw [walkMid]
  split
  · next low lower =>
    have enough : mid.missing va = 0 := by simp [Mid.missing, lower]
    rw [enough] at found
    exact found zero_le t _ (Walked.refl t va)
      (by simp [lookup, lowNode, upper, lower])
  · next empty =>
    have lacking : mid.missing va = 1 := by simp [Mid.missing, empty]
    rw [lacking] at full found
    rw [if_pos rfl, ends_bind]
    cases free with
    | nil =>
      exact ends_kalloc_nil alive (full one_pos t (Walked.refl t va)
        (by simp [lookup, lowNode, upper, empty]))
    | cons frame free =>
      refine ends_kalloc_cons alive (found (by simp) _ _ (walked_low frame upper empty) ?_)
      simp [lookup, lowNode, Node.set, Low.zero, fill]

theorem ends_walk (bounded : va ≤ VA_MAX)
    (full : free.length < t.missing va → ∀ t', Walked t va t' → t'.lookup va = none →
      post (t', none) ⟨[], procs, lost⟩)
    (found : t.missing va ≤ free.length → ∀ t' pte, Walked t va t' → t'.lookup va = some pte →
      post (t', some pte) ⟨free.drop (t.missing va), procs, lost⟩) :
    ends stuck p (walk t va true) post ⟨free, procs, lost⟩ := by
  rw [walk]
  split
  · next large => exact absurd bounded (Nat.not_le.mpr large)
  · split
    · next mid upper =>
      have same : t.missing va = mid.missing va := by simp [Table.missing, upper]
      rw [same] at full found
      exact ends_walkMid alive upper full found
    · next empty =>
      have lacking : t.missing va = 2 := by simp [Table.missing, empty]
      rw [lacking] at full found
      rw [if_pos rfl, ends_bind]
      cases free with
      | nil =>
        exact ends_kalloc_nil alive (full Nat.two_pos t (Walked.refl t va)
          (by simp [lookup, lowNode, empty]))
      | cons frame free =>
        have first := walked_mid frame empty
        have more : (Mid.zero frame).missing va = 1 := by
          simp [Mid.missing, Mid.zero, fill]
        refine ends_kalloc_cons alive (ends_walkMid alive (by simp [Node.set]) ?_ ?_)
        · rw [more]
          intro few t' second
          exact full (Nat.succ_lt_succ few) t' (first.trans second)
        · rw [more]
          intro enough t' pte second
          exact found (Nat.succ_le_succ enough) t' pte (first.trans second)

theorem ends_map_pages {flags : Flags} {pa : Frame} {post : Table × Bool → State → Prop}
    (aligned : va % PGSIZE = 0) (bounded : va ≤ VA_MAX)
    (unmapped : ∀ pte, t.lookup va = some pte → pte.v = true → stuck)
    (failed : free.length < t.missing va → ∀ t', Walked t va t' → t'.lookup va = none →
      post (t', false) ⟨[], procs, lost⟩)
    (mapped : t.missing va ≤ free.length → ∀ t' old, Walked t va t' → t'.lookup va = some old →
      post (t'.store va ⟨true, flags, pa⟩, true) ⟨free.drop (t.missing va), procs, lost⟩) :
    ends stuck p (map_pages t va pa 1 flags) post ⟨free, procs, lost⟩ := by
  rw [map_pages, if_neg (not_not_intro aligned), if_neg Nat.one_ne_zero, mapFrom, ends_bind]
  refine ends_walk alive bounded (fun few t' walked absent => failed few t' walked absent) ?_
  intro enough t' pte walked present
  simp only
  split
  · next valid =>
    exact ends_panic_bind (unmapped pte (walked.sub va pte present valid) valid)
  · exact mapped enough t' pte walked present

/-- The loop of `uvm_unmap` changes only its pages. -/
theorem ends_unmapFrom {do_free : Bool} {n : Nat} {post : Table → State → Prop}
    (after : ∀ t' free', (∀ other, (∀ i < n, ¬SamePage (va + i * PGSIZE) other) →
      t'.lookup other = t.lookup other) → post t' ⟨free', procs, lost⟩) :
    ends True p (unmapFrom do_free n t va) post ⟨free, procs, lost⟩ := by
  induction n generalizing t va free with
  | zero => exact after t free fun _ _ => rfl
  | succ n ih =>
    have later : ∀ {other}, (∀ i < n + 1, ¬SamePage (va + i * PGSIZE) other) →
        ∀ i < n, ¬SamePage (va + PGSIZE + i * PGSIZE) other := by
      intro other different i below
      have next : va + PGSIZE + i * PGSIZE = va + (i + 1) * PGSIZE := by
        rw [Nat.succ_mul, add_assoc, add_comm PGSIZE]
      rw [next]
      exact different (i + 1) (by omega)
    rw [unmapFrom, ends_bind]
    refine ends_walk_lookup (fun _ => trivial) ?_
    cases found : t.lookup va with
    | none => exact ends_panic_bind trivial
    | some pte =>
      simp only
      split
      · exact ih fun t' free' kept => after t' free' fun other different =>
          kept other (later different)
      · split
        · exact ends_panic_bind trivial
        · have removed : ∀ {free'}, ends True p (unmapFrom do_free n (t.store va {}) (va + PGSIZE))
              post ⟨free', procs, lost⟩ := by
            intro free'
            refine ih fun t' free' kept => after t' free' fun other different => ?_
            rw [kept other (later different), lookup_store found, if_neg]
            simpa using different 0 (Nat.succ_pos n)
          cases do_free with
          | true =>
            rw [if_pos rfl, ends_bind]
            exact ends_kfree alive removed
          | false => exact removed

omit alive in
theorem ends_uvm_unmap_kernel {s : State} {pte : Pte} {post : Table → State → Prop}
    (aligned : va % PGSIZE = 0) (bounded : va ≤ VA_MAX) (found : t.lookup va = some pte)
    (valid : pte.v = true) (leaf : pte.flags ≠ {}) (after : post (t.store va {}) s) :
    ends stuck p (uvm_unmap t va 1 false) post s := by
  rw [uvm_unmap, if_neg (not_not_intro aligned), unmapFrom, ends_bind]
  refine ends_walk_lookup (fun large => absurd bounded (Nat.not_le.mpr large)) ?_
  rw [found]
  simp only [valid, Bool.true_eq_false, if_false, if_neg leaf]
  exact after

/-! ### Freeing -/

omit alive in
/-- `free_walk` does not return from a node that it does not return from. -/
theorem ends_freeEach_stuck {Child : Type} {each : Child → Prog Unit}
    {entries : Fin 512 → Option Child} {index : Fin 512} {child : Child}
    (found : entries index = some child)
    (never : ∀ (post : Unit → State → Prop) s, ends True p (each child) post s)
    {todo : List (Fin 512)} (listed : index ∈ todo) (post : Unit → State → Prop) (s : State) :
    ends True p (freeEach each entries todo) post s := by
  induction todo generalizing s with
  | nil => simp at listed
  | cons first todo ih =>
    rw [freeEach, ends_bind]
    rcases List.mem_cons.mp listed with rfl | later
    · rw [found]
      exact never _ s
    · exact ends_true fun _ after => ih later after

omit alive in
/-- `free_walk` panics when a page is still mapped. -/
theorem ends_free_walk_leaf {pte : Pte} (found : t.lookup va = some pte) (valid : pte.v = true)
    (post : Unit → State → Prop) (s : State) : ends True p (free_walk t) post s := by
  obtain ⟨mid, low, upper, lower, rfl⟩ := lookup_eq_some.mp found
  have atLow : ∀ (post : Unit → State → Prop) s, ends True p (freeLow low) post s := by
    intro post s
    have leaf : (indices.any fun index => (low.entries index).v) = true :=
      List.any_eq_true.mpr ⟨PX 0 va, mem_indices _, valid⟩
    rw [freeLow, if_pos leaf]
    exact ends_panic trivial
  have atMid : ∀ (post : Unit → State → Prop) s, ends True p (freeMid mid) post s := by
    intro post s
    rw [freeMid, ends_bind]
    exact ends_freeEach_stuck lower atLow (mem_indices _) _ s
  rw [free_walk, ends_bind]
  exact ends_freeEach_stuck upper atMid (mem_indices _) _ s

omit alive in
theorem ends_freeEach {Child : Type} {each : Child → Prog Unit} {entries : Fin 512 → Option Child}
    (frees : ∀ {index child}, entries index = some child → ∀ {post : Unit → State → Prop} {free'},
      (∀ free', post () ⟨free', procs, lost⟩) → ends stuck p (each child) post ⟨free', procs, lost⟩)
    {todo : List (Fin 512)} {post : Unit → State → Prop}
    (after : ∀ free', post () ⟨free', procs, lost⟩) :
    ends stuck p (freeEach each entries todo) post ⟨free, procs, lost⟩ := by
  induction todo generalizing free with
  | nil => exact after free
  | cons index todo ih =>
    rw [freeEach, ends_bind]
    cases child : entries index with
    | none => exact ih
    | some node => exact frees child fun _ => ih

/-- No page is mapped. -/
def Leafless (t : Table) : Prop := ∀ va pte, t.lookup va = some pte → pte.v = false

omit alive in
/-- Every entry belongs to an address. -/
theorem exists_address (i j k : Fin 512) : ∃ va, PX 2 va = i ∧ PX 1 va = j ∧ PX 0 va = k := by
  refine ⟨((i.val * 512 + j.val) * 512 + k.val) * 4096, ?_⟩
  simp only [PX, Fin.ext_iff]
  omega

theorem ends_free_walk {post : Unit → State → Prop} (leafless : Leafless t)
    (after : ∀ free', post () ⟨free', procs, lost⟩) :
    ends stuck p (free_walk t) post ⟨free, procs, lost⟩ := by
  rw [free_walk, ends_bind]
  refine ends_freeEach ?_ fun _ => ends_kfree alive (after _)
  intro i mid upper post free' after
  rw [freeMid, ends_bind]
  refine ends_freeEach ?_ fun _ => ends_kfree alive (after _)
  intro j low lower post free' after
  have invalid : ¬(indices.any fun index => (low.entries index).v) = true := by
    intro some
    obtain ⟨k, _, valid⟩ := List.any_eq_true.mp some
    obtain ⟨va, rfl, rfl, rfl⟩ := exists_address i j k
    have unmapped := leafless va _ (lookup_eq_some.mpr ⟨mid, low, upper, lower, rfl⟩)
    rw [unmapped] at valid
    cases valid
  rw [freeLow, if_neg invalid]
  exact ends_kfree alive (after _)

omit alive in
theorem ends_uvm_free_zero {s : State} {post : Unit → State → Prop}
    (after : ends stuck p (free_walk t) post s) : ends stuck p (uvm_free t 0) post s := by
  rw [uvm_free, if_neg (lt_irrefl 0)]
  exact after

/-! ### New address spaces -/

/-- The table `alloc_pagetable` makes: the pages of the kernel, and no node for low addresses. -/
structure Fresh (t : Table) : Prop where
  trampoline : ∃ pte, t.lookup TRAMPOLINE = some pte ∧ pte.v = true ∧ pte.flags ≠ {}
  trapframe : ∃ pte, t.lookup TRAPFRAME = some pte ∧ pte.v = true ∧ pte.flags ≠ {}
  only : ∀ va pte, t.lookup va = some pte → pte.v = true →
    SamePage TRAMPOLINE va ∨ SamePage TRAPFRAME va
  bare : ∀ k < 2 ^ 25, t.lookup (k * PGSIZE) = none

omit alive in
theorem lookup_zero (root : Frame) (va : Nat) : (zero root).lookup va = none := by
  simp [lookup, lowNode, zero, fill]

omit alive in
theorem leafless_of_sub {t t' : Table} (sub : Sub t' t) (leafless : Leafless t) : Leafless t' := by
  intro va pte found
  by_contra valid
  have valid : pte.v = true := by simpa using valid
  simp [leafless va pte (sub va pte found valid)] at valid

omit alive in
theorem leafless_zero (root : Frame) : Leafless (zero root) := by
  intro va pte found
  rw [lookup_zero] at found
  cases found

omit alive in
theorem apart_low {k : Nat} (small : k < 2 ^ 25) :
    PX 2 (k * PGSIZE) ≠ PX 2 TRAMPOLINE ∧ PX 2 (k * PGSIZE) ≠ PX 2 TRAPFRAME := by
  simp only [PX, PGSIZE, TRAMPOLINE, TRAPFRAME, VA_MAX, ne_eq, Fin.mk.injEq]
  omega

omit alive in
theorem lookup_store_low {k va : Nat} {old pte : Pte} (found : t.lookup va = some old)
    (different : PX 2 (k * PGSIZE) ≠ PX 2 va) :
    (t.store va pte).lookup (k * PGSIZE) = t.lookup (k * PGSIZE) := by
  rw [lookup_store found, if_neg]
  exact fun same => different same.1.symm

omit alive in
/-- The two mappings of `alloc_pagetable`. -/
theorem fresh_of_walked {root trapframe : Frame} {t₁ t₂ : Table} {old₁ old₂ : Pte}
    (first : Walked (zero root) TRAMPOLINE t₁) (found₁ : t₁.lookup TRAMPOLINE = some old₁)
    (second : Walked (t₁.store TRAMPOLINE ⟨true, { r := true, x := true }, trampoline⟩) TRAPFRAME t₂)
    (found₂ : t₂.lookup TRAPFRAME = some old₂) :
    Fresh (t₂.store TRAPFRAME ⟨true, { r := true, w := true }, trapframe⟩) where
  trampoline := by
    refine ⟨⟨true, { r := true, x := true }, trampoline⟩, ?_, rfl, by decide⟩
    rw [lookup_store found₂, if_neg (by decide)]
    apply second.kept
    rw [lookup_store found₁, if_pos ⟨rfl, rfl, rfl⟩]
  trapframe := by
    refine ⟨⟨true, { r := true, w := true }, trapframe⟩, ?_, rfl,
      (by decide : ({ r := true, w := true } : Flags) ≠ {})⟩
    rw [lookup_store found₂, if_pos ⟨rfl, rfl, rfl⟩]
  only := by
    intro va pte found valid
    rw [lookup_store found₂] at found
    split at found
    · next same => exact .inr same
    · have found := second.sub va pte found valid
      rw [lookup_store found₁] at found
      split at found
      · next same => exact .inl same
      · have found := first.sub va pte found valid
        rw [lookup_zero] at found
        cases found
  bare := by
    intro k small
    have different := apart_low small
    rw [lookup_store_low found₂ different.2, second.apart _ fun same => different.2 same.1,
      lookup_store_low found₁ different.1, first.apart _ fun same => different.1 same.1, lookup_zero]

theorem ends_alloc_pagetable {trapframe : Frame} {post : Option Table → State → Prop}
    (failed : free.length < 3 → ∀ free', post none ⟨free', procs, lost⟩)
    (made : 3 ≤ free.length → ∀ t, Fresh t → post (some t) ⟨free.drop 3, procs, lost⟩) :
    ends stuck p (alloc_pagetable trapframe) post ⟨free, procs, lost⟩ := by
  rw [alloc_pagetable, ends_bind]
  cases free with
  | nil => exact ends_kalloc_nil alive (failed (by simp) _)
  | cons root free =>
    refine ends_kalloc_cons alive ?_
    have two : (zero root).missing TRAMPOLINE = 2 := by
      simp [Table.missing, zero, fill]
    simp only [ends_bind]
    refine ends_map_pages alive (by decide) (by decide) (fun pte found => ?_) (fun few t₁ first _ => ?_)
      fun enough t₁ old₁ first found₁ => ?_
    · rw [lookup_zero] at found
      cases found
    · rw [two] at few
      have leafless := leafless_of_sub first.sub (leafless_zero root)
      simp only [ends_bind]
      exact ends_uvm_free_zero (ends_free_walk alive leafless (failed (Nat.succ_lt_succ few)))
    · rw [two] at enough ⊢
      simp only [ends_bind]
      -- The trapframe lies next to the trampoline, so that its nodes exist.
      have there : (t₁.store TRAMPOLINE ⟨true, { r := true, x := true }, trampoline⟩).missing
          TRAPFRAME = 0 := by
        obtain ⟨mid, low, upper, lower, _⟩ := lookup_eq_some.mp found₁
        have top : PX 2 TRAPFRAME = PX 2 TRAMPOLINE := by decide
        have middle : PX 1 TRAPFRAME = PX 1 TRAMPOLINE := by decide
        rw [Table.store_eq upper lower]
        simp [Table.missing, Mid.missing, Node.set, top, middle]
      refine ends_map_pages alive (by decide) (by decide) (fun pte found valid => ?_)
        (fun few => ?_) fun _ t₂ old₂ second found₂ => ?_
      · rw [lookup_store found₁, if_neg (by decide)] at found
        have nothing := first.sub _ pte found valid
        rw [lookup_zero] at nothing
        cases nothing
      · rw [there] at few
        exact absurd few not_lt_zero
      · rw [there]
        exact made (Nat.succ_le_succ enough) _ (fresh_of_walked first found₁ second found₂)

/-- `free_pagetable` without a size panics when a low page is mapped. -/
theorem ends_free_pagetable_leaf {k : Nat} {pte : Pte} (small : k < 2 ^ 25)
    (found : t.lookup (k * PGSIZE) = some pte) (valid : pte.v = true)
    (post : Unit → State → Prop) : ends True p (free_pagetable t 0) post ⟨free, procs, lost⟩ := by
  have kept : ∀ {t' t : Table} {kernel : Nat}, PX 2 (k * PGSIZE) ≠ PX 2 kernel →
      (∀ other, (∀ i < 1, ¬SamePage (kernel + i * PGSIZE) other) → t'.lookup other = t.lookup other) →
      t'.lookup (k * PGSIZE) = t.lookup (k * PGSIZE) := by
    intro t' t kernel different same
    refine same _ fun i below => ?_
    obtain rfl : i = 0 := by omega
    rw [zero_mul, add_zero]
    exact fun page => different page.1.symm
  have different := apart_low small
  simp only [free_pagetable, ends_bind]
  rw [uvm_unmap, if_neg (by decide)]
  refine ends_unmapFrom alive fun t₁ free₁ first => ?_
  rw [uvm_unmap, if_neg (by decide)]
  refine ends_unmapFrom alive fun t₂ free₂ second => ?_
  have there : t₂.lookup (k * PGSIZE) = some pte := by
    rw [kept different.2 second, kept different.1 first, found]
  exact ends_uvm_free_zero (ends_free_walk_leaf there valid post _)

end

end OsCpp.Frames
