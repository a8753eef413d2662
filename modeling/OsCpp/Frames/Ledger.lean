import OsCpp.Frames.Machine
import Mathlib.Algebra.BigOperators.Fin

/-!
# Ledgers of address-space calls

The frames a call holds while it is in progress: those of its page tables and those it has just
allocated.
-/

namespace OsCpp.Frames

open Table (frames frames_store lookup lookup_store lowNode)
open Node (fill total total_set)

/-- Number of pages of an address space. -/
def pages (sz : Nat) : Nat := (sz + PGSIZE - 1) / PGSIZE

theorem PG_ROUND_UP_eq (sz : Nat) : PG_ROUND_UP sz = pages sz * PGSIZE := rfl

/-- Valid entries of a range of pages are for user access. -/
def UserOn (t : Table) (a n : Nat) : Prop :=
  ∀ k < n, ∀ pte, t.lookup (a + k * PGSIZE) = some pte → pte.v = true → pte.flags.u = true

/-- The entry for an address is valid, but not for user access. -/
def KernelAt (t : Table) (va : Nat) : Prop :=
  ∃ pte, t.lookup va = some pte ∧ pte.v = true ∧ pte.flags.u = false

/-- The page table of an address space: only the trampoline and the trapframe are not for user
access. -/
structure Sane (t : Table) (sz : Nat) : Prop where
  trampoline : KernelAt t TRAMPOLINE
  trapframe : KernelAt t TRAPFRAME
  user : UserOn t 0 (pages sz)
  only : ∀ va, KernelAt t va → SamePage TRAMPOLINE va ∨ SamePage TRAPFRAME va

theorem KernelAt.system {t : Table} {va : Nat} (kernel : KernelAt t va) :
    ∀ pte, t.lookup va = some pte → pte.v = true → pte.flags.u = false := by
  obtain ⟨entry, there, _, flags⟩ := kernel
  intro pte found _
  rw [there] at found
  cases found
  exact flags

/-- Every valid entry of the first table is one of the second. -/
def Sub (t' t : Table) : Prop :=
  ∀ va pte, t'.lookup va = some pte → pte.v = true → t.lookup va = some pte

/-- Nodes have been added. -/
structure Grown (t t' : Table) : Prop where
  kept : ∀ va pte, t.lookup va = some pte → t'.lookup va = some pte
  sub : Sub t' t

/-- Entries for user access have been removed. -/
structure Shrunk (t t' : Table) : Prop where
  sub : Sub t' t
  kernel : ∀ va, KernelAt t va → KernelAt t' va

theorem Sub.refl (t : Table) : Sub t t := fun _ _ found _ => found

theorem Sub.trans {t₁ t₂ t₃ : Table} (first : Sub t₁ t₂) (second : Sub t₂ t₃) : Sub t₁ t₃ :=
  fun va pte found valid => second va pte (first va pte found valid) valid

theorem Sub.userOn {t' t : Table} (sub : Sub t' t) {a n : Nat} (user : UserOn t a n) :
    UserOn t' a n := fun k below pte found valid => user k below pte (sub _ pte found valid) valid

theorem Grown.refl (t : Table) : Grown t t := ⟨fun _ _ found => found, Sub.refl t⟩

theorem Grown.trans {t₁ t₂ t₃ : Table} (first : Grown t₁ t₂) (second : Grown t₂ t₃) : Grown t₁ t₃ :=
  ⟨fun va pte found => second.kept va pte (first.kept va pte found), second.sub.trans first.sub⟩

theorem Sub.kernelAt {t' t : Table} (sub : Sub t' t) {va : Nat} (kernel : KernelAt t' va) :
    KernelAt t va := by
  obtain ⟨pte, found, valid, system⟩ := kernel
  exact ⟨pte, sub va pte found valid, valid, system⟩

theorem Grown.kernelAt {t t' : Table} (grown : Grown t t') {va : Nat} (kernel : KernelAt t va) :
    KernelAt t' va := by
  obtain ⟨pte, found, flags⟩ := kernel
  exact ⟨pte, grown.kept va pte found, flags⟩

theorem Shrunk.refl (t : Table) : Shrunk t t := ⟨Sub.refl t, fun _ kernel => kernel⟩

theorem Shrunk.trans {t₁ t₂ t₃ : Table} (first : Shrunk t₁ t₂) (second : Shrunk t₂ t₃) :
    Shrunk t₁ t₃ :=
  ⟨second.sub.trans first.sub, fun va kernel => second.kernel va (first.kernel va kernel)⟩

theorem UserOn.mono {t : Table} {a m n : Nat} (user : UserOn t a n) (less : m ≤ n) : UserOn t a m :=
  fun k below => user k (below.trans_le less)

theorem pages_mono {sz larger : Nat} (less : sz ≤ larger) : pages sz ≤ pages larger := by
  unfold pages
  exact Nat.div_le_div_right (by omega)

theorem pages_mul (n : Nat) : pages (n * PGSIZE) = n := by
  simp only [pages, PGSIZE]
  omega

theorem Sane.mono {t : Table} {sz larger : Nat} (sane : Sane t larger) (less : sz ≤ larger) :
    Sane t sz := { sane with user := sane.user.mono (pages_mono less) }

theorem Grown.sane {t t' : Table} (grown : Grown t t') {sz : Nat} (sane : Sane t sz) : Sane t' sz :=
  ⟨grown.kernelAt sane.trampoline, grown.kernelAt sane.trapframe, grown.sub.userOn sane.user,
    fun va kernel => sane.only va (grown.sub.kernelAt kernel)⟩

theorem Shrunk.sane {t t' : Table} (shrunk : Shrunk t t') {sz : Nat} (sane : Sane t sz) :
    Sane t' sz :=
  ⟨shrunk.kernel _ sane.trampoline, shrunk.kernel _ sane.trapframe, shrunk.sub.userOn sane.user,
    fun va kernel => sane.only va (shrunk.sub.kernelAt kernel)⟩

theorem samePage_lookup {va other : Nat} (same : SamePage va other) (t : Table) :
    t.lookup other = t.lookup va := by
  obtain ⟨top, middle, bottom⟩ := same
  simp only [lookup, lowNode, top, middle, bottom]

section

variable {t : Table} {va : Nat} {old pte : Pte}

theorem sub_store (found : t.lookup va = some old) (invalid : pte.v = false) :
    Sub (t.store va pte) t := by
  intro other entry stored valid
  rw [lookup_store found] at stored
  split at stored
  · cases stored
    simp [invalid] at valid
  · exact stored

theorem kernelAt_store (found : t.lookup va = some old)
    (other : old.v = true → old.flags.u = true) {kernel : Nat} (there : KernelAt t kernel) :
    KernelAt (t.store va pte) kernel := by
  obtain ⟨entry, stored, valid, system⟩ := there
  refine ⟨entry, ?_, valid, system⟩
  rw [lookup_store found, if_neg]
  · exact stored
  · intro same
    rw [samePage_lookup same, found] at stored
    cases stored
    simp [other valid] at system

theorem shrunk_store (found : t.lookup va = some old) (invalid : pte.v = false)
    (other : old.v = true → old.flags.u = true) : Shrunk t (t.store va pte) :=
  ⟨sub_store found invalid, fun _ => kernelAt_store found other⟩

/-- A further page is mapped for user access. -/
theorem Sane.store {n : Nat} (sane : Sane t (n * PGSIZE)) (found : t.lookup (n * PGSIZE) = some old)
    (free : old.v = false) {pte : Pte} (user : pte.flags.u = true) :
    Sane (t.store (n * PGSIZE) pte) ((n + 1) * PGSIZE) where
  trampoline := kernelAt_store found (by simp [free]) sane.trampoline
  trapframe := kernelAt_store found (by simp [free]) sane.trapframe
  user := by
    intro k below entry stored valid
    rw [lookup_store found] at stored
    split at stored
    · cases stored
      exact user
    · next different =>
      refine sane.user k ?_ entry stored valid
      have other : k ≠ n := by
        rintro rfl
        exact different (by simp [SamePage])
      rw [pages_mul] at below ⊢
      omega
  only := by
    rintro va ⟨entry, stored, valid, system⟩
    rw [lookup_store found] at stored
    split at stored
    · cases stored
      simp [user] at system
    · exact sane.only va ⟨entry, stored, valid, system⟩

end

/-! ## The logic -/

/-- Number of page frames of physical memory. -/
def NFRAME : Nat := 32768

/-- What a call in progress holds. -/
structure Ledger where
  held : Multiset Frame := 0
  /-- The entry of `proc_list` that the call fills or clears. -/
  child : Option Slot := none
  /-- The call has taken the page table of its process. -/
  away : Bool := false

namespace Ledger

/-- The ledger of a process outside of calls. -/
def idle : Ledger := {}

/-- The same ledger with other frames. -/
def hold (l : Ledger) (held : Multiset Frame) : Ledger := { l with held := held }

end Ledger

/-- What the operations need from the ledger and do to it. -/
def spec : (op : Op) → (op.Result → Ledger → Prop) → Ledger → Prop
  | .panic _, _, _ => True
  | .test, post, l => ∀ b, post b l
  | .number, post, l => ∀ n, post n l
  | .segment, post, l => ∀ segment, post segment l
  | .kalloc, post, l => l.held.card ≤ NFRAME →
      post none l ∧ ∀ frame, post (some frame) (l.hold ({frame} + l.held))
  | .kfree frame, post, l => ∃ rest, l.held = {frame} + rest ∧ post () (l.hold rest)
  | .lose frame, post, l => ∃ rest, l.held = {frame} + rest ∧ post () (l.hold rest)
  | .trapframe, post, l => ∀ frame, post frame l
  | .takeTable, post, l => l.away = false ∧ ∀ t sz, Sane t sz →
      post (t, sz) { l with held := t.frames + l.held, away := true }
  | .putTable t sz, post, l => l.away = true ∧ Sane t sz ∧
      ∃ rest, l.held = t.frames + rest ∧ post () { l with held := rest, away := false }
  | .allocProc, post, l => l.child = none ∧ post none l ∧ ∀ np, post (some np) { l with child := some np }
  | .freeProc np, post, l => l.child = some np ∧ post () { l with child := none }
  | .spawn np trapframe t sz, post, l => l.child = some np ∧ Sane t sz ∧
      ∃ rest, l.held = {trapframe} + (t.frames + rest) ∧ post () { l with held := rest, child := none }
  | .reap, post, l => l.child = none ∧ post none l ∧ ∀ np trapframe t sz, Sane t sz →
      post (some (np, trapframe, t, sz))
        { l with held := {trapframe} + (t.frames + l.held), child := some np }
  | .die, post, l => l = Ledger.idle ∧ post () Ledger.idle

theorem spec_mono {op : Op} {post weaker : op.Result → Ledger → Prop} {l : Ledger}
    (weaken : ∀ result after, post result after → weaker result after)
    (holds : spec op post l) : spec op weaker l := by
  cases op with
  | panic => trivial
  | test | number | segment | trapframe => exact fun b => weaken _ _ (holds b)
  | kalloc =>
    exact fun bound => ⟨weaken _ _ (holds bound).1, fun frame => weaken _ _ ((holds bound).2 frame)⟩
  | kfree frame | lose frame =>
    obtain ⟨rest, held, after⟩ := holds
    exact ⟨rest, held, weaken _ _ after⟩
  | takeTable => exact ⟨holds.1, fun t sz sane => weaken _ _ (holds.2 t sz sane)⟩
  | putTable t sz =>
    obtain ⟨away, sane, rest, held, after⟩ := holds
    exact ⟨away, sane, rest, held, weaken _ _ after⟩
  | allocProc => exact ⟨holds.1, weaken _ _ holds.2.1, fun np => weaken _ _ (holds.2.2 np)⟩
  | freeProc np | die => exact ⟨holds.1, weaken _ _ holds.2⟩
  | spawn np trapframe t sz =>
    obtain ⟨child, sane, rest, held, after⟩ := holds
    exact ⟨child, sane, rest, held, weaken _ _ after⟩
  | reap =>
    exact ⟨holds.1, weaken _ _ holds.2.1,
      fun np trapframe t sz sane => weaken _ _ (holds.2.2 np trapframe t sz sane)⟩

def logic : Process.Logic Op Op.Result Ledger := ⟨spec, spec_mono⟩

/-- From this ledger the program ends in the postcondition. -/
def wp {α : Type} (prog : Prog α) (post : α → Ledger → Prop) : Ledger → Prop := logic.wp prog post

section

variable {l : Ledger} {m rest : Multiset Frame} {α : Type}

theorem wp_pure (value : α) {post : α → Ledger → Prop} : wp (pure value) post = post value := rfl

theorem wp_bind {β : Type} (prog : Prog β) (next : β → Prog α) {post : α → Ledger → Prop} :
    wp (prog >>= next) post = wp prog fun value => wp (next value) post :=
  funext fun _ => propext (Process.Logic.wp_bind prog next)

variable {post : Unit → Ledger → Prop}

theorem wp_panic {message : String} : wp (act (.panic message)) post l := trivial

theorem wp_panic_bind {message : String} {next : Unit → Prog α} {post : α → Ledger → Prop} :
    wp (act (.panic message) >>= next) post l := by
  rw [wp_bind]
  exact wp_panic

theorem wp_act {op : Op} {post : op.Result → Ledger → Prop} :
    wp (act op) post l ↔ spec op post l := .rfl

theorem wp_kalloc {post : Option Frame → Ledger → Prop} : wp (act .kalloc) post (l.hold m) ↔
    (m.card ≤ NFRAME → post none (l.hold m) ∧ ∀ frame, post (some frame) (l.hold ({frame} + m))) :=
  .rfl

theorem wp_kfree {frame : Frame} (after : post () (l.hold rest)) :
    wp (act (.kfree frame)) post (l.hold ({frame} + rest)) := ⟨rest, rfl, after⟩

theorem wp_lose {frame : Frame} (after : post () (l.hold rest)) :
    wp (act (.lose frame)) post (l.hold ({frame} + rest)) := ⟨rest, rfl, after⟩

theorem wp_allocProc {post : Option Slot → Ledger → Prop} {away : Bool}
    (none : post none ⟨m, .none, away⟩)
    (some : ∀ np, post (some np) (Ledger.hold ⟨0, .some np, away⟩ m)) :
    wp (act .allocProc) post ⟨m, .none, away⟩ := ⟨rfl, none, some⟩

theorem wp_freeProc {np : Slot} {away : Bool} (after : post () ⟨m, none, away⟩) :
    wp (act (.freeProc np)) post (Ledger.hold ⟨0, some np, away⟩ m) := ⟨rfl, after⟩

/-! ### Walks -/

variable {t : Table} {va : Nat}

theorem frames_set_none {mid : Mid} {index : Fin 512} (empty : t.entries index = none) :
    frames (t.set index (some mid)) = t.frames + mid.frames := by
  have exchanged := total_set (below Mid.frames) t index (some mid)
  rw [empty] at exchanged
  simpa [below, frames] using exchanged

theorem frames_set_low {mid : Mid} {index : Fin 512} {low : Low} (empty : mid.entries index = none) :
    Mid.frames (mid.set index (some low)) = mid.frames + low.frames := by
  have exchanged := total_set (below Low.frames) mid index (some low)
  rw [empty] at exchanged
  simpa [below, Mid.frames] using exchanged

theorem frames_set_mid {mid mid' : Mid} {index : Fin 512} {extra : Multiset Frame}
    (old : t.entries index = some mid) (more : mid'.frames = mid.frames + extra) :
    frames (t.set index (some mid')) = t.frames + extra := by
  have exchanged := total_set (below Mid.frames) t index (some mid')
  rw [old] at exchanged
  have same : frames (t.set index (some mid')) + mid.frames =
      (t.frames + extra) + mid.frames := by
    calc frames (t.set index (some mid')) + mid.frames = t.frames + mid'.frames := exchanged
      _ = t.frames + extra + mid.frames := by rw [more]; abel
  exact add_right_cancel same

theorem grown_mid (frame : Frame) (empty : t.entries (PX 2 va) = none) :
    Grown t (t.set (PX 2 va) (some (Mid.zero frame))) := by
  have lookups : ∀ other, lookup (t.set (PX 2 va) (some (Mid.zero frame))) other =
      t.lookup other := by
    intro other
    by_cases top : PX 2 other = PX 2 va
    · simp [lookup, lowNode, Node.set, top, empty, Mid.zero, fill]
    · simp [lookup, lowNode, Node.set, Function.update_of_ne top]
  exact ⟨fun other pte found => by rwa [lookups], fun other pte found _ => by rwa [lookups] at found⟩

theorem grown_low {mid : Mid} (frame : Frame) (upper : t.entries (PX 2 va) = some mid)
    (empty : mid.entries (PX 1 va) = none) :
    Grown t (t.set (PX 2 va) (some (mid.set (PX 1 va) (some (Low.zero frame))))) := by
  have lookups : ∀ other,
      lookup (t.set (PX 2 va) (some (mid.set (PX 1 va) (some (Low.zero frame))))) other =
        if PX 2 other = PX 2 va ∧ PX 1 other = PX 1 va then some {} else t.lookup other := by
    intro other
    by_cases top : PX 2 other = PX 2 va
    · by_cases middle : PX 1 other = PX 1 va
      · simp [lookup, lowNode, Node.set, top, middle, Low.zero, fill]
      · simp [lookup, lowNode, Node.set, top, middle, upper]
    · simp [lookup, lowNode, Node.set, top]
  have absent : ∀ other, PX 2 other = PX 2 va ∧ PX 1 other = PX 1 va → t.lookup other = none := by
    rintro other ⟨top, middle⟩
    simp [lookup, lowNode, top, middle, upper, empty]
  refine ⟨fun other pte found => ?_, fun other pte found valid => ?_⟩
  · rw [lookups, if_neg]
    · exact found
    · intro here
      simp [absent other here] at found
  · rw [lookups] at found
    split at found
    · cases found
      simp at valid
    · exact found

theorem wp_walkMid {mid : Mid} {alloc : Bool} {post : Table × Option Pte → Ledger → Prop}
    (upper : t.entries (PX 2 va) = some mid)
    (after : ∀ t' found, Grown t t' → (∀ pte, found = some pte → t'.lookup va = some pte) →
      post (t', found) (l.hold (t'.frames + rest))) :
    wp (walkMid t mid va alloc) post (l.hold (t.frames + rest)) := by
  rw [walkMid]
  split
  · next low lower =>
    refine after t _ (Grown.refl t) fun pte found => ?_
    rw [← found]
    simp [lookup, lowNode, upper, lower]
  · next empty =>
    split
    · rw [wp_bind, wp_kalloc]
      refine fun _ => ⟨after t none (Grown.refl t) (by simp), fun frame => ?_⟩
      have frames : frames (t.set (PX 2 va)
          (some (mid.set (PX 1 va) (some (Low.zero frame))))) = t.frames + {frame} := by
        refine frames_set_mid upper ?_
        rw [frames_set_low empty, Low.frames_zero]
      have grown := grown_low frame upper empty
      refine (congrArg (fun held => post _ (l.hold held)) ?_).mp (after _ (some {}) grown ?_)
      · rw [frames]
        abel
      · intro pte found
        cases found
        simp [lookup, lowNode, Node.set, Low.zero, fill]
    · exact after t none (Grown.refl t) (by simp)

/-- `walk` adds the nodes it allocates to the table. -/
theorem wp_walk {alloc : Bool} {post : Table × Option Pte → Ledger → Prop}
    (after : ∀ t' found, Grown t t' → (∀ pte, found = some pte → t'.lookup va = some pte) →
      post (t', found) (l.hold (t'.frames + rest))) :
    wp (walk t va alloc) post (l.hold (t.frames + rest)) := by
  rw [walk]
  split
  · exact wp_panic_bind
  · split
    · next mid upper => exact wp_walkMid upper after
    · next empty =>
      split
      · rw [wp_bind, wp_kalloc]
        refine fun _ => ⟨after t none (Grown.refl t) nofun, fun frame => ?_⟩
        have grown := grown_mid frame empty
        have frames : {frame} + (t.frames + rest) =
            frames (t.set (PX 2 va) (some (Mid.zero frame))) + rest := by
          rw [frames_set_none empty, Mid.frames_zero]
          abel
        rw [frames]
        refine wp_walkMid (by simp [Node.set]) fun t' found more => ?_
        exact after t' found (grown.trans more)
      · exact after t none (Grown.refl t) nofun

theorem wp_walk_lookup {post : Table × Option Pte → Ledger → Prop}
    (after : post (t, t.lookup va) l) : wp (walk t va false) post l := by
  rw [walk]
  split
  · exact wp_panic_bind
  · split
    · next mid upper =>
      rw [walkMid]
      split
      · next low lower => simpa [wp_pure, lookup, lowNode, upper, lower] using after
      · next empty => simpa [wp_pure, lookup, lowNode, upper, empty] using after
    · next empty => simpa [wp_pure, lookup, lowNode, empty] using after

/-! ### Mapping and unmapping -/

theorem wp_map_pages {flags : Flags} {pa : Frame} {post : Table × Bool → Ledger → Prop}
    (failed : ∀ t', Grown t t' →
      post (t', false) (l.hold (t'.frames + (Pte.frames ⟨true, flags, pa⟩ + rest))))
    (mapped : ∀ t' old, Grown t t' → t'.lookup va = some old → old.v = false →
      post (t'.store va ⟨true, flags, pa⟩, true)
        (l.hold ((t'.store va ⟨true, flags, pa⟩).frames + rest))) :
    wp (map_pages t va pa 1 flags) post
      (l.hold (t.frames + (Pte.frames ⟨true, flags, pa⟩ + rest))) := by
  rw [map_pages]
  split
  · exact wp_panic_bind
  · simp only [Nat.one_ne_zero, if_false, mapFrom, wp_bind]
    refine wp_walk fun t' found grown entry => ?_
    cases found with
    | none => exact failed t' grown
    | some old =>
      simp only
      split
      · exact wp_panic_bind
      · next free =>
        have stored := entry old rfl
        have frames := frames_store ⟨true, flags, pa⟩ stored
        rw [Pte.frames_invalid (by simpa using free), add_zero] at frames
        rw [← add_assoc, ← frames]
        exact mapped t' old grown stored (by simpa using free)

section

variable {n : Nat} {post : Table → Ledger → Prop} (user : UserOn t va n)
  (after : ∀ t', Shrunk t t' → post t' (l.hold (t'.frames + rest)))
include user after

/-- The loop of `uvm_unmap` frees the pages it finds. -/
theorem wp_unmapFrom : wp (unmapFrom true n t va) post (l.hold (t.frames + rest)) := by
  induction n generalizing t va with
  | zero => exact after t (Shrunk.refl t)
  | succ n ih =>
    have later : UserOn t (va + PGSIZE) n := by
      intro k below pte found
      refine user (k + 1) (by omega) pte ?_
      rwa [Nat.succ_mul, add_comm (k * PGSIZE), ← add_assoc]
    rw [unmapFrom, wp_bind]
    refine wp_walk_lookup ?_
    cases found : t.lookup va with
    | none => exact wp_panic_bind
    | some pte =>
      simp only
      split
      · exact ih later after
      · next valid =>
        have valid : pte.v = true := by simpa using valid
        have mine : pte.flags.u = true := user 0 (by omega) pte (by simpa using found) valid
        split
        · exact wp_panic_bind
        · have frames := frames_store {} found
          have owned : pte.frames = {pte.pa} := by simp [Pte.frames, valid, mine]
          rw [Pte.frames_zero, add_zero, owned, add_comm] at frames
          rw [← frames, add_assoc]
          simp only [if_true, wp_bind]
          have shrunk : Shrunk t (t.store va {}) := shrunk_store found rfl fun _ => mine
          exact wp_kfree (ih (shrunk.sub.userOn later) fun t' more => after t' (shrunk.trans more))

theorem wp_uvm_unmap : wp (uvm_unmap t va n true) post (l.hold (t.frames + rest)) := by
  rw [uvm_unmap]
  split
  · exact wp_panic_bind
  · exact wp_unmapFrom user after

end

/-- Unmapping a page of the kernel frees nothing. -/
theorem wp_uvm_unmap_kernel {post : Table → Ledger → Prop}
    (system : ∀ pte, t.lookup va = some pte → pte.v = true → pte.flags.u = false)
    (after : ∀ t', Sub t' t → post t' (l.hold (t'.frames + rest))) :
    wp (uvm_unmap t va 1 false) post (l.hold (t.frames + rest)) := by
  rw [uvm_unmap]
  split
  · exact wp_panic_bind
  · rw [unmapFrom, wp_bind]
    refine wp_walk_lookup ?_
    cases found : t.lookup va with
    | none => exact wp_panic_bind
    | some pte =>
      simp only [unmapFrom]
      split
      · exact after t (Sub.refl t)
      · next valid =>
        split
        · exact wp_panic_bind
        · have frames := frames_store {} found
          have others : pte.frames = 0 := by
            simp [Pte.frames, system pte found (by simpa using valid)]
          rw [others, Pte.frames_zero, add_zero, add_zero] at frames
          rw [← frames]
          exact after _ (sub_store found rfl)

theorem mem_indices (index : Fin 512) : index ∈ indices := by
  unfold indices
  exact List.mem_finRange index

theorem sum_indices (weight : Fin 512 → Multiset Frame) :
    ∑ index, weight index = (indices.map weight).sum := by
  unfold indices
  exact Fin.sum_univ_def weight

/-- The loop of `free_walk` frees what is below the entries. -/
theorem wp_freeEach {Child : Type} {free : Child → Prog Unit} {weight : Child → Multiset Frame}
    (frees : ∀ {post : Unit → Ledger → Prop} {rest : Multiset Frame} child,
      post () (l.hold rest) → wp (free child) post (l.hold (weight child + rest)))
    (entries : Fin 512 → Option Child) (todo : List (Fin 512)) (after : post () (l.hold rest)) :
    wp (freeEach free entries todo) post
      (l.hold ((todo.map fun index => below weight (entries index)).sum + rest)) := by
  induction todo with
  | nil => simpa [freeEach, wp_pure] using after
  | cons index todo ih =>
    simp only [freeEach, wp_bind, List.map_cons, List.sum_cons, add_assoc]
    cases child : entries index with
    | none => simpa [below, freeChild, wp_pure] using ih
    | some node => exact frees node ih

theorem wp_freeLow (low : Low) (after : post () (l.hold rest)) :
    wp (freeLow low) post (l.hold (low.frames + rest)) := by
  rw [freeLow]
  split
  · exact wp_panic
  · next leafless =>
    have invalid : ∀ index, (low.entries index).v = false := by
      intro index
      by_contra valid
      exact leafless (List.any_eq_true.mpr ⟨index, mem_indices index, by simpa using valid⟩)
    have frames : low.frames = {low.frame} := by
      simp [Low.frames, total, Pte.frames_invalid (invalid _)]
    rw [frames]
    exact wp_kfree after

theorem wp_freeMid (mid : Mid) (after : post () (l.hold rest)) :
    wp (freeMid mid) post (l.hold (mid.frames + rest)) := by
  have frames : mid.frames + rest =
      (indices.map fun index => below Low.frames (mid.entries index)).sum +
        ({mid.frame} + rest) := by
    rw [Mid.frames, total, sum_indices]
    abel
  rw [freeMid, wp_bind, frames]
  exact wp_freeEach wp_freeLow mid.entries _ (wp_kfree after)

theorem wp_free_walk (after : post () (l.hold rest)) :
    wp (free_walk t) post (l.hold (t.frames + rest)) := by
  have frames : t.frames + rest =
      (indices.map fun index => below Mid.frames (t.entries index)).sum + ({t.frame} + rest) := by
    rw [frames, total, sum_indices]
    abel
  rw [free_walk, wp_bind, frames]
  exact wp_freeEach wp_freeMid t.entries _ (wp_kfree after)

theorem wp_uvm_free {sz : Nat} (user : UserOn t 0 (pages sz))
    (after : post () (l.hold rest)) : wp (uvm_free t sz) post (l.hold (t.frames + rest)) := by
  rw [uvm_free]
  split
  · rw [wp_bind, PG_ROUND_UP_eq, Nat.mul_div_cancel _ (by decide)]
    exact wp_uvm_unmap user fun t' _ => wp_free_walk after
  · exact wp_free_walk after

/-- `free_pagetable` gives all frames of an address space back. -/
theorem wp_free_pagetable {sz : Nat} (sane : Sane t sz)
    (after : post () (l.hold rest)) : wp (free_pagetable t sz) post (l.hold (t.frames + rest)) := by
  simp only [free_pagetable, wp_bind]
  refine wp_uvm_unmap_kernel sane.trampoline.system fun t₁ first => ?_
  refine wp_uvm_unmap_kernel (fun pte found valid =>
    sane.trapframe.system pte (first _ pte found valid) valid) fun t₂ second => ?_
  exact wp_uvm_free ((second.trans first).userOn sane.user) after

end

end OsCpp.Frames
