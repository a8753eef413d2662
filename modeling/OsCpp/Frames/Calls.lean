import OsCpp.Frames.Ledger

/-!
# Address-space calls settle their ledgers

`uvm_alloc`, `uvm_dealloc`, `uvm_copy` and `uvm_clear` keep the shape of a page table, and the calls
built from them give back every frame they do not store.
-/

namespace OsCpp.Frames

open Ledger (hold idle)

theorem samePage_mul {a b : Nat} (same : SamePage (a * PGSIZE) (b * PGSIZE)) (small : a < 2 ^ 27)
    (other : b < 2 ^ 27) : a = b := by
  obtain ⟨top, middle, bottom⟩ := same
  simp only [PX, PGSIZE, Fin.mk.injEq] at top middle bottom
  omega

theorem card_total {Entry : Type} (weight : Entry → Multiset Frame) (node : Node Entry) :
    (node.total weight).card = 1 + ∑ index, (weight (node.entries index)).card := by
  simp [Node.total, Multiset.card_sum, add_comm]

theorem one_le_card_low (low : Low) : 1 ≤ low.frames.card := by
  rw [Low.frames, card_total]
  exact Nat.le_add_right 1 _

/-- A node whose entries all point to nodes owns at least as many frames. -/
theorem card_mid_of_full {mid : Mid} (full : ∀ index, (mid.entries index).isSome) :
    512 ≤ mid.frames.card := by
  have each : ∀ index ∈ (Finset.univ : Finset (Fin 512)),
      1 ≤ (below Low.frames (mid.entries index)).card := by
    intro index _
    obtain ⟨low, found⟩ := Option.isSome_iff_exists.mp (full index)
    rw [found]
    exact one_le_card_low low
  have many := Finset.card_nsmul_le_sum _ _ 1 each
  rw [Finset.card_univ, Fintype.card_fin, smul_eq_mul] at many
  rw [Mid.frames, card_total]
  omega

/-- A table with nodes for 128 GiB has more nodes than physical memory has frames. -/
theorem lookup_none_of_card {t : Table} (few : t.frames.card ≤ NFRAME) :
    ∃ k < 2 ^ 25, t.lookup (k * PGSIZE) = none := by
  by_contra covered
  have covered : ∀ k < 2 ^ 25, ∃ pte, t.lookup (k * PGSIZE) = some pte := by
    intro k below
    by_contra missing
    refine covered ⟨k, below, Option.eq_none_iff_forall_ne_some.mpr fun pte found => ?_⟩
    exact missing ⟨pte, found⟩
  have indices : ∀ (i j : Fin 512), i.val < 128 →
      PX 2 ((i.val * 2 ^ 18 + j.val * 2 ^ 9) * PGSIZE) = i ∧
        PX 1 ((i.val * 2 ^ 18 + j.val * 2 ^ 9) * PGSIZE) = j := by
    intro i j small
    simp only [PX, PGSIZE, Fin.ext_iff]
    omega
  have each : ∀ i ∈ Finset.univ.filter fun i : Fin 512 => i.val < 128,
      512 ≤ (below Mid.frames (t.entries i)).card := by
    intro i member
    have small := (Finset.mem_filter.mp member).2
    have nodes : ∀ j : Fin 512, ∃ mid low, t.entries i = some mid ∧ mid.entries j = some low := by
      intro j
      obtain ⟨pte, found⟩ := covered (i.val * 2 ^ 18 + j.val * 2 ^ 9) (by omega)
      obtain ⟨mid, low, upper, lower, _⟩ := Table.lookup_eq_some.mp found
      rw [(indices i j small).1] at upper
      rw [(indices i j small).2] at lower
      exact ⟨mid, low, upper, lower⟩
    obtain ⟨mid, _, upper, _⟩ := nodes i
    rw [upper]
    refine card_mid_of_full fun j => ?_
    obtain ⟨mid', low, upper', lower⟩ := nodes j
    rw [upper] at upper'
    cases upper'
    simp [lower]
  have many := Finset.card_nsmul_le_sum _ _ 512 each
  have part := Finset.sum_le_sum_of_subset (f := fun i => (below Mid.frames (t.entries i)).card)
    (Finset.filter_subset (fun i : Fin 512 => i.val < 128) Finset.univ)
  have size : (Finset.univ.filter fun i : Fin 512 => i.val < 128).card = 128 := by
    rw [Fin.card_filter_val_lt]
    rfl
  rw [size, smul_eq_mul] at many
  rw [Table.frames, card_total] at few
  simp only [NFRAME] at few
  omega

section

variable {l : Ledger} {rest : Multiset Frame} {t : Table}

variable {post : Table × Nat → Ledger → Prop}

theorem wp_uvm_dealloc {oldsz newsz : Nat} (user : UserOn t 0 (pages oldsz))
    (after : ∀ t' sz, Shrunk t t' → sz ≤ oldsz → post (t', sz) (l.hold (t'.frames + rest))) :
    wp (uvm_dealloc t oldsz newsz) post (l.hold (t.frames + rest)) := by
  rw [uvm_dealloc]
  split
  · exact after t oldsz (Shrunk.refl t) le_rfl
  · split
    · next more =>
      rw [wp_bind]
      refine wp_uvm_unmap ?_ fun t' shrunk => after t' newsz shrunk (by omega)
      rw [PG_ROUND_UP_eq, PG_ROUND_UP_eq, ← Nat.sub_mul, Nat.mul_div_cancel _ (by decide)]
      intro k below pte found
      refine user (pages newsz + k) (by omega) pte ?_
      rwa [zero_add, add_mul]
    · exact after t newsz (Shrunk.refl t) (by omega)

theorem Pte.frames_user {flags : Flags} (user : flags.u = true) (pa : Frame) :
    Pte.frames ⟨true, flags, pa⟩ = {pa} := by
  simp [Pte.frames, user]

/-- `uvm_alloc` removes the pages it has mapped when it fails. -/
theorem wp_undo {oldsz j : Nat} (sane : Sane t (j * PGSIZE)) (began : oldsz ≤ j * PGSIZE)
    (after : ∀ t', Sane t' oldsz → post (t', 0) (l.hold (t'.frames + rest))) :
    wp (uvm_dealloc t (j * PGSIZE) oldsz) (fun result => wp (pure (result.1, 0)) post)
      (l.hold (t.frames + rest)) :=
  wp_uvm_dealloc sane.user fun t' _ shrunk _ => after t' ((shrunk.sane sane).mono began)

theorem wp_allocFrom {oldsz newsz n j : Nat} {flags : Flags}
    (user : flags.u = true) (sane : Sane t (j * PGSIZE)) (enough : newsz ≤ (j + n) * PGSIZE)
    (began : oldsz ≤ j * PGSIZE)
    (after : ∀ t' sz, Sane t' (max oldsz sz) → sz = 0 ∨ sz = newsz →
      post (t', sz) (l.hold (t'.frames + rest))) :
    wp (allocFrom oldsz newsz flags n t (j * PGSIZE)) post (l.hold (t.frames + rest)) := by
  have failed : ∀ t', Sane t' oldsz → post (t', 0) (l.hold (t'.frames + rest)) :=
    fun t' sane' => after t' 0 (by rwa [Nat.max_zero]) (.inl rfl)
  induction n generalizing t j with
  | zero => exact after t newsz (sane.mono (max_le began (by simpa using enough))) (.inr rfl)
  | succ n ih =>
    rw [allocFrom, wp_bind, wp_kalloc]
    refine fun _ => ⟨?_, fun mem => ?_⟩
    · simp only [wp_bind]
      exact wp_undo sane began failed
    · rw [wp_bind, add_left_comm, ← Pte.frames_user user mem]
      refine wp_map_pages (fun t' grown => ?_) fun t' old grown found free => ?_
      · simp only [wp_bind]
        rw [Pte.frames_user user mem, add_left_comm]
        exact wp_kfree (wp_undo (grown.sane sane) began failed)
      · have further : Sane (t'.store (j * PGSIZE) ⟨true, flags, mem⟩) ((j + 1) * PGSIZE) :=
          Sane.store (grown.sane sane) found free user
        have next : j * PGSIZE + PGSIZE = (j + 1) * PGSIZE := (Nat.succ_mul j PGSIZE).symm
        have later : oldsz ≤ (j + 1) * PGSIZE := began.trans (Nat.mul_le_mul_right _ (Nat.le_succ j))
        change wp (allocFrom oldsz newsz flags n _ (j * PGSIZE + PGSIZE)) post _
        rw [next]
        have regroup : j + (n + 1) = j + 1 + n := by omega
        rw [regroup] at enough
        exact ih further enough later

theorem pages_round (sz : Nat) : pages (PG_ROUND_UP sz) = pages sz := by
  rw [PG_ROUND_UP_eq, pages_mul]

theorem le_round (sz : Nat) : sz ≤ PG_ROUND_UP sz := by
  simp only [PG_ROUND_UP, PGSIZE]
  omega

theorem Sane.round {sz : Nat} (sane : Sane t sz) : Sane t (PG_ROUND_UP sz) :=
  { sane with user := by rw [pages_round]; exact sane.user }

/-- `uvm_alloc` keeps the old pages, and adds all of the new ones or none. -/
theorem wp_uvm_alloc {oldsz newsz : Nat} {xperm : Flags} (sane : Sane t oldsz)
    (after : ∀ t' sz, Sane t' (max oldsz sz) → sz = 0 ∨ sz = max oldsz newsz →
      post (t', sz) (l.hold (t'.frames + rest))) :
    wp (uvm_alloc t oldsz newsz xperm) post (l.hold (t.frames + rest)) := by
  rw [uvm_alloc]
  split
  · next less => exact after t oldsz (by rwa [max_self]) (.inr (max_eq_left (by omega)).symm)
  · have enough : newsz ≤
        (pages oldsz + (newsz - PG_ROUND_UP oldsz + PGSIZE - 1) / PGSIZE) * PGSIZE := by
      simp only [PG_ROUND_UP, pages, PGSIZE]
      omega
    refine wp_allocFrom (j := pages oldsz) rfl sane.round enough le_rfl fun t' sz sane' result => ?_
    refine after t' sz (sane'.mono (max_le_max (le_round oldsz) le_rfl)) (result.imp_right fun new => ?_)
    rw [new, max_eq_right (by omega)]

theorem small_of_covered {t : Table} {j : Nat} (few : t.frames.card ≤ NFRAME)
    (covered : ∀ k < j, ∃ pte, t.lookup (k * PGSIZE) = some pte) : j < 2 ^ 25 := by
  obtain ⟨missing, below, absent⟩ := lookup_none_of_card few
  by_contra large
  obtain ⟨pte, found⟩ := covered missing (by omega)
  simp [absent] at found

/-- Pages that have been copied can be unmapped again, although at the wrong addresses. -/
theorem userOn_beyond {old new : Table} {j : Nat} (sane : Sane new (j * PGSIZE))
    (covered : ∀ k < j, ∃ pte, old.lookup (k * PGSIZE) = some pte)
    (few : old.frames.card ≤ NFRAME) : UserOn new (j * PGSIZE) j := by
  have small := small_of_covered few covered
  intro k inside pte found valid
  by_contra system
  rw [← add_mul] at found
  have kernel : KernelAt new ((j + k) * PGSIZE) := ⟨pte, found, valid, by simpa using system⟩
  have trampoline : TRAMPOLINE = (2 ^ 26 - 1) * PGSIZE := by decide
  have trapframe : TRAPFRAME = (2 ^ 26 - 2) * PGSIZE := by decide
  rcases sane.only _ kernel with same | same
  · rw [trampoline] at same
    have page := samePage_mul same (by decide) (by omega)
    omega
  · rw [trapframe] at same
    have page := samePage_mul same (by decide) (by omega)
    omega

theorem Sane.skip {old new : Table} {sz j : Nat} {pte : Pte} (sane : Sane new (j * PGSIZE))
    (source : Sane old sz) (found : old.lookup (j * PGSIZE) = some pte) (invalid : pte.v = false) :
    Sane new ((j + 1) * PGSIZE) := by
  have other : ∀ {va}, KernelAt old va → ¬SamePage va (j * PGSIZE) := by
    rintro va ⟨entry, there, valid, _⟩ same
    rw [← samePage_lookup same, found] at there
    cases there
    simp [invalid] at valid
  refine ⟨sane.trampoline, sane.trapframe, ?_, sane.only⟩
  intro k below entry stored valid
  rw [pages_mul] at below
  rcases Nat.lt_succ_iff_lt_or_eq.mp below with before | rfl
  · exact sane.user k (by rwa [pages_mul]) entry stored valid
  · by_contra system
    rw [zero_add] at stored
    have kernel : KernelAt new (k * PGSIZE) := ⟨entry, stored, valid, by simpa using system⟩
    rcases sane.only _ kernel with same | same
    · exact other source.trampoline same
    · exact other source.trapframe same

theorem wp_copyFrom {old new : Table} {sz n j : Nat} {post : Table × Bool → Ledger → Prop}
    (source : Sane old sz) (range : j + n = pages sz)
    (covered : ∀ k < j, ∃ pte, old.lookup (k * PGSIZE) = some pte)
    (sane : Sane new (j * PGSIZE)) (held : rest.card ≤ NFRAME → old.frames.card ≤ NFRAME)
    (copied : ∀ t', Sane t' (pages sz * PGSIZE) → post (t', true) (l.hold (t'.frames + rest)))
    (failed : ∀ t', Sane t' 0 → post (t', false) (l.hold (t'.frames + rest))) :
    wp (copyFrom old n new (j * PGSIZE)) post (l.hold (new.frames + rest)) := by
  induction n generalizing new j with
  | zero =>
    rw [add_zero] at range
    exact copied new (range ▸ sane)
  | succ n ih =>
    rw [copyFrom, wp_bind]
    refine wp_walk_lookup ?_
    cases found : old.lookup (j * PGSIZE) with
    | none => exact wp_panic_bind
    | some pte =>
      have user : pte.v = true → pte.flags.u = true :=
        source.user j (by omega) pte (by rwa [zero_add])
      have covered' : ∀ k < j + 1, ∃ pte, old.lookup (k * PGSIZE) = some pte := by
        intro k below
        rcases Nat.lt_succ_iff_lt_or_eq.mp below with before | rfl
        · exact covered k before
        · exact ⟨pte, found⟩
      have next : j * PGSIZE + PGSIZE = (j + 1) * PGSIZE := (Nat.succ_mul j PGSIZE).symm
      have range' : j + 1 + n = pages sz := by omega
      have undo : ∀ {t' : Table}, Sane t' (j * PGSIZE) → old.frames.card ≤ NFRAME →
          wp (uvm_unmap t' (j * PGSIZE) (j * PGSIZE / PGSIZE) true)
            (fun new => wp (pure (new, false)) post) (l.hold (t'.frames + rest)) := by
        intro t' sane' few
        rw [Nat.mul_div_cancel _ (by decide)]
        exact wp_uvm_unmap (userOn_beyond sane' covered few) fun t'' shrunk =>
          failed t'' ((shrunk.sane sane').mono zero_le)
      simp only
      split
      · next invalid =>
        rw [next]
        exact ih range' covered' (sane.skip source found (by simpa using invalid))
      · next valid =>
        have user := user (by simpa using valid)
        rw [wp_bind, wp_kalloc]
        intro bound
        have few : old.frames.card ≤ NFRAME := by
          rw [Multiset.card_add] at bound
          exact held (by omega)
        refine ⟨?_, fun mem => ?_⟩
        · rw [wp_bind]
          exact undo sane few
        · rw [wp_bind, add_left_comm, ← Pte.frames_user user mem]
          refine wp_map_pages (fun t' grown => ?_) fun t' entry grown there free => ?_
          · simp only [wp_bind]
            rw [Pte.frames_user user mem, add_left_comm]
            exact wp_lose (undo (grown.sane sane) few)
          · have further : Sane (t'.store (j * PGSIZE) ⟨true, pte.flags, mem⟩)
                ((j + 1) * PGSIZE) := Sane.store (grown.sane sane) there free user
            change wp (copyFrom old n _ (j * PGSIZE + PGSIZE)) post _
            rw [next]
            exact ih range' covered' further

/-- `uvm_copy` copies an address space or leaves a part of the pages. -/
theorem wp_uvm_copy {old new : Table} {sz : Nat} {post : Table × Bool → Ledger → Prop}
    (source : Sane old sz) (sane : Sane new 0) (held : rest.card ≤ NFRAME → old.frames.card ≤ NFRAME)
    (copied : ∀ t', Sane t' sz → post (t', true) (l.hold (t'.frames + rest)))
    (failed : ∀ t', Sane t' 0 → post (t', false) (l.hold (t'.frames + rest))) :
    wp (uvm_copy old new sz) post (l.hold (new.frames + rest)) := by
  have start : (0 : Nat) = 0 * PGSIZE := (zero_mul PGSIZE).symm
  rw [uvm_copy, start]
  refine wp_copyFrom (j := 0) source (zero_add _) (fun k below => absurd below not_lt_zero)
    (start ▸ sane) held (fun t' sane' => copied t' (sane'.mono ?_)) failed
  exact le_round sz

theorem wp_uvm_clear {sz k : Nat} {post : Table → Ledger → Prop} (sane : Sane t sz)
    (inside : k < pages sz) (after : ∀ t', Sane t' sz → post t' (l.hold (t'.frames + rest))) :
    wp (uvm_clear t (k * PGSIZE)) post (l.hold (t.frames + rest)) := by
  rw [uvm_clear, wp_bind]
  refine wp_walk_lookup ?_
  cases found : t.lookup (k * PGSIZE) with
  | none => exact wp_panic_bind
  | some pte =>
    have user : pte.v = true → pte.flags.u = true := sane.user k inside pte (by rwa [zero_add])
    have shrunk : Shrunk t (t.store (k * PGSIZE) { pte with v := false }) :=
      shrunk_store found rfl user
    have frames := Table.frames_store { pte with v := false } found
    rw [Pte.frames_invalid (rfl : ({ pte with v := false } : Pte).v = false), add_zero] at frames
    simp only
    split
    · next mapped =>
      have owned : pte.frames = {pte.pa} := by simp [Pte.frames, mapped]
      rw [owned, add_comm] at frames
      rw [← frames, add_assoc]
      exact wp_lose (after _ (shrunk.sane sane))
    · next unmapped =>
      have invalid : pte.v = false := by
        by_contra valid
        have valid : pte.v = true := by simpa using valid
        exact unmapped ⟨valid, user valid⟩
      rw [Pte.frames_invalid invalid, add_zero] at frames
      rw [← frames]
      exact after _ (shrunk.sane sane)

/-- Mapping a page of the kernel takes no frame. -/
theorem wp_map_kernel {va pa : Nat} {flags : Flags} {post : Table × Bool → Ledger → Prop}
    (system : flags.u = false)
    (failed : ∀ t', Grown t t' → post (t', false) (l.hold (t'.frames + rest)))
    (mapped : ∀ t' old, Grown t t' → t'.lookup va = some old → old.v = false →
      post (t'.store va ⟨true, flags, pa⟩, true)
        (l.hold ((t'.store va ⟨true, flags, pa⟩).frames + rest))) :
    wp (map_pages t va pa 1 flags) post (l.hold (t.frames + rest)) := by
  have none : Pte.frames ⟨true, flags, pa⟩ + rest = rest := by simp [Pte.frames, system]
  rw [← none]
  refine wp_map_pages (fun t' grown => ?_) mapped
  rw [none]
  exact failed t' grown

theorem kernelAt_self {va pa : Nat} {old : Pte} {flags : Flags} (found : t.lookup va = some old)
    (system : flags.u = false) : KernelAt (t.store va ⟨true, flags, pa⟩) va := by
  refine ⟨⟨true, flags, pa⟩, ?_, rfl, system⟩
  rw [Table.lookup_store found, if_pos]
  simp [SamePage]

theorem kernelAt_of_store {va other : Nat} {old pte : Pte} (found : t.lookup va = some old)
    (kernel : KernelAt (t.store va pte) other) : SamePage va other ∨ KernelAt t other := by
  obtain ⟨entry, stored, flags⟩ := kernel
  rw [Table.lookup_store found] at stored
  split at stored
  · next same => exact .inl same
  · exact .inr ⟨entry, stored, flags⟩

theorem not_kernelAt_zero (root : Frame) (va : Nat) : ¬KernelAt (Table.zero root) va := by
  rintro ⟨pte, found, _⟩
  simp [Table.lookup, Table.lowNode, Table.zero, Node.fill] at found

theorem userOn_zero (va : Nat) : UserOn t va (pages 0) :=
  fun k below => absurd below (by simp [pages, PGSIZE])

/-- `alloc_pagetable` makes an empty address space. -/
theorem wp_alloc_pagetable {trapframe : Frame} {post : Option Table → Ledger → Prop}
    (failed : post none (l.hold rest))
    (made : ∀ t, Sane t 0 → post (some t) (l.hold (t.frames + rest))) :
    wp (alloc_pagetable trapframe) post (l.hold rest) := by
  rw [alloc_pagetable, wp_bind, wp_kalloc]
  refine fun _ => ⟨failed, fun root => ?_⟩
  rw [wp_bind, ← Table.frames_zero root]
  refine wp_map_kernel rfl (fun t₁ _ => ?_) fun t₁ old₁ first found₁ free₁ => ?_
  · simp only [wp_bind]
    exact wp_uvm_free (userOn_zero 0) failed
  · simp only [wp_bind]
    have there : KernelAt (t₁.store TRAMPOLINE ⟨true, { r := true, x := true }, trampoline⟩)
        TRAMPOLINE := kernelAt_self found₁ rfl
    refine wp_map_kernel rfl (fun t₂ second => ?_) fun t₂ old₂ second found₂ free₂ => ?_
    · simp only [wp_bind]
      exact wp_uvm_unmap_kernel (second.kernelAt there).system fun t₃ _ =>
        wp_uvm_free (userOn_zero 0) failed
    · refine made _ ⟨kernelAt_store found₂ (by simp [free₂]) (second.kernelAt there),
        kernelAt_self found₂ rfl, userOn_zero 0, fun va kernel => ?_⟩
      rcases kernelAt_of_store found₂ kernel with same | older
      · exact .inr same
      · rcases kernelAt_of_store found₁ (second.sub.kernelAt older) with same | none
        · exact .inl same
        · exact absurd (first.sub.kernelAt none) (not_kernelAt_zero root va)

end

section

/-- The call leaves nothing behind. -/
def Settled (prog : Prog Unit) : Prop := wp prog (fun _ l => l = idle) idle

variable {held : Multiset Frame}

theorem wp_takeTable {post : Table × Nat → Ledger → Prop} {child : Option Slot}
    (after : ∀ t sz, Sane t sz → post (t, sz) (hold ⟨0, child, true⟩ (t.frames + held))) :
    wp (act .takeTable) post ⟨held, child, false⟩ := ⟨rfl, after⟩

theorem wp_putTable {post : Unit → Ledger → Prop} {t : Table} {sz : Nat}
    {child : Option Slot} (sane : Sane t sz) (after : post () ⟨held, child, false⟩) :
    wp (act (.putTable t sz)) post (hold ⟨0, child, true⟩ (t.frames + held)) :=
  ⟨rfl, sane, held, rfl, after⟩

theorem settled_grow (n : Int) : Settled (grow n) := by
  rw [Settled, grow, wp_bind]
  refine wp_takeTable fun t sz sane => ?_
  simp only
  split
  · rw [wp_bind]
    refine wp_uvm_alloc sane fun t' newsz sane' _ => wp_putTable (sane'.mono ?_) rfl
    split
    · exact le_max_left sz newsz
    · exact le_max_right sz newsz
  · split
    · rw [wp_bind]
      refine wp_uvm_dealloc sane.user fun t' newsz shrunk less => ?_
      exact wp_putTable ((shrunk.sane sane).mono less) rfl
    · exact wp_putTable sane rfl

theorem wp_free {np : Slot} {trapframe : Frame} {t : Table} {sz : Nat}
    {away : Bool} {post : Unit → Ledger → Prop} (sane : Sane t sz)
    (after : post () ⟨held, none, away⟩) :
    wp (free np trapframe t sz) post
      (hold ⟨0, some np, away⟩ ({trapframe} + (t.frames + held))) := by
  simp only [free, wp_bind]
  exact wp_kfree (wp_free_pagetable sane (wp_freeProc after))

theorem wp_alloc_proc {away : Bool} {post : Option (Slot × Frame × Table) → Ledger → Prop}
    (failed : post none ⟨held, none, away⟩)
    (made : ∀ np trapframe t, Sane t 0 → post (some (np, trapframe, t))
      (hold ⟨0, some np, away⟩ (t.frames + ({trapframe} + held)))) :
    wp alloc_proc post ⟨held, none, away⟩ := by
  rw [alloc_proc, wp_bind]
  refine wp_allocProc wp_panic_bind fun np => ?_
  rw [wp_bind, wp_kalloc]
  refine fun _ => ⟨?_, fun trapframe => ?_⟩
  · rw [wp_bind]
    exact wp_freeProc failed
  · rw [wp_bind]
    refine wp_alloc_pagetable ?_ fun t sane => made np trapframe t sane
    simp only [wp_bind]
    exact wp_kfree (wp_freeProc failed)

theorem wp_fork {post : Bool → Ledger → Prop} (after : ∀ b, post b idle) :
    wp fork post idle := by
  rw [fork, wp_bind]
  refine wp_alloc_proc (after false) fun np trapframe new empty => ?_
  rw [wp_bind]
  refine wp_takeTable fun old sz source => ?_
  have regroup : old.frames + (new.frames + ({trapframe} + 0)) =
      new.frames + (old.frames + {trapframe}) := by
    rw [add_zero]
    abel
  rw [wp_bind, regroup]
  refine wp_uvm_copy source empty (fun bound => ?_) (fun t' sane' => ?_) fun t' sane' => ?_
  · rw [Multiset.card_add] at bound
    omega
  · simp only [wp_bind]
    rw [add_left_comm]
    refine wp_putTable source ?_
    simp only [if_true, wp_bind]
    refine ⟨rfl, sane', 0, ?_, after true⟩
    rw [add_zero, add_comm]
  · simp only [wp_bind]
    rw [add_left_comm]
    refine wp_putTable source ?_
    simp only [Bool.false_eq_true, if_false, wp_bind]
    have last : t'.frames + {trapframe} = {trapframe} + (t'.frames + 0) := by
      rw [add_zero, add_comm]
    rw [last]
    exact wp_free sane' (after false)

theorem settled_wait : Settled wait := by
  rw [Settled, wait, wp_bind]
  exact ⟨rfl, rfl, fun np trapframe t sz sane => wp_free sane rfl⟩

section

variable {l : Ledger} {rest : Multiset Frame} {t : Table}

theorem wp_loadseg {n va : Nat} {post : Bool → Ledger → Prop} (after : ∀ b, post b l) :
    wp (loadseg t n va) post l := by
  induction n generalizing va with
  | zero => exact after true
  | succ n ih =>
    rw [loadseg]
    split
    · rw [wp_bind]
      refine wp_act.mpr fun b => ?_
      cases b with
      | true => exact ih
      | false => exact after false
    · exact wp_panic_bind

variable {post : Option (Table × Nat) → Ledger → Prop}

theorem wp_fail_work {sz : Nat} (sane : Sane t sz)
    (failed : post none (l.hold rest)) : wp (fail_work t sz) post (l.hold (t.frames + rest)) := by
  rw [fail_work, wp_bind]
  exact wp_free_pagetable sane failed

theorem wp_loadAll {n sz : Nat} (sane : Sane t sz) (failed : post none (l.hold rest))
    (loaded : ∀ t' sz', Sane t' sz' → post (some (t', sz')) (l.hold (t'.frames + rest))) :
    wp (loadAll n t sz) post (l.hold (t.frames + rest)) := by
  induction n generalizing t sz with
  | zero => exact loaded t sz sane
  | succ n ih =>
    rw [loadAll, wp_bind, wp_act]
    intro segment
    cases segment with
    | unreadable | malformed => exact wp_fail_work sane failed
    | other => exact ih sane
    | load vaddr filesz memsz perm =>
      simp only [wp_bind]
      refine wp_uvm_alloc sane fun t' sz' sane' _ => ?_
      simp only
      split
      · exact wp_fail_work (sane'.mono (le_max_left sz sz')) failed
      · rw [wp_bind]
        refine wp_loadseg fun b => ?_
        cases b with
        | true => exact ih (sane'.mono (le_max_right sz sz'))
        | false => exact wp_fail_work (sane'.mono (le_max_right sz sz')) failed

theorem wp_buildImage (failed : post none (l.hold rest))
    (built : ∀ t sz, Sane t sz → post (some (t, sz)) (l.hold (t.frames + rest))) :
    wp buildImage post (l.hold rest) := by
  rw [buildImage, wp_bind, wp_act]
  intro readable
  cases readable with
  | false => exact failed
  | true =>
    simp only [if_true, wp_bind]
    refine wp_act.mpr fun trapframe => wp_alloc_pagetable failed fun t empty => ?_
    simp only [wp_bind]
    refine wp_act.mpr fun phnum => wp_loadAll empty failed fun t sz sane => ?_
    simp only [wp_bind]
    refine wp_uvm_alloc sane.round fun t' sz' sane' result => ?_
    simp only
    split
    · exact wp_fail_work (sane'.mono (le_max_left _ _)) failed
    · next grown =>
      have size : sz' = PG_ROUND_UP sz + (USERSTACK + 1) * PGSIZE := by
        rw [result.resolve_left grown, max_eq_right le_self_add]
      have guard : sz' - (USERSTACK + 1) * PGSIZE = pages sz * PGSIZE := by
        rw [size, Nat.add_sub_cancel, PG_ROUND_UP_eq]
      have inside : pages sz < pages sz' := by
        rw [size, PG_ROUND_UP_eq, ← add_mul, pages_mul]
        exact Nat.lt_add_of_pos_right (by decide)
      rw [wp_bind, guard]
      refine wp_uvm_clear (sane'.mono (le_max_right _ _)) inside fun t'' sane'' => ?_
      rw [wp_bind]
      refine wp_act.mpr fun copied => ?_
      cases copied with
      | true => exact built t'' sz' sane''
      | false => exact wp_fail_work sane'' failed

end

theorem settled_exec : Settled exec := by
  rw [Settled, exec, wp_bind]
  change wp buildImage _ (idle.hold 0)
  refine wp_buildImage rfl fun t sz sane => ?_
  simp only [wp_bind]
  change wp (act .takeTable) _ ⟨t.frames + 0, none, false⟩
  refine wp_takeTable fun old oldsz source => ?_
  rw [add_left_comm]
  refine wp_putTable sane ?_
  change wp (free_pagetable old oldsz) _ (idle.hold (old.frames + 0))
  exact wp_free_pagetable source rfl

theorem settled_program (call : Call) : Settled (program call) := by
  cases call with
  | grow n => exact settled_grow n
  | fork =>
    rw [Settled, program, wp_bind]
    exact wp_fork fun _ => rfl
  | exec => exact settled_exec
  | exit => exact ⟨rfl, rfl⟩
  | wait => exact settled_wait

end

end OsCpp.Frames
