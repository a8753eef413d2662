import OsCpp.Frames.Alone

/-!
# Building and discarding an image

The routines `exec` uses on the page table of the new image never panic.
-/

namespace OsCpp.Frames

open Table (lookup_store)

/-- The page table of an image: nodes for its pages, and no other pages than its own and those of
the kernel. -/
structure Image (t : Table) (n : Nat) : Prop where
  trampoline : ∃ pte, t.lookup TRAMPOLINE = some pte ∧ pte.v = true ∧ pte.flags ≠ {}
  trapframe : ∃ pte, t.lookup TRAPFRAME = some pte ∧ pte.v = true ∧ pte.flags ≠ {}
  only : ∀ va pte, t.lookup va = some pte → pte.v = true →
    SamePage TRAMPOLINE va ∨ SamePage TRAPFRAME va ∨ ∃ k < n, SamePage (k * PGSIZE) va
  present : ∀ k < n, ∃ pte, t.lookup (k * PGSIZE) = some pte ∧ (pte.v = true → pte.flags ≠ {})

/-- All pages are mapped for user access. -/
def Full (t : Table) (n : Nat) : Prop :=
  ∀ k < n, ∃ pte, t.lookup (k * PGSIZE) = some pte ∧ pte.v = true ∧ pte.flags.u = true

theorem Fresh.image {t : Table} (fresh : Fresh t) : Image t 0 where
  trampoline := fresh.trampoline
  trapframe := fresh.trapframe
  only va pte found valid := (fresh.only va pte found valid).imp_right .inl
  present _ below := absurd below not_lt_zero

theorem full_zero (t : Table) : Full t 0 := fun _ below => absurd below not_lt_zero

theorem flags_ne_of_user {flags : Flags} (user : flags.u = true) : flags ≠ {} := by
  rintro rfl
  cases user

theorem not_samePage_low {k : Nat} (small : k < 2 ^ 25) :
    ¬SamePage TRAMPOLINE (k * PGSIZE) ∧ ¬SamePage TRAPFRAME (k * PGSIZE) :=
  ⟨fun same => (apart_low small).1 same.1.symm, fun same => (apart_low small).2 same.1.symm⟩

theorem SamePage.symm {va other : Nat} (same : SamePage va other) : SamePage other va :=
  ⟨same.1.symm, same.2.1.symm, same.2.2.symm⟩

section

variable {t t' : Table} {n : Nat}

theorem Grown.image (grown : Grown t t') (image : Image t n) : Image t' n where
  trampoline := by
    obtain ⟨pte, found, flags⟩ := image.trampoline
    exact ⟨pte, grown.kept _ pte found, flags⟩
  trapframe := by
    obtain ⟨pte, found, flags⟩ := image.trapframe
    exact ⟨pte, grown.kept _ pte found, flags⟩
  only va pte found valid := image.only va pte (grown.sub va pte found valid) valid
  present k below := by
    obtain ⟨pte, found, flags⟩ := image.present k below
    exact ⟨pte, grown.kept _ pte found, flags⟩

theorem Grown.full (grown : Grown t t') (full : Full t n) : Full t' n := by
  intro k below
  obtain ⟨pte, found, flags⟩ := full k below
  exact ⟨pte, grown.kept _ pte found, flags⟩

/-- The next page is not mapped yet. -/
theorem Image.free_page (image : Image t n) (small : n < 2 ^ 25) {pte : Pte}
    (found : t.lookup (n * PGSIZE) = some pte) : pte.v = false := by
  by_contra valid
  rcases image.only _ pte found (by simpa using valid) with same | same | ⟨k, below, same⟩
  · exact (not_samePage_low small).1 same
  · exact (not_samePage_low small).2 same
  · have page := samePage_mul same (by omega) (by omega)
    omega

theorem lookup_kernel {k kernel : Nat} {old pte entry : Pte} (there : t.lookup (k * PGSIZE) = some old)
    (different : ¬SamePage kernel (k * PGSIZE)) (found : t.lookup kernel = some entry) :
    (t.store (k * PGSIZE) pte).lookup kernel = some entry := by
  rw [lookup_store there, if_neg fun same => different same.symm]
  exact found

/-- One of the pages gets another entry, or a page is added. -/
theorem Image.store {k m : Nat} {old pte : Pte} (image : Image t n)
    (there : t.lookup (k * PGSIZE) = some old) (small : k < 2 ^ 25) (inside : k < m)
    (more : m = n ∨ m = n + 1 ∧ k = n) (flags : pte.v = true → pte.flags ≠ {}) :
    Image (t.store (k * PGSIZE) pte) m where
  trampoline := by
    obtain ⟨entry, found, kernel⟩ := image.trampoline
    exact ⟨entry, lookup_kernel there (not_samePage_low small).1 found, kernel⟩
  trapframe := by
    obtain ⟨entry, found, kernel⟩ := image.trapframe
    exact ⟨entry, lookup_kernel there (not_samePage_low small).2 found, kernel⟩
  only va entry found valid := by
    rw [lookup_store there] at found
    split at found
    · next same => exact .inr (.inr ⟨k, inside, same⟩)
    · rcases image.only va entry found valid with same | same | ⟨k', below, same⟩
      · exact .inl same
      · exact .inr (.inl same)
      · exact .inr (.inr ⟨k', by omega, same⟩)
  present k' below := by
    rw [lookup_store there]
    split
    · exact ⟨pte, rfl, flags⟩
    · next different =>
      have other : k' ≠ k := by
        rintro rfl
        exact different ⟨rfl, rfl, rfl⟩
      exact image.present k' (by omega)

theorem Full.store {old pte : Pte} (full : Full t n) (there : t.lookup (n * PGSIZE) = some old)
    (valid : pte.v = true) (user : pte.flags.u = true) :
    Full (t.store (n * PGSIZE) pte) (n + 1) := by
  intro k below
  rw [lookup_store there]
  split
  · exact ⟨pte, rfl, valid, user⟩
  · next different =>
    have other : k ≠ n := by
      rintro rfl
      exact different ⟨rfl, rfl, rfl⟩
    exact full k (by omega)

/-- Exactly the pages of a range have been unmapped. -/
structure Unmapped (t : Table) (va n : Nat) (t' : Table) : Prop where
  kept : ∀ other, (∀ i < n, ¬SamePage (va + i * PGSIZE) other) → t'.lookup other = t.lookup other
  removed : ∀ i < n, ∃ pte, t'.lookup (va + i * PGSIZE) = some pte ∧ pte.v = false

theorem Unmapped.before {va : Nat} (unmapped : Unmapped t va n t') {other : Nat} {pte : Pte}
    (found : t'.lookup other = some pte) (valid : pte.v = true) :
    t.lookup other = some pte ∧ ∀ i < n, ¬SamePage (va + i * PGSIZE) other := by
  have apart : ∀ i < n, ¬SamePage (va + i * PGSIZE) other := by
    intro i below same
    obtain ⟨entry, there, invalid⟩ := unmapped.removed i below
    rw [← samePage_lookup same, found] at there
    cases there
    simp [valid] at invalid
  exact ⟨(unmapped.kept other apart) ▸ found, apart⟩

end

section

variable {stuck : Prop} {p : Slot} {free lost : List Frame} {procs : Slot → Entry} {t : Table}
  (alive : (procs p).status = .RUNNABLE)

include alive

/-- The loop of `uvm_unmap`, when it finds all nodes. -/
theorem ends_unmapFrom_present {va n : Nat} {post : Table → State → Prop}
    (bounded : va + n * PGSIZE ≤ VA_MAX)
    (present : ∀ i < n, ∃ pte, t.lookup (va + i * PGSIZE) = some pte ∧ (pte.v = true → pte.flags ≠ {}))
    (after : ∀ t' free', Unmapped t va n t' → post t' ⟨free', procs, lost⟩) :
    ends stuck p (unmapFrom true n t va) post ⟨free, procs, lost⟩ := by
  induction n generalizing t va free with
  | zero => exact after t free ⟨fun _ _ => rfl, fun i below => absurd below not_lt_zero⟩
  | succ n ih =>
    have next : ∀ i, va + PGSIZE + i * PGSIZE = va + (i + 1) * PGSIZE := by
      intro i
      rw [Nat.succ_mul, add_assoc, add_comm PGSIZE]
    have bounded' : va + PGSIZE + n * PGSIZE ≤ VA_MAX := by rwa [next]
    obtain ⟨pte, found, flags⟩ := present 0 (Nat.succ_pos n)
    rw [zero_mul, add_zero] at found
    -- After the first page, the rest of the loop and what it leaves.
    have rest : ∀ {t₁ : Table} {free₁ : List Frame},
        (∀ other, ¬SamePage va other → t₁.lookup other = t.lookup other) →
        (∃ pte, t₁.lookup va = some pte ∧ pte.v = false) →
        ends stuck p (unmapFrom true n t₁ (va + PGSIZE)) post ⟨free₁, procs, lost⟩ := by
      intro t₁ free₁ same gone
      obtain ⟨first, there, invalid⟩ := gone
      refine ih bounded' (fun i below => ?_) fun t' free' unmapped => after t' free' ⟨?_, ?_⟩
      · rw [next]
        by_cases page : SamePage va (va + (i + 1) * PGSIZE)
        · refine ⟨first, ?_, by simp [invalid]⟩
          rw [samePage_lookup page]
          exact there
        · rw [same _ page]
          exact present (i + 1) (by omega)
      · intro other different
        have apart : ¬SamePage va other := by simpa using different 0 (Nat.succ_pos n)
        rw [unmapped.kept other fun i below => ?_, same other apart]
        rw [next]
        exact different (i + 1) (by omega)
      · intro i below
        cases i with
        | succ i =>
          rw [← next]
          exact unmapped.removed i (by omega)
        | zero =>
          rw [zero_mul, add_zero]
          by_cases again : ∃ i < n, SamePage (va + PGSIZE + i * PGSIZE) va
          · obtain ⟨i, below, page⟩ := again
            rw [samePage_lookup page]
            exact unmapped.removed i below
          · refine ⟨first, ?_, invalid⟩
            rw [unmapped.kept va fun i below page => again ⟨i, below, page⟩]
            exact there
    have inside : ¬VA_MAX < va := by
      have part : va ≤ va + (n + 1) * PGSIZE := le_self_add
      omega
    rw [unmapFrom, ends_bind]
    refine ends_walk_lookup (fun large => absurd large inside) ?_
    rw [found]
    simp only
    split
    · next invalid => exact rest (fun _ _ => rfl) ⟨pte, found, by simpa using invalid⟩
    · next valid =>
      rw [if_neg (flags (by simpa using valid)), if_pos trivial, ends_bind]
      refine ends_kfree alive (rest (fun other different => ?_) ⟨{}, ?_, rfl⟩)
      · rw [lookup_store found, if_neg different]
      · rw [lookup_store found, if_pos ⟨rfl, rfl, rfl⟩]

omit alive in
theorem bounded_low {j : Nat} (small : j ≤ 2 ^ 25) : j * PGSIZE ≤ VA_MAX := by
  simp only [PGSIZE, VA_MAX]
  omega

omit alive in
/-- Unmapping the last pages of an image leaves a smaller one. -/
theorem Unmapped.image {t' : Table} {i j : Nat} (unmapped : Unmapped t (i * PGSIZE) (j - i) t')
    (image : Image t j) (small : j < 2 ^ 25) (less : i ≤ j) : Image t' i := by
  have low : ∀ {kernel : Nat}, (∀ k < 2 ^ 25, ¬SamePage kernel (k * PGSIZE)) →
      t'.lookup kernel = t.lookup kernel := by
    intro kernel different
    refine unmapped.kept kernel fun k below same => ?_
    rw [← add_mul] at same
    exact different (i + k) (by omega) same.symm
  refine ⟨?_, ?_, fun va pte found valid => ?_, fun k below => ?_⟩
  · rw [low fun k small => (not_samePage_low small).1]
    exact image.trampoline
  · rw [low fun k small => (not_samePage_low small).2]
    exact image.trapframe
  · obtain ⟨before, apart⟩ := unmapped.before found valid
    rcases image.only va pte before valid with same | same | ⟨k, below, same⟩
    · exact .inl same
    · exact .inr (.inl same)
    · refine .inr (.inr ⟨k, ?_, same⟩)
      by_contra beyond
      refine apart (k - i) (by omega) ?_
      rw [← add_mul, Nat.add_sub_cancel' (by omega)]
      exact same
  · rw [unmapped.kept]
    · exact image.present k (by omega)
    · intro k' inside same
      rw [← add_mul] at same
      have page := samePage_mul same (by omega) (by omega)
      omega

omit alive in
theorem Unmapped.full {t' : Table} {i j : Nat} (unmapped : Unmapped t (i * PGSIZE) (j - i) t')
    (full : Full t j) (small : j < 2 ^ 25) (less : i ≤ j) : Full t' i := by
  intro k below
  rw [unmapped.kept]
  · exact full k (by omega)
  · intro k' inside same
    rw [← add_mul] at same
    have page := samePage_mul same (by omega) (by omega)
    omega

variable {post : Table × Nat → State → Prop}

theorem ends_uvm_dealloc {i j : Nat} (image : Image t j)
    (full : Full t j) (small : j < 2 ^ 25) (less : i ≤ j)
    (after : ∀ t' sz free', Image t' i → Full t' i → post (t', sz) ⟨free', procs, lost⟩) :
    ends stuck p (uvm_dealloc t (j * PGSIZE) (i * PGSIZE)) post ⟨free, procs, lost⟩ := by
  have cancel : ∀ {a b : Nat}, a * PGSIZE ≤ b * PGSIZE → a ≤ b :=
    fun le => Nat.le_of_mul_le_mul_right le (by decide)
  rw [uvm_dealloc]
  split
  · next reached =>
    obtain rfl : i = j := le_antisymm less (cancel reached)
    exact after t _ free image full
  · next more =>
    rw [PG_ROUND_UP_eq, PG_ROUND_UP_eq, pages_mul, pages_mul, if_pos (Nat.not_le.mp more), ends_bind,
      uvm_unmap, if_neg (not_not_intro (Nat.mul_mod_left i PGSIZE)), ← Nat.sub_mul,
      Nat.mul_div_cancel _ (by decide)]
    refine ends_unmapFrom_present alive ?_ (fun k below => ?_) fun t' free' unmapped => ?_
    · rw [← add_mul, Nat.add_sub_cancel' less]
      exact bounded_low small.le
    · rw [← add_mul]
      exact image.present (i + k) (by omega)
    · exact after t' _ free' (unmapped.image image small less) (unmapped.full full small less)

theorem ends_allocFrom {oldsz newsz n i j : Nat} {flags : Flags}
    (user : flags.u = true) (image : Image t j) (full : Full t j) (size : oldsz = i * PGSIZE)
    (began : i ≤ j) (limit : j + free.length < 2 ^ 25)
    (failed : ∀ t' free', Image t' i → Full t' i → post (t', 0) ⟨free', procs, lost⟩)
    (mapped : ∀ t' free', Image t' (j + n) → Full t' (j + n) → j + n + free'.length < 2 ^ 25 →
      post (t', newsz) ⟨free', procs, lost⟩) :
    ends stuck p (allocFrom oldsz newsz flags n t (j * PGSIZE)) post ⟨free, procs, lost⟩ := by
  induction n generalizing t j free with
  | zero => exact mapped t free image full limit
  | succ n ih =>
    have small : j < 2 ^ 25 := by omega
    have undo : ∀ {t' : Table} {free' : List Frame}, Image t' j → Full t' j →
        ends stuck p (uvm_dealloc t' (j * PGSIZE) oldsz)
          (fun result => ends stuck p (pure (result.1, 0)) post) ⟨free', procs, lost⟩ := by
      intro t' free' image' full'
      rw [size]
      exact ends_uvm_dealloc alive image' full' small began fun t'' _ free'' => failed t'' free''
    rw [allocFrom, ends_bind]
    cases free with
    | nil =>
      refine ends_kalloc_nil alive ?_
      simp only [ends_bind]
      exact undo image full
    | cons mem free =>
      refine ends_kalloc_cons alive ?_
      rw [ends_bind]
      refine ends_map_pages alive (Nat.mul_mod_left j PGSIZE) (bounded_low small.le)
        (fun pte found valid => ?_) (fun _ t' walked _ => ?_) fun _ t' old walked there => ?_
      · simp [image.free_page small found] at valid
      · simp only [ends_bind]
        exact ends_kfree alive (undo (walked.toGrown.image image) (walked.toGrown.full full))
      · have image' : Image (t'.store (j * PGSIZE) ⟨true, flags, mem⟩) (j + 1) :=
          (walked.toGrown.image image).store there small (Nat.lt_succ_self j) (.inr ⟨rfl, rfl⟩)
            fun _ => flags_ne_of_user user
        have full' : Full (t'.store (j * PGSIZE) ⟨true, flags, mem⟩) (j + 1) :=
          (walked.toGrown.full full).store there rfl user
        have next : j * PGSIZE + PGSIZE = (j + 1) * PGSIZE := (Nat.succ_mul j PGSIZE).symm
        change ends stuck p (allocFrom oldsz newsz flags n _ (j * PGSIZE + PGSIZE)) post _
        rw [next]
        have regroup : j + (n + 1) = j + 1 + n := by omega
        rw [regroup] at mapped
        refine ih image' full' (by omega) ?_ mapped
        rw [List.length_cons] at limit
        rw [List.length_drop]
        omega

theorem ends_uvm_alloc {oldsz newsz : Nat} {xperm : Flags}
    (image : Image t (pages oldsz)) (full : Full t (pages oldsz))
    (limit : pages oldsz + free.length < 2 ^ 25)
    (failed : ∀ t' free', Image t' (pages oldsz) → Full t' (pages oldsz) →
      post (t', 0) ⟨free', procs, lost⟩)
    (mapped : ∀ t' sz free', sz = max oldsz newsz → Image t' (pages sz) → Full t' (pages sz) →
      pages sz + free'.length < 2 ^ 25 → post (t', sz) ⟨free', procs, lost⟩) :
    ends stuck p (uvm_alloc t oldsz newsz xperm) post ⟨free, procs, lost⟩ := by
  rw [uvm_alloc]
  split
  · next less => exact mapped t oldsz free (max_eq_left less.le).symm image full limit
  · next more =>
    have count : pages oldsz + (newsz - PG_ROUND_UP oldsz + PGSIZE - 1) / PGSIZE = pages newsz := by
      simp only [PG_ROUND_UP, pages, PGSIZE]
      omega
    refine ends_allocFrom (j := pages oldsz) alive rfl image full rfl le_rfl limit failed ?_
    rw [count]
    exact fun t' free' => mapped t' newsz free' (max_eq_right (Nat.not_lt.mp more)).symm

theorem ends_uvm_clear {n k : Nat} {post : Table → State → Prop} (image : Image t n) (full : Full t n)
    (inside : k < n) (small : k < 2 ^ 25)
    (after : ∀ t' frame, Image t' n → post t' ⟨free, procs, lost ++ [frame]⟩) :
    ends stuck p (uvm_clear t (k * PGSIZE)) post ⟨free, procs, lost⟩ := by
  obtain ⟨pte, found, valid, user⟩ := full k inside
  rw [uvm_clear, ends_bind]
  refine ends_walk_lookup (fun large => absurd (bounded_low small.le) (Nat.not_le.mpr large)) ?_
  rw [found]
  simp only [valid, user, and_self, if_true, ends_bind]
  exact ends_lose alive (after _ pte.pa (image.store found small inside (.inl rfl) (by simp)))

theorem ends_free_image {sz : Nat} {post : Unit → State → Prop} (image : Image t (pages sz))
    (small : pages sz < 2 ^ 25) (after : ∀ free', post () ⟨free', procs, lost⟩) :
    ends stuck p (free_pagetable t sz) post ⟨free, procs, lost⟩ := by
  obtain ⟨first, found₁, valid₁, leaf₁⟩ := image.trampoline
  obtain ⟨second, found₂, valid₂, leaf₂⟩ := image.trapframe
  have still : (t.store TRAMPOLINE {}).lookup TRAPFRAME = some second := by
    rw [lookup_store found₁, if_neg (by decide)]
    exact found₂
  have lookups : ∀ other, ((t.store TRAMPOLINE {}).store TRAPFRAME {}).lookup other =
      if SamePage TRAPFRAME other then some {} else
        if SamePage TRAMPOLINE other then some {} else t.lookup other := by
    intro other
    rw [lookup_store still, lookup_store found₁]
  -- The entries that are left are those of the pages of the image.
  have left : ∀ {other pte}, ((t.store TRAMPOLINE {}).store TRAPFRAME {}).lookup other = some pte →
      pte.v = true → ∃ k < pages sz, SamePage (k * PGSIZE) other := by
    intro other pte found valid
    rw [lookups] at found
    split at found
    · cases found
      cases valid
    · next apart₂ =>
      split at found
      · cases found
        cases valid
      · next apart₁ =>
        rcases image.only other pte found valid with same | same | page
        · exact absurd same apart₁
        · exact absurd same apart₂
        · exact page
  simp only [free_pagetable, ends_bind]
  refine ends_uvm_unmap_kernel (by decide) (by decide) found₁ valid₁ leaf₁ ?_
  refine ends_uvm_unmap_kernel (by decide) (by decide) still valid₂ leaf₂ ?_
  rw [uvm_free]
  split
  · rw [ends_bind, uvm_unmap, if_neg (not_not_intro (Nat.zero_mod PGSIZE)), PG_ROUND_UP_eq,
      Nat.mul_div_cancel _ (by decide)]
    refine ends_unmapFrom_present alive ?_ (fun k below => ?_) fun t' free' unmapped => ?_
    · rw [zero_add]
      exact bounded_low small.le
    · have low := not_samePage_low (below.trans small)
      rw [zero_add, lookups, if_neg low.2, if_neg low.1]
      exact image.present k below
    · refine ends_free_walk alive (fun va pte found => ?_) after
      by_contra valid
      obtain ⟨before, apart⟩ := unmapped.before found (by simpa using valid)
      obtain ⟨k, below, same⟩ := left before (by simpa using valid)
      exact apart k below (by rwa [zero_add])
  · next empty =>
    have none : pages sz = 0 := by
      have zero : sz = 0 := by omega
      rw [zero]
      decide
    refine ends_free_walk alive (fun va pte found => ?_) after
    by_contra valid
    obtain ⟨k, below, _⟩ := left found (by simpa using valid)
    omega

end

end OsCpp.Frames
