import OsCpp.Fs.Bitmap

/-!
# Truncating a file

`itrunc` frees the blocks in the slots of an inode, but not those that the indirect block names.
-/

namespace OsCpp.Fs

open Function (update update_apply update_of_ne update_self)

open Program

/-- The blocks in some slots of an inode. -/
def slotBlocks (node : Dinode) (slots : List (Fin (NDIRECT + 1))) : List Nat :=
  (slots.filter fun slot => node.addrs slot ≠ 0).map fun slot => (node.addrs slot).toNat

/-- The blocks named by the indirect block. -/
def Kernel.entries (s : Kernel) (node : Dinode) : List Nat :=
  if node.addrs indirectSlot = 0 then []
  else ((List.range NINDIRECT).map fun j =>
    (s.blocks (node.addrs indirectSlot).toNat).field 4 (4 * j)).filter (· ≠ 0)

theorem slotBlocks_update {node : Dinode} {slot : Fin (NDIRECT + 1)}
    {slots : List (Fin (NDIRECT + 1))} (absent : slot ∉ slots) :
    slotBlocks { node with addrs := update node.addrs slot 0 } slots = slotBlocks node slots := by
  have same : ∀ other ∈ slots, update node.addrs slot 0 other = node.addrs other :=
    fun other member => update_of_ne (ne_of_mem_of_not_mem member absent) ..
  have filtered : (slots.filter fun other => update node.addrs slot 0 other ≠ 0) =
      slots.filter fun other => node.addrs other ≠ 0 :=
    List.filter_congr fun other member => by simp only [same other member]
  rw [slotBlocks, filtered]
  exact List.map_congr_left fun other member => by
    simp only [same other (List.mem_of_mem_filter member)]

/-- All slots in the order of `itrunc`. -/
def allSlots : List (Fin (NDIRECT + 1)) := directSlots ++ [indirectSlot]

/-- Are the tested bits set, when the blocks are freed one after another? -/
def passes (used : Nat → Bool) : List Nat → Bool
  | [] => true
  | b :: bs => used (tested b) && passes (update used b false) bs

/-- The blocks of some slots have been freed. -/
structure Freed (ip : Fin NINODE) (slots : List (Fin (NDIRECT + 1))) (n : Nat) (s s' : Kernel) :
    Prop where
  ready : Ready n s'
  sb : s'.sb = s.sb
  used : ∀ c, s'.used c = (s.used c && decide (c ∉ slotBlocks (s.itable ip).node slots))
  blocks : ∀ b, (∀ c ∈ slotBlocks (s.itable ip).node slots, b ≠ BBLOCK c s.sb) →
    s'.blocks b = s.blocks b
  entry : s'.itable ip = { s.itable ip with node := { (s.itable ip).node with
    addrs := fun slot => if slot ∈ slots then 0 else (s.itable ip).node.addrs slot } }

theorem Ready.keep {s : Kernel} {n : Nat} (ready : Ready n s) (itable : Fin NINODE → Inode)
    (trace : List Event) : Ready n { s with itable, trace } :=
  { ready with }

theorem used_congr {s s' : Kernel} (sb : s'.sb = s.sb) (blocks : s'.blocks = s.blocks) :
    s'.used = s.used := by
  funext b
  rw [Kernel.used, Kernel.used, sb, blocks]

section

variable {ip : Fin NINODE} {s : Kernel} {n : Nat} {post : Unit → Kernel → Prop}
  {halt : Stop → Kernel → Prop}

/-- The loop over the slots frees their blocks, if the tests pass. -/
theorem wp_freeDirect {slots : List (Fin (NDIRECT + 1))} (nodup : slots.Nodup)
    (ready : Ready (slots.length + n) s)
    (good : passes s.used (slotBlocks (s.itable ip).node slots) = true →
      ∀ s', Freed ip slots n s s' → post () s')
    (bad : passes s.used (slotBlocks (s.itable ip).node slots) = false → ∀ stop s', halt stop s') :
    wp (freeDirect ip slots) post halt s := by
  induction slots generalizing s with
  | nil =>
    refine good rfl s ⟨by simpa using ready, rfl, ?_, fun _ _ => rfl, ?_⟩ <;> simp [slotBlocks]
  | cons slot slots ih =>
    obtain ⟨absent, nodup⟩ := List.nodup_cons.mp nodup
    rw [List.length_cons, add_right_comm] at ready
    simp only [freeDirect, inode, wp_bind, wp_get, wp_pure, wp_ite, wp_bfree ready]
    refine ⟨fun used => ?_, fun unused => ?_⟩
    · have first : slotBlocks (s.itable ip).node (slot :: slots) =
          ((s.itable ip).node.addrs slot).toNat :: slotBlocks (s.itable ip).node slots := by
        simp [slotBlocks, used]
      generalize ((s.itable ip).node.addrs slot).toNat = b at first ⊢
      rw [first, passes] at good bad
      split
      · next passed =>
        let next : Kernel := { s.freed b with
          itable := update s.itable ip { s.itable ip with
            node := { (s.itable ip).node with
              addrs := update (s.itable ip).node.addrs slot 0 } } }
        have cleared : next.used = update s.used b false :=
          (used_congr (s := s.freed b) rfl rfl).trans used_freed
        have rest : slotBlocks (next.itable ip).node slots =
            slotBlocks (s.itable ip).node slots := by
          simp only [next, update_self, slotBlocks_update absent]
        change wp (freeDirect ip slots) post halt next
        rw [passed, Bool.true_and] at good bad
        refine ih nodup ((ready.logged _ _).keep _ _) ?_ ?_
        · rw [cleared, rest]
          intro rest_passes s' freed
          refine good rest_passes s' ⟨freed.ready, freed.sb, fun c => ?_, fun b' other => ?_, ?_⟩
          · rw [freed.used, cleared, rest, first, update_apply]
            by_cases equal : c = b <;> simp [equal]
          · rw [first] at other
            rw [freed.blocks b' (by rw [rest]; exact fun c member => other c (.tail b member))]
            exact update_of_ne (other b (.head _)) ..
          · rw [freed.entry]
            simp only [next, update_self, update_apply]
            congr
            funext other
            by_cases equal : other = slot <;> simp [equal]
        · rwa [cleared, rest]
      · next failed =>
        exact bad (by simp [failed]) _ _
    · have none : slotBlocks (s.itable ip).node (slot :: slots) =
          slotBlocks (s.itable ip).node slots := by
        simp [slotBlocks, unused]
      rw [none] at good bad
      refine ih nodup (ready.mono (Nat.le_succ _)) (fun passed s' freed => ?_) bad
      refine good passed s' ⟨freed.ready, freed.sb, ?_, ?_, ?_⟩
      · rw [none]
        exact freed.used
      · rw [none]
        exact freed.blocks
      · have same : (fun other => if other ∈ slot :: slots then 0 else
            (s.itable ip).node.addrs other) =
              fun other => if other ∈ slots then 0 else (s.itable ip).node.addrs other := by
          funext other
          by_cases equal : other = slot
          · simp [equal, not_not.mp unused]
          · simp [equal]
        rw [freed.entry, same]

theorem freeDirect_append (first rest : List (Fin (NDIRECT + 1))) :
    freeDirect ip (first ++ rest) = (do freeDirect ip first; freeDirect ip rest) := by
  induction first with
  | nil => simp [freeDirect]
  | cons slot first ih =>
    simp only [List.cons_append, freeDirect, ih, bind_assoc]
    congr
    funext entry
    split <;> simp only [bind_assoc]

theorem freeIndirect_none {addr : Nat} {block : Block} {js : List Nat}
    (unused : ∀ j ∈ js, block.field 4 (4 * j) = 0) : freeIndirect addr block js = pure () := by
  induction js with
  | nil => rfl
  | cons j js ih =>
    rw [freeIndirect, if_neg (by simp [unused j]), ih fun j' member => unused j' (.tail j member)]

theorem wp_iupdate (ready : Ready (n + 1) s) : wp (iupdate ip) post halt s ↔
    post () (s.logged (IBLOCK (s.itable ip).inum s.sb)
      (Format.setDinode (s.blocks (IBLOCK (s.itable ip).inum s.sb)) ((s.itable ip).inum % IPB)
        (s.itable ip).node)) := by
  rw [iupdate, wp_bind, wp_get, wp_bind, wp_bread ready, bufData, wp_bind, wp_bind, wp_get, wp_pure,
    wp_update_last ready]

end

def Kernel.fileBlocks (s : Kernel) (node : Dinode) : List Nat :=
  slotBlocks node allSlots ++ s.entries node

/-- The file has its blocks to itself: used, different from each other and outside the bitmap. -/
structure Owned (s : Kernel) (ip : Fin NINODE) : Prop where
  nodup : (s.fileBlocks (s.itable ip).node).Nodup
  used : ∀ b ∈ s.fileBlocks (s.itable ip).node, b < s.sb.size ∧ s.used b = true
  apart : ∀ b ∈ s.fileBlocks (s.itable ip).node, ∀ c < s.sb.size, b ≠ BBLOCK c s.sb
  inode : ∀ c < s.sb.size, IBLOCK (s.itable ip).inum s.sb ≠ BBLOCK c s.sb

/-- The inode of an empty file. -/
def emptied (node : Dinode) : Dinode := { node with size := 0, addrs := fun _ => 0 }

/-- The blocks of the file are free, all others as before, and the inode is empty in memory and on
disk. -/
structure Truncated (s : Kernel) (ip : Fin NINODE) (s' : Kernel) : Prop where
  used : ∀ c < s.sb.size, s'.used c = (s.used c && decide (c ∉ s.fileBlocks (s.itable ip).node))
  memory : (s'.itable ip).node = emptied (s.itable ip).node
  disk : Format.dinode (s'.blocks (IBLOCK (s.itable ip).inum s.sb)) ((s.itable ip).inum % IPB) =
    emptied (s.itable ip).node

/-- `itrunc` returns and truncates the file. -/
def TruncatesExactly (s : Kernel) (ip : Fin NINODE) : Prop :=
  wp (itrunc ip) (fun _ => Truncated s ip) (fun _ _ => False) s

/-- The end of `itrunc`. -/
def emptyInode (ip : Fin NINODE) : Prog Unit := do
  let entry ← inode ip
  setNode ip { entry.node with size := 0 }
  iupdate ip

/-- If the indirect block names no block, it is freed like the others. -/
theorem wp_itrunc_of_wp {s : Kernel} {ip : Fin NINODE} {post : Unit → Kernel → Prop}
    {halt : Stop → Kernel → Prop} (ready : Ready 14 s) (owned : Owned s ip)
    (unused : s.entries (s.itable ip).node = [])
    (frees : ∀ trace, wp (freeDirect ip allSlots) (fun _ => wp (emptyInode ip) post halt) halt
      { s with trace }) : wp (itrunc ip) post halt s := by
  have direct (trace : List Event) : wp (freeDirect ip directSlots)
      (fun _ => Freed ip directSlots 2 { s with trace }) (fun _ _ => True) { s with trace } :=
    wp_freeDirect (by decide) (ready.keep _ _) (fun _ _ freed => freed) fun _ _ _ => trivial
  simp only [allSlots, freeDirect_append, wp_bind] at frees
  rw [itrunc, wp_bind, inode, wp_bind, wp_get, wp_pure, wp_bind, note, wp_modify, wp_bind]
  refine wp_mono (wp_and (direct _) (frees _)) ?_ fun _ _ stops => stops.2
  rintro _ s₁ ⟨freed, rest⟩
  have last : indirectSlot ∉ directSlots := by decide
  have addr : (s₁.itable ip).node.addrs indirectSlot = (s.itable ip).node.addrs indirectSlot := by
    rw [freed.entry]
    simp only [if_neg last]
  simp only [freeDirect, inode, wp_bind, wp_get, wp_pure, wp_ite, addr] at rest ⊢
  refine ⟨fun used => ?_, rest.2⟩
  have rest := rest.1 used
  have within : ∀ b ∈ slotBlocks (s.itable ip).node directSlots,
      b ∈ s.fileBlocks (s.itable ip).node := by
    intro b member
    rw [Kernel.fileBlocks, slotBlocks, allSlots, List.filter_append, List.map_append]
    exact List.mem_append_left _ (List.mem_append_left _ member)
  have indirect : ((s.itable ip).node.addrs indirectSlot).toNat ∈
      s.fileBlocks (s.itable ip).node := by
    refine List.mem_append_left _ (List.mem_map.mpr ⟨indirectSlot, List.mem_filter.mpr ?_, rfl⟩)
    exact ⟨by decide, by simpa using used⟩
  have same := freed.blocks ((s.itable ip).node.addrs indirectSlot).toNat fun c member =>
    owned.apart _ indirect c (owned.used c (within c member)).1
  have none : ∀ j ∈ List.range NDIRECT,
      (s₁.blocks ((s.itable ip).node.addrs indirectSlot).toNat).field 4 (4 * j) = 0 := by
    intro j member
    rw [Kernel.entries, if_neg used, List.filter_eq_nil_iff] at unused
    rw [same]
    simpa using unused _ (List.mem_map_of_mem (List.mem_range.mpr ((List.mem_range.mp member).trans
      (by decide))))
  rw [wp_bread freed.ready, bufData, wp_bind, wp_bind, wp_get, wp_pure, freeIndirect_none none, wp_bind,
    wp_pure, wp_bind, wp_brelse freed.ready, wp_bind]
  rw [wp_bfree freed.ready] at rest ⊢
  split
  · next passed =>
    rw [if_pos passed] at rest
    simpa [emptyInode, setNode, inode] using rest
  · next failed => rwa [if_neg failed] at rest

theorem wp_itrunc {s : Kernel} {ip : Fin NINODE} {post : Unit → Kernel → Prop}
    {halt : Stop → Kernel → Prop} (ready : Ready 14 s) (owned : Owned s ip)
    (unused : s.entries (s.itable ip).node = [])
    (good : passes s.used (slotBlocks (s.itable ip).node allSlots) = true →
      ∀ s', Truncated s ip s' → post () s')
    (bad : passes s.used (slotBlocks (s.itable ip).node allSlots) = false →
      ∀ stop s', halt stop s') : wp (itrunc ip) post halt s := by
  refine wp_itrunc_of_wp ready owned unused fun trace => ?_
  have before : { s with trace }.used = s.used := used_congr rfl rfl
  refine wp_freeDirect (n := 1) (by decide) (ready.keep _ _) (fun passed s₂ freed => ?_) (by rwa [before])
  have all : ∀ slot : Fin (NDIRECT + 1), slot ∈ allSlots := by decide
  simp only [emptyInode, inode, setNode, wp_bind, wp_get, wp_pure, wp_modify]
  refine (wp_iupdate (freed.ready.keep _ _)).mpr ?_

  simp only [update_self, freed.entry, freed.sb, all, if_true]
  rw [before] at passed
  refine good passed _ ⟨fun c low => ?_, ?_, ?_⟩
  · rw [used_logged, if_neg (owned.inode c low).symm]
    refine Eq.trans ?_ ((freed.used c).trans ?_)
    · simp only [Kernel.used, freed.sb]
    · rw [before, Kernel.fileBlocks, unused, List.append_nil]
  · simp [Kernel.logged, emptied]
  · simp [Kernel.logged, emptied, Format.dinode_setDinode _ (Nat.mod_lt _ (by decide : 0 < IPB))]

/-! ## What `itrunc` never frees -/

/-- A block has kept its bit, and the slots have kept their blocks or are empty. -/
structure Kept (ip : Fin NINODE) (b : Nat) (s s' : Kernel) : Prop where
  used : s'.used b = s.used b
  sb : s'.sb = s.sb
  inum : (s'.itable ip).inum = (s.itable ip).inum
  addrs : ∀ slot, (s'.itable ip).node.addrs slot = (s.itable ip).node.addrs slot ∨
    (s'.itable ip).node.addrs slot = 0

section

variable {ip : Fin NINODE} {b : Nat} {s s' : Kernel}

section

variable (kept : Kept ip b s s')
include kept

theorem Kept.congr {s'' : Kernel} (sb : s''.sb = s'.sb)
    (blocks : s''.blocks = s'.blocks) (itable : s''.itable = s'.itable) : Kept ip b s s'' := by
  refine ⟨?_, sb.trans kept.sb, ?_, fun slot => ?_⟩
  · rw [used_congr sb blocks, kept.used]
  · rw [itable, kept.inum]
  · rw [itable]
    exact kept.addrs slot

theorem Kept.ne (outside : b ∉ slotBlocks (s.itable ip).node allSlots)
    {slot : Fin (NDIRECT + 1)} (used : (s'.itable ip).node.addrs slot ≠ 0) :
    ((s'.itable ip).node.addrs slot).toNat ≠ b := by
  have all : ∀ slot : Fin (NDIRECT + 1), slot ∈ allSlots := by decide
  rcases kept.addrs slot with same | empty
  · rintro rfl
    rw [same] at used outside
    exact outside (List.mem_map_of_mem (List.mem_filter.mpr ⟨all slot, by simpa using used⟩))
  · exact absurd empty used

theorem Kept.bread (c : Nat) : wp (bread c) (fun _ => Kept ip b s) (fun _ _ => True) s' := by
  simp only [Fs.bread, check, wp_bind, wp_get, wp_ite, wp_pure, wp_throw, wp_set, implies_true,
    and_true]
  exact fun _ _ => kept.congr rfl rfl rfl

theorem Kept.brelse (c : Nat) : wp (brelse c) (fun _ => Kept ip b s) (fun _ _ => True) s' := by
  simp only [Fs.brelse, check, wp_bind, wp_get, wp_ite, wp_pure, wp_throw, wp_set, implies_true,
    and_true]
  exact fun _ => kept.congr rfl rfl rfl

theorem Kept.bfree {c : Nat} (other : c ≠ b) :
    wp (bfree c) (fun _ => Kept ip b s) (fun _ _ => True) s' := by
  have freed : Kept ip b s (s'.freed c) :=
    { kept with used := by rw [used_freed, update_of_ne other.symm, kept.used] }
  simp only [Fs.bfree, Fs.bread, Fs.brelse, bufData, setData, lwrite, check, wp_bind, wp_get, wp_ite,
    wp_pure, wp_throw, wp_modify, wp_set, implies_true, and_true]
  intros
  exact freed.congr rfl rfl rfl

theorem Kept.setNode (node : Dinode)
    (addrs : ∀ slot, node.addrs slot = (s.itable ip).node.addrs slot ∨ node.addrs slot = 0) :
    Kept ip b s { s' with
      itable := update s'.itable ip { s'.itable ip with node } } := by
  refine ⟨?_, kept.sb, by simpa using kept.inum, fun slot => by simpa using addrs slot⟩
  exact (congrFun (used_congr (s := s') rfl rfl) b).trans kept.used

theorem Kept.clear (slot other : Fin (NDIRECT + 1)) :
    update (s'.itable ip).node.addrs slot 0 other = (s.itable ip).node.addrs other ∨
      update (s'.itable ip).node.addrs slot 0 other = 0 := by
  rw [update_apply]
  split
  · exact .inr rfl
  · exact kept.addrs other

theorem Kept.freeDirect (outside : b ∉ slotBlocks (s.itable ip).node allSlots) (slots : List (Fin (NDIRECT + 1))) :
    wp (freeDirect ip slots) (fun _ => Kept ip b s) (fun _ _ => True) s' := by
  induction slots generalizing s' with
  | nil => exact kept
  | cons slot slots ih =>
    simp only [Fs.freeDirect, inode, Fs.setNode, wp_bind, wp_get, wp_pure, wp_ite]
    refine ⟨fun used => ?_, fun _ => ih kept⟩
    refine wp_mono (kept.bfree (kept.ne outside used)) (fun _ s₁ kept₁ => ?_) fun _ _ _ => trivial
    exact ih (kept₁.setNode _ (kept.clear slot))

theorem Kept.freeIndirect {addr : Nat} (other : addr ≠ b) (block : Block)
    (js : List Nat) : wp (freeIndirect addr block js) (fun _ => Kept ip b s) (fun _ _ => True) s' := by
  induction js generalizing s' with
  | nil => exact kept
  | cons j js ih =>
    simp only [Fs.freeIndirect, wp_ite, wp_bind]
    exact ⟨fun _ => wp_mono (kept.bfree other) (fun _ _ => ih) fun _ _ _ => trivial,
      fun _ => ih kept⟩

theorem Kept.iupdate (apart : IBLOCK (s.itable ip).inum s.sb ≠ BBLOCK b s.sb) :
    wp (iupdate ip) (fun _ => Kept ip b s) (fun _ _ => True) s' := by
  have logged (block : Block) : Kept ip b s (s'.logged (IBLOCK (s'.itable ip).inum s'.sb) block) := by
    refine { kept with used := ?_ }
    rw [used_logged, kept.sb, kept.inum, if_neg apart.symm, kept.used]
  simp only [Fs.iupdate, Fs.bread, Fs.brelse, bufData, setData, lwrite, check, wp_bind, wp_get, wp_ite,
    wp_pure, wp_throw, wp_modify, wp_set, implies_true, and_true]
  intros
  exact (logged _).congr rfl rfl rfl

end

/-- A block in no slot of the inode keeps its bit. -/
theorem kept_itrunc (outside : b ∉ slotBlocks (s.itable ip).node allSlots)
    (apart : IBLOCK (s.itable ip).inum s.sb ≠ BBLOCK b s.sb) :
    wp (itrunc ip) (fun _ => Kept ip b s) (fun _ _ => True) s := by
  have start (trace : List Event) : Kept ip b s { s with trace } :=
    ⟨congrFun (used_congr (s := s) rfl rfl) b, rfl, rfl, fun _ => .inl rfl⟩
  have finish {s' : Kernel} (kept : Kept ip b s s') :
      wp (emptyInode ip) (fun _ => Kept ip b s) (fun _ _ => True) s' := by
    simp only [emptyInode, inode, Fs.setNode, wp_bind, wp_get, wp_pure, wp_modify]
    exact (kept.setNode { (s'.itable ip).node with size := 0 } kept.addrs).iupdate apart
  rw [itrunc, wp_bind, inode, wp_bind, wp_get, wp_pure, wp_bind, note, wp_modify, wp_bind]
  refine wp_mono ((start _).freeDirect outside directSlots) (fun _ s₁ kept => ?_) fun _ _ _ => trivial
  simp only [wp_bind, wp_get, wp_pure, wp_ite]
  refine ⟨fun used => ?_, fun _ => by simpa [emptyInode, inode] using finish kept⟩
  have other := kept.ne outside used
  refine wp_mono (kept.bread _) (fun _ s₂ kept₂ => ?_) fun _ _ _ => trivial
  rw [bufData, wp_bind, wp_bind, wp_get, wp_pure, wp_bind]
  refine wp_mono (kept₂.freeIndirect other _ _) (fun _ s₃ kept₃ => ?_) fun _ _ _ => trivial
  rw [wp_bind]
  refine wp_mono (kept₃.brelse _) (fun _ s₄ kept₄ => ?_) fun _ _ _ => trivial
  rw [wp_bind]
  refine wp_mono (kept₄.bfree other) (fun _ s₅ kept₅ => ?_) fun _ _ _ => trivial
  simpa [emptyInode, inode, Fs.setNode] using finish (kept₅.setNode { (s₁.itable ip).node with
    addrs := update (s₁.itable ip).node.addrs indirectSlot 0 } (kept.clear indirectSlot))

end

/-- A file whose indirect block names a block is not truncated exactly: that block stays in use. -/
theorem entries_eq_nil {s : Kernel} {ip : Fin NINODE} (owned : Owned s ip)
    (exact : TruncatesExactly s ip) : s.entries (s.itable ip).node = [] := by
  rw [List.eq_nil_iff_forall_not_mem]
  intro b entry
  have member := List.mem_append_right (slotBlocks (s.itable ip).node allSlots) entry
  have outside : b ∉ slotBlocks (s.itable ip).node allSlots := fun slot =>
    List.disjoint_of_nodup_append owned.nodup slot entry
  obtain ⟨low, used⟩ := owned.used b member
  obtain ⟨_, s', returned, truncated⟩ := returns_of_wp exact
  have kept : Kept ip b s s' := by
    simpa only [wp, returned] using kept_itrunc outside (owned.inode b low)
  have freed := truncated.used b low
  rw [kept.used, used, Kernel.fileBlocks] at freed
  simp [entry] at freed

/-- `itrunc` is exact iff the indirect block names no block and every tested bit is set when its turn
comes. -/
theorem truncatesExactly_iff {s : Kernel} {ip : Fin NINODE} (ready : Ready 14 s)
    (owned : Owned s ip) : TruncatesExactly s ip ↔ s.entries (s.itable ip).node = [] ∧
      passes s.used (slotBlocks (s.itable ip).node allSlots) = true := by
  constructor
  · intro exact
    have unused := entries_eq_nil owned exact
    obtain ⟨_, _, returned, _⟩ := returns_of_wp exact
    have decided : wp (itrunc ip)
        (fun _ _ => passes s.used (slotBlocks (s.itable ip).node allSlots) = true) (fun _ _ => True) s :=
      wp_itrunc ready owned unused (fun passed _ _ => passed) fun _ _ _ => trivial
    exact ⟨unused, by simpa only [wp, returned] using decided⟩
  · rintro ⟨unused, passed⟩
    refine wp_itrunc ready owned unused (fun _ _ truncated => truncated) fun failed => ?_
    rw [passed] at failed
    cases failed

/-- A file on a disk whose blocks are all in use and, but for the bitmap, have the same contents. -/
def fileWith (block : Block) (addrs : Fin (NDIRECT + 1) → UInt32) : Kernel :=
  { uniform block with
    blocks := fun b => if b = 58 then fun _ => 255 else block
    itable := fun _ => { inum := 1, ref := 1, valid := true, node := { type := T_FILE, addrs } } }

theorem owned_fileWith {block : Block} {addrs : Fin (NDIRECT + 1) → UInt32}
    (nodup : ((fileWith block addrs).fileBlocks { type := T_FILE, addrs }).Nodup)
    (data : ∀ b ∈ (fileWith block addrs).fileBlocks { type := T_FILE, addrs },
      b ≠ 58 ∧ b < 2000 ∧ (fileWith block addrs).used b = true) :
    Owned (fileWith block addrs) ⟨0, by decide⟩ := by
  have bitmap : ∀ c < 2000, BBLOCK c (fileWith block addrs).sb = 58 := by
    intro c low
    simp only [BBLOCK, BPB, BSIZE, fileWith, uniform]
    omega
  refine ⟨nodup, fun b member => (data b member).2, fun b member c low => ?_, fun c low => ?_⟩
  · rw [bitmap c low]
    exact (data b member).1
  · rw [bitmap c low]
    simp [fileWith, uniform, IBLOCK, IPB, BSIZE]

theorem truncatesExactly_iff_one :
    TruncatesExactly (fileWith (Bytes.zero BSIZE) fun slot => if slot.val = 0 then 64 else 0)
      ⟨0, by decide⟩ := by
  rw [truncatesExactly_iff]
  · decide +kernel
  · constructor <;> decide
  · exact owned_fileWith (by decide +kernel) (by decide +kernel)

theorem not_truncatesExactly {s : Kernel} {ip : Fin NINODE} (b : Nat) (low : b < s.sb.size)
    (inside : b ∈ s.fileBlocks (s.itable ip).node)
    (kept : (match itrunc ip s with
      | .ok _ s' => s'.used b
      | .error .. => true) = true) : ¬TruncatesExactly s ip := by
  intro exact
  obtain ⟨_, s', returned, truncated⟩ := returns_of_wp exact
  rw [returned] at kept
  have freed := truncated.used b low
  simp only [inside, not_true, decide_false, Bool.and_false] at freed
  exact absurd (kept.symm.trans freed) (by decide)

/-- Block 80, named by the indirect block, stays in use; the blocks 63 and 71 lead to a panic. -/
theorem itrunc_inexact :
    (Owned (fileWith ((Bytes.zero BSIZE).setField 4 0 80) fun slot =>
        if slot = indirectSlot then 70 else 0) ⟨0, by decide⟩ ∧
      ¬TruncatesExactly (fileWith ((Bytes.zero BSIZE).setField 4 0 80) fun slot =>
        if slot = indirectSlot then 70 else 0) ⟨0, by decide⟩) ∧
    Owned (fileWith (Bytes.zero BSIZE) fun slot =>
        if slot.val = 0 then 63 else if slot.val = 1 then 71 else 0) ⟨0, by decide⟩ ∧
      ¬TruncatesExactly (fileWith (Bytes.zero BSIZE) fun slot =>
        if slot.val = 0 then 63 else if slot.val = 1 then 71 else 0) ⟨0, by decide⟩ := by
  refine ⟨⟨owned_fileWith (by decide +kernel) (by decide +kernel), ?_⟩,
    owned_fileWith (by decide +kernel) (by decide +kernel), ?_⟩
  · exact not_truncatesExactly 80 (by decide) (by decide +kernel) (by decide +kernel)
  · exact not_truncatesExactly 63 (by decide) (by decide +kernel) (by decide +kernel)

end OsCpp.Fs
