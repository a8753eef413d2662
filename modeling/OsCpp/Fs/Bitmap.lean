import OsCpp.Fs.Inode

/-!
# The block bitmap

`balloc` and `bfree` inside a transaction that has room for the blocks they write.
-/

namespace OsCpp.Fs

open Function (update update_apply)

open Program

def Kernel.used (s : Kernel) (b : Nat) : Bool := Format.bit (s.blocks (BBLOCK b s.sb)) (b % BPB)

/-- No buffer is locked, there is room for `n` more blocks, and the counter of `balloc` does not
wrap. -/
structure Ready (n : Nat) (s : Kernel) : Prop where
  size : s.sb.size + BPB ≤ 2 ^ 32
  trans : 1 ≤ s.outstanding
  header : s.lh.length + n ≤ LOGSIZE
  log : s.lh.length + n < s.sb.nlog
  buffers : s.pinned.length + n ≤ NBUF
  held : s.held = []

/-- State after a block has been changed and logged. -/
def Kernel.logged (s : Kernel) (b : Nat) (block : Block) : Kernel :=
  { s with
    blocks := update s.blocks b block
    lh := if b ∈ s.lh then s.lh else s.lh ++ [b]
    pinned := if b ∈ s.lh then s.pinned else s.pinned.insert b
    trace := .lwrite b :: s.trace }

/-- The block whose bit `bfree` tests. -/
def tested (b : Nat) : Nat := b / BPB * BPB + 9 * (b % 8)

/-- State after `bfree`. -/
def Kernel.freed (s : Kernel) (b : Nat) : Kernel :=
  s.logged (BBLOCK b s.sb) (Format.clearBit (s.blocks (BBLOCK b s.sb)) (b % BPB))

/-- State after `balloc` has returned a block. -/
def Kernel.allocated (s : Kernel) (b : Nat) : Kernel :=
  (s.logged (BBLOCK b s.sb) (Format.setBit (s.blocks (BBLOCK b s.sb)) (b % BPB))).logged b
    (Bytes.zero BSIZE)

section

variable {s : Kernel} {n b c : Nat} {block : Block}

theorem Ready.logged (ready : Ready (n + 1) s) (b : Nat) (block : Block) :
    Ready n (s.logged b block) := by
  obtain ⟨size, trans, header, log, buffers, held⟩ := ready
  have pinned : (s.pinned.insert b).length ≤ s.pinned.length + 1 := by
    rw [List.length_insert]
    split <;> omega
  refine ⟨size, trans, ?_, ?_, ?_, held⟩
  all_goals
    simp only [Kernel.logged]
    split
    · omega
    · first
        | omega
        | rw [List.length_append, List.length_singleton]; omega

theorem Ready.mono {m : Nat} (ready : Ready n s) (less : m ≤ n) : Ready m s := by
  obtain ⟨size, trans, header, log, buffers, held⟩ := ready
  exact ⟨size, trans, by omega, by omega, by omega, held⟩

theorem used_logged : (s.logged b block).used c =
    if BBLOCK c s.sb = b then Format.bit block (c % BPB) else s.used c := by
  simp only [Kernel.used, Kernel.logged, update_apply]
  split <;> rfl

theorem mod_BPB_lt (b : Nat) : b % BPB < BPB := Nat.mod_lt _ (by decide)

/-- A change of one bit of a bitmap block. -/
theorem used_logged_bit {value : Bool} (changed : ∀ other, Format.bit block other =
      if other = b % BPB then value else Format.bit (s.blocks (BBLOCK b s.sb)) other) :
    (s.logged (BBLOCK b s.sb) block).used = update s.used b value := by
  funext c
  have whole := Nat.div_add_mod c BPB
  have whole' := Nat.div_add_mod b BPB
  rw [used_logged, update_apply, changed, Kernel.used]
  by_cases equal : c = b
  · simp [equal]
  · rw [if_neg equal]
    split
    · next same =>
      have place : c % BPB ≠ b % BPB := by
        rw [BBLOCK, BBLOCK, Nat.add_right_cancel_iff] at same
        rw [same] at whole
        omega
      rw [if_neg place, same]
    · rfl

theorem used_freed : (s.freed b).used = update s.used b false :=
  used_logged_bit (Format.bit_clearBit _ (mod_BPB_lt b))

theorem used_allocated : (s.allocated b).used c =
    if BBLOCK c s.sb = b then false else update s.used b true c := by
  rw [Kernel.allocated, used_logged, used_logged_bit (Format.bit_setBit _ (mod_BPB_lt b))]
  simp [Format.bit, Kernel.logged]

theorem used_tested : s.used (tested b) = decide
    ((s.blocks (BBLOCK b s.sb)).get (b % BPB % 8) &&& Format.bitMask (b % BPB) ≠ 0) := by
  have small : 9 * (b % 8) < BPB := by
    simp only [BPB, BSIZE]
    omega
  have block : tested b / BPB = b / BPB := by
    rw [tested, add_comm, Nat.add_mul_div_right _ _ (by decide), Nat.div_eq_of_lt small,
      zero_add]
  have bit : tested b % BPB = 9 * (b % 8) := by
    rw [tested, Nat.mul_add_mod_self_right, Nat.mod_eq_of_lt small]
  have place : b % BPB % 8 = b % 8 := Nat.mod_mod_of_dvd _ (by decide)
  have byte : 9 * (b % 8) / 8 = b % 8 := by omega
  have same : 9 * (b % 8) % 8 = b % 8 := by omega
  rw [Kernel.used, Format.bit, BBLOCK, BBLOCK, block, bit, byte, Format.bitMask, same,
    Format.bitMask, place]

variable {post : Unit → Kernel → Prop} {halt : Stop → Kernel → Prop}

theorem wp_bread (ready : Ready (n + 1) s) :
    wp (bread b) post halt s ↔ post () { s with held := [b] } := by
  have room := ready.buffers
  have free : s.pinned.length < NBUF := by omega
  simp [bread, check, ready.held, free]

theorem wp_brelse (ready : Ready n s) :
    wp (brelse b) post halt { s with held := [b] } ↔ post () s := by
  have held := ready.held
  simp only [brelse, check, wp_bind, wp_get, List.mem_singleton, if_true, wp_pure, wp_set,
    List.erase_cons_head]
  rw [← held]

section

variable (ready : Ready (n + 1) s)
include ready

theorem wp_update {α : Type} {post : α → Kernel → Prop}
    (next : Prog α) :
    wp (do setData b block; lwrite b; brelse b; next) post halt { s with held := [b] } ↔
      wp next post halt (s.logged b block) := by
  obtain ⟨_, trans, header, log, _, held⟩ := ready
  have room : s.lh.length < LOGSIZE ∧ s.lh.length + 1 < s.sb.nlog := by omega
  simp only [setData, lwrite, brelse, check, wp_bind, wp_get, wp_modify, wp_set, room, trans,
    List.mem_singleton, if_true, wp_pure, List.erase_cons_head, and_self]
  cases s
  cases held
  rfl

theorem wp_update_last :
    wp (do setData b block; lwrite b; brelse b) post halt { s with held := [b] } ↔
      post () (s.logged b block) := by
  simpa using wp_update ready (pure ())

theorem wp_bzero : wp (bzero b) post halt s ↔ post () (s.logged b (Bytes.zero BSIZE)) := by
  rw [bzero, wp_bind, wp_bread ready, wp_update_last ready]

/-- `bfree` frees the block or panics, as the tested bit says. -/
theorem wp_bfree : wp (bfree b) post halt s ↔ if s.used (tested b) then post () (s.freed b)
      else halt (.panic "fs::bfree: it's free") { s with held := [BBLOCK b s.sb] } := by
  rw [bfree, wp_bind, wp_get, wp_bind, wp_bread ready, used_tested, bufData, wp_bind, wp_bind, wp_get,
    wp_pure, wp_bind, check, wp_ite, wp_pure, wp_throw, wp_update_last ready]
  split <;> simp_all [Kernel.freed]

end

end

/-! ## Searching for a free block -/

/-- The lowest block that is not marked as used. -/
structure Kernel.Lowest (s : Kernel) (b : Nat) : Prop where
  lt : b < s.sb.size
  free : s.used b = false
  below : ∀ c < b, s.used c = true

/-- The inner loop finds the first clear bit, if there is one. -/
theorem clearBitFrom_spec (block : Block) (b size : Nat) {fuel bi : Nat} (whole : bi + fuel = BPB) :
    match clearBitFrom block b size fuel bi with
    | some i => i < BPB ∧ b + i < size ∧ Format.bit block i = false ∧
        ∀ j, bi ≤ j → j < i → Format.bit block j = true
    | none => ∀ j, bi ≤ j → j < BPB → b + j < size → Format.bit block j = true := by
  induction fuel generalizing bi with
  | zero =>
    intro j from_bi below
    omega
  | succ fuel ih =>
    have whole' : bi + 1 + fuel = BPB := by omega
    have next := ih whole'
    rw [clearBitFrom]
    by_cases inside : bi < BPB ∧ b + bi < size
    · rw [if_pos inside]
      by_cases taken : Format.bit block bi = true
      · rw [if_pos taken]
        have now {j : Nat} (from_bi : bi ≤ j) (rest : bi + 1 ≤ j → Format.bit block j = true) :
            Format.bit block j = true := by
          obtain rfl | later := from_bi.eq_or_lt
          · exact taken
          · exact rest later
        split
        · next i found =>
          rw [found] at next
          exact ⟨next.1, next.2.1, next.2.2.1, fun j from_bi below =>
            now from_bi fun later => next.2.2.2 j later below⟩
        · next none =>
          rw [none] at next
          exact fun j from_bi below low => now from_bi fun later => next j later below low
      · rw [if_neg taken]
        exact ⟨inside.1, inside.2, by simpa using taken, fun j from_bi below => by omega⟩
    · rw [if_neg inside]
      intro j from_bi below low
      omega

theorem place_of_aligned {b i : Nat} (sb : Superblock) (aligned : b % BPB = 0) (small : i < BPB) :
    BBLOCK (b + i) sb = BBLOCK b sb ∧ (b + i) % BPB = i := by
  obtain ⟨k, rfl⟩ := Nat.dvd_of_mod_eq_zero aligned
  rw [BBLOCK, BBLOCK, Nat.mul_add_div (by decide), Nat.mul_div_cancel_left _ (by decide),
    Nat.div_eq_of_lt small, Nat.mul_add_mod, Nat.mod_eq_of_lt small]
  exact ⟨rfl, rfl⟩

/-- The outer loop, when all blocks before those of the current bitmap block are in use. -/
theorem wp_ballocFrom {s : Kernel} {fuel b : Nat} {post : Nat → Kernel → Prop}
    {halt : Stop → Kernel → Prop} (ready : Ready 2 s) (aligned : b % BPB = 0)
    (below : ∀ c < b, c < s.sb.size → s.used c = true) (enough : s.sb.size ≤ b + fuel)
    (found : ∀ c, s.Lowest c → post c (s.allocated c))
    (full : (∀ c < s.sb.size, s.used c = true) → post 0 s) :
    wp (ballocFrom s.sb fuel b) post halt s := by
  induction fuel generalizing b with
  | zero => exact full fun c low => below c (by omega) low
  | succ fuel ih =>
    -- The bits of this bitmap block, and with them those of the blocks before it.
    have bit {i : Nat} (small : i < BPB) :
        s.used (b + i) = Format.bit (s.blocks (BBLOCK b s.sb)) i := by
      rw [Kernel.used, (place_of_aligned s.sb aligned small).1, (place_of_aligned s.sb aligned small).2]
    have before {i : Nat} (within : i ≤ BPB)
        (taken : ∀ j < i, b + j < s.sb.size → Format.bit (s.blocks (BBLOCK b s.sb)) j = true) :
        ∀ c < b + i, c < s.sb.size → s.used c = true := by
      intro c lower low
      by_cases old : c < b
      · exact below c old low
      · obtain ⟨j, rfl⟩ := Nat.exists_eq_add_of_le (le_of_not_gt old)
        rw [bit (by omega)]
        exact taken j (by omega) low
    have search := clearBitFrom_spec (s.blocks (BBLOCK b s.sb)) b s.sb.size (zero_add BPB)
    rw [ballocFrom]
    split
    · rw [wp_bind, wp_bread ready, bufData, wp_bind, wp_bind, wp_get, wp_pure]
      split
      · next i clear =>
        rw [clear] at search
        obtain ⟨small, low, free, first⟩ := search
        have lowest : s.Lowest (b + i) := by
          refine ⟨low, by rw [bit small, free], fun c lower => ?_⟩
          exact before small.le (fun j lower _ => first j zero_le lower) c lower
            (lower.trans low)
        obtain ⟨group, place⟩ := place_of_aligned s.sb aligned small
        rw [wp_update ready, wp_bind, wp_bzero (ready.logged _ _), wp_pure]
        have result := found _ lowest
        rwa [Kernel.allocated, group, place] at result
      · next clear =>
        rw [clear] at search
        rw [wp_bind, wp_brelse ready]
        exact ih (by rw [Nat.add_mod_right, aligned])
          (before le_rfl fun j lower => search j zero_le lower)
          (by simp only [BPB, BSIZE]; omega)
    · exact full fun c low => below c (by omega) low

/-! ## Exactness -/

/-- `balloc` takes the lowest free block, marks and clears it; if there is none, it returns zero. -/
def AllocatesExactly (s : Kernel) : Prop :=
  wp balloc (fun b s' => (s.Lowest b ∧ s'.blocks b = Bytes.zero BSIZE ∧
      ∀ c < s.sb.size, s'.used c = update s.used b true c) ∨
    (b = 0 ∧ s' = s ∧ ∀ c < s.sb.size, s.used c = true)) (fun _ _ => False) s

/-- `bfree` marks a used block as free, and panics on a free one. -/
def FreesExactly (s : Kernel) (b : Nat) : Prop :=
  wp (bfree b) (fun _ s' => s.used b = true ∧ s'.used = update s.used b false)
    (fun stop _ => s.used b = false ∧ stop = .panic "fs::bfree: it's free") s

theorem Kernel.Lowest.unique {s : Kernel} {b c : Nat} (lowest : s.Lowest b) (other : s.Lowest c) :
    b = c := by
  apply le_antisymm <;> apply le_of_not_gt <;> intro less
  · simpa [other.free] using lowest.below c less
  · simpa [lowest.free] using other.below b less

theorem freesExactly_iff {s : Kernel} {n b : Nat} (ready : Ready (n + 1) s) :
    FreesExactly s b ↔ s.used (tested b) = s.used b := by
  rw [FreesExactly, wp_bfree ready, used_freed]
  cases s.used (tested b) <;> cases s.used b <;> simp

theorem allocatesExactly_iff {s : Kernel} (ready : Ready 2 s) :
    AllocatesExactly s ↔ ∀ c < s.sb.size, s.Lowest (BBLOCK c s.sb) →
      s.used c = false ∧ c ≠ BBLOCK c s.sb := by
  have known : wp balloc (fun b s' => (s.Lowest b ∧ s' = s.allocated b) ∨
      (b = 0 ∧ s' = s ∧ ∀ c < s.sb.size, s.used c = true)) (fun _ _ => False) s := by
    rw [balloc, wp_bind, wp_get]
    exact wp_ballocFrom ready (Nat.zero_mod _) (by simp) le_add_self
      (fun c lowest => .inl ⟨lowest, rfl⟩) fun full => .inr ⟨rfl, rfl, full⟩
  obtain ⟨b, s', ran, ⟨lowest, rfl⟩ | ⟨rfl, rfl, full⟩⟩ := returns_of_wp known
  · have taken : ¬∀ c < s.sb.size, s.used c = true := fun full => by
      simpa [lowest.free] using full b lowest.lt
    have cleared : (s.allocated b).blocks b = Bytes.zero BSIZE := Function.update_self ..
    rw [AllocatesExactly, wp, ran]
    simp only [lowest, cleared, taken, true_and, and_false, or_false, used_allocated]
    refine forall₂_congr fun c _ => ⟨fun exact block => ?_, fun apart => ?_⟩
    · obtain rfl := lowest.unique block
      rw [if_pos rfl, update_apply] at exact
      grind
    · split
      · next block =>
        obtain ⟨free, differs⟩ := apart (block ▸ lowest)
        rw [Function.update_of_ne (block ▸ differs), free]
      · rfl
  · rw [AllocatesExactly, wp, ran]
    refine iff_of_true (.inr ⟨rfl, rfl, full⟩) fun c _ lowest => ?_
    simpa [lowest.free] using full _ lowest.lt

/-- A transaction on a disk of 2000 blocks, all of which have the same contents. -/
def uniform (block : Block) : Kernel where
  sb := ⟨FSMAGIC, 2000, 1941, 200, 30, 2, 32, 58⟩
  blocks _ := block
  outstanding := 1

end OsCpp.Fs
