import OsCpp.Sv39.Space

/-!
# Growing and shrinking a process

`grow` moves the end of the heap by any number of bytes.  Pages are added zeroed, one by one; when frames
run out, those added by the call are removed again.
-/

namespace OsCpp.Sv39

open Function (update)
open Program (wp_bind wp_mono wp_ite wp_modify wp)

open Frames (PGSIZE VA_MAX TRAPFRAME PG_ROUND_UP SamePage)

variable {roots : Nat → Prop} {m m' m'' : Memory} {root flag start j : Nat}

/-- Pages have been added behind the first `start` ones, in frames that were free. -/
structure Fills (roots : Nat → Prop) (root flag start j : Nat) (m m' : Memory) : Prop where
  space : Space roots root (start + j) m'
  within : Within roots m m'
  others : ∀ {root' va}, roots root' →
    ¬(root' = root ∧ ∃ k < j, SamePage ((start + k) * PGSIZE) va) → m'.entry root' va = m.entry root' va
  fresh : ∀ k < j, ∃ frame ∈ m.freelist, m'.entry root ((start + k) * PGSIZE) = some (packed frame flag)
  back : ∀ frame ∈ m.freelist, frame ∈ m'.freelist ∨ IsNode roots m' frame ∨
    ∃ k < j, m'.entry root ((start + k) * PGSIZE) = some (packed frame flag)

/-- The pages added are zero. -/
def Zeroed (root start j : Nat) (m : Memory) : Prop :=
  ∀ k < j, ∀ pte, m.entry root ((start + k) * PGSIZE) = some pte → m.ram (PTE2PA pte / PGSIZE) = fun _ => 0

/-- No entry has changed and frames have been taken for nodes only. -/
structure Restored (roots : Nat → Prop) (m m' : Memory) : Prop where
  within : Within roots m m'
  entry : ∀ {root' va}, roots root' → m'.entry root' va = m.entry root' va
  back : ∀ frame ∈ m.freelist, frame ∈ m'.freelist ∨ IsNode roots m' frame

namespace Fills

theorem nil (space : Space roots root start m) : Fills roots root flag start 0 m m :=
  ⟨space, Within.refl m, fun _ _ => rfl, fun _ low => absurd low (by omega), fun _ free => .inl free⟩

section

variable (fills : Fills roots root flag start j m m')
include fills

theorem push {fresh : Nat} {rest : List Nat}
    {words : Fin 512 → Nat} {m₁ : Memory} (flags : flag < 1024) (user : flag &&& PTE_U ≠ 0)
    (room : start + j < TRAPFRAME / PGSIZE) (free : m'.freelist = fresh :: rest)
    (taken : m₁ = ⟨update m'.ram fresh words, rest⟩) (sound : Sound roots m'')
    (grows : Grows roots m₁ m'')
    (entries : ∀ {root' va}, roots root' → m''.entry root' va =
      if root' = root ∧ SamePage ((start + j) * PGSIZE) va then some (packed fresh flag)
      else m'.entry root' va) : Fills roots root flag start (j + 1) m m'' := by
  obtain ⟨-, within, given, -, -⟩ := fills.space.sound.take free taken
  have limit := trapframe_below
  have member : fresh ∈ m'.freelist := by
    rw [free]
    exact .head _
  have last : m''.entry root ((start + j) * PGSIZE) = some (packed fresh flag) := by
    rw [entries fills.space.isRoot, if_pos ⟨rfl, rfl, rfl, rfl⟩]
  have older : ∀ k < j, m''.entry root ((start + k) * PGSIZE) = m'.entry root ((start + k) * PGSIZE) := by
    intro k low
    rw [entries fills.space.isRoot, if_neg]
    rintro ⟨-, same⟩
    have := samePage_eq (by omega) (by omega) same
    omega
  have step := within.trans grows.within
  refine ⟨fills.space.push sound flags user room member (fun frame => step.mem) entries,
    fills.within.trans step, fun {root' va} isRoot' outside => ?_, fun k low => ?_, fun frame unused => ?_⟩
  · rw [entries isRoot', if_neg fun both => outside ⟨both.1, j, by omega, both.2⟩]
    refine fills.others isRoot' ?_
    rintro ⟨rfl, k, low, same⟩
    exact outside ⟨rfl, k, by omega, same⟩
  · by_cases new : k = j
    · subst new
      exact ⟨fresh, fills.within.mem member, last⟩
    · rw [older k (by omega)]
      exact fills.fresh k (by omega)
  · rcases fills.back frame unused with still | node | ⟨k, low, mapped⟩
    · rw [free, List.mem_cons] at still
      rcases still with rfl | still
      · exact .inr (.inr ⟨j, by omega, last⟩)
      · have unused' : frame ∈ m₁.freelist := by rwa [taken]
        exact (grows.linked unused').imp_right .inl
    · exact .inr (.inl (step.kept node))
    · exact .inr (.inr ⟨k, by omega, by rw [older k low, mapped]⟩)

theorem giveUp {fresh : Nat} {rest : List Nat}
    {words : Fin 512 → Nat} {m₁ m₂ : Memory} (free : m'.freelist = fresh :: rest)
    (taken : m₁ = ⟨update m'.ram fresh words, rest⟩) (sound : Sound roots m₂)
    (grows : Grows roots m₁ m₂)
    (entries : ∀ {root' va}, roots root' → m₂.entry root' va = m'.entry root' va)
    (after : m'' = ⟨update m₂.ram fresh (freed m₂.freelist), fresh :: m₂.freelist⟩) :
    Fills roots root flag start j m m'' := by
  obtain ⟨-, within, given, -, unmapped⟩ := fills.space.sound.take free taken
  have member : fresh ∈ m'.freelist := by
    rw [free]
    exact .head _
  have step := within.trans grows.within
  have used : fresh ∉ m₁.freelist := given.used 0 one_pos
  have data : ¬IsNode roots m₁ fresh := given.data 0 one_pos
  obtain ⟨used₂, data₂⟩ := grows.within.apart used data
  obtain ⟨sound', entry', -, node'⟩ := sound.free after data₂ used₂
    (fills.space.sound.small fresh member) fun isRoot' mapped => by
      rw [entries isRoot'] at mapped
      exact unmapped isRoot' mapped
  have same : ∀ {root' va}, roots root' → m''.entry root' va = m'.entry root' va := fun isRoot' =>
    (entry' isRoot').trans (entries isRoot')
  have freelist : m''.freelist = fresh :: m₂.freelist := by rw [after]
  have returned : Within roots m' m'' := by
    refine ⟨fun {frame} unused => ?_, fun {frame} busy data => ?_, fun node => step.nodes (node'.mp node),
      fun node => node'.mpr (step.kept node)⟩
    · rw [freelist, List.mem_cons] at unused
      rcases unused with rfl | unused
      · exact member
      · exact step.mem unused
    · rw [after, ← step.data busy data]
      refine Function.update_of_ne ?_ _ _
      rintro rfl
      exact busy member
  refine ⟨fills.space.congr sound' same fun frame => returned.mem, fills.within.trans returned,
    fun isRoot' outside => (same isRoot').trans (fills.others isRoot' outside), fun k low => ?_,
    fun frame unused => ?_⟩
  · rw [same fills.space.isRoot]
    exact fills.fresh k low
  · rcases fills.back frame unused with still | node | ⟨k, low, mapped⟩
    · rw [free, List.mem_cons] at still
      rcases still with rfl | still
      · exact .inl (by rw [freelist]; exact .head _)
      · have unused' : frame ∈ m₁.freelist := by rwa [taken]
        rcases grows.linked unused' with unused' | node
        · exact .inl (by rw [freelist]; exact .tail _ unused')
        · exact .inr (.inl (node'.mpr node))
    · exact .inr (.inl (returned.kept node))
    · exact .inr (.inr ⟨k, low, by rw [same fills.space.isRoot, mapped]⟩)

theorem restored (flags : flag < 1024) (space : Space roots root start m)
    (unmaps : Unmaps roots root true (start * PGSIZE) j m' m'') : Restored roots m m'' := by
  have shift : ∀ k, start * PGSIZE + k * PGSIZE = (start + k) * PGSIZE := fun k => by ring
  have below := fills.space.below
  obtain ⟨freed, split, frees⟩ := unmaps.free
  have mine : ∀ {frame}, frame ∈ freed → frame ∈ m.freelist := by
    intro frame member
    obtain ⟨-, k, low, pte, mapped, rfl⟩ := (frees frame).mp member
    rw [shift] at mapped
    obtain ⟨fresh, unused, mapped'⟩ := fills.fresh k low
    rw [mapped] at mapped'
    cases mapped'
    rwa [frame_pack (space.sound.small fresh unused) flags]
  have mem : ∀ {frame}, frame ∈ m''.freelist → frame ∈ m.freelist := by
    intro frame member
    rw [split, List.mem_append] at member
    exact member.elim mine fills.within.mem
  refine ⟨⟨mem, fun {frame} used data => ?_, fun node => fills.within.nodes (unmaps.node.mp node),
    fun node => unmaps.node.mpr (fills.within.kept node)⟩, fun {root' va} isRoot' => ?_, fun frame unused => ?_⟩
  · rw [unmaps.data (fun free => used (mem free)) (fills.within.apart used data).2,
      fills.within.data used data]
  · by_cases inside : root' = root ∧ ∃ k < j, SamePage ((start + k) * PGSIZE) va
    · obtain ⟨rfl, k, low, same⟩ := inside
      rw [unmaps.gone k low (by rwa [shift]), ← entry_congr same,
        space.outside (start + k) (by omega) (by omega)]
    · rw [unmaps.others isRoot' (by simpa only [shift] using inside), fills.others isRoot' inside]
  · rcases fills.back frame unused with still | node | ⟨k, low, mapped⟩
    · exact .inl (by rw [split]; exact List.mem_append_right freed still)
    · exact .inr (unmaps.node.mpr node)
    · have member : frame ∈ freed := (frees frame).mpr ⟨rfl, k, low, _, by rw [shift, mapped],
        frame_pack (space.sound.small frame unused) flags⟩
      exact .inl (by rw [split]; exact List.mem_append_left _ member)

end

end Fills

theorem PG_ROUND_UP_eq (bytes : Nat) : PG_ROUND_UP bytes = pages bytes * PGSIZE := rfl

theorem pages_mul (k : Nat) : pages (k * PGSIZE) = k := by
  simp only [pages, PGSIZE]
  omega

/-- The pages added by a call are removed. -/
theorem wp_rollback (fills : Fills roots root flag start j m m') (flags : flag < 1024)
    (space : Space roots root start m) :
    wp (uvm_dealloc root ((start + j) * PGSIZE) (start * PGSIZE))
      (fun _ m'' => Space roots root start m'' ∧ Restored roots m m'') (fun _ _ => False) m' := by
  unfold uvm_dealloc
  rw [wp_ite]
  refine ⟨fun none => ?_, fun some => ?_⟩
  · obtain rfl : j = 0 := by
      simp only [PGSIZE] at none
      omega
    have same : ∀ {root' va}, roots root' → m'.entry root' va = m.entry root' va := fun isRoot' =>
      fills.others isRoot' (by rintro ⟨_, _, low, _⟩; omega)
    refine ⟨fills.space, fills.within, same, fun frame unused => ?_⟩
    rcases fills.back frame unused with still | node | ⟨k, low, -⟩
    · exact .inl still
    · exact .inr node
    · omega
  · have fewer : start * PGSIZE < (start + j) * PGSIZE := Nat.lt_of_not_le some
    have count : ((start + j) * PGSIZE - start * PGSIZE) / PGSIZE = start + j - start := by
      rw [← Nat.sub_mul, Nat.mul_div_cancel _ (by decide)]
    simp only [PG_ROUND_UP_eq, pages_mul, fewer, if_true, count, wp_bind]
    refine wp_mono (fills.space.wp_shrink (Nat.le_add_right start j)) ?_ fun _ _ => id
    rintro _ m'' ⟨unmaps, space'⟩
    rw [Nat.add_sub_cancel_left] at unmaps
    exact ⟨space', fills.restored flags space unmaps⟩

theorem Zeroed.push (zero : Zeroed root start j m') (space : Space roots root (start + j) m')
    {fresh : Nat} {rest : List Nat} {m₁ : Memory} (flags : flag < 1024)
    (free : m'.freelist = fresh :: rest) (taken : m₁ = ⟨update m'.ram fresh fun _ => 0, rest⟩)
    (grows : Grows roots m₁ m'')
    (entries : ∀ {root' va}, roots root' → m''.entry root' va =
      if root' = root ∧ SamePage ((start + j) * PGSIZE) va then some (packed fresh flag)
      else m'.entry root' va) : Zeroed root start (j + 1) m'' := by
  obtain ⟨-, within, given, -, -⟩ := space.sound.take free taken
  have small : fresh < 2 ^ 52 := given.small
  intro k low pte mapped
  rw [entries space.isRoot] at mapped
  split at mapped
  · cases mapped
    have words : m''.ram fresh = m₁.ram fresh :=
      grows.data (given.used 0 one_pos) (given.data 0 one_pos)
    rw [frame_pack small flags, words, taken]
    exact Function.update_self ..
  next older =>
    have other : k ≠ j := by
      rintro rfl
      exact older ⟨rfl, rfl, rfl, rfl⟩
    obtain ⟨used, data⟩ := space.sound.leaves space.isRoot mapped
    rw [(within.trans grows.within).data used data]
    exact zero k (by omega) pte mapped

theorem wp_allocFrom (newsz xperm : Nat) (space : Space roots root start m)
    (flags : PTE_R ||| PTE_U ||| xperm < 1024) (user : (PTE_R ||| PTE_U ||| xperm) &&& PTE_U ≠ 0) (n : Nat)
    (fills : Fills roots root (PTE_R ||| PTE_U ||| xperm) start j m m') (zero : Zeroed root start j m') :
    wp (allocFrom root (start * PGSIZE) newsz xperm ((start + j) * PGSIZE) n) (fun size m'' =>
      (size = newsz ∧ Fills roots root (PTE_R ||| PTE_U ||| xperm) start (j + n) m m'' ∧
        Zeroed root start (j + n) m'') ∨
      (size = 0 ∧ Space roots root start m'' ∧ Restored roots m m'')) (fun _ _ => False) m' := by
  induction n generalizing j m' with
  | zero => exact .inl ⟨rfl, fills, zero⟩
  | succ n ih =>
    unfold allocFrom
    rw [wp_bind]
    refine wp_mono (wp_kalloc m') ?_ fun _ _ => id
    rintro (_ | fresh) m₁ taken
    · obtain ⟨-, rfl⟩ := taken
      simp only [wp_bind]
      exact wp_mono (wp_rollback fills flags space) (fun _ _ done => .inr ⟨rfl, done⟩)
        fun _ _ => id
    · obtain ⟨rest, free, rfl⟩ := taken
      simp only [memset, wp_bind, wp_modify, Function.update_idem]
      obtain ⟨m₁, taken⟩ : ∃ m₁ : Memory, m₁ = ⟨update m'.ram fresh fun _ => 0, rest⟩ := ⟨_, rfl⟩
      rw [← taken]
      obtain ⟨sound₁, -, given, entry₁, -⟩ := fills.space.sound.take free taken
      have room : start + j < TRAPFRAME / PGSIZE := by
        have fits := fills.space.room
        rw [free, List.length_cons] at fits
        have limit : 32768 < TRAPFRAME / PGSIZE := by decide
        omega
      have limit := trapframe_below
      have below : (start + j) * PGSIZE + PGSIZE ≤ VA_MAX := by
        rw [← Nat.succ_mul]
        exact page_below (by omega)
      have vacant : m₁.entry root ((start + j) * PGSIZE) = none := by
        rw [entry₁ space.isRoot]
        exact fills.space.outside _ le_rfl room
      refine wp_mono (wp_map_page sound₁ space.isRoot flags (Nat.mul_mod_left _ _) below vacant
        given) ?_ fun _ _ => id
      rintro (_ | _) m₂ ⟨sound₂, grows, entries⟩
      · -- no frame for a node: the page's frame goes back
        have same : ∀ {root' va}, roots root' → m₂.entry root' va = m'.entry root' va := by
          intro root' va isRoot'
          rw [entries isRoot', if_neg (by simp), entry₁ isRoot']
        simp only [Bool.false_eq_true, if_false, kfree, wp_bind, wp_modify]
        have fills' := fills.giveUp free taken sound₂ grows same rfl
        exact wp_mono (wp_rollback fills' flags space) (fun _ _ done => .inr ⟨rfl, done⟩)
          fun _ _ => id
      · have mapped : ∀ {root' va}, roots root' → m₂.entry root' va =
            if root' = root ∧ SamePage ((start + j) * PGSIZE) va then
              some (packed fresh (PTE_R ||| PTE_U ||| xperm)) else m'.entry root' va := by
          intro root' va isRoot'
          rw [entries isRoot', entry₁ isRoot']
          simp only [true_and]
        have next : (start + j) * PGSIZE + PGSIZE = (start + (j + 1)) * PGSIZE := by ring
        have count : j + (n + 1) = j + 1 + n := by ring
        simp only [if_true, next, count]
        exact ih (fills.push flags user room free taken sound₂ grows mapped)
          (zero.push fills.space flags free taken grows mapped)

/-- What a call of `grow` does to the process. -/
structure Exact (roots : Nat → Prop) (root : Nat) (n : Int) (m : Memory) (sz : Nat) (rs : Int) (m' : Memory)
    (sz' : Nat) : Prop where
  space : Space roots root (pages sz') m'
  size : rs = 0 ∧ sz' = (if 0 ≤ sz + n then (sz + n).toNat else sz) ∨ rs = -1 ∧ sz' = sz
  kept : ∀ k < pages sz, k < pages sz' → ∀ {pte}, m.entry root (k * PGSIZE) = some pte →
    m'.entry root (k * PGSIZE) = some pte ∧ m'.ram (PTE2PA pte / PGSIZE) = m.ram (PTE2PA pte / PGSIZE)
  zero : ∀ k, pages sz ≤ k → k < pages sz' → ∀ {pte}, m'.entry root (k * PGSIZE) = some pte →
    m'.ram (PTE2PA pte / PGSIZE) = fun _ => 0
  failed : rs = -1 → (∀ {root' va}, roots root' → m'.translate root' va = m.translate root' va) ∧
    (∀ {root' va pte}, roots root' → m.entry root' va = some pte →
      m'.ram (PTE2PA pte / PGSIZE) = m.ram (PTE2PA pte / PGSIZE)) ∧
    ∀ frame ∈ m.freelist, frame ∈ m'.freelist ∨ IsNode roots m' frame

section

variable {sz : Nat} (space : Space roots root (pages sz) m)
include space

theorem Exact.same {n : Int}
    (unmoved : sz = if 0 ≤ sz + n then (sz + n).toNat else sz) : Exact roots root n m sz 0 m sz :=
  ⟨space, .inl ⟨rfl, unmoved⟩, fun _ _ _ {_} mapped => ⟨mapped, rfl⟩, fun _ high low => absurd low (by omega),
    fun absurd => by cases absurd⟩

theorem Space.size_le : sz ≤ 2 ^ 27 := by
  have fits := space.room
  simp only [pages, PGSIZE] at fits
  omega

theorem wp_grow_more {n : Int} (more : 0 < n) :
    wp (grow root sz n) (fun rs m' => Exact roots root n m sz rs.1 m' rs.2) (fun _ _ => False) m := by
  have limit := trapframe_below
  unfold grow uvm_alloc
  rw [if_pos more, if_neg (by omega), wp_bind, PG_ROUND_UP_eq]
  have filling := wp_allocFrom (sz + n.toNat) PTE_W space (by decide) (by decide)
    (pages (sz + n.toNat - pages sz * PGSIZE)) (Fills.nil space) fun _ low => absurd low (by omega)
  rw [add_zero, zero_add] at filling
  refine wp_mono filling ?_ fun _ _ => id
  rintro size m' (⟨rfl, fills, zero⟩ | ⟨rfl, space', restored⟩)
  · have count : pages sz + pages (sz + n.toNat - pages sz * PGSIZE) = pages (sz + n.toNat) := by
      simp only [pages, PGSIZE]
      omega
    rw [if_neg (by omega)]
    change Exact roots root n m sz 0 m' (sz + n.toNat)
    refine ⟨count ▸ fills.space, .inl ⟨rfl, ?_⟩, fun k low _ pte mapped => ?_, fun k high low pte mapped => ?_,
      fun absurd => by cases absurd⟩
    · rw [if_pos (by omega)]
      omega
    · have below := space.below
      obtain ⟨used, data⟩ := space.sound.leaves space.isRoot mapped
      refine ⟨?_, fills.within.data used data⟩
      rw [← mapped]
      refine fills.others space.isRoot ?_
      rintro ⟨-, k', low', same⟩
      have below' := fills.space.below
      have := samePage_eq (by omega) (by omega) same
      omega
    · refine zero (k - pages sz) (by omega) pte ?_
      rwa [show pages sz + (k - pages sz) = k by omega]
  · rw [if_pos rfl]
    change Exact roots root n m sz (-1) m' sz
    refine ⟨space', .inr ⟨rfl, rfl⟩, fun k low _ pte mapped => ?_, fun k high low => absurd low (by omega),
      fun _ => ⟨fun isRoot' => translate_congr (restored.entry isRoot'), fun isRoot' mapped => ?_, restored.back⟩⟩
    · obtain ⟨used, data⟩ := space.sound.leaves space.isRoot mapped
      exact ⟨(restored.entry space.isRoot).trans mapped, restored.within.data used data⟩
    · obtain ⟨used, data⟩ := space.sound.leaves isRoot' mapped
      exact restored.within.data used data

theorem wp_grow_less {n : Int} (less : n < 0)
    (int : -2 ^ 31 ≤ n) :
    wp (grow root sz n) (fun rs m' => Exact roots root n m sz rs.1 m' rs.2) (fun _ _ => False) m := by
  have limit := trapframe_below
  have bound := space.size_le
  unfold grow uvm_dealloc
  rw [if_neg (by omega), if_pos less, wp_bind, wp_ite]
  -- a size below zero wraps around to one that is not smaller
  refine ⟨fun wrapped => Exact.same space ?_, fun smaller => ?_⟩
  · rw [if_neg (by omega)]
  · obtain ⟨newsz, size⟩ : ∃ newsz, newsz = ((sz + n) % 2 ^ 64).toNat := ⟨_, rfl⟩
    rw [← size] at smaller ⊢
    have reached : newsz = if 0 ≤ sz + n then (sz + n).toNat else sz := by
      rw [if_pos (by omega)]
      omega
    have fewer : pages newsz ≤ pages sz := by
      simp only [pages, PGSIZE]
      omega
    simp only [PG_ROUND_UP_eq, wp_ite, wp_bind, ← Nat.sub_mul]
    refine ⟨fun _ => ?_, fun even => ?_⟩
    · rw [Nat.mul_div_cancel _ (by decide)]
      refine wp_mono (space.wp_shrink fewer) ?_ fun _ _ => id
      rintro _ m' ⟨unmaps, space'⟩
      change Exact roots root n m sz 0 m' newsz
      refine ⟨space', .inl ⟨rfl, reached⟩, fun k _ low pte mapped => ?_, fun k high low => absurd low (by omega),
        fun absurd => by cases absurd⟩
      have mapped' : m'.entry root (k * PGSIZE) = some pte := by
        rw [← mapped]
        refine unmaps.others space.isRoot ?_
        rintro ⟨-, k', low', same⟩
        rw [← add_mul] at same
        have below := space.below
        have := samePage_eq (by omega) (by omega) same
        omega
      exact ⟨mapped', unmaps.data (unmaps.sound.leaves space.isRoot mapped').1
        (space.sound.leaves space.isRoot mapped).2⟩
    · have equal : pages newsz = pages sz := by
        simp only [PGSIZE] at even
        omega
      change Exact roots root n m sz 0 m newsz
      exact ⟨equal ▸ space, .inl ⟨rfl, reached⟩, fun _ _ _ {_} mapped => ⟨mapped, rfl⟩,
        fun k high low => absurd low (by omega), fun absurd => by cases absurd⟩

theorem wp_grow {n : Int} (int : -2 ^ 31 ≤ n) :
    wp (grow root sz n) (fun rs m' => Exact roots root n m sz rs.1 m' rs.2) (fun _ _ => False) m := by
  rcases lt_trichotomy n 0 with less | rfl | more
  · exact wp_grow_less space less int
  · refine Exact.same space ?_
    simp
  · exact wp_grow_more space more

end

/-- Stores that hit no page table. -/
structure Stored (roots : Nat → Prop) (m m' : Memory) : Prop where
  free : m'.freelist = m.freelist
  nodes : ∀ {frame}, IsNode roots m frame → m'.ram frame = m.ram frame

theorem Space.stored {count : Nat} (space : Space roots root count m) (stored : Stored roots m m') :
    Space roots root count m' :=
  space.congr (space.sound.of_data stored.nodes ⟨[], stored.free.symm⟩)
    (fun isRoot' => entry_of_data stored.nodes isRoot' _) fun _ member => stored.free ▸ member

/-- Every one of a sequence of calls returns and does what it should, whatever is stored in between. -/
def Growth (roots : Nat → Prop) (root : Nat) : List Int → Memory → Nat → Prop
  | [], _, _ => True
  | n :: calls, m, sz => ∃ rs sz' m', grow root sz n m = .ok (rs, sz') m' ∧
      Exact roots root n m sz rs m' sz' ∧ ∀ m'', Stored roots m' m'' → Growth roots root calls m'' sz'

/-- Memory with an empty table, and five free frames. -/
def bareTable : Memory :=
  ⟨update (fun _ _ => 0) 0x80001 fun _ => 0, [0x80002, 0x80003, 0x80004, 0x80005, 0x80006]⟩

theorem space_bareTable : Space (fun root => False ∨ root = 0x80001) 0x80001 (pages 0) bareTable := by
  have vacant : ∀ va, bareTable.entry 0x80001 va = none :=
    entry_blank fun index => by simp [bareTable]
  have sound := ((sound_empty (m := ⟨fun _ _ => 0, 0x80001 :: bareTable.freelist⟩) (by decide)
    (by decide)).create rfl rfl).1
  refine ⟨sound, .inr rfl, by decide, fun k low => absurd low (by simp [pages, PGSIZE]),
    ⟨none, fun k _ => ⟨?_, fun both => absurd both.1 (by simp [pages, PGSIZE])⟩⟩, fun k _ _ => vacant _,
    fun k low => absurd low (by simp [pages, PGSIZE]), by unfold Physical; decide⟩
  rintro ⟨pte, mapped, -⟩
  rw [vacant] at mapped
  cases mapped

end OsCpp.Sv39
