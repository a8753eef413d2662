import OsCpp.Sv39.Page
import OsCpp.Lib.Execution

/-!
# Copying an address space

`uvm_copy` gives the child of `fork` the pages of its parent, each in a frame of its own, so that neither
of them sees what the other stores.
-/

namespace OsCpp.Sv39

open Frames (PX PGSIZE VA_MAX SamePage)
open Program (wp_bind wp_mono wp_ite wp_get wp)

variable {roots : Nat → Prop} {m m' m'' : Memory} {old new n : Nat}

/-- The first `n` pages of a table are copied to another one. -/
structure Copied (roots : Nat → Prop) (old new n : Nat) (m m' : Memory) : Prop where
  sound : Sound roots m'
  within : Within roots m m'
  others : ∀ {root va}, roots root → ¬(root = new ∧ ∃ k < n, SamePage (k * PGSIZE) va) →
    m'.entry root va = m.entry root va
  absent : ∀ k < n, m.entry old (k * PGSIZE) = none → m'.entry new (k * PGSIZE) = none
  present : ∀ k < n, ∀ {pte}, m.entry old (k * PGSIZE) = some pte →
    ∃ fresh ∈ m.freelist, m'.entry new (k * PGSIZE) = some (packed fresh (PTE_FLAGS pte)) ∧
      m'.ram fresh = m.ram (PTE2PA pte / PGSIZE)
  owned : ∀ k < n, ∀ {pte root va pte'}, m'.entry new (k * PGSIZE) = some pte → roots root →
    m'.entry root va = some pte' → PTE2PA pte' / PGSIZE = PTE2PA pte / PGSIZE →
    root = new ∧ SamePage (k * PGSIZE) va

theorem PTE_FLAGS_lt (pte : Nat) : PTE_FLAGS pte < 1024 := by
  rw [PTE_FLAGS_eq]
  exact Nat.mod_lt _ (by decide)

namespace Copied

theorem nil (sound : Sound roots m) : Copied roots old new 0 m m :=
  ⟨sound, Within.refl m, fun _ _ => rfl, fun _ low => absurd low (by omega), fun _ low => absurd low (by omega),
    fun _ low => absurd low (by omega)⟩

theorem skip (copied : Copied roots old new n m m') (isNew : roots new) (below : n * PGSIZE ≤ VA_MAX)
    (vacant : m.entry new (n * PGSIZE) = none) (missing : m.entry old (n * PGSIZE) = none) :
    Copied roots old new (n + 1) m m' := by
  have here : m'.entry new (n * PGSIZE) = none := by
    rw [copied.others isNew, vacant]
    rintro ⟨-, k, low, same⟩
    have := (samePage_mul ((Nat.mul_le_mul_right _ low.le).trans below) below).mp same
    omega
  refine ⟨copied.sound, copied.within, fun isRoot outside => copied.others isRoot ?_, fun k low absent => ?_,
    fun k low pte mapped => ?_, fun k low pte root va pte' mapped => ?_⟩
  · rintro ⟨rfl, k, low, same⟩
    exact outside ⟨rfl, k, by omega, same⟩
  · by_cases last : k = n
    · rw [last, here]
    · exact copied.absent k (by omega) absent
  · by_cases last : k = n
    · rw [last, missing] at mapped
      cases mapped
    · exact copied.present k (by omega) mapped
  · by_cases last : k = n
    · rw [last, here] at mapped
      cases mapped
    · exact copied.owned k (by omega) mapped

theorem push (copied : Copied roots old new n m m') (first : Sound roots m) (isOld : roots old) (isNew : roots new)
    (below : n * PGSIZE ≤ VA_MAX) {pte fresh : Nat} {rest : List Nat} {m₁ : Memory}
    (mapped : m.entry old (n * PGSIZE) = some pte) (free : m'.freelist = fresh :: rest)
    (taken : m₁ = ⟨Function.update m'.ram fresh (m'.ram (PTE2PA pte / PGSIZE)), rest⟩)
    (sound : Sound roots m'') (grows : Grows roots m₁ m'')
    (entries : ∀ {root va}, roots root → m''.entry root va =
      if root = new ∧ SamePage (n * PGSIZE) va then some (packed fresh (PTE_FLAGS pte))
      else m'.entry root va) : Copied roots old new (n + 1) m m'' := by
  obtain ⟨-, within, given, -, unmapped⟩ := copied.sound.take free taken
  have small : fresh < 2 ^ 52 := given.small
  have frame : PTE2PA (packed fresh (PTE_FLAGS pte)) / PGSIZE = fresh := frame_pack small (PTE_FLAGS_lt pte)
  have step := within.trans grows.within
  have last : m''.entry new (n * PGSIZE) = some (packed fresh (PTE_FLAGS pte)) := by
    rw [entries isNew, if_pos ⟨rfl, rfl, rfl, rfl⟩]
  have older : ∀ k < n, m''.entry new (k * PGSIZE) = m'.entry new (k * PGSIZE) := by
    intro k low
    rw [entries isNew, if_neg]
    rintro ⟨-, same⟩
    have := (samePage_mul below ((Nat.mul_le_mul_right _ low.le).trans below)).mp same
    omega
  have words : m''.ram fresh = m.ram (PTE2PA pte / PGSIZE) := by
    have moved : m''.ram fresh = m₁.ram fresh :=
      grows.data (given.used 0 one_pos) (given.data 0 one_pos)
    rw [moved, taken]
    obtain ⟨used, data⟩ := first.leaves isOld mapped
    exact (Function.update_self ..).trans (copied.within.data used data)
  have member : fresh ∈ m'.freelist := by
    rw [free]
    exact .head _
  refine ⟨sound, copied.within.trans step, fun {root va} isRoot outside => ?_, fun k low absent => ?_,
    fun k low pte' mapped' => ?_, fun k low pte₁ root va pte₂ mapped₁ isRoot mapped₂ equal => ?_⟩
  · rw [entries isRoot, if_neg fun both => outside ⟨both.1, n, by omega, both.2⟩]
    refine copied.others isRoot ?_
    rintro ⟨rfl, k, low, same⟩
    exact outside ⟨rfl, k, by omega, same⟩
  · by_cases new' : k = n
    · rw [new', mapped] at absent
      cases absent
    · rw [older k (by omega)]
      exact copied.absent k (by omega) absent
  · by_cases new' : k = n
    · subst new'
      rw [mapped] at mapped'
      cases mapped'
      exact ⟨fresh, copied.within.mem member, last, words⟩
    · obtain ⟨fresh', free', there, words'⟩ := copied.present k (by omega) mapped'
      refine ⟨fresh', free', (older k (by omega)).trans there, ?_⟩
      obtain ⟨used, data⟩ := copied.sound.leaves isNew there
      rw [frame_pack (first.small fresh' free') (PTE_FLAGS_lt pte')] at used data
      rw [step.data used data, words']
  · rw [entries isRoot] at mapped₂
    by_cases new' : k = n
    · subst new'
      rw [last] at mapped₁
      cases mapped₁
      rw [frame] at equal
      split at mapped₂
      next here => exact here
      next => exact absurd equal (unmapped isRoot mapped₂)
    · rw [older k (by omega)] at mapped₁
      split at mapped₂
      · cases mapped₂
        rw [frame] at equal
        exact absurd equal.symm (unmapped isNew mapped₁)
      · exact copied.owned k (by omega) mapped₁ isRoot mapped₂ equal

end Copied

theorem wp_copyFrom (first : Sound roots m) (isOld : roots old) (isNew : roots new) (apart : old ≠ new)
    (count : Nat) (copied : Copied roots old new n m m') (below : (n + count) * PGSIZE ≤ VA_MAX)
    (vacant : ∀ k < n + count, m.entry new (k * PGSIZE) = none) :
    wp (copyFrom old new (n * PGSIZE) count)
      (fun done m'' => done = true → Copied roots old new (n + count) m m'') (fun _ _ => True) m' := by
  induction count generalizing n m' with
  | zero => exact fun _ => copied
  | succ count ih =>
    have limit : n * PGSIZE + PGSIZE ≤ VA_MAX := by
      rw [← Nat.succ_mul]
      exact (Nat.mul_le_mul_right _ (by omega)).trans below
    have here : n * PGSIZE ≤ VA_MAX := Nat.le_of_add_right_le limit
    have next : n * PGSIZE + PGSIZE = (n + 1) * PGSIZE := by ring
    have total : n + (count + 1) = n + 1 + count := by ring
    rw [total] at below vacant ⊢
    have parent : m'.entry old (n * PGSIZE) = m.entry old (n * PGSIZE) :=
      copied.others isOld fun both => apart both.1
    have failed : ∀ m₁, wp (uvm_unmap new (n * PGSIZE) (n * PGSIZE / PGSIZE) true)
        (fun _ => wp (pure false)
          (fun done m'' => done = true → Copied roots old new (n + 1 + count) m m'')
          fun (_ : String) _ => True) (fun _ _ => True) m₁ := fun m₁ =>
      Program.wp_of_forall (fun _ _ => Bool.noConfusion) fun _ _ => trivial
    unfold copyFrom
    rw [wp_bind, wp, walk_lookup old here]
    cases found : m'.low old (n * PGSIZE) with
    | none => trivial
    | some low =>
      have read := entry_of_low found
      rw [parent] at read
      simp only [Option.map_some, load, wp_bind, wp_get, Program.wp_pure,
        wp_ite]
      refine ⟨fun invalid => ?_, fun valid => ?_⟩
      · rw [if_neg (by simpa using invalid)] at read
        rw [next]
        exact ih (copied.skip isNew here (vacant n (by omega)) read) below vacant
      · rw [if_pos valid] at read
        generalize m'.ram low (PX 0 (n * PGSIZE)) = pte at *
        refine wp_mono (wp_kalloc m') ?_ fun _ _ => False.elim
        rintro (_ | fresh) m₁ taken
        · rw [wp_bind]
          exact failed m₁
        · obtain ⟨rest, free, rfl⟩ := taken
          have source : PTE2PA pte / PGSIZE ≠ fresh := by
            rintro rfl
            refine (copied.sound.leaves isOld (parent.trans read)).1 ?_
            rw [free]
            exact .head _
          simp only [memmove, wp_bind, Program.wp_modify, Function.update_idem,
            Function.update_of_ne source]
          obtain ⟨m₁, taken⟩ : ∃ m₁ : Memory,
              m₁ = ⟨Function.update m'.ram fresh (m'.ram (PTE2PA pte / PGSIZE)), rest⟩ := ⟨_, rfl⟩
          rw [← taken]
          obtain ⟨sound₁, -, given, entry₁, -⟩ := copied.sound.take free taken
          have unused : m₁.entry new (n * PGSIZE) = none := by
            rw [entry₁ isNew, copied.others isNew, vacant n (by omega)]
            rintro ⟨-, k, low', same⟩
            have := (samePage_mul ((Nat.mul_le_mul_right _ low'.le).trans here) here).mp same
            omega
          refine wp_mono (wp_map_page sound₁ isNew (PTE_FLAGS_lt pte) (Nat.mul_mod_left _ _)
            limit unused given) ?_ fun _ _ => False.elim
          rintro (_ | _) m₂ ⟨sound₂, grows, entries⟩
          · rw [if_neg Bool.false_ne_true, wp_bind]
            exact failed m₂
          · have mapped : ∀ {root va}, roots root → m₂.entry root va =
                if root = new ∧ SamePage (n * PGSIZE) va then some (packed fresh (PTE_FLAGS pte))
                else m'.entry root va := by
              intro root va isRoot
              rw [entries isRoot, entry₁ isRoot]
              simp only [true_and]
            simp only [if_true, next]
            exact ih (copied.push first isOld isNew here read free taken sound₂ grows mapped) below vacant

/-- The words seen at an address. -/
def Memory.contents (m : Memory) (root va : Nat) : Option (Fin 512 → Nat) :=
  (m.translate root va).map fun mapping => m.ram mapping.1

/-- A store to a page through a page table. -/
structure Store where
  root : Nat
  page : Nat
  index : Fin 512
  word : Nat

/-- A store, which faults where nothing is mapped. -/
def store (m : Memory) (write : Store) : Option Memory :=
  (m.translate write.root (write.page * PGSIZE)).map fun mapping =>
    { m with ram := Radix.store m.ram mapping.1 write.index write.word }

/-- Stores to data change no page table. -/
theorem store_sound (sound : Sound roots m) {write : Store} (isRoot : roots write.root)
    (stored : store m write = some m') :
    Sound roots m' ∧ (∀ {root va}, roots root → m'.entry root va = m.entry root va) ∧
      ∃ pte, m.entry write.root (write.page * PGSIZE) = some pte ∧
        ∀ {frame}, frame ≠ PTE2PA pte / PGSIZE → m'.ram frame = m.ram frame := by
  unfold store Memory.translate at stored
  rw [Option.map_map, Option.map_eq_some_iff] at stored
  obtain ⟨pte, mapped, rfl⟩ := stored
  obtain ⟨used, data⟩ := sound.leaves isRoot mapped
  have words : ∀ {frame}, frame ≠ PTE2PA pte / PGSIZE →
      Radix.store m.ram (PTE2PA pte / PGSIZE) write.index write.word frame = m.ram frame := fun other =>
    Radix.store_of_ne other _ _
  have same : ∀ {frame}, IsNode roots m frame →
      Radix.store m.ram (PTE2PA pte / PGSIZE) write.index write.word frame = m.ram frame := by
    intro frame node
    refine words ?_
    rintro rfl
    exact data node
  exact ⟨sound.of_data same ⟨[], rfl⟩, fun isRoot' => entry_of_data same isRoot' _, pte, mapped, words⟩

/-- A store through one of two tables, to one of the first pages. -/
def Through (old new count : Nat) (_ : Memory) (write : Store) : Prop :=
  (write.root = old ∨ write.root = new) ∧ write.page < count

theorem run_sound (sound : Sound roots m) (isOld : roots old) (isNew : roots new) {count : Nat}
    {writes : List Store} (run : Execution.Run store (Through old new count) m writes m') :
    Sound roots m' ∧ ∀ root va, roots root → m'.entry root va = m.entry root va := by
  induction run with
  | nil => exact ⟨sound, fun _ _ _ => rfl⟩
  | snoc _ through stored ih =>
    obtain ⟨sound', same⟩ := ih
    have isRoot := through.1.elim (· ▸ isOld) (· ▸ isNew)
    obtain ⟨sound'', same', -⟩ := store_sound sound' isRoot stored
    exact ⟨sound'', fun root va isRoot => (same' isRoot).trans (same root va isRoot)⟩

theorem contents_congr {root va : Nat} (same : m'.entry root va = m.entry root va)
    (words : ∀ {pte}, m.entry root va = some pte → m'.ram (PTE2PA pte / PGSIZE) = m.ram (PTE2PA pte / PGSIZE)) :
    m'.contents root va = m.contents root va := by
  unfold Memory.contents Memory.translate
  rw [same]
  cases mapped : m.entry root va with
  | none => rfl
  | some pte => exact congrArg some (words mapped)

/-- The child has the parent's pages in frames of its own. -/
structure Isolated (roots : Nat → Prop) (old new count : Nat) (m m' : Memory) : Prop where
  copied : ∀ k < count, (m'.translate new (k * PGSIZE)).map Prod.snd =
    (m.translate old (k * PGSIZE)).map Prod.snd ∧ m'.contents new (k * PGSIZE) = m.contents old (k * PGSIZE)
  distinct : ∀ k < count, ∀ {frame flags}, m'.translate new (k * PGSIZE) = some (frame, flags) →
    frame ∉ m'.freelist ∧ ¬IsNode roots m' frame ∧ ∀ {root va flags'}, roots root →
      m'.translate root va = some (frame, flags') → root = new ∧ SamePage (k * PGSIZE) va
  parent : ∀ {root va}, roots root → root ≠ new →
    m'.translate root va = m.translate root va ∧ m'.contents root va = m.contents root va
  stores : ∀ {writes m₁}, Execution.Run store (Through old new count) m' writes m₁ → ∀ {write m₂},
    Through old new count m₁ write → store m₁ write = some m₂ → ∀ reader, reader = old ∨ reader = new →
    reader ≠ write.root → ∀ k < count, m₂.contents reader (k * PGSIZE) = m₁.contents reader (k * PGSIZE)

theorem flags_or_valid {pte : Nat} (valid : pte &&& PTE_V ≠ 0) : PTE_FLAGS pte ||| PTE_V = PTE_FLAGS pte := by
  rw [and_PTE_V] at valid
  have odd : PTE_FLAGS pte % 2 = 1 := by
    rw [PTE_FLAGS_eq]
    omega
  refine Nat.eq_of_testBit_eq fun i => ?_
  rw [Nat.testBit_or, PTE_V]
  cases i with
  | zero => simp [Nat.testBit_zero, odd]
  | succ i => simp [Nat.testBit_succ]

theorem entry_valid {root va pte : Nat} (mapped : m.entry root va = some pte) : pte &&& PTE_V ≠ 0 := by
  unfold Memory.entry at mapped
  cases found : m.low root va with
  | none =>
    rw [found] at mapped
    cases mapped
  | some low =>
    rw [found, Option.bind_some] at mapped
    obtain ⟨valid, equal⟩ := Option.ite_none_right_eq_some.mp mapped
    exact Option.some.inj equal ▸ valid

theorem isolated_of_copied {count : Nat} (first : Sound roots m) (isOld : roots old) (isNew : roots new)
    (apart : old ≠ new) (copied : Copied roots old new count m m') : Isolated roots old new count m m' := by
  refine ⟨fun k low => ?_, fun k low frame flags mapped => ?_, fun {root va} isRoot other => ?_,
    fun {writes m₁} run {write m₂} through stored reader isReader other k low => ?_⟩
  · unfold Memory.contents Memory.translate
    cases mapped : m.entry old (k * PGSIZE) with
    | none => rw [copied.absent k low mapped]; exact ⟨rfl, rfl⟩
    | some pte =>
      obtain ⟨fresh, free, mapped', words⟩ := copied.present k low mapped
      have small := first.small fresh free
      have flags := PTE_FLAGS_lt pte
      rw [mapped']
      simp only [Option.map_some]
      rw [flags_pack small flags, frame_pack small flags, words, flags_or_valid (entry_valid mapped)]
      exact ⟨rfl, rfl⟩
  · obtain ⟨pte, entry, equal⟩ := Option.map_eq_some_iff.mp mapped
    cases equal
    obtain ⟨used, data⟩ := copied.sound.leaves isNew entry
    refine ⟨used, data, fun {root va flags'} isRoot mapped' => ?_⟩
    obtain ⟨pte', entry', equal'⟩ := Option.map_eq_some_iff.mp mapped'
    exact copied.owned k low entry isRoot entry' (Prod.mk.inj equal').1
  · have same : m'.entry root va = m.entry root va := copied.others isRoot fun both => other both.1
    refine ⟨translate_congr same, contents_congr same fun mapped => ?_⟩
    obtain ⟨used, data⟩ := first.leaves isRoot mapped
    exact copied.within.data used data
  · obtain ⟨sound₁, same₁⟩ := run_sound copied.sound isOld isNew run
    have isRoot := through.1.elim (· ▸ isOld) (· ▸ isNew)
    have isRoot' : roots reader := isReader.elim (· ▸ isOld) (· ▸ isNew)
    obtain ⟨-, same₂, pte, written, words⟩ := store_sound sound₁ isRoot stored
    rw [same₁ _ _ isRoot] at written
    refine contents_congr (same₂ isRoot') fun {pte'} mapped => words fun equal => other ?_
    rw [same₁ _ _ isRoot'] at mapped
    -- the child's frame is mapped by the child alone
    rcases isReader with rfl | rfl
    · have child : write.root = new := through.1.resolve_left fun same => other same.symm
      rw [child] at written
      exact absurd (copied.owned _ through.2 written isRoot' mapped equal).1 apart
    · exact (copied.owned k low mapped isRoot written equal.symm).1.symm

/-- When `uvm_copy` succeeds, parent and child are isolated from each other. -/
theorem fork_isolates (first : Sound roots m) (isOld : roots old) (isNew : roots new) (apart : old ≠ new)
    {sz : Nat} (below : sz ≤ VA_MAX) (vacant : ∀ k < pages sz, m.translate new (k * PGSIZE) = none)
    (returned : uvm_copy old new sz m = .ok true m') : Isolated roots old new (pages sz) m m' := by
  have range : (0 + pages sz) * PGSIZE ≤ VA_MAX := by
    have limit : VA_MAX = 2 ^ 26 * 4096 := by decide
    rw [limit] at below ⊢
    simp only [pages, PGSIZE]
    omega
  have copying := wp_copyFrom first isOld isNew apart (pages sz) (Copied.nil first) range
    fun k low => entry_eq_none_of_translate (vacant k (by omega))
  rw [Nat.zero_mul, Nat.zero_add] at copying
  exact isolated_of_copied first isOld isNew apart (Program.post_of_wp copying returned rfl)

/-- Two empty tables, in frames 1 and 2, and a frame with data. -/
def twoTables : Memory :=
  ⟨Function.update (Function.update (fun frame _ => frame) 1 fun _ => 0) 2 fun _ => 0,
    [3, 4, 5, 6, 7, 8, 9]⟩

/-- The parent has the data at its first page, and no second page. -/
def parent : Memory :=
  match map_pages 1 0 (100 * PGSIZE) PGSIZE (PTE_R ||| PTE_U) twoTables with
  | .ok _ m => m
  | .error _ m => m

theorem sound_twoTables : Sound (fun root => (False ∨ root = 1) ∨ root = 2) twoTables := by
  have first := ((sound_empty (m := ⟨fun frame _ => frame, [1, 2, 3, 4, 5, 6, 7, 8, 9]⟩) (by decide)
    (by decide)).create rfl rfl).1
  exact (first.create rfl rfl).1

theorem sound_parent : Sound (fun root => (False ∨ root = 1) ∨ root = 2) parent ∧
    ∀ va, parent.entry 2 va = none := by
  have blank : ∀ root, (False ∨ root = 1) ∨ root = 2 → ∀ index, twoTables.ram root index = 0 := by
    rintro root ((absurd | rfl) | rfl) index
    · exact absurd.elim
    · rfl
    · rfl
  have given : Given (fun root => (False ∨ root = 1) ∨ root = 2) twoTables 100 1 := by
    refine ⟨by decide, by decide, fun k low node => ?_⟩
    obtain ⟨root, path, isRoot, -, reached⟩ := node
    have equal := (node_blank (blank root isRoot) reached).2
    rcases isRoot with (absurd | rfl) | rfl
    · exact absurd
    · omega
    · omega
  obtain ⟨done, m', ran, sound, -, entries⟩ := Program.returns_of_wp (wp_map_page sound_twoTables
    (.inl (.inr rfl)) (show PTE_R ||| PTE_U < 1024 by decide) (show 0 % PGSIZE = 0 by decide) (by decide)
    (entry_blank (blank 1 (.inl (.inr rfl))) 0) given)
  have result : parent = m' := by rw [parent, ran]
  rw [result]
  refine ⟨sound, fun va => ?_⟩
  rw [entries (.inr rfl), if_neg (by simp), entry_blank (blank 2 (.inr rfl))]

theorem fork_isolates_parent : ∃ m', uvm_copy 1 2 5000 parent = .ok true m' ∧
    Isolated (fun root => (False ∨ root = 1) ∨ root = 2) 1 2 2 parent m' ∧
    (parent.contents 1 0).map (fun words => words 0) = some 100 := by
  obtain ⟨m', returned⟩ : ∃ m', uvm_copy 1 2 5000 parent = .ok true m' := by
    have result : (match uvm_copy 1 2 5000 parent with
      | .ok done _ => done
      | .error _ _ => false) = true := by decide +kernel
    cases outcome : uvm_copy 1 2 5000 parent with
    | ok done m' =>
      rw [outcome] at result
      exact ⟨m', by rw [show done = true from result]⟩
    | error stop m' =>
      rw [outcome] at result
      cases result
  refine ⟨m', returned, fork_isolates sound_parent.1 (.inl (.inr rfl)) (.inr rfl) (by decide)
    (by decide) (fun k _ => ?_) returned, by decide +kernel⟩
  rw [Memory.translate, sound_parent.2]
  rfl

end OsCpp.Sv39
