import OsCpp.Exec.Call

/-!
# What a failed `exec` leaves behind

A failed `sys_exec` returns everything it has acquired, except without permission and after the
stack guard has been cleared.  It does not return when the path is not found, when there is no frame
for an argument, or when there are too many of them.
-/

namespace OsCpp.Exec

open Function (update update_idem)

open Frames
open Program (wp_get wp_ite wp_set wp_throw)

/-- The program runs into the postcondition, or stops for a known reason. -/
def Runs {α : Type} (program : ExecM α) (post : α → Kernel → Prop) (k : Kernel) : Prop :=
  Program.wp program post (fun stop _ => stop ≠ .panic) k

/-- The same with given reasons to stop. -/
def RunsIn (ok : Stop → Prop) {α : Type} (program : ExecM α) (post : α → Kernel → Prop)
    (k : Kernel) : Prop := Program.wp program post (fun stop _ => ok stop) k

/-- A read from the file leaves the blocks an inode can have. -/
def World.Stops (w : World) : Prop :=
  w.elf = .stops ∨ (∃ i, w.ph i = .stops) ∨ ∃ i j, w.page i j = .stops

section

variable {ok : Stop → Prop} {α β : Type} {post : α → Kernel → Prop} {k : Kernel}

theorem runs_bind {program : ExecM β} {next : β → ExecM α}
    (first : RunsIn ok program (fun value => RunsIn ok (next value) post) k) :
    RunsIn ok (program >>= next) post k := (Program.wp_bind program next).mpr first

theorem runs_pure {value : α} (after : post value k) : RunsIn ok (pure value) post k := after

theorem runs_throw {stop : Stop} (known : ok stop) : RunsIn ok (throw stop) post k := known

/-- Nothing is asked after the image has been replaced. -/
theorem runs_late {p : Slot} {prog : Prog α} (late : ok .late) (after : ∀ value k', post value k') :
    RunsIn ok (mem p .late prog) post k := by
  unfold RunsIn Program.wp mem
  cases prog.alone (steps p) k.memory with
  | next memory value => exact after value _
  | blocked | halt => exact late

end

/-! ## Frames -/

/-- The call holds some frames; the processes and the lost frames are known. -/
structure Holds (total : List Frame) (ledgers : Slot → Ledger) (p : Slot) (procs : Slot → Entry)
    (lost : List Frame) (held : Multiset Frame) (m : State) : Prop where
  conserved : Conserved total m (update ledgers p (Ledger.idle.hold held))
  procs : m.proc_list = procs
  lost : m.lost = lost

section

variable {ok : Stop → Prop} {total : List Frame} {ledgers : Slot → Ledger} {p : Slot}
  {procs : Slot → Entry} {lost : List Frame} {held rest : Multiset Frame} {k : Kernel} {m : State}

theorem Holds.eta (holds : Holds total ledgers p procs lost held m) :
    m = ⟨m.freelist, procs, lost⟩ := by
  obtain ⟨_, rfl, rfl⟩ := holds
  rfl

theorem Holds.length_free (holds : Holds total ledgers p procs lost held m) :
    m.freelist.length ≤ total.length := by
  rw [← Multiset.coe_card]
  refine card_le_of_count fun frame => ?_
  have all := holds.conserved.frames frame
  rw [Multiset.coe_count]
  omega

variable (bounded : total.length ≤ NFRAME)

include bounded

/-- A routine that settles its ledger and does not panic. -/
theorem runs_mem {α : Type} {prog : Prog α} {stop : Stop} {post : α → Kernel → Prop}
    (settled : α → Ledger → Prop) (ended : α → State → Prop)
    (holds : Holds total ledgers p procs lost held k.memory)
    (settles : Frames.wp prog settled (Ledger.idle.hold held))
    (finishes : ends False p prog ended ⟨k.memory.freelist, procs, lost⟩)
    (after : ∀ value m l, settled value l → ended value m →
      Conserved total m (update ledgers p l) → post value { k with memory := m }) :
    RunsIn ok (mem p stop prog) post k := by
  rw [← holds.eta, ends, Process.Logic.wp_alone] at finishes
  unfold RunsIn Program.wp mem
  cases outcome : prog.alone (steps p) k.memory with
  | blocked | halt =>
    rw [outcome] at finishes
    exact absurd finishes id
  | next m value =>
    rw [outcome] at finishes
    have settles : logic.wp prog settled (update ledgers p (Ledger.idle.hold held) p) := by
      rwa [Function.update_self]
    obtain ⟨l, conserved, met⟩ :=
      (sound bounded).alone (fun _ _ => trivial) holds.conserved settles outcome
    rw [update_idem] at conserved
    exact after value m l met finishes conserved

variable (alive : (procs p).status = .RUNNABLE)

include alive

variable {post : Unit → Kernel → Prop}

theorem runs_kfree {page : Frame} {stop : Stop}
    (holds : Holds total ledgers p procs lost ({page} + rest) k.memory)
    (after : ∀ m, Holds total ledgers p procs lost rest m → post () { k with memory := m }) :
    RunsIn ok (mem p stop (act (.kfree page))) post k := by
  refine runs_mem bounded (fun _ l => l = Ledger.idle.hold rest)
    (fun _ m => m.proc_list = procs ∧ m.lost = lost) holds (wp_kfree rfl)
    (ends_kfree alive ⟨rfl, rfl⟩) ?_
  rintro _ m l rfl ⟨same, kept⟩ conserved
  exact after m ⟨conserved, same, kept⟩

theorem runs_kfreeAll {pages : List Frame} {stop : Stop}
    (holds : Holds total ledgers p procs lost ((pages : Multiset Frame) + rest) k.memory)
    (after : ∀ m, Holds total ledgers p procs lost rest m → post () { k with memory := m }) :
    RunsIn ok (kfreeAll p stop pages) post k := by
  induction pages generalizing k with
  | nil =>
    refine runs_pure (after k.memory ?_)
    simpa using holds
  | cons page pages ih =>
    rw [← Multiset.cons_coe, ← Multiset.singleton_add, add_assoc] at holds
    refine runs_bind (runs_kfree bounded alive holds fun m holds => ?_)
    exact ih holds after

theorem runs_kalloc {stop : Stop} {post : Option Frame → Kernel → Prop}
    (holds : Holds total ledgers p procs lost held k.memory)
    (none : ∀ m, post none { k with memory := m })
    (some : ∀ page m, Holds total ledgers p procs lost ({page} + held) m →
      post (some page) { k with memory := m }) : RunsIn ok (mem p stop (act .kalloc)) post k := by
  refine runs_mem bounded
    (fun result l => ∀ page, result = Option.some page → l = Ledger.idle.hold ({page} + held))
    (fun _ m => m.proc_list = procs ∧ m.lost = lost) holds ?_ ?_ ?_
  · refine wp_kalloc.mpr fun _ => ⟨nofun, fun frame page same => ?_⟩
    rw [Option.some.inj same]
  · cases k.memory.freelist with
    | nil => exact ends_kalloc_nil alive ⟨rfl, rfl⟩
    | cons frame free => exact ends_kalloc_cons alive ⟨rfl, rfl⟩
  · rintro result m l settled ⟨same, kept⟩ conserved
    cases result with
    | none => exact none m
    | some page =>
      obtain rfl := settled page rfl
      exact some page m ⟨conserved, same, kept⟩

/-! ### The image -/

/-- The page table of the new image, which can be discarded. -/
structure Standing (total : List Frame) (ledgers : Slot → Ledger) (p : Slot) (procs : Slot → Entry)
    (lost : List Frame) (rest : Multiset Frame) (t : Table) (sz : Nat) (m : State) : Prop where
  holds : Holds total ledgers p procs lost (t.frames + rest) m
  sane : Sane t sz
  image : Image t (pages sz)
  small : pages sz < 2 ^ 25

/-- The page table of the new image while it is being built. -/
structure Building (total : List Frame) (ledgers : Slot → Ledger) (p : Slot) (procs : Slot → Entry)
    (lost : List Frame) (rest : Multiset Frame) (t : Table) (sz : Nat) (m : State) : Prop
    extends Standing total ledgers p procs lost rest t sz m where
  full : Full t (pages sz)
  limit : pages sz + m.freelist.length < 2 ^ 25

variable {t : Table} {sz : Nat}

omit bounded alive in
theorem Building.round (building : Building total ledgers p procs lost rest t sz m) :
    Building total ledgers p procs lost rest t (PG_ROUND_UP sz) m where
  holds := building.holds
  sane := building.sane.round
  image := by
    rw [pages_round]
    exact building.image
  small := by
    rw [pages_round]
    exact building.small
  full := by
    rw [pages_round]
    exact building.full
  limit := by
    rw [pages_round]
    exact building.limit

theorem runs_discard (standing : Standing total ledgers p procs lost rest t sz k.memory)
    (after : ∀ m, Holds total ledgers p procs lost rest m → post () { k with memory := m }) :
    RunsIn ok (discard p t sz) post k := by
  refine runs_mem bounded (fun _ l => l = Ledger.idle.hold rest)
    (fun _ m => m.proc_list = procs ∧ m.lost = lost) standing.holds
    (wp_free_pagetable standing.sane rfl)
    (ends_free_image alive standing.image standing.small fun _ => ⟨rfl, rfl⟩) ?_
  rintro _ m l rfl ⟨same, kept⟩ conserved
  exact after m ⟨conserved, same, kept⟩

theorem runs_alloc_pagetable {trapframe : Frame} {post : Option Table → Kernel → Prop}
    (holds : Holds total ledgers p procs lost rest k.memory)
    (failed : ∀ m, Holds total ledgers p procs lost rest m → post none { k with memory := m })
    (made : ∀ t m, Building total ledgers p procs lost rest t 0 m →
      post (some t) { k with memory := m }) :
    RunsIn ok (mem p .panic (alloc_pagetable trapframe)) post k := by
  refine runs_mem bounded
    (fun result l => result.elim (l = Ledger.idle.hold rest) fun t =>
      Sane t 0 ∧ l = Ledger.idle.hold (t.frames + rest))
    (fun result m => (m.proc_list = procs ∧ m.lost = lost) ∧ ∀ t, result = some t → Fresh t) holds
    (wp_alloc_pagetable rfl fun t sane => ⟨sane, rfl⟩)
    (ends_alloc_pagetable alive (fun _ _ => ⟨⟨rfl, rfl⟩, (by simp)⟩)
      fun _ t fresh => ⟨⟨rfl, rfl⟩, fun t' same => Option.some.inj same ▸ fresh⟩) ?_
  rintro result m l settled ⟨⟨same, kept⟩, fresh⟩ conserved
  cases result with
  | none =>
    obtain rfl := settled
    exact failed m ⟨conserved, same, kept⟩
  | some t =>
    obtain ⟨sane, rfl⟩ := settled
    have holds : Holds total ledgers p procs lost (t.frames + rest) m := ⟨conserved, same, kept⟩
    have none : pages 0 = 0 := by decide
    have size := holds.length_free
    refine made t m ⟨⟨holds, sane, ?_, ?_⟩, ?_, ?_⟩
    · rw [none]
      exact (fresh t rfl).image
    · rw [none]
      decide
    · rw [none]
      exact full_zero t
    · rw [none]
      simp only [NFRAME] at bounded
      omega

theorem runs_uvm_alloc {newsz : Nat} {xperm : Flags} {post : Table × Nat → Kernel → Prop}
    (building : Building total ledgers p procs lost rest t sz k.memory)
    (failed : ∀ t' m, Standing total ledgers p procs lost rest t' sz m →
      post (t', 0) { k with memory := m })
    (mapped : ∀ t' sz' m, sz' = max sz newsz → Building total ledgers p procs lost rest t' sz' m →
      post (t', sz') { k with memory := m }) :
    RunsIn ok (mem p .panic (uvm_alloc t sz newsz xperm)) post k := by
  refine runs_mem bounded
    (fun result l => Sane result.1 (max sz result.2) ∧
      l = Ledger.idle.hold (Table.frames result.1 + rest))
    (fun result m => (m.proc_list = procs ∧ m.lost = lost) ∧
      (result.2 = 0 ∧ Image result.1 (pages sz) ∨ result.2 = max sz newsz ∧
        Image result.1 (pages result.2) ∧ Full result.1 (pages result.2) ∧
          pages result.2 + m.freelist.length < 2 ^ 25))
    building.holds
    (wp_uvm_alloc building.sane fun t' sz' sane _ => ⟨sane, rfl⟩)
    (ends_uvm_alloc alive building.image building.full building.limit
      (fun t' _ image _ => ⟨⟨rfl, rfl⟩, .inl ⟨rfl, image⟩⟩)
      fun t' sz' _ size image full limit => ⟨⟨rfl, rfl⟩, .inr ⟨size, image, full, limit⟩⟩) ?_
  rintro ⟨t', sz'⟩ m l ⟨sane, rfl⟩ ⟨⟨same, kept⟩, result⟩ conserved
  rcases result with ⟨zero, image⟩ | ⟨size, image, full, limit⟩
  · obtain rfl : sz' = 0 := zero
    exact failed t' m ⟨⟨conserved, same, kept⟩, sane.mono (le_max_left _ _), image, building.small⟩
  · exact mapped t' sz' m size ⟨⟨⟨conserved, same, kept⟩, sane.mono (le_max_right _ _), image,
      lt_of_le_of_lt le_self_add limit⟩, full, limit⟩

theorem runs_uvm_clear {page : Nat} {post : Table → Kernel → Prop}
    (building : Building total ledgers p procs lost rest t sz k.memory) (inside : page < pages sz)
    (after : ∀ t' frame m, Standing total ledgers p procs (lost ++ [frame]) rest t' sz m →
      post t' { k with memory := m }) :
    RunsIn ok (mem p .panic (uvm_clear t (page * PGSIZE))) post k := by
  refine runs_mem bounded
    (fun t' l => Sane t' sz ∧ l = Ledger.idle.hold (Table.frames t' + rest))
    (fun t' m => ∃ frame, (m.proc_list = procs ∧ m.lost = lost ++ [frame]) ∧ Image t' (pages sz))
    building.holds
    (wp_uvm_clear building.sane inside fun t' sane => ⟨sane, rfl⟩)
    (ends_uvm_clear alive building.image building.full inside (inside.trans building.small)
      fun t' frame image => ⟨frame, ⟨rfl, rfl⟩, image⟩) ?_
  rintro t' m l ⟨sane, rfl⟩ ⟨frame, ⟨same, kept⟩, image⟩ conserved
  exact after t' frame m ⟨⟨conserved, same, kept⟩, sane, image, building.small⟩

end

/-! ## Inodes and the log -/

/-- Everything but the frames is as before. -/
structure Same (before k : Kernel) : Prop where
  iref : k.iref = before.iref
  ilocked : k.ilocked = before.ilocked
  outstanding : k.outstanding = before.outstanding
  name : k.name = before.name
  trapframe : k.trapframe = before.trapframe

/-- The call has a reference to an inode, the lock of the inode and an operation of the log. -/
structure Inside (before : Kernel) (ip : Inode) (k : Kernel) : Prop where
  iref : k.iref = update before.iref ip (before.iref ip + 1)
  ilocked : k.ilocked = update before.ilocked ip true
  outstanding : k.outstanding = before.outstanding + 1
  name : k.name = before.name
  trapframe : k.trapframe = before.trapframe

section

variable {ok : Stop → Prop} {before k : Kernel} {ip : Inode}

theorem Same.memory (same : Same before k) (m : State) : Same before { k with memory := m } :=
  { same with }

theorem Inside.memory (inside : Inside before ip k) (m : State) :
    Inside before ip { k with memory := m } :=
  { inside with }

variable {post : Unit → Kernel → Prop}

theorem runs_ilock (free : k.ilocked ip = false) (referenced : 0 < k.iref ip)
    (after : post () { k with ilocked := update k.ilocked ip true }) :
    RunsIn ok (ilock ip) post k := by
  unfold RunsIn
  simp only [ilock, Program.wp_bind, wp_get, wp_ite, wp_throw, wp_set]
  refine ⟨fun wrong => ?_, fun _ => after⟩
  rcases wrong with missing | locked
  · omega
  · rw [free] at locked
    cases locked

theorem runs_iunlock (locked : k.ilocked ip = true) (referenced : 0 < k.iref ip)
    (after : post () { k with ilocked := update k.ilocked ip false }) :
    RunsIn ok (iunlock ip) post k := by
  unfold RunsIn
  simp only [iunlock, Program.wp_bind, wp_get, wp_ite, wp_throw,
    wp_set]
  refine ⟨fun wrong => ?_, fun _ => after⟩
  rcases wrong with free | missing
  · rw [locked] at free
    cases free
  · omega

theorem runs_release (inside : Inside before ip k) (unlocked : before.ilocked ip = false)
    (after : ∀ k', Same before k' → k'.memory = k.memory → post () k') :
    RunsIn ok (release ip) post k := by
  refine runs_bind (runs_bind (runs_iunlock (by simp [inside.ilocked]) (by simp [inside.iref]) ?_))
  refine after _ ⟨?_, ?_, ?_, inside.name, inside.trapframe⟩ rfl
  · simp [inside.iref]
  · change update k.ilocked ip false = before.ilocked
    rw [inside.ilocked, update_idem]
    exact Function.update_eq_self_iff.mpr unlocked.symm
  · change k.outstanding - 1 = before.outstanding
    rw [inside.outstanding, Nat.add_sub_cancel]

/-- `loadseg` finds every page of its segment. -/
theorem runs_loadseg {page : Nat → Read Unit} {t : Table} {n index j size : Nat}
    {post : Bool → Kernel → Prop} (stops : ∀ i, page i = .stops → ok .fileSystem)
    (full : Full t size) (range : j + n ≤ size) (after : ∀ loaded, post loaded k) :
    RunsIn ok (loadseg page t n index (j * PGSIZE)) post k := by
  induction n generalizing index j with
  | zero => exact runs_pure (after true)
  | succ n ih =>
    obtain ⟨⟨v, ⟨r, w, x, u⟩, pa⟩, found, valid, user⟩ := full j (by omega)
    obtain rfl : v = true := valid
    obtain rfl : u = true := user
    rw [loadseg, found]
    cases read : page index with
    | stops => exact runs_throw (stops index read)
    | short => exact runs_pure (after false)
    | full value =>
      have next : j * PGSIZE + PGSIZE = (j + 1) * PGSIZE := (Nat.succ_mul j PGSIZE).symm
      simp only
      rw [next]
      exact ih (by omega)

theorem Proghdr.good_of_not_bad {ph : Proghdr} (good : ¬ph.bad = true) :
    ph.filesz.toNat ≤ ph.memsz.toNat ∧
      (ph.vaddr + ph.memsz).toNat = ph.vaddr.toNat + ph.memsz.toNat ∧ ph.vaddr.toNat % PGSIZE = 0 := by
  simp only [Proghdr.bad, Bool.or_eq_true, decide_eq_true_eq, bne_iff_ne, ne_eq, not_or, not_not,
    UInt64.not_lt] at good
  obtain ⟨⟨file, overflow⟩, aligned⟩ := good
  have file := UInt64.le_iff_toNat_le.mp file
  have overflow := UInt64.le_iff_toNat_le.mp overflow
  have small := ph.memsz.toNat_lt
  refine ⟨file, ?_, aligned⟩
  rw [UInt64.toNat_add] at overflow ⊢
  omega

theorem runs_commit {w : World} {p : Slot} {entry : UInt64} {t : Table} {sz sp : Nat}
    (late : ok .late) (after : ∀ k', post () k') : RunsIn ok (commit w p entry t sz sp) post k := by
  refine runs_bind ?_
  change RunsIn ok _ post _
  refine runs_bind (runs_late late fun taken k' => ?_)
  exact runs_bind (runs_late late fun _ k'' => runs_late late fun _ => after)

/-- Freeing the pages of the arguments after the image has been replaced. -/
theorem runs_kfreeAll_late {p : Slot} {pages : List Frame}
    (late : ok .late) (after : ∀ k', post () k') : RunsIn ok (kfreeAll p .late pages) post k := by
  induction pages generalizing k with
  | nil => exact runs_pure (after k)
  | cons page pages ih => exact runs_bind (runs_late late fun _ _ => ih)

variable {total : List Frame} {ledgers : Slot → Ledger} {p : Slot} {procs : Slot → Entry}
  {lost : List Frame} {rest : Multiset Frame} {t : Table} {sz : Nat} {w : World}
  (bounded : total.length ≤ NFRAME) (alive : (procs p).status = .RUNNABLE)

include bounded alive

theorem runs_fail_work {post : Option (Table × Nat) → Kernel → Prop} (inside : Inside before ip k)
    (unlocked : before.ilocked ip = false)
    (standing : Standing total ledgers p procs lost rest t sz k.memory)
    (failed : ∀ k', Same before k' → Holds total ledgers p procs lost rest k'.memory → post none k') :
    RunsIn ok (fail_work p ip t sz) post k := by
  refine runs_bind (runs_discard bounded alive standing fun m holds => ?_)
  refine runs_bind (runs_release (inside.memory m) unlocked fun k' same memory => ?_)
  refine runs_pure (failed k' same ?_)
  rw [memory]
  exact holds

theorem runs_loadAll {left index : Nat} {post : Option (Table × Nat) → Kernel → Prop}
    (stops : w.Stops → ok .fileSystem) (inside : Inside before ip k)
    (unlocked : before.ilocked ip = false)
    (building : Building total ledgers p procs lost rest t sz k.memory)
    (failed : ∀ k', Same before k' → Holds total ledgers p procs lost rest k'.memory → post none k')
    (loaded : ∀ t' sz' k', Inside before ip k' →
      Building total ledgers p procs lost rest t' sz' k'.memory → post (some (t', sz')) k') :
    RunsIn ok (loadAll w p ip left index t sz) post k := by
  induction left generalizing index t sz k with
  | zero => exact runs_pure (loaded t sz k inside building)
  | succ left ih =>
    rw [loadAll]
    cases read : w.ph index with
    | stops => exact runs_throw (stops (.inr (.inl ⟨index, read⟩)))
    | short => exact runs_fail_work bounded alive inside unlocked building.toStanding failed
    | full ph =>
      simp only
      split
      · exact ih inside building
      · split
        · exact runs_fail_work bounded alive inside unlocked building.toStanding failed
        · next good =>
          obtain ⟨file, size, aligned⟩ := Proghdr.good_of_not_bad good
          refine runs_bind (runs_uvm_alloc bounded alive building (fun t' m standing => ?_)
            fun t' sz' m larger building' => ?_)
          · exact runs_fail_work bounded alive (inside.memory m) unlocked standing failed
          · simp only
            split
            · next zero =>
              have same : sz' = sz := by omega
              rw [same] at building'
              exact runs_fail_work bounded alive (inside.memory m) unlocked
                building'.toStanding failed
            · have start : ph.vaddr.toNat = ph.vaddr.toNat / PGSIZE * PGSIZE :=
                (Nat.div_mul_cancel (Nat.dvd_of_mod_eq_zero aligned)).symm
              have range : ph.vaddr.toNat / PGSIZE +
                  (ph.filesz.toNat % 2 ^ 32 + PGSIZE - 1) / PGSIZE ≤ pages sz' := by
                simp only [pages, PGSIZE] at aligned ⊢
                omega
              rw [start]
              refine runs_bind (runs_loadseg (fun i read => stops (.inr (.inr ⟨index, i, read⟩)))
                building'.full range fun loaded => ?_)
              cases loaded with
              | true => exact ih (inside.memory m) building'
              | false =>
                exact runs_fail_work bounded alive (inside.memory m) unlocked
                  building'.toStanding failed

theorem runs_finish {lengths : List Nat} {entry : UInt64} {post : Exit → Kernel → Prop}
    (same : Same before k)
    (building : Building total ledgers p procs lost rest t (PG_ROUND_UP sz) k.memory)
    (failed : ∀ k', Same before k' → Holds total ledgers p procs lost rest k'.memory → post .image k')
    (cleared : ∀ k' frame, Same before k' →
      Holds total ledgers p procs (lost ++ [frame]) rest k'.memory → post .tooLong k')
    (done : ∀ t' sz' sp k', k'.memory.proc_list = procs →
      RunsIn ok (commit w p entry t' sz' sp) (fun _ => post .done) k') :
    RunsIn ok (finish w p lengths entry t (PG_ROUND_UP sz)) post k := by
  refine runs_bind (runs_uvm_alloc bounded alive building (fun t' m standing => ?_)
    fun t' sz' m larger building' => ?_)
  · refine runs_bind (runs_discard bounded alive standing fun m' holds => ?_)
    exact runs_pure (failed _ (same.memory m') holds)
  · have size : sz' = (pages sz + (USERSTACK + 1)) * PGSIZE := by
      rw [larger, max_eq_right le_self_add, PG_ROUND_UP_eq, ← add_mul]
    have positive : sz' ≠ 0 := by
      rw [size]
      exact Nat.mul_ne_zero (Nat.succ_ne_zero _) (by decide)
    have guard : sz' - (USERSTACK + 1) * PGSIZE = pages sz * PGSIZE := by
      rw [size, add_mul, Nat.add_sub_cancel]
    have inside : pages sz < pages sz' := by
      rw [size, pages_mul]
      exact Nat.lt_add_of_pos_right (Nat.succ_pos _)
    simp only [if_neg positive]
    rw [guard]
    refine runs_bind (runs_uvm_clear bounded alive building' inside fun t'' frame m' standing => ?_)
    split
    · refine runs_bind (runs_discard bounded alive standing fun m'' holds => ?_)
      exact runs_pure (cleared _ frame (same.memory m'') holds)
    · exact runs_bind (done _ _ _ { k with memory := m' } standing.holds.procs)

/-- `exec` releases the inode and the log whichever way it ends. -/
theorem runs_exec {lengths : List Nat} {post : Exit → Kernel → Prop}
    (stops : w.Stops → ok .fileSystem)
    (inside : Inside before ip { k with outstanding := k.outstanding + 1 })
    (unlocked : before.ilocked ip = false) (holds : Holds total ledgers p procs lost rest k.memory)
    (failed : ∀ k', Same before k' → Holds total ledgers p procs lost rest k'.memory → post .image k')
    (cleared : ∀ k' frame, Same before k' →
      Holds total ledgers p procs (lost ++ [frame]) rest k'.memory → post .tooLong k')
    (done : ∀ entry t' sz' sp k', k'.memory.proc_list = procs →
      RunsIn ok (commit w p entry t' sz' sp) (fun _ => post .done) k') :
    RunsIn ok (exec w p ip lengths) post k := by
  have give_up : ∀ {k'}, Inside before ip k' → Holds total ledgers p procs lost rest k'.memory →
      RunsIn ok (release ip) (fun _ => RunsIn ok (pure .image) post) k' := by
    intro k' inside holds
    refine runs_release inside unlocked fun k'' same memory => runs_pure (failed k'' same ?_)
    rw [memory]
    exact holds
  refine runs_bind ?_
  change RunsIn ok _ post { k with outstanding := k.outstanding + 1 }
  cases read : w.elf with
  | stops => exact runs_throw (stops (.inl read))
  | short => exact runs_bind (give_up inside holds)
  | full elf =>
    simp only
    split
    · exact runs_bind (give_up inside holds)
    · refine runs_bind ?_
      change RunsIn ok _ post { k with outstanding := k.outstanding + 1 }
      refine runs_bind (runs_alloc_pagetable bounded alive holds (fun m holds => ?_)
        fun t m building => ?_)
      · exact runs_bind (give_up (inside.memory m) holds)
      · refine runs_bind (runs_loadAll bounded alive stops (inside.memory m) unlocked building
          (fun k' same holds => runs_pure (failed k' same holds)) fun t' sz' k' inside building => ?_)
        refine runs_bind (runs_release inside unlocked fun k'' same memory => ?_)
        have building : Building total ledgers p procs lost rest t' (PG_ROUND_UP sz') k''.memory := by
          rw [memory]
          exact building.round
        exact runs_finish bounded alive same building failed cleared (done elf.entry)

/-- The loop over `argv` keeps the pages it has filled, or frees them. -/
theorem runs_fetchArgs {left : Nat} {pages : List Frame} {lengths : List Nat}
    {post : Except Exit (List Frame × List Nat) → Kernel → Prop} (same : Same before k)
    (holds : Holds total ledgers p procs lost ((pages : Multiset Frame) + rest) k.memory)
    (failed : ∀ exit k', exit = .argv ∨ exit = .argument → Same before k' →
      Holds total ledgers p procs lost rest k'.memory → post (.error exit) k')
    (fetched : ∀ (pages : List Frame) lengths k', Same before k' →
      Holds total ledgers p procs lost ((pages : Multiset Frame) + rest) k'.memory →
        post (.ok (pages, lengths)) k') :
    RunsIn (· ≠ .panic) (fetchArgs w p left pages lengths) post k := by
  have give_up : ∀ {exit k'} {pages : List Frame}, exit = .argv ∨ exit = .argument →
      Same before k' → Holds total ledgers p procs lost ((pages : Multiset Frame) + rest) k'.memory →
      RunsIn (· ≠ .panic) (kfreeAll p .panic pages)
        (fun _ => RunsIn (· ≠ .panic) (pure (.error exit)) post) k' := by
    intro exit k' pages known same holds
    refine runs_kfreeAll bounded alive holds fun m holds => ?_
    exact runs_pure (failed exit _ known (same.memory m) holds)
  induction left generalizing pages lengths k with
  | zero =>
    rw [fetchArgs]
    split
    · exact runs_bind (give_up (.inl rfl) same holds)
    · exact runs_throw (by decide)
  | succ left ih =>
    rw [fetchArgs]
    split
    · exact runs_bind (give_up (.inl rfl) same holds)
    · split
      · exact runs_pure (fetched pages lengths k same holds)
      · refine runs_bind (runs_kalloc bounded alive holds (fun m => ?_) fun page m holds => ?_)
        · exact runs_throw (by decide)
        · have more : ((pages ++ [page] : List Frame) : Multiset Frame) + rest =
              {page} + ((pages : Multiset Frame) + rest) := by
            rw [← Multiset.coe_add, Multiset.coe_singleton, add_assoc, add_left_comm]
          rw [← more] at holds
          simp only
          split
          · exact runs_bind (give_up (.inr rfl) (same.memory m) holds)
          · exact ih (same.memory m) holds

omit bounded alive in
/-- What the call leaves behind at each exit. -/
def Leaves (total : List Frame) (ledgers : Slot → Ledger) (p : Slot) (procs : Slot → Entry)
    (lost : List Frame) (before : Kernel) : Exit → Kernel → Prop
  | .done, _ => True
  | .refused, k => ∃ ip, k.iref ip ≠ before.iref ip
  | .tooLong, k => ∃ frame, Holds total ledgers p procs (lost ++ [frame]) 0 k.memory
  | _, k => Same before k ∧ Holds total ledgers p procs lost 0 k.memory

theorem runs_sys_exec (unlocked : ∀ ip, w.lookup = .found ip → before.ilocked ip = false)
    (holds : Holds total ledgers p procs lost 0 before.memory) :
    Runs (sys_exec w p) (Leaves total ledgers p procs lost before) before := by
  change RunsIn (· ≠ .panic) _ _ _
  have start : Same before before := ⟨rfl, rfl, rfl, rfl, rfl⟩
  rw [sys_exec]
  split
  · exact runs_pure ⟨start, holds⟩
  · have none : Holds total ledgers p procs lost ((([] : List Frame) : Multiset Frame) + 0)
        before.memory := by
      simpa using holds
    refine runs_bind (runs_fetchArgs bounded alive start none (fun exit k known same holds => ?_)
      fun pages lengths k same holds => ?_)
    · rcases known with rfl | rfl <;> exact runs_pure ⟨same, holds⟩
    · simp only
      split
      · exact runs_throw (by decide)
      · exact runs_throw (by decide)
      · next ip found =>
        have unlocked := unlocked ip found
        have free : k.ilocked ip = false := by
          rw [same.ilocked]
          exact unlocked
        refine runs_bind ?_
        change Runs _ _ { k with iref := update k.iref ip (k.iref ip + 1) }
        refine runs_bind (runs_ilock free (by simp) ?_)
        split
        · refine runs_bind (runs_exec bounded alive (fun _ => by decide)
            ⟨?_, ?_, ?_, same.name, same.trapframe⟩ unlocked holds (fun k' same' holds' => ?_)
            (fun k' frame same' holds' => ?_) fun _ _ _ _ _ _ => runs_commit (by decide) fun k' => ?_)
          · rw [← same.iref]
          · rw [← same.ilocked]
          · rw [← same.outstanding]
          · refine runs_bind (runs_kfreeAll bounded alive holds' fun m holds'' => ?_)
            exact runs_pure ⟨same'.memory m, holds''⟩
          · refine runs_bind (runs_kfreeAll bounded alive holds' fun m holds'' => ?_)
            exact runs_pure ⟨frame, holds''⟩
          · exact runs_bind (runs_kfreeAll_late (by decide) fun k'' => runs_pure trivial)
        · refine runs_bind (runs_iunlock (by simp) (by simp) (runs_pure ⟨ip, ?_⟩))
          simp [same.iref]

end

/-! ## The contract -/

/-- Free frames, processes, inodes, the log and the registers are as before. -/
structure Unchanged (before k : Kernel) : Prop extends Same before k where
  freelist : k.memory.freelist.Perm before.memory.freelist
  proc_list : k.memory.proc_list = before.memory.proc_list

/-- If the image is not replaced, the call returns and nothing has changed. -/
def FailsCleanly (w : World) (p : Slot) (k : Kernel) : Prop :=
  match sys_exec w p k with
  | .ok .done _ => True
  | .ok _ k' => Unchanged k k'
  | .error stop _ => stop = .late

/-- The ends of the call that do not leave everything as it was. -/
def spoils : EStateM.Result Stop Kernel Exit → Bool
  | .ok .refused _ | .ok .tooLong _ => true
  | .error .garbage _ | .error .overrun _ | .error .fileSystem _ | .error .noFile _ => true
  | _ => false

/-- A kernel with only the first process. -/
def boot (free : Nat) : Kernel := ⟨Frames.init free, fun _ => 0, fun _ => false, 0, [], ⟨0, 0, 0⟩⟩

/-- A call without arguments for a file that is empty. -/
def emptyFile : World where
  path := true
  uargv _ := some 0
  string _ := none
  lookup := .found ⟨0, NINODE_pos⟩
  permitted := true
  elf := .short
  ph _ := .short
  page _ _ := .short
  last := []

/-- Two arguments of 3000 characters for a file without segments. -/
def longArguments : World :=
  { emptyFile with
    uargv := fun index => some (if index < 2 then 1 else 0)
    string := fun _ => some ⟨3000, by decide⟩
    elf := .full ⟨ELF_MAGIC, 0, 0⟩ }

end OsCpp.Exec
