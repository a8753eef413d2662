import OsCpp.Refs.Ledger

/-!
# Accounts of references

The reference counts are the sums of what is stored and of what the calls in progress hold, apart
from the inodes of refused calls of `exec`, and as long as no `pipealloc` takes a file for its pipe.
-/

namespace OsCpp.Refs

open Tally (count hit hit_none hit_some le_sum count_update sum_update)
open Multiset (one_le_count_iff_mem count_erase_self count_erase_of_ne mem_of_mem_erase count_cons_self erase_le_erase)
open Function (forall_update_iff update update_of_ne update_self)

namespace State

/-- References to an inode that are stored, or that nobody will ever drop. -/
def owners (s : State) (i : Inode) : Nat :=
  count s.fip i + count s.cwd i + s.refused.count i

/-- Descriptors that refer to an open file. -/
def descriptors (s : State) (f : FileIx) : Nat := ∑ p, count (s.slot p) f

end State

/-- Inodes are referred to as often as they count. -/
def InodesBalanced (s : State) (ledgers : Proc → Ledger) : Prop :=
  ∀ i, s.iref i = s.owners i + ∑ p, (ledgers p).inodes.count i

/-- Open files are referred to as often as they count. -/
def FilesBalanced (s : State) (ledgers : Proc → Ledger) : Prop :=
  ∀ f, s.fref f = s.descriptors f + ∑ p, (ledgers p).files.count f

/-- Entries of `ftable` that are free or just allocated refer to nothing. -/
structure Vacant (s : State) (ledgers : Proc → Ledger) : Prop where
  unused : ∀ f, s.fref f = 0 → s.fip f = none
  held : ∀ p, (ledgers p).fresh ≤ (ledgers p).files
  fresh : ∀ p, ∀ f ∈ (ledgers p).fresh, s.fref f = 1 ∧ s.fip f = none

/-- The sleep-locks are those in the ledgers. -/
structure Locked (s : State) (ledgers : Proc → Ledger) : Prop where
  holder : ∀ p i, s.ilocked i = some p ↔ i ∈ (ledgers p).locks
  once : ∀ p, (ledgers p).locks.Nodup

/-- What processes have given up, and what those that do not live have. -/
structure Cleared (s : State) (ledgers : Proc → Ledger) : Prop where
  slots : ∀ p (fd : Fd), fd.val < (ledgers p).cleared → s.slot p fd = none
  cwd : ∀ p, (ledgers p).homeless = true → s.cwd p = none
  dead : ∀ p, s.live p = false → ledgers p = Ledger.idle ∧ s.cwd p = none ∧ ∀ fd, s.slot p fd = none

/-- No call of `pipealloc` has succeeded. -/
structure Pipeless (s : State) : Prop where
  types : ∀ f, s.fpipe f = none
  pipes : s.pipes = []
  kfreed : s.kfreed = []

structure Accounts (s : State) (ledgers : Proc → Ledger) : Prop where
  inodes : InodesBalanced s ledgers
  files : FilesBalanced s ledgers
  vacant : Vacant s ledgers
  locked : Locked s ledgers
  cleared : Cleared s ledgers
  pipeless : Pipeless s

section

variable {s next : State} {ledgers : Proc → Ledger} {p : Proc} {l : Ledger}

/-- An operation keeps the balance of inodes if it does so for its process. -/
theorem InodesBalanced.step (balanced : InodesBalanced s ledgers)
    (change : ∀ i, next.iref i + (s.owners i + (ledgers p).inodes.count i) =
      s.iref i + (next.owners i + l.inodes.count i)) :
    InodesBalanced next (update ledgers p l) := by
  intro i
  have before := balanced i
  have here := change i
  have sum := sum_update (fun ledger : Ledger => ledger.inodes.count i) ledgers p l
  omega

theorem FilesBalanced.step (balanced : FilesBalanced s ledgers)
    (change : ∀ f, next.fref f + (s.descriptors f + (ledgers p).files.count f) =
      s.fref f + (next.descriptors f + l.files.count f)) :
    FilesBalanced next (update ledgers p l) := by
  intro f
  have before := balanced f
  have here := change f
  have sum := sum_update (fun ledger : Ledger => ledger.files.count f) ledgers p l
  omega

theorem InodesBalanced.le_iref (balanced : InodesBalanced s ledgers) (p : Proc) (i : Inode) :
    (ledgers p).inodes.count i ≤ s.iref i := by
  have part := le_sum (fun ledger : Ledger => ledger.inodes.count i) ledgers p
  have total := balanced i
  omega

theorem FilesBalanced.le_fref (balanced : FilesBalanced s ledgers) (p : Proc) (f : FileIx) :
    s.descriptors f + (ledgers p).files.count f ≤ s.fref f := by
  have part := le_sum (fun ledger : Ledger => ledger.files.count f) ledgers p
  have total := balanced f
  omega

theorem FilesBalanced.two_le_fref (balanced : FilesBalanced s ledgers) {p q : Proc} {f : FileIx}
    (different : p ≠ q) (left : f ∈ (ledgers p).files) (right : f ∈ (ledgers q).files) :
    2 ≤ s.fref f := by
  have part := Tally.add_le_sum (fun ledger : Ledger => ledger.files.count f) ledgers different
  have total := balanced f
  have one := one_le_count_iff_mem.mpr left
  have other := one_le_count_iff_mem.mpr right
  omega

theorem descriptors_pos {fd : Fd} {f : FileIx} (stored : s.slot p fd = some f) :
    1 ≤ s.descriptors f :=
  (Tally.count_pos stored).trans (le_sum (fun row => count row f) s.slot p)

theorem descriptors_setSlot (fd : Fd) (file : Option FileIx) (f : FileIx) :
    (s.setSlot p fd file).descriptors f + hit f (s.slot p fd) =
      s.descriptors f + hit f file := by
  have row := count_update (s.slot p) fd file f
  have sum := sum_update (fun row : Fd → Option FileIx => count row f) s.slot p
    (update (s.slot p) fd file)
  simp only [State.descriptors, State.setSlot] at sum ⊢
  omega

end

section

variable {s next : State} {ledgers : Proc → Ledger} {p : Proc} {l : Ledger}

theorem Vacant.put (vacant : Vacant s ledgers)
    (unused : ∀ f, next.fref f = 0 → next.fip f = none) (held : l.fresh ≤ l.files)
    (mine : ∀ f ∈ l.fresh, next.fref f = 1 ∧ next.fip f = none)
    (others : ∀ q ≠ p, ∀ f ∈ (ledgers q).fresh, next.fref f = 1 ∧ next.fip f = none) :
    Vacant next (update ledgers p l) where
  unused := unused
  held := (forall_update_iff ledgers fun _ ledger => ledger.fresh ≤ ledger.files).mpr
    ⟨held, fun q _ => vacant.held q⟩
  fresh := (forall_update_iff ledgers fun _ ledger =>
    ∀ f ∈ ledger.fresh, next.fref f = 1 ∧ next.fip f = none).mpr ⟨mine, others⟩

theorem Vacant.frame (vacant : Vacant s ledgers) (fref : next.fref = s.fref)
    (fip : next.fip = s.fip) (files : l.files = (ledgers p).files)
    (fresh : l.fresh = (ledgers p).fresh) : Vacant next (update ledgers p l) := by
  refine vacant.put ?_ ?_ ?_ ?_
  · rw [fref, fip]
    exact vacant.unused
  · rw [files, fresh]
    exact vacant.held p
  · rw [fref, fip, fresh]
    exact vacant.fresh p
  · rw [fref, fip]
    exact fun q _ => vacant.fresh q

theorem Locked.put (locked : Locked s ledgers)
    (mine : ∀ i, next.ilocked i = some p ↔ i ∈ l.locks) (once : l.locks.Nodup)
    (others : ∀ q ≠ p, ∀ i, next.ilocked i = some q ↔ i ∈ (ledgers q).locks) :
    Locked next (update ledgers p l) where
  holder := (forall_update_iff ledgers fun q ledger =>
    ∀ i, next.ilocked i = some q ↔ i ∈ ledger.locks).mpr ⟨mine, others⟩
  once := (forall_update_iff ledgers fun _ ledger => ledger.locks.Nodup).mpr
    ⟨once, fun q _ => locked.once q⟩

theorem Locked.frame (locked : Locked s ledgers) (ilocked : next.ilocked = s.ilocked)
    (locks : l.locks = (ledgers p).locks) : Locked next (update ledgers p l) := by
  refine locked.put ?_ ?_ ?_
  · rw [ilocked, locks]
    exact locked.holder p
  · rw [locks]
    exact locked.once p
  · rw [ilocked]
    exact fun q _ => locked.holder q

section

variable (cleared : Cleared s ledgers) (alive : s.live p = true)
include cleared alive

theorem Cleared.put (live : next.live = s.live)
    (slots : ∀ fd : Fd, fd.val < l.cleared → next.slot p fd = none)
    (cwd : l.homeless = true → next.cwd p = none)
    (others : ∀ q ≠ p, next.slot q = s.slot q ∧ next.cwd q = s.cwd q) :
    Cleared next (update ledgers p l) where
  slots := (forall_update_iff ledgers fun q ledger =>
    ∀ fd : Fd, fd.val < ledger.cleared → next.slot q fd = none).mpr
    ⟨slots, fun q other => (others q other).1 ▸ cleared.slots q⟩
  cwd := (forall_update_iff ledgers fun q ledger =>
    ledger.homeless = true → next.cwd q = none).mpr
    ⟨cwd, fun q other => (others q other).2 ▸ cleared.cwd q⟩
  dead := by
    intro q dead
    rw [live] at dead
    have other : q ≠ p := by
      rintro rfl
      simp [alive] at dead
    rw [(others q other).1, (others q other).2, update_of_ne other]
    exact cleared.dead q dead

theorem Cleared.frame (slot : next.slot = s.slot) (cwd : next.cwd = s.cwd) (live : next.live = s.live)
    (count : l.cleared = (ledgers p).cleared) (homeless : l.homeless = (ledgers p).homeless) :
    Cleared next (update ledgers p l) := by
  refine cleared.put alive live ?_ ?_ fun q _ => ⟨by rw [slot], by rw [cwd]⟩
  · rw [slot, count]
    exact cleared.slots p
  · rw [cwd, homeless]
    exact cleared.cwd p

/-- A live process changes one of its descriptors. -/
theorem Cleared.setSlot {fd : Fd}
    {file : Option FileIx} (slot : next.slot = (s.setSlot p fd file).slot) (cwd : next.cwd = s.cwd)
    (live : next.live = s.live)
    (still : ∀ other : Fd, other.val < l.cleared → update (s.slot p) fd file other = none)
    (homeless : l.homeless = (ledgers p).homeless) : Cleared next (update ledgers p l) := by
  refine cleared.put alive live ?_ ?_ fun q other => ⟨?_, by rw [cwd]⟩
  · simpa [slot, State.setSlot] using still
  · rw [cwd, homeless]
    exact cleared.cwd p
  · simp [slot, State.setSlot, other]

end

theorem Pipeless.frame (pipeless : Pipeless s) (fpipe : next.fpipe = s.fpipe)
    (pipes : next.pipes = s.pipes) (kfreed : next.kfreed = s.kfreed) : Pipeless next :=
  ⟨fun f => fpipe ▸ pipeless.types f, pipes ▸ pipeless.pipes, kfreed ▸ pipeless.kfreed⟩

end

namespace Accounts

variable {s : State} {ledgers : Proc → Ledger} {p : Proc} (accounts : Accounts s ledgers)
  (alive : s.live p = true)

include accounts

theorem keep : Accounts s (update ledgers p (ledgers p)) := by
  rwa [Function.update_eq_self]

include alive

theorem inodes_step {iref inum : Inode → Nat} {held : Multiset Inode}
    (change : ∀ i, iref i + (ledgers p).inodes.count i = s.iref i + held.count i) :
    Accounts { s with iref := iref, inum := inum }
      (update ledgers p { ledgers p with inodes := held }) where
  inodes := accounts.inodes.step fun i => by
    have here := change i
    simp only [State.owners]
    omega
  files := accounts.files.step fun _ => rfl
  vacant := accounts.vacant.frame rfl rfl rfl rfl
  locked := accounts.locked.frame rfl rfl
  cleared := accounts.cleared.frame alive rfl rfl rfl rfl rfl
  pipeless := accounts.pipeless.frame rfl rfl rfl

variable {f : FileIx} {i : Inode}

theorem gain {inum : Inode → Nat} {n : Nat} (one : n = s.iref i + 1) :
    Accounts { s.setIref i n with inum := inum } (update ledgers p ((ledgers p).gain i)) := by
  refine accounts.inodes_step alive fun j => ?_
  rcases eq_or_ne j i with rfl | other
  · simp only [State.setIref, update_self, one, count_cons_self]
    omega
  · simp [State.setIref, other]

theorem idrop (held : i ∈ (ledgers p).inodes) :
    Accounts (s.setIref i (s.iref i - 1)) (update ledgers p ((ledgers p).drop i)) := by
  refine accounts.inodes_step alive fun j => ?_
  rcases eq_or_ne j i with rfl | other
  · have one := one_le_count_iff_mem.mpr held
    have counted := accounts.inodes.le_iref p j
    simp only [update_self, count_erase_self]
    omega
  · simp [other]

theorem locks_step {ilocked : Inode → Option Proc} {held : Multiset Inode}
    (locked : Locked { s with ilocked := ilocked }
      (update ledgers p { ledgers p with locks := held })) :
    Accounts { s with ilocked := ilocked } (update ledgers p { ledgers p with locks := held }) where
  inodes := accounts.inodes.step fun _ => rfl
  files := accounts.files.step fun _ => rfl
  vacant := accounts.vacant.frame rfl rfl rfl rfl
  locked := locked
  cleared := accounts.cleared.frame alive rfl rfl rfl rfl rfl
  pipeless := accounts.pipeless.frame rfl rfl rfl

theorem lock (free : s.ilocked i = none) :
    Accounts (s.setLock i (some p)) (update ledgers p ((ledgers p).lock i)) := by
  have nobody : ∀ q, i ∉ (ledgers q).locks := fun q member => by
    simpa [free] using (accounts.locked.holder q i).mpr member
  refine accounts.locks_step alive (accounts.locked.put (fun j => ?_)
    (Multiset.nodup_cons.mpr ⟨nobody p, accounts.locked.once p⟩) fun q other j => ?_)
  · rcases eq_or_ne j i with rfl | different
    · simp
    · simpa [different] using accounts.locked.holder p j
  · rcases eq_or_ne j i with rfl | different
    · simp [nobody q, other.symm]
    · simpa [different] using accounts.locked.holder q j

theorem unlock (mine : s.ilocked i = some p) :
    Accounts (s.setLock i none) (update ledgers p ((ledgers p).unlock i)) := by
  refine accounts.locks_step alive (accounts.locked.put (fun j => ?_)
    ((accounts.locked.once p).erase i) fun q other j => ?_)
  · rw [(accounts.locked.once p).mem_erase_iff]
    rcases eq_or_ne j i with rfl | different
    · simp
    · simpa [different] using accounts.locked.holder p j
  · rcases eq_or_ne j i with rfl | different
    · simpa [mine, other.symm] using accounts.locked.holder q j
    · simpa [different] using accounts.locked.holder q j

theorem allocate (free : s.fref f = 0) :
    Accounts (s.setFref f 1) (update ledgers p ((ledgers p).allocate f)) where
  inodes := accounts.inodes.step fun _ => rfl
  files := accounts.files.step fun g => by
    rcases eq_or_ne g f with rfl | other
    · simp only [State.setFref, State.descriptors, update_self, free, Ledger.allocate,
        count_cons_self]
      omega
    · simp [State.setFref, State.descriptors, Ledger.allocate, other]
  vacant := by
    -- An entry that is fresh already has a reference, so it is not the one that was free.
    have untouched : ∀ q, ∀ g ∈ (ledgers q).fresh, update s.fref f 1 g = 1 ∧ s.fip g = none := by
      intro q g member
      obtain ⟨one, empty⟩ := accounts.vacant.fresh q g member
      have other : g ≠ f := by
        rintro rfl
        omega
      exact ⟨by rwa [update_of_ne other], empty⟩
    refine accounts.vacant.put (fun g none => ?_) (Multiset.cons_le_cons f (accounts.vacant.held p))
      (fun g member => ?_) fun q _ => untouched q
    · rcases eq_or_ne g f with rfl | other
      · exact accounts.vacant.unused g free
      · exact accounts.vacant.unused g (by simpa [State.setFref, other] using none)
    · rcases Multiset.mem_cons.mp member with rfl | older
      · exact ⟨update_self .., accounts.vacant.unused g free⟩
      · exact untouched p g older
  locked := accounts.locked.frame rfl rfl
  cleared := accounts.cleared.frame alive rfl rfl rfl rfl rfl
  pipeless := accounts.pipeless.frame rfl rfl rfl

omit alive in
/-- A fresh entry has its only reference in the ledger of its process. -/
theorem fresh_unique (fresh : f ∈ (ledgers p).fresh) :
    s.descriptors f = 0 ∧ (ledgers p).files.count f = 1 ∧ (ledgers p).fresh.count f = 1 ∧
      ∀ q, f ∈ (ledgers q).files → q = p := by
  have counted := accounts.files.le_fref p f
  have one := (accounts.vacant.fresh p f fresh).1
  have below := Multiset.count_le_of_le f (accounts.vacant.held p)
  have here := one_le_count_iff_mem.mpr fresh
  refine ⟨by omega, by omega, by omega, fun q holds => ?_⟩
  by_contra other
  have two := accounts.files.two_le_fref other holds (Multiset.mem_of_le (accounts.vacant.held p) fresh)
  omega

omit alive in
theorem not_fresh {q : Proc} {fd : Fd} (stored : s.slot q fd = some f) :
    f ∉ (ledgers p).fresh := fun fresh => by
  have none := (accounts.fresh_unique fresh).1
  have some := descriptors_pos stored
  omega

/-- `alloc_fd` in `sys_open` with the stores into the open file. -/
theorem allocFd {fd : Fd} (empty : s.slot p fd = none)
    (began : (ledgers p).cleared = 0) (fresh : f ∈ (ledgers p).fresh)
    (held : i ∈ (ledgers p).inodes) :
    Accounts { s.setSlot p fd (some f) with fip := update s.fip f (some i) }
      (update ledgers p (((ledgers p).release f).drop i)) := by
  obtain ⟨_, one, single, unique⟩ := accounts.fresh_unique fresh
  have vacated : s.fip f = none := (accounts.vacant.fresh p f fresh).2
  refine ⟨accounts.inodes.step fun j => ?_, accounts.files.step fun g => ?_,
    accounts.vacant.put (fun g none => ?_) (erase_le_erase f (accounts.vacant.held p))
      (fun g member => ?_) (fun q other g member => ?_),
    accounts.locked.frame rfl rfl, ?_, accounts.pipeless.frame rfl rfl rfl⟩
  · have stored := count_update s.fip f (some i) j
    rw [vacated, hit_none, hit_some] at stored
    simp only [State.owners, State.setSlot, Ledger.drop, Ledger.release]
    rcases eq_or_ne j i with rfl | other
    · have here := one_le_count_iff_mem.mpr held
      rw [if_pos rfl] at stored
      rw [count_erase_self]
      omega
    · rw [if_neg other.symm] at stored
      rw [count_erase_of_ne other]
      omega
  · have stored := descriptors_setSlot (s := s) (p := p) fd (some f) g
    rw [empty, hit_none, hit_some] at stored
    change s.fref g + _ = s.fref g + ((s.setSlot p fd (some f)).descriptors g +
      ((ledgers p).files.erase f).count g)
    rcases eq_or_ne g f with rfl | other
    · rw [if_pos rfl] at stored
      rw [count_erase_self]
      omega
    · rw [if_neg other.symm] at stored
      rw [count_erase_of_ne other]
      omega
  · have used : g ≠ f := by
      rintro rfl
      have counted := (accounts.vacant.fresh p g fresh).1
      exact absurd none (by simp [State.setSlot, counted])
    simpa [used] using accounts.vacant.unused g none
  · have different : g ≠ f := by
      rintro rfl
      have again := one_le_count_iff_mem.mpr member
      simp only [Ledger.drop, Ledger.release, count_erase_self] at again
      omega
    have older := accounts.vacant.fresh p g (mem_of_mem_erase member)
    simpa [State.setSlot, different] using older
  · have different : g ≠ f := by
      rintro rfl
      exact other (unique q (Multiset.mem_of_le (accounts.vacant.held q) member))
    simpa [State.setSlot, different] using accounts.vacant.fresh q g member
  · refine accounts.cleared.setSlot alive rfl rfl rfl (fun fd' below => ?_) rfl
    exact absurd below (by simp [Ledger.drop, Ledger.release, began])

omit alive in
theorem vacant_succ {next : State} {l : Ledger} (stale : ∀ q, f ∉ (ledgers q).fresh)
    (fref : next.fref = update s.fref f (s.fref f + 1)) (fip : next.fip = s.fip)
    (fresh : l.fresh = (ledgers p).fresh) (files : (ledgers p).files ≤ l.files) :
    Vacant next (update ledgers p l) := by
  have untouched : ∀ q, ∀ g ∈ (ledgers q).fresh, next.fref g = 1 ∧ next.fip g = none := by
    intro q g member
    have other : g ≠ f := fun same => stale q (same ▸ member)
    rw [fref, fip, update_of_ne other]
    exact accounts.vacant.fresh q g member
  refine accounts.vacant.put (fun g none => ?_) ?_ ?_ fun q _ => untouched q
  · rw [fip]
    rw [fref] at none
    rcases eq_or_ne g f with rfl | other
    · simp at none
    · exact accounts.vacant.unused g (by simpa [other] using none)
  · rw [fresh]
    exact (accounts.vacant.held p).trans files
  · rw [fresh]
    exact untouched p

theorem dupFd {fd fd' : Fd} (stored : s.slot p fd = some f)
    (empty : s.slot p fd' = none) (began : (ledgers p).cleared = 0) :
    Accounts ((s.setSlot p fd' (some f)).setFref f (s.fref f + 1))
      (update ledgers p (ledgers p)) where
  inodes := accounts.inodes.step fun _ => rfl
  files := accounts.files.step fun g => by
    have added := descriptors_setSlot (s := s) (p := p) fd' (some f) g
    rw [empty, hit_none, hit_some] at added
    change update s.fref f (s.fref f + 1) g + _ =
      s.fref g + ((s.setSlot p fd' (some f)).descriptors g + _)
    rcases eq_or_ne g f with rfl | other
    · rw [if_pos rfl] at added
      rw [update_self]
      omega
    · rw [if_neg other.symm] at added
      rw [update_of_ne other]
      omega
  vacant := accounts.vacant_succ (fun _ => accounts.not_fresh stored) rfl rfl rfl le_rfl
  locked := accounts.locked.frame rfl rfl
  cleared := accounts.cleared.setSlot alive rfl rfl rfl
    (fun other below => absurd below (by simp [began])) rfl
  pipeless := accounts.pipeless.frame rfl rfl rfl

theorem dupSlot {fd : Fd} (stored : s.slot p fd = some f) :
    Accounts (s.setFref f (s.fref f + 1)) (update ledgers p ((ledgers p).hold f)) where
  inodes := accounts.inodes.step fun _ => rfl
  files := accounts.files.step fun g => by
    rcases eq_or_ne g f with rfl | other
    · simp only [State.setFref, State.descriptors, update_self, Ledger.hold,
        count_cons_self]
      omega
    · simp [State.setFref, State.descriptors, Ledger.hold, other]
  vacant := accounts.vacant_succ (fun _ => accounts.not_fresh stored) rfl rfl rfl
    (Multiset.le_cons_self _ _)
  locked := accounts.locked.frame rfl rfl
  cleared := accounts.cleared.frame alive rfl rfl rfl rfl rfl
  pipeless := accounts.pipeless.frame rfl rfl rfl

theorem takeSlot {fd : Fd} {l : Ledger} (inodes : l.inodes = (ledgers p).inodes)
    (locks : l.locks = (ledgers p).locks) (fresh : l.fresh = (ledgers p).fresh)
    (files : ∀ g, l.files.count g = (ledgers p).files.count g + hit g (s.slot p fd))
    (cleared : ∀ other : Fd, other.val < l.cleared → other.val < (ledgers p).cleared ∨ other = fd)
    (homeless : l.homeless = (ledgers p).homeless) :
    Accounts (s.setSlot p fd none) (update ledgers p l) where
  inodes := accounts.inodes.step fun j => by
    rw [inodes]
    rfl
  files := accounts.files.step fun g => by
    have taken := descriptors_setSlot (s := s) (p := p) fd none g
    have held := files g
    rw [hit_none] at taken
    simp only [State.setSlot] at taken ⊢
    omega
  vacant := by
    refine accounts.vacant.put accounts.vacant.unused ?_ ?_ fun q _ => accounts.vacant.fresh q
    · rw [fresh]
      refine (accounts.vacant.held p).trans (Multiset.le_iff_count.mpr fun g => ?_)
      rw [files g]
      exact le_self_add
    · rw [fresh]
      exact accounts.vacant.fresh p
  locked := accounts.locked.frame rfl locks
  cleared := accounts.cleared.setSlot alive rfl rfl rfl (fun other below => by
    rcases eq_or_ne other fd with rfl | different
    · simp
    · rw [update_of_ne different]
      exact accounts.cleared.slots p other ((cleared other below).resolve_right different)) homeless
  pipeless := accounts.pipeless.frame rfl rfl rfl

omit alive in
/-- Giving up a reference to an open file is balanced by its count. -/
theorem release_balanced {next : State} {n : Nat} {l : Ledger}
    (held : f ∈ (ledgers p).files) (one : s.fref f = n + 1)
    (fref : next.fref = update s.fref f n) (slot : next.slot = s.slot)
    (files : l.files = (ledgers p).files.erase f) : FilesBalanced next (update ledgers p l) := by
  refine accounts.files.step fun g => ?_
  simp only [State.descriptors, slot, fref, files]
  rcases eq_or_ne g f with rfl | other
  · have here := one_le_count_iff_mem.mpr held
    rw [update_self, count_erase_self]
    omega
  · rw [update_of_ne other, count_erase_of_ne other]

/-- `file::close` when there are other references. -/
theorem closeShared (held : f ∈ (ledgers p).files) (shared : 1 < s.fref f) :
    Accounts (s.setFref f (s.fref f - 1)) (update ledgers p ((ledgers p).release f)) := by
  have stale : ∀ q, f ∉ (ledgers q).fresh := fun q fresh => by
    have one := (accounts.vacant.fresh q f fresh).1
    omega
  have untouched : ∀ q, ∀ g ∈ (ledgers q).fresh,
      (s.setFref f (s.fref f - 1)).fref g = 1 ∧ s.fip g = none := fun q g member => by
    have other : g ≠ f := fun same => stale q (same ▸ member)
    simpa [State.setFref, other] using accounts.vacant.fresh q g member
  refine ⟨accounts.inodes.step fun _ => rfl, accounts.release_balanced held (by omega) rfl rfl rfl,
    accounts.vacant.put (fun g none => ?_) (erase_le_erase f (accounts.vacant.held p))
      (fun g member => untouched p g (mem_of_mem_erase member)) fun q _ => untouched q,
    accounts.locked.frame rfl rfl, accounts.cleared.frame alive rfl rfl rfl rfl rfl,
    accounts.pipeless.frame rfl rfl rfl⟩
  rcases eq_or_ne g f with rfl | other
  · simp only [State.setFref, update_self] at none
    omega
  · exact accounts.vacant.unused g (by simpa [State.setFref, other] using none)

/-- `file::close` of the last reference leaves the inode to the process. -/
theorem closeLast {held' : Multiset Inode} (held : f ∈ (ledgers p).files) (last : s.fref f = 1)
    (handed : ∀ i, held'.count i = (ledgers p).inodes.count i + hit i (s.fip f)) :
    Accounts { s.setFref f 0 with
        fip := update s.fip f none
        fpipe := update s.fpipe f none }
      (update ledgers p { (ledgers p).release f with inodes := held' }) := by
  have untouched : ∀ q, ∀ g ∈ (ledgers q).fresh, g ≠ f →
      update s.fref f 0 g = 1 ∧ update s.fip f none g = none := by
    intro q g member other
    simpa [other] using accounts.vacant.fresh q g member
  refine ⟨accounts.inodes.step fun i => ?_, accounts.release_balanced held last rfl rfl rfl,
    accounts.vacant.put (fun g none => ?_) (erase_le_erase f (accounts.vacant.held p))
      (fun g member => ?_) (fun q other g member => ?_),
    accounts.locked.frame rfl rfl, accounts.cleared.frame alive rfl rfl rfl rfl rfl,
    ⟨fun g => ?_, accounts.pipeless.pipes, accounts.pipeless.kfreed⟩⟩
  · have removed := count_update s.fip f none i
    have gained := handed i
    rw [hit_none] at removed
    simp only [State.owners, State.setFref]
    omega
  · rcases eq_or_ne g f with rfl | other
    · simp
    · simpa [other] using accounts.vacant.unused g (by simpa [State.setFref, other] using none)
  · refine untouched p g (mem_of_mem_erase member) ?_
    rintro rfl
    have single := (accounts.fresh_unique (mem_of_mem_erase member)).2.2.1
    have again := one_le_count_iff_mem.mpr member
    simp only [Ledger.release, count_erase_self] at again
    omega
  · refine untouched q g member ?_
    rintro rfl
    exact other ((accounts.fresh_unique member).2.2.2 p held).symm
  · rcases eq_or_ne g f with rfl | other
    · simp
    · simpa [other] using accounts.pipeless.types g

theorem swapCwd {old : Inode} (was : s.cwd p = some old) (home : (ledgers p).homeless = false)
    (held : i ∈ (ledgers p).inodes) :
    Accounts { s with cwd := update s.cwd p (some i) }
      (update ledgers p (((ledgers p).drop i).gain old)) where
  inodes := accounts.inodes.step fun j => by
    have stored := count_update s.cwd p (some i) j
    rw [was, hit_some, hit_some] at stored
    simp only [State.owners, Ledger.gain, Ledger.drop, Multiset.count_cons, eq_comm (a := j)]
    rcases eq_or_ne i j with rfl | other
    · have here := one_le_count_iff_mem.mpr held
      rw [if_pos rfl] at stored
      rw [count_erase_self]
      omega
    · rw [if_neg other] at stored
      rw [count_erase_of_ne other.symm]
      omega
  files := accounts.files.step fun _ => rfl
  vacant := accounts.vacant.frame rfl rfl rfl rfl
  locked := accounts.locked.frame rfl rfl
  cleared := accounts.cleared.put alive rfl (accounts.cleared.slots p)
    (fun homeless => absurd homeless (by simp [Ledger.gain, Ledger.drop, home]))
    fun q other => ⟨rfl, update_of_ne other ..⟩
  pipeless := accounts.pipeless.frame rfl rfl rfl

theorem takeCwd {old : Inode} (was : s.cwd p = some old) :
    Accounts { s with cwd := update s.cwd p none }
      (update ledgers p { (ledgers p).gain old with homeless := true }) where
  inodes := accounts.inodes.step fun j => by
    have taken := count_update s.cwd p none j
    rw [was, hit_none, hit_some] at taken
    simp only [State.owners, Ledger.gain, Multiset.count_cons, eq_comm (a := j)]
    omega
  files := accounts.files.step fun _ => rfl
  vacant := accounts.vacant.frame rfl rfl rfl rfl
  locked := accounts.locked.frame rfl rfl
  cleared := accounts.cleared.put alive rfl (accounts.cleared.slots p)
    (fun _ => update_self ..) fun q other => ⟨rfl, update_of_ne other ..⟩
  pipeless := accounts.pipeless.frame rfl rfl rfl

theorem abandon (held : i ∈ (ledgers p).inodes) :
    Accounts { s with refused := s.refused ++ [i] } (update ledgers p ((ledgers p).drop i)) where
  inodes := accounts.inodes.step fun j => by
    simp only [State.owners, Ledger.drop, List.count_append]
    rcases eq_or_ne j i with rfl | other
    · have here := one_le_count_iff_mem.mpr held
      rw [count_erase_self, List.count_singleton_self]
      omega
    · rw [count_erase_of_ne other, List.count_singleton]
      simp [other.symm]
  files := accounts.files.step fun _ => rfl
  vacant := accounts.vacant.frame rfl rfl rfl rfl
  locked := accounts.locked.frame rfl rfl
  cleared := accounts.cleared.frame alive rfl rfl rfl rfl rfl
  pipeless := accounts.pipeless.frame rfl rfl rfl

/-- The child of `fork` takes over the references its parent made for it. -/
theorem spawn {np : Proc} {files : Fd → Option FileIx} (unborn : s.live np = false)
    (counted : ∀ f, (ledgers p).files.count f = count files f)
    (stale : (ledgers p).fresh = 0) (held : i ∈ (ledgers p).inodes) :
    Accounts { s with
        slot := update s.slot np fun fd => (files fd).or (s.slot np fd)
        cwd := update s.cwd np (some i)
        live := update s.live np true }
      (update ledgers p { (ledgers p).drop i with files := 0 }) := by
  obtain ⟨idle, homeless, empty⟩ := accounts.cleared.dead np unborn
  have child : np ≠ p := by
    rintro rfl
    simp [alive] at unborn
  have row : (fun fd => (files fd).or (s.slot np fd)) = files := by
    funext fd
    rw [empty fd, Option.or_none]
  have none : ∀ f, count (s.slot np) f = 0 := Tally.count_eq_zero empty
  refine ⟨accounts.inodes.step fun j => ?_, accounts.files.step fun f => ?_,
    accounts.vacant.put accounts.vacant.unused ?_ ?_ (fun q _ => accounts.vacant.fresh q),
    accounts.locked.frame rfl rfl, ⟨?_, ?_, fun q dead => ?_⟩, accounts.pipeless.frame rfl rfl rfl⟩
  · have stored := count_update s.cwd np (some i) j
    rw [homeless, hit_none, hit_some] at stored
    simp only [State.owners, Ledger.drop]
    rcases eq_or_ne j i with rfl | other
    · have here := one_le_count_iff_mem.mpr held
      rw [if_pos rfl] at stored
      rw [count_erase_self]
      omega
    · rw [if_neg other.symm] at stored
      rw [count_erase_of_ne other]
      omega
  · have sum := sum_update (fun row : Fd → Option FileIx => count row f) s.slot np files
    have made := counted f
    have before := none f
    simp only [State.descriptors, row, Multiset.count_zero]
    omega
  · simp [Ledger.drop, stale]
  · simp [Ledger.drop, stale]
  · intro q fd below
    rcases eq_or_ne q np with rfl | other
    · rw [update_of_ne child, idle] at below
      exact absurd below not_lt_zero
    · change update s.slot np _ q fd = Option.none
      rw [update_of_ne other]
      refine accounts.cleared.slots q fd ?_
      rcases eq_or_ne q p with rfl | different
      · simpa [Ledger.drop] using below
      · simpa [different] using below
  · intro q gone
    rcases eq_or_ne q np with rfl | other
    · rw [update_of_ne child, idle] at gone
      exact absurd gone (by simp [Ledger.idle])
    · change update s.cwd np _ q = Option.none
      rw [update_of_ne other]
      refine accounts.cleared.cwd q ?_
      rcases eq_or_ne q p with rfl | different
      · simpa [Ledger.drop] using gone
      · simpa [different] using gone
  · have other : q ≠ np := by
      rintro rfl
      simp at dead
    have unborn : s.live q = false := by simpa [other] using dead
    have different : q ≠ p := by
      rintro rfl
      simp [alive] at unborn
    simpa [other, different] using accounts.cleared.dead q unborn

omit alive in
theorem die (gone : ledgers p = { cleared := NOFILE, homeless := true }) :
    Accounts { s with live := update s.live p false } (update ledgers p Ledger.idle) where
  inodes := accounts.inodes.step fun _ => by
    rw [gone]
    rfl
  files := accounts.files.step fun _ => by
    rw [gone]
    rfl
  vacant := accounts.vacant.frame rfl rfl (by rw [gone]; rfl) (by rw [gone]; rfl)
  locked := accounts.locked.frame rfl (by rw [gone]; rfl)
  cleared := by
    refine ⟨?_, ?_, fun q dead => ?_⟩
    · refine (forall_update_iff ledgers fun q ledger =>
        ∀ fd : Fd, fd.val < ledger.cleared → s.slot q fd = none).mpr
        ⟨fun fd below => absurd below not_lt_zero, fun q _ => accounts.cleared.slots q⟩
    · exact (forall_update_iff ledgers fun q ledger =>
        ledger.homeless = true → s.cwd q = none).mpr
        ⟨fun homeless => absurd homeless (by simp [Ledger.idle]), fun q _ => accounts.cleared.cwd q⟩
    · rcases eq_or_ne q p with rfl | other
      · have slots := accounts.cleared.slots q
        have cwd := accounts.cleared.cwd q
        rw [gone] at slots cwd
        exact ⟨update_self .., cwd rfl, fun fd => slots fd fd.isLt⟩
      · rw [update_of_ne other]
        exact accounts.cleared.dead q (by simpa [other] using dead)
  pipeless := accounts.pipeless.frame rfl rfl rfl

end Accounts

end OsCpp.Refs
