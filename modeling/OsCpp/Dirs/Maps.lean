import OsCpp.Dirs.Locking

/-!
# Directories are maps

Entries are made under the lock of their directory, after the name has been looked up under it, and
they are never removed.
-/

namespace OsCpp.Dirs

open Function (update update_of_ne update_self)

/-- The name that stands for the inode of a call. -/
def Phase.settled : Phase → Option (Nat × Name × Nat)
  | found c i | counting c i | leaving c i => some (c.dp, c.name, i)
  | _ => none

variable {Pid : Type}

/-- A name stands for an inode. -/
def State.Settled (s : State Pid) (r : Nat × Name × Nat) : Prop :=
  s.Public r.1 ∧ dir_lookup (s.dir r.1) r.2.1 = some (some r.2.2)

structure Inv (s : State Pid) : Prop where
  tidy : ∀ d, Tidy (s.dir d)
  locks : Locks s
  settled : ∀ p r, (s.phase p).settled = some r → s.Settled r
  opened : ∀ r ∈ s.opened, s.Settled r

section

variable {s t : State Pid} {p : Pid} {c : Call} {inum : Nat}

/-- What names stand for does not change. -/
def Lasting (s t : State Pid) : Prop :=
  ∀ d, s.Public d → ∀ name i, dir_lookup (s.dir d) name = some (some i) →
    dir_lookup (t.dir d) name = some (some i)

theorem Apart.settled (apart : Apart s t p) (lasting : Lasting s t) {r : Nat × Name × Nat}
    (before : s.Settled r) : t.Settled r :=
  ⟨apart.isPublic before.1, lasting r.1 before.1 r.2.1 r.2.2 before.2⟩

section

variable (inv : Inv s) (both : Apart s t p ∧ Locks t)
include inv both

theorem Inv.change (lasting : Lasting s t)
    (tidy : ∀ d, Tidy (t.dir d)) (mine : ∀ r, (t.phase p).settled = some r → t.Settled r)
    (opened : ∀ r ∈ t.opened, r ∈ s.opened ∨ s.Settled r) : Inv t := by
  obtain ⟨apart, locks⟩ := both
  refine ⟨tidy, locks, fun q r found => ?_, fun r member => ?_⟩
  · by_cases same : q = p
    · subst same
      exact mine r found
    · rw [apart.phase q same] at found
      exact apart.settled lasting (inv.settled q r found)
  · rcases opened r member with old | new
    · exact apart.settled lasting (inv.opened r old)
    · exact apart.settled lasting new

theorem Inv.still (same : t.dir = s.dir) (mine : ∀ r, (t.phase p).settled = some r → s.Settled r)
    (opened : ∀ r ∈ t.opened, r ∈ s.opened ∨ s.Settled r) : Inv t := by
  have lasting : Lasting s t := fun d _ name i found => by rw [same, found]
  exact inv.change both lasting (same ▸ inv.tidy) (fun r found => both.1.settled lasting (mine r found))
    opened

theorem Inv.setUp {dir : Dir} (tidy : Tidy dir)
    (changed : t.dir = update s.dir inum dir) (hidden : ¬s.Public inum)
    (mine : (t.phase p).settled = none) (opened : t.opened = s.opened) : Inv t := by
  refine inv.change both (fun d before name i found => ?_) (fun d => ?_)
    (fun r found => by rw [mine] at found; cases found) fun r member => .inl (opened ▸ member)
  · have other : d ≠ inum := by
      rintro rfl
      exact hidden before
    rw [changed, update_of_ne other, found]
  · rw [changed]
    by_cases here : d = inum
    · subst here
      rwa [update_self]
    · rw [update_of_ne here]
      exact inv.tidy d

theorem Inv.link {dir : Dir} {room : Bool} {next : Phase} (phase : s.phase p = .linking c inum)
    (linked : dir_link_inode (s.dir c.dp) c.name inum (s.node inum) room = some (dir, true))
    (changed : t.dir = update s.dir c.dp dir)
    (following : t.phase p = next) (mine : next.settled = some (c.dp, c.name, inum))
    (opened : t.opened = s.opened) : Inv t := by
  subst following
  have held := inv.locks p
  rw [phase] at held
  obtain ⟨nonzero, fits⟩ := held.building inum rfl
  have missed := (dirLinkWith_spec (inv.tidy c.dp).size_eq linked).1
  obtain ⟨tidy, found, others⟩ := (inv.tidy c.dp).link ((s.node inum).fills fits) nonzero linked
  have here : t.dir c.dp = dir := by rw [changed, update_self]
  have there : ∀ d ≠ c.dp, t.dir d = s.dir d := fun d other => by
    rw [changed, update_of_ne other]
  refine inv.change both (fun d before name i looked => ?_) (fun d => ?_) (fun r same => ?_)
    fun r member => .inl (opened ▸ member)
  · by_cases same : d = c.dp
    · subst same
      -- The name had no entry, so what had one is another name.
      have differs : ¬name.Agrees c.name := fun agrees => by
        have looked' := (inv.tidy _).lookup_congr agrees looked
        rw [missed] at looked'
        cases looked'
      rw [here, others name differs, looked]
    · rw [there d same, looked]
  · by_cases same : d = c.dp
    · subst same
      rwa [here]
    · rw [there d same]
      exact inv.tidy d
  · rw [mine] at same
    cases same
    exact ⟨both.1.isPublic (held.parent c.dp rfl).2, by rw [here, found]⟩

end

end

section

variable [DecidableEq Pid] {setup : Setup Pid} {s t : State Pid} {p : Pid}

theorem Inv.move (inv : Inv s) (move : Move setup s p t) : Inv t := by
  have both := inv.locks.move move
  have held := inv.locks p
  have settled := inv.settled p
  cases move with
  | start | full | refuse | setDir | setFile | closeDir | closeFile =>
    refine inv.still both rfl (fun r found => ?_) fun r member => .inl member
    rw [goto_phase_self] at found
    cases found
  | find phase looked =>
    refine inv.still both rfl (fun r found => ?_) fun r member => .inl member
    rw [goto_phase_self] at found
    cases found
    rw [phase] at held
    exact ⟨(held.parent _ rfl).2, looked⟩
  | allocate phase nonzero below unused unlocked =>
    refine inv.setUp both tidy_empty rfl (fun before => ?_) (by rw [goto_phase_self]; rfl) rfl
    exact absurd (unused.symm.trans before.1) (by decide)
  | reopen phase | leave phase =>
    rw [phase] at settled
    refine inv.still both rfl (fun r found => ?_) fun r member => ?_
    · change ((State.goto _ p _).phase p).settled = _ at found
      rw [goto_phase_self] at found
      cases found
    · rcases List.mem_cons.mp member with rfl | old
      · exact .inr (settled _ rfl)
      · exact .inl old
  | dot phase linked | dots phase linked =>
    rw [phase] at held
    obtain ⟨nonzero, fits⟩ := held.building _ rfl
    refine inv.setUp both ((inv.tidy _).link (fills_inum fits) nonzero linked).1 rfl
      (fun before => ?_) (by rw [goto_phase_self]; rfl) rfl
    exact before.2 p (by rw [phase]; rfl)
  | fail phase =>
    refine inv.setUp both tidy_empty rfl (fun before => ?_) (by rw [State.failed, goto_phase_self]; rfl)
      rfl
    exact before.2 p (Phase.parent_of_fail phase).2
  | linkDir phase linked | linkFile phase linked =>
    exact inv.link both phase linked rfl (update_self ..) rfl rfl
  | count phase =>
    rw [phase] at settled
    refine inv.still both rfl (fun r found => ?_) fun r member => .inl member
    rw [goto_phase_self] at found
    exact settled r found

end

/-- No call is under way, and directories are maps. -/
structure Idle (s : State Pid) : Prop where
  tidy : ∀ d, Tidy (s.dir d)
  phase : ∀ p, s.phase p = .out
  opened : s.opened = []

theorem locks_of_out {s : State Pid} (phase : ∀ p, s.phase p = .out) : Locks s := by
  intro p
  rw [phase p]
  exact ⟨nofun, nofun, nofun⟩

theorem Idle.inv {s : State Pid} (idle : Idle s) : Inv s := by
  refine ⟨idle.tidy, locks_of_out idle.phase, fun p r found => ?_, fun r member => ?_⟩
  · rw [idle.phase p] at found
    cases found
  · rw [idle.opened] at member
    cases member

/-- What it means for the directories of a file system to be maps. -/
structure Maps (s : State Pid) : Prop where
  /-- Live entries have different names, which fill the field. -/
  distinct : ∀ d j k, j < (s.dir d).count → k < (s.dir d).count → ((s.dir d).slot j).inum ≠ 0 →
    ((s.dir d).slot k).inum ≠ 0 → ((s.dir d).slot j).name = ((s.dir d).slot k).name → j = k
  named : ∀ d k, ((s.dir d).slot k).inum ≠ 0 → ∃ name : Name, ((s.dir d).slot k).name = name.field
  whole : ∀ d, Dirent.size ∣ (s.dir d).size
  /-- Both overloads of `dir_link` add one name. -/
  linked : ∀ d name inum room d', inum ≠ 0 → inum < 2 ^ 16 →
    (dir_link (s.dir d) name inum room = some (d', true) ∨
      ∃ node, dir_link_inode (s.dir d) name inum node room = some (d', true)) →
    dir_lookup d' name = some (some inum) ∧
      ∀ other : Name, ¬other.Agrees name → dir_lookup d' other = dir_lookup (s.dir d) other
  /-- Calls that return an inode for one name return the same one. -/
  same : ∀ d name inum name' inum', (d, name, inum) ∈ s.opened → (d, name', inum') ∈ s.opened →
    name.Agrees name' → inum = inum'

theorem Inv.maps {s : State Pid} (inv : Inv s) : Maps s where
  distinct d _ _ inside_j inside_k := (inv.tidy d).eq_of_name_eq inside_j inside_k
  named d := (inv.tidy d).named
  whole d := ⟨_, (inv.tidy d).size_eq⟩
  linked d name inum room d' nonzero fits linked := by
    rcases linked with linked | ⟨node, linked⟩
    · exact ((inv.tidy d).link (fills_inum fits) nonzero linked).2
    · exact ((inv.tidy d).link (node.fills fits) nonzero linked).2
  same d name inum name' inum' first second agrees := by
    have found := (inv.tidy d).lookup_congr agrees (inv.opened _ first).2
    rw [(inv.opened _ second).2] at found
    exact (Option.some.inj (Option.some.inj found)).symm

/-- Directories are maps in every run. -/
theorem directories_are_maps [DecidableEq Pid] {setup : Setup Pid} {s t : State Pid}
    {events : List (Event Pid)} (idle : Idle s)
    (run : Execution.Run (step setup) (fun _ _ => True) s events t) : Maps t := by
  have inv : Inv t := by
    apply run.invariant
    · intro source event target before _ taken
      obtain ⟨p, move⟩ := move_of_step taken
      exact before.move move
    · exact idle.inv
  exact inv.maps

/-- Two processes create `a` in directory 1: the second one opens what the first one has made. -/
def race : List (Event Bool) :=
  let c : Call := ⟨1, ⟨[0x61], zero_notMem_a⟩, T_FILE⟩
  [.start false c, .step false { inum := some 2 }, .step false {}, .step false {}, .step false {},
    .start true c, .step true {}, .step false {}, .step true {}]

/-- An empty directory, with users 0 and 1000. -/
def empty : State Bool where
  node i := if i = 1 then { type := T_DIR, nlink := 1 } else {}
  dir _ := {}
  lock _ := none
  phase _ := .out

def twoUsers : Setup Bool where
  ninodes := 200
  numbered := small_ninodes
  uid p := if p then 1000 else 0
  gid p := if p then 1000 else 0

theorem directories_are_maps_race :
    ∃ t, Execution.Run (step twoUsers) (fun _ _ => True) empty race t ∧
      t.opened.map (fun r => r.2.2) = [2, 2] ∧ Maps t := by
  obtain ⟨t, run, opened⟩ : ∃ t, Execution.Run (step twoUsers) (fun _ _ => True) empty race t ∧
      decide (t.opened.map (fun r => r.2.2) = [2, 2]) = true :=
    Execution.exists_run_of_exec (by decide +kernel)
  exact ⟨t, run, of_decide_eq_true opened, directories_are_maps ⟨fun _ => tidy_empty, fun _ => rfl, rfl⟩ run⟩

end OsCpp.Dirs
