import OsCpp.Dirs.Image

/-!
# Owners and masks in entries

`dir_link(dp, name, ip)` copies owner and masks of the inode into the entry; `dir_link(dp, name,
inum)` leaves in the entry what it read last.
-/

namespace OsCpp.Dirs

open Image (initName top)
open Execution (Run exists_run_of_exec)
open Function (update update_of_ne update_self)

/-- Owner and masks. -/
structure Perms where
  uid : UInt32
  gid : UInt32
  mask_user : UInt8
  mask_group : UInt8
  mask_other : UInt8
  deriving DecidableEq

def Node.perms (node : Node) : Perms :=
  ⟨node.uid, node.gid, node.mask_user, node.mask_group, node.mask_other⟩

def Entry.perms (de : Entry) : Perms := ⟨de.uid, de.gid, de.mask_user, de.mask_group, de.mask_other⟩

variable {Pid : Type}

/-- Owner and masks of what a process makes. -/
def Setup.perms (setup : Setup Pid) (p : Pid) : Perms := ⟨setup.uid p, setup.gid p, 7, 7, 7⟩

/-- An entry has the owner and the masks of its inode. -/
def State.Agree (s : State Pid) (d k : Nat) : Prop :=
  ((s.dir d).slot k).perms = (s.node ((s.dir d).slot k).inum).perms

instance (s : State Pid) (d k : Nat) : Decidable (s.Agree d k) := inferInstanceAs (Decidable (_ = _))

/-- The inode that a call has given owner and masks. -/
def Phase.owns : Phase → Option Nat
  | linkingDot _ i | linkingDots _ i | linking _ i | counting _ i | leaving _ i => some i
  | holding c i => if c.type = T_DIR then some i else none
  | out | looking _ | found .. | setting .. => none

theorem Phase.own_of_owns {phase : Phase} {i : Nat} (owns : phase.owns = some i) :
    phase.own = some i := by
  cases phase with
  | holding c j =>
    rw [Phase.owns, Option.ite_none_right_eq_some] at owns
    exact owns.2
  | linkingDot | linkingDots | linking | counting | leaving => exact owns
  | out | looking | found | setting => cases owns

/-- The entries that differ from their inodes: as in the first state, and the first two of each new
directory. -/
def Odd (s₀ : State Pid) (d k : Nat) : Prop :=
  (s₀.dir d).Live k ∧ ¬s₀.Agree d k ∨ (s₀.node d).type = 0 ∧ k < 2

structure Agreement (setup : Setup Pid) (s₀ s : State Pid) : Prop where
  grown : Grown s₀ s
  owned : ∀ p i, (s.phase p).owns = some i → (s.node i).perms = setup.perms p
  agree : ∀ d k, (s.dir d).Live k → (s.Agree d k ↔ ¬Odd s₀ d k)

theorem Sound.agreement {s : State Pid} (sound : Sound s) (setup : Setup Pid) :
    Agreement setup s s where
  grown := sound.grown
  owned p i owns := by
    rw [sound.phase p] at owns
    cases owns
  agree d k live := by
    have used := sound.used live
    rw [Odd]
    tauto

section

variable {setup : Setup Pid} {s₀ s t : State Pid} {p : Pid} {c : Call} {inum : Nat}

variable (agreement : Agreement setup s₀ s)

include agreement

/-- What a step may do to entries and inodes. -/
theorem Agreement.change (apart : Apart s t p) (grown : Grown s₀ t)
    (entries : ∀ d k, (t.dir d).Live k → (s.dir d).Live k ∧ (t.dir d).slot k = (s.dir d).slot k ∧
        (t.node ((s.dir d).slot k).inum).perms = (s.node ((s.dir d).slot k).inum).perms ∨
      (t.Agree d k ↔ ¬Odd s₀ d k))
    (others : ∀ q ≠ p, ∀ i, (s.phase q).owns = some i → (t.node i).perms = (s.node i).perms)
    (mine : ∀ i, (t.phase p).owns = some i → (t.node i).perms = setup.perms p) :
    Agreement setup s₀ t := by
  refine ⟨grown, fun q i owns => ?_, fun d k live => ?_⟩
  · by_cases same : q = p
    · subst same
      exact mine i owns
    · rw [apart.phase q same] at owns
      rw [others q same i owns]
      exact agreement.owned q i owns
  · rcases entries d k live with ⟨before, slot, perms⟩ | direct
    · rw [← agreement.agree d k before, State.Agree, State.Agree, slot, perms]
    · exact direct

theorem Agreement.still (apart : Apart s t p) (grown : Grown s₀ t)
    {next : Phase} (dir : t.dir = s.dir) (perms : ∀ i, (t.node i).perms = (s.node i).perms)
    (following : t.phase p = next) (mine : ∀ i, next.owns = some i → (s.phase p).owns = some i) :
    Agreement setup s₀ t := by
  subst following
  refine agreement.change apart grown (fun d k live => .inl ?_) (fun _ _ i _ => perms i) fun i owns => ?_
  · rw [dir] at live ⊢
    exact ⟨live, rfl, perms _⟩
  · rw [perms]
    exact agreement.owned p i (mine i owns)

theorem Agreement.others {node : Node}
    (nodes : t.node = update s.node inum node) (idle : ∀ q ≠ p, s.lock inum ≠ some q) :
    ∀ q ≠ p, ∀ i, (s.phase q).owns = some i → (t.node i).perms = (s.node i).perms := by
  intro q other i owns
  have locked := ((agreement.grown.locks q).own i (Phase.own_of_owns owns)).1
  have apart : i ≠ inum := by
    rintro rfl
    exact idle q other locked
  rw [nodes, update_of_ne apart]

section

variable (apart : Apart s t p) (grown : Grown s₀ t)
include apart grown

theorem Agreement.set (phase : s.phase p = .setting c inum) (dir : t.dir = s.dir)
    (nodes : t.node = update s.node inum (setup.created p (s.node inum)))
    (own : (t.phase p).own = some inum) : Agreement setup s₀ t := by
  have before := agreement.grown
  have locked := ((before.locks p).own inum (by rw [phase]; rfl)).1
  have stage := before.stage p
  rw [phase] at stage
  refine agreement.change apart grown (fun d k live => .inl ?_)
    (agreement.others nodes (idle_of_locked locked)) fun i owns => ?_
  · rw [dir] at live ⊢
    refine ⟨live, rfl, ?_⟩
    -- No entry names the new inode.
    have other : ((s.dir d).slot k).inum ≠ inum := by
      intro named
      obtain rfl := before.hidden p inum (by rw [phase]; rfl) d k live named
      have inside := live.1
      have empty := stage.2.2
      omega
    rw [nodes, update_of_ne other]
  · cases own.symm.trans (Phase.own_of_owns owns)
    rw [nodes, update_self]
    rfl

theorem Agreement.clear {node : Node} {next : Phase} (nodes : t.node = update s.node inum node)
    (dirs : t.dir = update s.dir inum {}) (idle : ∀ q ≠ p, s.lock inum ≠ some q)
    (unnamed : ∀ d k, d ≠ inum → (s.dir d).Live k → ((s.dir d).slot k).inum ≠ inum)
    (following : t.phase p = next) (owns : next.owns = none) : Agreement setup s₀ t := by
  subst following
  refine agreement.change apart grown (fun d k live => .inl ?_) (agreement.others nodes idle)
    fun i mine => by rw [owns] at mine; cases mine
  have other : d ≠ inum := by
    rintro rfl
    rw [dirs, update_self] at live
    exact absurd live.1 not_lt_zero
  rw [dirs, update_of_ne other] at live ⊢
  refine ⟨live, rfl, ?_⟩
  rw [nodes, update_of_ne (unnamed d k other live)]

theorem Agreement.extend {d k : Nat} {d' : Dir} {de : Entry} {next : Phase} (extend : Extends (s.dir d) d' k de)
    (le : k ≤ (s.dir d).count) (nodes : t.node = s.node) (dirs : t.dir = update s.dir d d')
    (new : de.perms = (s.node de.inum).perms ↔ ¬Odd s₀ d k) (following : t.phase p = next)
    (mine : next.owns = (s.phase p).owns) : Agreement setup s₀ t := by
  subst following
  refine agreement.change apart grown (fun e j live => ?_) (fun _ _ i _ => by rw [nodes]) fun i owns => ?_
  · rcases extend.live_cases le dirs live with ⟨rfl, rfl, slot⟩ | ⟨old, slot⟩
    · rw [State.Agree, slot, nodes]
      exact .inr new
    · rw [nodes]
      exact .inl ⟨old, slot, rfl⟩
  · rw [nodes]
    exact agreement.owned p i (mine ▸ owns)

end

omit agreement in
theorem setNode_perms (s : State Pid) {inum : Nat} {node : Node}
    (same : node.perms = (s.node inum).perms) (i : Nat) :
    ((s.setNode inum node).node i).perms = (s.node i).perms := by
  by_cases here : i = inum
  · subst here
    rw [setNode_self, same]
  · rw [setNode_other s node here]

omit agreement in
/-- Entries that `create` makes for `"."` and `".."` differ from the inode. -/
theorem zero_ne_perms (setup : Setup Pid) (p : Pid) : (⟨0, 0, 0, 0, 0⟩ : Perms) ≠ setup.perms p :=
  fun same => absurd (congrArg Perms.mask_user same) (by decide : (0 : UInt8) ≠ 7)

theorem Agreement.head {k : Nat} {de : Entry} (early : k < 2)
    (building : (s.phase p).building = some inum) (owns : (s.phase p).owns = some inum)
    (named : de.inum = inum) (zero : de.perms = ⟨0, 0, 0, 0, 0⟩) :
    de.perms = (s.node de.inum).perms ↔ ¬Odd s₀ inum k := by
  have odd : Odd s₀ inum k := .inr ⟨agreement.grown.unused building, early⟩
  rw [named, zero, agreement.owned p inum owns]
  exact ⟨fun same => absurd same (zero_ne_perms setup p), fun even => absurd odd even⟩

end

section

variable [DecidableEq Pid] {setup : Setup Pid} {s₀ s t : State Pid} {p : Pid}

theorem Agreement.move (agreement : Agreement setup s₀ s) (sound : Sound s₀)
    (move : Move setup s p t) : Agreement setup s₀ t := by
  have before := agreement.grown
  have apart := (before.locks.move move).1
  have grown := before.move sound move
  have held := before.locks p
  have owned := agreement.owned p
  have stage := before.stage p
  cases move with
  | start | find | full | refuse | closeFile =>
    exact agreement.still apart grown rfl (fun _ => rfl) (update_self ..) nofun
  | reopen phase unlocked isFile =>
    refine agreement.still apart grown rfl (fun _ => rfl) (update_self ..) fun i owns => ?_
    rw [Phase.owns, isFile] at owns
    cases owns
  | leave phase =>
    refine agreement.still apart grown rfl (fun _ => rfl) (update_self ..) fun i owns => ?_
    rw [phase]
    exact Phase.own_of_owns owns
  | count phase =>
    refine agreement.still apart grown rfl (setNode_perms s rfl) (update_self ..) fun i owns => ?_
    rw [phase]
    exact owns
  | closeDir phase isDir =>
    refine agreement.still apart grown rfl (setNode_perms s ?_) (update_self ..) nofun
    rw [owned _ (by rw [phase, Phase.owns, if_pos isDir])]
    rfl
  | setDir phase =>
    exact agreement.set apart grown phase rfl rfl (by rw [goto_phase_self]; rfl)
  | setFile phase =>
    exact agreement.set apart grown phase rfl rfl (by rw [goto_phase_self]; rfl)
  | allocate phase nonzero below unused unlocked =>
    refine agreement.clear apart grown rfl rfl (idle_of_unlocked unlocked) (fun d k _ live named => ?_)
      (update_self ..) rfl
    exact before.live d k live (named ▸ unused)
  | fail phase =>
    have building := (Phase.parent_of_fail phase).2
    have locked := (held.own _ (Phase.own_of_building building)).1
    refine agreement.clear apart grown rfl rfl (idle_of_locked locked) (fun d k other live named => ?_)
      (update_self ..) rfl
    exact other (before.hidden p _ building d k live named)
  | @dot c inum d room phase linked =>
    have building : (s.phase p).building = some inum := by rw [phase]; rfl
    rw [phase] at stage
    have extend := dot_extends (before.whole _) stage.2.2 linked
    exact agreement.extend apart grown extend zero_le rfl rfl
      (agreement.head (by decide) building (by rw [phase]; rfl)
        (Nat.mod_eq_of_lt (held.building _ building).2) rfl) (update_self ..) (by rw [phase]; rfl)
  | @dots c inum d room phase linked =>
    have building : (s.phase p).building = some inum := by rw [phase]; rfl
    have fits := held.building _ building
    rw [phase] at stage
    have extend := dots_extends (before.whole _) stage.2.2.1 stage.2.2.2 fits linked
    exact agreement.extend apart grown extend stage.2.2.1.ge rfl rfl
      (agreement.head (by decide) building (by rw [phase]; rfl) (Nat.mod_eq_of_lt fits.2) rfl)
      (update_self ..) (by rw [phase]; rfl)
  | @linkDir c inum d room phase linked | @linkFile c inum d room phase linked =>
    have building : (s.phase p).building = some inum := by rw [phase]; rfl
    obtain ⟨k, de, place, extend⟩ := dirLinkWith_extends (before.whole _) linked
    obtain ⟨fresh, later⟩ := before.place (held.parent c.dp (by rw [phase]; rfl)).2 extend
    have even : ¬Odd s₀ c.dp k := by
      rintro (⟨live, -⟩ | ⟨unused, early⟩)
      · exact fresh live
      · exact absurd (later unused) (by omega)
    refine agreement.extend apart grown extend place.le rfl rfl (iff_of_true ?_ even)
      (update_self ..) (by rw [phase]; rfl)
    change (s.node inum).perms = (s.node (inum % 2 ^ 16)).perms
    rw [Nat.mod_eq_of_lt (held.building inum building).2]

theorem Agreement.run {events : List (Event Pid)} (sound : Sound s₀)
    (run : Run (step setup) (fun _ _ => True) s₀ events t) : Agreement setup s₀ t := by
  apply run.invariant
  · intro source event target before _ taken
    obtain ⟨p, move⟩ := move_of_step taken
    exact before.move sound move
  · exact sound.agreement setup

end

section

variable {txt bin : List Name} {image : Image} {d k : Nat}

/-- Entries of `main` differ in the mask for others. -/
theorem top_disagrees : ∀ k < 5, ((top.dir ROOTINO).slot k).perms ≠
    (top.node ((top.dir ROOTINO).slot k).inum).perms := by decide

/-- Entries of `file_apped` differ if the file is named `init`. -/
theorem file_agrees_iff (Pid : Type) {inum : Nat} {name : Name}
    (file : image.FileEntry d k inum name) :
    (image.boot Pid).Agree d k ↔ name ≠ initName := by
  change ((image.dir d).slot k).perms = (image.node ((image.dir d).slot k).inum).perms ↔ _
  rw [file.node, file.slot, Image.fileNode]
  split
  · rename_i isInit
    exact ⟨fun same => absurd (congrArg Perms.uid same) (by decide : (1000 : UInt32) ≠ 0),
      fun other => absurd isInit other⟩
  · rename_i other
    exact ⟨fun _ => other, fun _ => rfl⟩

theorem odd_boot_iff (built : image.Built txt bin)
    (few : 4 + txt.length + bin.length < Mkfs.NINODES) (Pid : Type) :
    Odd (image.boot Pid) d k ↔ d = ROOTINO ∧ k < 5 ∨
      d = ROOTINO ∧ 5 ≤ k ∧ txt[k - 5]? = some initName ∨
      d = 2 ∧ bin[k]? = some initName ∨ (image.node d).type = 0 ∧ k < 2 := by
  constructor
  · rintro (⟨live, differs⟩ | made)
    · rcases built.live_cases few live with early | ⟨rfl, later, name, found, file⟩ |
        ⟨rfl, name, found, file⟩
      · exact .inl early
      · rw [file_agrees_iff Pid file, not_not] at differs
        exact .inr (.inl ⟨rfl, later, differs ▸ found⟩)
      · rw [file_agrees_iff Pid file, not_not] at differs
        exact .inr (.inr (.inl ⟨rfl, differs ▸ found⟩))
    · exact .inr (.inr (.inr made))
  · rintro (⟨rfl, early⟩ | ⟨rfl, later, isInit⟩ | ⟨rfl, isInit⟩ | made)
    · refine .inl ⟨built.root_live early, fun agree => ?_⟩
      obtain ⟨slot, node⟩ := built.root_early early
      change ((image.dir ROOTINO).slot k).perms =
        (image.node ((image.dir ROOTINO).slot k).inum).perms at agree
      rw [node, slot] at agree
      exact top_disagrees k early agree
    · have live := built.txt_live few later isInit
      refine .inl ⟨live, ?_⟩
      rcases built.live_cases few live with ⟨-, early⟩ | ⟨-, -, name, found, file⟩ | ⟨second, -⟩
      · omega
      · rw [file_agrees_iff Pid file, not_not]
        exact Option.some.inj (found.symm.trans isInit)
      · exact absurd second (by decide)
    · have live := built.bin_live few isInit
      refine .inl ⟨live, ?_⟩
      rcases built.live_cases few live with ⟨first, -⟩ | ⟨first, -⟩ | ⟨-, name, found, file⟩
      · exact absurd first (by decide)
      · exact absurd first (by decide)
      · rw [file_agrees_iff Pid file, not_not]
        exact Option.some.inj (found.symm.trans isInit)
    · exact .inr made

variable {Pid : Type} [DecidableEq Pid] {setup : Setup Pid} {t : State Pid} {events : List (Event Pid)}

/-- An entry agrees with its inode unless `mkfs` made it in the root or for `init`, or it is `"."`
or `".."` of a new directory. -/
theorem permissions_agree_iff (few : 4 + txt.length + bin.length < Mkfs.NINODES)
    (built : Image.main txt bin = some image)
    (run : Run (step setup) (fun _ _ => True) (image.boot Pid) events t)
    (live : (t.dir d).Live k) :
    t.Agree d k ↔ ¬(d = ROOTINO ∧ k < 5 ∨
      d = ROOTINO ∧ 5 ≤ k ∧ txt[k - 5]? = some Image.initName ∨
      d = 2 ∧ bin[k]? = some Image.initName ∨ (image.node d).type = 0 ∧ k < 2) := by
  have built := Image.built_of_main built
  rw [← odd_boot_iff built few Pid]
  exact (Agreement.run (built.sound few Pid) run).agree d k live

end

theorem permissions_agree_iff_made :
    ∃ t, Run (step oneUser) (fun _ _ => True) (oneProgram.boot Unit) makeTwo t ∧
      (t.dir 6).Live 2 ∧ t.Agree 6 2 := by
  obtain ⟨t, run, live⟩ : ∃ t, Run (step oneUser) (fun _ _ => True) (oneProgram.boot Unit)
      makeTwo t ∧ decide ((t.dir 6).Live 2) = true :=
    exists_run_of_exec (by decide +kernel)
  have live := of_decide_eq_true live
  have built : Image.main [] [program] = some oneProgram := rfl
  refine ⟨t, run, live, (permissions_agree_iff (by decide) built run live).mpr ?_⟩
  decide

/-- Entries of the root have mask 5 where the inode has 7; `"."` and `".."` of a new directory have
zeros. -/
theorem permissions_disagree :
    ∃ t, Run (step oneUser) (fun _ _ => True) (oneProgram.boot Unit) makeTwo t ∧
      ((t.dir 1).Live 2 ∧ ¬t.Agree 1 2) ∧ ((t.dir 6).Live 0 ∧ ¬t.Agree 6 0) ∧
      (t.dir 6).Live 1 ∧ ¬t.Agree 6 1 := by
  obtain ⟨t, run, reached⟩ : ∃ t, Run (step oneUser) (fun _ _ => True)
      (oneProgram.boot Unit) makeTwo t ∧
      decide (((t.dir 1).Live 2 ∧ ¬t.Agree 1 2) ∧ ((t.dir 6).Live 0 ∧ ¬t.Agree 6 0) ∧
        (t.dir 6).Live 1 ∧ ¬t.Agree 6 1) = true := exists_run_of_exec (by decide +kernel)
  exact ⟨t, run, of_decide_eq_true reached⟩

end OsCpp.Dirs
