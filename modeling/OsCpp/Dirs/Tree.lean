import OsCpp.Dirs.Image
import Mathlib.Data.Finset.Sigma

/-!
# Link counts

`create` gives a new inode the link count one and makes one entry for it.  For a directory it also makes
`"."` and `".."`, which both name the new directory, and counts one more link of the parent.
-/

namespace OsCpp.Dirs

open Execution (Run exists_run_of_exec)
open Function (update update_of_ne update_self)

variable {Pid : Type}

/-- What entries, link counts and the directories made have to do with each other. -/
structure Tree (setup : Setup Pid) (s₀ s : State Pid) : Prop where
  grown : Grown s₀ s
  /-- One entry names an inode, apart from its own. -/
  once : ∀ d k d' k', (s.dir d).Live k → (s.dir d').Live k' →
    ((s.dir d).slot k).inum = ((s.dir d').slot k').inum →
    d = d' ∧ k = k' ∨ d = ((s.dir d).slot k).inum ∨ d' = ((s.dir d).slot k).inum
  named : ∀ i, (s.node i).type ≠ 0 → s.Free i → i ≠ ROOTINO →
    ∃ d k, (s.dir d).Live k ∧ ((s.dir d).slot k).inum = i ∧ d ≠ i
  /-- Directories that name themselves are the root and those that are made. -/
  own : ∀ d k, (s.dir d).Live k → ((s.dir d).slot k).inum = d →
    d = ROOTINO ∧ k < 2 ∨ (∃ p, (s.phase p).building = some d) ∨ ∃ parent, (d, parent) ∈ s.made
  inside : ∀ p i, (s.phase p).building = some i → ∀ k, (s.dir i).Live k →
    ((s.dir i).slot k).inum = i
  root : ∀ d k, (s.dir d).Live k → ((s.dir d).slot k).inum = ROOTINO → d = ROOTINO
  isDir : ∀ d k, (s.dir d).Live k → (s.node d).type = T_DIR
  nlink : s.made = [] → ∀ i, (s.node i).type ≠ 0 → (∀ p c, s.phase p ≠ .setting c i) →
    (s.node i).nlink = 1
  counting : ∀ p c i, s.phase p = .counting c i → s.made ≠ []
  made : ∀ d parent, (d, parent) ∈ s.made → (s₀.node d).type = 0 ∧ s.Public d ∧ d ≠ parent
  below : ∀ d, (s.node d).type ≠ 0 → d < setup.ninodes

section

variable {setup : Setup Pid} {s₀ s t : State Pid} {p : Pid} {c : Call} {inum : Nat}

/-- A new entry names the inode a call builds, in that inode or in a directory that nobody builds.
-/
structure Fresh (s t : State Pid) (p : Pid) (inum d k : Nat) : Prop where
  names : ((t.dir d).slot k).inum = inum
  building : (s.phase p).building = some inum
  isDir : (t.node d).type = T_DIR
  place : d = inum ∧ (t.phase p).building = some inum ∨ d ≠ inum ∧ t.Free d

/-- What a step does: at most one entry is new, and those that go name the directory they are in. -/
structure Change (setup : Setup Pid) (s₀ s t : State Pid) (p : Pid) (inum : Nat) (place : Nat × Nat) :
    Prop where
  entries : ∀ {d k}, (t.dir d).Live k → (s.dir d).Live k ∧ (t.dir d).slot k = (s.dir d).slot k ∨
    (d, k) = place ∧ Fresh s t p inum d k
  kept : ∀ {d k}, (s.dir d).Live k → ((s.dir d).slot k).inum ≠ d →
    (t.dir d).Live k ∧ (t.dir d).slot k = (s.dir d).slot k
  used : ∀ {i}, (t.node i).type ≠ 0 → t.Free i → (s.node i).type ≠ 0 ∧ s.Free i ∨
    ∃ d k, (t.dir d).Live k ∧ ((t.dir d).slot k).inum = i ∧ d ≠ i
  type : ∀ {d k}, (t.dir d).Live k → (s.dir d).Live k → (t.node d).type = (s.node d).type
  built : ∀ {d k}, (t.dir d).Live k → (s.dir d).Live k → (s.phase p).building = some d →
    (t.phase p).building = some d ∨ ∃ parent, (d, parent) ∈ t.made
  builds : ∀ {d k}, (t.dir d).Live k → (t.phase p).building = some d → (s.phase p).building = some d
  nlink : ∀ {i}, (t.node i).type ≠ 0 → (∀ c, t.phase p ≠ .setting c i) → s.made = [] →
    (t.node i).nlink = 1 ∨ (t.node i).nlink = (s.node i).nlink ∧ (s.node i).type ≠ 0 ∧
      ∀ c, s.phase p ≠ .setting c i
  counting : ∀ {c i}, t.phase p = .counting c i → t.made ≠ []
  known : ∀ r ∈ s.made, r ∈ t.made
  made : ∀ {d parent}, (d, parent) ∈ t.made → (d, parent) ∈ s.made ∨
    (s₀.node d).type = 0 ∧ t.Public d ∧ d ≠ parent
  below : ∀ {i}, (t.node i).type ≠ 0 → (s.node i).type ≠ 0 ∨ i < setup.ninodes

theorem Tree.change {place : Nat × Nat} (tree : Tree setup s₀ s) (apart : Apart s t p) (grown : Grown s₀ t)
    (notRoot : ∀ {i}, (s.phase p).building = some i → i ≠ ROOTINO)
    (change : Change setup s₀ s t p inum place) : Tree setup s₀ t := by
  have hidden : ∀ {d k}, (s.phase p).building = some inum → (s.dir d).Live k →
      ((s.dir d).slot k).inum = inum → d = inum :=
    fun building => tree.grown.hidden p inum building _ _
  have emptied : t.made = [] → s.made = [] := fun empty =>
    List.eq_nil_iff_forall_not_mem.mpr fun r member => by
      have still := change.known r member
      rw [empty] at still
      cases still
  refine ⟨grown, fun d k d' k' live live' same => ?_, fun i used free other => ?_,
    fun d k live self => ?_, fun q i building k live => ?_, fun d k live names => ?_,
    fun d k live => ?_, fun empty i used settled => ?_, fun q c i counts => ?_,
    fun d parent member => ?_, fun d used => ?_⟩
  · rcases change.entries live with ⟨old, slot⟩ | ⟨rfl, new⟩ <;>
      rcases change.entries live' with ⟨old', slot'⟩ | ⟨here, new'⟩
    · rw [slot] at same ⊢
      rw [slot'] at same
      exact tree.once d k d' k' old old' same
    · rw [new'.names, slot] at same
      rw [slot, same]
      exact .inr (.inl (hidden new'.building old same))
    · rw [new.names, slot'] at same
      rw [new.names]
      exact .inr (.inr (hidden new.building old' same.symm))
    · cases here
      exact .inl ⟨rfl, rfl⟩
  · rcases change.used used free with ⟨used, free⟩ | named
    · obtain ⟨d, k, live, names, differ⟩ := tree.named i used free other
      obtain ⟨live', slot⟩ := change.kept live (names ▸ differ.symm)
      exact ⟨d, k, live', by rw [slot, names], differ⟩
    · exact named
  · rcases change.entries live with ⟨old, slot⟩ | ⟨-, new⟩
    · rw [slot] at self
      rcases tree.own d k old self with root | ⟨q, building⟩ | ⟨parent, member⟩
      · exact .inl root
      · by_cases mine : q = p
        · subst mine
          exact .inr ((change.built live old building).imp_left fun still => ⟨q, still⟩)
        · exact .inr (.inl ⟨q, by rw [apart.phase q mine, building]⟩)
      · exact .inr (.inr ⟨parent, change.known _ member⟩)
    · rcases new.place with ⟨rfl, building⟩ | ⟨differ, -⟩
      · exact .inr (.inl ⟨p, building⟩)
      · exact absurd (self.symm.trans new.names) differ
  · rcases change.entries live with ⟨old, slot⟩ | ⟨-, new⟩
    · rw [slot]
      refine tree.inside q i ?_ k old
      by_cases mine : q = p
      · subst mine
        exact change.builds live building
      · rwa [apart.phase q mine] at building
    · rcases new.place with ⟨rfl, -⟩ | ⟨-, free⟩
      · exact new.names
      · exact absurd building (free q)
  · rcases change.entries live with ⟨old, slot⟩ | ⟨-, new⟩
    · exact tree.root d k old (slot ▸ names)
    · exact absurd (new.names.symm.trans names) (notRoot new.building)
  · rcases change.entries live with ⟨old, -⟩ | ⟨-, new⟩
    · rw [change.type live old]
      exact tree.isDir d k old
    · exact new.isDir
  · have empty := emptied empty
    rcases change.nlink used (settled p) empty with one | ⟨same, used, mine⟩
    · exact one
    · rw [same]
      refine tree.nlink empty i used fun q c setting => ?_
      by_cases other : q = p
      · subst other
        exact mine c setting
      · exact settled q c ((apart.phase q other).trans setting)
  · by_cases mine : q = p
    · subst mine
      exact change.counting counts
    · rw [apart.phase q mine] at counts
      exact fun empty => tree.counting q c i counts (emptied empty)
  · rcases change.made member with old | new
    · obtain ⟨unused, isPublic, differ⟩ := tree.made d parent old
      exact ⟨unused, apart.isPublic isPublic, differ⟩
    · exact new
  · exact (change.below used).elim (tree.below d) id

theorem Change.still (apart : Apart s t p) {next : Phase} (dir : t.dir = s.dir)
    (type : ∀ d, (t.node d).type = (s.node d).type) (made : t.made = s.made)
    (following : t.phase p = next) (building : next.building = (s.phase p).building)
    (uncounted : ∀ c i, next ≠ .counting c i)
    (nlink : s.made = [] → ∀ i, (t.node i).nlink = 1 ∨ (t.node i).nlink = (s.node i).nlink ∧
      ∀ c, s.phase p ≠ .setting c i) : Change setup s₀ s t p 0 (0, 0) := by
  subst following
  have old : ∀ {i}, (t.node i).type ≠ 0 → (s.node i).type ≠ 0 := fun used => type _ ▸ used
  exact {
    entries := fun live => .inl ⟨dir ▸ live, by rw [dir]⟩
    kept := fun live _ => ⟨dir ▸ live, by rw [dir]⟩
    used := fun used free => .inl ⟨old used, (apart.free_congr (building ▸ free p) (free p)).mp free⟩
    type := fun _ _ => type _
    built := fun _ _ mine => .inl (building.trans mine)
    builds := fun _ mine => building.symm.trans mine
    nlink := fun used _ empty => (nlink empty _).imp_right fun same => ⟨same.1, old used, same.2⟩
    counting := fun counts => absurd counts (uncounted _ _)
    known := fun _ => made ▸ id
    made := fun member => .inl (made ▸ member)
    below := fun used => .inl (old used) }

theorem Change.clear (apart : Apart s t p) {node : Node} {next : Phase}
    (nodes : t.node = update s.node inum node) (dirs : t.dir = update s.dir inum {})
    (made : t.made = s.made) (following : t.phase p = next) (uncounted : ∀ c i, next ≠ .counting c i)
    (before : ∀ {i}, (s.phase p).building = some i → i = inum)
    (clean : ∀ k, (s.dir inum).Live k → ((s.dir inum).slot k).inum = inum)
    (after : node.type = 0 ∧ next.building = none ∨ inum < setup.ninodes ∧ next = .setting c inum) :
    Change setup s₀ s t p 0 (0, 0) := by
  subst following
  have other : ∀ {d}, d ≠ inum → t.node d = s.node d ∧ t.dir d = s.dir d := fun differ => by
    rw [nodes, dirs, update_of_ne differ, update_of_ne differ]
    exact ⟨rfl, rfl⟩
  have elsewhere : ∀ {d k}, (t.dir d).Live k → d ≠ inum := by
    rintro d k live rfl
    rw [dirs, update_self] at live
    exact absurd live.1 not_lt_zero
  have mine : ∀ {d}, d ≠ inum → (s.phase p).building ≠ some d := fun differ building =>
    differ (before building)
  have used : (t.node inum).type ≠ 0 → inum < setup.ninodes ∧ t.phase p = .setting c inum := by
    rw [nodes, update_self]
    exact fun used => after.resolve_left fun gone => used gone.1
  exact {
    entries := fun live => .inl (by
      have same := (other (elsewhere live)).2
      rw [same] at live ⊢
      exact ⟨live, rfl⟩)
    kept := fun live differ => by
      rw [(other fun same => differ (by subst same; exact clean _ live)).2]
      exact ⟨live, rfl⟩
    used := fun {i} typed free => by
      by_cases same : i = inum
      · subst same
        exact absurd (by rw [(used typed).2]; rfl) (free p)
      · exact .inl ⟨(other same).1 ▸ typed, (apart.free_congr (mine same) (free p)).mp free⟩
    type := fun live _ => by rw [(other (elsewhere live)).1]
    built := fun live _ building => absurd building (mine (elsewhere live))
    builds := fun live building => by
      rcases after with ⟨-, gone⟩ | ⟨-, setting⟩
      · cases gone.symm.trans building
      · rw [setting] at building
        exact absurd (Option.some.inj building).symm (elsewhere live)
    nlink := fun {i} typed settled _ => by
      by_cases same : i = inum
      · subst same
        exact absurd (used typed).2 (settled c)
      · rw [(other same).1] at typed ⊢
        exact .inr ⟨rfl, typed, fun c setting => mine same (by rw [setting]; rfl)⟩
    counting := fun counts => absurd counts (uncounted _ _)
    known := fun _ => made ▸ id
    made := fun member => .inl (made ▸ member)
    below := fun {i} typed => by
      by_cases same : i = inum
      · exact .inr (same ▸ (used (same ▸ typed)).1)
      · exact .inl ((other same).1 ▸ typed) }

/-- An entry for the inode that is being built. -/
theorem Change.extend (apart : Apart s t p) {d k : Nat} {d' : Dir} {de : Entry} {next : Phase}
    (extend : Extends (s.dir d) d' k de) (le : k ≤ (s.dir d).count) (nodes : t.node = s.node)
    (dirs : t.dir = update s.dir d d') (names : de.inum = inum)
    (building : (s.phase p).building = some inum) (nonzero : inum ≠ 0)
    (isDir : (s.node d).type = T_DIR) (following : t.phase p = next)
    (place : d = inum ∧ next.building = some inum ∨ d ≠ inum ∧ t.Free d ∧ next.building = none)
    (built : ∀ {k}, (s.dir inum).Live k → next.building = some inum ∨
      ∃ parent, (inum, parent) ∈ t.made) (unset : ∀ c, s.phase p ≠ .setting c inum)
    (counting : ∀ {c i}, next = .counting c i → t.made ≠ []) (known : ∀ r ∈ s.made, r ∈ t.made)
    (made : ∀ {d parent}, (d, parent) ∈ t.made → (d, parent) ∈ s.made ∨
      (s₀.node d).type = 0 ∧ t.Public d ∧ d ≠ parent) : Change setup s₀ s t p inum (d, k) := by
  subst following
  exact {
    entries := fun live => by
      rcases extend.live_cases le dirs live with ⟨rfl, rfl, slot⟩ | old
      · exact .inr ⟨rfl, by rw [slot, names], building, by rw [nodes, isDir],
          place.imp_right fun other => ⟨other.1, other.2.1⟩⟩
      · exact .inl old
    kept := fun live _ => extend.live_keep dirs live
    used := fun {i} used free => by
      by_cases new : i = inum
      · subst new
        rcases place with ⟨-, still⟩ | ⟨differ, -⟩
        · exact absurd still (free p)
        · refine .inr ⟨d, k, ?_⟩
          rw [dirs, update_self, extend.new]
          have count := extend.count
          exact ⟨⟨by omega, by rwa [extend.new, names]⟩, names, differ⟩
      · exact .inl ⟨nodes ▸ used, (apart.free_congr (fun mine =>
          new (Option.some.inj (mine.symm.trans building))) (free p)).mp free⟩
    type := fun _ _ => by rw [nodes]
    built := fun _ old mine => by
      cases mine.symm.trans building
      exact built old
    builds := fun _ mine => by
      rcases place with ⟨-, still⟩ | ⟨-, -, done⟩
      · rw [building, ← mine, still]
      · cases done.symm.trans mine
    nlink := fun used _ _ => .inr ⟨by rw [nodes], nodes ▸ used, fun c setting => by
      rw [setting] at building
      cases building
      exact unset c setting⟩
    counting := counting
    known := known
    made := made
    below := fun used => .inl (nodes ▸ used) }

theorem setNode_nlink (s : State Pid) {node : Node} (same : node.nlink = (s.node inum).nlink) (i : Nat) :
    ((s.setNode inum node).node i).nlink = (s.node i).nlink := by
  by_cases here : i = inum
  · subst here
    rw [setNode_self, same]
  · rw [setNode_other s node here]

theorem created_nlink (phase : s.phase p = .setting c inum) (i : Nat) :
    ((s.setNode inum (setup.created p (s.node inum))).node i).nlink = 1 ∨
      ((s.setNode inum (setup.created p (s.node inum))).node i).nlink = (s.node i).nlink ∧
        ∀ c, s.phase p ≠ .setting c i := by
  by_cases same : i = inum
  · subst same
    exact .inl (congrArg Node.nlink (setNode_self s _ _))
  · refine .inr ⟨congrArg Node.nlink (setNode_other s _ same), fun c' setting => ?_⟩
    rw [phase] at setting
    cases setting
    exact same rfl

end

section

variable [DecidableEq Pid] {setup : Setup Pid} {s₀ s t : State Pid} {p : Pid}

theorem Tree.move (tree : Tree setup s₀ s) (sound : Sound s₀) (rooted : (s₀.node ROOTINO).type ≠ 0)
    (move : Move setup s p t) : Tree setup s₀ t := by
  have before := tree.grown
  have apart := (before.locks.move move).1
  have grown := before.move sound move
  have held := before.locks p
  have stage := before.stage p
  have notRoot : ∀ {i}, (s.phase p).building = some i → i ≠ ROOTINO := by
    rintro i building rfl
    exact (before.type ROOTINO rooted).2 p building
  cases move with
  | start phase | find phase | full phase | refuse phase | closeFile phase | reopen phase
  | leave phase =>
    refine tree.change apart grown notRoot (.still apart rfl (fun _ => rfl) rfl (update_self ..)
      (by rw [phase]; rfl) nofun fun _ i => .inr ⟨rfl, fun c => ?_⟩)
    rw [phase]
    exact nofun
  | count phase =>
    refine tree.change apart grown notRoot (.still apart rfl (setNode_type s rfl) rfl (update_self ..)
      (by rw [phase]; rfl) nofun fun empty => ?_)
    exact absurd empty (tree.counting p _ _ phase)
  | closeDir phase =>
    refine tree.change apart grown notRoot (.still apart rfl (setNode_type s rfl) rfl (update_self ..)
      (by rw [phase]; rfl) nofun fun _ i => .inr ⟨?_, fun c => by rw [phase]; exact nofun⟩)
    refine setNode_nlink s ?_ i
    rfl
  | setDir phase | setFile phase =>
    refine tree.change apart grown notRoot (.still apart rfl (setNode_type s rfl) rfl (update_self ..)
      (by rw [phase]; rfl) nofun fun _ i => ?_)
    exact created_nlink phase i
  | allocate phase nonzero below unused unlocked typed =>
    refine tree.change apart grown notRoot (.clear apart rfl rfl rfl (update_self ..) nofun
      (fun built => ?_) (fun k live => ?_) (.inr ⟨below, rfl⟩))
    · rw [phase] at built
      cases built
    · exact absurd (unused.symm.trans (tree.isDir _ k live)) (by decide)
  | fail phase =>
    have building := (Phase.parent_of_fail phase).2
    exact tree.change apart grown notRoot (.clear (c := ⟨0, dot, 0⟩) apart rfl rfl rfl (update_self ..)
      nofun (fun built => Option.some.inj (built.symm.trans building)) (tree.inside p _ building)
      (.inl ⟨rfl, rfl⟩))
  | @dot c inum d room phase linked =>
    have building : (s.phase p).building = some inum := by rw [phase]; rfl
    have fits := held.building _ building
    rw [phase] at stage
    exact tree.change apart grown notRoot (.extend apart
      (dot_extends (before.whole _) stage.2.2 linked) zero_le rfl rfl
      (Nat.mod_eq_of_lt fits.2) building fits.1 (stage.1.trans stage.2.1) (update_self ..)
      (.inl ⟨rfl, rfl⟩) (fun _ => .inl rfl) (fun c => by rw [phase]; exact nofun) nofun
      (fun _ => id) .inl)
  | @dots c inum d room phase linked =>
    have building : (s.phase p).building = some inum := by rw [phase]; rfl
    have fits := held.building _ building
    rw [phase] at stage
    exact tree.change apart grown notRoot (.extend apart
      (dots_extends (before.whole _) stage.2.2.1 stage.2.2.2 fits linked) stage.2.2.1.ge rfl rfl
      (Nat.mod_eq_of_lt fits.2) building fits.1 (stage.1.trans stage.2.1) (update_self ..)
      (.inl ⟨rfl, rfl⟩) (fun _ => .inl rfl) (fun c => by rw [phase]; exact nofun) nofun
      (fun _ => id) .inl)
  | @linkDir c inum d room phase linked isDir =>
    have building : (s.phase p).building = some inum := by rw [phase]; rfl
    have fits := held.building _ building
    have parent := (held.parent c.dp (by rw [phase]; rfl)).2
    have differ := ne_of_building building parent
    have free := (apart.isPublic parent).2
    obtain ⟨k, de, place, extend⟩ := dirLinkWith_extends (before.whole _) linked
    rw [phase] at stage
    refine tree.change apart grown notRoot (.extend apart extend place.le rfl rfl
      (Nat.mod_eq_of_lt fits.2) building fits.1 parent.1 (update_self ..)
      (.inr ⟨differ, free, rfl⟩) (fun _ => .inr ⟨c.dp, .head _⟩)
      (fun c => by rw [phase]; exact nofun) (fun _ => List.cons_ne_nil _ _) (fun _ => .tail _)
      fun member => ?_)
    rcases List.mem_cons.mp member with new | old
    · cases new
      refine .inr ⟨before.unused building, ⟨stage.1.trans isDir, ?_⟩, differ.symm⟩
      rw [apart.free_iff, goto_phase_self]
      exact ⟨fun q other built => before.locks.building_ne other
        (Phase.own_of_building building) built rfl, nofun⟩
    · exact .inl old
  | @linkFile c inum d room phase linked isFile =>
    have building : (s.phase p).building = some inum := by rw [phase]; rfl
    have fits := held.building _ building
    have parent := (held.parent c.dp (by rw [phase]; rfl)).2
    obtain ⟨k, de, place, extend⟩ := dirLinkWith_extends (before.whole _) linked
    rw [phase] at stage
    exact tree.change apart grown notRoot (.extend apart extend place.le rfl rfl
      (Nat.mod_eq_of_lt fits.2) building fits.1 parent.1 (update_self ..)
      (.inr ⟨ne_of_building building parent, (apart.isPublic parent).2, rfl⟩)
      (fun old => absurd (stage.1.symm.trans (tree.isDir inum _ old)) isFile)
      (fun c => by rw [phase]; exact nofun) nofun (fun _ => id) .inl)

end

theorem Tree.run {events : List (Event Pid)} [DecidableEq Pid] {setup : Setup Pid} {s₀ t : State Pid}
    (tree : Tree setup s₀ s₀) (sound : Sound s₀) (rooted : (s₀.node ROOTINO).type ≠ 0)
    (run : Run (step setup) (fun _ _ => True) s₀ events t) : Tree setup s₀ t := by
  apply run.invariant
  · intro source event target before _ taken
    obtain ⟨p, move⟩ := move_of_step taken
    exact before.move sound rooted move
  · exact tree

/-! ## When the tree is right -/

/-- The live entries that name an inode, `"."` apart. -/
def State.linking (s : State Pid) (ninodes i : Nat) : Finset (Σ _ : Nat, Nat) :=
  ((Finset.range ninodes).filter fun d => (s.node d).type = T_DIR).sigma fun d =>
    (Finset.range (s.dir d).count).filter fun k =>
      ((s.dir d).slot k).inum = i ∧ ((s.dir d).slot k).name ≠ dot.field

/-- `"."` and `".."` of the directories made are right, and so are link counts. -/
structure State.TreeOk (s : State Pid) (ninodes : Nat) : Prop where
  dot : ∀ d parent, (d, parent) ∈ s.made →
    dir_lookup (s.dir d) Dirs.dot = some (some d) ∧ dir_lookup (s.dir d) dots = some (some parent)
  nlink : ∀ i, (s.node i).type ≠ 0 → (s.node i).nlink = (s.linking ninodes i).card

/-- No directory has been made, and nothing else is named `"."`. -/
def State.Flat (s : State Pid) : Prop :=
  s.made = [] ∧ ∀ d k, (s.dir d).Live k → ((s.dir d).slot k).name = dot.field → d = ROOTINO ∧ k = 0

theorem Headed.lookup_dots {d : Dir} {inum : Nat} (headed : Headed d inum)
    (whole : d.size = 32 * d.count) : dir_lookup d dots = some (some inum) := by
  have two := headed.two
  have numbered : inum % 2 ^ 16 = inum := Nat.mod_eq_of_lt headed.fits.2
  have missed : ¬(d.slot 0).Hit dots := by
    rw [headed.first]
    rintro ⟨-, compared⟩
    exact absurd ((namecmp_field dots dot).mp compared) (by decide)
  have hit : (d.slot 1).Hit dots := by
    rw [headed.second]
    exact ⟨by rw [dotsEntry, numbered]; exact headed.fits.1, (namecmp_field dots dots).mpr rfl⟩
  have number : (d.slot 1).inum = inum := by rw [headed.second, dotsEntry, numbered]
  obtain ⟨fuel, enough⟩ : ∃ fuel, d.size = fuel + 2 := ⟨d.size - 2, by omega⟩
  rw [dir_lookup, enough, lookupFrom, if_pos (by omega), if_pos (by change 0 + 32 ≤ _; omega)]
  change (if (d.slot 0).Hit dots then _ else _) = _
  rw [if_neg missed, lookupFrom, if_pos (by change 0 + 32 < _; omega),
    if_pos (by change 0 + 32 + 32 ≤ _; omega)]
  change (if (d.slot 1).Hit dots then some (some (d.slot 1).inum) else _) = _
  rw [if_pos hit, number]

section

variable {setup : Setup Pid} {s₀ s : State Pid}

/-- The first two entries of the root. -/
structure RootHead (s : State Pid) : Prop where
  live : ∀ k < 2, (s.dir ROOTINO).Live k
  number : ∀ k < 2, ((s.dir ROOTINO).slot k).inum = ROOTINO
  first : ((s.dir ROOTINO).slot 0).name = dot.field
  second : ((s.dir ROOTINO).slot 1).name = dots.field

theorem Tree.mem_linking (tree : Tree setup s₀ s) {d k i : Nat} (nonzero : i ≠ 0) :
    ⟨d, k⟩ ∈ s.linking setup.ninodes i ↔ (s.dir d).Live k ∧ ((s.dir d).slot k).inum = i ∧
      ((s.dir d).slot k).name ≠ dot.field := by
  simp only [State.linking, Finset.mem_sigma, Finset.mem_filter, Finset.mem_range]
  constructor
  · rintro ⟨-, inside, names, other⟩
    exact ⟨⟨inside, by rwa [names]⟩, names, other⟩
  · rintro ⟨live, names, other⟩
    have isDir := tree.isDir d k live
    refine ⟨⟨tree.below d ?_, isDir⟩, live.1, names, other⟩
    rw [isDir]
    decide

variable (tree : Tree setup s₀ s) (quiet : ∀ p, s.phase p = .out)

include tree quiet

/-- Only the root names itself while nothing is being made. -/
theorem Tree.own_root (flat : s.made = [])
    {d k : Nat} (live : (s.dir d).Live k) (self : ((s.dir d).slot k).inum = d) :
    d = ROOTINO ∧ k < 2 := by
  rcases tree.own d k live self with root | ⟨p, building⟩ | ⟨parent, member⟩
  · exact root
  · rw [quiet p] at building
    cases building
  · rw [flat] at member
    cases member

/-- The link count is one as long as no directory has been made. -/
theorem Tree.nlink_one (flat : s.made = [])
    {i : Nat} (used : (s.node i).type ≠ 0) : (s.node i).nlink = 1 :=
  tree.nlink flat i used fun p c setting => by
    rw [quiet p] at setting
    cases setting

theorem Tree.nonzero {i : Nat} (used : (s.node i).type ≠ 0) : i ≠ 0 := by
  by_cases root : i = ROOTINO
  · rw [root]
    decide
  · have free : s.Free i := fun p building => by
      rw [quiet p] at building
      cases building
    obtain ⟨d, k, live, names, -⟩ := tree.named i used free root
    exact names ▸ live.2

/-- An entry named `"."` is counted by nobody. -/
theorem Tree.flat_of_ok (head : RootHead s) (ok : s.TreeOk setup.ninodes) : s.Flat := by
  have flat : s.made = [] := by
    rw [List.eq_nil_iff_forall_not_mem]
    rintro ⟨d, parent⟩ member
    obtain ⟨unused, isPublic, differ⟩ := tree.made d parent member
    have found := (tree.grown.headed d unused isPublic).lookup_dots (tree.grown.whole d)
    rw [(ok.dot d parent member).2] at found
    exact differ (Option.some.inj (Option.some.inj found)).symm
  refine ⟨flat, fun d k live isDot => ?_⟩
  have used := tree.grown.live d k live
  have counted := ok.nlink _ used
  rw [tree.nlink_one quiet flat used] at counted
  obtain ⟨⟨d', k'⟩, member⟩ := Finset.card_pos.mp (counted ▸ one_pos)
  obtain ⟨live', names', notDot⟩ := (tree.mem_linking live.2).mp member
  have self : ((s.dir d).slot k).inum = d := by
    rcases tree.once d k d' k' live live' names'.symm with ⟨rfl, rfl⟩ | self | self
    · exact absurd isDot notDot
    · exact self.symm
    · obtain ⟨root, -⟩ := tree.own_root quiet flat live' (names'.trans self.symm)
      have names : ((s.dir d).slot k).inum = ROOTINO := self.symm.trans root
      rw [names, tree.root d k live names]
  obtain ⟨rfl, early⟩ := tree.own_root quiet flat live self
  have either : k = 0 ∨ k = 1 := by omega
  rcases either with rfl | rfl
  · exact ⟨rfl, rfl⟩
  · rw [head.second] at isDot
    exact absurd isDot (by decide)

theorem Tree.linking_eq (head : RootHead s) (flat : s.Flat) {i : Nat} (used : (s.node i).type ≠ 0) :
    ∃ place, s.linking setup.ninodes i = {place} := by
  have nonzero := tree.nonzero quiet used
  have free : s.Free i := fun p building => by
    rw [quiet p] at building
    cases building
  by_cases root : i = ROOTINO
  · subst root
    refine ⟨⟨ROOTINO, 1⟩, Finset.ext fun ⟨d, k⟩ => ?_⟩
    rw [tree.mem_linking nonzero, Finset.mem_singleton]
    constructor
    · rintro ⟨live, names, notDot⟩
      obtain rfl := tree.root d k live names
      obtain ⟨-, early⟩ := tree.own_root quiet flat.1 live names
      have either : k = 0 ∨ k = 1 := by omega
      rcases either with rfl | rfl
      · exact absurd head.first notDot
      · rfl
    · intro same
      cases same
      exact ⟨head.live 1 (by decide), head.number 1 (by decide), by rw [head.second]; decide⟩
  · obtain ⟨d, k, live, names, differ⟩ := tree.named i used free root
    refine ⟨⟨d, k⟩, Finset.ext fun ⟨d', k'⟩ => ?_⟩
    rw [tree.mem_linking nonzero, Finset.mem_singleton]
    constructor
    · rintro ⟨live', names', -⟩
      rcases tree.once d' k' d k live' live (names'.trans names.symm) with ⟨rfl, rfl⟩ | self | self
      · rfl
      · obtain ⟨isRoot, -⟩ := tree.own_root quiet flat.1 live' self.symm
        exact absurd ((names'.symm.trans self.symm).trans isRoot) root
      · exact absurd (self.trans names') differ
    · intro same
      cases same
      refine ⟨live, names, fun isDot => ?_⟩
      obtain ⟨rfl, rfl⟩ := flat.2 d k live isDot
      exact root (names.symm.trans (head.number 0 (by decide)))

theorem Tree.ok_iff (head : RootHead s) : s.TreeOk setup.ninodes ↔ s.Flat := by
  refine ⟨tree.flat_of_ok quiet head, fun flat => ⟨fun d parent member => ?_, fun i used => ?_⟩⟩
  · rw [flat.1] at member
    cases member
  · rw [tree.nlink_one quiet flat.1 used, eq_comm, Finset.card_eq_one]
    exact tree.linking_eq quiet head flat used

omit tree quiet in
theorem RootHead.kept (head : RootHead s₀) (grown : Grown s₀ s) : RootHead s := by
  have kept := fun k early => grown.kept ROOTINO k (head.live k early)
  refine ⟨fun k early => (kept k early).1, fun k early => ?_, ?_, ?_⟩
  · rw [(kept k early).2, head.number k early]
  · rw [(kept 0 (by decide)).2, head.first]
  · rw [(kept 1 (by decide)).2, head.second]

end

/-! ## Images -/

section

open Image

variable {txt bin : List Name} {image : Image}

theorem top_number : ∀ k < 5, ((top.dir ROOTINO).slot k).inum = if k < 2 then 1 else k := by decide

/-- Where the live entries of an image are, and what they name. -/
theorem Image.Built.entry_cases (built : Built txt bin image)
    (few : 4 + txt.length + bin.length < Mkfs.NINODES) {d k : Nat} (live : (image.dir d).Live k) :
    d = 1 ∧ k < 5 + txt.length ∧ ((image.dir d).slot k).inum = (if k < 2 then 1 else k) ∨
      d = 2 ∧ ((image.dir d).slot k).inum = 5 + txt.length + k := by
  rcases built.live_cases few live with ⟨rfl, early⟩ | ⟨rfl, later, name, found, file⟩ |
    ⟨rfl, name, -, file⟩
  · rw [(built.root_early early).1, top_number k early]
    exact .inl ⟨rfl, by omega, rfl⟩
  · have inside : k - 5 < txt.length := (List.getElem?_eq_some_iff.mp found).1
    rw [file.number, if_neg (by omega)]
    exact .inl ⟨rfl, by omega, rfl⟩
  · exact .inr ⟨rfl, file.number⟩

theorem top_nodes : ∀ i < 5, (top.node i).type ≠ 0 →
    i ≠ 0 ∧ (top.node i).nlink = 1 ∧ (top.node i).type = T_DIR := by decide

section

variable (built : Built txt bin image)
include built

theorem Image.Built.node_cases {i : Nat}
    (used : (image.node i).type ≠ 0) :
    i ≠ 0 ∧ i < 5 + txt.length + bin.length ∧ (image.node i).nlink = 1 := by
  rw [built.node, nodeAt] at used ⊢
  by_cases early : i < 5
  · rw [if_pos early] at used ⊢
    obtain ⟨nonzero, nlink, -⟩ := top_nodes i early used
    exact ⟨nonzero, by omega, nlink⟩
  · rw [if_neg early] at used ⊢
    cases found : (txt ++ bin)[i - 5]? with
    | none =>
      rw [found] at used
      exact absurd rfl used
    | some name =>
      have inside := (List.getElem?_eq_some_iff.mp found).1
      rw [List.length_append] at inside
      exact ⟨by omega, by omega, rfl⟩

/-- Every inode but the root has an entry. -/
theorem Image.Built.entry_of_node (few : 4 + txt.length + bin.length < Mkfs.NINODES) {i : Nat} (used : (image.node i).type ≠ 0)
    (notRoot : i ≠ 1) : ∃ d k, (image.dir d).Live k ∧ ((image.dir d).slot k).inum = i ∧ d ≠ i := by
  obtain ⟨nonzero, inside, -⟩ := built.node_cases used
  have root : ∀ {k}, (image.dir 1).Live k → 2 ≤ k → ((image.dir 1).slot k).inum = k := by
    intro k live later
    rcases built.entry_cases few live with ⟨-, -, number⟩ | ⟨other, -⟩
    · rw [number, if_neg (by omega)]
    · exact absurd other (by decide)
  by_cases early : i < 5
  · have live : (image.dir 1).Live i := built.root_live early
    exact ⟨1, i, live, root live (by omega), notRoot.symm⟩
  · by_cases first : i - 5 < txt.length
    · have live : (image.dir 1).Live i := built.txt_live few (by omega) (List.getElem?_eq_getElem first)
      exact ⟨1, i, live, root live (by omega), notRoot.symm⟩
    · have second : i - 5 - txt.length < bin.length := by omega
      have live := built.bin_live few (List.getElem?_eq_getElem second)
      rcases built.entry_cases few live with ⟨other, -⟩ | ⟨-, number⟩
      · exact absurd other (by decide)
      · exact ⟨2, _, live, by rw [number]; omega, by omega⟩

theorem Image.Built.tree (few : 4 + txt.length + bin.length < Mkfs.NINODES) {setup : Setup Pid}
    (sized : setup.ninodes = Mkfs.NINODES) : Tree setup (image.boot Pid) (image.boot Pid) where
  grown := (built.sound few Pid).grown
  once d k d' k' live live' same := by
    change (image.dir d).Live k at live
    change (image.dir d').Live k' at live'
    change ((image.dir d).slot k).inum = ((image.dir d').slot k').inum at same
    change _ ∨ d = ((image.dir d).slot k).inum ∨ _
    rcases built.entry_cases few live with ⟨rfl, inside, number⟩ | ⟨rfl, number⟩ <;>
      rcases built.entry_cases few live' with ⟨rfl, inside', number'⟩ | ⟨rfl, number'⟩ <;> grind
  named i used _ notRoot := built.entry_of_node few used notRoot
  own d k live self := by
    change ((image.dir d).slot k).inum = d at self
    rcases built.entry_cases few live with ⟨rfl, inside, number⟩ | ⟨rfl, number⟩
    · refine .inl ⟨rfl, ?_⟩
      rw [number] at self
      split at self <;> omega
    · omega
  inside _ _ building := nomatch building
  root d k live names := by
    change ((image.dir d).slot k).inum = 1 at names
    rcases built.entry_cases few live with ⟨rfl, -⟩ | ⟨rfl, number⟩
    · rfl
    · omega
  isDir d k live := by
    change (image.node d).type = T_DIR
    rw [built.node, nodeAt]
    rcases built.entry_cases few live with ⟨rfl, -⟩ | ⟨rfl, -⟩ <;> rfl
  nlink _ i used _ := (built.node_cases used).2.2
  counting _ _ _ counts := nomatch counts
  made _ _ member := nomatch member
  below d used := by
    have inside := (built.node_cases used).2.1
    rw [sized]
    omega

theorem Image.Built.rootHead : RootHead (image.boot Pid) where
  live k early := built.root_live (by omega)
  number k early := by
    change ((image.dir ROOTINO).slot k).inum = ROOTINO
    rw [(built.root_early (by omega)).1, top_number k (by omega), if_pos early]
    rfl
  first := by
    change ((image.dir ROOTINO).slot 0).name = _
    rw [(built.root_early (by decide)).1]
    rfl
  second := by
    change ((image.dir ROOTINO).slot 1).name = _
    rw [(built.root_early (by decide)).1]
    rfl

end

/-- Between calls the tree is right iff no directory has been made and only the root's entry is
named `"."`. -/
theorem tree_ok_iff [DecidableEq Pid] {setup : Setup Pid} {t : State Pid} {events : List (Event Pid)}
    (sized : setup.ninodes = Mkfs.NINODES) (few : 4 + txt.length + bin.length < Mkfs.NINODES)
    (built : Image.main txt bin = some image)
    (run : Run (step setup) (fun _ _ => True) (image.boot Pid) events t)
    (quiet : ∀ p, t.phase p = .out) : t.TreeOk setup.ninodes ↔ t.Flat := by
  have built := built_of_main built
  have rooted : ((image.boot Pid).node ROOTINO).type ≠ 0 := by
    change (image.node ROOTINO).type ≠ 0
    rw [built.node]
    exact (by decide : T_DIR ≠ 0)
  have tree := (built.tree few sized).run (built.sound few Pid) rooted run
  exact tree.ok_iff quiet (built.rootHead.kept tree.grown)

end

theorem tree_ok_iff_made :
    ∃ t, Run (step oneUser) (fun _ _ => True) (oneProgram.boot Unit) makeTwo t ∧
      t.made = [(6, 3)] ∧ ¬t.TreeOk 200 := by
  obtain ⟨t, run, reached⟩ : ∃ t, Run (step oneUser) (fun _ _ => True)
      (oneProgram.boot Unit) makeTwo t ∧ decide (t.phase () = .out ∧ t.made = [(6, 3)]) = true :=
    exists_run_of_exec (by decide +kernel)
  obtain ⟨quiet, made⟩ := of_decide_eq_true reached
  have built : Image.main [] [program] = some oneProgram := rfl
  have sized : oneUser.ninodes = Mkfs.NINODES := rfl
  refine ⟨t, run, made, fun ok => ?_⟩
  have flat := (tree_ok_iff sized (by decide) built run fun _ => quiet).mp ok
  rw [flat.1] at made
  cases made

/-- After `mkdir`, `".."` is the new directory itself, and the link counts of both directories are
wrong. -/
theorem dots_of_mkdir :
    ∃ t, Run (step oneUser) (fun _ _ => True) (oneProgram.boot Unit) makeTwo t ∧
      (t.phase () = .out ∧ t.made = [(6, 3)] ∧ dir_lookup (t.dir 6) dots = some (some 6)) ∧
      ((t.node 6).nlink = 1 ∧ (t.linking 200 6).card = 2) ∧
      (t.node 3).nlink = 2 ∧ (t.linking 200 3).card = 1 := by
  obtain ⟨t, run, reached⟩ : ∃ t, Run (step oneUser) (fun _ _ => True)
      (oneProgram.boot Unit) makeTwo t ∧
      decide ((t.phase () = .out ∧ t.made = [(6, 3)] ∧ dir_lookup (t.dir 6) dots = some (some 6)) ∧
        ((t.node 6).nlink = 1 ∧ (t.linking 200 6).card = 2) ∧
        (t.node 3).nlink = 2 ∧ (t.linking 200 3).card = 1) = true :=
    exists_run_of_exec (by decide +kernel)
  exact ⟨t, run, of_decide_eq_true reached⟩

end OsCpp.Dirs
