import OsCpp.Dirs.Locking

/-!
# How directories grow

A directory that has been made starts with `"."` and `".."`; all other entries are put behind them
and stay there.  An inode that is being set up is named by its own entries only.
-/

namespace OsCpp.Dirs

open Function (update update_of_ne update_self)

/-- The entry `"."` that `create` makes. -/
def dotEntry (inum : Nat) : Entry := { inum := inum % 2 ^ 16, name := dot.field }

/-- The entry `".."` that `create` makes. -/
def dotsEntry (inum : Nat) : Entry := { inum := inum % 2 ^ 16, name := dots.field }

def Dir.Live (d : Dir) (k : Nat) : Prop := k < d.count ∧ (d.slot k).inum ≠ 0

instance (d : Dir) (k : Nat) : Decidable (d.Live k) := inferInstanceAs (Decidable (_ ∧ _))

/-- The first two entries of a directory that has been made. -/
structure Headed (d : Dir) (inum : Nat) : Prop where
  fits : inum ≠ 0 ∧ inum < 2 ^ 16
  two : 2 ≤ d.count
  first : d.slot 0 = dotEntry inum
  second : d.slot 1 = dotsEntry inum

section

variable {d d' : Dir} {inum : Nat} {room : Bool} {name : Name}

/-- What a successful `dir_link` does to the entries. -/
structure Extends (d d' : Dir) (k : Nat) (de : Entry) : Prop where
  whole : d'.size = 32 * d'.count
  count : d'.count = max d.count (k + 1)
  new : d'.slot k = de
  old : ∀ j ≠ k, d'.slot j = d.slot j
  free : ¬d.Live k

theorem Extends.live_iff {k : Nat} {de : Entry} (extend : Extends d d' k de) {j : Nat} (other : j ≠ k)
    (le : k ≤ d.count) : d'.Live j ↔ d.Live j := by
  have count := extend.count
  rw [Dir.Live, Dir.Live, extend.old j other]
  constructor
  · exact fun ⟨inside, live⟩ => ⟨by omega, live⟩
  · exact fun ⟨inside, live⟩ => ⟨by omega, live⟩

theorem Extends.keep {k : Nat} {de : Entry} (extend : Extends d d' k de) {j : Nat} (live : d.Live j) :
    d'.Live j ∧ d'.slot j = d.slot j := by
  have other : j ≠ k := by
    rintro rfl
    exact extend.free live
  have count := extend.count
  have inside := live.1
  have old := extend.old j other
  exact ⟨⟨by omega, old ▸ live.2⟩, old⟩

theorem dirLinkWith_extends {fill : Entry → Entry} (whole : d.size = 32 * d.count)
    (linked : dirLinkWith d name fill room = some (d', true)) :
    ∃ k de, Place d k de ∧ Extends d d' k (fill { de with name := name.field }) := by
  obtain ⟨-, k, de, place, slot, size⟩ := dirLinkWith_spec whole linked
  have count : d'.count = max d.count (k + 1) := by
    rw [Dir.count, size]
    exact Nat.mul_div_cancel_left _ (by decide)
  refine ⟨k, de, place, ?_, count, ?_, fun j other => ?_, fun live => ?_⟩
  · rw [size, count]
  · rw [slot, update_self]
  · rw [slot, update_of_ne other]
  · exact live.2 (place.free live.1)

theorem dot_extends (whole : d.size = 32 * d.count) (empty : d.count = 0)
    (linked : dir_link d dot inum room = some (d', true)) : Extends d d' 0 (dotEntry inum) := by
  obtain ⟨k, de, place, extend⟩ := dirLinkWith_extends whole linked
  have le := place.le
  obtain rfl : k = 0 := by omega
  obtain rfl := place.last empty.symm
  exact extend

theorem dots_extends (whole : d.size = 32 * d.count) (one : d.count = 1)
    (first : d.slot 0 = dotEntry inum) (fits : inum ≠ 0 ∧ inum < 2 ^ 16)
    (linked : dir_link d dots inum room = some (d', true)) : Extends d d' 1 (dotsEntry inum) := by
  obtain ⟨k, de, place, extend⟩ := dirLinkWith_extends whole linked
  have le := place.le
  have live : (d.slot 0).inum ≠ 0 := by
    rw [first]
    change inum % 2 ^ 16 ≠ 0
    rw [Nat.mod_eq_of_lt fits.2]
    exact fits.1
  have later : k ≠ 0 := by
    rintro rfl
    exact live (place.free (by omega))
  obtain rfl : k = 1 := by omega
  obtain rfl := place.last one.symm
  -- The entry last read is the first one, with owner and masks zero.
  rw [Dir.before, first] at extend
  exact extend

end

variable {Pid : Type}

/-- How far a new inode has been set up. -/
def Stage (s : State Pid) : Phase → Prop
  | .setting c i => (s.node i).type = c.type ∧ c.type ≠ 0 ∧ (s.dir i).count = 0
  | .linkingDot c i => (s.node i).type = c.type ∧ c.type = T_DIR ∧ (s.dir i).count = 0
  | .linkingDots c i =>
    (s.node i).type = c.type ∧ c.type = T_DIR ∧ (s.dir i).count = 1 ∧ (s.dir i).slot 0 = dotEntry i
  | .linking c i => (s.node i).type = c.type ∧ c.type ≠ 0 ∧ (c.type = T_DIR → Headed (s.dir i) i)
  | _ => True

theorem stage_of_not_building {s : State Pid} {phase : Phase} (none_built : phase.building = none) :
    Stage s phase := by
  cases phase with
  | setting | linkingDot | linkingDots | linking => cases none_built
  | out | looking | found | counting | leaving | holding => trivial

theorem Stage.congr {s t : State Pid} {phase : Phase}
    (same : ∀ i, phase.building = some i → (t.node i).type = (s.node i).type ∧ t.dir i = s.dir i)
    (stage : Stage s phase) : Stage t phase := by
  cases phase with
  | setting c i | linkingDot c i | linkingDots c i | linking c i =>
    obtain ⟨type, dir⟩ := same i rfl
    simp only [Stage, type, dir] at stage ⊢
    exact stage
  | out | looking | found | counting | leaving | holding => trivial

/-- A state to start from. -/
structure Sound (s : State Pid) : Prop where
  whole : ∀ d, (s.dir d).size = 32 * (s.dir d).count
  live : ∀ d k, (s.dir d).Live k → (s.node ((s.dir d).slot k).inum).type ≠ 0
  phase : ∀ p, s.phase p = .out
  empty : ∀ d, (s.node d).type = 0 → (s.dir d).count = 0

/-- What has become of the first state. -/
structure Grown (s₀ s : State Pid) : Prop where
  whole : ∀ d, (s.dir d).size = 32 * (s.dir d).count
  locks : Locks s
  /-- Inodes stay, and so do their entries. -/
  type : ∀ d, (s₀.node d).type ≠ 0 → (s.node d).type = (s₀.node d).type ∧ s.Free d
  kept : ∀ d k, (s₀.dir d).Live k → (s.dir d).Live k ∧ (s.dir d).slot k = (s₀.dir d).slot k
  live : ∀ d k, (s.dir d).Live k → (s.node ((s.dir d).slot k).inum).type ≠ 0
  /-- Only its own entries name an inode that is being set up. -/
  hidden : ∀ p i, (s.phase p).building = some i → ∀ d k, (s.dir d).Live k →
    ((s.dir d).slot k).inum = i → d = i
  stage : ∀ p, Stage s (s.phase p)
  headed : ∀ d, (s₀.node d).type = 0 → s.Public d → Headed (s.dir d) d

theorem Sound.grown {s : State Pid} (sound : Sound s) : Grown s s where
  whole := sound.whole
  locks p := by
    rw [sound.phase p]
    exact ⟨nofun, nofun, nofun⟩
  type d _ := ⟨rfl, fun q building => by rw [sound.phase q] at building; cases building⟩
  kept d k live := ⟨live, rfl⟩
  live := sound.live
  hidden p i building := by
    rw [sound.phase p] at building
    cases building
  stage p := by
    rw [sound.phase p]
    trivial
  headed d unused before := absurd (unused.symm.trans before.1) (by decide)

section

variable {s₀ s t : State Pid} {p : Pid} {c : Call} {inum : Nat}

/-- What is free, by the inode that the process sets up. -/
theorem Apart.free_iff (apart : Apart s t p) (d : Nat) :
    t.Free d ↔ (∀ q ≠ p, (s.phase q).building ≠ some d) ∧ (t.phase p).building ≠ some d := by
  constructor
  · exact fun free => ⟨fun q other => apart.phase q other ▸ free q, free p⟩
  · rintro ⟨others, mine⟩ q
    by_cases same : q = p
    · subst same
      exact mine
    · rw [apart.phase q same]
      exact others q same

theorem Apart.free_congr (apart : Apart s t p) {d : Nat} (before : (s.phase p).building ≠ some d)
    (after : (t.phase p).building ≠ some d) : t.Free d ↔ s.Free d := by
  rw [apart.free_iff]
  refine ⟨fun free q => ?_, fun free => ⟨fun q _ => free q, after⟩⟩
  by_cases same : q = p
  · exact same ▸ before
  · exact free.1 q same

/-- Two processes do not set up the same inode. -/
theorem Locks.building_ne (locks : Locks s) {q : Pid} (other : q ≠ p) {i : Nat}
    (own : (s.phase p).own = some inum) (building : (s.phase q).building = some i) : i ≠ inum := by
  rintro rfl
  have mine := ((locks p).own _ own).1
  have its := ((locks q).own _ (Phase.own_of_building building)).1
  rw [mine] at its
  exact other (Option.some.inj its).symm

/-- An inode of the first state is not being set up. -/
theorem Grown.unused (grown : Grown s₀ s) (building : (s.phase p).building = some inum) :
    (s₀.node inum).type = 0 := by
  by_contra used
  exact (grown.type inum used).2 p building

theorem Sound.used (sound : Sound s₀) {d k : Nat} (live : (s₀.dir d).Live k) :
    (s₀.node d).type ≠ 0 := by
  intro unused
  have none_left := sound.empty d unused
  have inside := live.1
  omega

theorem Grown.still (grown : Grown s₀ s) (both : Apart s t p ∧ Locks t) (dir : t.dir = s.dir)
    (type : ∀ d, (t.node d).type = (s.node d).type)
    (building : (t.phase p).building = (s.phase p).building) (stage : Stage t (t.phase p)) :
    Grown s₀ t := by
  obtain ⟨apart, locks⟩ := both
  have phases : ∀ q, (t.phase q).building = (s.phase q).building := fun q => by
    by_cases same : q = p
    · rw [same, building]
    · rw [apart.phase q same]
  have free : ∀ d, t.Free d ↔ s.Free d := fun d => forall_congr' fun q => by rw [phases q]
  refine ⟨fun d => ?_, locks, fun d used => ?_, fun d k live => ?_, fun d k live => ?_,
    fun q i built d k live named => ?_, fun q => ?_, fun d unused before => ?_⟩
  · rw [dir]
    exact grown.whole d
  · rw [type, free]
    exact grown.type d used
  · rw [dir]
    exact grown.kept d k live
  · rw [dir] at live ⊢
    rw [type]
    exact grown.live d k live
  · rw [dir] at live named
    rw [phases] at built
    exact grown.hidden q i built d k live named
  · by_cases same : q = p
    · subst same
      exact stage
    · rw [apart.phase q same]
      exact (grown.stage q).congr fun i _ => ⟨type i, by rw [dir]⟩
  · rw [dir]
    exact grown.headed d unused ⟨(type d).symm.trans before.1, (free d).mp before.2⟩

/-- Nobody but the process can know an inode. -/
structure Sole (s₀ s : State Pid) (p : Pid) (inum : Nat) : Prop where
  fresh : (s₀.node inum).type = 0
  others : ∀ q ≠ p, (s.phase q).building ≠ some inum
  mine : ∀ {i}, (s.phase p).building = some i → i = inum
  hidden : ∀ {d k}, (s.dir d).Live k → ((s.dir d).slot k).inum = inum → d = inum

theorem Grown.sole (grown : Grown s₀ s) (building : (s.phase p).building = some inum) :
    Sole s₀ s p inum where
  fresh := grown.unused building
  others _ other built := grown.locks.building_ne other (Phase.own_of_building building) built rfl
  mine same := Option.some.inj (same.symm.trans building)
  hidden := grown.hidden p inum building _ _

theorem Grown.sole_of_unused (grown : Grown s₀ s) (before : (s.phase p).building = none)
    (unused : (s.node inum).type = 0) (unlocked : s.lock inum = none) : Sole s₀ s p inum where
  fresh := by
    by_contra used
    exact used ((grown.type inum used).1.symm.trans unused)
  others q _ := grown.locks.free unlocked q
  mine same := by cases before.symm.trans same
  hidden living named := absurd (named ▸ unused) (grown.live _ _ living)

/-- A step that changes the inode that a process sets up. -/
theorem Grown.setUp (grown : Grown s₀ s) (both : Apart s t p ∧ Locks t) {dir : Dir}
    (sole : Sole s₀ s p inum) (changed : t.dir = update s.dir inum dir)
    (whole : dir.size = 32 * dir.count) (types : ∀ d ≠ inum, (t.node d).type = (s.node d).type)
    (live : ∀ k, dir.Live k → (dir.slot k).inum = inum ∧ (t.node inum).type ≠ 0)
    (following : (t.phase p).building = some inum ∨
      (t.phase p).building = none ∧ dir.count = 0 ∧ (t.node inum).type = 0)
    (stage : Stage t (t.phase p)) (sound : Sound s₀) : Grown s₀ t := by
  obtain ⟨apart, locks⟩ := both
  have here : t.dir inum = dir := by rw [changed, update_self]
  have there : ∀ d ≠ inum, t.dir d = s.dir d := fun d other => by
    rw [changed, update_of_ne other]
  have after : ∀ {i}, (t.phase p).building = some i → i = inum := fun built => by
    rcases following with same | ⟨gone, -⟩
    · exact Option.some.inj (built.symm.trans same)
    · cases gone.symm.trans built
  have free_of_ne : ∀ d ≠ inum, t.Free d ↔ s.Free d := fun d other =>
    apart.free_congr (fun built => other (sole.mine built)) fun built => other (after built)
  refine ⟨fun d => ?_, locks, fun d used => ?_, fun d k kept => ?_, fun d k living => ?_,
    fun q i built d k living named => ?_, fun q => ?_, fun d unused before => ?_⟩
  · by_cases same : d = inum
    · rw [same, here, whole]
    · rw [there d same]
      exact grown.whole d
  · have other : d ≠ inum := by
      rintro rfl
      exact used sole.fresh
    rw [types d other, free_of_ne d other]
    exact grown.type d used
  · have other : d ≠ inum := by
      rintro rfl
      exact sound.used kept sole.fresh
    rw [there d other]
    exact grown.kept d k kept
  · by_cases same : d = inum
    · subst same
      rw [here] at living ⊢
      obtain ⟨named, typed⟩ := live k living
      rwa [named]
    · rw [there d same] at living ⊢
      rw [types _ fun named => same (sole.hidden living named)]
      exact grown.live d k living
  · by_cases same : d = inum
    · subst same
      rw [here] at living named
      exact (live k living).1.symm.trans named
    · rw [there d same] at living named
      by_cases mine : q = p
      · subst mine
        exact absurd (sole.hidden living (named.trans (after built))) same
      · rw [apart.phase q mine] at built
        exact grown.hidden q i built d k living named
  · by_cases mine : q = p
    · subst mine
      exact stage
    · rw [apart.phase q mine]
      refine (grown.stage q).congr fun i built => ?_
      have other : i ≠ inum := by
        rintro rfl
        exact sole.others q mine built
      exact ⟨types i other, there i other⟩
  · have other : d ≠ inum := by
      rintro rfl
      rcases following with stays | ⟨-, -, untyped⟩
      · exact before.2 p stays
      · exact absurd (untyped.symm.trans before.1) (by decide)
    rw [there d other]
    exact grown.headed d unused ⟨(types d other).symm.trans before.1, (free_of_ne d other).mp before.2⟩

theorem Headed.live {d : Dir} {k : Nat} (headed : Headed d inum) (early : k < 2) : d.Live k := by
  have two := headed.two
  have numbered : inum % 2 ^ 16 ≠ 0 := by
    rw [Nat.mod_eq_of_lt headed.fits.2]
    exact headed.fits.1
  have either : k = 0 ∨ k = 1 := by omega
  rcases either with rfl | rfl
  · exact ⟨by omega, by rw [headed.first]; exact numbered⟩
  · exact ⟨by omega, by rw [headed.second]; exact numbered⟩

variable {de : Entry}

theorem Headed.extend {d d' : Dir} {k : Nat} (headed : Headed d inum)
    (extend : Extends d d' k de) : Headed d' inum := by
  have count := extend.count
  have two := headed.two
  refine ⟨headed.fits, by omega, ?_, ?_⟩
  · rw [(extend.keep (headed.live (k := 0) (by omega))).2, headed.first]
  · rw [(extend.keep (headed.live (k := 1) (by omega))).2, headed.second]

theorem Extends.live_cases {d k : Nat} {d' : Dir} (extend : Extends (s.dir d) d' k de)
    (le : k ≤ (s.dir d).count) (changed : t.dir = update s.dir d d') {e j : Nat}
    (living : (t.dir e).Live j) : e = d ∧ j = k ∧ (t.dir e).slot j = de ∨
      (s.dir e).Live j ∧ (t.dir e).slot j = (s.dir e).slot j := by
  by_cases same : e = d
  · subst same
    rw [changed, update_self] at living ⊢
    by_cases place : j = k
    · subst place
      exact .inl ⟨rfl, rfl, extend.new⟩
    · exact .inr ⟨(extend.live_iff place le).mp living, extend.old j place⟩
  · rw [changed, update_of_ne same] at living ⊢
    exact .inr ⟨living, rfl⟩

theorem Extends.live_keep {d k : Nat} {d' : Dir} (extend : Extends (s.dir d) d' k de)
    (changed : t.dir = update s.dir d d') {e j : Nat} (living : (s.dir e).Live j) :
    (t.dir e).Live j ∧ (t.dir e).slot j = (s.dir e).slot j := by
  by_cases same : e = d
  · subst same
    rw [changed, update_self]
    exact extend.keep living
  · rw [changed, update_of_ne same]
    exact ⟨living, rfl⟩

/-- New entries are put behind `"."` and `".."`, and in no place of an old one. -/
theorem Grown.place (grown : Grown s₀ s) {d k : Nat} {d' : Dir} (isPublic : s.Public d)
    (extend : Extends (s.dir d) d' k de) : ¬(s₀.dir d).Live k ∧ ((s₀.node d).type = 0 → 2 ≤ k) := by
  refine ⟨fun live => extend.free (grown.kept d k live).1, fun unused => ?_⟩
  by_contra early
  exact extend.free ((grown.headed d unused isPublic).live (by omega))

theorem Grown.link (grown : Grown s₀ s) (both : Apart s t p ∧ Locks t) {d' : Dir} {k : Nat}
    {next : Phase} (phase : s.phase p = .linking c inum) (extend : Extends (s.dir c.dp) d' k de)
    (below : k ≤ (s.dir c.dp).count) (named : de.inum = inum)
    (reached : t.phase p = next) (following : next.building = none)
    (changed : t.dir = update s.dir c.dp d') (nodes : t.node = s.node) : Grown s₀ t := by
  subst reached
  obtain ⟨apart, locks⟩ := both
  have building : (s.phase p).building = some inum := by rw [phase]; rfl
  have stage := grown.stage p
  rw [phase] at stage
  obtain ⟨type, typed, head⟩ := stage
  have isPublic := ((grown.locks p).parent c.dp (by rw [phase]; rfl)).2
  have differ := ne_of_building building isPublic
  have here : t.dir c.dp = d' := by rw [changed, update_self]
  have there : ∀ d ≠ c.dp, t.dir d = s.dir d := fun d other => by
    rw [changed, update_of_ne other]
  have free_of_ne : ∀ d ≠ inum, t.Free d ↔ s.Free d := fun d other =>
    apart.free_congr (fun built => other (Option.some.inj (built.symm.trans building)))
      (by rw [following]; exact nofun)
  refine ⟨fun d => ?_, locks, fun d used => ?_, fun d j kept => ?_, fun d j living => ?_,
    fun q i built d j living names => ?_, fun q => ?_, fun d unused after => ?_⟩
  · by_cases same : d = c.dp
    · subst same
      rw [here]
      exact extend.whole
    · rw [there d same]
      exact grown.whole d
  · have other : d ≠ inum := by
      rintro rfl
      exact used (grown.unused building)
    rw [nodes, free_of_ne d other]
    exact grown.type d used
  · obtain ⟨living, slot⟩ := grown.kept d j kept
    rw [← slot]
    exact extend.live_keep changed living
  · rw [nodes]
    rcases extend.live_cases below changed living with ⟨-, -, slot⟩ | ⟨old, slot⟩
    · rw [slot, named, type]
      exact typed
    · rw [slot]
      exact grown.live d j old
  · have other : q ≠ p := by
      rintro rfl
      rw [following] at built
      cases built
    rw [apart.phase q other] at built
    rcases extend.live_cases below changed living with ⟨-, -, slot⟩ | ⟨old, slot⟩
    · rw [slot, named] at names
      exact absurd names.symm (grown.locks.building_ne other (Phase.own_of_building building) built)
    · rw [slot] at names
      exact grown.hidden q i built d j old names
  · by_cases mine : q = p
    · subst mine
      exact stage_of_not_building following
    · rw [apart.phase q mine]
      refine (grown.stage q).congr fun i built => ⟨by rw [nodes], there i ?_⟩
      rintro rfl
      exact isPublic.2 q built
  · by_cases same : d = inum
    · subst same
      rw [there d differ.symm]
      have isDir := after.1
      rw [nodes] at isDir
      exact head (type.symm.trans isDir)
    · have before : s.Public d := ⟨by rw [← nodes]; exact after.1, (free_of_ne d same).mp after.2⟩
      have headed := grown.headed d unused before
      by_cases parent : d = c.dp
      · subst parent
        rw [here]
        exact headed.extend extend
      · rwa [there d parent]

end

section

variable [DecidableEq Pid] {setup : Setup Pid} {s₀ s t : State Pid} {p : Pid}

theorem Grown.move (grown : Grown s₀ s) (sound : Sound s₀) (move : Move setup s p t) : Grown s₀ t := by
  have both := grown.locks.move move
  have held := grown.locks p
  have stage := grown.stage p
  cases move with
  | start phase | find phase | full phase | refuse phase | closeFile phase =>
    refine grown.still both rfl (fun _ => rfl) ?_ ?_
    all_goals rw [goto_phase_self]
    · rw [phase]
      rfl
    · trivial
  | reopen phase | leave phase =>
    refine grown.still both rfl (fun _ => rfl) ?_ (stage_of_not_building ?_)
    all_goals
      change ((State.goto _ p _).phase p).building = _
      rw [goto_phase_self]
    · rw [phase]
      rfl
    · rfl
  | count phase | closeDir phase =>
    refine grown.still both rfl (setNode_type s rfl) ?_ ?_
    all_goals rw [goto_phase_self]
    · rw [phase]
      rfl
    · trivial
  | setDir phase isDir =>
    rw [phase] at stage
    refine grown.still both rfl (setNode_type s rfl) ?_ ?_
    all_goals rw [goto_phase_self]
    · rw [phase]
      rfl
    · exact ⟨(congrArg Node.type (setNode_self s _ _)).trans stage.1, isDir, stage.2.2⟩
  | setFile phase isFile =>
    rw [phase] at stage
    refine grown.still both rfl (setNode_type s rfl) ?_ ?_
    all_goals rw [goto_phase_self]
    · rw [phase]
      rfl
    · exact ⟨(congrArg Node.type (setNode_self s _ _)).trans stage.1, stage.2.1,
        fun isDir => absurd isDir isFile⟩
  | allocate phase nonzero below unused unlocked typed =>
    refine grown.setUp both (grown.sole_of_unused (by rw [phase]; rfl) unused unlocked) rfl rfl
      (fun d other => congrArg Node.type (update_of_ne other ..))
      (fun k living => absurd living.1 not_lt_zero) (.inl (by rw [goto_phase_self]; rfl)) ?_
      sound
    rw [goto_phase_self]
    exact ⟨congrArg Node.type (setNode_self s _ _), typed, congrArg Dir.count (setDir_self _ _ _)⟩
  | @dot c inum d room phase linked =>
    rw [phase] at stage held
    obtain ⟨type, isDir, empty⟩ := stage
    have fits := held.building _ rfl
    have extend := dot_extends (grown.whole _) empty linked
    have count : d.count = 1 := by rw [extend.count, empty]; rfl
    refine grown.setUp both (grown.sole (by rw [phase]; rfl)) rfl extend.whole (fun _ _ => rfl) (fun k living => ?_)
      (.inl (by rw [goto_phase_self]; rfl)) ?_ sound
    · obtain rfl : k = 0 := by have := living.1; omega
      rw [extend.new]
      refine ⟨Nat.mod_eq_of_lt fits.2, ?_⟩
      change (s.node inum).type ≠ 0
      rw [type, isDir]
      decide
    · rw [goto_phase_self]
      refine ⟨type, isDir, ?_⟩
      change ((s.setDir inum d).dir inum).count = 1 ∧ ((s.setDir inum d).dir inum).slot 0 = _
      rw [setDir_self]
      exact ⟨count, extend.new⟩
  | @dots c inum d room phase linked =>
    rw [phase] at stage held
    obtain ⟨type, isDir, one, first⟩ := stage
    have fits := held.building _ rfl
    have extend := dots_extends (grown.whole _) one first fits linked
    have count : d.count = 2 := by rw [extend.count, one]; rfl
    have first' : d.slot 0 = dotEntry inum := by rw [extend.old 0 (by decide), first]
    have numbered : inum % 2 ^ 16 = inum := Nat.mod_eq_of_lt fits.2
    refine grown.setUp both (grown.sole (by rw [phase]; rfl)) rfl extend.whole (fun _ _ => rfl) (fun k living => ?_)
      (.inl (by rw [goto_phase_self]; rfl)) ?_ sound
    · have either : k = 0 ∨ k = 1 := by have := living.1; omega
      refine ⟨?_, ?_⟩
      · rcases either with rfl | rfl
        · rw [first']
          exact numbered
        · rw [extend.new]
          exact numbered
      · change (s.node inum).type ≠ 0
        rw [type, isDir]
        decide
    · rw [goto_phase_self]
      refine ⟨type, by rw [isDir]; decide, fun _ => ?_⟩
      change Headed ((s.setDir inum d).dir inum) inum
      rw [setDir_self]
      exact ⟨fits, by omega, first', extend.new⟩
  | fail phase =>
    refine grown.setUp both (grown.sole (Phase.parent_of_fail phase).2) rfl rfl
      (fun d other => congrArg Node.type (setNode_other s _ other))
      (fun k living => absurd living.1 not_lt_zero) (.inr ⟨?_, rfl, ?_⟩) ?_ sound
    · rw [State.failed, goto_phase_self]
      rfl
    · exact congrArg Node.type (setNode_self s _ {})
    · rw [State.failed, goto_phase_self]
      trivial
  | linkDir phase linked | linkFile phase linked =>
    rw [phase] at held
    obtain ⟨k, de, place, extend⟩ := dirLinkWith_extends (grown.whole _) linked
    exact grown.link both phase extend place.le (Nat.mod_eq_of_lt (held.building _ rfl).2)
      (update_self ..) rfl rfl rfl

end

end OsCpp.Dirs
