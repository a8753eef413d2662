import OsCpp.Dirs.Machine

/-!
# What a call has locked

A call of `create` keeps the parent locked while it makes the new inode, and the new inode until it
returns, so that nobody else finds it.
-/

namespace OsCpp.Dirs

open Function (update update_of_ne update_self)

/-- The parent that a call has locked. -/
def Phase.parent : Phase → Option Nat
  | looking c | setting c _ | linkingDot c _ | linkingDots c _ | linking c _ | counting c _
  | leaving c _ => some c.dp
  | out | found .. | holding .. => none

/-- The other inode that a call has locked. -/
def Phase.own : Phase → Option Nat
  | setting _ i | linkingDot _ i | linkingDots _ i | linking _ i | counting _ i | leaving _ i
  | holding _ i => some i
  | out | looking _ | found .. => none

/-- The new inode, as long as no name stands for it. -/
def Phase.building : Phase → Option Nat
  | setting _ i | linkingDot _ i | linkingDots _ i | linking _ i => some i
  | _ => none

theorem Phase.own_of_building {phase : Phase} {i : Nat} (building : phase.building = some i) :
    phase.own = some i := by
  cases phase <;> simp_all [Phase.building, Phase.own]

theorem Phase.building_ne_of_own {phase : Phase} {i : Nat} (own : phase.own = none) :
    phase.building ≠ some i := fun building => by
  rw [Phase.own_of_building building] at own
  cases own

variable {Pid : Type}

/-- An inode that is not being set up. -/
def State.Free (s : State Pid) (d : Nat) : Prop := ∀ q, (s.phase q).building ≠ some d

/-- A directory that others can find. -/
def State.Public (s : State Pid) (d : Nat) : Prop := (s.node d).type = T_DIR ∧ s.Free d

/-- What a call has locked. -/
structure Held (s : State Pid) (p : Pid) (phase : Phase) : Prop where
  parent : ∀ d, phase.parent = some d → s.lock d = some p ∧ s.Public d
  own : ∀ i, phase.own = some i → s.lock i = some p ∧ phase.parent ≠ some i
  building : ∀ i, phase.building = some i → i ≠ 0 ∧ i < 2 ^ 16

def Locks (s : State Pid) : Prop := ∀ p, Held s p (s.phase p)

section

variable {s t : State Pid} {p : Pid}

/-- What a step of one process has to leave alone. -/
structure Apart (s t : State Pid) (p : Pid) : Prop where
  phase : ∀ q ≠ p, t.phase q = s.phase q
  lock : ∀ q ≠ p, ∀ d, s.lock d = some q → t.lock d = some q
  type : ∀ d, s.Public d → (t.node d).type = T_DIR
  building : ∀ d, s.Public d → (t.phase p).building ≠ some d

theorem Apart.isPublic (apart : Apart s t p) {d : Nat} (before : s.Public d) : t.Public d := by
  refine ⟨apart.type d before, fun q => ?_⟩
  by_cases mine : q = p
  · subst mine
    exact apart.building d before
  · rw [apart.phase q mine]
    exact before.2 q

/-- The others keep what they have locked. -/
theorem Locks.change (locks : Locks s) (apart : Apart s t p) (mine : Held t p (t.phase p)) :
    Locks t := by
  intro q
  by_cases same : q = p
  · subst same
    exact mine
  · have before := locks q
    rw [apart.phase q same]
    refine ⟨fun d parent => ?_, fun i own => ?_, before.building⟩
    · obtain ⟨locked, isPublic⟩ := before.parent d parent
      exact ⟨apart.lock q same d locked, apart.isPublic isPublic⟩
    · obtain ⟨locked, other⟩ := before.own i own
      exact ⟨apart.lock q same i locked, other⟩

theorem ne_of_building {d i : Nat} (building : (s.phase p).building = some i) (before : s.Public d) :
    d ≠ i := by
  rintro rfl
  exact before.2 p building

/-- What a call keeps while it changes an inode without unlocking anything. -/
theorem Held.keep {next : Phase} (held : Held s p (s.phase p)) (apart : Apart s t p)
    (locks : t.lock = s.lock) (parent : next.parent = (s.phase p).parent)
    (own : next.own = (s.phase p).own)
    (building : ∀ i, next.building = some i → (s.phase p).building = some i) : Held t p next := by
  refine ⟨fun d same => ?_, fun i same => ?_, fun i same => held.building i (building i same)⟩
  · obtain ⟨locked, isPublic⟩ := held.parent d (parent ▸ same)
    exact ⟨locks ▸ locked, apart.isPublic isPublic⟩
  · rw [locks, parent]
    exact held.own i (own ▸ same)

theorem Locks.keep {next : Phase} (locks : Locks s) (phase : ∀ q ≠ p, t.phase q = s.phase q)
    (here : t.phase p = next) (lock : t.lock = s.lock) (type : ∀ d, (t.node d).type = (s.node d).type)
    (parent : next.parent = (s.phase p).parent) (own : next.own = (s.phase p).own)
    (building : ∀ i, next.building = some i → (s.phase p).building = some i) :
    Apart s t p ∧ Locks t := by
  subst here
  have apart : Apart s t p :=
    { phase
      lock := fun q _ d locked => by rw [lock, locked]
      type := fun d before => (type d).trans before.1
      building := fun d before same => before.2 p (building d same) }
  exact ⟨apart, locks.change apart ((locks p).keep apart lock parent own building)⟩

theorem setLock_self (s : State Pid) (i : Nat) (holder : Option Pid) :
    (s.setLock i holder).lock i = holder := update_self ..

theorem setLock_other (s : State Pid) {i d : Nat} (holder : Option Pid) (other : d ≠ i) :
    (s.setLock i holder).lock d = s.lock d := update_of_ne other _ _

theorem setNode_self (s : State Pid) (i : Nat) (node : Node) : (s.setNode i node).node i = node :=
  update_self ..

theorem setNode_other (s : State Pid) {i d : Nat} (node : Node) (other : d ≠ i) :
    (s.setNode i node).node d = s.node d := update_of_ne other _ _

theorem setNode_type (s : State Pid) {i : Nat} {node : Node} (same : node.type = (s.node i).type)
    (d : Nat) : ((s.setNode i node).node d).type = (s.node d).type := by
  change (update s.node i node d).type = _
  by_cases here : d = i
  · subst here
    rw [update_self, same]
  · rw [update_of_ne here]

theorem setDir_self (s : State Pid) (i : Nat) (dir : Dir) : (s.setDir i dir).dir i = dir :=
  update_self ..

theorem idle_of_locked {i : Nat} (locked : s.lock i = some p) : ∀ q ≠ p, s.lock i ≠ some q := by
  intro q other held
  rw [locked] at held
  exact other (Option.some.inj held).symm

theorem idle_of_unlocked {i : Nat} (unlocked : s.lock i = none) : ∀ q ≠ p, s.lock i ≠ some q := by
  intro q _ held
  rw [unlocked] at held
  cases held

theorem lock_of_setLock {i : Nat} {holder : Option Pid}
    (idle : ∀ q ≠ p, s.lock i ≠ some q) : ∀ q ≠ p, ∀ d, s.lock d = some q →
      (s.setLock i holder).lock d = some q := by
  intro q other d locked
  have apart : d ≠ i := by
    rintro rfl
    exact idle q other locked
  rw [setLock_other s holder apart, locked]

/-- An inode that nobody has locked is not being set up. -/
theorem Locks.free (locks : Locks s) {d : Nat} (unlocked : s.lock d = none) : s.Free d := by
  intro q building
  have locked := ((locks q).own _ (Phase.own_of_building building)).1
  rw [unlocked] at locked
  cases locked

theorem Locks.release (locks : Locks s) {i : Nat} {next : Phase}
    (phase : ∀ q ≠ p, t.phase q = s.phase q) (here : t.phase p = next)
    (lock : t.lock = (s.setLock i none).lock) (type : ∀ d, (t.node d).type = (s.node d).type)
    (locked : s.lock i = some p) (noParent : next.parent = none) (noOwn : next.own = none) :
    Apart s t p ∧ Locks t := by
  subst here
  have apart : Apart s t p :=
    { phase
      lock := lock ▸ lock_of_setLock (idle_of_locked locked)
      type := fun d before => (type d).trans before.1
      building := fun d _ => Phase.building_ne_of_own noOwn }
  refine ⟨apart, locks.change apart ?_⟩
  exact ⟨fun d same => by simp [noParent] at same, fun i same => by simp [noOwn] at same,
    fun i same => absurd same (Phase.building_ne_of_own noOwn)⟩

end

section

variable [DecidableEq Pid] {s : State Pid} {p : Pid} {c : Call} {inum : Nat}

@[simp] theorem goto_phase_self (s : State Pid) (p : Pid) (phase : Phase) :
    (s.goto p phase).phase p = phase := update_self ..

theorem goto_phase_other (s : State Pid) (p : Pid) (phase : Phase) {q : Pid} (other : q ≠ p) :
    (s.goto p phase).phase q = s.phase q := update_of_ne other _ _

theorem Locks.start (locks : Locks s) (isDir : (s.node c.dp).type = T_DIR)
    (unlocked : s.lock c.dp = none) :
    Apart s ((s.setLock c.dp (some p)).goto p (.looking c)) p ∧
      Locks ((s.setLock c.dp (some p)).goto p (.looking c)) := by
  have apart : Apart s ((s.setLock c.dp (some p)).goto p (.looking c)) p :=
    { phase := fun q other => goto_phase_other _ p _ other
      lock := lock_of_setLock (idle_of_unlocked unlocked)
      type := fun d before => before.1
      building := fun d _ => by simp [Phase.building] }
  refine ⟨apart, locks.change apart ?_⟩
  rw [goto_phase_self]
  refine ⟨fun d parent => ?_, nofun, nofun⟩
  cases parent
  exact ⟨setLock_self s _ _, apart.isPublic ⟨isDir, locks.free unlocked⟩⟩

theorem Locks.allocate (locks : Locks s) (parent : (s.phase p).parent = some c.dp) (nonzero : inum ≠ 0)
    (fits : inum < 2 ^ 16) (unused : (s.node inum).type = 0) (unlocked : s.lock inum = none) :
    Apart s ((((s.setNode inum { type := c.type }).setDir inum {}).setLock inum (some p)).goto p
        (.setting c inum)) p ∧
      Locks ((((s.setNode inum { type := c.type }).setDir inum {}).setLock inum (some p)).goto p
        (.setting c inum)) := by
  have other_of_public : ∀ d, s.Public d → d ≠ inum := by
    rintro d before rfl
    exact absurd (unused.symm.trans before.1) (by decide)
  have apart : Apart s ((((s.setNode inum { type := c.type }).setDir inum {}).setLock inum
      (some p)).goto p (.setting c inum)) p :=
    { phase := fun q other => goto_phase_other _ p _ other
      lock := lock_of_setLock (s := s) (idle_of_unlocked unlocked)
      type := fun d before => by
        change ((s.setNode inum _).node d).type = _
        rw [setNode_other s _ (other_of_public d before), before.1]
      building := fun d before same => by
        rw [goto_phase_self] at same
        exact other_of_public d before (Option.some.inj same).symm }
  obtain ⟨locked, isPublic⟩ := (locks p).parent c.dp parent
  have differ := other_of_public c.dp isPublic
  refine ⟨apart, locks.change apart ?_⟩
  rw [goto_phase_self]
  refine ⟨fun d parent => ?_, fun i own => ?_, fun i building => ?_⟩
  · cases parent
    exact ⟨(setLock_other _ _ differ).trans locked, apart.isPublic isPublic⟩
  · cases own
    exact ⟨setLock_self _ _ _, fun same => differ (Option.some.inj same)⟩
  · cases building
    exact ⟨nonzero, fits⟩

theorem Locks.failed (locks : Locks s) (parent : (s.phase p).parent = some c.dp)
    (building : (s.phase p).building = some inum) :
    Apart s (s.failed p c inum) p ∧ Locks (s.failed p c inum) := by
  have lockedParent := ((locks p).parent _ parent).1
  have lockedOwn := ((locks p).own _ (Phase.own_of_building building)).1
  have apart : Apart s (s.failed p c inum) p :=
    { phase := fun q other => goto_phase_other _ p _ other
      lock := fun q other d locked => by
        have notParent : d ≠ c.dp := by
          rintro rfl
          exact other (Option.some.inj (locked.symm.trans lockedParent))
        have notOwn : d ≠ inum := by
          rintro rfl
          exact other (Option.some.inj (locked.symm.trans lockedOwn))
        change ((State.setLock _ c.dp none).lock d) = _
        rw [setLock_other _ _ notParent, setLock_other _ _ notOwn]
        exact locked
      type := fun d before => by
        change ((s.setNode inum {}).node d).type = _
        rw [setNode_other s _ (ne_of_building building before), before.1]
      building := fun d _ same => by
        rw [State.failed, goto_phase_self] at same
        cases same }
  refine ⟨apart, locks.change apart ?_⟩
  rw [State.failed, goto_phase_self]
  exact ⟨nofun, nofun, nofun⟩

theorem Locks.succeed (locks : Locks s) {i : Nat} {holder : Option Pid}
    (idle : ∀ q ≠ p, s.lock i ≠ some q) (locked : (s.setLock i holder).lock inum = some p) :
    Apart s ((s.setLock i holder).succeed p c inum) p ∧
      Locks ((s.setLock i holder).succeed p c inum) := by
  have apart : Apart s ((s.setLock i holder).succeed p c inum) p :=
    { phase := fun q other => goto_phase_other _ p _ other
      lock := lock_of_setLock idle
      type := fun d before => before.1
      building := fun d _ same => by
        change ((State.goto _ p _).phase p).building = _ at same
        rw [goto_phase_self] at same
        cases same }
  refine ⟨apart, locks.change apart ?_⟩
  change Held _ p ((State.goto _ p _).phase p)
  rw [goto_phase_self]
  refine ⟨nofun, fun i own => ?_, nofun⟩
  cases own
  exact ⟨locked, nofun⟩

variable {setup : Setup Pid} {t : State Pid}

theorem Phase.parent_of_fail {phase : Phase} (failing : phase = .linkingDot c inum ∨
    phase = .linkingDots c inum ∨ phase = .linking c inum) :
    phase.parent = some c.dp ∧ phase.building = some inum := by
  rcases failing with rfl | rfl | rfl <;> exact ⟨rfl, rfl⟩

/-- Every step keeps to its own locks. -/
theorem Locks.move (locks : Locks s) (move : Move setup s p t) : Apart s t p ∧ Locks t := by
  have others : ∀ {u : State Pid} {next : Phase}, ∀ q ≠ p, update u.phase p next q = u.phase q :=
    fun q other => update_of_ne other _ _
  cases move with
  | start _ isDir unlocked => exact locks.start isDir unlocked
  | find phase | full phase =>
    have locked := ((locks p).parent _ (by rw [phase]; rfl)).1
    exact locks.release others (update_self ..) rfl (fun _ => rfl) locked rfl rfl
  | allocate phase nonzero below unused unlocked =>
    have fits := setup.numbered
    exact locks.allocate (by rw [phase]; rfl) nonzero (by omega) unused unlocked
  | reopen _ unlocked => exact locks.succeed (idle_of_unlocked unlocked) (setLock_self s _ _)
  | refuse phase =>
    refine locks.keep others (update_self ..) rfl (fun _ => rfl) ?_ ?_ nofun
    all_goals rw [phase]; rfl
  | setDir phase | setFile phase =>
    refine locks.keep others (update_self ..) rfl (setNode_type s rfl) ?_ ?_ ?_
    all_goals rw [phase]
    any_goals rfl
    exact fun i same => same
  | dot phase | dots phase =>
    refine locks.keep others (update_self ..) rfl (fun _ => rfl) ?_ ?_ ?_
    all_goals rw [phase]
    any_goals rfl
    exact fun i same => same
  | fail phase =>
    obtain ⟨parent, building⟩ := Phase.parent_of_fail phase
    exact locks.failed parent building
  | linkDir phase | linkFile phase =>
    refine locks.keep others (update_self ..) rfl (fun _ => rfl) ?_ ?_ nofun
    all_goals rw [phase]; rfl
  | count phase =>
    refine locks.keep others (update_self ..) rfl (setNode_type s rfl) ?_ ?_ nofun
    all_goals rw [phase]; rfl
  | leave phase =>
    have held := locks p
    rw [phase] at held
    obtain ⟨locked, differ⟩ := held.own _ rfl
    refine locks.succeed (idle_of_locked (held.parent _ rfl).1) ?_
    rw [setLock_other s none fun same => differ (congrArg some same.symm), locked]
  | closeDir phase =>
    have locked := ((locks p).own _ (by rw [phase]; rfl)).1
    exact locks.release others (update_self ..) rfl (setNode_type s rfl) locked rfl rfl
  | closeFile phase =>
    have locked := ((locks p).own _ (by rw [phase]; rfl)).1
    exact locks.release others (update_self ..) rfl (fun _ => rfl) locked rfl rfl

end

end OsCpp.Dirs
