import OsCpp.ITable.Machine

/-!
# What holds of the inode table

A dinode without a type belongs to nobody, except to an `iput` that is about to leave its reclaim
branch: that call has the only reference, and until `ialloc` has called `iget` nobody else can get one.
-/

namespace OsCpp.ITable

open Function (update update_eq_self update_of_ne update_self)

/-- The end of the reclaim branch, after the type has been cleared. -/
def Phase.Tail (phase : Phase) (i : Fin NINODE) : Prop :=
  phase = .invalidating i ∨ phase = .unlocking i ∨ phase = .dropping i

variable {Pid : Type}

/-- A process has the only reference. -/
structure Sole (s : State Pid) (p : Pid) (i : Fin NINODE) : Prop where
  ref : (s.table i).ref = 1
  refs : (s.table i).refs p = 1

/-- Nobody has an inode, except for an `iput` that has cleared its type. -/
def OnlyTail (s : State Pid) (key : Key) : Prop :=
  ∀ i, 0 < (s.table i).ref → (s.table i).key = key → ∃ p, Sole s p i ∧ (s.phase p).Tail i ∧
    ((s.table i).valid = true → s.phase p = .invalidating i ∧ (s.table i).nlink = 0)

/-- `iput` reclaims an inode. -/
structure Reclaims (s : State Pid) (p : Pid) (i : Fin NINODE) : Prop where
  sole : Sole s p i
  lock : (s.table i).lock = some p
  valid : (s.table i).valid = true
  nlink : (s.table i).nlink = 0
  type : (s.table i).type ≠ 0
  disk : (s.disk (s.table i).key).type ≠ 0

/-- What a process knows where it is. -/
def Busy (s : State Pid) (p : Pid) : Phase → Prop
  | .out => True
  | .scanning _ type _ => type ≠ 0
  | .fetching key was =>
    was = 0 ∧ (s.disk key).type ≠ 0 ∧ (s.disk key).nlink = 0 ∧ OnlyTail s key
  | .loading i => (s.table i).lock = some p
  | .stuck _ => False
  | .truncating i | .clearing i => Reclaims s p i
  | .invalidating i => (s.table i).lock = some p ∧ (s.table i).nlink = 0
  | .unlocking i => (s.table i).lock = some p ∧ (s.table i).valid = false
  | .dropping i => 1 ≤ (s.table i).refs p ∧ (s.table i).lock ≠ some p

structure Inv [Fintype Pid] (s : State Pid) : Prop where
  unique : ∀ i j, 0 < (s.table i).ref → 0 < (s.table j).ref → (s.table i).key = (s.table j).key → i = j
  count : ∀ i, (s.table i).ref = ∑ p, (s.table i).refs p
  locked : ∀ i p, (s.table i).lock = some p → 1 ≤ (s.table i).refs p
  busy : ∀ p, Busy s p (s.phase p)
  typed : ∀ i, 0 < (s.table i).ref → (s.table i).valid = true →
    (s.table i).type ≠ 0 ∨ ∃ p, s.phase p = .invalidating i
  disk : ∀ key, (s.disk key).type = 0 → (s.disk key).nlink = 0 ∧ OnlyTail s key
  alone : ∀ p q key was was', s.phase p = .fetching key was → s.phase q = .fetching key was' → p = q

section

variable {s t : State Pid} {p q : Pid} {i : Fin NINODE} {key : Key}

theorem not_linked (free : (s.disk key).nlink = 0) (only : OnlyTail s key) : ¬s.Linked key := by
  rintro ⟨cached, stored⟩
  refine stored (fun i used same => ?_) free
  by_contra valid
  have valid : (s.table i).valid = true := by simpa using valid
  obtain ⟨p, -, -, rest⟩ := only i used same
  exact cached i used same valid (rest valid).2

/-- Entries that stay, with the processes at their end, keep a dinode free. -/
theorem OnlyTail.frame (only : OnlyTail s key)
    (same : ∀ i, 0 < (t.table i).ref → (t.table i).key = key → t.table i = s.table i ∧
      ∀ q, (s.phase q).Tail i → t.phase q = s.phase q) : OnlyTail t key := by
  intro i used named
  obtain ⟨entry, phases⟩ := same i used named
  rw [entry] at used named ⊢
  obtain ⟨q, sole, tail, rest⟩ := only i used named
  have phase := phases q tail
  exact ⟨q, ⟨by rw [entry, sole.ref], by rw [entry, sole.refs]⟩, by rwa [phase], by rwa [phase]⟩

variable [Fintype Pid]

theorem Inv.ref_pos (inv : Inv s) (mine : 1 ≤ (s.table i).refs p) : 0 < (s.table i).ref := by
  rw [inv.count]
  exact lt_of_lt_of_le mine (Finset.single_le_sum (fun _ _ => zero_le) (Finset.mem_univ p))

theorem two_le_sum {f : Pid → Nat} (other : p ≠ q) (first : 1 ≤ f p) (second : 1 ≤ f q) :
    2 ≤ ∑ r, f r := by
  classical
  calc 2 ≤ f p + f q := by omega
    _ = ∑ r ∈ {p, q}, f r := (Finset.sum_pair other).symm
    _ ≤ ∑ r, f r := Finset.sum_le_sum_of_subset (Finset.subset_univ _)

section

variable (inv : Inv s)
include inv

theorem Inv.sole_eq (sole : Sole s p i) (has : 1 ≤ (s.table i).refs q) : q = p := by
  by_contra other
  have two := two_le_sum other has sole.refs.ge
  rw [← inv.count, sole.ref] at two
  omega

section

variable (mine : 1 ≤ (s.table i).refs p)
include mine

/-- Who else has a reference keeps the dinode from being free. -/
theorem Inv.not_onlyTail (aside : ¬(s.phase p).Tail i) : ¬OnlyTail s (s.table i).key := by
  intro only
  obtain ⟨q, sole, tail, -⟩ := only i (inv.ref_pos mine) rfl
  obtain rfl := inv.sole_eq sole mine
  exact aside tail

theorem Inv.disk_typed (aside : ¬(s.phase p).Tail i) :
    (s.disk (s.table i).key).type ≠ 0 := fun free =>
  inv.not_onlyTail mine aside (inv.disk _ free).2

theorem Inv.not_fetched (aside : ¬(s.phase p).Tail i)
    (was : UInt16) : s.phase q ≠ .fetching (s.table i).key was := by
  intro fetching
  have busy := inv.busy q
  rw [fetching] at busy
  exact inv.not_onlyTail mine aside busy.2.2.2

theorem Inv.not_reclaimed (other : q ≠ p) :
    s.phase q ≠ .truncating i ∧ s.phase q ≠ .clearing i := by
  constructor
  all_goals
    intro phase
    have busy := inv.busy q
    rw [phase] at busy
    exact other (inv.sole_eq busy.sole mine).symm

theorem Inv.sole_of_last (last : (s.table i).ref = 1) : Sole s p i := by
  have count := inv.count i
  have le : (s.table i).refs p ≤ ∑ q, (s.table i).refs q :=
    Finset.single_le_sum (fun _ _ => zero_le) (Finset.mem_univ p)
  exact ⟨last, by omega⟩

end

/-- Nobody has locked an inode whose last reference is put. -/
theorem Inv.unlocked_of_last (spare : (s.table i).Spare p) (last : (s.table i).ref = 1) :
    (s.table i).lock = none := by
  have sole := inv.sole_of_last spare.1 last
  cases held : (s.table i).lock with
  | none => rfl
  | some q =>
    obtain rfl := inv.sole_eq sole (inv.locked i q held)
    have two := spare.2 held
    have one := sole.refs
    omega

end

end

section

variable {s t : State Pid} {p : Pid} {i : Fin NINODE} {node : Inode Pid}

/-- What a step of one process may do to one entry and its dinode. -/
structure Modifies (s t : State Pid) (p : Pid) (i : Fin NINODE) (node : Inode Pid) : Prop where
  table : t.table = update s.table i node
  phase : ∀ q ≠ p, t.phase q = s.phase q
  disk : ∀ key ≠ node.key, t.disk key = s.disk key
  unique : ∀ j ≠ i, 0 < (s.table j).ref → (s.table j).key ≠ node.key
  locked : ∀ q, node.lock = some q → 1 ≤ node.refs q
  /-- Other processes keep references and locks, and what they have locked does not change. -/
  refs : ∀ q ≠ p, (s.table i).refs q ≤ node.refs q
  lock : ∀ q ≠ p, ((s.table i).lock = some q ↔ node.lock = some q)
  frozen : ∀ q ≠ p, (s.table i).lock = some q →
    node.valid = (s.table i).valid ∧ node.nlink = (s.table i).nlink
  reclaimed : ∀ q ≠ p, s.phase q ≠ .truncating i ∧ s.phase q ≠ .clearing i
  light : ∀ j ≠ i, ¬(s.phase p).Tail j

variable (change : Modifies s t p i node)

include change

theorem Modifies.here : t.table i = node := by
  rw [change.table, update_self]

theorem Modifies.there {j : Fin NINODE} (other : j ≠ i) : t.table j = s.table j := by
  rw [change.table, update_of_ne other]

theorem Modifies.onlyTail {key : Key} (other : key ≠ node.key)
    (only : OnlyTail s key) : OnlyTail t key := by
  refine only.frame fun j _ named => ?_
  have apart : j ≠ i := by
    rintro rfl
    rw [change.here] at named
    exact other named.symm
  refine ⟨change.there apart, fun q tail => change.phase q ?_⟩
  rintro rfl
  exact change.light j apart tail

/-- What the others know stays true. -/
theorem Modifies.busy {q : Pid} (other : q ≠ p)
    (fetched : ∀ was, s.phase q = .fetching node.key was →
      t.disk node.key = s.disk node.key ∧ OnlyTail t node.key)
    (busy : Busy s q (s.phase q)) : Busy t q (t.phase q) := by
  rw [change.phase q other]
  cases phase : s.phase q with
  | out => trivial
  | scanning dev type inum =>
    rw [phase] at busy
    exact busy
  | fetching key was =>
    rw [phase] at busy
    obtain ⟨zero, typed, unlinked, only⟩ := busy
    by_cases same : key = node.key
    · subst same
      obtain ⟨disk, only⟩ := fetched was phase
      exact ⟨zero, by rwa [disk], by rwa [disk], only⟩
    · have disk := change.disk key same
      exact ⟨zero, by rwa [disk], by rwa [disk], change.onlyTail same only⟩
  | stuck j =>
    rw [phase] at busy
    exact busy
  | loading j =>
    rw [phase] at busy
    change (t.table j).lock = some q
    by_cases same : j = i
    · subst same
      rw [change.here]
      exact (change.lock q other).mp busy
    · rw [change.there same]
      exact busy
  | truncating j | clearing j =>
    rw [phase] at busy
    have apart : j ≠ i := by
      rintro rfl
      have idle := change.reclaimed q other
      tauto
    have entry := change.there apart
    have key : (s.table j).key ≠ node.key :=
      change.unique j apart (by rw [busy.sole.ref]; exact one_pos)
    refine ⟨⟨?_, ?_⟩, ?_, ?_, ?_, ?_, ?_⟩
    all_goals rw [entry]
    · exact busy.sole.ref
    · exact busy.sole.refs
    · exact busy.lock
    · exact busy.valid
    · exact busy.nlink
    · exact busy.type
    · rw [change.disk _ key]
      exact busy.disk
  | invalidating j =>
    rw [phase] at busy
    change (t.table j).lock = some q ∧ (t.table j).nlink = 0
    by_cases same : j = i
    · subst same
      rw [change.here, (change.frozen q other busy.1).2]
      exact ⟨(change.lock q other).mp busy.1, busy.2⟩
    · rw [change.there same]
      exact busy
  | unlocking j =>
    rw [phase] at busy
    change (t.table j).lock = some q ∧ (t.table j).valid = false
    by_cases same : j = i
    · subst same
      rw [change.here, (change.frozen q other busy.1).1]
      exact ⟨(change.lock q other).mp busy.1, busy.2⟩
    · rw [change.there same]
      exact busy
  | dropping j =>
    rw [phase] at busy
    change 1 ≤ (t.table j).refs q ∧ (t.table j).lock ≠ some q
    by_cases same : j = i
    · subst same
      rw [change.here]
      exact ⟨busy.1.trans (change.refs q other), fun mine => busy.2 ((change.lock q other).mpr mine)⟩
    · rw [change.there same]
      exact busy

variable [Fintype Pid]

theorem Inv.modify (inv : Inv s) (count : node.ref = ∑ q, node.refs q)
    (typed : 0 < node.ref → node.valid = true → node.type ≠ 0 ∨ ∃ q, t.phase q = .invalidating i)
    (mine : Busy t p (t.phase p)) (alone : ∀ key was, t.phase p ≠ .fetching key was)
    (zero : (t.disk node.key).type = 0 → (t.disk node.key).nlink = 0 ∧ OnlyTail t node.key)
    (fetched : ∀ q ≠ p, ∀ was, s.phase q = .fetching node.key was →
      t.disk node.key = s.disk node.key ∧ OnlyTail t node.key) : Inv t := by
  refine ⟨fun j k used used' same => ?_, fun j => ?_, fun j q => ?_, fun q => ?_,
    fun j used valid => ?_, fun key free => ?_, fun q r key was was' first second => ?_⟩
  · by_cases here : j = i <;> by_cases there : k = i
    · rw [here, there]
    · subst here
      rw [change.there there] at used' same
      rw [change.here] at same
      exact absurd same.symm (change.unique k there used')
    · subst there
      rw [change.there here] at used same
      rw [change.here] at same
      exact absurd same (change.unique j here used)
    · rw [change.there here] at used same
      rw [change.there there] at used' same
      exact inv.unique j k used used' same
  · by_cases here : j = i
    · rw [here, change.here, count]
    · rw [change.there here]
      exact inv.count j
  · by_cases here : j = i
    · rw [here, change.here]
      exact change.locked q
    · rw [change.there here]
      exact inv.locked j q
  · by_cases same : q = p
    · rw [same]
      exact mine
    · exact change.busy same (fetched q same) (inv.busy q)
  · by_cases here : j = i
    · subst here
      rw [change.here] at used valid ⊢
      exact typed used valid
    · rw [change.there here] at used valid ⊢
      rcases inv.typed j used valid with known | ⟨q, phase⟩
      · exact .inl known
      · have other : q ≠ p := by
          rintro rfl
          exact change.light j here (.inl phase)
        exact .inr ⟨q, by rw [change.phase q other, phase]⟩
  · by_cases same : key = node.key
    · subst same
      exact zero free
    · rw [change.disk key same] at free ⊢
      obtain ⟨unlinked, only⟩ := inv.disk key free
      exact ⟨unlinked, change.onlyTail same only⟩
  · have first_ne : q ≠ p := by
      rintro rfl
      exact alone key was first
    have second_ne : r ≠ p := by
      rintro rfl
      exact alone key was' second
    rw [change.phase q first_ne] at first
    rw [change.phase r second_ne] at second
    exact inv.alone q r key was was' first second

end

/-! ## Processes that have a reference -/

section

variable [Fintype Pid] {s t : State Pid} {p : Pid} {i : Fin NINODE} {node : Inode Pid} {next : Phase}

/-- A process that has a reference, and is not at the end of `iput`, changes the entry. -/
structure Uses (s t : State Pid) (p : Pid) (i : Fin NINODE) (node : Inode Pid) (next : Phase) : Prop where
  mine : 1 ≤ (s.table i).refs p
  light : ∀ j, ¬(s.phase p).Tail j
  table : t.table = update s.table i node
  phase : ∀ q ≠ p, t.phase q = s.phase q
  reached : t.phase p = next
  key : node.key = (s.table i).key
  locked : ∀ q, node.lock = some q → 1 ≤ node.refs q
  refs : ∀ q ≠ p, (s.table i).refs q ≤ node.refs q
  lock : ∀ q ≠ p, ((s.table i).lock = some q ↔ node.lock = some q)
  frozen : ∀ q ≠ p, (s.table i).lock = some q →
    node.valid = (s.table i).valid ∧ node.nlink = (s.table i).nlink
  typed : node.valid = true →
    node.type ≠ 0 ∨ (s.table i).valid = true ∧ node.type = (s.table i).type
  alone : ∀ key was, next ≠ .fetching key was

theorem Inv.uses (inv : Inv s) (use : Uses s t p i node next) (count : node.ref = ∑ q, node.refs q)
    (disk : ∀ key ≠ node.key, t.disk key = s.disk key) (stored : (t.disk node.key).type ≠ 0)
    (busy : Busy t p next) : Inv t := by
  have used := inv.ref_pos use.mine
  have change : Modifies s t p i node :=
    { use with
      disk
      unique := fun j other used' same =>
        other (inv.unique j i used' used (same.trans use.key))
      reclaimed := fun q other => inv.not_reclaimed use.mine other
      light := fun j _ => use.light j }
  refine inv.modify change count (fun _ valid => ?_) (use.reached ▸ busy) (use.reached ▸ use.alone)
    (fun free => absurd free stored) fun q other was fetching => ?_
  · rcases use.typed valid with known | ⟨before, same⟩
    · exact .inl known
    · rcases inv.typed i used before with known | ⟨q, phase⟩
      · exact .inl (same ▸ known)
      · have other : q ≠ p := by
          rintro rfl
          exact use.light i (.inl phase)
        exact .inr ⟨q, by rw [use.phase q other, phase]⟩
  · rw [use.key] at fetching
    exact absurd fetching (inv.not_fetched use.mine (use.light i) was)

theorem Inv.type_of_locked (inv : Inv s) (locked : (s.table i).lock = some p)
    (valid : (s.table i).valid = true) (light : ∀ j, ¬(s.phase p).Tail j) : (s.table i).type ≠ 0 := by
  rcases inv.typed i (inv.ref_pos (inv.locked i p locked)) valid with known | ⟨q, phase⟩
  · exact known
  · have busy := inv.busy q
    rw [phase] at busy
    cases locked.symm.trans busy.1
    exact absurd (.inl phase) (light i)

end

section

variable [Fintype Pid] {s : State Pid} {p : Pid} {i : Fin NINODE}

/-! ## The reclaim branch -/

/-- A process at the end of `iput` goes on. -/
theorem Modifies.tail {t : State Pid} {node : Inode Pid} (change : Modifies s t p i node) (inv : Inv s)
    (mine : 1 ≤ (s.table i).refs p) (key : node.key = (s.table i).key)
    (goes : (s.table i).ref = 1 → 0 < node.ref →
      node.ref = 1 ∧ node.refs p = 1 ∧ (t.phase p).Tail i ∧ node.valid = false)
    (only : OnlyTail s node.key) : OnlyTail t node.key := by
  intro j used named
  by_cases here : j = i
  · subst here
    obtain ⟨q, sole, -⟩ := only j (inv.ref_pos mine) key.symm
    rw [change.here] at used ⊢
    obtain ⟨ref, refs, tail, invalid⟩ := goes sole.ref used
    exact ⟨p, ⟨by rw [change.here, ref], by rw [change.here, refs]⟩, tail,
      fun valid => absurd valid (by rw [invalid]; decide)⟩
  · rw [change.there here] at used named ⊢
    obtain ⟨q, sole, tail, rest⟩ := only j used named
    have other : q ≠ p := by
      rintro rfl
      exact change.light j here tail
    have phase := change.phase q other
    have entry := change.there here
    exact ⟨q, ⟨by rw [entry, sole.ref], by rw [entry, sole.refs]⟩, by rwa [phase], by rwa [phase]⟩

theorem not_tail_ne {phase : Phase} {j : Fin NINODE}
    (one : phase = .invalidating i ∨ phase = .unlocking i ∨ phase = .dropping i) (other : j ≠ i) :
    ¬phase.Tail j := by
  rintro (h | h | h) <;> rcases one with rfl | rfl | rfl <;> cases h <;> exact other rfl

theorem Inv.clear (inv : Inv s) {t : State Pid} (phase : s.phase p = .clearing i)
    (table : t.table = update s.table i { s.table i with type := 0 })
    (phases : ∀ q ≠ p, t.phase q = s.phase q) (reached : t.phase p = .invalidating i)
    (disk : t.disk = update s.disk (s.table i).key { type := 0, nlink := (s.table i).nlink }) :
    Inv t := by
  have reclaims : Reclaims s p i := by
    have busy := inv.busy p
    rw [phase] at busy
    exact busy
  have mine := reclaims.sole.refs.ge
  have light : ∀ j, ¬(s.phase p).Tail j := by simp [phase, Phase.Tail]
  have none_else : ∀ q ≠ p, (s.table i).lock ≠ some q := fun q other held => by
    rw [reclaims.lock] at held
    exact other (Option.some.inj held).symm
  have change : Modifies s t p i { s.table i with type := 0 } :=
    { table
      phase := phases
      disk := fun key other => by rw [disk, update_of_ne other]
      unique := fun j other used same => other (inv.unique j i used (inv.ref_pos mine) same)
      locked := inv.locked i
      refs := fun _ _ => le_rfl
      lock := fun _ _ => .rfl
      frozen := fun q other held => absurd held (none_else q other)
      reclaimed := fun q other => inv.not_reclaimed mine other
      light := fun j _ => light j }
  have stored : t.disk (s.table i).key = { type := 0, nlink := (s.table i).nlink } := by
    rw [disk, update_self]
  refine inv.modify change (inv.count i) (fun _ _ => .inr ⟨p, reached⟩) ?_ (by rw [reached]; exact nofun)
    (fun _ => ⟨?_, fun j used named => ?_⟩) fun q other was fetching => ?_
  · rw [reached]
    change (t.table i).lock = some p ∧ (t.table i).nlink = 0
    rw [change.here]
    exact ⟨reclaims.lock, reclaims.nlink⟩
  · change (t.disk (s.table i).key).nlink = 0
    rw [stored]
    exact reclaims.nlink
  · have same : j = i := by
      by_contra other
      rw [change.there other] at used named
      exact change.unique j other used named
    subst same
    refine ⟨p, ⟨?_, ?_⟩, .inl reached, fun _ => ⟨reached, ?_⟩⟩
    all_goals rw [change.here]
    · exact reclaims.sole.ref
    · exact reclaims.sole.refs
    · exact reclaims.nlink
  · exact absurd fetching (inv.not_fetched mine (light i) was)

theorem Inv.leave (inv : Inv s) {t : State Pid} {node : Inode Pid} {next : Phase}
    (tail : s.phase p = .invalidating i ∨ s.phase p = .unlocking i ∨ s.phase p = .dropping i)
    (mine : 1 ≤ (s.table i).refs p) (table : t.table = update s.table i node)
    (phases : ∀ q ≠ p, t.phase q = s.phase q) (reached : t.phase p = next) (disk : t.disk = s.disk)
    (key : node.key = (s.table i).key) (locked : ∀ q, node.lock = some q → 1 ≤ node.refs q)
    (refs : ∀ q ≠ p, (s.table i).refs q ≤ node.refs q)
    (lock : ∀ q ≠ p, ((s.table i).lock = some q ↔ node.lock = some q))
    (frozen : ∀ q ≠ p, (s.table i).lock = some q →
      node.valid = (s.table i).valid ∧ node.nlink = (s.table i).nlink)
    (count : node.ref = ∑ q, node.refs q)
    (typed : 0 < node.ref → node.valid = true → node.type ≠ 0 ∨ ∃ q, t.phase q = .invalidating i)
    (alone : ∀ key was, next ≠ .fetching key was) (busy : Busy t p next)
    (goes : (s.table i).ref = 1 → 0 < node.ref →
      node.ref = 1 ∧ node.refs p = 1 ∧ next.Tail i ∧ node.valid = false) : Inv t := by
  have change : Modifies s t p i node :=
    { table
      phase := phases
      disk := fun _ _ => by rw [disk]
      unique := fun j other used same =>
        other (inv.unique j i used (inv.ref_pos mine) (same.trans key))
      locked, refs, lock, frozen
      reclaimed := fun q other => inv.not_reclaimed mine other
      light := fun j other => not_tail_ne tail other }
  subst reached
  have only := change.tail inv mine key goes
  refine inv.modify change count typed busy alone (fun free => ?_) fun q other was fetching => ?_
  · rw [disk] at free ⊢
    obtain ⟨unlinked, before⟩ := inv.disk _ free
    exact ⟨unlinked, only before⟩
  · have busy := inv.busy q
    rw [fetching] at busy
    exact ⟨by rw [disk], only busy.2.2.2⟩

end

section

variable [Fintype Pid] [DecidableEq Pid]

theorem sum_update (f : Pid → Nat) (p : Pid) (n : Nat) :
    ∑ q, update f p n q + f p = ∑ q, f q + n := by
  have whole := Finset.sum_update_of_mem (Finset.mem_univ p) f (f p)
  rw [update_eq_self] at whole
  rw [Finset.sum_update_of_mem (Finset.mem_univ p), whole]
  omega

theorem Inode.count_take {node : Inode Pid} (count : node.ref = ∑ q, node.refs q) (p : Pid) :
    (node.take p).ref = ∑ q, (node.take p).refs q := by
  have sum := sum_update node.refs p (node.refs p + 1)
  change node.ref + 1 = ∑ q, update node.refs p (node.refs p + 1) q
  omega

theorem Inode.count_drop {node : Inode Pid} (count : node.ref = ∑ q, node.refs q) {p : Pid}
    (has : 1 ≤ node.refs p) : (node.drop p).ref = ∑ q, (node.drop p).refs q := by
  have sum := sum_update node.refs p (node.refs p - 1)
  change node.ref - 1 = ∑ q, update node.refs p (node.refs p - 1) q
  omega

end

theorem not_tail_out (i : Fin NINODE) : ¬Phase.out.Tail i := by
  rintro (h | h | h) <;> cases h

section

variable {s : State Pid} {p : Pid} {i : Fin NINODE}

theorem set_self (s : State Pid) (i : Fin NINODE) (node : Inode Pid) : (s.set i node).table i = node :=
  update_self ..

theorem not_tail_of_out (outside : s.phase p = .out) (i : Fin NINODE) : ¬(s.phase p).Tail i := by
  rw [outside]
  exact not_tail_out i

variable [DecidableEq Pid]

theorem update_le (f : Pid → Nat) {p q : Pid} (n : Nat) (other : q ≠ p) :
    f q ≤ update f p n q := by rw [update_of_ne other]

theorem goto_other (s : State Pid) (p : Pid) (next : Phase) : ∀ q ≠ p, (s.goto p next).phase q = s.phase q :=
  fun _ other => update_of_ne other _ _

theorem goto_self (s : State Pid) (p : Pid) (next : Phase) : (s.goto p next).phase p = next :=
  update_self ..

variable [Fintype Pid]

variable (inv : Inv s)

include inv

/-- The holder of the lock keeps its references when one more is taken. -/
theorem Inv.locked_take (p : Pid) (i : Fin NINODE) (q : Pid)
    (lock : ((s.table i).take p).lock = some q) : 1 ≤ ((s.table i).take p).refs q := by
  have before := inv.locked i q lock
  change 1 ≤ update (s.table i).refs p ((s.table i).refs p + 1) q
  by_cases same : q = p
  · rw [same, update_self]
    omega
  · rwa [update_of_ne same]

theorem Inv.idup (outside : s.phase p = .out) (mine : 1 ≤ (s.table i).refs p) :
    Inv (s.set i ((s.table i).take p)) := by
  have light := not_tail_of_out outside
  have use : Uses s (s.set i ((s.table i).take p)) p i ((s.table i).take p) .out :=
    { mine, light
      table := rfl
      phase := fun _ _ => rfl
      reached := outside
      key := rfl
      locked := inv.locked_take p i
      refs := fun q other => update_le _ _ other
      lock := fun _ _ => .rfl
      frozen := fun _ _ _ => ⟨rfl, rfl⟩
      typed := fun valid => .inr ⟨valid, rfl⟩
      alone := nofun }
  exact inv.uses use (Inode.count_take (inv.count i) p) (fun _ _ => rfl)
    (inv.disk_typed mine (light i)) trivial

theorem Inv.ilock (outside : s.phase p = .out) (mine : 1 ≤ (s.table i).refs p)
    (unlocked : (s.table i).lock = none) :
    Inv ((s.set i { s.table i with lock := some p }).goto p
      (if (s.table i).valid then .out else .loading i)) := by
  have light := not_tail_of_out outside
  have use : Uses s ((s.set i { s.table i with lock := some p }).goto p
      (if (s.table i).valid then .out else .loading i)) p i { s.table i with lock := some p }
      (if (s.table i).valid then .out else .loading i) :=
    { mine, light
      table := rfl
      phase := goto_other _ p _
      reached := goto_self _ p _
      key := rfl
      locked := fun q lock => by
        cases lock
        exact mine
      refs := fun _ _ => le_rfl
      lock := fun q other => by
        rw [unlocked]
        exact ⟨nofun, fun same => absurd (Option.some.inj same).symm other⟩
      frozen := fun _ _ _ => ⟨rfl, rfl⟩
      typed := fun valid => .inr ⟨valid, rfl⟩
      alone := fun key was => by split <;> exact nofun }
  refine inv.uses use (inv.count i) (fun _ _ => rfl) (inv.disk_typed mine (light i)) ?_
  split
  · trivial
  · exact congrArg Inode.lock (set_self s i _)

theorem Inv.holder {t : State Pid} {node : Inode Pid} {next : Phase}
    (locked : (s.table i).lock = some p) (light : ∀ j, ¬(s.phase p).Tail j)
    (table : t.table = update s.table i node) (phase : ∀ q ≠ p, t.phase q = s.phase q)
    (reached : t.phase p = next) (key : node.key = (s.table i).key)
    (ref : node.ref = (s.table i).ref) (refs : node.refs = (s.table i).refs)
    (lock : node.lock = none ∨ node.lock = some p)
    (typed : node.valid = true →
      node.type ≠ 0 ∨ (s.table i).valid = true ∧ node.type = (s.table i).type)
    (alone : ∀ key was, next ≠ .fetching key was)
    (disk : ∀ key ≠ node.key, t.disk key = s.disk key) (stored : (t.disk node.key).type ≠ 0)
    (busy : Busy t p next) : Inv t := by
  have mine := inv.locked i p locked
  have none_else : ∀ q ≠ p, node.lock ≠ some q := fun q other same => by
    rcases lock with free | held
    · rw [free] at same
      cases same
    · rw [held] at same
      exact other (Option.some.inj same).symm
  have none_before : ∀ q ≠ p, (s.table i).lock ≠ some q := fun q other same => by
    rw [locked] at same
    exact other (Option.some.inj same).symm
  have use : Uses s t p i node next :=
    { mine, light, table, phase, reached, key, typed, alone
      locked := fun q held => by
        by_cases same : q = p
        · rw [same, refs]
          exact mine
        · exact absurd held (none_else q same)
      refs := fun q _ => by rw [refs]
      lock := fun q other => iff_of_false (none_before q other) (none_else q other)
      frozen := fun q other held => absurd held (none_before q other) }
  exact inv.uses use (by rw [ref, refs, inv.count i]) disk stored busy

theorem Inv.load (phase : s.phase p = .loading i) (typed : (s.disk (s.table i).key).type ≠ 0) :
    Inv ((s.set i { s.table i with
      valid := true, type := (s.disk (s.table i).key).type, nlink := (s.disk (s.table i).key).nlink }).goto
        p .out) := by
  have locked : (s.table i).lock = some p := by
    have busy := inv.busy p
    rw [phase] at busy
    exact busy
  have light : ∀ j, ¬(s.phase p).Tail j := by simp [phase, Phase.Tail]
  exact inv.holder locked light rfl (goto_other _ p _) (goto_self _ p _) rfl rfl rfl (.inr locked)
    (fun _ => .inl typed) nofun (fun _ _ => rfl) (inv.disk_typed (inv.locked i p locked) (light i)) trivial

theorem Inv.iunlock (outside : s.phase p = .out) (locked : (s.table i).lock = some p) :
    Inv (s.set i { s.table i with lock := none }) := by
  have light := not_tail_of_out outside
  exact inv.holder locked light rfl (fun _ _ => rfl) outside rfl rfl rfl (.inl rfl)
    (fun valid => .inr ⟨valid, rfl⟩) nofun (fun _ _ => rfl)
    (inv.disk_typed (inv.locked i p locked) (light i)) trivial

theorem Inv.setNlink (outside : s.phase p = .out) (locked : (s.table i).lock = some p)
    (nlink : Nat) : Inv (s.set i { s.table i with nlink }) := by
  have light := not_tail_of_out outside
  exact inv.holder locked light rfl (fun _ _ => rfl) outside rfl rfl rfl (.inr locked)
    (fun valid => .inr ⟨valid, rfl⟩) nofun (fun _ _ => rfl)
    (inv.disk_typed (inv.locked i p locked) (light i)) trivial

theorem Inv.iupdate (next : Phase) (locked : (s.table i).lock = some p)
    (light : ∀ j, ¬(s.phase p).Tail j) (type : (s.table i).type ≠ 0)
    (alone : ∀ key was, next ≠ .fetching key was) (busy : Busy ((s.iupdate i).goto p next) p next) :
    Inv ((s.iupdate i).goto p next) := by
  refine inv.holder locked light (update_eq_self i s.table).symm (goto_other _ p _)
    (goto_self _ p _) rfl rfl rfl (.inr locked) (fun valid => .inr ⟨valid, rfl⟩) alone
    (fun key other => update_of_ne other _ _) ?_ busy
  change (update s.disk (s.table i).key _ (s.table i).key).type ≠ 0
  rwa [update_self]

section

variable (outside : s.phase p = .out) (spare : (s.table i).Spare p)
include outside spare

theorem Inv.put : Inv (s.set i ((s.table i).drop p)) := by
  have light := not_tail_of_out outside
  have use : Uses s (s.set i ((s.table i).drop p)) p i ((s.table i).drop p) .out :=
    { mine := spare.1, light
      table := rfl
      phase := fun _ _ => rfl
      reached := outside
      key := rfl
      locked := fun q lock => by
        have before := inv.locked i q lock
        change 1 ≤ update (s.table i).refs p ((s.table i).refs p - 1) q
        by_cases same : q = p
        · subst same
          have two := spare.2 lock
          rw [update_self]
          omega
        · rwa [update_of_ne same]
      refs := fun q other => update_le _ _ other
      lock := fun _ _ => .rfl
      frozen := fun _ _ _ => ⟨rfl, rfl⟩
      typed := fun valid => .inr ⟨valid, rfl⟩
      alone := nofun }
  exact inv.uses use (Inode.count_drop (inv.count i) spare.1) (fun _ _ => rfl)
    (inv.disk_typed spare.1 (light i)) trivial

theorem Inv.reclaim (last : (s.table i).ref = 1) (valid : (s.table i).valid = true) (unlinked : (s.table i).nlink = 0) :
    Inv ((s.set i { s.table i with lock := some p }).goto p (.truncating i)) := by
  have light := not_tail_of_out outside
  have unlocked := inv.unlocked_of_last spare last
  have one := (inv.sole_of_last spare.1 last).refs
  have stored := inv.disk_typed spare.1 (light i)
  have type : (s.table i).type ≠ 0 := by
    rcases inv.typed i (by omega) valid with known | ⟨q, phase⟩
    · exact known
    · have busy := inv.busy q
      rw [phase] at busy
      cases unlocked.symm.trans busy.1
  have use : Uses s ((s.set i { s.table i with lock := some p }).goto p (.truncating i)) p i
      { s.table i with lock := some p } (.truncating i) :=
    { mine := spare.1, light
      table := rfl
      phase := goto_other _ p _
      reached := goto_self _ p _
      key := rfl
      locked := fun q lock => by
        cases lock
        exact spare.1
      refs := fun _ _ => le_rfl
      lock := fun q other => by
        rw [unlocked]
        exact ⟨nofun, fun same => absurd (Option.some.inj same).symm other⟩
      frozen := fun _ _ _ => ⟨rfl, rfl⟩
      typed := fun valid => .inr ⟨valid, rfl⟩
      alone := nofun }
  refine inv.uses use (inv.count i) (fun _ _ => rfl) stored ?_
  have entry : ((s.set i { s.table i with lock := some p }).goto p (.truncating i)).table i =
      { s.table i with lock := some p } := set_self s i _
  refine ⟨⟨?_, ?_⟩, ?_, ?_, ?_, ?_, ?_⟩
  all_goals rw [entry]
  · exact last
  · exact one
  · exact valid
  · exact unlinked
  · exact type
  · exact stored

theorem Inv.give (q : Pid) : Inv (s.set i { s.table i with
      refs := update (update (s.table i).refs p ((s.table i).refs p - 1)) q
        (update (s.table i).refs p ((s.table i).refs p - 1) q + 1) }) := by
  have light := not_tail_of_out outside
  have mine := spare.1
  have more : ∀ r, update (s.table i).refs p ((s.table i).refs p - 1) r ≤
      update (update (s.table i).refs p ((s.table i).refs p - 1)) q
        (update (s.table i).refs p ((s.table i).refs p - 1) q + 1) r := fun r => by
    by_cases same : r = q
    · rw [same, update_self]
      omega
    · rw [update_of_ne same]
  have use : Uses s (s.set i { s.table i with
      refs := update (update (s.table i).refs p ((s.table i).refs p - 1)) q
        (update (s.table i).refs p ((s.table i).refs p - 1) q + 1) }) p i _ .out :=
    { mine, light
      table := rfl
      phase := fun _ _ => rfl
      reached := outside
      key := rfl
      locked := fun r lock => by
        have before := inv.locked i r lock
        refine le_trans ?_ (more r)
        by_cases same : r = p
        · subst same
          have two := spare.2 lock
          rw [update_self]
          omega
        · rwa [update_of_ne same]
      refs := fun r other => (update_le _ _ other).trans (more r)
      lock := fun _ _ => .rfl
      frozen := fun _ _ _ => ⟨rfl, rfl⟩
      typed := fun valid => .inr ⟨valid, rfl⟩
      alone := nofun }
  refine inv.uses use ?_ (fun _ _ => rfl) (inv.disk_typed mine (light i)) trivial
  have first := sum_update (s.table i).refs p ((s.table i).refs p - 1)
  have second := sum_update (update (s.table i).refs p ((s.table i).refs p - 1)) q
    (update (s.table i).refs p ((s.table i).refs p - 1) q + 1)
  have count := inv.count i
  change (s.table i).ref = ∑ r, update (update (s.table i).refs p _) q _ r
  omega

end

end

end OsCpp.ITable
