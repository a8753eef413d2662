import OsCpp.ITable.Invariant

/-!
# The inode table in every run

Every step keeps the invariant, so that in every run the table has one entry for an inode, counts its
references, and reclaims an inode only for the one process that still has a reference.
-/

namespace OsCpp.ITable

open Execution (Run exists_run_of_exec)
open Function (update update_eq_self update_of_ne update_self)

section

variable {Pid : Type} {table : Fin NINODE → Inode Pid} {key : Key} {i : Fin NINODE} {found : Bool}

theorem search_spec {indices : List (Fin NINODE)} {node : Option (Fin NINODE)}
    (reached : search table key indices node = some (i, found)) :
    found = true ∧ 0 < (table i).ref ∧ (table i).key = key ∨
      found = false ∧ (∀ j ∈ indices, 0 < (table j).ref → (table j).key ≠ key) ∧
        (node = some i ∨ (table i).ref = 0) := by
  induction indices generalizing node with
  | nil =>
    obtain ⟨j, rfl, same⟩ := Option.map_eq_some_iff.mp reached
    cases same
    exact .inr ⟨rfl, nofun, .inl rfl⟩
  | cons j rest ih =>
    rw [search] at reached
    split at reached
    · rename_i hit
      cases reached
      exact .inl ⟨rfl, hit⟩
    · rename_i miss
      rcases ih reached with hit | ⟨rfl, others, chosen⟩
      · exact .inl hit
      · refine .inr ⟨rfl, fun k member used same => ?_, ?_⟩
        · rcases List.mem_cons.mp member with rfl | later
          · exact miss ⟨used, same⟩
          · exact others k later used same
        · rcases chosen with first | unused
          · split at first
            · rename_i free
              cases first
              exact .inr free.2
            · exact .inl first
          · exact .inr unused

theorem search_cases (reached : search table key (List.finRange NINODE) none = some (i, found)) :
    found = true ∧ 0 < (table i).ref ∧ (table i).key = key ∨
      found = false ∧ (∀ j, 0 < (table j).ref → (table j).key ≠ key) ∧ (table i).ref = 0 := by
  rcases search_spec reached with hit | ⟨miss, others, chosen⟩
  · exact .inl hit
  · refine .inr ⟨miss, fun j => others j (List.mem_finRange j), ?_⟩
    rcases chosen with first | unused
    · cases first
    · exact unused

end

section

variable {Pid : Type} [Fintype Pid] {s t : State Pid} {p : Pid} {i : Fin NINODE}

variable (inv : Inv s)

include inv

theorem Inv.refs_of_unused (unused : (s.table i).ref = 0) (q : Pid) : (s.table i).refs q = 0 := by
  by_contra some_left
  have used := inv.ref_pos (i := i) (p := q) (by omega)
  omega

theorem Inv.unlocked_of_unused (unused : (s.table i).ref = 0) (q : Pid) :
    (s.table i).lock ≠ some q := fun held => by
  have has := inv.locked i q held
  have none_left := inv.refs_of_unused unused q
  omega

theorem Inv.reclaims (either : s.phase p = .truncating i ∨ s.phase p = .clearing i) :
    Reclaims s p i := by
  have known := inv.busy p
  rcases either with phase | phase <;> rw [phase] at known <;> exact known

variable [DecidableEq Pid]

theorem Inv.iget {key : Key} (light : ∀ j, ¬(s.phase p).Tail j)
    (typed : (s.disk key).type ≠ 0) (alone : ∀ q ≠ p, ∀ was, s.phase q ≠ .fetching key was)
    (idle : ∀ i, (s.table i).key = key → ∀ q ≠ p, s.phase q ≠ .truncating i ∧ s.phase q ≠ .clearing i)
    (taken : (s.goto p .out).iget p key = some t) : Inv t := by
  obtain ⟨⟨i, found⟩, reached, taken⟩ := Option.bind_eq_some_iff.mp taken
  cases taken
  rcases search_cases reached with ⟨rfl, used, named⟩ | ⟨rfl, others, unused⟩
  · change 0 < (s.table i).ref at used
    change (s.table i).key = key at named
    subst named
    have change : Modifies s ((s.goto p .out).set i ((s.table i).take p)) p i ((s.table i).take p) :=
      { table := rfl
        phase := goto_other s p _
        disk := fun _ _ => rfl
        unique := fun j other used' same => other (inv.unique j i used' used same)
        locked := inv.locked_take p i
        refs := fun q other => update_le _ _ other
        lock := fun _ _ => .rfl
        frozen := fun _ _ _ => ⟨rfl, rfl⟩
        reclaimed := idle i rfl
        light := fun j _ => light j }
    have reached : ((s.goto p .out).set i ((s.table i).take p)).phase p = .out := goto_self s p _
    change Inv ((s.goto p .out).set i ((s.table i).take p))
    refine inv.modify change (Inode.count_take (inv.count i) p) (fun _ valid => ?_)
      (by rw [reached]; trivial) (by rw [reached]; exact nofun) (fun free => absurd free typed)
      fun q other was fetching => absurd fetching (alone q other was)
    rcases inv.typed i used valid with known | ⟨q, phase⟩
    · exact .inl known
    · have other : q ≠ p := by
        rintro rfl
        exact light i (.inl phase)
      exact .inr ⟨q, (goto_other s p _ q other).trans phase⟩
  · change (s.table i).ref = 0 at unused
    change ∀ j, 0 < (s.table j).ref → (s.table j).key ≠ key at others
    have change : Modifies s ((s.goto p .out).set i ((s.table i).fresh key p)) p i
        ((s.table i).fresh key p) :=
      { table := rfl
        phase := goto_other s p _
        disk := fun _ _ => rfl
        unique := fun j _ used => others j used
        locked := fun q lock => absurd lock (inv.unlocked_of_unused unused q)
        refs := fun q other => update_le _ _ other
        lock := fun _ _ => .rfl
        frozen := fun q _ lock => absurd lock (inv.unlocked_of_unused unused q)
        reclaimed := fun q _ => by
          have idle : ¬Reclaims s q i := fun reclaims => by
            have one := reclaims.sole.ref
            omega
          exact ⟨fun phase => idle (inv.reclaims (.inl phase)),
            fun phase => idle (inv.reclaims (.inr phase))⟩
        light := fun j _ => light j }
    have reached : ((s.goto p .out).set i ((s.table i).fresh key p)).phase p = .out := goto_self s p _
    change Inv ((s.goto p .out).set i ((s.table i).fresh key p))
    refine inv.modify change ?_ (fun _ valid => nomatch valid) (by rw [reached]; trivial)
      (by rw [reached]; exact nofun) (fun free => absurd free typed)
      fun q other was fetching => absurd fetching (alone q other was)
    have sum := sum_update (s.table i).refs p ((s.table i).refs p + 1)
    have count := inv.count i
    change 1 = ∑ q, update (s.table i).refs p ((s.table i).refs p + 1) q
    omega

theorem Inv.iget_named {key : Key} (outside : s.phase p = .out) (linked : s.Linked key)
    (taken : s.iget p key = some t) : Inv t := by
  have stays : s.goto p .out = s := by
    rw [State.goto, ← outside, update_eq_self]
  refine inv.iget (not_tail_of_out outside) (fun free => ?_) (fun q _ was fetching => ?_)
    (fun i named q _ => ?_) (stays.symm ▸ taken)
  · obtain ⟨unlinked, only⟩ := inv.disk key free
    exact not_linked unlinked only linked
  · have busy := inv.busy q
    rw [fetching] at busy
    exact not_linked busy.2.2.1 busy.2.2.2 linked
  · have idle : ¬Reclaims s q i := fun reclaims =>
      linked.1 i (inv.ref_pos reclaims.sole.refs.ge) named reclaims.valid reclaims.nlink
    exact ⟨fun phase => idle (inv.reclaims (.inl phase)), fun phase => idle (inv.reclaims (.inr phase))⟩

theorem Inv.fetch {key : Key} {was : UInt16} (phase : s.phase p = .fetching key was)
    (taken : (s.goto p .out).iget p key = some t) : Inv t := by
  have busy := inv.busy p
  rw [phase] at busy
  obtain ⟨-, typed, -, only⟩ := busy
  have light : ∀ j, ¬(s.phase p).Tail j := by simp [phase, Phase.Tail]
  refine inv.iget light typed (fun q other was' fetching => ?_) (fun i named q _ => ?_) taken
  · exact other (inv.alone q p key was' was fetching phase)
  · -- Who reclaims the inode has its only reference, and so has who is at the end of `iput`.
    have idle : ¬(s.phase q = .truncating i ∨ s.phase q = .clearing i) := fun either => by
      have mine := (inv.reclaims either).sole.refs.ge
      obtain ⟨r, sole, tail, -⟩ := only i (inv.ref_pos mine) named
      obtain rfl := inv.sole_eq sole mine
      rcases either with phase | phase <;> rw [phase] at tail <;> rcases tail with h | h | h <;> cases h
    exact ⟨fun phase => idle (.inl phase), fun phase => idle (.inr phase)⟩

/-! ## The last steps of `iput` -/

theorem Inv.invalidate (phase : s.phase p = .invalidating i) :
    Inv ((s.set i { s.table i with valid := false }).goto p (.unlocking i)) := by
  have busy := inv.busy p
  rw [phase] at busy
  have mine := inv.locked i p busy.1
  refine inv.leave (.inl phase) mine rfl (goto_other _ p _) (goto_self _ p _) rfl rfl (inv.locked i)
    (fun _ _ => le_rfl) (fun _ _ => .rfl) (fun q other held => ?_) (inv.count i)
    (fun _ valid => nomatch valid) nofun ?_ fun last _ => ?_
  · exact absurd (Option.some.inj (held.symm.trans busy.1)) other
  · change ((s.set i _).table i).lock = some p ∧ ((s.set i _).table i).valid = false
    rw [set_self]
    exact ⟨busy.1, rfl⟩
  · exact ⟨last, (inv.sole_of_last mine last).refs, .inr (.inl rfl), rfl⟩

theorem Inv.release (phase : s.phase p = .unlocking i) :
    Inv ((s.set i { s.table i with lock := none }).goto p (.dropping i)) := by
  have busy := inv.busy p
  rw [phase] at busy
  have mine := inv.locked i p busy.1
  have invalid := busy.2
  refine inv.leave (.inr (.inl phase)) mine rfl (goto_other _ p _) (goto_self _ p _) rfl rfl nofun
    (fun _ _ => le_rfl) (fun q other => ?_) (fun q other held => ⟨rfl, rfl⟩) (inv.count i)
    (fun _ valid => ?_) nofun ?_ fun last _ => ?_
  · rw [busy.1]
    exact ⟨fun same => absurd (Option.some.inj same).symm other, nofun⟩
  · rw [invalid] at valid
    cases valid
  · change 1 ≤ ((s.set i _).table i).refs p ∧ ((s.set i _).table i).lock ≠ some p
    rw [set_self]
    exact ⟨mine, nofun⟩
  · exact ⟨last, (inv.sole_of_last mine last).refs, .inr (.inr rfl), invalid⟩

theorem Inv.drop (phase : s.phase p = .dropping i) :
    Inv ((s.set i ((s.table i).drop p)).goto p .out) := by
  have busy := inv.busy p
  rw [phase] at busy
  obtain ⟨mine, unlocked⟩ := busy
  refine inv.leave (.inr (.inr phase)) mine rfl (goto_other _ p _) (goto_self _ p _) rfl rfl
    (fun q held => ?_) (fun q other => update_le _ _ other) (fun _ _ => .rfl)
    (fun q other held => ⟨rfl, rfl⟩) (Inode.count_drop (inv.count i) mine) (fun used valid => ?_) nofun
    trivial fun last used => ?_
  · have before := inv.locked i q held
    have other : q ≠ p := by
      rintro rfl
      exact unlocked held
    change 1 ≤ update (s.table i).refs p _ q
    rwa [update_of_ne other]
  · rcases inv.typed i (inv.ref_pos mine) valid with known | ⟨q, invalidating⟩
    · exact .inl known
    · have other : q ≠ p := by
        rintro rfl
        rw [phase] at invalidating
        cases invalidating
      exact .inr ⟨q, (goto_other _ p _ q other).trans invalidating⟩
  · change 0 < (s.table i).ref - 1 at used
    omega

/-! ## `ialloc` -/

theorem Inv.scan {next : Phase} (light : ∀ j, ¬(s.phase p).Tail j)
    (table : t.table = s.table) (phases : ∀ q ≠ p, t.phase q = s.phase q) (reached : t.phase p = next)
    (disk : ∀ key, t.disk key = s.disk key ∨ (s.disk key).type = 0 ∧ (t.disk key).type ≠ 0)
    (busy : Busy t p next)
    (alone : ∀ key was, next = .fetching key was → (s.disk key).type = 0) : Inv t := by
  subst reached
  have only : ∀ {key}, OnlyTail s key → OnlyTail t key := fun before =>
    before.frame fun i _ _ => ⟨by rw [table], fun q tail => phases q fun same =>
      light i (same ▸ tail)⟩
  have fetching : ∀ q key was, s.phase q = .fetching key was → (s.disk key).type ≠ 0 :=
    fun q key was phase => by
      have known := inv.busy q
      rw [phase] at known
      exact known.2.1
  refine ⟨?_, ?_, ?_, fun q => ?_, fun i used valid => ?_, fun key free => ?_,
    fun q r key was was' first second => ?_⟩
  · rw [table]
    exact inv.unique
  · rw [table]
    exact inv.count
  · rw [table]
    exact inv.locked
  · by_cases same : q = p
    · rw [same]
      exact busy
    · have known := inv.busy q
      rw [phases q same]
      cases phase : s.phase q with
      | fetching key was =>
        rw [phase] at known
        have stays : t.disk key = s.disk key := (disk key).resolve_right fun new => known.2.1 new.1
        exact ⟨known.1, by rw [stays]; exact known.2.1, by rw [stays]; exact known.2.2.1,
          only known.2.2.2⟩
      | truncating i | clearing i =>
        rw [phase] at known
        refine ⟨⟨?_, ?_⟩, ?_, ?_, ?_, ?_, ?_⟩
        all_goals rw [table]
        · exact known.sole.ref
        · exact known.sole.refs
        · exact known.lock
        · exact known.valid
        · exact known.nlink
        · exact known.type
        · rcases disk (s.table i).key with stays | new
          · rw [stays]
            exact known.disk
          · exact new.2
      | out | scanning | loading | stuck | invalidating | unlocking | dropping =>
        rw [phase] at known
        simp only [Busy, table] at known ⊢
        try exact known
  · rw [table] at used valid ⊢
    rcases inv.typed i used valid with known | ⟨q, phase⟩
    · exact .inl known
    · have other : q ≠ p := by
        rintro rfl
        exact light i (.inl phase)
      exact .inr ⟨q, by rw [phases q other, phase]⟩
  · have stays : t.disk key = s.disk key := (disk key).resolve_right fun new => new.2 free
    rw [stays] at free ⊢
    obtain ⟨unlinked, before⟩ := inv.disk key free
    exact ⟨unlinked, only before⟩
  · by_cases mine : q = p <;> by_cases its : r = p
    · rw [mine, its]
    · subst mine
      rw [phases r its] at second
      exact absurd (alone key was first) (fetching r key was' second)
    · subst its
      rw [phases q mine] at first
      exact absurd (alone key was' second) (fetching q key was first)
    · rw [phases q mine] at first
      rw [phases r its] at second
      exact inv.alone q r key was was' first second

theorem Inv.scanning {ninodes dev inum : Nat} {type : UInt16}
    (phase : s.phase p = .scanning dev type inum)
    (taken : s.advance p ninodes (.scanning dev type inum) = some t) : Inv t := by
  have typed : type ≠ 0 := by
    have known := inv.busy p
    rw [phase] at known
    exact known
  have light : ∀ j, ¬(s.phase p).Tail j := by simp [phase, Phase.Tail]
  rw [State.advance] at taken
  split at taken
  · split at taken
    · rename_i free
      cases taken
      refine inv.scan light rfl (goto_other _ p _) (goto_self _ p _) (fun key => ?_) ?_
        fun key was same => ?_
      · change update s.disk (dev, inum) { type } key = _ ∨ _ ∧
          (update s.disk (dev, inum) { type } key).type ≠ 0
        by_cases same : key = (dev, inum)
        · subst same
          rw [update_self]
          exact .inr ⟨free, typed⟩
        · rw [update_of_ne same]
          exact .inl rfl
      · have stored : (s.write (dev, inum) { type }).disk (dev, inum) = { type } := update_self ..
        refine ⟨free, ?_, ?_, ?_⟩
        · change ((s.write (dev, inum) { type }).disk (dev, inum)).type ≠ 0
          rwa [stored]
        · change ((s.write (dev, inum) { type }).disk (dev, inum)).nlink = 0
          rw [stored]
        · refine (inv.disk _ free).2.frame fun i _ _ => ⟨rfl, fun q tail => goto_other _ p _ q ?_⟩
          rintro rfl
          exact light i tail
      · cases same
        exact free
    · cases taken
      exact inv.scan light rfl (goto_other _ p _) (goto_self _ p _) (fun _ => .inl rfl) typed (by simp)
  · cases taken
    exact inv.scan light rfl (goto_other _ p _) (goto_self _ p _) (fun _ => .inl rfl) trivial (by simp)

/-! ## Steps and runs -/

theorem Inv.iput (outside : s.phase p = .out) (spare : (s.table i).Spare p) : Inv (s.iput p i) := by
  rw [State.iput]
  split
  · rename_i last
    rw [if_pos (inv.unlocked_of_last spare last.1)]
    exact inv.reclaim outside spare last.1 last.2.1 last.2.2
  · exact inv.put outside spare

theorem Inv.truncate (phase : s.phase p = .truncating i) :
    Inv ((s.iupdate i).goto p (.clearing i)) := by
  have reclaims := inv.reclaims (.inl phase)
  have light : ∀ j, ¬(s.phase p).Tail j := by simp [phase, Phase.Tail]
  refine inv.iupdate _ reclaims.lock light reclaims.type (by simp) ?_
  refine { reclaims with sole := { reclaims.sole with }, disk := ?_ }
  change (update s.disk (s.table i).key _ (s.table i).key).type ≠ 0
  rw [update_self]
  exact reclaims.type

theorem Inv.advance {ninodes : Nat} (taken : s.advance p ninodes (s.phase p) = some t) : Inv t := by
  cases phase : s.phase p with
  | out | stuck =>
    rw [phase] at taken
    cases taken
  | scanning dev type inum => exact inv.scanning phase (phase ▸ taken)
  | fetching key was =>
    rw [phase] at taken
    exact inv.fetch phase taken
  | loading i =>
    rw [phase, State.advance] at taken
    dsimp only at taken
    rw [Option.ite_none_right_eq_some] at taken
    obtain ⟨typed, taken⟩ := taken
    cases taken
    exact inv.load phase typed
  | truncating i =>
    rw [phase] at taken
    cases taken
    exact inv.truncate phase
  | clearing i =>
    rw [phase] at taken
    cases taken
    refine inv.clear phase rfl (goto_other _ p _) (goto_self _ p _) ?_
    change update s.disk ((s.set i _).table i).key _ = _
    rw [set_self]
  | invalidating i =>
    rw [phase] at taken
    cases taken
    exact inv.invalidate phase
  | unlocking i =>
    rw [phase] at taken
    cases taken
    exact inv.release phase
  | dropping i =>
    rw [phase] at taken
    cases taken
    exact inv.drop phase

theorem Inv.step {ninodes : Nat} {event : Event Pid} (named : Named s event)
    (taken : step ninodes s event = some t) : Inv t := by
  cases event with
  | step p => exact inv.advance taken
  | ialloc p dev type =>
    rw [ITable.step, Option.ite_none_right_eq_some] at taken
    obtain ⟨⟨outside, typed⟩, ⟨⟩⟩ := taken
    exact inv.scan (not_tail_of_out outside) rfl (goto_other _ p _) (goto_self _ p _)
      (fun _ => .inl rfl) typed nofun
  | iget p key =>
    rw [ITable.step, Option.ite_none_right_eq_some] at taken
    exact inv.iget_named taken.1 named taken.2
  | idup p i =>
    rw [ITable.step, Option.ite_none_right_eq_some] at taken
    obtain ⟨⟨outside, mine⟩, ⟨⟩⟩ := taken
    exact inv.idup outside mine
  | ilock p i =>
    rw [ITable.step, Option.ite_none_right_eq_some] at taken
    obtain ⟨⟨outside, mine, unlocked⟩, ⟨⟩⟩ := taken
    exact inv.ilock outside mine unlocked
  | iunlock p i =>
    rw [ITable.step, Option.ite_none_right_eq_some] at taken
    obtain ⟨⟨outside, locked⟩, ⟨⟩⟩ := taken
    exact inv.iunlock outside locked
  | iput p i =>
    rw [ITable.step, Option.ite_none_right_eq_some] at taken
    obtain ⟨⟨outside, spare⟩, ⟨⟩⟩ := taken
    exact inv.iput outside spare
  | setNlink p i nlink =>
    rw [ITable.step, Option.ite_none_right_eq_some] at taken
    obtain ⟨⟨outside, locked, -⟩, ⟨⟩⟩ := taken
    exact inv.setNlink outside locked nlink
  | iupdate p i =>
    rw [ITable.step, Option.ite_none_right_eq_some] at taken
    obtain ⟨⟨outside, locked, valid⟩, ⟨⟩⟩ := taken
    have light := not_tail_of_out outside
    have stays : (s.iupdate i).goto p .out = s.iupdate i := by
      rw [State.goto, ← outside]
      exact congrArg (fun phase => { s.iupdate i with phase }) (update_eq_self p s.phase)
    have kept := inv.iupdate .out locked light (inv.type_of_locked locked valid light) nofun trivial
    rwa [stays] at kept
  | give p q i =>
    rw [ITable.step, Option.ite_none_right_eq_some] at taken
    obtain ⟨⟨outside, spare⟩, ⟨⟩⟩ := taken
    exact inv.give outside spare q

end

/-- The table after boot: free dinodes have no links. -/
structure Boot {Pid : Type} (s : State Pid) : Prop where
  unused : ∀ i, (s.table i).ref = 0 ∧ (s.table i).lock = none ∧ ∀ p, (s.table i).refs p = 0
  phase : ∀ p, s.phase p = .out
  disk : ∀ key, (s.disk key).type = 0 → (s.disk key).nlink = 0

theorem Boot.inv {Pid : Type} [Fintype Pid] {s : State Pid} (boot : Boot s) : Inv s where
  unique i _ used := absurd (boot.unused i).1 (by omega)
  count i := by
    rw [(boot.unused i).1, Finset.sum_eq_zero fun p _ => (boot.unused i).2.2 p]
  locked i p held := by
    rw [(boot.unused i).2.1] at held
    cases held
  busy p := by
    rw [boot.phase p]
    trivial
  typed i used := absurd (boot.unused i).1 (by omega)
  disk key free := ⟨boot.disk key free, fun i used => absurd (boot.unused i).1 (by omega)⟩
  alone p _ _ _ _ first := by
    rw [boot.phase p] at first
    cases first

/-- What the inode table guarantees. -/
structure Coherent {Pid : Type} [Fintype Pid] (s : State Pid) : Prop where
  unique : ∀ i j, 0 < (s.table i).ref → 0 < (s.table j).ref → (s.table i).key = (s.table j).key → i = j
  count : ∀ i, (s.table i).ref = ∑ p, (s.table i).refs p
  /-- `iput` does not sleep while it holds `itable.lock`. -/
  awake : ∀ p i, s.phase p ≠ .stuck i
  /-- An inode is truncated and its type cleared when there is no other reference. -/
  reclaim : ∀ p i, s.phase p = .truncating i ∨ s.phase p = .clearing i →
    (s.table i).ref = 1 ∧ ∀ q ≠ p, (s.table i).refs q = 0
  /-- `ialloc` takes a dinode without a type, whose entry only an `iput` that has cleared it may have.
-/
  ialloc : ∀ p key was, s.phase p = .fetching key was → was = 0 ∧
    ∀ i q, (s.table i).key = key → 1 ≤ (s.table i).refs q → (s.phase q).Tail i ∧
      ((s.table i).valid = true → s.phase q = .invalidating i)

theorem Inv.coherent {Pid : Type} [Fintype Pid] {s : State Pid} (inv : Inv s) : Coherent s where
  unique := inv.unique
  count := inv.count
  awake p i phase := by
    have busy := inv.busy p
    rw [phase] at busy
    exact busy
  reclaim p i either := by
    have sole := (inv.reclaims either).sole
    refine ⟨sole.ref, fun q other => ?_⟩
    by_contra has
    exact other (inv.sole_eq sole (by omega))
  ialloc p key was phase := by
    have busy := inv.busy p
    rw [phase] at busy
    obtain ⟨zero, -, -, only⟩ := busy
    refine ⟨zero, fun i q named has => ?_⟩
    obtain ⟨r, sole, tail, rest⟩ := only i (inv.ref_pos has) named
    obtain rfl := inv.sole_eq sole has
    exact ⟨tail, fun valid => (rest valid).1⟩

/-- The inode table in every run in which `iget` is called for inodes with links only. -/
theorem table_coherent {Pid : Type} [Fintype Pid] [DecidableEq Pid] {ninodes : Nat} {s t : State Pid}
    {events : List (Event Pid)} (boot : Boot s)
    (run : Run (step ninodes) Named s events t) : Coherent t := by
  have inv : Inv t := by
    apply run.invariant
    · intro source event target before named taken
      exact before.step named taken
    · exact boot.inv
  exact inv.coherent

/-- Two processes and no inodes. -/
def empty : State Bool where
  table _ := {}
  disk _ := {}
  phase _ := .out

theorem boot_empty : Boot empty := ⟨fun _ => ⟨rfl, rfl, fun _ => rfl⟩, fun _ => rfl, fun _ _ => rfl⟩

/-- A process makes an inode, gives it up and has cleared its type when another one calls `ialloc`. -/
def reuse : List (Event Bool) :=
  [.ialloc false 1 2, .step false, .step false, .ilock false ⟨0, by decide⟩, .step false,
    .iunlock false ⟨0, by decide⟩, .iput false ⟨0, by decide⟩, .step false, .step false,
    .ialloc true 1 2, .step true]

theorem table_coherent_reuse :
    ∃ t, Run (step 200) Named empty reuse t ∧ t.phase true = .fetching (1, 1) 0 ∧
      Coherent t := by
  obtain ⟨t, run, reached⟩ : ∃ t, Run (step 200) Named empty reuse t ∧
      decide (t.phase true = .fetching (1, 1) 0) = true :=
    exists_run_of_exec (by decide +kernel)
  exact ⟨t, run, of_decide_eq_true reached, table_coherent boot_empty run⟩

/-- `ialloc` returns an inode whose entry the other process still has, with `valid` set. -/
theorem ialloc_returns_valid :
    ∃ t, Run (step 200) Named empty (reuse ++ [.step true]) t ∧ t.phase true = .out ∧
      (t.table ⟨0, by decide⟩).key = (1, 1) ∧ (t.table ⟨0, by decide⟩).refs true = 1 ∧
      (t.table ⟨0, by decide⟩).refs false = 1 ∧ (t.table ⟨0, by decide⟩).valid = true := by
  obtain ⟨t, run, reached⟩ : ∃ t, Run (step 200) Named empty (reuse ++ [.step true]) t ∧
      decide (t.phase true = .out ∧
        (t.table ⟨0, by decide⟩).key = (1, 1) ∧ (t.table ⟨0, by decide⟩).refs true = 1 ∧
        (t.table ⟨0, by decide⟩).refs false = 1 ∧ (t.table ⟨0, by decide⟩).valid = true) = true :=
    exists_run_of_exec (by decide +kernel)
  exact ⟨t, run, of_decide_eq_true reached⟩

end OsCpp.ITable
