import OsCpp.Buffers.Machine
import Mathlib.Data.List.Perm.Subperm

/-!
# The list of buffers and the blocks they hold

In every run the list through the head has each buffer once, and no two buffers hold one block.
-/

namespace OsCpp.Buffers

variable {Ref Data : Type} {s s' : State Ref Data}

/-- The list has every buffer, and the pointers of one direction are those of the other one. -/
def Listed (s : State Ref Data) : Prop :=
  ∃ order, DList.Circular s.links none order ∧ ∀ b, some b ∈ order

/-- No two buffers hold the same block of a device. -/
def Unique (s : State Ref Data) : Prop :=
  ∀ {b b'}, (s.buf b).dev ≠ 0 → (s.buf b').dev = (s.buf b).dev →
    (s.buf b').blockno = (s.buf b).blockno → b' = b

theorem listed_init (blank : Data) (disk : Nat → Nat → Data) : Listed (init blank disk : State Ref Data) := by
  -- the buffers put so far are in the list, and those to come are not
  have pushed : ∀ (todo : List (Fin NBUF)) (links : DList.Links Node) (order : List Node),
      DList.Circular links none order → todo.Nodup → (∀ b ∈ todo, some b ∉ order) →
      ∃ order', DList.Circular (todo.foldl (fun links b => links.push none (some b)) links) none order' ∧
        ∀ b, some b ∈ order ∨ b ∈ todo → some b ∈ order' := by
    intro todo
    induction todo with
    | nil => exact fun links order circular _ _ => ⟨order, circular, fun b member => by simpa using member⟩
    | cons first todo ih =>
      intro links order circular nodup apart
      rw [List.nodup_cons] at nodup
      have fresh : some first ∉ none :: order := by
        simpa using apart first List.mem_cons_self
      obtain ⟨order', circular', all⟩ := ih (links.push none (some first)) (some first :: order)
        (circular.push fresh) nodup.2 fun b member => by
          rw [List.mem_cons, not_or]
          refine ⟨?_, apart b (List.mem_cons_of_mem first member)⟩
          rintro equal
          exact nodup.1 (Option.some.inj equal ▸ member)
      refine ⟨order', circular', fun b member => all b ?_⟩
      simp only [List.mem_cons, Option.some.injEq] at member ⊢
      tauto
  obtain ⟨order, circular, all⟩ := pushed (List.finRange NBUF) ⟨fun _ => none, fun _ => none⟩ []
    (.nil rfl rfl) (List.nodup_finRange NBUF) (by simp)
  exact ⟨order, circular, fun b => all b (.inr (List.mem_finRange b))⟩

/-- A loop of `bget` finds the first buffer of the list that passes the test. -/
theorem search_eq {order : List Node} (circular : DList.Circular s.links none order)
    (test : Buf Ref Data → Bool) :
    s.search test = some (order.find? fun node => node.elim false fun b => test (s.buf b)).join := by
  have few : order.length < NBUF + 1 := by
    have nodup := List.nodup_cons.mp circular.nodup
    have subset : order ⊆ (List.finRange NBUF).map some := by
      rintro (_ | b) member
      · exact absurd member nodup.1
      · exact List.mem_map_of_mem (List.mem_finRange b)
    have short := (nodup.2.subperm subset).length_le
    rw [List.length_map, List.length_finRange] at short
    omega
  rw [State.search, circular.find_eq _ few]
  rfl

theorem Listed.search (listed : Listed s) (test : Buf Ref Data → Bool) :
    (∃ b, s.search test = some (some b) ∧ test (s.buf b) = true) ∨
      s.search test = some none ∧ ∀ b, test (s.buf b) = false := by
  obtain ⟨order, circular, all⟩ := listed
  rw [search_eq circular]
  cases result : order.find? fun node => node.elim false fun b => test (s.buf b) with
  | none =>
    refine .inr ⟨rfl, fun b => ?_⟩
    have fails := List.find?_eq_none.mp result (some b) (all b)
    simpa using fails
  | some node =>
    have passes := List.find?_some result
    cases node with
    | none => cases passes
    | some b => exact .inl ⟨b, rfl, passes⟩

theorem Listed.found (listed : Listed s) {test : Buf Ref Data → Bool} {b : Fin NBUF}
    (found : s.search test = some (some b)) : test (s.buf b) = true := by
  rcases listed.search test with ⟨b', found', passes⟩ | ⟨absent, -⟩
  · rw [found] at found'
    cases found'
    exact passes
  · rw [found] at absent
    cases absent

theorem Listed.absent (listed : Listed s) {test : Buf Ref Data → Bool}
    (absent : s.search test = some none) (b : Fin NBUF) : test (s.buf b) = false := by
  rcases listed.search test with ⟨b', found, -⟩ | ⟨-, fails⟩
  · rw [absent] at found
    cases found
  · exact fails b

theorem Listed.front (listed : Listed s) (b : Fin NBUF) (links : s'.links =
    (s.links.unlink (some b)).push none (some b)) : Listed s' := by
  obtain ⟨order, circular, all⟩ := listed
  obtain ⟨left, right, rfl⟩ := List.append_of_mem (all b)
  have nodup := circular.nodup
  have fresh : some b ∉ none :: (left ++ right) := by
    rw [List.nodup_cons, List.nodup_middle, List.nodup_cons] at nodup
    simpa using nodup.2.1
  refine ⟨some b :: (left ++ right), ?_, fun b' => ?_⟩
  · rw [links]
    exact circular.unlink.push fresh
  · have member := all b'
    simp only [List.mem_append, List.mem_cons] at member ⊢
    tauto

/-- What a buffer holds. -/
def key (buf : Buf Ref Data) : Nat × Nat := (buf.dev, buf.blockno)

theorem key_update {buf : Fin NBUF → Buf Ref Data} {b : Fin NBUF} {changed : Buf Ref Data} (b' : Fin NBUF)
    (same : key changed = key (buf b)) : key (Function.update buf b changed b') = key (buf b') := by
  by_cases equal : b' = b
  · subst equal
    rw [Function.update_self, same]
  · rw [Function.update_of_ne equal]

theorem unique_iff : Unique s ↔ ∀ {b b'}, (key (s.buf b)).1 ≠ 0 → key (s.buf b') = key (s.buf b) → b' = b := by
  simp only [Unique, key, Prod.mk.injEq, and_imp]

theorem unique_init (blank : Data) (disk : Nat → Nat → Data) : Unique (init blank disk : State Ref Data) :=
  fun device => absurd rfl device

variable [DecidableEq Ref]

theorem put_links (s : State Ref Data) (r : Ref) (b : Fin NBUF) :
    (s.put r b).links = s.links ∨ (s.put r b).links = (s.links.unlink (some b)).push none (some b) := by
  unfold State.put
  dsimp only [State.setHandle]
  split
  · exact .inr rfl
  · exact .inl rfl

theorem put_buf (s : State Ref Data) (r : Ref) (b : Fin NBUF) :
    (s.put r b).buf = (s.setBuf b { s.buf b with refcnt := State.decrement (s.buf b).refcnt }).buf := by
  unfold State.put
  dsimp only [State.setHandle]
  split <;> rfl

theorem fill_links (s : State Ref Data) (r : Ref) (h : Handle) : (s.fill r h).links = s.links := by
  unfold State.fill
  dsimp only [State.setHandle]
  split <;> rfl

/-- An event gives a buffer another block only if the block was in none and the buffer had no reference. -/
theorem Moves.keys {event : Event Ref Data} (listed : Listed s) (moves : Moves s event s') :
    (∀ b, key (s'.buf b) = key (s.buf b)) ∨ ∃ b dev blockno, (s.buf b).refcnt = 0 ∧
      (∀ b', key (s.buf b') ≠ (dev, blockno)) ∧ key (s'.buf b) = (dev, blockno) ∧
      ∀ b' ≠ b, key (s'.buf b') = key (s.buf b') := by
  cases moves with
  | @miss r dev blockno b idle absent unused =>
    refine .inr ⟨b, dev, blockno, by simpa using listed.found unused, fun b' equal => ?_, ?_,
      fun b' other => ?_⟩
    · have fails := listed.absent absent b'
      rw [key, Prod.mk.injEq] at equal
      simp [equal] at fails
    · simp [State.setBuf, State.setHandle, key]
    · simp [State.setBuf, State.setHandle, other]
  | hit => exact .inl fun b => key_update b (by rfl)
  | panic => exact .inl fun _ => rfl
  | acquire => exact .inl fun b => key_update b (by rfl)
  | @fill r b dev blockno =>
    refine .inl fun b' => ?_
    unfold State.fill
    dsimp only [State.setHandle]
    split
    · rfl
    · exact key_update b' (by rfl)
  | modify => exact .inl fun b => key_update b (by rfl)
  | bwrite => exact .inl fun _ => rfl
  | bpin => exact .inl fun b => key_update b (by rfl)
  | bupin => exact .inl fun b => key_update b (by simp only [key])
  | release => exact .inl fun b => key_update b (by rfl)
  | put =>
    refine .inl fun b => ?_
    rw [put_buf]
    exact key_update b (by simp only [key])

theorem Listed.moves {event : Event Ref Data} (listed : Listed s) (moves : Moves s event s') :
    Listed s' := by
  have same : s'.links = s.links → Listed s' := by
    intro equal
    obtain ⟨order, circular, all⟩ := listed
    exact ⟨order, by rwa [equal], all⟩
  cases moves with
  | @put r b =>
    rcases put_links s r b with equal | moved
    · exact same equal
    · exact listed.front b moved
  | fill => exact same (fill_links ..)
  | _ => exact same rfl

theorem Unique.moves {event : Event Ref Data} (unique : Unique s) (listed : Listed s)
    (moves : Moves s event s') : Unique s' := by
  rw [unique_iff] at unique ⊢
  intro b b' device equal
  rcases moves.keys listed with same | ⟨changed, dev, blockno, -, absent, now, others⟩
  · rw [same] at device
    rw [same, same] at equal
    exact unique device equal
  · by_cases left : b = changed <;> by_cases right : b' = changed
    · rw [left, right]
    · rw [left, now, others b' right] at equal
      exact absurd equal (absent b')
    · rw [right, now, others b left] at equal
      exact absurd equal.symm (absent b)
    · rw [others b left] at device
      rw [others b left, others b' right] at equal
      exact unique device equal

theorem listed_run {blank : Data} {disk : Nat → Nat → Data} {events : List (Event Ref Data)}
    {guard : State Ref Data → Event Ref Data → Prop}
    (run : Execution.Run State.step guard (init blank disk) events s) : Listed s ∧ Unique s := by
  generalize start : init blank disk = first at run
  induction run with
  | nil =>
    subst start
    exact ⟨listed_init blank disk, unique_init blank disk⟩
  | snoc _ _ taken ih =>
    obtain ⟨listed, unique⟩ := ih
    have moves := moves_of_step taken
    exact ⟨listed.moves moves, unique.moves listed moves⟩

end OsCpp.Buffers
