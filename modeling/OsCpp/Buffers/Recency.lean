import OsCpp.Buffers.Order

/-!
# Which buffer `bget` recycles

`brelse` puts a buffer without references behind the head, and `bget` looks for one from the head on.
So the list is in the order of the last releases, and a miss takes the buffer that was released last.
-/

namespace OsCpp.Buffers

variable {Ref Data : Type}

/-- The cache, with the buffers that `brelse` has left without references, the latest first. -/
structure Traced (Ref Data : Type) where
  state : State Ref Data
  history : List (Fin NBUF) := []

/-- The buffer that an event of `brelse` leaves without references. -/
def State.frees (s : State Ref Data) : Event Ref Data → Option (Fin NBUF)
  | .put r => (s.handle r).bind fun h =>
    if State.decrement (s.buf h.buf).refcnt = 0 then some h.buf else none
  | _ => none

/-- The buffer that `bget` takes for a block that is in none. -/
def State.Recycles (s : State Ref Data) (dev blockno : Nat) (b : Fin NBUF) : Prop :=
  s.search (fun buf => buf.dev = dev ∧ buf.blockno = blockno) = some none ∧
    s.search (fun buf => buf.refcnt = 0) = some (some b)

/-- Of the buffers without references, the last release of this one lies furthest in the past. -/
def Traced.LeastRecent (t : Traced Ref Data) (b : Fin NBUF) : Prop :=
  ∀ b', (t.state.buf b').refcnt = 0 → t.history.idxOf b' ≤ t.history.idxOf b

/-- The list is in the order of the last releases. -/
def Sorted (t : Traced Ref Data) (order : List Node) : Prop :=
  order.Pairwise fun left right => ∀ b b', left = some b → right = some b' →
    t.history.idxOf b ≤ t.history.idxOf b'

/-- The list has every buffer and is in the order of the last releases. -/
def Recent (t : Traced Ref Data) : Prop :=
  ∃ order, DList.Circular t.state.links none order ∧ (∀ b, some b ∈ order) ∧ Sorted t order

theorem recent_init (blank : Data) (disk : Nat → Nat → Data) :
    Recent (⟨init blank disk, []⟩ : Traced Ref Data) := by
  have listed : Listed (init blank disk : State Ref Data) := listed_init blank disk
  obtain ⟨order, circular, all⟩ := listed
  exact ⟨order, circular, all, List.pairwise_of_forall fun _ _ _ _ _ _ => le_rfl⟩

/-- A buffer is released and moves to the front. -/
theorem Recent.front {t t' : Traced Ref Data} (recent : Recent t) {b : Fin NBUF}
    (links : t'.state.links = (t.state.links.unlink (some b)).push none (some b))
    (history : t'.history = b :: t.history) : Recent t' := by
  obtain ⟨order, circular, all, sorted⟩ := recent
  obtain ⟨left, right, rfl⟩ := List.append_of_mem (all b)
  have nodup := circular.nodup
  rw [List.nodup_cons, List.nodup_middle, List.nodup_cons] at nodup
  refine ⟨some b :: (left ++ right), ?_, fun b' => ?_, List.pairwise_cons.mpr ⟨?_, ?_⟩⟩
  · rw [links]
    exact circular.unlink.push (by simpa using nodup.2.1)
  · have member := all b'
    simp only [List.mem_append, List.mem_cons] at member ⊢
    tauto
  · intro node member c c' here there
    rw [history, ← Option.some.inj here, List.idxOf_cons_self]
    exact zero_le
  · have old : Sorted t (left ++ right) :=
      sorted.sublist (List.Sublist.append_left (List.sublist_cons_self ..) left)
    refine old.imp_of_mem ?_
    rintro _ _ first second before a a' rfl rfl
    have other : ∀ {c}, some c ∈ left ++ right → b ≠ c := by
      rintro c member rfl
      exact nodup.2.1 member
    rw [history, List.idxOf_cons_ne _ (other first), List.idxOf_cons_ne _ (other second)]
    exact Nat.succ_le_succ (before a a' rfl rfl)

/-- A miss takes the buffer that was released last. -/
theorem Recent.latest {t : Traced Ref Data} (recent : Recent t) {b : Fin NBUF}
    (found : t.state.search (fun buf => buf.refcnt = 0) = some (some b)) (b' : Fin NBUF)
    (free : (t.state.buf b').refcnt = 0) : t.history.idxOf b ≤ t.history.idxOf b' := by
  obtain ⟨order, circular, all, sorted⟩ := recent
  rw [search_eq circular, Option.some.injEq, Option.join_eq_some_iff,
    List.find?_eq_some_iff_append] at found
  obtain ⟨-, left, right, rfl, busy⟩ := found
  rcases List.mem_append.mp (all b') with before | after
  · simpa [free] using busy _ before
  · rcases List.mem_cons.mp after with same | after
    · rw [Option.some.inj same]
    · exact (List.pairwise_cons.mp (List.pairwise_append.mp sorted).2.1).1 _ after b b' rfl rfl

variable [DecidableEq Ref]

def Traced.step (t : Traced Ref Data) (event : Event Ref Data) : Option (Traced Ref Data) :=
  (t.state.step event).map fun next => ⟨next, (t.state.frees event).toList ++ t.history⟩

omit [DecidableEq Ref] in
theorem setBuf_self (s : State Ref Data) (b : Fin NBUF) (buf : Buf Ref Data) :
    (s.setBuf b buf).buf b = buf := Function.update_self ..

theorem put_frees {s : State Ref Data} {r : Ref} {b : Fin NBUF} {dev blockno : Nat} {stage : Stage}
    (has : s.handle r = some ⟨b, dev, blockno, stage⟩) :
    s.frees (.put r) = some b ∧ (s.put r b).links = (s.links.unlink (some b)).push none (some b) ∨
      s.frees (.put r) = none ∧ (s.put r b).links = s.links := by
  rw [State.frees, has, Option.bind_some]
  unfold State.put
  dsimp only [State.setHandle]
  -- the new count is a variable from here on
  generalize State.decrement (s.buf b).refcnt = count
  rw [setBuf_self]
  split
  next free => exact .inl ⟨rfl, rfl⟩
  next kept => exact .inr ⟨rfl, rfl⟩

theorem Recent.step {t t' : Traced Ref Data} {event : Event Ref Data} (recent : Recent t)
    (taken : t.step event = some t') : Recent t' := by
  obtain ⟨next, stepped, rfl⟩ := Option.map_eq_some_iff.mp taken
  have same : next.links = t.state.links → t.state.frees event = none →
      Recent (⟨next, (t.state.frees event).toList ++ t.history⟩ : Traced Ref Data) := by
    intro links none
    rw [none]
    obtain ⟨order, circular, rest⟩ := recent
    exact ⟨order, by rwa [links], rest⟩
  cases moves_of_step stepped with
  | put has =>
    rcases put_frees has with ⟨freed, links⟩ | ⟨kept, links⟩
    · exact recent.front links (congrArg (·.toList ++ t.history) freed)
    · exact same links kept
  | fill => exact same (fill_links ..) rfl
  | _ => exact same rfl rfl

/-- A miss takes the least recently released buffer iff there is no other one, or none has ever been
released. -/
theorem recycles_leastRecent_iff {blank : Data} {disk : Nat → Nat → Data}
    {events : List (Event Ref Data)} {t : Traced Ref Data}
    (run : Execution.Run Traced.step (fun _ _ => True) ⟨init blank disk, []⟩ events t)
    {dev blockno : Nat} {b : Fin NBUF} (recycled : t.state.Recycles dev blockno b) :
    t.LeastRecent b ↔ ∀ b', (t.state.buf b').refcnt = 0 →
      b' = b ∨ b' ∉ t.history ∧ b ∉ t.history := by
  have recent : Recent t :=
    run.invariant (fun before _ taken => before.step taken) (recent_init blank disk)
  refine forall₂_congr fun b' free => ?_
  have latest := recent.latest recycled.2 b' free
  constructor
  · intro least
    have equal := Nat.le_antisymm least latest
    by_cases member : b' ∈ t.history
    · exact .inl ((List.idxOf_inj member).mp equal)
    · rw [List.idxOf_eq_length_iff.mpr member] at equal
      exact .inr ⟨member, List.idxOf_eq_length_iff.mp equal.symm⟩
  · rintro (rfl | ⟨absent, absent'⟩)
    · exact le_rfl
    · rw [List.idxOf_eq_length_iff.mpr absent, List.idxOf_eq_length_iff.mpr absent']

/-- The buffer that `init` has put into the list last. -/
def lastBuf : Fin NBUF := ⟨29, last_lt_NBUF⟩

theorem recycles_leastRecent_iff_first :
    (init () (fun _ _ => ()) : State Unit Unit).Recycles 1 7 lastBuf ∧
      (⟨init () fun _ _ => (), []⟩ : Traced Unit Unit).LeastRecent lastBuf := by
  have recycled : (init () (fun _ _ => ()) : State Unit Unit).Recycles 1 7 lastBuf := by
    constructor <;> decide +kernel
  exact ⟨recycled, (recycles_leastRecent_iff (.nil _) recycled).mpr fun b' _ => .inr (by simp)⟩

/-- The buffer of a released block is taken at once, though all others have never been used. -/
theorem recycles_latest : ∃ t : Traced Unit Unit,
    Execution.Run Traced.step (fun _ _ => True) ⟨init () fun _ _ => (), []⟩
      [.bget () 1 7, .acquire (), .fill (), .release (), .put ()] t ∧
    t.state.Recycles 1 8 lastBuf ∧ ¬t.LeastRecent lastBuf := by
  obtain ⟨t, run, reached⟩ : ∃ t : Traced Unit Unit,
      Execution.Run Traced.step (fun _ _ => True) ⟨init () fun _ _ => (), []⟩
        [.bget () 1 7, .acquire (), .fill (), .release (), .put ()] t ∧
      decide (t.state.search (fun buf => buf.dev = 1 ∧ buf.blockno = 8) = some none ∧
        t.state.search (fun buf => buf.refcnt = 0) = some (some lastBuf) ∧
        t.history = [lastBuf] ∧ (t.state.buf ⟨0, by decide⟩).refcnt = 0) = true := by
    apply Execution.exists_run_of_exec
    decide +kernel
  obtain ⟨absent, found, history, free⟩ := of_decide_eq_true reached
  refine ⟨t, run, ⟨absent, found⟩, fun least => ?_⟩
  have later := least _ free
  rw [history] at later
  exact absurd later (by decide)

end OsCpp.Buffers
