import OsCpp.Virtio.Completion

/-!
# Waiting for descriptors

A process that finds fewer than three free descriptors sleeps on `&disk.free[0]`, and nobody ever
wakes it: `free_chain` gives descriptors back without a wakeup.
-/

namespace OsCpp.Virtio

open Execution (Run run_of_exec)

/-- Some process waits for descriptors. -/
def Starved (s : State) : Prop := ∃ p b blockno write, s.phase p = .starved b blockno write

/-- The step gives the descriptors of a request back. -/
def GivesBack (s : State) (event : Event) : Bool :=
  match event with
  | .run p =>
    match s.phase p with
    | .woken job => s.handling = false ∧ s.pending job.buf = false
    | _ => false
  | _ => false

/-- No request gives its descriptors back while a process waits for some. -/
def Unwaited (s : State) (event : Event) : Prop := GivesBack s event = true → ¬Starved s

/-- Whoever waits for descriptors finds too few of them. -/
def WaitsForFew (s : State) : Prop := Starved s → s.disk.freeSet.card < 3

variable {s t : State}

theorem starved_of_update {p : Pid} {phase : Phase}
    (changed : t.phase = Function.update s.phase p phase)
    (awake : ∀ b blockno write, phase ≠ .starved b blockno write) (starved : Starved t) :
    Starved s := by
  obtain ⟨q, b, blockno, write, asleep⟩ := starved
  rw [changed] at asleep
  rcases eq_or_ne q p with rfl | different
  · rw [Function.update_self] at asleep
    exact absurd asleep (awake b blockno write)
  · rw [Function.update_of_ne different] at asleep
    exact ⟨q, b, blockno, write, asleep⟩

theorem starved_of_wakeup {b : Buf} (starved : Starved (s.wakeup b)) : Starved s := by
  obtain ⟨q, c, blockno, write, asleep⟩ := starved
  refine ⟨q, c, blockno, write, ?_⟩
  simp only [State.wakeup] at asleep
  split at asleep
  · split at asleep <;> simp at asleep
  · exact asleep

theorem freeSet_takeChain (d : Disk) (chain : Chain) : (d.takeChain chain).freeSet ⊆ d.freeSet := by
  rw [Disk.takeChain, Disk.freeSet_take, Disk.freeSet_take, Disk.freeSet_take]
  exact (Finset.erase_subset _ _).trans ((Finset.erase_subset _ _).trans (Finset.erase_subset _ _))

/-- A process that waits has seen fewer than three free descriptors. -/
theorem waitsForFew_attempt (waits : WaitsForFew s) {p : Pid} {b : Buf} {blockno : UInt32}
    {write : Bool} : WaitsForFew (s.attempt p b blockno write) := by
  rcases Disk.alloc3_desc_cases s.disk with ⟨few, desc, failed, -⟩ | ⟨chain, -, -, found⟩
  · simp only [State.attempt, failed]
    exact fun _ => few
  · simp only [State.attempt, found]
    intro starved
    have before : Starved s := starved_of_update rfl (by simp) starved
    exact lt_of_le_of_lt (Finset.card_le_card (freeSet_takeChain s.disk chain)) (waits before)

/-- The handler frees no descriptor and puts nobody to sleep. -/
theorem waitsForFew_reap (waits : WaitsForFew s) : WaitsForFew s.reap := by
  simp only [State.reap]
  split_ifs
  · exact waits
  · exact waits
  · split
    · exact waits
    · exact fun starved => waits (starved_of_wakeup starved)

theorem waitsForFew_step {event : Event} (owned : Owned s) (waits : WaitsForFew s)
    (unwaited : Unwaited s event) (taken : step s event = some t) : WaitsForFew t := by
  unfold step at taken
  split at taken
  · simp at taken
  cases event with
  | disk_rw p b blockno write =>
    simp only at taken
    split at taken
    · cases taken
      exact fun starved => waits (starved_of_update rfl (by simp) starved)
    · simp at taken
  | run p =>
    simp only at taken
    split at taken
    · simp at taken
    · next free =>
      split at taken
      · cases taken
        exact waitsForFew_attempt waits
      · next job woken =>
        cases taken
        have flying : s.job p = some job := by simp [State.job, woken, Phase.job]
        cases pending : s.pending job.buf with
        | true =>
          simp only [State.finish, pending, if_true]
          exact fun starved => waits (starved_of_update rfl (by simp) starved)
        | false =>
          rw [finish_eq owned flying pending]
          intro starved
          refine absurd (starved_of_update rfl (by simp) starved) (unwaited ?_)
          simp [GivesBack, woken, pending, free]
      · simp at taken
  | virtio_disk_intr =>
    simp only at taken
    split at taken
    · simp at taken
    · cases taken
      exact waits
  | reap =>
    simp only at taken
    split at taken
    · cases taken
      exact waitsForFew_reap waits
    · simp at taken
  | consume =>
    simp only at taken
    split at taken
    · simp at taken
    · cases taken
      exact waits
  | complete k =>
    simp only at taken
    split at taken
    · cases taken
      exact waits
    · simp at taken
  | kill p =>
    cases taken
    refine fun starved => waits (starved_of_update rfl (fun b blockno write => ?_) starved)
    cases s.phase p <;> simp [Phase.wake]

/-- Descriptors that are given back are enough for whoever waits, who sleeps on. -/
theorem starved_of_givesBack {event : Event} (owned : Owned s) (waited : ¬Unwaited s event)
    (taken : step s event = some t) : t.handling = false ∧ Starved t ∧ 3 ≤ t.disk.freeSet.card := by
  obtain ⟨gives, starved⟩ := Classical.not_imp.mp waited
  obtain ⟨q, b, blockno, write, asleep⟩ := Classical.not_not.mp starved
  simp only [GivesBack] at gives
  split at gives
  · next p =>
    split at gives
    · next job woken =>
      obtain ⟨free, pending⟩ := of_decide_eq_true gives
      have flying : s.job p = some job := by simp [State.job, woken, Phase.job]
      unfold step at taken
      split at taken
      · simp at taken
      · simp only [free, Bool.false_eq_true, if_false, woken, finish_eq owned flying pending] at taken
        cases taken
        refine ⟨free, ⟨q, b, blockno, write, ?_⟩, ?_⟩
        · have different : q ≠ p := by
            rintro rfl
            simp [woken] at asleep
          simpa [State.release, Function.update_of_ne different] using asleep
        · have linked := owned.linked p job flying
          have three : job.chain.members.toFinset ⊆ (s.disk.putChain job.chain).freeSet := by
            intro i member
            have member := List.mem_toFinset.mp member
            rw [Disk.mem_freeSet, Disk.free_putChain]
            exact ⟨linked.inside i member, by simp [member]⟩
          have counted := Finset.card_le_card three
          rwa [List.toFinset_card_of_nodup linked.nodup] at counted
    · simp at gives
  · simp at gives

theorem waitsForFew_run {events : List Event} (run : Run step Unwaited init events s) :
    WaitsForFew s := by
  induction run with
  | nil => simp [WaitsForFew, Starved, init]
  | snoc run unwaited taken waits =>
    exact waitsForFew_step (invariants_run run).1 waits unwaited taken

/-- Until a request gives its descriptors back while a process waits for some, nobody waits for
descriptors that are free; then one does. -/
theorem waitsForFew_of_unwaited {events : List Event}
    (run : Run step Unwaited init events s) :
    (s.handling = false → WaitsForFew s) ∧ ∀ {event t}, ¬Unwaited s event →
      step s event = some t → t.handling = false ∧ ¬WaitsForFew t := by
  constructor
  · exact fun _ => waitsForFew_run run
  · intro event t waited taken
    obtain ⟨free, starved, enough⟩ := starved_of_givesBack (invariants_run run).1 waited taken
    exact ⟨free, fun waits => absurd (waits starved) (Nat.not_lt.mpr enough)⟩

/-- Three processes make requests, and the first of them completes. -/
def threeRequests : List Event :=
  [.disk_rw 0 5 100 true, .run 0, .disk_rw 1 6 101 true, .run 1, .disk_rw 2 7 102 true, .run 2,
    .consume, .complete 0, .virtio_disk_intr, .reap, .reap]

theorem waitsForFew_threeRequests :
    ∃ s t, Run step Unwaited init threeRequests s ∧ Starved s ∧ WaitsForFew s ∧
      step s (.run 0) = some t ∧ ¬WaitsForFew t := by
  have unwaited : ∀ {s event}, GivesBack s event = false → Unwaited s event :=
    fun keeps gives => absurd gives (by simp [keeps])
  obtain ⟨s, t, run, free, starved, gives, taken⟩ : ∃ s t,
      Run step (GivesBack · · = false) init threeRequests s ∧ s.handling = false ∧
      s.phase 2 = .starved 7 102 true ∧ GivesBack s (.run 0) = true ∧ step s (.run 0) = some t :=
    ⟨_, _, run_of_exec rfl, rfl, rfl, rfl, rfl⟩
  have asleep : Starved s := ⟨2, 7, 102, true, starved⟩
  have waited : ¬Unwaited s (.run 0) := fun calm => calm gives asleep
  have run := run.mono unwaited
  exact ⟨s, t, run, asleep, (waitsForFew_of_unwaited run).1 free, taken,
    ((waitsForFew_of_unwaited run).2 waited taken).2⟩

/-- The third process sleeps on while five descriptors are free. -/
theorem threeRequests_starve :
    ∃ s, Run step (fun _ _ => True) init (threeRequests ++ [.run 0]) s ∧
      s.handling = false ∧ s.phase 2 = .starved 7 102 true ∧ s.disk.freeSet.card = 5 :=
  ⟨_, run_of_exec rfl, rfl, rfl, by decide⟩

end OsCpp.Virtio
