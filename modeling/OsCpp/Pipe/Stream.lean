import OsCpp.Pipe.Machine
import OsCpp.Lib.Ring

/-!
# The byte stream of a pipe

What is taken out of the ring is a prefix of what was put in.  `piperead` hands a byte to its caller
only afterwards: where `copyout` fails, the byte is gone.
-/

namespace OsCpp.Pipe

open Execution (Run run_of_exec)

namespace State

/-- Number of bytes in the ring. -/
def used (s : State) : Nat := (s.nwrite - s.nread).toNat

/-- Bytes in the ring, oldest first. -/
def pending (s : State) : List UInt8 := Ring.window s.data PIPESIZE.toNat s.nread.toNat s.used

/-- Bytes that have been stored in the memory of some reader. -/
def delivered (s : State) : List UInt8 := s.results.flatMap Prod.snd ++ s.stored

end State

/-- The pipe delivers what it takes from the ring, in order, and counts it. -/
structure Streams (s : State) : Prop where
  bounded : s.used ≤ PIPESIZE.toNat
  ordered : s.removed <+: s.accepted
  delivered : s.removed = s.delivered
  /-- A call of `piperead` returns the number of bytes it has stored. -/
  counted : ∀ result ∈ s.results, result.1 = result.2.length
  /-- The running call has counted what it has stored. -/
  counting : ∀ p n i, s.lock = some (p, .copy n i) → i = s.stored.length

/-- The ring holds exactly the bytes that were accepted and not removed. -/
structure Buffered (s : State) : Prop where
  bounded : s.used ≤ PIPESIZE.toNat
  held : s.accepted = s.removed ++ s.pending

/-- What is stored is what is removed, and the calls count it. -/
structure Counted (s : State) : Prop where
  delivered : s.removed = s.delivered
  counted : ∀ result ∈ s.results, result.1 = result.2.length
  counting : ∀ p n i, s.lock = some (p, .copy n i) → i = s.stored.length
  /-- Only a copy loop has stored bytes without having returned. -/
  settled : (∀ p n i, s.lock ≠ some (p, .copy n i)) → s.stored = []

/-- The step takes a byte from the ring and calls `copyout` for it. -/
def Copies (s : State) : Bool :=
  match s.lock with
  | some (_, .copy n i) => i < n ∧ s.nread ≠ s.nwrite
  | _ => false

/-- `copyout` succeeds whenever the step calls it. -/
def CopyoutSucceeds (s : State) (event : Event) : Prop :=
  match event with
  | .advance _ copied => Copies s = true → copied = true
  | _ => True

instance (s : State) (event : Event) : Decidable (CopyoutSucceeds s event) :=
  match event with
  | .advance _ copied => inferInstanceAs (Decidable (Copies s = true → copied = true))
  | .pipewrite .. | .piperead .. | .pipeclose .. | .acquire .. | .kill .. => isTrue trivial

theorem copies_iff {s : State} :
    Copies s = true ↔ ∃ p n i, s.lock = some (p, .copy n i) ∧ i < n ∧ s.nread ≠ s.nwrite := by
  simp only [Copies]
  split
  · next p n i held => simp [held]
  · next other => exact iff_of_false (by simp) fun ⟨p, n, i, held, _⟩ => other p n i held

theorem Streams.of_parts {s : State} (ring : Buffered s) (counts : Counted s) : Streams s where
  bounded := ring.bounded
  ordered := ring.held ▸ List.prefix_append _ _
  delivered := counts.delivered
  counted := counts.counted
  counting := counts.counting

theorem Buffered.of_same {s t : State} (ring : Buffered s) (data : t.data = s.data)
    (nread : t.nread = s.nread) (nwrite : t.nwrite = s.nwrite) (accepted : t.accepted = s.accepted)
    (removed : t.removed = s.removed) : Buffered t := by
  constructor
  · simpa only [State.used, nread, nwrite] using ring.bounded
  · simpa only [State.pending, State.used, data, nread, nwrite, accepted, removed] using ring.held

theorem PIPESIZE_toNat : PIPESIZE.toNat = 512 := rfl

theorem used_eq (s : State) : s.used = Ring.distance (2 ^ 32) s.nread.toNat s.nwrite.toNat := by
  rw [State.used, UInt32.toNat_sub, Ring.distance, add_comm]

theorem pending_eq (s : State) :
    s.pending = Ring.contents s.data PIPESIZE.toNat (2 ^ 32) s.nread.toNat s.nwrite.toNat := by
  rw [State.pending, used_eq, Ring.contents]

theorem length_pending (s : State) : s.pending.length = s.used := Ring.length_window ..

theorem full_iff (s : State) : s.nwrite = s.nread + PIPESIZE ↔ s.used = PIPESIZE.toNat := by
  rw [← UInt32.toNat_inj, UInt32.toNat_add, used_eq, Ring.distance, PIPESIZE_toNat]
  have := s.nread.toNat_lt
  have := s.nwrite.toNat_lt
  omega

theorem Buffered.accept {s t : State} (ring : Buffered s) (room : s.nwrite ≠ s.nread + PIPESIZE)
    (ch : UInt8) (data : t.data = Function.update s.data (s.nwrite % PIPESIZE).toNat ch)
    (nread : t.nread = s.nread) (nwrite : t.nwrite = s.nwrite + 1)
    (accepted : t.accepted = s.accepted ++ [ch]) (removed : t.removed = s.removed) :
    Buffered t := by
  have few : s.used < PIPESIZE.toNat := lt_of_le_of_ne ring.bounded (mt (full_iff s).mpr room)
  have stored : t.pending = s.pending ++ [ch] := by
    rw [pending_eq, pending_eq, data, nread, nwrite, UInt32.toNat_mod, UInt32.toNat_add]
    refine Ring.contents_store (by decide) (by decide) s.nread.toNat_lt s.data ch ?_
    rwa [← pending_eq, length_pending]
  constructor
  · rw [← length_pending, stored, List.length_append, length_pending]
    exact few
  · rw [accepted, removed, ring.held, stored, List.append_assoc]

theorem Buffered.remove {s t : State} (ring : Buffered s) (some_left : s.nread ≠ s.nwrite)
    (data : t.data = s.data) (nread : t.nread = s.nread + 1) (nwrite : t.nwrite = s.nwrite)
    (accepted : t.accepted = s.accepted)
    (removed : t.removed = s.removed ++ [s.data (s.nread % PIPESIZE).toNat]) : Buffered t := by
  have taken : s.pending = s.data (s.nread % PIPESIZE).toNat :: t.pending := by
    rw [pending_eq, pending_eq, data, nread, nwrite, UInt32.toNat_mod, UInt32.toNat_add]
    exact Ring.contents_take (by decide) s.nread.toNat_lt s.nwrite.toNat_lt s.data
      (mt UInt32.toNat_inj.mp some_left)
  constructor
  · have shorter := congrArg List.length taken
    rw [List.length_cons, length_pending, length_pending] at shorter
    have := ring.bounded
    omega
  · rw [accepted, removed, ring.held, taken, List.append_assoc]
    rfl

/-- One iteration of a call keeps the ring. -/
theorem Buffered.advance {s : State} (ring : Buffered s) (byte : Option UInt8) (copied : Bool)
    (p : Pid) (task : Task) : Buffered (s.advance byte copied p task) := by
  have same : ∀ {t : State}, t.data = s.data → t.nread = s.nread → t.nwrite = s.nwrite →
      t.accepted = s.accepted → t.removed = s.removed → Buffered t := ring.of_same
  cases task with
  | run call =>
    cases call with
    | write n i =>
      simp only [State.advance, State.writeStep]
      split_ifs with more stop full
      · exact same rfl rfl rfl rfl rfl
      · exact same rfl rfl rfl rfl rfl
      · cases byte with
        | none => exact same rfl rfl rfl rfl rfl
        | some ch => exact ring.accept full ch rfl rfl rfl rfl rfl
      · exact same rfl rfl rfl rfl rfl
    | await n =>
      simp only [State.advance, State.awaitStep]
      split_ifs <;> exact same rfl rfl rfl rfl rfl
    | close writable => cases writable <;> exact same rfl rfl rfl rfl rfl
  | copy n i =>
    simp only [State.advance, State.copyStep]
    split_ifs with going success
    · exact ring.remove going.2 rfl rfl rfl rfl rfl
    · exact ring.remove going.2 rfl rfl rfl rfl rfl
    · exact same rfl rfl rfl rfl rfl

theorem Counted.of_same {s t : State} (counts : Counted s)
    (before : ∀ p n i, s.lock ≠ some (p, .copy n i)) (after : ∀ p n i, t.lock ≠ some (p, .copy n i))
    (removed : t.removed = s.removed) (stored : t.stored = s.stored)
    (results : t.results = s.results) : Counted t where
  delivered := by
    simpa only [State.delivered, removed, stored, results] using counts.delivered
  counted := by simpa only [results] using counts.counted
  counting := fun p n i held => absurd held (after p n i)
  settled := fun _ => stored ▸ counts.settled before

theorem Counted.of_lock {s t : State} (counts : Counted s) (lock : t.lock = s.lock)
    (removed : t.removed = s.removed) (stored : t.stored = s.stored)
    (results : t.results = s.results) : Counted t where
  delivered := by
    simpa only [State.delivered, removed, stored, results] using counts.delivered
  counted := by simpa only [results] using counts.counted
  counting := by simpa only [lock, stored] using counts.counting
  settled := by simpa only [lock, stored] using counts.settled

/-- `piperead` returns the number of bytes it has stored. -/
theorem Counted.returnRead {s : State} (counts : Counted s) {p : Pid} {n i : Nat}
    (held : s.lock = some (p, .copy n i)) : Counted (s.returnRead p i) where
  delivered := by
    simpa [State.delivered, State.returnRead, State.leave, State.wakeup] using counts.delivered
  counted := by
    intro result among
    rcases List.mem_append.mp among with earlier | new
    · exact counts.counted result earlier
    · obtain rfl := List.mem_singleton.mp new
      exact counts.counting p n i held
  counting := fun _ _ _ held' => by
    simp [State.returnRead, State.leave] at held'
  settled := fun _ => rfl

/-- One iteration of a call keeps the counts, unless its `copyout` fails. -/
theorem Counted.advance {s : State} (counts : Counted s) {byte : Option UInt8} {copied : Bool}
    (success : CopyoutSucceeds s (.advance byte copied)) {p : Pid} {task : Task}
    (held : s.lock = some (p, task)) : Counted (s.advance byte copied p task) := by
  cases task with
  | run call =>
    have before : ∀ q n i, s.lock ≠ some (q, .copy n i) := by simp [held]
    cases call with
    | write n i =>
      simp only [State.advance, State.writeStep]
      split_ifs with more stop full
      · exact counts.of_same before (fun _ _ _ => nofun) rfl rfl rfl
      · exact counts.of_same before (fun _ _ _ => nofun) rfl rfl rfl
      · cases byte with
        | none => exact counts.of_same before (fun _ _ _ => nofun) rfl rfl rfl
        | some ch => exact counts.of_same before (by simp) rfl rfl rfl
      · exact counts.of_same before (fun _ _ _ => nofun) rfl rfl rfl
    | await n =>
      simp only [State.advance, State.awaitStep]
      split_ifs with waits gone
      · exact counts.of_same before (fun _ _ _ => nofun) rfl rfl rfl
      · exact counts.of_same before (fun _ _ _ => nofun) rfl rfl rfl
      · -- The copying loop begins with nothing stored.
        have nothing := counts.settled before
        refine ⟨counts.delivered, counts.counted, ?_, fun _ => nothing⟩
        rintro q m j begun
        obtain ⟨rfl, rfl, rfl⟩ : p = q ∧ n = m ∧ 0 = j := by simpa using begun
        simp [nothing]
    | close writable =>
      cases writable with
      | true => exact counts.of_same before (fun _ _ _ => nofun) rfl rfl rfl
      | false => exact counts.of_same before (fun _ _ _ => nofun) rfl rfl rfl
  | copy n i =>
    simp only [State.advance, State.copyStep]
    split
    · next going =>
      obtain rfl : copied = true := success (copies_iff.mpr ⟨p, n, i, held, going⟩)
      rw [if_pos rfl]
      refine ⟨?_, counts.counted, ?_, fun other => absurd rfl (other p n (i + 1))⟩
      · simp only [State.delivered, ← List.append_assoc]
        rw [counts.delivered]
        rfl
      · rintro q m j begun
        obtain ⟨rfl, rfl, rfl⟩ : p = q ∧ n = m ∧ i + 1 = j := by simpa using begun
        simpa using counts.counting p n i held
    · exact counts.returnRead held

theorem buffered_step {s t : State} {event : Event} (ring : Buffered s)
    (taken : step s event = some t) : Buffered t := by
  rcases step_cases taken with
    ⟨p, call, -, rfl⟩ | ⟨p, call, -, -, rfl⟩ | ⟨byte, copied, p, task, -, -, rfl⟩ | ⟨p, rfl⟩
  · exact ring.of_same rfl rfl rfl rfl rfl
  · exact ring.of_same rfl rfl rfl rfl rfl
  · exact ring.advance byte copied p task
  · exact ring.of_same rfl rfl rfl rfl rfl

theorem counted_step {s t : State} {event : Event} (counts : Counted s)
    (success : CopyoutSucceeds s event) (taken : step s event = some t) : Counted t := by
  rcases step_cases taken with
    ⟨p, call, -, rfl⟩ | ⟨p, call, free, -, rfl⟩ | ⟨byte, copied, p, task, rfl, held, rfl⟩ | ⟨p, rfl⟩
  · exact counts.of_lock rfl rfl rfl rfl
  · exact counts.of_same (by simp [free]) (by simp) rfl rfl rfl
  · exact counts.advance success held
  · exact counts.of_lock rfl rfl rfl rfl

theorem buffered_pipealloc : Buffered pipealloc := ⟨by decide, by simp [pipealloc]; decide⟩

theorem counted_pipealloc : Counted pipealloc :=
  ⟨rfl, by simp [pipealloc], by simp [pipealloc], fun _ => rfl⟩

/-- A failed `copyout` loses the byte it was to store. -/
theorem removed_ne_delivered {s t : State} {event : Event} (counts : Counted s)
    (failure : ¬CopyoutSucceeds s event) (taken : step s event = some t) :
    t.removed ≠ t.delivered := by
  cases event with
  | advance byte copied =>
    obtain ⟨copies, failed⟩ := Classical.not_imp.mp failure
    obtain ⟨p, n, i, held, going⟩ := copies_iff.mp copies
    obtain rfl := step_advance held taken
    have balanced : s.removed.length = s.delivered.length := by rw [counts.delivered]
    intro same
    have lengths := congrArg List.length same
    simp only [State.advance, State.copyStep, if_pos going, if_neg failed,
      State.returnRead, State.leave, State.wakeup, State.delivered, List.flatMap_append,
      List.flatMap_cons, List.flatMap_nil, List.append_nil, List.length_append,
      List.length_singleton] at lengths balanced
    omega
  | _ => exact absurd trivial failure

/-- The pipe delivers what it takes from the ring until a `copyout` fails, which loses a byte. -/
theorem streams_of_copyout_succeeds {events : List Event} {s : State}
    (run : Run step CopyoutSucceeds pipealloc events s) :
    Streams s ∧ ∀ {event t}, ¬CopyoutSucceeds s event → step s event = some t → ¬Streams t := by
  have counted : Counted s := run.invariant counted_step counted_pipealloc
  refine ⟨?_, fun failure taken streams => ?_⟩
  · exact .of_parts (run.invariant (fun ring _ => buffered_step ring) buffered_pipealloc) counted
  · exact removed_ne_delivered counted failure taken streams.delivered

/-- One process writes a byte and another reads it, up to the `copyout`. -/
def exchange : List Event :=
  [.pipewrite 0 1, .acquire 0, .advance (some 7) true, .advance none true,
    .piperead 1 1, .acquire 1, .advance none true]

theorem streams_exchange :
    (∃ s, Run step CopyoutSucceeds pipealloc (exchange ++ [.advance none true]) s ∧
        s.delivered = [7] ∧ Streams s) ∧
      ∃ s t, Run step CopyoutSucceeds pipealloc exchange s ∧
        step s (.advance none false) = some t ∧ ¬Streams t := by
  constructor
  · obtain ⟨s, run, stored⟩ : ∃ s, Run step CopyoutSucceeds pipealloc
        (exchange ++ [.advance none true]) s ∧ s.delivered = [7] :=
      ⟨_, run_of_exec rfl, rfl⟩
    exact ⟨s, run, stored, (streams_of_copyout_succeeds run).1⟩
  · obtain ⟨s, t, run, copies, taken⟩ : ∃ s t, Run step CopyoutSucceeds pipealloc
        exchange s ∧ Copies s = true ∧ step s (.advance none false) = some t :=
      ⟨_, _, run_of_exec rfl, rfl, rfl⟩
    have failure : ¬CopyoutSucceeds s (.advance none false) := fun success => nomatch success copies
    exact ⟨s, t, run, taken, (streams_of_copyout_succeeds run).2 failure taken⟩

/-- The byte is neither in the ring nor in the reader's memory. -/
theorem exchange_loses_byte :
    ∃ s, Run step (fun _ _ => True) pipealloc (exchange ++ [.advance none false]) s ∧
      s.accepted = [7] ∧ s.removed = [7] ∧ s.pending = [] ∧ s.delivered = [] ∧
      s.results = [(0, [])] ∧ ¬Streams s := by
  refine ⟨_, run_of_exec rfl, rfl, rfl, rfl, rfl, rfl, fun streams => ?_⟩
  exact absurd streams.delivered (by decide)

end OsCpp.Pipe
