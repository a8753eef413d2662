import OsCpp.Pipe.Machine

/-!
# Wakeups of a pipe

Whoever changes the ring wakes the processes of the other side before giving up `pi->lock`, except a
writer that is killed between two bytes.
-/

namespace OsCpp.Pipe

open Execution (Run run_of_exec)
open Function (update update_of_ne)

/-- Some process sleeps on a counter. -/
def Asleep (s : State) (chan : Chan) : Prop := ∃ p call, s.phase p = .sleeping chan call

/-- Whoever sleeps has a reason to. -/
structure NoLostWakeup (s : State) : Prop where
  readers : Asleep s .nread → s.nread = s.nwrite ∧ s.writeopen = true
  writers : Asleep s .nwrite → s.nwrite = s.nread + PIPESIZE ∧ s.readopen = true

/-- Whoever sleeps has a reason to, or is owed a wakeup by the holder of the lock. -/
structure Owed (s : State) : Prop where
  readers : Asleep s .nread →
    (s.nread = s.nwrite ∧ s.writeopen = true) ∨ ∃ p n i, s.lock = some (p, .run (.write n i))
  writers : Asleep s .nwrite →
    (s.nwrite = s.nread + PIPESIZE ∧ s.readopen = true) ∨ ∃ p n i, s.lock = some (p, .copy n i)

/-- The next iteration is the early return of `pipewrite`. -/
def ReturnsEarly (s : State) (event : Event) : Bool :=
  match event, s.lock with
  | .advance _ _, some (p, .run (.write n i)) =>
    i < n ∧ (s.readopen = false ∨ s.killed p = true)
  | _, _ => false

/-- `pipewrite` returns early only when that keeps nobody waiting. -/
def ReturnsQuietly (s : State) (event : Event) : Prop :=
  ReturnsEarly s event = true → Asleep s .nread → s.nread = s.nwrite ∧ s.writeopen = true

section

variable {s : State} {p : Pid} {chan : Chan}

/-- Sleepers on a channel that is not woken stay, the others are gone. -/
theorem asleep_wakeup {other : Chan} :
    Asleep (s.wakeup other) chan ↔ Asleep s chan ∧ chan ≠ other := by
  constructor
  · rintro ⟨q, call, asleep⟩
    simp only [State.wakeup] at asleep
    split at asleep
    · next was =>
      split at asleep
      · simp at asleep
      · next different =>
        obtain ⟨rfl, rfl⟩ := Phase.sleeping.inj asleep
        exact ⟨⟨q, _, was⟩, different⟩
    · next other => exact absurd asleep (other _ _)
  · rintro ⟨⟨q, call, asleep⟩, different⟩
    exact ⟨q, call, by simp [State.wakeup, asleep, different]⟩

/-- A process that changes its phase is the only one that can begin to sleep. -/
theorem asleep_update {phase : Phase} {t : State}
    (changed : t.phase = update s.phase p phase) (asleep : Asleep t chan) :
    Asleep s chan ∨ ∃ call, phase = .sleeping chan call := by
  obtain ⟨q, call, asleep⟩ := asleep
  rw [changed] at asleep
  rcases eq_or_ne q p with rfl | different
  · rw [Function.update_self] at asleep
    exact .inr ⟨call, asleep⟩
  · rw [update_of_ne different] at asleep
    exact .inl ⟨q, call, asleep⟩

theorem asleep_of_awake {phase : Phase} {t : State} (changed : t.phase = update s.phase p phase)
    (awake : ∀ chan call, phase ≠ .sleeping chan call) (asleep : Asleep t chan) : Asleep s chan :=
  (asleep_update changed asleep).resolve_right fun ⟨call, same⟩ => awake chan call same

theorem asleep_of_idle {t : State} (changed : t.phase = update s.phase p .idle)
    (asleep : Asleep t chan) : Asleep s chan := asleep_of_awake changed (by simp) asleep

theorem asleep_of_sleep {other : Chan} {call : Call}
    (asleep : Asleep (s.leave p (.sleeping other call)) chan) (different : chan ≠ other) :
    Asleep s chan := by
  refine (asleep_update rfl asleep).resolve_right ?_
  rintro ⟨_, same⟩
  exact different (Phase.sleeping.inj same).1.symm

theorem asleep_of_kill (asleep : Asleep (s.kill p) chan) : Asleep s chan := by
  refine (asleep_update rfl asleep).elim id ?_
  rintro ⟨call, same⟩
  split at same
  · simp at same
  · next other => exact absurd same (other _ _)

end

namespace Owed

variable {s : State} {p : Pid}

theorem of_settled (settled : NoLostWakeup s) : Owed s :=
  ⟨fun asleep => .inl (settled.readers asleep), fun asleep => .inl (settled.writers asleep)⟩

theorem settled (owed : Owed s) (free : s.lock = none) : NoLostWakeup s :=
  ⟨fun asleep => (owed.readers asleep).resolve_right (by simp [free]),
    fun asleep => (owed.writers asleep).resolve_right (by simp [free])⟩

theorem settled_of (owed : Owed s) {task : Task} (held : s.lock = some (p, task))
    (store : ∀ n i, task ≠ .run (.write n i)) (copy : ∀ n i, task ≠ .copy n i) : NoLostWakeup s :=
  ⟨fun asleep => (owed.readers asleep).resolve_right (by simp [held, store]),
    fun asleep => (owed.writers asleep).resolve_right (by simp [held, copy])⟩

theorem writeStep (owed : Owed s) {n i : Nat} (held : s.lock = some (p, .run (.write n i)))
    (byte : Option UInt8)
    (quiet : i < n → s.readopen = false ∨ s.killed p = true → Asleep s .nread →
      s.nread = s.nwrite ∧ s.writeopen = true) : Owed (s.writeStep p n i byte) := by
  have writers : Asleep s .nwrite → s.nwrite = s.nread + PIPESIZE ∧ s.readopen = true :=
    fun asleep => (owed.writers asleep).resolve_right (by simp [held])
  have returned : Owed ((s.wakeup .nread).leave p .idle) := by
    refine of_settled ⟨fun asleep => ?_, fun asleep => ?_⟩
    · exact absurd rfl (asleep_wakeup.mp (asleep_of_idle rfl asleep)).2
    · exact writers (asleep_wakeup.mp (asleep_of_idle rfl asleep)).1
  simp only [State.writeStep]
  split_ifs with more stop full
  · exact of_settled ⟨fun asleep => quiet more stop (asleep_of_idle rfl asleep),
      fun asleep => writers (asleep_of_idle rfl asleep)⟩
  · refine of_settled ⟨fun asleep => ?_, fun _ => ⟨full, ?_⟩⟩
    · exact absurd rfl (asleep_wakeup.mp (asleep_of_sleep asleep nofun)).2
    · exact Bool.eq_true_of_not_eq_false fun closed => stop (.inl closed)
  · cases byte with
    | none => exact returned
    | some ch =>
      -- A writer sleeps only on a full ring, and this one is not.
      exact ⟨fun _ => .inr ⟨p, n, i + 1, rfl⟩, fun asleep => absurd (writers asleep).1 full⟩
  · exact returned

theorem awaitStep (owed : Owed s) {n : Nat} (held : s.lock = some (p, .run (.await n))) :
    Owed (s.awaitStep p n) := by
  obtain ⟨readers, writers⟩ := owed.settled_of held nofun nofun
  simp only [State.awaitStep]
  split_ifs with waits gone
  · exact of_settled ⟨fun asleep => readers (asleep_of_idle rfl asleep),
      fun asleep => writers (asleep_of_idle rfl asleep)⟩
  · exact of_settled ⟨fun _ => waits, fun asleep => writers (asleep_of_sleep asleep nofun)⟩
  · exact ⟨fun asleep => absurd (readers asleep) waits, fun _ => .inr ⟨p, n, 0, rfl⟩⟩

theorem returnRead {i : Nat}
    (readers : Asleep s .nread → s.nread = s.nwrite ∧ s.writeopen = true) :
    Owed (s.returnRead p i) := by
  refine of_settled ⟨fun asleep => ?_, fun asleep => ?_⟩
  · exact readers (asleep_wakeup.mp (asleep_of_idle rfl asleep)).1
  · exact absurd rfl (asleep_wakeup.mp (asleep_of_idle rfl asleep)).2

theorem copyStep (owed : Owed s) {n i : Nat} (held : s.lock = some (p, .copy n i))
    (copied : Bool) : Owed (s.copyStep p n i copied) := by
  have readers : Asleep s .nread → s.nread = s.nwrite ∧ s.writeopen = true :=
    fun asleep => (owed.readers asleep).resolve_right (by simp [held])
  simp only [State.copyStep]
  split_ifs with going success
  · -- A reader sleeps only on an empty ring, and this one is not.
    exact ⟨fun asleep => absurd (readers asleep).1 going.2, fun _ => .inr ⟨p, n, i + 1, rfl⟩⟩
  · exact returnRead fun asleep => absurd (readers asleep).1 going.2
  · exact returnRead readers

theorem closeStep (owed : Owed s) {writable : Bool}
    (held : s.lock = some (p, .run (.close writable))) : Owed (s.closeStep p writable) := by
  obtain ⟨readers, writers⟩ := owed.settled_of held nofun nofun
  cases writable with
  | true =>
    refine of_settled ⟨fun asleep => ?_, fun asleep => ?_⟩
    · exact absurd rfl (asleep_wakeup.mp (asleep_of_idle rfl asleep)).2
    · exact writers (asleep_wakeup.mp (asleep_of_idle rfl asleep)).1
  | false =>
    refine of_settled ⟨fun asleep => ?_, fun asleep => ?_⟩
    · exact readers (asleep_wakeup.mp (asleep_of_idle rfl asleep)).1
    · exact absurd rfl (asleep_wakeup.mp (asleep_of_idle rfl asleep)).2

end Owed

theorem owed_step {s t : State} {event : Event} (owed : Owed s) (quiet : ReturnsQuietly s event)
    (taken : step s event = some t) : Owed t := by
  rcases step_cases taken with
    ⟨p, call, -, moved⟩ | ⟨p, call, free, -, moved⟩ | ⟨byte, copied, p, task, rfl, held, rfl⟩ |
    ⟨p, rfl⟩
  · have phase : t.phase = update s.phase p (.entering call) := by rw [moved]
    have before {chan : Chan} (asleep : Asleep t chan) : Asleep s chan :=
      asleep_of_awake phase (by simp) asleep
    subst moved
    exact ⟨fun asleep => owed.readers (before asleep), fun asleep => owed.writers (before asleep)⟩
  · have phase : t.phase = update s.phase p .inside := by rw [moved]
    have before {chan : Chan} (asleep : Asleep t chan) : Asleep s chan :=
      asleep_of_awake phase (by simp) asleep
    subst moved
    have settled := owed.settled free
    exact .of_settled ⟨fun asleep => settled.readers (before asleep),
      fun asleep => settled.writers (before asleep)⟩
  · cases task with
    | run call =>
      cases call with
      | write n i =>
        exact owed.writeStep held byte fun more stop => quiet (by simp [ReturnsEarly, held, more, stop])
      | await n => exact owed.awaitStep held
      | close writable => exact owed.closeStep held
    | copy n i => exact owed.copyStep held copied
  · exact ⟨fun asleep => owed.readers (asleep_of_kill asleep),
      fun asleep => owed.writers (asleep_of_kill asleep)⟩

/-- The holder of the lock is awake. -/
def HolderInside (s : State) : Prop := ∀ p task, s.lock = some (p, task) → s.phase p = .inside

theorem HolderInside.of_free {s : State} (free : s.lock = none) : HolderInside s := by
  simp [HolderInside, free]

theorem holderInside_advance {s : State} (inside : HolderInside s) (byte : Option UInt8)
    (copied : Bool) {p : Pid} {task : Task} (held : s.lock = some (p, task)) :
    HolderInside (s.advance byte copied p task) := by
  -- An iteration keeps the lock without changing a phase, or gives the lock up.
  have keep : ∀ {t : State} {next : Task}, t.lock = some (p, next) → t.phase = s.phase →
      HolderInside t := by
    intro t next lock phase q task' held'
    obtain rfl : p = q := by
      rw [lock] at held'
      exact (Prod.ext_iff.mp (Option.some.inj held')).1
    rw [phase]
    exact inside p task held
  cases task with
  | run call =>
    cases call with
    | write n i =>
      simp only [State.advance, State.writeStep]
      split_ifs
      · exact .of_free rfl
      · exact .of_free rfl
      · cases byte with
        | none => exact .of_free rfl
        | some ch => exact keep rfl rfl
      · exact .of_free rfl
    | await n =>
      simp only [State.advance, State.awaitStep]
      split_ifs
      · exact .of_free rfl
      · exact .of_free rfl
      · exact keep rfl rfl
    | close writable => cases writable <;> exact .of_free rfl
  | copy n i =>
    simp only [State.advance, State.copyStep]
    split_ifs
    · exact keep rfl rfl
    · exact .of_free rfl
    · exact .of_free rfl

theorem holderInside_step {s t : State} {event : Event} (inside : HolderInside s)
    (taken : step s event = some t) : HolderInside t := by
  rcases step_cases taken with
    ⟨p, call, idle, rfl⟩ | ⟨p, call, -, -, rfl⟩ | ⟨byte, copied, p, task, rfl, held, rfl⟩ | ⟨p, rfl⟩
  · intro q task held
    have there := inside q task held
    have different : q ≠ p := by
      rintro rfl
      simp [idle] at there
    simpa [update_of_ne different] using there
  · intro q task held
    obtain ⟨rfl, -⟩ : p = q ∧ .run call = task := by simpa using held
    simp
  · exact holderInside_advance inside byte copied held
  · intro q task held
    have there := inside q task held
    rcases eq_or_ne q p with rfl | different
    · simp [State.kill, there]
    · simpa [State.kill, update_of_ne different] using there

/-- An early return that is not quiet leaves a reader asleep. -/
theorem lost_of_not_quiet {s t : State} {event : Event} (inside : HolderInside s)
    (loud : ¬ReturnsQuietly s event) (taken : step s event = some t) :
    t.lock = none ∧ ¬NoLostWakeup t := by
  simp only [ReturnsQuietly, Classical.not_imp] at loud
  obtain ⟨early, ⟨q, call, asleep⟩, loud⟩ := loud
  simp only [ReturnsEarly] at early
  split at early
  · next byte copied p n i held =>
    obtain ⟨more, stop⟩ := of_decide_eq_true early
    obtain rfl := step_advance held taken
    have returned : s.advance byte copied p (.run (.write n i)) = s.leave p .idle := by
      simp only [State.advance, State.writeStep, if_pos more, if_pos stop]
    have different : q ≠ p := by
      rintro rfl
      simp [inside q _ held] at asleep
    rw [returned]
    refine ⟨rfl, fun settled => loud (settled.readers ⟨q, call, ?_⟩)⟩
    simpa [State.leave, update_of_ne different] using asleep
  · simp at early

/-- As long as early returns of `pipewrite` keep nobody waiting, no process sleeps without a reason
while the lock is free; the first other one leaves one asleep. -/
theorem noLostWakeup_of_returnsQuietly {events : List Event} {s : State}
    (run : Run step ReturnsQuietly pipealloc events s) :
    (s.lock = none → NoLostWakeup s) ∧ ∀ {event t}, ¬ReturnsQuietly s event →
      step s event = some t → t.lock = none ∧ ¬NoLostWakeup t := by
  refine ⟨fun free => ?_, fun loud taken => ?_⟩
  · have initially : Owed pipealloc := .of_settled ⟨by simp [Asleep, pipealloc], by simp [Asleep, pipealloc]⟩
    exact (run.invariant owed_step initially).settled free
  · have initially : HolderInside pipealloc := .of_free rfl
    exact lost_of_not_quiet (run.invariant (fun inside _ => holderInside_step inside) initially)
      loud taken

/-- A reader sleeps on the empty pipe, a writer puts a byte into it and is then killed. -/
def killedWriter : List Event :=
  [.piperead 1 1, .acquire 1, .advance none true, .pipewrite 0 2, .acquire 0,
    .advance (some 7) true, .kill 0]

theorem noLostWakeup_killedWriter :
    (∃ s, Run step ReturnsQuietly pipealloc (killedWriter.take 3) s ∧ s.lock = none ∧
        s.phase 1 = .sleeping .nread (.await 1) ∧ NoLostWakeup s) ∧
      ∃ s t, Run step ReturnsQuietly pipealloc killedWriter s ∧
        step s (.advance none true) = some t ∧ t.lock = none ∧ ¬NoLostWakeup t := by
  have quiet : ∀ {s event}, ReturnsEarly s event = false → ReturnsQuietly s event :=
    fun late early => absurd early (by simp [late])
  constructor
  · obtain ⟨s, run, free, asleep⟩ : ∃ s, Run step (ReturnsEarly · · = false) pipealloc
        (killedWriter.take 3) s ∧ s.lock = none ∧ s.phase 1 = .sleeping .nread (.await 1) :=
      ⟨_, run_of_exec rfl, rfl, rfl⟩
    exact ⟨s, run.mono quiet, free, asleep, (noLostWakeup_of_returnsQuietly (run.mono quiet)).1 free⟩
  · obtain ⟨s, t, run, taken, early, asleep, filled⟩ : ∃ s t,
        Run step (ReturnsEarly · · = false) pipealloc killedWriter s ∧
        step s (.advance none true) = some t ∧ ReturnsEarly s (.advance none true) = true ∧
        s.phase 1 = .sleeping .nread (.await 1) ∧ s.nread ≠ s.nwrite :=
      ⟨_, _, run_of_exec rfl, rfl, rfl, rfl, by decide⟩
    have loud : ¬ReturnsQuietly s (.advance none true) :=
      fun calm => filled (calm early ⟨1, _, asleep⟩).1
    exact ⟨s, t, run.mono quiet, taken,
      (noLostWakeup_of_returnsQuietly (run.mono quiet)).2 loud taken⟩

/-- The byte stays in the ring, and the reader stays asleep. -/
theorem killedWriter_loses_wakeup :
    ∃ s, Run step (fun _ _ => True) pipealloc (killedWriter ++ [.advance none true]) s ∧
      s.lock = none ∧ s.phase 1 = .sleeping .nread (.await 1) ∧ s.nread ≠ s.nwrite := by
  exact ⟨_, run_of_exec rfl, rfl, rfl, by decide⟩

end OsCpp.Pipe
