import OsCpp.Proc.Placement

/-!
# Parents and children

`exit` and `wait` meet under `wait_lock`.
-/

namespace OsCpp.Proc

open State (advance unlock)

variable {Cpu : Type}

/-- Statuses of a process that will run again. -/
def Live (status : Status) : Prop := status = .RUNNABLE ∨ status = .RUNNING ∨ status = .SLEEPING

instance (status : Status) : Decidable (Live status) := by
  unfold Live
  infer_instance

/-- The process sleeps in `wait`. -/
def Dozes (procs : Slot → Process Cpu) (p : Slot) : Prop :=
  (procs p).status = .SLEEPING ∧ (procs p).chan = some (.proc p)

/-- Points at which `wait_lock` is held. -/
def Point.guarded : Point → Bool
  | .reparenting .. | .rousing .. | .dying _ | .scanning .. | .checking | .dozing => true
  | _ => false

/-- Is the process in `wakeup`? -/
def Point.rouses : Point → Bool
  | .rousing .. => true
  | _ => false

/-- What `exit`, `wait` and `fork` know at a point. -/
def Stage (procs : Slot → Process Cpu) (p : Slot) : Point → Prop
  | .copying np => (procs np).parent = none
  | .publishing np => (procs np).parent ≠ none
  | .closing .. | .leaving _ => p ≠ init_proc
  | .reparenting _ todo | .rousing _ _ (.reparenting _ todo) =>
    p ≠ init_proc ∧ ∀ q, (procs q).parent = some p → q ∈ todo
  | .rousing chan todo (.dying _) =>
    p ≠ init_proc ∧ (∀ q, (procs q).parent ≠ some p) ∧ chan = (procs p).parent.map .proc ∧
      ∀ r, (procs p).parent = some r → r ∉ todo → ¬Dozes procs r
  | .rousing .. => False
  | .dying _ =>
    p ≠ init_proc ∧ (∀ q, (procs q).parent ≠ some p) ∧
      ∀ r, (procs p).parent = some r → ¬Dozes procs r
  | .scanning _ todo => ∀ q, (procs q).parent = some p → q ∉ todo → (procs q).status ≠ .ZOMBIE
  | .checking | .dozing => ∀ q, (procs q).parent = some p → (procs q).status ≠ .ZOMBIE
  | _ => True

/-- The number and the status of a process that has exited and has not been waited for. -/
def pending (q : Slot) : List Note → Option (Nat × Int)
  | [] => none
  | .died p pid xstate :: history => if p = q then some (pid, xstate) else pending q history
  | .reaped p _ _ _ _ :: history => if p = q then none else pending q history

/-- Every `wait` returns a process that has exited and no other `wait` has returned, to its parent.
-/
def Exact : List Note → Prop
  | [] => True
  | .died p _ _ :: history => pending p history = none ∧ Exact history
  | .reaped p pid xstate waiter parent :: history =>
    pending p history = some (pid, xstate) ∧ parent = some waiter ∧ Exact history

/-- `wait_lock` is held by the processor that runs a process. -/
def Locked (s : State Cpu) (p : Slot) : Prop := ∃ c, s.mode c = .run p ∧ s.wait_lock = some c

/-- What holds of parents and children at all times. -/
structure Family (s : State Cpu) : Prop where
  held : ∀ p, (s.proc_list p).thread.point.guarded = true →
    (s.proc_list p).thread = .code (s.proc_list p).thread.point ∧ Locked s p
  stage : ∀ p, Stage s.proc_list p (s.proc_list p).thread.point
  parent : ∀ q r, (s.proc_list q).parent = some r → Live (s.proc_list r).status
  orphan : ∀ q ≠ init_proc, Live (s.proc_list q).status ∨ (s.proc_list q).status = .ZOMBIE →
    (s.proc_list q).parent ≠ none
  unused : ∀ q, (s.proc_list q).status = .UNUSED → (s.proc_list q).parent = none
  first : Live (s.proc_list init_proc).status
  missed : ∀ p q, Dozes s.proc_list p → (s.proc_list q).parent = some p →
    (s.proc_list q).status = .ZOMBIE →
    ∃ w todo next, (s.proc_list w).thread = .code (.rousing (some (.proc p)) todo next) ∧ p ∈ todo
  record : ∀ q, pending q s.history =
    if (s.proc_list q).status = .ZOMBIE then some ((s.proc_list q).pid, (s.proc_list q).xstate)
    else none
  exact : Exact s.history

/-- A step after which parents, sleepers in `wait` and zombies are as before. -/
structure Calm (s t : State Cpu) : Prop where
  parent : ∀ q, (t.proc_list q).parent = (s.proc_list q).parent
  dozes : ∀ q, Dozes t.proc_list q → Dozes s.proc_list q
  zombie : ∀ q, (t.proc_list q).status = .ZOMBIE ↔ (s.proc_list q).status = .ZOMBIE
  live : ∀ q, Live (s.proc_list q).status → Live (t.proc_list q).status
  born : ∀ q ≠ init_proc, Live (t.proc_list q).status →
    Live (s.proc_list q).status ∨ (s.proc_list q).parent ≠ none
  unused : ∀ q, (t.proc_list q).status = .UNUSED →
    (s.proc_list q).status = .UNUSED ∨ (s.proc_list q).parent = none
  note : ∀ q, (s.proc_list q).status = .ZOMBIE →
    (t.proc_list q).pid = (s.proc_list q).pid ∧ (t.proc_list q).xstate = (s.proc_list q).xstate
  history : t.history = s.history

/-- What a calm change of one entry does. -/
structure Mild (q : Slot) (x y : Process Cpu) : Prop where
  parent : y.parent = x.parent
  dozes : y.status = .SLEEPING → y.chan = some (.proc q) → x.status = .SLEEPING ∧ x.chan = some (.proc q)
  zombie : y.status = .ZOMBIE ↔ x.status = .ZOMBIE
  live : Live x.status → Live y.status
  born : q ≠ init_proc → Live y.status → Live x.status ∨ x.parent ≠ none
  unused : y.status = .UNUSED → x.status = .UNUSED ∨ x.parent = none
  note : x.status = .ZOMBIE → y.pid = x.pid ∧ y.xstate = x.xstate

namespace Mild

variable {q : Slot} {x y : Process Cpu}

theorem refl (q : Slot) (x : Process Cpu) : Mild q x x :=
  ⟨rfl, fun asleep chan => ⟨asleep, chan⟩, .rfl, id, fun _ => .inl, .inl, fun _ => ⟨rfl, rfl⟩⟩

theorem of_status (parent : y.parent = x.parent) (status : y.status = x.status)
    (chan : y.status = .SLEEPING → y.chan = some (.proc q) → x.chan = some (.proc q))
    (note : x.status = .ZOMBIE → y.pid = x.pid ∧ y.xstate = x.xstate) : Mild q x y :=
  ⟨parent, fun asleep on => ⟨status ▸ asleep, chan asleep on⟩, by rw [status], fun live => status ▸ live,
    fun _ live => .inl (status ▸ live), fun unused => .inl (status ▸ unused), note⟩

/-- A process that will run again goes on doing so. -/
theorem of_live (parent : y.parent = x.parent) (before : Live x.status) (after : Live y.status)
    (dozes : y.status = .SLEEPING → y.chan = some (.proc q) →
      x.status = .SLEEPING ∧ x.chan = some (.proc q)) : Mild q x y := by
  refine ⟨parent, dozes, ?_, fun _ => after, fun _ _ => .inl before, fun unused => ?_, fun zombie => ?_⟩
  · constructor <;> intro zombie
    · rw [zombie] at after
      simp [Live] at after
    · rw [zombie] at before
      simp [Live] at before
  · rw [unused] at after
    simp [Live] at after
  · rw [zombie] at before
    simp [Live] at before

/-- An entry that is not a process yet does not become one. -/
theorem of_unready (parent : y.parent = x.parent) (before : x.status = .UNUSED ∨ x.status = .USED)
    (after : y.status = .UNUSED ∨ y.status = .USED) (blank : x.parent = none) : Mild q x y := by
  have unready : ∀ {status : Status}, status = .UNUSED ∨ status = .USED →
      ¬Live status ∧ status ≠ .ZOMBIE ∧ status ≠ .SLEEPING := by
    rintro status (rfl | rfl) <;> decide
  obtain ⟨dull, alive, -⟩ := unready before
  obtain ⟨dull', alive', awake'⟩ := unready after
  exact ⟨parent, fun asleep => absurd asleep awake', ⟨fun h => absurd h alive', fun h => absurd h alive⟩,
    fun live => absurd live dull, fun _ live => absurd live dull', fun _ => .inr blank,
    fun zombie => absurd zombie alive⟩

theorem wake (q : Slot) (x : Process Cpu) (chan : Option Chan) : Mild q x (x.wake chan) := by
  unfold Process.wake
  split
  next asleep => exact of_live rfl (.inr (.inr asleep.1)) (.inl rfl) nofun
  next => exact refl q x

theorem kill (q : Slot) (x : Process Cpu) : Mild q x x.kill := by
  by_cases asleep : x.status = .SLEEPING
  · have status : x.kill.status = .RUNNABLE := by simp [Process.kill, asleep]
    refine of_live rfl (.inr (.inr asleep)) (.inl status) fun still => ?_
    rw [status] at still
    cases still
  · exact of_status rfl (by simp [Process.kill, asleep]) (fun _ on => on) fun _ => ⟨rfl, rfl⟩

end Mild

namespace Calm

variable {s t u : State Cpu}

theorem refl (s : State Cpu) : Calm s s :=
  ⟨fun _ => rfl, fun _ => id, fun _ => .rfl, fun _ => id, fun _ _ => .inl, fun _ => .inl,
    fun _ _ => ⟨rfl, rfl⟩, rfl⟩

theorem congr (calm : Calm s t) (procs : u.proc_list = t.proc_list) (history : u.history = t.history) :
    Calm s u := by
  obtain ⟨parent, dozes, zombie, live, born, unused, note, kept⟩ := calm
  constructor <;> (try rw [procs]) <;> first | assumption | exact history.trans kept

theorem set (calm : Calm s t) {q : Slot} {y : Process Cpu} (same : t.proc_list q = s.proc_list q)
    (mild : Mild q (s.proc_list q) y) : Calm s (t.set q y) := by
  have cases : ∀ {motive : Slot → Process Cpu → Prop}, motive q y →
      (∀ r ≠ q, motive r (t.proc_list r)) → ∀ r, motive r ((t.set q y).proc_list r) := by
    intro motive self others r
    rcases eq_or_ne r q with rfl | other
    · rwa [set_self]
    · rw [set_other_entry t y other]
      exact others r other
  exact
    { parent := cases (motive := fun r x => x.parent = (s.proc_list r).parent) mild.parent
        fun r _ => calm.parent r
      dozes := cases (motive := fun r x => x.status = .SLEEPING ∧ x.chan = some (.proc r) →
          Dozes s.proc_list r) (fun ⟨asleep, on⟩ => mild.dozes asleep on) fun r _ => calm.dozes r
      zombie := cases (motive := fun r x => x.status = .ZOMBIE ↔ (s.proc_list r).status = .ZOMBIE)
        mild.zombie fun r _ => calm.zombie r
      live := cases (motive := fun r x => Live (s.proc_list r).status → Live x.status) mild.live
        fun r _ => calm.live r
      born := cases (motive := fun r x => r ≠ init_proc → Live x.status →
          Live (s.proc_list r).status ∨ (s.proc_list r).parent ≠ none) mild.born
        fun r _ => calm.born r
      unused := cases (motive := fun r x => x.status = .UNUSED →
          (s.proc_list r).status = .UNUSED ∨ (s.proc_list r).parent = none) mild.unused
        fun r _ => calm.unused r
      note := cases (motive := fun r x => (s.proc_list r).status = .ZOMBIE →
          x.pid = (s.proc_list r).pid ∧ x.xstate = (s.proc_list r).xstate) mild.note
        fun r _ => calm.note r
      history := calm.history }

theorem trans (left : Calm s t) (right : Calm t u) : Calm s u where
  parent q := (right.parent q).trans (left.parent q)
  dozes q doze := left.dozes q (right.dozes q doze)
  zombie q := (right.zombie q).trans (left.zombie q)
  live q live := right.live q (left.live q live)
  born q other live := by
    rcases right.born q other live with live | parent
    · exact left.born q other live
    · rw [left.parent] at parent
      exact .inr parent
  unused q unused := by
    rcases right.unused q unused with unused | parent
    · exact left.unused q unused
    · rw [left.parent] at parent
      exact .inr parent
  note q zombie := by
    obtain ⟨pid, xstate⟩ := right.note q ((left.zombie q).mpr zombie)
    exact ⟨pid.trans (left.note q zombie).1, xstate.trans (left.note q zombie).2⟩
  history := right.history.trans left.history

theorem set_status (calm : Calm s t) {q : Slot} {y : Process Cpu}
    (same : y.parent = (t.proc_list q).parent ∧ y.status = (t.proc_list q).status ∧
      y.chan = (t.proc_list q).chan ∧ y.pid = (t.proc_list q).pid ∧
      y.xstate = (t.proc_list q).xstate) : Calm s (t.set q y) :=
  calm.trans ((refl t).set rfl (.of_status same.1 same.2.1 (fun _ on => same.2.2.1 ▸ on)
    fun _ => ⟨same.2.2.2.1, same.2.2.2.2⟩))

theorem goto (calm : Calm s t) (p : Slot) (point : Point) : Calm s (t.goto p point) :=
  calm.set_status ⟨rfl, rfl, rfl, rfl, rfl⟩

/-- What is known at a point stays known. -/
theorem stage (calm : Calm s t) {p : Slot} {point : Point} (stage : Stage s.proc_list p point) :
    Stage t.proc_list p point := by
  have mine : ∀ {q r}, (t.proc_list q).parent = some r → (s.proc_list q).parent = some r :=
    fun {q _} child => (calm.parent q).symm.trans child
  unfold Stage at stage ⊢
  split at stage
  · rwa [calm.parent]
  · rwa [calm.parent]
  · exact stage
  · exact stage
  · exact ⟨stage.1, fun q child => stage.2 q (mine child)⟩
  · exact ⟨stage.1, fun q child => stage.2 q (mine child)⟩
  · obtain ⟨other, childless, chan, awake⟩ := stage
    refine ⟨other, fun q child => childless q (mine child), by rwa [calm.parent], fun r up done doze => ?_⟩
    exact awake r (mine up) done (calm.dozes r doze)
  · exact stage.elim
  · obtain ⟨other, childless, awake⟩ := stage
    exact ⟨other, fun q child => childless q (mine child),
      fun r up doze => awake r (mine up) (calm.dozes r doze)⟩
  · exact fun q child done zombie => stage q (mine child) done ((calm.zombie q).mp zombie)
  · exact fun q child zombie => stage q (mine child) ((calm.zombie q).mp zombie)
  · exact fun q child zombie => stage q (mine child) ((calm.zombie q).mp zombie)
  · exact stage

end Calm

/-- What is known where `wait_lock` is not held depends on the child of `fork` only. -/
theorem Stage.of_unguarded {procs procs' : Slot → Process Cpu} {p : Slot} {point : Point}
    (stage : Stage procs p point) (unguarded : point.guarded = false)
    (copying : ∀ np, point = .copying np → (procs' np).parent = none)
    (publishing : ∀ np, point = .publishing np → (procs' np).parent ≠ none) :
    Stage procs' p point := by
  cases point with
  | copying np => exact copying np rfl
  | publishing np => exact publishing np rfl
  | closing | leaving => exact stage
  | reparenting | rousing | dying | scanning | checking | dozing => cases unguarded
  | _ => trivial

namespace Family

variable {s t : State Cpu} {home : Slot → Option Cpu} {c : Cpu} {p : Slot}

variable (family : Family s)

include family

variable {old point : Point} {q : Slot} {todo : List Slot} {value : Int} {y : Process Cpu}

/-- Only one process is where `wait_lock` is held. -/
theorem only (mine : (s.proc_list p).thread.point.guarded = true)
    (theirs : (s.proc_list q).thread.point.guarded = true) : p = q := by
  obtain ⟨-, c, runs, locked⟩ := family.held p mine
  obtain ⟨-, c', runs', locked'⟩ := family.held q theirs
  cases locked.symm.trans locked'
  exact Mode.run.inj (runs.symm.trans runs')

theorem nobody (free : s.wait_lock = none) (q : Slot) :
    (s.proc_list q).thread.point.guarded = false := by
  by_contra guarded
  obtain ⟨-, c, -, locked⟩ := family.held q (by simpa using guarded)
  rw [free] at locked
  cases locked

/-- A calm step in which one thread moves. -/
theorem calm (calm : Calm s t) (others : ∀ q ≠ p, (t.proc_list q).thread = (s.proc_list q).thread)
    (held : ∀ q, (t.proc_list q).thread.point.guarded = true →
      (t.proc_list q).thread = .code (t.proc_list q).thread.point ∧ Locked t q)
    (stage : Stage t.proc_list p (t.proc_list p).thread.point)
    (rousing : ∀ r todo next, (s.proc_list p).thread = .code (.rousing (some (.proc r)) todo next) →
      r ∈ todo → Dozes t.proc_list r →
      ∃ todo next, (t.proc_list p).thread = .code (.rousing (some (.proc r)) todo next) ∧ r ∈ todo) :
    Family t where
  held := held
  stage q := by
    rcases eq_or_ne q p with rfl | other
    · exact stage
    · rw [others q other]
      exact calm.stage (family.stage q)
  parent q r child := calm.live r (family.parent q r ((calm.parent q).symm.trans child))
  orphan q other status := by
    rw [calm.parent]
    rcases status with live | zombie
    · rcases calm.born q other live with live | parent
      · exact family.orphan q other (.inl live)
      · exact parent
    · exact family.orphan q other (.inr ((calm.zombie q).mp zombie))
  unused q unused := by
    rw [calm.parent]
    rcases calm.unused q unused with unused | parent
    · exact family.unused q unused
    · exact parent
  first := calm.live init_proc family.first
  missed r q doze child zombie := by
    obtain ⟨w, todo, next, thread, waits⟩ := family.missed r q (calm.dozes r doze)
      ((calm.parent q).symm.trans child) ((calm.zombie q).mp zombie)
    rcases eq_or_ne w p with rfl | other
    · obtain ⟨todo, next, thread, waits⟩ := rousing r todo next thread waits doze
      exact ⟨w, todo, next, thread, waits⟩
    · exact ⟨w, todo, next, (others w other).trans thread, waits⟩
  record q := by
    rw [calm.history, family.record q]
    by_cases zombie : (s.proc_list q).status = .ZOMBIE
    · rw [if_pos zombie, if_pos ((calm.zombie q).mpr zombie), (calm.note q zombie).1,
        (calm.note q zombie).2]
    · rw [if_neg zombie, if_neg fun after => zombie ((calm.zombie q).mp after)]
  exact := calm.history ▸ family.exact

/-- An entry changes and its thread does not leave its point. -/
theorem shift (procs : t.proc_list = (s.set p y).proc_list)
    (history : t.history = s.history) (lock : t.wait_lock = s.wait_lock)
    (modes : ∀ q c, (s.proc_list q).thread.point.guarded = true → s.mode c = .run q →
      t.mode c = .run q)
    (mild : Mild p (s.proc_list p) y) (point : y.thread.point = (s.proc_list p).thread.point)
    (kept : (s.proc_list p).thread.point.guarded = true → y.thread = (s.proc_list p).thread) :
    Family t := by
  have same : Calm s t := ((Calm.refl s).set rfl mild).congr procs history
  have self : t.proc_list p = y := by rw [procs, set_self]
  have others : ∀ q ≠ p, t.proc_list q = s.proc_list q := by
    intro q other
    rw [procs, set_other_entry _ _ other]
  have points : ∀ q, (t.proc_list q).thread.point = (s.proc_list q).thread.point := by
    intro q
    rcases eq_or_ne q p with rfl | other
    · rw [self, point]
    · rw [others q other]
  have threads : ∀ q, (s.proc_list q).thread.point.guarded = true →
      (t.proc_list q).thread = (s.proc_list q).thread := by
    intro q guarded
    rcases eq_or_ne q p with rfl | other
    · rw [self, kept guarded]
    · rw [others q other]
  refine family.calm (p := p) same (fun q other => by rw [others q other]) (fun q guarded => ?_) ?_ ?_
  · rw [points] at guarded
    obtain ⟨code, c, runs, locked⟩ := family.held q guarded
    rw [threads q guarded]
    exact ⟨code, c, modes q c guarded runs, lock.trans locked⟩
  · rw [points]
    exact same.stage (family.stage p)
  · intro r todo next thread waits _
    exact ⟨todo, next, (threads p (by rw [thread]; rfl)).trans thread, waits⟩

/-- An entry that is on no processor is not where `wait_lock` is held. -/
theorem unguarded_of_off (placed : Placed s home) (away : home p = none) :
    (s.proc_list p).thread.point.guarded = false := by
  by_contra guarded
  obtain ⟨-, c, runs, -⟩ := family.held p (by simpa using guarded)
  rw [placed.home_run runs] at away
  cases away

theorem reset
    (unguarded : (s.proc_list p).thread.point.guarded = false) (mild : Mild p (s.proc_list p) y)
    (outside : y.thread.point = .outside) : Family (s.set p y) := by
  have self : (s.set p y).proc_list p = y := set_self ..
  refine family.calm (p := p) ((Calm.refl s).set rfl mild)
    (fun q other => by rw [set_other_entry _ _ other]) (fun q guarded => ?_) ?_ ?_
  · rcases eq_or_ne q p with rfl | other
    · rw [self, outside] at guarded
      cases guarded
    · rw [set_other_entry _ _ other] at guarded ⊢
      exact family.held q guarded
  · rw [self, outside]
    trivial
  · intro r todo next thread
    rw [thread] at unguarded
    cases unguarded

/-- A thread moves in a calm step: it has `wait_lock` at the new point if and only if it should. -/
theorem walk (runs : s.mode c = .run p) {new : Point}
    (code : (s.proc_list p).thread = .code old) (calm : Calm s t)
    (others : ∀ q ≠ p, (t.proc_list q).thread = (s.proc_list q).thread)
    (here : (t.proc_list p).thread = .code new) (modes : t.mode = s.mode)
    (locked : new.guarded = true → t.wait_lock = some c)
    (alone : t.wait_lock = s.wait_lock ∨ s.wait_lock = none ∨ old.guarded = true)
    (stage : Stage t.proc_list p new)
    (rousing : ∀ r todo next, old = .rousing (some (.proc r)) todo next → r ∈ todo →
      Dozes t.proc_list r → ∃ todo next, new = .rousing (some (.proc r)) todo next ∧ r ∈ todo) :
    Family t := by
  refine family.calm calm others (fun q guarded => ?_) (by rw [here]; exact stage) ?_
  · rcases eq_or_ne q p with rfl | other
    · rw [here] at guarded ⊢
      exact ⟨rfl, c, by rw [modes, runs], locked guarded⟩
    · rw [others q other] at guarded ⊢
      obtain ⟨code', c', runs', locked'⟩ := family.held q guarded
      refine ⟨code', c', by rw [modes, runs'], ?_⟩
      rcases alone with same | free | mine
      · rw [same, locked']
      · rw [family.nobody free q] at guarded
        cases guarded
      · exact absurd (family.only guarded (by rw [code]; exact mine)) other
  · intro r todo next thread waits doze
    obtain ⟨todo, next, rfl, waits⟩ := rousing r todo next
      (Thread.code.inj (code.symm.trans thread)) waits doze
    exact ⟨todo, next, here, waits⟩

/-- `wait_lock` is held by the processor that runs the process. -/
theorem locked (placed : Placed s home) (runs : s.mode c = .run p)
    (code : (s.proc_list p).thread = .code point) (guarded : point.guarded = true) :
    s.wait_lock = some c := by
  obtain ⟨-, c', runs', locked⟩ := family.held p (by rw [code]; exact guarded)
  have same := (placed.home_run runs).symm.trans (placed.home_run runs')
  rw [locked, Option.some.inj same]

/-- A thread goes on at another point, after a calm change of the entries. -/
theorem goto_after (runs : s.mode c = .run p) {new : Point}
    (code : (s.proc_list p).thread = .code old) {u : State Cpu} (calm : Calm s u)
    (threads : ∀ q, (u.proc_list q).thread = (s.proc_list q).thread)
    (procs : t.proc_list = (u.goto p new).proc_list) (history : t.history = u.history)
    (modes : t.mode = s.mode) (locked : new.guarded = true → t.wait_lock = some c)
    (alone : t.wait_lock = s.wait_lock ∨ s.wait_lock = none ∨ old.guarded = true)
    (stage : Stage s.proc_list p new) (still : old.rouses = false) : Family t := by
  have after : Calm s t := (calm.goto p new).congr procs history
  refine family.walk runs code after (fun q other => ?_) ?_ modes locked alone (after.stage stage)
    fun r todo next same => by rw [same] at still; cases still
  · rw [procs, State.goto, set_other_entry _ _ other, threads]
  · rw [procs, State.goto, set_self]

theorem goto (placed : Placed s home) (runs : s.mode c = .run p) {new : Point}
    (code : (s.proc_list p).thread = .code old) (guards : new.guarded = true → old.guarded = true)
    (stage : Stage s.proc_list p new) (still : old.rouses = false) : Family (s.goto p new) :=
  family.goto_after runs code (Calm.refl s) (fun _ => rfl) rfl rfl rfl
    (fun guarded => family.locked placed runs code (guards guarded)) (.inl rfl) stage still

section

variable (runs : s.mode c = .run p) (code : (s.proc_list p).thread = .code old)
include runs code

theorem set_goto {new : Point}
    (mild : Mild q (s.proc_list q) y) (thread : y.thread = (s.proc_list q).thread)
    (unguarded : new.guarded = false) (stage : Stage s.proc_list p new)
    (still : old.rouses = false) : Family ((s.set q y).goto p new) :=
  family.goto_after runs code ((Calm.refl s).set rfl mild) (Placed.set_thread s thread) rfl rfl rfl
    (fun guarded => by rw [unguarded] at guarded; cases guarded) (.inl rfl) stage still

theorem ret_after {u : State Cpu} (calm : Calm s u)
    (threads : ∀ q, (u.proc_list q).thread = (s.proc_list q).thread)
    (procs : t.proc_list = (u.ret p value).proc_list) (history : t.history = u.history)
    (modes : t.mode = s.mode)
    (alone : t.wait_lock = s.wait_lock ∨ s.wait_lock = none ∨ old.guarded = true)
    (still : old.rouses = false) : Family t := by
  refine family.goto_after (u := u.set p { u.proc_list p with a0 := value }) runs code
    (calm.set_status ⟨rfl, rfl, rfl, rfl, rfl⟩) (fun q => Eq.trans ?_ (threads q)) procs history modes
    nofun alone trivial still
  exact Placed.set_thread u (by rfl) q

theorem ret (still : old.rouses = false) : Family (s.ret p value) :=
  family.ret_after runs code (Calm.refl s) (fun _ => rfl) rfl rfl rfl (.inl rfl) still

theorem set_ret (mild : Mild q (s.proc_list q) y) (thread : y.thread = (s.proc_list q).thread)
    (still : old.rouses = false) : Family ((s.set q y).ret p value) :=
  family.ret_after runs code ((Calm.refl s).set rfl mild) (Placed.set_thread s thread) rfl rfl rfl
    (.inl rfl) still

end

theorem fail (message : String) : Family (s.fail message) := { family with }

theorem alloc (placed : Placed s home) (runs : s.mode c = .run p)
    (code : (s.proc_list p).thread = .code (.allocating (q :: todo))) :
    Family (s.alloc c p q todo) := by
  simp only [State.alloc]
  split
  next unused =>
    have mild : Mild q (s.proc_list q) { s.proc_list q with
        lock := some c, pid := s.next_pid, status := .USED } :=
      .of_unready rfl (.inl unused) (.inr rfl) (family.unused q unused)
    exact family.goto_after runs code ((Calm.refl s).set rfl mild) (Placed.set_thread s rfl) rfl rfl rfl
      (by rintro ⟨⟩) (.inl rfl) (family.unused q unused) rfl
  next =>
    exact family.goto placed runs code (by rintro ⟨⟩) trivial rfl

theorem unguarded_of_other
    (code : (s.proc_list p).thread = .code point) (guarded : point.guarded = true)
    (other : q ≠ p) : (s.proc_list q).thread.point.guarded = false := by
  by_contra theirs
  exact other (family.only (by simpa using theirs) (by rw [code]; exact guarded))

/-- Nobody who sleeps in `wait` has a zombie, unless somebody is in `wakeup`. -/
theorem not_missed
    (quiet : ∀ w chan todo next, (s.proc_list w).thread ≠ .code (.rousing chan todo next))
    {r : Slot}
    (doze : Dozes s.proc_list r) (child : (s.proc_list q).parent = some r) :
    (s.proc_list q).status ≠ .ZOMBIE := fun zombie => by
  obtain ⟨w, todo, next, thread, -⟩ := family.missed r q doze child zombie
  exact quiet w _ _ _ thread

theorem quiet_of_free (free : s.wait_lock = none) (w : Slot) (chan : Option Chan)
    (todo : List Slot) (next : Point) : (s.proc_list w).thread ≠ .code (.rousing chan todo next) := by
  intro thread
  have unguarded := family.nobody free w
  rw [thread] at unguarded
  cases unguarded

theorem quiet_of_other
    (code : (s.proc_list p).thread = .code point) (guarded : point.guarded = true)
    (still : point.rouses = false) (w : Slot) (chan : Option Chan)
    (todo : List Slot) (next : Point) : (s.proc_list w).thread ≠ .code (.rousing chan todo next) := by
  intro thread
  obtain rfl : p = w := family.only (by rw [code]; exact guarded) (by rw [thread]; rfl)
  rw [Thread.code.inj (code.symm.trans thread)] at still
  cases still

omit family in
/-- Who holds `wait_lock` after a step of the only process that may. -/
theorem held_alone (alone : ∀ q ≠ p, (s.proc_list q).thread.point.guarded = false)
    (threads : ∀ q ≠ p, (t.proc_list q).thread = (s.proc_list q).thread)
    (mine : (t.proc_list p).thread.point.guarded = true →
      (t.proc_list p).thread = .code (t.proc_list p).thread.point ∧ Locked t p) (q : Slot)
    (guarded : (t.proc_list q).thread.point.guarded = true) :
    (t.proc_list q).thread = .code (t.proc_list q).thread.point ∧ Locked t q := by
  rcases eq_or_ne q p with rfl | other
  · exact mine guarded
  · rw [threads q other, alone q other] at guarded
    cases guarded

/-- What is known after a step of the only process that may hold `wait_lock`. -/
theorem stage_alone (alone : ∀ q ≠ p, (s.proc_list q).thread.point.guarded = false)
    (threads : ∀ q ≠ p, (t.proc_list q).thread = (s.proc_list q).thread)
    (mine : Stage t.proc_list p (t.proc_list p).thread.point)
    (copying : ∀ q ≠ p, ∀ np, (s.proc_list q).thread.point = .copying np →
      (s.proc_list np).parent = none → (t.proc_list np).parent = none)
    (publishing : ∀ q ≠ p, ∀ np, (s.proc_list q).thread.point = .publishing np →
      (s.proc_list np).parent ≠ none → (t.proc_list np).parent ≠ none) (q : Slot) :
    Stage t.proc_list q (t.proc_list q).thread.point := by
  rcases eq_or_ne q p with rfl | other
  · exact mine
  · rw [threads q other]
    have stage := family.stage q
    refine stage.of_unguarded (alone q other) (fun np point => ?_) (fun np point => ?_)
    · rw [point] at stage
      exact copying q other np point stage
    · rw [point] at stage
      exact publishing q other np point stage

/-- An entry gets another parent, and the thread goes on. -/
theorem give {r : Slot} {new : Point}
    (alone : ∀ w ≠ p, (s.proc_list w).thread.point.guarded = false)
    (quiet : ∀ w chan todo next, (s.proc_list w).thread ≠ .code (.rousing chan todo next))
    (live : Live (s.proc_list r).status) (used : (s.proc_list q).status ≠ .UNUSED)
    (copying : ∀ w ≠ p, (s.proc_list w).thread.point ≠ .copying q)
    (mine : new.guarded = true → Locked s p)
    (stage : Stage ((s.set q { s.proc_list q with parent := some r }).goto p new).proc_list p new)
    (missed : Dozes s.proc_list r → (s.proc_list q).status = .ZOMBIE →
      ∃ todo next, new = .rousing (some (.proc r)) todo next ∧ r ∈ todo) :
    Family ((s.set q { s.proc_list q with parent := some r }).goto p new) := by
  generalize after : (s.set q { s.proc_list q with parent := some r }).goto p new = t at stage
  have entry : ∀ w, t.proc_list w = { s.proc_list w with
      parent := if w = q then some r else (s.proc_list w).parent
      thread := if w = p then .code new else (s.proc_list w).thread } := by
    intro w
    rw [← after, State.goto]
    by_cases self : w = p <;> by_cases given : w = q
    · subst self given
      simp
    · subst self
      simp [set_other_entry _ _ given, given]
    · subst given
      simp [set_other_entry _ _ self, self]
    · simp [set_other_entry _ _ self, set_other_entry _ _ given, self, given]
  have status : ∀ w, (t.proc_list w).status = (s.proc_list w).status := fun w => by rw [entry]
  have dozes : ∀ w, Dozes t.proc_list w → Dozes s.proc_list w := by
    intro w doze
    unfold Dozes at doze
    rwa [entry] at doze
  have parent_q : (t.proc_list q).parent = some r := by
    rw [entry]
    exact if_pos rfl
  have parent : ∀ w ≠ q, (t.proc_list w).parent = (s.proc_list w).parent := by
    intro w other
    rw [entry]
    exact if_neg other
  have here : (t.proc_list p).thread = .code new := by
    rw [entry]
    exact if_pos rfl
  have threads : ∀ w ≠ p, (t.proc_list w).thread = (s.proc_list w).thread := by
    intro w other
    rw [entry]
    exact if_neg other
  have modes : t.mode = s.mode ∧ t.wait_lock = s.wait_lock ∧ t.history = s.history := by
    rw [← after]
    exact ⟨rfl, rfl, rfl⟩
  refine
    { held := held_alone alone threads fun guarded => ?_
      stage := family.stage_alone alone threads (by rwa [here]) (fun w other np point blank => ?_)
        fun w other np point set => ?_
      parent := fun w r' child => ?_
      orphan := fun w other up => ?_
      unused := fun w unused => ?_
      first := by rw [status]; exact family.first
      missed := fun r' w doze child zombie => ?_
      record := fun w => by rw [modes.2.2, family.record w, entry]
      exact := modes.2.2 ▸ family.exact }
  · rw [here] at guarded ⊢
    obtain ⟨c, runs, locked⟩ := mine guarded
    exact ⟨rfl, c, by rw [modes.1, runs], by rw [modes.2.1, locked]⟩
  · rw [parent np (by rintro rfl; exact copying w other point), blank]
  · rcases eq_or_ne np q with rfl | other
    · rw [parent_q]
      exact Option.some_ne_none r
    · rwa [parent np other]
  · rw [status]
    rcases eq_or_ne w q with rfl | other
    · cases parent_q.symm.trans child
      exact live
    · exact family.parent w r' ((parent w other).symm.trans child)
  · rcases eq_or_ne w q with rfl | apart
    · rw [parent_q]
      exact Option.some_ne_none r
    · rw [status] at up
      rw [parent w apart]
      exact family.orphan w other up
  · rw [status] at unused
    rcases eq_or_ne w q with rfl | other
    · exact absurd unused used
    · rw [parent w other]
      exact family.unused w unused
  · rw [status] at zombie
    rcases eq_or_ne w q with rfl | other
    · cases parent_q.symm.trans child
      obtain ⟨todo, next, rfl, waits⟩ := missed (dozes r doze) zombie
      exact ⟨p, todo, next, here, waits⟩
    · exact absurd zombie (family.not_missed quiet (dozes r' doze) ((parent w other).symm.trans child))

theorem set_status
    (same : y.parent = (s.proc_list p).parent ∧ y.status = (s.proc_list p).status ∧
      y.chan = (s.proc_list p).chan ∧ y.pid = (s.proc_list p).pid ∧ y.xstate = (s.proc_list p).xstate)
    (thread : y.thread = (s.proc_list p).thread) : Family (s.set p y) :=
  family.shift rfl rfl rfl (fun _ _ _ runs => runs)
    (.of_status same.1 same.2.1 (fun _ on => same.2.2.1 ▸ on) fun _ => ⟨same.2.2.2.1, same.2.2.2.2⟩)
    (by rw [thread]) fun _ => thread

/-- A thread that is in `sched` or behind it does not hold `wait_lock`. -/
theorem unguarded_of_sched (switching : ∀ point, (s.proc_list p).thread ≠ .code point) :
    (s.proc_list p).thread.point.guarded = false := by
  by_contra guarded
  exact switching _ (family.held p (by simpa using guarded)).1

/-- The process that holds `wait_lock` gives it up and stops. -/
theorem settle (code : (s.proc_list p).thread = .code point) (guarded : point.guarded = true)
    (still : point.rouses = false) (running : (s.proc_list p).status = .RUNNING)
    (procs : t.proc_list = (s.set p y).proc_list) (parent : y.parent = (s.proc_list p).parent)
    (idle : y.thread.point.guarded = false) (stage : Stage t.proc_list p y.thread.point)
    (used : y.status ≠ .UNUSED)
    (live : Live y.status ∨ p ≠ init_proc ∧ ∀ q, (s.proc_list q).parent ≠ some p)
    (asleep : y.status = .SLEEPING → ∀ q, (s.proc_list q).parent = some p →
      (s.proc_list q).status ≠ .ZOMBIE)
    (dead : y.status = .ZOMBIE → ∀ r, (s.proc_list p).parent = some r → ¬Dozes s.proc_list r)
    (record : ∀ q, pending q t.history = if (t.proc_list q).status = .ZOMBIE then
      some ((t.proc_list q).pid, (t.proc_list q).xstate) else none)
    (exact : Exact t.history) : Family t := by
  have others : ∀ q ≠ p, t.proc_list q = s.proc_list q := fun q other => by
    rw [procs, set_other_entry s y other]
  have self : t.proc_list p = y := by rw [procs, set_self]
  have parents : ∀ q, (t.proc_list q).parent = (s.proc_list q).parent := by
    intro q
    rcases eq_or_ne q p with rfl | other
    · rw [self, parent]
    · rw [others q other]
  have alone : ∀ q ≠ p, (s.proc_list q).thread.point.guarded = false := fun q other =>
    family.unguarded_of_other code guarded other
  refine
    { held := held_alone (p := p) alone (fun q other => by rw [others q other]) fun guarded => ?_
      stage := family.stage_alone (p := p) alone (fun q other => by rw [others q other])
        (by rwa [self]) (fun q _ np _ blank => by rwa [parents]) fun q _ np _ set => by rwa [parents]
      parent := fun q r child => ?_
      orphan := fun q other up => ?_
      unused := fun q unused => ?_
      first := ?_
      missed := fun r q doze child done => ?_
      record
      exact }
  · rw [self, idle] at guarded
    cases guarded
  · rw [parents] at child
    rcases eq_or_ne r p with rfl | other
    · rw [self]
      exact live.resolve_right fun childless => childless.2 q child
    · rw [others r other]
      exact family.parent q r child
  · rw [parents]
    rcases eq_or_ne q p with rfl | apart
    · exact family.orphan q other (.inl (.inr (.inl running)))
    · rw [others q apart] at up
      exact family.orphan q other up
  · rw [parents]
    rcases eq_or_ne q p with rfl | apart
    · exact absurd (self ▸ unused) used
    · rw [others q apart] at unused
      exact family.unused q unused
  · rcases eq_or_ne init_proc p with rfl | other
    · rw [self]
      exact live.resolve_right fun notFirst => notFirst.1 rfl
    · rw [others _ other]
      exact family.first
  · rw [parents] at child
    unfold Dozes at doze
    have quiet := family.quiet_of_other code guarded still
    rcases eq_or_ne r p with rfl | apart
    · rw [self] at doze
      rcases eq_or_ne q r with rfl | other
      · rw [self, doze.1] at done
        cases done
      · rw [others q other] at done
        exact absurd done (asleep doze.1 q child)
    · rw [others r apart] at doze
      rcases eq_or_ne q p with rfl | other
      · exact absurd doze (dead (self ▸ done) r child)
      · rw [others q other] at done
        exact absurd done (family.not_missed quiet doze child)

section

variable (placed : Placed s home) (runs : s.mode c = .run p)
include placed runs

theorem link {np : Slot}
    (code : (s.proc_list p).thread = .code (.linking np)) (free : s.wait_lock = none) :
    Family ((s.set np { s.proc_list np with parent := some p }).goto p (.publishing np)) := by
  have owned : (s.proc_list p).thread.child = some np := by
    rw [code]
    rfl
  have used := placed.child p np owned
  have other := placed.child_ne runs code rfl
  refine family.give (fun w _ => family.nobody free w) (family.quiet_of_free free) ?_ ?_
    (fun w apart point => ?_) nofun ?_ fun _ zombie => ?_
  · exact .inr (.inl (placed.running runs code).1)
  · rw [used]
    decide
  · have owns : (s.proc_list w).thread.child = some np := by
      cases thread : (s.proc_list w).thread <;> rw [thread] at point <;> obtain rfl := point <;> rfl
    exact apart (placed.only w p np owns owned)
  · change ((State.goto _ p _).proc_list np).parent ≠ none
    rw [State.goto, set_other_entry _ _ other, set_self]
    exact Option.some_ne_none p
  · rw [used] at zombie
    cases zombie

theorem reparent {status : Int}
    (code : (s.proc_list p).thread = .code (.reparenting status (q :: todo))) :
    Family (s.reparent p status q todo) := by
  have stage := family.stage p
  rw [code] at stage
  obtain ⟨notFirst, covers⟩ := stage
  unfold State.reparent
  split
  next child =>
    refine family.give (fun w other => family.unguarded_of_other code rfl other)
      (family.quiet_of_other code rfl rfl) family.first (fun unused => ?_)
      (fun w apart point => ?_) (fun _ => (family.held p (by rw [code]; rfl)).2) ⟨notFirst, ?_⟩
      fun _ _ => ⟨slots, _, rfl, List.mem_finRange _⟩
    · rw [family.unused q unused] at child
      cases child
    · have blank := family.stage w
      rw [point] at blank
      rw [show (s.proc_list q).parent = none from blank] at child
      cases child
    · intro w child'
      rcases eq_or_ne w q with rfl | other
      · have moved : ((State.goto (s.set w { s.proc_list w with parent := some init_proc }) p
            (.rousing (some (.proc init_proc)) slots (.reparenting status todo))).proc_list w).parent =
              some init_proc := by
          rw [State.goto]
          rcases eq_or_ne w p with rfl | other
          · simp
          · rw [set_other_entry _ _ other, set_self]
        exact absurd (Option.some.inj (moved.symm.trans child')).symm notFirst
      · have kept : ((State.goto (s.set q { s.proc_list q with parent := some init_proc }) p
            (.rousing (some (.proc init_proc)) slots (.reparenting status todo))).proc_list w).parent =
              (s.proc_list w).parent := by
          rw [State.goto]
          rcases eq_or_ne w p with rfl | apart
          · rw [set_self, set_other_entry _ _ other]
          · rw [set_other_entry _ _ apart, set_other_entry _ _ other]
        rcases List.mem_cons.mp (covers w (kept.symm.trans child')) with rfl | found
        · exact absurd rfl other
        · exact found
  next child =>
    refine family.goto placed runs code (fun _ => rfl) ⟨notFirst, fun w child' => ?_⟩ rfl
    rcases List.mem_cons.mp (covers w child') with rfl | found
    · exact absurd child' child
    · exact found

theorem rouse {chan : Option Chan} {next : Point}
    (code : (s.proc_list p).thread = .code (.rousing chan (q :: todo) next)) {u : State Cpu}
    (calm : Calm s u) (threads : ∀ w, (u.proc_list w).thread = (s.proc_list w).thread)
    (same : u.mode = s.mode ∧ u.wait_lock = s.wait_lock)
    (awake : chan = some (.proc q) → ¬Dozes u.proc_list q) :
    Family (u.goto p (.rousing chan todo next)) := by
  have stage := family.stage p
  rw [code] at stage
  have after : Calm s (u.goto p (.rousing chan todo next)) := calm.goto p _
  have dozes : ∀ r, Dozes (u.goto p (.rousing chan todo next)).proc_list r → Dozes u.proc_list r := by
    intro r doze
    unfold Dozes State.goto at doze
    rcases eq_or_ne r p with rfl | other
    · rwa [set_self] at doze
    · rwa [set_other_entry _ _ other] at doze
  refine family.walk runs code after (fun w other => ?_) (by rw [State.goto, set_self]) same.1
    (fun _ => same.2.trans (family.locked placed runs code rfl)) (.inr (.inr rfl)) ?_ ?_
  · rw [State.goto, set_other_entry _ _ other, threads]
  · cases next with
    | reparenting status rest =>
      have known : Stage s.proc_list p (.rousing chan todo (.reparenting status rest)) := stage
      exact after.stage known
    | dying status =>
      obtain ⟨notFirst, childless, sought, done⟩ := stage
      refine ⟨notFirst, fun w child => childless w ((after.parent w).symm.trans child), ?_,
        fun r up passed doze => ?_⟩
      · rw [after.parent]
        exact sought
      · have up : (s.proc_list p).parent = some r := (after.parent p).symm.trans up
        rcases eq_or_ne r q with rfl | other
        · rw [up] at sought
          exact awake sought (dozes r doze)
        · exact done r up (by simp [other, passed]) (after.dozes r doze)
    | _ => exact stage.elim
  · intro r todo' next' same waits doze
    cases same
    rcases List.mem_cons.mp waits with rfl | waits
    · exact absurd (dozes r doze) (awake rfl)
    · exact ⟨todo, next, rfl, waits⟩

theorem stop (code : (s.proc_list p).thread = .code point) (unguarded : point.guarded = false)
    {status : Status} (live : Live status) {chan : Option Chan} {slept : Bool}
    (awake : status = .SLEEPING → chan ≠ some (.proc p))
    (ran : s.stop c p status chan slept point = some t) : Family t := by
  obtain ⟨-, rfl⟩ := locking_eq_some.mp ran
  refine Family.shift (s := s) (p := p) family rfl rfl rfl (fun _ _ _ runs => runs) ?_ ?_ ?_
  · exact .of_live rfl (.inr (.inl (placed.running runs code).1)) live
      fun asleep on => absurd on (awake asleep)
  · rw [code]
    rfl
  · intro guarded
    rw [code] at guarded
    exact absurd (unguarded.symm.trans guarded) (by decide)

theorem start (code : (s.proc_list p).thread = .code .outside) {call : Call}
    (ran : s.start p call = some t) : Family t := by
  cases call with
  | fork | wait | kill =>
    cases ran
    exact family.goto placed runs code nofun trivial rfl
  | exit status =>
    cases ran
    split
    next => exact family.fail _
    next other =>
      exact family.goto placed runs code nofun other rfl
  | set_killed =>
    obtain ⟨-, rfl⟩ := locking_eq_some.mp ran
    exact family.set_status ⟨rfl, rfl, rfl, rfl, rfl⟩ rfl
  | change =>
    cases ran
    exact family.set_status ⟨rfl, rfl, rfl, rfl, rfl⟩ rfl

variable [DecidableEq Cpu]

theorem ret_unlock (code : (s.proc_list p).thread = .code old) (guarded : old.guarded = true)
    (still : old.rouses = false) : Family (s.unlock c (s.ret p value)) := by
  rw [unlock, if_pos (family.locked placed runs code guarded)]
  exact family.ret_after runs code (Calm.refl s) (fun _ => rfl) rfl rfl rfl (.inr (.inr guarded)) still

theorem copy {np : Slot}
    (code : (s.proc_list p).thread = .code (.copying np)) (memory : Option (Nat × Nat)) :
    Family (s.copy c p np memory) := by
  have used := placed.child p np (by rw [code]; rfl)
  have blank : (s.proc_list np).parent = none := by
    have stage := family.stage p
    rwa [code] at stage
  have other := placed.child_ne runs code rfl
  simp only [State.copy]
  split
  next =>
    cases memory with
    | none =>
      refine Family.set_ret (s := s) family runs code ?_ ?_ rfl
      · exact .of_unready blank.symm (.inr used) (.inl rfl) blank
      · rfl
    | some frames =>
      refine Family.goto_after (s := s.set np _) ?_ runs (?_ : _ = Thread.code (.copying np))
        (Calm.refl _) (fun _ => rfl) rfl rfl rfl (by rintro ⟨⟩) (.inl rfl) trivial rfl
      · exact family.reset (family.unguarded_of_off placed (placed.off_of_unready (.inr used)))
          (.of_unready rfl (.inr used) (.inr used) blank) rfl
      · rw [set_other_entry _ _ other.symm]
        exact code
  next => exact family.fail _

theorem die {status : Int}
    (code : (s.proc_list p).thread = .code (.dying status)) : Family (s.die c p status) := by
  have stage := family.stage p
  rw [code] at stage
  obtain ⟨notFirst, childless, awake⟩ := stage
  have running := (placed.running runs code).1
  simp only [State.die]
  rw [unlock, if_pos (family.locked placed runs code rfl)]
  refine family.settle code rfl rfl running rfl (by rfl) rfl trivial (by simp)
    (.inr ⟨notFirst, childless⟩) nofun (fun _ => awake) (fun q => ?_) ⟨?_, family.exact⟩
  · rcases eq_or_ne q p with rfl | other
    · simp [pending]
    · simp only [set_other_entry _ _ other, ← family.record q]
      exact if_neg other.symm
  · rw [family.record p, running]
    rfl

theorem doze (code : (s.proc_list p).thread = .code .dozing) : Family (s.doze c p) := by
  have childless := family.stage p
  rw [code] at childless
  have running := (placed.running runs code).1
  simp only [State.doze]
  rw [unlock, if_pos (family.locked placed runs code rfl)]
  refine family.settle code rfl rfl running rfl (by rfl) rfl trivial (by simp) (.inl (.inr (.inr rfl)))
    (fun _ => childless) nofun (fun q => ?_) family.exact
  refine (family.record q).trans ?_
  rcases eq_or_ne q p with rfl | other
  · simp [running]
  · simp only [set_other_entry _ _ other]

section

variable {havekids : Bool} (code : (s.proc_list p).thread = .code (.scanning havekids (q :: todo)))
  (mine : (s.proc_list q).parent = some p)
include code mine

/-- `wait` frees a zombie and returns its number. -/
theorem reap (zombie : (s.proc_list q).status = .ZOMBIE) :
    Family (s.unlock c { (s.set q (s.proc_list q).free).ret p value with
      history := .reaped q (s.proc_list q).pid (s.proc_list q).xstate p (s.proc_list q).parent ::
        s.history }) := by
  have running := (placed.running runs code).1
  have apart : q ≠ p := by
    rintro rfl
    rw [running] at zombie
    cases zombie
  rw [unlock, if_pos (family.locked placed runs code rfl)]
  generalize after : ((s.set q (s.proc_list q).free).ret p value).proc_list = procs
  have freed : procs q = (s.proc_list q).free := by
    rw [← after, State.ret, State.goto, set_other_entry _ _ apart, set_other_entry _ _ apart, set_self]
  have here : procs p = { s.proc_list p with a0 := value, thread := .code .outside } := by
    rw [← after, State.ret, State.goto, set_self, set_self, set_other_entry _ _ apart.symm]
  have others : ∀ w, w ≠ p → w ≠ q → procs w = s.proc_list w := by
    intro w other other'
    rw [← after, State.ret, State.goto, set_other_entry _ _ other, set_other_entry _ _ other,
      set_other_entry _ _ other']
  have kept : ∀ w ≠ q, (procs w).parent = (s.proc_list w).parent ∧
      (procs w).status = (s.proc_list w).status ∧ (procs w).chan = (s.proc_list w).chan ∧
      (procs w).pid = (s.proc_list w).pid ∧ (procs w).xstate = (s.proc_list w).xstate := by
    intro w other
    rcases eq_or_ne w p with rfl | other'
    · rw [here]
      exact ⟨rfl, rfl, rfl, rfl, rfl⟩
    · rw [others w other' other]
      exact ⟨rfl, rfl, rfl, rfl, rfl⟩
  have threads : ∀ w ≠ p, (procs w).thread = (s.proc_list w).thread := by
    intro w other
    rcases eq_or_ne w q with rfl | other'
    · rw [freed]
      rfl
    · rw [others w other other']
  have alive : ∀ {w}, Live (s.proc_list w).status → w ≠ q := by
    rintro w live rfl
    rw [zombie] at live
    simp [Live] at live
  have alone : ∀ q ≠ p, (s.proc_list q).thread.point.guarded = false := fun q other =>
    family.unguarded_of_other code rfl other
  refine
    { held := held_alone (p := p) alone threads fun guarded => ?_
      stage := family.stage_alone (p := p) alone threads ?_ (fun w _ np _ blank => ?_)
        fun w other np point set => ?_
      parent := fun w r child => ?_
      orphan := fun w other up => ?_
      unused := fun w unused => ?_
      first := ?_
      missed := fun r w doze child done => ?_
      record := fun w => ?_
      exact := ⟨?_, mine, family.exact⟩ }
  · change (procs p).thread.point.guarded = true at guarded
    rw [here] at guarded
    cases guarded
  · change Stage procs p (procs p).thread.point
    rw [here]
    trivial
  · change (procs np).parent = none
    rcases eq_or_ne np q with rfl | other'
    · rw [freed]
      rfl
    · rw [(kept np other').1, blank]
  · change (procs np).parent ≠ none
    have used : (s.proc_list np).status = .USED := by
      refine placed.child w np ?_
      cases thread : (s.proc_list w).thread <;> rw [thread] at point <;> obtain rfl := point <;> rfl
    have other' : np ≠ q := by
      rintro rfl
      rw [used] at zombie
      cases zombie
    rwa [(kept np other').1]
  · change (procs w).parent = some r at child
    change Live (procs r).status
    rcases eq_or_ne w q with rfl | other
    · rw [freed] at child
      cases child
    · rw [(kept w other).1] at child
      have live := family.parent w r child
      rwa [(kept r (alive live)).2.1]
  · change Live (procs w).status ∨ (procs w).status = .ZOMBIE at up
    change (procs w).parent ≠ none
    rcases eq_or_ne w q with rfl | other'
    · rw [freed] at up
      simp [Process.free, Live] at up
    · rw [(kept w other').2.1] at up
      rw [(kept w other').1]
      exact family.orphan w other up
  · change (procs w).status = .UNUSED at unused
    change (procs w).parent = none
    rcases eq_or_ne w q with rfl | other
    · rw [freed]
      rfl
    · rw [(kept w other).2.1] at unused
      rw [(kept w other).1]
      exact family.unused w unused
  · change Live (procs init_proc).status
    rw [(kept _ (alive family.first)).2.1]
    exact family.first
  · change Dozes procs r at doze
    change (procs w).parent = some r at child
    change (procs w).status = .ZOMBIE at done
    rcases eq_or_ne w q with rfl | other
    · rw [freed] at child
      cases child
    · rw [(kept w other).1] at child
      rw [(kept w other).2.1] at done
      have apart := alive (family.parent w r child)
      have dozed : Dozes s.proc_list r := by
        unfold Dozes at doze
        rwa [(kept r apart).2.1, (kept r apart).2.2.1] at doze
      exact absurd done (family.not_missed (family.quiet_of_other code rfl rfl) dozed child)
  · change pending w _ = if (procs w).status = .ZOMBIE then some ((procs w).pid, (procs w).xstate) else none
    rcases eq_or_ne w q with rfl | other
    · rw [freed]
      exact if_pos rfl
    · obtain ⟨-, status, -, pid, xstate⟩ := kept w other
      rw [status, pid, xstate, ← family.record w]
      exact if_neg other.symm
  · rw [family.record q, if_pos zombie]

theorem scan (copied : Bool) : Family (s.scan c p q todo copied) := by
  have checked := family.stage p
  rw [code] at checked
  have running := (placed.running runs code).1
  simp only [State.scan]
  split
  next zombie =>
    split
    next => exact family.reap placed runs code mine zombie
    next => exact family.ret_unlock placed runs code rfl rfl
  next alive =>
    refine family.goto placed runs code (fun _ => rfl) (fun r child done => ?_) rfl
    rcases eq_or_ne r q with rfl | other
    · exact alive
    · exact checked r child (by simp [other, done])

end

theorem advance (code : (s.proc_list p).thread = .code point) {answer : Answer}
    (ran : s.advance c p answer point = some t) : Family t := by
  have stage := family.stage p
  rw [code] at stage
  have running := (placed.running runs code).1
  cases point with
  | outside => cases ran
  | allocating todo =>
    cases todo with
    | nil =>
      cases ran
      exact family.fail _
    | cons q todo =>
      obtain ⟨-, rfl⟩ := locking_eq_some.mp ran
      exact family.alloc placed runs code
  | copying np =>
    cases ran
    exact family.copy placed runs code _
  | linking np =>
    obtain ⟨free, rfl⟩ := waiting_eq_some.mp ran
    exact family.link placed runs code free
  | publishing np =>
    obtain ⟨-, rfl⟩ := locking_eq_some.mp ran
    have used := placed.child p np (by rw [code]; rfl)
    refine Family.set_ret (s := s) family runs code ?_ ?_ rfl
    · refine ⟨rfl, (by rintro ⟨⟩), ?_, fun _ => .inl rfl, fun _ _ => .inr stage,
        (by rintro ⟨⟩), fun zombie => ?_⟩
      · rw [used]
        exact ⟨(by rintro ⟨⟩), (by rintro ⟨⟩)⟩
      · rw [used] at zombie
        cases zombie
    · rfl
  | closing status todo =>
    cases todo with
    | nil =>
      cases ran
      exact family.goto placed runs code (by rintro ⟨⟩) stage rfl
    | cons fd todo =>
      cases ran
      have after : s.closeFile p status fd todo = (s.set p { s.proc_list p with
          res := { (s.proc_list p).res with
            ofile := Function.update (s.proc_list p).res.ofile fd none } }).goto p
              (.closing status todo) := by
        simp [State.closeFile, State.goto, State.set]
      rw [after]
      exact family.set_goto runs code (.of_status rfl rfl (fun _ on => on) fun _ => ⟨rfl, rfl⟩) rfl
        rfl stage rfl
  | leaving status =>
    obtain ⟨free, rfl⟩ := waiting_eq_some.mp ran
    refine family.goto_after
      (u := s.set p { s.proc_list p with res := { (s.proc_list p).res with cwd := none } })
      runs code ((Calm.refl s).set_status ⟨rfl, rfl, rfl, rfl, rfl⟩) (Placed.set_thread s rfl)
      (?_ : _ = (State.goto _ p (.reparenting status slots)).proc_list) rfl rfl (fun _ => rfl)
      (.inr (.inl free)) ⟨stage, fun q _ => List.mem_finRange q⟩ rfl
    simp [State.lockWait, State.goto, State.set]
  | reparenting status todo =>
    cases todo with
    | nil =>
      cases ran
      refine family.goto placed runs code (fun _ => rfl) ⟨stage.1, fun q child => ?_, rfl,
        fun r _ passed => absurd (List.mem_finRange r) passed⟩ rfl
      exact absurd (stage.2 q child) List.not_mem_nil
    | cons q todo =>
      cases ran
      exact family.reparent placed runs code
  | rousing chan todo next =>
    cases todo with
    | nil =>
      cases ran
      have self : (s.goto p next).proc_list p = { s.proc_list p with thread := .code next } :=
        set_self ..
      have after := (Calm.refl s).goto p next
      refine family.walk runs code after (fun w other => ?_) (by rw [self]) rfl
        (fun _ => family.locked placed runs code rfl) (.inl rfl) ?_ fun r todo' next' same waits => ?_
      · rw [State.goto, set_other_entry _ _ other]
      · cases next with
        | reparenting status rest =>
          have known : Stage s.proc_list p (.reparenting status rest) := stage
          exact after.stage known
        | dying status =>
          obtain ⟨notFirst, childless, -, done⟩ := stage
          have known : Stage s.proc_list p (.dying status) :=
            ⟨notFirst, childless, fun r up => done r up List.not_mem_nil⟩
          exact after.stage known
        | _ => exact stage.elim
      · cases same
        exact absurd waits List.not_mem_nil
    | cons q todo =>
      simp only [advance] at ran
      split at ran
      next same =>
        cases ran
        refine family.rouse placed runs code (Calm.refl s) (fun _ => rfl) ⟨rfl, rfl⟩ fun _ doze => ?_
        have asleep := doze.1
        rw [same, running] at asleep
        cases asleep
      next =>
        obtain ⟨-, rfl⟩ := locking_eq_some.mp ran
        refine family.rouse placed runs code ((Calm.refl s).set rfl (.wake q _ chan))
          (Placed.set_thread s (Placed.wake_thread _ chan)) ⟨rfl, rfl⟩ fun sought doze => ?_
        unfold Dozes at doze
        rw [set_self, Process.wake] at doze
        split at doze
        next => exact absurd doze.1 (by simp)
        next awake => exact awake ⟨doze.1, doze.2.trans sought.symm⟩
  | dying status =>
    obtain ⟨-, rfl⟩ := locking_eq_some.mp ran
    exact family.die placed runs code
  | dead =>
    cases ran
    exact family.fail _
  | entering =>
    obtain ⟨free, rfl⟩ := waiting_eq_some.mp ran
    exact family.goto_after runs code (Calm.refl s) (fun _ => rfl)
      (rfl : _ = (s.goto p (.scanning false slots)).proc_list) rfl rfl (fun _ => rfl)
      (.inr (.inl free)) (fun q _ passed => absurd (List.mem_finRange q) passed) rfl
  | scanning havekids todo =>
    cases todo with
    | nil =>
      cases ran
      split
      · exact family.goto placed runs code (fun _ => rfl)
          (fun q child => stage q child List.not_mem_nil) rfl
      · exact family.ret_unlock placed runs code rfl rfl
    | cons q todo =>
      simp only [advance] at ran
      split at ran
      next mine =>
        obtain ⟨-, rfl⟩ := locking_eq_some.mp ran
        exact family.scan placed runs code mine _
      next other =>
        cases ran
        refine family.goto placed runs code (fun _ => rfl) (fun r child passed => ?_) rfl
        rcases eq_or_ne r q with rfl | apart
        · exact absurd child other
        · exact stage r child (by simp [apart, passed])
  | checking =>
    obtain ⟨-, rfl⟩ := locking_eq_some.mp ran
    split
    · exact family.ret_unlock placed runs code rfl rfl
    · exact family.goto placed runs code (fun _ => rfl) stage rfl
  | dozing =>
    obtain ⟨-, rfl⟩ := locking_eq_some.mp ran
    exact family.doze placed runs code
  | killing pid todo =>
    cases todo with
    | nil =>
      cases ran
      exact family.ret runs code rfl
    | cons q todo =>
      obtain ⟨-, rfl⟩ := locking_eq_some.mp ran
      split
      · exact family.set_ret runs code (.kill q _) rfl rfl
      · exact family.goto placed runs code (by rintro ⟨⟩) trivial rfl

end

variable [DecidableEq Cpu]

omit family in
theorem preemptible_unguarded (preemptible : point.preemptible = true) : point.guarded = false := by
  cases point <;> first | rfl | cases preemptible

omit family in
theorem sleepable_unguarded (sleepable : point.sleepable = true) : point.guarded = false := by
  cases point <;> first | rfl | cases sleepable

/-- Only the mode of a processor that runs no process changes, and one entry keeps its thread. -/
theorem shift_mode {mode : Mode} (idle : ∀ q, s.mode c ≠ .run q) (mild : Mild p (s.proc_list p) y)
    (thread : y.thread = (s.proc_list p).thread) : Family ((s.set p y).setMode c mode) := by
  refine Family.shift (s := s) family rfl rfl rfl (fun q c' _ runs => ?_) mild (by rw [thread])
    fun _ => thread
  rcases eq_or_ne c' c with rfl | other
  · exact absurd runs (idle q)
  · exact (Function.update_of_ne other _ _).trans runs

theorem step (placed : Placed s home) {event : Event Cpu}
    (ran : step s event = some t) : Family t := by
  cases moves_of_step ran with
  | pick idle _ can =>
    refine family.shift_mode (fun q runs => ?_) ?_ rfl
    · rw [idle] at runs
      cases runs
    · exact .of_live rfl (.inl can) (.inr (.inl rfl)) (by rintro ⟨⟩)
  | @enter c p enters =>
    have same : s.set p (s.proc_list p) = s := by simp [State.set]
    have idle : ∀ q, s.mode c ≠ .run q := by
      intro q runs
      rw [enters] at runs
      cases runs
    have after : Family ((s.set p (s.proc_list p)).setMode c (.run p)) :=
      family.shift_mode idle (.refl p _) rfl
    rwa [same] at after
  | start runs code ran => exact family.start placed runs code ran
  | advance runs code ran => exact family.advance placed runs code ran
  | @sched c p _ _ _ runs thread =>
    have here := placed.runs runs
    have off := family.unguarded_of_sched (p := p) (by simp [thread])
    rw [thread] at here
    rw [State.sched, if_pos here.2]
    refine Family.shift (s := s) (p := p) family rfl rfl rfl (fun q c' guarded runs' => ?_)
      (.of_status rfl rfl (fun _ on => on) fun _ => ⟨rfl, rfl⟩) (by rw [thread]; rfl) fun guarded => ?_
    · rcases eq_or_ne c' c with rfl | other
      · obtain rfl := Mode.run.inj (runs.symm.trans runs')
        exact absurd (off.symm.trans guarded) (by decide)
      · exact (Function.update_of_ne other _ _).trans runs'
    · exact absurd (off.symm.trans guarded) (by decide)
  | @resume c p _ _ _ runs thread =>
    have here := placed.runs runs
    have off := family.unguarded_of_sched (p := p) (by simp [thread])
    rw [thread] at here
    simp only [State.resume, if_pos here.2]
    refine Family.shift (s := s) (p := p) family rfl rfl rfl (fun _ _ _ runs => runs) ?_
      (by rw [thread]; rfl) fun guarded => absurd (off.symm.trans guarded) (by decide)
    refine .of_live rfl (.inr (.inl here.1)) (.inr (.inl here.1)) fun asleep => ?_
    exact absurd (here.1.symm.trans asleep) (by decide)
  | yield runs code allowed ran =>
    exact family.stop placed runs code (preemptible_unguarded allowed) (.inl rfl) (by rintro ⟨⟩) ran
  | sleep runs code allowed ran =>
    refine family.stop placed runs code (sleepable_unguarded allowed) (.inr (.inr rfl)) ?_ ran
    rintro _ ⟨⟩
  | @wakeup c chan q =>
    exact family.shift rfl rfl rfl (fun _ _ _ runs => runs) (.wake q _ _)
      (by rw [Placed.wake_thread]) fun _ => Placed.wake_thread _ _
  | save saves =>
    refine family.shift_mode (fun q runs => ?_)
      (.of_status rfl rfl (fun _ on => on) fun _ => ⟨rfl, rfl⟩) rfl
    rw [saves] at runs
    cases runs
  | leave leaves =>
    refine family.shift_mode (fun q runs => ?_)
      (.of_status rfl rfl (fun _ on => on) fun _ => ⟨rfl, rfl⟩) rfl
    rw [leaves] at runs
    cases runs
  | fail => exact family.fail _

end Family

theorem family_user_init (trapframe pagetable cwd : Nat) :
    Family (user_init trapframe pagetable cwd : State Cpu) := by
  have entry : ∀ q, let x := (user_init trapframe pagetable cwd : State Cpu).proc_list q
      x.thread.point = .outside ∧ x.parent = none ∧ x.status ≠ .ZOMBIE ∧ x.status ≠ .SLEEPING ∧
        (q ≠ init_proc → x.status = .UNUSED) := by
    intro q
    rcases eq_or_ne q init_proc with rfl | other
    · rw [user_init_first]
      exact ⟨rfl, rfl, nofun, nofun, fun other => absurd rfl other⟩
    · rw [user_init_other other]
      exact ⟨rfl, rfl, nofun, nofun, fun _ => rfl⟩
  refine ⟨fun q guarded => ?_, fun q => ?_, fun q r child => ?_, fun q other up => ?_,
    fun q _ => (entry q).2.1, ?_, fun p q doze => absurd doze.1 (entry p).2.2.2.1, fun q => ?_, trivial⟩
  · rw [(entry q).1] at guarded
    cases guarded
  · rw [(entry q).1]
    trivial
  · rw [(entry q).2.1] at child
    cases child
  · rw [(entry q).2.2.2.2 other] at up
    simp [Live] at up
  · rw [user_init_first]
    exact .inl rfl
  · rw [if_neg (entry q).2.2.1]
    rfl

theorem family_run [DecidableEq Cpu] {trapframe pagetable cwd : Nat} {events : List (Event Cpu)}
    {s : State Cpu} {guard : State Cpu → Event Cpu → Prop}
    (run : Execution.Run step guard (user_init trapframe pagetable cwd) events s) :
    Family s ∧ ∃ home, Placed s home := by
  induction run with
  | nil => exact ⟨family_user_init _ _ _, _, placed_user_init _ _ _⟩
  | snoc _ _ taken ih =>
    obtain ⟨family, _, placed⟩ := ih
    exact ⟨family.step placed taken, placed.step taken⟩

end OsCpp.Proc
