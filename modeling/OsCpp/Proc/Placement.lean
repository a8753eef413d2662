import OsCpp.Proc.Machine

/-!
# Where processes run

A process that a processor works on is `RUNNING`, or its lock is held by that processor.
-/

namespace OsCpp.Proc

open Function (update update_of_ne update_self)

variable {Cpu : Type}

/-- Statuses of a process whose context waits to be loaded, or is not needed any more. -/
def Parked (status : Status) : Prop := status = .RUNNABLE ∨ status = .SLEEPING ∨ status = .ZOMBIE

/-- The context is at the start of `forkret` or behind `swtch`. -/
def Thread.Switched : Thread → Prop
  | .switched .. => True
  | _ => False

/-- A process whose thread runs on a processor. -/
def Runs (c : Cpu) (x : Process Cpu) : Thread → Prop
  | .code _ => x.status = .RUNNING ∧ x.lock = none
  | .sched .. => Parked x.status ∧ x.lock = some c
  | .switched .. => x.status = .RUNNING ∧ x.lock = some c

/-- A process that a processor works on. -/
def On (c : Cpu) (x : Process Cpu) : Mode → Prop
  | .loop => False
  | .enter _ => x.status = .RUNNING ∧ x.lock = some c ∧ x.thread.Switched ∧ x.saved = true
  | .run _ => Runs c x x.thread
  | .save _ => Parked x.status ∧ x.lock = some c ∧ x.thread.Switched
  | .leave _ => Parked x.status ∧ x.lock = some c ∧ x.thread.Switched ∧ x.saved = true

/-- A process that no processor works on. -/
structure Off (x : Process Cpu) : Prop where
  stopped : x.status ≠ .RUNNING
  parked : Parked x.status → x.lock = none ∧ x.thread.Switched ∧ x.saved = true
  fresh : x.status = .USED → x.lock = none → x.thread.Switched ∧ x.saved = true

/-- The child that `fork` is making. -/
def Point.child : Point → Option Slot
  | .rousing _ _ next => next.child
  | .copying np | .linking np | .publishing np => some np
  | _ => none

def Thread.child : Thread → Option Slot
  | .code point | .sched _ point | .switched _ point => point.child

/-- Every process is where its status says. -/
structure Placed (s : State Cpu) (home : Slot → Option Cpu) : Prop where
  home_iff : ∀ c p, (s.mode c).proc = some p ↔ home p = some c
  on : ∀ c p, home p = some c → On c (s.proc_list p) (s.mode c)
  off : ∀ p, home p = none → Off (s.proc_list p)
  child : ∀ p np, (s.proc_list p).thread.child = some np → (s.proc_list np).status = .USED
  only : ∀ p p' np, (s.proc_list p).thread.child = some np →
    (s.proc_list p').thread.child = some np → p = p'
  calm : s.panic ≠ some "proc::sched: should hold lock"

@[simp] theorem set_self (s : State Cpu) (p : Slot) (x : Process Cpu) :
    (s.set p x).proc_list p = x := update_self ..

theorem set_other_entry (s : State Cpu) {p q : Slot} (x : Process Cpu) (other : q ≠ p) :
    (s.set p x).proc_list q = s.proc_list q := update_of_ne other _ _

@[simp] theorem setMode_proc_list [DecidableEq Cpu] (s : State Cpu) (c : Cpu) (mode : Mode) :
    (s.setMode c mode).proc_list = s.proc_list := rfl

section

variable {s t : State Cpu} {q : Slot}

theorem locking_eq_some {next : State Cpu} :
    s.locking q next = some t ↔ (s.proc_list q).lock = none ∧ next = t := by
  unfold State.locking
  split <;> simp [*]

theorem waiting_eq_some {next : State Cpu} :
    s.waiting next = some t ↔ s.wait_lock = none ∧ next = t := by
  unfold State.waiting
  split <;> simp [*]

variable [DecidableEq Cpu]

/-- The steps, and what each of them asks for. -/
inductive Moves (s : State Cpu) : Event Cpu → State Cpu → Prop
  | pick {c p} (idle : s.mode c = .loop) (free : (s.proc_list p).lock = none)
      (can : (s.proc_list p).status = .RUNNABLE) : Moves s (.pick c p)
        ((s.set p { s.proc_list p with lock := some c, status := .RUNNING }).setMode c (.enter p))
  | enter {c p} (enters : s.mode c = .enter p) : Moves s (.enter c) (s.setMode c (.run p))
  | start {c p call t} (runs : s.mode c = .run p) (code : (s.proc_list p).thread = .code .outside)
      (ran : s.start p call = some t) : Moves s (.begin c call) t
  | advance {c p answer point t} (runs : s.mode c = .run p)
      (code : (s.proc_list p).thread = .code point) (ran : s.advance c p answer point = some t) :
      Moves s (.advance c answer) t
  | sched {c p answer slept next} (runs : s.mode c = .run p)
      (thread : (s.proc_list p).thread = .sched slept next) :
      Moves s (.advance c answer) (s.sched c p slept next)
  | resume {c p answer slept next} (runs : s.mode c = .run p)
      (thread : (s.proc_list p).thread = .switched slept next) :
      Moves s (.advance c answer) (s.resume c p slept next)
  | yield {c p point t} (runs : s.mode c = .run p) (code : (s.proc_list p).thread = .code point)
      (allowed : point.preemptible = true)
      (ran : s.stop c p .RUNNABLE (s.proc_list p).chan false point = some t) : Moves s (.yield c) t
  | sleep {c p address point t} (runs : s.mode c = .run p)
      (code : (s.proc_list p).thread = .code point) (allowed : point.sleepable = true)
      (ran : s.stop c p .SLEEPING (some (.other address)) true point = some t) :
      Moves s (.sleep c address) t
  | wakeup {c chan q} (free : (s.proc_list q).lock = none) :
      Moves s (.wakeup c chan q) (s.set q ((s.proc_list q).wake (some chan)))
  | save {c p} (saves : s.mode c = .save p) :
      Moves s (.save c) ((s.set p { s.proc_list p with saved := true }).setMode c (.leave p))
  | leave {c p} (leaves : s.mode c = .leave p) (held : (s.proc_list p).lock = some c) :
      Moves s (.leave c) ((s.set p { s.proc_list p with lock := none }).setMode c .loop)
  | fail {c} : Moves s (.leave c) (s.fail "lock::release: no lock")

theorem moves_of_step {event : Event Cpu} (ran : step s event = some t) : Moves s event t := by
  unfold step at ran
  replace ran := (Option.ite_none_right_eq_some.mp ran).2
  cases event with
  | pick c p =>
    obtain ⟨⟨idle, free, can⟩, ran⟩ := Option.ite_none_right_eq_some.mp ran
    cases ran
    exact .pick idle free can
  | wakeup c chan q =>
    obtain ⟨free, rfl⟩ := locking_eq_some.mp (Option.ite_none_right_eq_some.mp ran).2
    exact .wakeup free
  | enter c =>
    dsimp only at ran
    split at ran
    next enters =>
      cases ran
      exact .enter enters
    next => cases ran
  | begin c call =>
    dsimp only at ran
    split at ran
    next runs =>
      obtain ⟨code, ran⟩ := Option.ite_none_right_eq_some.mp ran
      exact .start runs code ran
    next => cases ran
  | advance c answer =>
    dsimp only at ran
    split at ran
    next runs =>
      unfold State.proceed at ran
      split at ran
      next code => exact .advance runs code ran
      next thread =>
        cases ran
        exact .sched runs thread
      next thread =>
        cases ran
        exact .resume runs thread
    next => cases ran
  | yield c =>
    dsimp only at ran
    split at ran
    next runs =>
      unfold State.preempt at ran
      split at ran
      next code =>
        obtain ⟨allowed, ran⟩ := Option.ite_none_right_eq_some.mp ran
        exact .yield runs code allowed ran
      next => cases ran
    next => cases ran
  | sleep c address =>
    dsimp only at ran
    split at ran
    next runs =>
      unfold State.pause at ran
      split at ran
      next code =>
        obtain ⟨allowed, ran⟩ := Option.ite_none_right_eq_some.mp ran
        exact .sleep runs code allowed ran
      next => cases ran
    next => cases ran
  | save c =>
    dsimp only at ran
    split at ran
    next saves =>
      cases ran
      exact .save saves
    next => cases ran
  | leave c =>
    dsimp only at ran
    split at ran
    next leaves =>
      cases ran
      split
      next held => exact .leave leaves held
      next => exact .fail
    next => cases ran

end

namespace Placed

variable {s : State Cpu} {home : Slot → Option Cpu} {c : Cpu} {p : Slot}

variable (placed : Placed s home)

include placed

variable {point : Point} {q : Slot} {t : State Cpu} {x : Process Cpu}

theorem congr (procs : t.proc_list = s.proc_list)
    (modes : t.mode = s.mode) (calm : t.panic ≠ some "proc::sched: should hold lock") :
    Placed t home where
  home_iff := by rw [modes]; exact placed.home_iff
  on := by rw [modes, procs]; exact placed.on
  off := by rw [procs]; exact placed.off
  child := by rw [procs]; exact placed.child
  only := by rw [procs]; exact placed.only
  calm := calm

theorem fail {message : String}
    (other : message ≠ "proc::sched: should hold lock") : Placed (s.fail message) home :=
  placed.congr rfl rfl fun same => other (Option.some.inj same)

theorem unlock [DecidableEq Cpu] {next : State Cpu} (after : Placed next home) :
    Placed (s.unlock c next) home := by
  unfold State.unlock
  split
  · exact after.congr rfl rfl after.calm
  · exact placed.fail (by decide)

theorem children (child : ∀ np, x.thread.child = some np → (s.proc_list p).thread.child = some np)
    (used : (s.proc_list p).status = .USED → x.status ≠ .USED →
      ∀ p', (s.proc_list p').thread.child ≠ some p) :
    (∀ q np, ((s.set p x).proc_list q).thread.child = some np →
      ((s.set p x).proc_list np).status = .USED) ∧
    ∀ q q' np, ((s.set p x).proc_list q).thread.child = some np →
      ((s.set p x).proc_list q').thread.child = some np → q = q' := by
  have old : ∀ q np, ((s.set p x).proc_list q).thread.child = some np →
      (s.proc_list q).thread.child = some np := by
    intro q np owns
    rcases eq_or_ne q p with rfl | other
    · rw [set_self] at owns
      exact child np owns
    · rwa [set_other_entry _ _ other] at owns
  refine ⟨fun q np owns => ?_, fun q q' np owns owns' => ?_⟩
  · have before := placed.child q np (old q np owns)
    rcases eq_or_ne np p with rfl | other
    · rw [set_self]
      by_contra changed
      exact used before changed q (old q np owns)
    · rwa [set_other_entry _ _ other]
  · exact placed.only q q' np (old q np owns) (old q' np owns')

/-- An entry and the processor that works on it change together. -/
theorem move [DecidableEq Cpu] {mode : Mode}
    {home' : Slot → Option Cpu} (rest : ∀ q ≠ p, home' q = home q)
    (here : ∀ c', home' p = some c' ↔ c' = c ∧ mode.proc = some p)
    (mine : ∀ q, mode.proc = some q → q = p) (before : ∀ q, home q = some c → q = p)
    (away : ∀ c', home p = some c' → c' = c)
    (on : home' p = some c → On c x mode) (off : home' p = none → Off x)
    (child : ∀ np, x.thread.child = some np → (s.proc_list p).thread.child = some np)
    (used : (s.proc_list p).status = .USED → x.status ≠ .USED →
      ∀ p', (s.proc_list p').thread.child ≠ some p) :
    Placed ((s.set p x).setMode c mode) home' := by
  have modes : ∀ c', c' ≠ c → ((s.set p x).setMode c mode).mode c' = s.mode c' := fun c' other =>
    update_of_ne other _ _
  have mode_c : ((s.set p x).setMode c mode).mode c = mode := update_self ..
  obtain ⟨owned, only⟩ := placed.children child used
  refine ⟨fun c' q => ?_, fun c' q there => ?_, fun q gone => ?_, owned, only, placed.calm⟩
  · by_cases same : c' = c
    · subst same
      rw [mode_c]
      rcases eq_or_ne q p with rfl | other
      · rw [here]
        exact ⟨fun proc => ⟨rfl, proc⟩, And.right⟩
      · rw [rest q other]
        exact ⟨fun proc => absurd (mine q proc) other, fun there => absurd (before q there) other⟩
    · rw [modes c' same, placed.home_iff]
      rcases eq_or_ne q p with rfl | other
      · rw [here]
        exact ⟨fun there => absurd (away c' there) same, fun both => absurd both.1 same⟩
      · rw [rest q other]
  · rcases eq_or_ne q p with rfl | other
    · obtain ⟨rfl, -⟩ := (here c').mp there
      rw [mode_c, setMode_proc_list, set_self]
      exact on there
    · rw [rest q other] at there
      have same : c' ≠ c := fun same => other (before q (same ▸ there))
      rw [modes c' same, setMode_proc_list, set_other_entry s x other]
      exact placed.on c' q there
  · rcases eq_or_ne q p with rfl | other
    · rw [setMode_proc_list, set_self]
      exact off gone
    · rw [rest q other] at gone
      rw [setMode_proc_list, set_other_entry s x other]
      exact placed.off q gone

theorem set (on : ∀ c, home p = some c → On c x (s.mode c)) (off : home p = none → Off x)
    (child : ∀ np, x.thread.child = some np → (s.proc_list p).thread.child = some np)
    (used : (s.proc_list p).status = .USED → x.status ≠ .USED →
      ∀ p', (s.proc_list p').thread.child ≠ some p) : Placed (s.set p x) home := by
  obtain ⟨owned, only⟩ := placed.children child used
  refine ⟨placed.home_iff, fun c q here => ?_, fun q away => ?_, owned, only, placed.calm⟩
  · rcases eq_or_ne q p with rfl | other
    · rw [set_self]
      exact on c here
    · rw [set_other_entry s x other]
      exact placed.on c q here
  · rcases eq_or_ne q p with rfl | other
    · rw [set_self]
      exact off away
    · rw [set_other_entry s x other]
      exact placed.off q away

/-- A process that sleeps and whose lock is free is on no processor. -/
theorem off_of_parked (parked : Parked (s.proc_list q).status)
    (free : (s.proc_list q).lock = none) : home q = none := by
  cases here : home q with
  | none => rfl
  | some c =>
    have on := placed.on c q here
    have proc := (placed.home_iff c q).mpr here
    cases mode : s.mode c with
    | loop => simp [mode, Mode.proc] at proc
    | enter r =>
      rw [mode] at on
      rw [on.2.1] at free
      cases free
    | run r =>
      rw [mode] at on
      simp only [On] at on
      cases thread : (s.proc_list q).thread with
      | switched slept next | sched slept next =>
        rw [thread] at on
        rw [on.2] at free
        cases free
      | code point =>
        rw [thread] at on
        rcases parked with status | status | status <;> rw [on.1] at status <;> cases status
    | save r =>
      rw [mode] at on
      rw [on.2.1] at free
      cases free
    | leave r =>
      rw [mode] at on
      rw [on.2.1] at free
      cases free

theorem off_of_unready
    (unready : (s.proc_list q).status = .UNUSED ∨ (s.proc_list q).status = .USED) :
    home q = none := by
  cases here : home q with
  | none => rfl
  | some c =>
    have on := placed.on c q here
    have proc := (placed.home_iff c q).mpr here
    have clash : ∀ status, (s.proc_list q).status = status → status = .RUNNING ∨ Parked status →
        False := by
      rintro status rfl ready
      rcases unready with status | status <;> rw [status] at ready <;> simp [Parked] at ready
    cases mode : s.mode c with
    | loop => simp [mode, Mode.proc] at proc
    | enter r =>
      rw [mode] at on
      exact (clash _ rfl (.inl on.1)).elim
    | run r =>
      rw [mode] at on
      simp only [On] at on
      cases thread : (s.proc_list q).thread with
      | sched slept next =>
        rw [thread] at on
        exact (clash _ rfl (.inr on.1)).elim
      | code point | switched slept next =>
        rw [thread] at on
        exact (clash _ rfl (.inl on.1)).elim
    | save r | leave r =>
      rw [mode] at on
      exact (clash _ rfl (.inr on.1)).elim

theorem not_used (had : (s.mode c).proc = some p) : (s.proc_list p).status ≠ .USED := fun used => by
  have away := placed.off_of_unready (.inr used)
  rw [(placed.home_iff c p).mp had] at away
  cases away

theorem home_run (runs : s.mode c = .run p) : home p = some c :=
  (placed.home_iff c p).mp (by rw [runs]; rfl)

theorem runs (runs : s.mode c = .run p) : Runs c (s.proc_list p) (s.proc_list p).thread := by
  have on := placed.on c p (placed.home_run runs)
  rwa [runs] at on

theorem running (runs : s.mode c = .run p) (code : (s.proc_list p).thread = .code point) :
    (s.proc_list p).status = .RUNNING ∧ (s.proc_list p).lock = none := by
  have here := placed.runs runs
  rwa [code] at here

theorem set_run (runs : s.mode c = .run p) (here : Runs c x x.thread)
    (child : ∀ np, x.thread.child = some np → (s.proc_list p).thread.child = some np) :
    Placed (s.set p x) home := by
  have home_p := placed.home_run runs
  refine placed.set (fun c' same => ?_) (fun away => ?_) child fun used => ?_
  · cases home_p.symm.trans same
    rw [runs]
    exact here
  · rw [home_p] at away
    cases away
  · exact absurd used (placed.not_used (by rw [runs]; rfl))

theorem goto (runs : s.mode c = .run p) {old : Point} (code : (s.proc_list p).thread = .code old)
    (child : ∀ np, point.child = some np → old.child = some np) : Placed (s.goto p point) home := by
  refine placed.set_run runs (placed.running runs code) fun np owns => ?_
  rw [code]
  exact child np owns

/-- Making a process that sleeps runnable keeps it where it is. -/
theorem rouse (asleep : (s.proc_list q).status = .SLEEPING)
    (free : (s.proc_list q).lock = none) (status : x.status = .RUNNABLE)
    (same : x.lock = (s.proc_list q).lock ∧ x.thread = (s.proc_list q).thread ∧
      x.saved = (s.proc_list q).saved) : Placed (s.set q x) home := by
  have away := placed.off_of_parked (.inr (.inl asleep)) free
  refine placed.set (fun c here => ?_) (fun _ => ?_) (fun np owns => ?_) fun used => ?_
  · rw [away] at here
    cases here
  · have parked := (placed.off q away).parked (.inr (.inl asleep))
    rw [← same.1, ← same.2.1, ← same.2.2] at parked
    exact ⟨by rw [status]; decide, fun _ => parked, fun used => by rw [status] at used; cases used⟩
  · rwa [same.2.1] at owns
  · rw [asleep] at used
    cases used

omit placed in
theorem wake_thread (x : Process Cpu) (chan : Option Chan) : (x.wake chan).thread = x.thread := by
  unfold Process.wake
  split <;> rfl

theorem wake (free : (s.proc_list q).lock = none)
    (chan : Option Chan) : Placed (s.set q ((s.proc_list q).wake chan)) home := by
  unfold Process.wake
  split
  · next asleep => exact placed.rouse asleep.1 free rfl ⟨rfl, rfl, rfl⟩
  · have same : s.set q (s.proc_list q) = s := by simp [State.set]
    rwa [same]

/-- Fields that say nothing about where a process is can be changed. -/
theorem set_other
    (same : x.lock = (s.proc_list q).lock ∧ x.thread = (s.proc_list q).thread ∧
      x.saved = (s.proc_list q).saved ∧ x.status = (s.proc_list q).status) :
    Placed (s.set q x) home := by
  obtain ⟨lock, thread, saved, status⟩ := same
  refine placed.set (fun c here => ?_) (fun away => ?_) (fun np owns => by rwa [thread] at owns)
    fun used changed => ?_
  · have on := placed.on c q here
    cases mode : s.mode c with
    | run r =>
      rw [mode] at on
      simp only [On, thread] at on ⊢
      cases code : (s.proc_list q).thread <;> rw [code] at on <;>
        simpa only [Runs, lock, status] using on
    | loop =>
      rw [mode] at on
      exact on
    | enter r | save r | leave r =>
      rw [mode] at on
      simpa only [On, lock, thread, saved, status] using on
  · obtain ⟨stopped, parked, fresh⟩ := placed.off q away
    rw [← status] at stopped parked fresh
    rw [← lock, ← thread, ← saved] at parked fresh
    exact ⟨stopped, parked, fresh⟩
  · exact absurd (status.trans used) changed

omit placed in
theorem ret (placed : Placed (s.goto p .outside) home) {value : Int} : Placed (s.ret p value) home := by
  have same : s.ret p value =
      (s.goto p .outside).set p { (s.goto p .outside).proc_list p with a0 := value } := by
    simp [State.ret, State.goto, State.set]
  rw [same]
  exact placed.set_other ⟨rfl, rfl, rfl, rfl⟩

theorem kill (free : (s.proc_list q).lock = none) : Placed (s.set q (s.proc_list q).kill) home := by
  by_cases asleep : (s.proc_list q).status = .SLEEPING
  · exact placed.rouse asleep free (by simp [Process.kill, asleep]) ⟨rfl, rfl, rfl⟩
  · exact placed.set_other ⟨rfl, rfl, rfl, by simp [Process.kill, asleep]⟩

theorem take (runs : s.mode c = .run p) {old next : Point}
    (code : (s.proc_list p).thread = .code old) {slept : Bool}
    (thread : x.thread = .sched slept next) (lock : x.lock = some c) (parked : Parked x.status)
    (child : ∀ np, next.child = some np → old.child = some np) : Placed (s.set p x) home := by
  refine placed.set_run runs ?_ fun np owns => ?_
  · rw [thread]
    exact ⟨parked, lock⟩
  · rw [thread] at owns
    rw [code]
    exact child np owns

theorem stop (runs : s.mode c = .run p)
    (code : (s.proc_list p).thread = .code point) {status : Status} (parked : Parked status)
    {chan : Option Chan} {slept : Bool}
    (ran : s.stop c p status chan slept point = some t) : Placed t home := by
  obtain ⟨-, rfl⟩ := locking_eq_some.mp ran
  exact placed.take runs code rfl rfl parked fun np owns => owns

theorem set_off (away : home q = none)
    (off : Off x) (child : ∀ np, x.thread.child = some np → (s.proc_list q).thread.child = some np)
    (used : (s.proc_list q).status = .USED → x.status ≠ .USED →
      ∀ p', (s.proc_list p').thread.child ≠ some q) : Placed (s.set q x) home := by
  refine placed.set (fun c here => ?_) (fun _ => off) child used
  rw [away] at here
  cases here

omit placed in
theorem set_thread (s : State Cpu) (same : x.thread = (s.proc_list q).thread) (r : Slot) :
    ((s.set q x).proc_list r).thread = (s.proc_list r).thread := by
  rcases eq_or_ne r q with rfl | other
  · rw [set_self, same]
  · rw [set_other_entry s x other]

omit placed in
theorem set_goto_comm (s : State Cpu) {p : Slot} (x : Process Cpu) (other : q ≠ p) (point : Point) :
    (s.set q x).goto p point = (s.goto p point).set q x := by
  unfold State.goto
  rw [set_other_entry s x other.symm]
  unfold State.set
  congr 1
  exact Function.update_comm other ..

section

variable (runs : s.mode c = .run p)
include runs

/-- The entry that `fork` has been given is not that of the parent. -/
theorem child_ne {np : Slot}
    (code : (s.proc_list p).thread = .code point) (owns : point.child = some np) : np ≠ p := by
  rintro rfl
  have used := placed.child np np (by rw [code]; exact owns)
  rw [(placed.running runs code).1] at used
  cases used

/-- `fork` goes on with the entry it has found, which nobody else can have. -/
theorem adopt {old : Point}
    (code : (s.proc_list p).thread = .code old) {np : Slot} (used : (s.proc_list np).status = .USED)
    (alone : ∀ p', (s.proc_list p').thread.child ≠ some np) :
    Placed (s.goto p (.copying np)) home := by
  have other : ∀ {q}, q ≠ p → (s.goto p (.copying np)).proc_list q = s.proc_list q :=
    fun {_} apart => set_other_entry _ _ apart
  have self : (s.goto p (.copying np)).proc_list p =
      { s.proc_list p with thread := .code (.copying np) } := set_self ..
  have kept : ∀ q, ((s.goto p (.copying np)).proc_list q).status = (s.proc_list q).status := by
    intro q
    rcases eq_or_ne q p with rfl | apart
    · rw [self]
    · rw [other apart]
  have child_p : ∀ np', ((s.goto p (.copying np)).proc_list p).thread.child = some np' → np = np' := by
    rw [self]
    exact fun _ owns => Option.some.inj owns
  refine ⟨placed.home_iff, fun c' q there => ?_, fun q away => ?_, fun q np' owns => ?_,
    fun q q' np' owns owns' => ?_, placed.calm⟩
  · rcases eq_or_ne q p with rfl | apart
    · cases (placed.home_run runs).symm.trans there
      change On c _ (s.mode c)
      rw [runs, self]
      exact placed.running runs code
    · rw [other apart]
      exact placed.on c' q there
  · rcases eq_or_ne q p with rfl | apart
    · rw [placed.home_run runs] at away
      cases away
    · rw [other apart]
      exact placed.off q away
  · rw [kept]
    rcases eq_or_ne q p with rfl | apart
    · exact child_p np' owns ▸ used
    · rw [other apart] at owns
      exact placed.child q np' owns
  · rcases eq_or_ne q p with same | apart <;> rcases eq_or_ne q' p with same' | apart'
    · exact same.trans same'.symm
    · rw [same] at owns
      rw [other apart', ← child_p np' owns] at owns'
      exact absurd owns' (alone q')
    · rw [same'] at owns'
      rw [other apart, ← child_p np' owns'] at owns
      exact absurd owns (alone q)
    · rw [other apart] at owns
      rw [other apart'] at owns'
      exact placed.only q q' np' owns owns'

/-- `fork` lets go of the child. -/
theorem release {np : Slot}
    (code : (s.proc_list p).thread = .code point) (owns : point.child = some np) (off : Off x)
    (child : ∀ np', x.thread.child = some np' → (s.proc_list np).thread.child = some np') :
    Placed ((s.set np x).goto p .outside) home := by
  have other := placed.child_ne runs code owns
  have owned : (s.proc_list p).thread.child = some np := by
    rw [code]
    exact owns
  have away := placed.off_of_unready (.inr (placed.child p np owned))
  rw [set_goto_comm s x other]
  have after : Placed (s.goto p .outside) home := placed.goto runs code nofun
  have same : (s.goto p .outside).proc_list np = s.proc_list np := set_other_entry _ _ other
  refine after.set_off away off (by rwa [same]) fun _ _ p' owns' => ?_
  rcases eq_or_ne p' p with rfl | apart
  · rw [State.goto, set_self] at owns'
    cases owns'
  · rw [State.goto, set_other_entry _ _ apart] at owns'
    exact apart (placed.only p' p np owns' owned)

theorem start (code : (s.proc_list p).thread = .code .outside) {call : Call}
    (ran : s.start p call = some t) : Placed t home := by
  cases call with
  | fork | wait | kill =>
    cases ran
    exact placed.goto runs code fun _ owns => owns
  | exit status =>
    cases ran
    split
    · exact placed.fail (by decide)
    · exact placed.goto runs code fun _ owns => owns
  | set_killed =>
    obtain ⟨-, rfl⟩ := locking_eq_some.mp ran
    exact placed.set_other ⟨rfl, rfl, rfl, rfl⟩
  | change =>
    cases ran
    exact placed.set_other ⟨rfl, rfl, rfl, rfl⟩

end

omit placed in
theorem set_goto (after : Placed (s.set q x) home)
    (runs : s.mode c = .run p) {old : Point} (code : (s.proc_list p).thread = .code old)
    (same : x.thread = (s.proc_list q).thread)
    (child : ∀ np, point.child = some np → old.child = some np) :
    Placed ((s.set q x).goto p point) home :=
  after.goto runs ((set_thread s same p).trans code) child

theorem alloc (runs : s.mode c = .run p) {todo : List Slot}
    (code : (s.proc_list p).thread = .code (.allocating (q :: todo))) :
    Placed (s.alloc c p q todo) home := by
  simp only [State.alloc]
  split
  next unused =>
    have away := placed.off_of_unready (.inl unused)
    have kept : ∀ r, ((s.set q { s.proc_list q with
        lock := some c, pid := s.next_pid, status := .USED }).proc_list r).thread =
          (s.proc_list r).thread := set_thread s rfl
    have after := placed.set_off away
      (x := { s.proc_list q with lock := some c, pid := s.next_pid, status := .USED })
      ⟨nofun, fun parked => by simp [Parked] at parked, nofun⟩
      (fun _ owns => owns) (fun used => by rw [unused] at used; cases used)
    refine (after.congr (t := { s.set q _ with next_pid := (s.next_pid + 1) % 2 ^ 32 }) rfl rfl
      after.calm).adopt runs ((kept p).trans code) ?_ ?_
    · exact congrArg Process.status (set_self s q _)
    · intro p' owns
      have owned := placed.child p' q ((congrArg Thread.child (kept p')).symm.trans owns)
      rw [unused] at owned
      cases owned
  next => exact placed.goto runs code fun _ owns => owns

variable [DecidableEq Cpu]

theorem pick (idle : s.mode c = .loop)
    (free : (s.proc_list p).lock = none) (can : (s.proc_list p).status = .RUNNABLE) :
    ∃ home', Placed ((s.set p { s.proc_list p with lock := some c, status := .RUNNING }).setMode c
      (.enter p)) home' := by
  have away := placed.off_of_parked (.inl can) free
  obtain ⟨-, switched, saved⟩ := (placed.off p away).parked (.inl can)
  refine ⟨update home p (some c), placed.move (fun q other => update_of_ne other _ _)
    (fun c' => ?_) (fun q same => (Option.some.inj same).symm) (fun q here => ?_) (fun c' here => ?_)
    (fun _ => ⟨rfl, rfl, switched, saved⟩) (fun gone => ?_) (fun np owns => owns) fun used => ?_⟩
  · rw [update_self]
    exact ⟨fun same => ⟨(Option.some.inj same).symm, rfl⟩, fun both => by rw [both.1]⟩
  · have proc := (placed.home_iff c q).mpr here
    rw [idle] at proc
    cases proc
  · rw [away] at here
    cases here
  · rw [update_self] at gone
    cases gone
  · rw [can] at used
    cases used

theorem move_same {mode : Mode} (had : (s.mode c).proc = some p)
    (has : mode.proc = some p) (on : On c x mode)
    (child : ∀ np, x.thread.child = some np → (s.proc_list p).thread.child = some np)
    (used : (s.proc_list p).status ≠ .USED) : Placed ((s.set p x).setMode c mode) home := by
  have here : home p = some c := (placed.home_iff c p).mp had
  refine placed.move (fun _ _ => rfl) (fun c' => ?_) (fun q same => ?_) (fun q there => ?_)
    (fun c' there => ?_) (fun _ => on) (fun gone => ?_) child fun status => absurd status used
  · rw [here]
    exact ⟨fun same => ⟨(Option.some.inj same).symm, has⟩, fun both => by rw [both.1]⟩
  · exact Option.some.inj (same.symm.trans has)
  · exact Option.some.inj (((placed.home_iff c q).mpr there).symm.trans had)
  · exact Option.some.inj (there.symm.trans here)
  · rw [here] at gone
    cases gone

theorem sched (runs : s.mode c = .run p) {slept : Bool} {next : Point}
    (thread : (s.proc_list p).thread = .sched slept next) :
    Placed (s.sched c p slept next) home := by
  have here := placed.runs runs
  rw [thread] at here
  have had : (s.mode c).proc = some p := by
    rw [runs]
    rfl
  rw [State.sched, if_pos here.2]
  refine placed.move_same had rfl ⟨here.1, here.2, trivial⟩ (fun np owns => ?_) (placed.not_used had)
  rw [thread]
  exact owns

theorem resume (runs : s.mode c = .run p) {slept : Bool} {next : Point}
    (thread : (s.proc_list p).thread = .switched slept next) :
    Placed (s.resume c p slept next) home := by
  have here := placed.runs runs
  rw [thread] at here
  rw [State.resume, if_pos here.2]
  refine placed.set_run runs ⟨here.1, rfl⟩ fun np owns => ?_
  rw [thread]
  exact owns

theorem save (saves : s.mode c = .save p) :
    Placed ((s.set p { s.proc_list p with saved := true }).setMode c (.leave p)) home := by
  have had : (s.mode c).proc = some p := by
    rw [saves]
    rfl
  have on := placed.on c p ((placed.home_iff c p).mp had)
  rw [saves] at on
  exact placed.move_same had rfl ⟨on.1, on.2.1, on.2.2, rfl⟩ (fun np owns => owns) (placed.not_used had)

theorem enter (enters : s.mode c = .enter p) : Placed (s.setMode c (.run p)) home := by
  have had : (s.mode c).proc = some p := by
    rw [enters]
    rfl
  obtain ⟨status, lock, switched, -⟩ := enters ▸ placed.on c p ((placed.home_iff c p).mp had)
  have here : Runs c (s.proc_list p) (s.proc_list p).thread := by
    cases thread : (s.proc_list p).thread with
    | switched => exact ⟨status, lock⟩
    | code | sched =>
      rw [thread] at switched
      exact switched.elim
  have same : s.set p (s.proc_list p) = s := by simp [State.set]
  exact same ▸ placed.move_same had rfl here (fun np owns => owns) (placed.not_used had)

theorem leave (leaves : s.mode c = .leave p) :
    ∃ home', Placed ((s.set p { s.proc_list p with lock := none }).setMode c .loop) home' := by
  have had : (s.mode c).proc = some p := by
    rw [leaves]
    rfl
  have here := (placed.home_iff c p).mp had
  obtain ⟨parked, -, switched, saved⟩ := leaves ▸ placed.on c p here
  refine ⟨update home p none, placed.move (fun q other => update_of_ne other _ _)
    (fun c' => ?_) (fun q same => ?_) (fun q there => ?_) (fun c' there => ?_) (fun gone => ?_)
    (fun _ => ⟨?_, fun _ => ⟨rfl, switched, saved⟩, fun _ _ => ⟨switched, saved⟩⟩)
    (fun np owns => owns) fun used => absurd used (placed.not_used had)⟩
  · rw [update_self]
    exact ⟨nofun, fun both => (nomatch both.2)⟩
  · cases same
  · exact Option.some.inj (((placed.home_iff c q).mpr there).symm.trans had)
  · exact Option.some.inj (there.symm.trans here)
  · rw [update_self] at gone
    cases gone
  · intro running
    change (s.proc_list p).status = _ at running
    rw [running] at parked
    rcases parked with status | status | status <;> cases status

section

variable (runs : s.mode c = .run p)
include runs

theorem copy {np : Slot}
    (code : (s.proc_list p).thread = .code (.copying np)) (memory : Option (Nat × Nat)) :
    Placed (s.copy c p np memory) home := by
  have other := placed.child_ne runs code rfl
  simp only [State.copy]
  split
  next =>
    cases memory with
    | none =>
      refine Placed.ret ?_
      refine placed.release runs code rfl ?_ fun _ owns => owns
      exact ⟨nofun, fun parked => by simp [Process.free, Parked] at parked, nofun⟩
    | some frames =>
      have used := placed.child p np (by rw [code]; rfl)
      have away := placed.off_of_unready (.inr used)
      refine Placed.goto (placed.set_off away ⟨?_, ?_, ?_⟩ ?_ ?_) runs
        (?_ : _ = Thread.code (.copying np)) fun _ owns => owns
      · exact fun status => by simp [used] at status
      · exact fun parked => by simp [used, Parked] at parked
      · exact fun _ _ => ⟨trivial, rfl⟩
      · exact nofun
      · exact fun _ changed => absurd used changed
      · rw [set_other_entry _ _ other.symm]
        exact code
  next => exact placed.fail (by decide)

theorem scan {havekids : Bool}
    {todo : List Slot} (code : (s.proc_list p).thread = .code (.scanning havekids (q :: todo)))
    (free : (s.proc_list q).lock = none) (copied : Bool) :
    Placed (s.scan c p q todo copied) home := by
  simp only [State.scan]
  split
  next zombie =>
    split
    next =>
      have away := placed.off_of_parked (.inr (.inr zombie)) free
      have after := placed.set_off away (x := (s.proc_list q).free)
        ⟨nofun, fun parked => by simp [Process.free, Parked] at parked, nofun⟩ (fun _ owns => owns)
        (fun used => by rw [zombie] at used; cases used)
      have there : Placed ((s.set q (s.proc_list q).free).goto p .outside) home :=
        after.set_goto runs code rfl fun _ owns => owns
      exact placed.unlock (there.ret.congr rfl rfl there.calm)
    next => exact placed.unlock (Placed.ret (placed.goto runs code nofun))
  next => exact placed.goto runs code fun _ owns => owns

theorem die {status : Int}
    (code : (s.proc_list p).thread = .code (.dying status)) : Placed (s.die c p status) home := by
  have after := placed.take runs code rfl rfl (.inr (.inr rfl)) (fun _ owns => owns)
    (x := { s.proc_list p with
      lock := some c, xstate := status, status := .ZOMBIE, thread := .sched false .dead })
  exact placed.unlock (after.congr rfl rfl after.calm)

theorem advance (code : (s.proc_list p).thread = .code point) {answer : Answer}
    (ran : s.advance c p answer point = some t) : Placed t home := by
  have goto : ∀ {next : Point}, (∀ np, next.child = some np → point.child = some np) →
      Placed (s.goto p next) home := fun owns => placed.goto runs code owns
  cases point with
  | outside => cases ran
  | allocating todo =>
    cases todo with
    | nil =>
      cases ran
      exact placed.fail (by decide)
    | cons q todo =>
      obtain ⟨-, rfl⟩ := locking_eq_some.mp ran
      exact placed.alloc runs code
  | copying np =>
    cases ran
    exact placed.copy runs code _
  | linking np =>
    obtain ⟨-, rfl⟩ := waiting_eq_some.mp ran
    have after := placed.set_other (q := np) (x := { s.proc_list np with parent := some p })
      ⟨rfl, rfl, rfl, rfl⟩
    exact after.set_goto runs code rfl fun _ owns => owns
  | publishing np =>
    obtain ⟨free, rfl⟩ := locking_eq_some.mp ran
    have used := placed.child p np (by rw [code]; rfl)
    have fresh := (placed.off np (placed.off_of_unready (.inr used))).fresh used free
    refine Placed.ret ?_
    exact placed.release runs code rfl ⟨nofun, fun _ => ⟨free, fresh⟩, nofun⟩ fun _ owns => owns
  | closing status todo =>
    cases todo with
    | nil =>
      cases ran
      exact goto fun _ owns => owns
    | cons fd todo =>
      cases ran
      exact placed.set_run runs (placed.running runs code) nofun
  | leaving status =>
    obtain ⟨-, rfl⟩ := waiting_eq_some.mp ran
    have after := placed.set_run runs
      (x := { s.proc_list p with
        res := { (s.proc_list p).res with cwd := none }
        thread := .code (.reparenting status slots) })
      (placed.running runs code) nofun
    exact after.congr rfl rfl after.calm
  | reparenting status todo =>
    cases todo with
    | nil =>
      cases ran
      exact goto fun _ owns => owns
    | cons q todo =>
      cases ran
      unfold State.reparent
      split
      · have after := placed.set_other (q := q)
          (x := { s.proc_list q with parent := some init_proc }) ⟨rfl, rfl, rfl, rfl⟩
        exact after.set_goto runs code rfl fun _ owns => owns
      · exact goto fun _ owns => owns
  | rousing chan todo next =>
    cases todo with
    | nil =>
      cases ran
      exact goto fun _ owns => owns
    | cons q todo =>
      simp only [State.advance] at ran
      split at ran
      · cases ran
        exact goto fun _ owns => owns
      · obtain ⟨free, rfl⟩ := locking_eq_some.mp ran
        exact (placed.wake free chan).set_goto runs code (wake_thread _ chan) fun _ owns => owns
  | dying status =>
    obtain ⟨-, rfl⟩ := locking_eq_some.mp ran
    exact placed.die runs code
  | dead =>
    cases ran
    exact placed.fail (by decide)
  | entering =>
    obtain ⟨-, rfl⟩ := waiting_eq_some.mp ran
    have after : Placed (s.goto p (.scanning false slots)) home := goto fun _ owns => owns
    exact after.congr rfl rfl after.calm
  | scanning havekids todo =>
    cases todo with
    | nil =>
      cases ran
      split
      · exact goto fun _ owns => owns
      · exact placed.unlock (Placed.ret (goto fun _ owns => owns))
    | cons q todo =>
      simp only [State.advance] at ran
      split at ran
      · obtain ⟨free, rfl⟩ := locking_eq_some.mp ran
        exact placed.scan runs code free _
      · cases ran
        exact goto fun _ owns => owns
  | checking =>
    obtain ⟨-, rfl⟩ := locking_eq_some.mp ran
    split
    · exact placed.unlock (Placed.ret (goto fun _ owns => owns))
    · exact goto fun _ owns => owns
  | dozing =>
    obtain ⟨-, rfl⟩ := locking_eq_some.mp ran
    exact placed.unlock (placed.take runs code rfl rfl (.inr (.inl rfl)) fun _ owns => owns)
  | killing pid todo =>
    cases todo with
    | nil =>
      cases ran
      exact Placed.ret (goto fun _ owns => owns)
    | cons q todo =>
      obtain ⟨free, rfl⟩ := locking_eq_some.mp ran
      split
      · exact Placed.ret ((placed.kill free).set_goto runs code rfl fun _ owns => owns)
      · exact goto fun _ owns => owns

end

theorem step {event : Event Cpu} (ran : step s event = some t) : ∃ home', Placed t home' := by
  cases moves_of_step ran with
  | pick idle free can => exact placed.pick idle free can
  | enter enters => exact ⟨home, placed.enter enters⟩
  | start runs code ran => exact ⟨home, placed.start runs code ran⟩
  | advance runs code ran => exact ⟨home, placed.advance runs code ran⟩
  | sched runs thread => exact ⟨home, placed.sched runs thread⟩
  | resume runs thread => exact ⟨home, placed.resume runs thread⟩
  | yield runs code _ ran => exact ⟨home, placed.stop runs code (.inl rfl) ran⟩
  | sleep runs code _ ran => exact ⟨home, placed.stop runs code (.inr (.inl rfl)) ran⟩
  | wakeup free => exact ⟨home, placed.wake free _⟩
  | save saves => exact ⟨home, placed.save saves⟩
  | leave leaves held => exact placed.leave leaves
  | fail => exact ⟨home, placed.fail (by decide)⟩

end Placed

theorem user_init_other {trapframe pagetable cwd : Nat} {q : Slot} (other : q ≠ init_proc) :
    (user_init trapframe pagetable cwd : State Cpu).proc_list q = {} := by
  simp only [user_init, update_of_ne other]

theorem user_init_first (trapframe pagetable cwd : Nat) :
    (user_init trapframe pagetable cwd : State Cpu).proc_list init_proc =
      { status := .RUNNABLE, pid := 1, thread := .switched false .outside, saved := true
        res := { trapframe := some trapframe, pagetable := some pagetable, sz := 4096
                 cwd := some cwd } } := by
  simp only [user_init, update_self]

theorem placed_user_init (trapframe pagetable cwd : Nat) :
    Placed (user_init trapframe pagetable cwd : State Cpu) fun _ => none := by
  have childless : ∀ q np,
      ((user_init trapframe pagetable cwd : State Cpu).proc_list q).thread.child ≠ some np := by
    intro q np owns
    rcases eq_or_ne q init_proc with rfl | other
    · rw [user_init_first] at owns
      cases owns
    · rw [user_init_other other] at owns
      cases owns
  refine ⟨fun c p => ⟨nofun, nofun⟩, nofun,
    fun q _ => ?_, fun q np owns => absurd owns (childless q np),
    fun q _ np owns => absurd owns (childless q np), nofun⟩
  rcases eq_or_ne q init_proc with rfl | other
  · rw [user_init_first]
    exact ⟨nofun, fun _ => ⟨rfl, trivial, rfl⟩, nofun⟩
  · rw [user_init_other other]
    exact ⟨nofun, fun parked => by simp [Parked] at parked, nofun⟩

/-- A process that a processor works on runs, or its lock is held there. -/
theorem On.running_or_held {c : Cpu} {x : Process Cpu} {mode : Mode} (on : On c x mode) :
    x.status = .RUNNING ∨ x.lock = some c := by
  cases mode with
  | loop => exact on.elim
  | enter => exact .inl on.1
  | run =>
    simp only [On] at on
    cases thread : x.thread with
    | code | switched =>
      rw [thread] at on
      exact .inl on.1
    | sched =>
      rw [thread] at on
      exact .inr on.2
  | save => exact .inr on.2.1
  | leave => exact .inr on.2.1

variable [DecidableEq Cpu] {trapframe pagetable cwd : Nat} {events : List (Event Cpu)} {s : State Cpu}

theorem placed_run {guard : State Cpu → Event Cpu → Prop}
    (run : Execution.Run step guard (user_init trapframe pagetable cwd) events s) :
    ∃ home, Placed s home := by
  induction run with
  | nil => exact ⟨_, placed_user_init _ _ _⟩
  | snoc _ _ taken ih =>
    obtain ⟨_, placed⟩ := ih
    exact placed.step taken

/-- A process is `RUNNING` iff exactly one processor has it, apart from switches; no processor
switches to a process whose context is not saved, or that is `ZOMBIE` or `UNUSED`. -/
theorem runs_on_one_cpu
    (run : Execution.Run step (fun _ _ => True) (user_init trapframe pagetable cwd) events s) :
    (∀ p c c', (s.mode c).proc = some p → (s.mode c').proc = some p → c = c') ∧
    (∀ p, (∃ c, (s.mode c).proc = some p ∧ (s.proc_list p).lock = some c) ∨
      ((s.proc_list p).status = .RUNNING ↔ ∃! c, (s.mode c).proc = some p)) ∧
    (∀ p c, s.mode c = .enter p → (s.proc_list p).saved = true ∧ ∀ c', s.mode c' ≠ .save p) ∧
    (∀ p c, s.mode c = .enter p →
      (s.proc_list p).status ≠ .ZOMBIE ∧ (s.proc_list p).status ≠ .UNUSED) ∧
    s.panic ≠ some "proc::sched: should hold lock" := by
  obtain ⟨home, placed⟩ := placed_run run
  have once : ∀ p c c', (s.mode c).proc = some p → (s.mode c').proc = some p → c = c' := by
    intro p c c' has has'
    exact Option.some.inj (((placed.home_iff c p).mp has).symm.trans ((placed.home_iff c' p).mp has'))
  have entering : ∀ p c, s.mode c = .enter p → On c (s.proc_list p) (.enter p) := by
    intro p c enters
    exact enters ▸ placed.on c p ((placed.home_iff c p).mp (by rw [enters]; rfl))
  refine ⟨once, fun p => ?_, fun p c enters => ⟨(entering p c enters).2.2.2, fun c' saves => ?_⟩,
    fun p c enters => ?_, placed.calm⟩
  · cases here : home p with
    | none =>
      refine .inr ⟨fun running => absurd running (placed.off p here).stopped, ?_⟩
      rintro ⟨c, has, -⟩
      rw [(placed.home_iff c p).mp has] at here
      cases here
    | some c =>
      have has := (placed.home_iff c p).mpr here
      rcases (placed.on c p here).running_or_held with running | held
      · exact .inr ⟨fun _ => ⟨c, has, fun c' has' => once p c' c has' has⟩, fun _ => running⟩
      · exact .inl ⟨c, has, held⟩
  · obtain rfl := once p c c' (by rw [enters]; rfl) (by rw [saves]; rfl)
    rw [enters] at saves
    cases saves
  · rw [(entering p c enters).1]
    exact ⟨by decide, by decide⟩

/-- The first process is picked by a processor, runs and is preempted, and is picked by another. -/
def preempted : List (Event Bool) :=
  [.pick false init_proc, .enter false, .advance false {}, .yield false, .advance false {},
    .save false, .leave false, .pick true init_proc]

theorem runs_on_one_cpu_preempted :
    ∃ s, Execution.Run step (fun _ _ => True) (user_init 1 2 3) preempted s ∧
      s.mode true = .enter init_proc ∧ (s.proc_list init_proc).saved = true ∧
      ∀ c, s.mode c ≠ .save init_proc := by
  obtain ⟨s, run, enters⟩ : ∃ s, Execution.Run step (fun _ _ => True) (user_init 1 2 3) preempted s ∧
      decide (s.mode true = .enter init_proc) = true :=
    Execution.exists_run_of_exec (by decide +kernel)
  have enters := of_decide_eq_true enters
  obtain ⟨-, -, saved, -⟩ := runs_on_one_cpu run
  exact ⟨s, run, enters, saved init_proc true enters⟩

end OsCpp.Proc
