import OsCpp.Proc.Changes

/-!
# Entries that are used again

`exit` closes the files and gives up the working directory, `free` resets the other fields of an
entry, and `alloc_proc` relies on both.  Only `kill` changes an entry without knowing whether it is
in use.
-/

namespace OsCpp.Proc

open Execution (Run exists_run_of_exec)

variable {Cpu : Type}

/-- An entry without a trace of the process that had it. -/
structure Clean (x : Process Cpu) : Prop where
  pid : x.pid = 0
  killed : x.killed = false
  chan : x.chan = none
  parent : x.parent = none
  pagetable : x.res.pagetable = none
  trapframe : x.res.trapframe = none
  sz : x.res.sz = 0
  cwd : x.res.cwd = none
  ofile : ∀ fd, x.res.ofile fd = none

/-- The entry that `kill` finds in a step. -/
def State.hit (s : State Cpu) : Event Cpu → Option Slot
  | .advance c _ =>
    match s.mode c with
    | .run p =>
      match (s.proc_list p).thread with
      | .code (.killing pid (q :: _)) => if (s.proc_list q).pid = pid then some q else none
      | _ => none
    | _ => none
  | _ => none

/-- `kill` finds no entry that is not in use. -/
def Spares (s : State Cpu) (event : Event Cpu) : Prop :=
  ∀ q ∈ s.hit event, (s.proc_list q).status ≠ .UNUSED

instance (s : State Cpu) (event : Event Cpu) : Decidable (Spares s event) :=
  decidable_of_iff ((s.hit event).all fun q => (s.proc_list q).status ≠ .UNUSED) (by
    cases found : s.hit event <;> simp [Spares, found])

/-- No files and no working directory. -/
def Resources.Bare (res : Resources) : Prop := res.cwd = none ∧ ∀ fd, res.ofile fd = none

/-- What `exit` has given up before a point. -/
def Point.GivenUp (res : Resources) : Point → Prop
  | .closing _ todo => ∀ fd ∉ todo, res.ofile fd = none
  | .leaving _ => ∀ fd, res.ofile fd = none
  | .reparenting .. | .dying _ | .dead => res.Bare
  | .rousing _ _ next => next.GivenUp res
  | _ => True

theorem Point.givenUp_congr {res res' : Resources} {point : Point} (given : point.GivenUp res)
    (cwd : res'.cwd = res.cwd) (ofile : res'.ofile = res.ofile) : point.GivenUp res' := by
  cases res
  cases res'
  obtain rfl := cwd
  obtain rfl := ofile
  induction point with
  | rousing chan todo next ih => exact ih given
  | _ => exact given

/-- What holds of an entry at all times. -/
structure Tidy (x : Process Cpu) : Prop where
  unused : x.status = .UNUSED → Clean x
  held : x.status = .USED → x.lock ≠ none → x.res.Bare
  zombie : x.status = .ZOMBIE → x.res.Bare
  given : x.thread.point.GivenUp x.res

namespace Tidy

variable {x y : Process Cpu}

/-- Only the thread matters for a process that can run. -/
theorem of_live (live : x.status = .RUNNABLE ∨ x.status = .RUNNING ∨ x.status = .SLEEPING)
    (given : x.thread.point.GivenUp x.res) : Tidy x := by
  have clash : ∀ status, x.status = status →
      status = .RUNNABLE ∨ status = .RUNNING ∨ status = .SLEEPING := by
    rintro status rfl
    exact live
  exact ⟨fun unused => by simpa using clash _ unused, fun used => by simpa using clash _ used,
    fun zombie => by simpa using clash _ zombie, given⟩

theorem free (tidy : Tidy x) (bare : x.res.Bare) (lock : Option Cpu) :
    Tidy { x.free with lock } := by
  refine ⟨fun _ => ⟨rfl, rfl, rfl, rfl, rfl, rfl, rfl, bare.1, bare.2⟩, nofun, nofun, ?_⟩
  exact Point.givenUp_congr tidy.given rfl rfl

theorem switch (tidy : Tidy x) {lock : Option Cpu} {thread : Thread} {saved : Bool}
    (held : lock = x.lock ∨ lock = none) (same : thread.point = x.thread.point) :
    Tidy { x with lock, thread, saved } := by
  refine ⟨fun unused => ?_, fun used locked => ?_, tidy.zombie, ?_⟩
  · exact { tidy.unused unused with }
  · rcases held with rfl | rfl
    · exact tidy.held used locked
    · exact absurd rfl locked
  · change thread.point.GivenUp x.res
    rw [same]
    exact tidy.given

theorem wake (tidy : Tidy x) (chan : Option Chan) : Tidy (x.wake chan) := by
  unfold Process.wake
  split
  · exact of_live (.inl rfl) tidy.given
  · exact tidy

theorem kill (tidy : Tidy x) (used : x.status ≠ .UNUSED) : Tidy x.kill := by
  by_cases asleep : x.status = .SLEEPING
  · exact of_live (.inl (by simp [Process.kill, asleep])) tidy.given
  · have same : x.kill.status = x.status := by simp [Process.kill, asleep]
    exact ⟨fun unused => absurd (same ▸ unused) used, fun making => tidy.held (same ▸ making),
      fun zombie => tidy.zombie (same ▸ zombie), tidy.given⟩

end Tidy

/-- What holds of all entries at all times. -/
def Tidied (s : State Cpu) : Prop := ∀ q, Tidy (s.proc_list q)

namespace Tidied

variable {s : State Cpu} {home : Slot → Option Cpu} {c : Cpu} {p : Slot}

variable (tidied : Tidied s)

include tidied

variable {q : Slot} {t : State Cpu}

theorem set {x : Process Cpu} (tidy : Tidy x) : Tidied (s.set q x) := by
  intro r
  rcases eq_or_ne r q with rfl | other
  · rwa [set_self]
  · rw [set_other_entry s x other]
    exact tidied r

theorem unlock [DecidableEq Cpu] {next : State Cpu} (after : Tidied next) :
    Tidied (s.unlock c next) := by
  unfold State.unlock
  split
  · exact after
  · exact tidied

theorem goto (running : (s.proc_list p).status = .RUNNING) {point : Point}
    (given : point.GivenUp (s.proc_list p).res) : Tidied (s.goto p point) :=
  tidied.set (.of_live (.inr (.inl running)) given)

theorem ret (running : (s.proc_list p).status = .RUNNING) (value : Int) :
    Tidied (s.ret p value) := by
  have after : Tidied (s.set p { s.proc_list p with a0 := value }) :=
    tidied.set (.of_live (.inr (.inl running)) (tidied p).given)
  refine after.goto ?_ trivial
  rw [set_self]
  exact running

omit tidied in
theorem set_goto {x : Process Cpu} (after : Tidied (s.set q x)) (other : p ≠ q)
    (running : (s.proc_list p).status = .RUNNING) {point : Point}
    (given : point.GivenUp (s.proc_list p).res) : Tidied ((s.set q x).goto p point) := by
  have same := set_other_entry s x other
  exact after.goto (by rw [same]; exact running) (by rw [same]; exact given)

omit tidied in
theorem set_ret {x : Process Cpu} (after : Tidied (s.set q x)) (other : p ≠ q)
    (running : (s.proc_list p).status = .RUNNING) (value : Int) :
    Tidied ((s.set q x).ret p value) :=
  after.ret (by rw [set_other_entry s x other]; exact running) value

theorem alloc (running : (s.proc_list p).status = .RUNNING)
    {todo : List Slot} : Tidied (s.alloc c p q todo) := by
  simp only [State.alloc]
  split
  next unused =>
    have clean := (tidied q).unused unused
    have after : Tidied (s.set q { s.proc_list q with
        lock := some c, pid := s.next_pid, status := .USED }) :=
      tidied.set ⟨(by simp), fun _ _ => ⟨clean.cwd, clean.ofile⟩, (by simp), (tidied q).given⟩
    have other : p ≠ q := by
      rintro rfl
      rw [running] at unused
      cases unused
    have there : Tidied ((s.set q _).goto p (.copying q)) := after.set_goto other running trivial
    exact there
  next => exact tidied.goto running trivial

theorem reparent (running : (s.proc_list p).status = .RUNNING) {status : Int} {todo : List Slot}
    (bare : (s.proc_list p).res.Bare) : Tidied (s.reparent p status q todo) := by
  unfold State.reparent
  split
  next child =>
    have after : Tidied (s.set q { s.proc_list q with parent := some init_proc }) := by
      refine tidied.set ⟨fun unused => ?_, (tidied q).held, (tidied q).zombie, (tidied q).given⟩
      have clean := (tidied q).unused unused
      rw [clean.parent] at child
      cases child
    have kept : ((s.set q { s.proc_list q with parent := some init_proc }).proc_list p).status =
        (s.proc_list p).status ∧
        ((s.set q { s.proc_list q with parent := some init_proc }).proc_list p).res =
        (s.proc_list p).res := by
      rcases eq_or_ne p q with rfl | other
      · rw [set_self]
        exact ⟨rfl, rfl⟩
      · rw [set_other_entry _ _ other]
        exact ⟨rfl, rfl⟩
    exact after.goto (kept.1.trans running) (by rw [kept.2]; exact bare)
  next => exact tidied.goto running bare

theorem start (placed : Placed s home) (runs : s.mode c = .run p)
    (code : (s.proc_list p).thread = .code .outside) {call : Call}
    (ran : s.start p call = some t) : Tidied t := by
  have running := (placed.running runs code).1
  cases call with
  | fork | wait | kill =>
    cases ran
    exact tidied.goto running trivial
  | exit status =>
    cases ran
    split
    · exact tidied
    · exact tidied.goto running fun fd closed => absurd (List.mem_finRange fd) closed
  | set_killed =>
    obtain ⟨-, rfl⟩ := locking_eq_some.mp ran
    exact tidied.set (.of_live (.inr (.inl running)) (tidied p).given)
  | change =>
    cases ran
    refine tidied.set (.of_live (.inr (.inl running)) ?_)
    rw [code]
    trivial

theorem stop {point : Point} (code : (s.proc_list p).thread = .code point)
    {status : Status} (live : status = .RUNNABLE ∨ status = .RUNNING ∨ status = .SLEEPING)
    {chan : Option Chan} {slept : Bool}
    (ran : s.stop c p status chan slept point = some t) : Tidied t := by
  obtain ⟨-, rfl⟩ := locking_eq_some.mp ran
  have given := (tidied p).given
  rw [code] at given
  exact tidied.set (.of_live live given)

variable [DecidableEq Cpu]

theorem copy (running : (s.proc_list p).status = .RUNNING) {np : Slot}
    (used : (s.proc_list np).status = .USED) {memory : Option (Nat × Nat)} :
    Tidied (s.copy c p np memory) := by
  have other : p ≠ np := by
    rintro rfl
    rw [running] at used
    cases used
  simp only [State.copy]
  split
  next held =>
    have bare := (tidied np).held used (by rw [held]; exact Option.some_ne_none c)
    cases memory with
    | none => exact (tidied.set ((tidied np).free bare none)).set_ret other running _
    | some frames =>
      refine Tidied.set_goto (tidied.set ⟨?_, ?_, ?_, ?_⟩) other running trivial
      · exact fun unused => by simp [used] at unused
      · exact fun _ locked => absurd rfl locked
      · exact fun zombie => by simp [used] at zombie
      · trivial
  next => exact tidied

theorem scan (running : (s.proc_list p).status = .RUNNING)
    {todo : List Slot} {copied : Bool} : Tidied (s.scan c p q todo copied) := by
  simp only [State.scan]
  split
  next zombie =>
    have other : p ≠ q := by
      rintro rfl
      rw [running] at zombie
      cases zombie
    split
    next =>
      have freed := (tidied q).free ((tidied q).zombie zombie) (s.proc_list q).lock
      exact tidied.unlock ((tidied.set freed).set_ret other running _)
    next => exact tidied.unlock (tidied.ret running _)
  next => exact tidied.goto running trivial

theorem advance (placed : Placed s home) (runs : s.mode c = .run p) {point : Point}
    (code : (s.proc_list p).thread = .code point) {answer : Answer}
    (spares : Spares s (.advance c answer))
    (ran : s.advance c p answer point = some t) : Tidied t := by
  have running := (placed.running runs code).1
  have given : point.GivenUp (s.proc_list p).res := by
    have given := (tidied p).given
    rwa [code] at given
  have goto : ∀ {next : Point}, next.GivenUp (s.proc_list p).res → Tidied (s.goto p next) :=
    fun given => tidied.goto running given
  cases point with
  | outside => cases ran
  | allocating todo =>
    cases todo with
    | nil =>
      cases ran
      exact tidied
    | cons q todo =>
      obtain ⟨-, rfl⟩ := locking_eq_some.mp ran
      exact tidied.alloc running
  | copying np =>
    cases ran
    exact tidied.copy running (placed.child p np (by rw [code]; rfl))
  | linking np =>
    obtain ⟨-, rfl⟩ := waiting_eq_some.mp ran
    have used := placed.child p np (by rw [code]; rfl)
    have after : Tidied (s.set np { s.proc_list np with parent := some p }) :=
      tidied.set ⟨fun unused => absurd (unused.symm.trans used) (by decide), (tidied np).held,
        (tidied np).zombie, (tidied np).given⟩
    exact after.set_goto (placed.child_ne runs code rfl).symm running trivial
  | publishing np =>
    obtain ⟨-, rfl⟩ := locking_eq_some.mp ran
    have after : Tidied (s.set np { s.proc_list np with status := .RUNNABLE }) :=
      tidied.set (.of_live (.inl rfl) (tidied np).given)
    exact after.set_ret (placed.child_ne runs code rfl).symm running _
  | closing status todo =>
    cases todo with
    | nil =>
      cases ran
      exact goto fun fd => given fd List.not_mem_nil
    | cons fd todo =>
      cases ran
      refine tidied.set (.of_live (.inr (.inl running)) fun fd' done => ?_)
      rcases eq_or_ne fd' fd with rfl | other
      · exact Function.update_self ..
      · change Function.update (s.proc_list p).res.ofile fd none fd' = none
        rw [Function.update_of_ne other]
        exact given fd' (by simp [other, done])
  | leaving status =>
    obtain ⟨-, rfl⟩ := waiting_eq_some.mp ran
    exact tidied.set (.of_live (.inr (.inl running)) ⟨rfl, given⟩)
  | reparenting status todo =>
    cases todo with
    | nil =>
      cases ran
      exact goto given
    | cons q todo =>
      cases ran
      exact tidied.reparent running given
  | rousing chan todo next =>
    cases todo with
    | nil =>
      cases ran
      exact goto given
    | cons q todo =>
      simp only [State.advance] at ran
      split at ran
      · cases ran
        exact goto given
      next other =>
        obtain ⟨-, rfl⟩ := locking_eq_some.mp ran
        exact (tidied.set ((tidied q).wake chan)).set_goto (Ne.symm other) running given
  | dying status =>
    obtain ⟨-, rfl⟩ := locking_eq_some.mp ran
    exact tidied.unlock (tidied.set ⟨(by simp), (by simp), fun _ => given, given⟩)
  | dead =>
    cases ran
    exact tidied
  | entering =>
    obtain ⟨-, rfl⟩ := waiting_eq_some.mp ran
    have after : Tidied (s.goto p (.scanning false slots)) := goto trivial
    exact after
  | scanning havekids todo =>
    cases todo with
    | nil =>
      cases ran
      split
      · exact goto trivial
      · exact tidied.unlock (tidied.ret running _)
    | cons q todo =>
      simp only [State.advance] at ran
      split at ran
      · obtain ⟨-, rfl⟩ := locking_eq_some.mp ran
        exact tidied.scan running
      · cases ran
        exact goto trivial
  | checking =>
    obtain ⟨-, rfl⟩ := locking_eq_some.mp ran
    split
    · exact tidied.unlock (tidied.ret running _)
    · exact goto trivial
  | dozing =>
    obtain ⟨-, rfl⟩ := locking_eq_some.mp ran
    exact tidied.unlock (tidied.set (.of_live (.inr (.inr rfl)) trivial))
  | killing pid todo =>
    cases todo with
    | nil =>
      cases ran
      exact tidied.ret running _
    | cons q todo =>
      obtain ⟨-, rfl⟩ := locking_eq_some.mp ran
      split
      next found =>
        have used : (s.proc_list q).status ≠ .UNUSED :=
          spares q (by simp [State.hit, runs, code, found])
        have after := tidied.set (q := q) ((tidied q).kill used)
        refine after.ret ?_ _
        rcases eq_or_ne p q with rfl | other
        · rw [set_self]
          simp [Process.kill, running]
        · rw [set_other_entry _ _ other]
          exact running
      next => exact goto trivial

theorem step (placed : Placed s home) {event : Event Cpu} (spares : Spares s event)
    (ran : step s event = some t) : Tidied t := by
  cases moves_of_step ran with
  | @pick c p => exact tidied.set (.of_live (.inr (.inl rfl)) (tidied p).given)
  | enter | fail => exact tidied
  | start runs code ran => exact tidied.start placed runs code ran
  | advance runs code ran => exact tidied.advance placed runs code spares ran
  | @sched c p _ _ _ runs thread =>
    unfold State.sched
    split
    · exact tidied.set ((tidied p).switch (.inl rfl) (by rw [thread]; rfl))
    · exact tidied
  | @resume c p _ _ _ runs thread =>
    have here := placed.runs runs
    have given := (tidied p).given
    rw [thread] at here given
    simp only [State.resume]
    split
    · exact tidied.set (.of_live (.inr (.inl here.1)) given)
    · exact tidied
  | yield runs code _ ran => exact tidied.stop code (.inl rfl) ran
  | sleep runs code _ ran => exact tidied.stop code (.inr (.inr rfl)) ran
  | @wakeup c chan q => exact tidied.set ((tidied q).wake _)
  | @save c p => exact tidied.set ((tidied p).switch (.inl rfl) rfl)
  | @leave c p => exact tidied.set ((tidied p).switch (.inr rfl) rfl)

end Tidied

theorem tidied_user_init (trapframe pagetable cwd : Nat) :
    Tidied (user_init trapframe pagetable cwd : State Cpu) := by
  intro q
  rcases eq_or_ne q init_proc with rfl | other
  · rw [user_init_first]
    exact .of_live (.inl rfl) trivial
  · rw [user_init_other other]
    exact ⟨fun _ => ⟨rfl, rfl, rfl, rfl, rfl, rfl, rfl, rfl, fun _ => rfl⟩, nofun, nofun, trivial⟩

section

variable [DecidableEq Cpu] {trapframe pagetable cwd : Nat} {events : List (Event Cpu)} {s t : State Cpu}
  {event : Event Cpu}

theorem tidied_run
    (run : Run step Spares (user_init trapframe pagetable cwd) events s) :
    Tidied s ∧ ∃ home, Placed s home := by
  induction run with
  | nil => exact ⟨tidied_user_init _ _ _, _, placed_user_init _ _ _⟩
  | snoc _ spares taken ih =>
    obtain ⟨tidied, _, placed⟩ := ih
    exact ⟨tidied.step placed spares taken, placed.step taken⟩

theorem step_hit {q : Slot} (hit : s.hit event = some q) (taken : step s event = some t) :
    ∃ c p, s.mode c = .run p ∧ (∃ point, (s.proc_list p).thread = .code point) ∧
      t = (s.set q (s.proc_list q).kill).ret p 0 := by
  cases event with
  | advance c answer =>
    simp only [State.hit] at hit
    split at hit
    next p runs =>
      split at hit
      next pid q' todo code =>
        obtain ⟨found, same⟩ := Option.ite_none_right_eq_some.mp hit
        cases same
        simp only [step, runs, Option.ite_none_right_eq_some, State.proceed, code, State.advance,
          locking_eq_some, if_pos found] at taken
        exact ⟨c, p, runs, ⟨_, code⟩, taken.2.2.symm⟩
      next => cases hit
    next => cases hit
  | _ => cases hit

/-- An entry that is not in use is not clean any more once `kill` has found it. -/
theorem not_clean_of_hit {home : Slot → Option Cpu} (placed : Placed s home) {q : Slot}
    (hit : s.hit event = some q) (unused : (s.proc_list q).status = .UNUSED)
    (taken : step s event = some t) :
    (t.proc_list q).status = .UNUSED ∧ (t.proc_list q).killed = true := by
  obtain ⟨c, p, runs, ⟨point, code⟩, rfl⟩ := step_hit hit taken
  have other : q ≠ p := by
    rintro rfl
    rw [(placed.running runs code).1] at unused
    cases unused
  have kept : ((s.set q (s.proc_list q).kill).ret p 0).proc_list q = (s.proc_list q).kill := by
    unfold State.ret State.goto
    rw [set_other_entry _ _ other, set_other_entry _ _ other, set_self]
  rw [kept]
  simp [Process.kill, unused]

/-- A process is killed by `kill`, or because it runs. -/
theorem step_killed {home : Slot → Option Cpu} (placed : Placed s home) (taken : step s event = some t)
    {q : Slot} (before : (s.proc_list q).killed = false) (after : (t.proc_list q).killed = true) :
    s.hit event = some q ∨ (s.proc_list q).status = .RUNNING := by
  rcases ((Changes.step placed taken).2 q).killed after with same | running |
    ⟨p, todo, c, answer, rfl, runs, code⟩
  · rw [before] at same
    cases same
  · exact .inr running
  · exact .inl (by simp [State.hit, runs, code])

/-- `kill` returns -1, or it has found a process with the number. -/
theorem kill_returns {c : Cpu} {p : Slot} {answer : Answer} {pid : Nat} {todo : List Slot}
    (spares : Spares s (.advance c answer)) (taken : step s (.advance c answer) = some t)
    (runs : s.mode c = .run p) (code : (s.proc_list p).thread = .code (.killing pid todo))
    (returned : (t.proc_list p).thread = .code .outside) :
    (t.proc_list p).a0 = -1 ∨
      ∃ q, (s.proc_list q).pid = pid ∧ (s.proc_list q).status ≠ .UNUSED := by
  simp only [step, runs, Option.ite_none_right_eq_some, State.proceed, code] at taken
  cases todo with
  | nil =>
    cases taken.2
    left
    simp [State.ret, State.goto]
  | cons q todo =>
    obtain ⟨-, rfl⟩ := locking_eq_some.mp taken.2
    split at returned
    next found => exact .inr ⟨q, found, spares q (by simp [State.hit, runs, code, found])⟩
    next =>
      rw [State.goto, set_self] at returned
      cases returned

/-- Entries not in use are clean until `kill` finds one of them; so a child is not killed when it is
made. -/
theorem unused_clean
    (run : Run step Spares (user_init trapframe pagetable cwd) events s) :
    (∀ q, (s.proc_list q).status = .UNUSED → Clean (s.proc_list q)) ∧
    ∀ {event : Event Cpu} {t : State Cpu}, step s event = some t →
      (Spares s event ↔ ∀ q, (t.proc_list q).status = .UNUSED → Clean (t.proc_list q)) ∧
      (∀ q, (s.proc_list q).status = .UNUSED → (t.proc_list q).status ≠ .UNUSED →
        (t.proc_list q).killed = false) ∧
      (Spares s event → ∀ q, (s.proc_list q).killed = false → (t.proc_list q).killed = true →
        (s.proc_list q).status ≠ .UNUSED) ∧
      (Spares s event → ∀ c p answer pid todo, event = .advance c answer → s.mode c = .run p →
        (s.proc_list p).thread = .code (.killing pid todo) →
        (t.proc_list p).thread = .code .outside →
        (t.proc_list p).a0 = -1 ∨
          ∃ q, (s.proc_list q).pid = pid ∧ (s.proc_list q).status ≠ .UNUSED) := by
  obtain ⟨tidied, home, placed⟩ := tidied_run run
  refine ⟨fun q => (tidied q).unused, fun {event t} taken => ⟨⟨fun spares q => ?_, fun clean q hit => ?_⟩,
    fun q unused used => ?_, fun spares q before after => ?_, ?_⟩⟩
  · exact (tidied.step placed spares taken q).unused
  · intro unused
    obtain ⟨still, killed⟩ := not_clean_of_hit placed hit unused taken
    rw [(clean q still).killed] at killed
    cases killed
  · by_contra killed
    rcases step_killed placed taken ((tidied q).unused unused).killed (by simpa using killed) with
      hit | running
    · exact used (not_clean_of_hit placed hit unused taken).1
    · rw [unused] at running
      cases running
  · rcases step_killed placed taken before after with hit | running
    · exact spares q hit
    · rw [running]
      decide
  · rintro spares c p answer pid todo rfl runs code returned
    exact kill_returns spares taken runs code returned

end

/-- The entry that the first child gets. -/
def second : Slot := ⟨1, one_lt_NPROC⟩

/-- The first process calls `kill(0)`, which reaches the first entry that is not in use. -/
def killZero : List (Event Unit) :=
  [.pick () init_proc, .enter (), .advance () {}, .begin () (.kill 0), .advance () {}, .advance () {}]

/-- The first process forks. -/
def forkOne : List (Event Unit) := [.begin () .fork, .advance () {}, .advance () {}]

/-- `kill(0)` returns 0 and marks an entry that is not in use, and the next child starts killed. -/
theorem kill_zero_marks_unused :
    (∃ s, Run step (fun _ _ => True) (user_init 1 2 3) killZero s ∧
      (s.proc_list second).status = .UNUSED ∧ (s.proc_list second).killed = true ∧
      (s.proc_list init_proc).a0 = 0) ∧
    ∃ s, Run step (fun _ _ => True) (user_init 1 2 3) (killZero ++ forkOne) s ∧
      (s.proc_list init_proc).thread = .code (.copying second) ∧ (s.proc_list second).killed = true := by
  constructor
  · obtain ⟨s, run, reached⟩ : ∃ s, Run step (fun _ _ => True) (user_init 1 2 3) killZero s ∧
        decide ((s.proc_list second).status = .UNUSED ∧ (s.proc_list second).killed = true ∧
          (s.proc_list init_proc).a0 = 0) = true := exists_run_of_exec (by decide +kernel)
    exact ⟨s, run, of_decide_eq_true reached⟩
  · obtain ⟨s, run, reached⟩ : ∃ s,
        Run step (fun _ _ => True) (user_init 1 2 3) (killZero ++ forkOne) s ∧
        decide ((s.proc_list init_proc).thread = .code (.copying second) ∧
          (s.proc_list second).killed = true) = true :=
      exists_run_of_exec (by decide +kernel)
    exact ⟨s, run, of_decide_eq_true reached⟩

/-- The first process forks, and calls `kill` with the number of its child. -/
def killChild : List (Event Unit) :=
  [.pick () init_proc, .enter (), .advance () {}] ++ forkOne ++
    [.advance () { memory := some (4, 5) }, .advance () {}, .advance () {}, .begin () (.kill 2),
      .advance () {}]

theorem unused_clean_kill_child :
    ∃ s, Run step Spares (user_init 1 2 3) killChild s ∧
      (∃ t, step s (.advance () {}) = some t ∧ Spares s (.advance () {}) ∧
        (t.proc_list second).killed = true ∧ (t.proc_list init_proc).a0 = 0) ∧
      ∀ q, (s.proc_list q).status = .UNUSED → Clean (s.proc_list q) := by
  obtain ⟨s, run, reached⟩ : ∃ s, Run step Spares (user_init 1 2 3) killChild s ∧
      decide (Spares s (.advance () {}) ∧ (step s (.advance () {})).any (fun t =>
        (t.proc_list second).killed && decide ((t.proc_list init_proc).a0 = 0)) = true) = true :=
    exists_run_of_exec (by decide +kernel)
  obtain ⟨spares, reached⟩ := of_decide_eq_true reached
  cases taken : step s (.advance () {}) with
  | none => simp [taken] at reached
  | some t =>
    rw [taken] at reached
    exact ⟨s, run, ⟨t, taken, spares, by simpa using reached⟩, (unused_clean run).1⟩

end OsCpp.Proc
