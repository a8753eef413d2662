import OsCpp.Proc.Placement

/-!
# What a step does to the entries

A step may take an entry that is not in use, free one, or kill a process; the other entries keep
their number, and whether they are in use.
-/

namespace OsCpp.Proc

variable {Cpu : Type} {s t u : State Cpu} {event : Event Cpu} {c : Cpu} {p q : Slot}

/-- The code of a process goes on at a point. -/
def Acts (s : State Cpu) (event : Event Cpu) (p : Slot) (point : Point) : Prop :=
  ∃ c answer, event = .advance c answer ∧ s.mode c = .run p ∧ (s.proc_list p).thread = .code point

/-- `alloc_proc` takes an entry. -/
def Allocs (s : State Cpu) (event : Event Cpu) (q : Slot) : Prop :=
  (s.proc_list q).status = .UNUSED ∧ ∃ p todo, Acts s event p (.allocating (q :: todo))

/-- An entry that is not in use, or may be freed. -/
def Free (s : State Cpu) (q : Slot) : Prop :=
  (s.proc_list q).status = .UNUSED ∨
    (s.proc_list q).status = .ZOMBIE ∧ (s.proc_list q).lock = none ∨
    ∃ c p, s.mode c = .run p ∧ (s.proc_list p).thread = .code (.copying q)

/-- What may become of an entry. -/
structure Change (s : State Cpu) (event : Event Cpu) (q : Slot) (y : Process Cpu) : Prop where
  unused : y.status = .UNUSED → Free s q
  used : y.status ≠ .UNUSED →
    (s.proc_list q).status ≠ .UNUSED ∧ y.pid = (s.proc_list q).pid ∨ Allocs s event q
  killed : y.killed = true → (s.proc_list q).killed = true ∨ (s.proc_list q).status = .RUNNING ∨
    ∃ p todo, Acts s event p (.killing (s.proc_list q).pid (q :: todo))

def Changes (s : State Cpu) (event : Event Cpu) (t : State Cpu) : Prop :=
  (t.next_pid = s.next_pid ∨ ∃ q, Allocs s event q) ∧ ∀ q, Change s event q (t.proc_list q)

namespace Change

variable {x y : Process Cpu}

/-- What is not described here may change. -/
theorem same (change : Change s event q x) (status : y.status = x.status) (pid : y.pid = x.pid)
    (killed : y.killed = x.killed) : Change s event q y := by
  refine ⟨?_, ?_, ?_⟩
  · rw [status]
    exact change.unused
  · rw [status, pid]
    exact change.used
  · rw [killed]
    exact change.killed

theorem refl (s : State Cpu) (event : Event Cpu) (q : Slot) : Change s event q (s.proc_list q) :=
  ⟨.inl, fun used => .inl ⟨used, rfl⟩, .inl⟩

theorem live (used : (s.proc_list q).status ≠ .UNUSED) (status : y.status ≠ .UNUSED)
    (pid : y.pid = (s.proc_list q).pid) (killed : y.killed = (s.proc_list q).killed) :
    Change s event q y :=
  ⟨fun unused => absurd unused status, fun _ => .inl ⟨used, pid⟩, fun on => .inl (killed ▸ on)⟩

theorem freed (free : Free s q) (status : y.status = .UNUSED) (killed : y.killed = false) :
    Change s event q y :=
  ⟨fun _ => free, fun used => absurd status used, fun on => by simp [killed] at on⟩

theorem wake (s : State Cpu) (event : Event Cpu) (q : Slot) (chan : Option Chan) :
    Change s event q ((s.proc_list q).wake chan) := by
  unfold Process.wake
  split
  next asleep => exact .live (by simp [asleep.1]) (by simp) rfl rfl
  next => exact .refl s event q

end Change

namespace Changes

theorem refl (s : State Cpu) (event : Event Cpu) : Changes s event s :=
  ⟨.inl rfl, Change.refl s event⟩

theorem set (changes : Changes s event u) {y : Process Cpu} (change : Change s event q y) :
    Changes s event (u.set q y) := by
  refine ⟨changes.1, fun r => ?_⟩
  rcases eq_or_ne r q with rfl | other
  · rw [set_self]
    exact change
  · rw [set_other_entry u y other]
    exact changes.2 r

theorem goto (changes : Changes s event u) (point : Point) : Changes s event (u.goto p point) :=
  changes.set ((changes.2 p).same rfl rfl rfl)

theorem ret (changes : Changes s event u) (value : Int) : Changes s event (u.ret p value) := by
  refine goto ?_ _
  exact changes.set ((changes.2 p).same rfl rfl rfl)

variable [DecidableEq Cpu]

theorem unlock {next : State Cpu} (changes : Changes s event next) :
    Changes s event (s.unlock c next) := by
  unfold State.unlock
  split
  · exact changes
  · exact refl s event

theorem copy {np : Slot} (child : (s.proc_list np).status = .USED) (free : Free s np)
    (memory : Option (Nat × Nat)) : Changes s event (s.copy c p np memory) := by
  simp only [State.copy]
  split
  · cases memory with
    | none => exact ret ((refl s event).set (.freed free rfl rfl)) _
    | some =>
      refine goto ((refl s event).set ?_) _
      exact .live (by simp [child]) (by simp [child]) rfl rfl
  · exact refl s event

theorem scan {todo : List Slot} {copied : Bool} (free : (s.proc_list q).lock = none) :
    Changes s event (s.scan c p q todo copied) := by
  have changes := refl s event
  simp only [State.scan]
  split
  next zombie =>
    split
    · have after : Changes s event (s.set q (s.proc_list q).free) :=
        changes.set (.freed (.inr (.inl ⟨zombie, free⟩)) rfl rfl)
      exact unlock (after.ret _)
    · exact unlock (changes.ret _)
  next => exact changes.goto _

variable {home : Slot → Option Cpu} (placed : Placed s home)
include placed

theorem advance {answer : Answer} {point : Point} (runs : s.mode c = .run p)
    (code : (s.proc_list p).thread = .code point) (ran : s.advance c p answer point = some t) :
    Changes s (.advance c answer) t := by
  have changes := refl s (.advance c answer)
  have running := (placed.running runs code).1
  have acts : Acts s (.advance c answer) p point := ⟨c, answer, rfl, runs, code⟩
  have keep : ∀ {r : Slot} {y : Process Cpu}, y.status = (s.proc_list r).status →
      y.pid = (s.proc_list r).pid → y.killed = (s.proc_list r).killed →
      Changes s (.advance c answer) (s.set r y) := fun status pid killed =>
    changes.set ((Change.refl s _ _).same status pid killed)
  have rest : ∀ {y : Process Cpu}, y.status ≠ .UNUSED → y.pid = (s.proc_list p).pid →
      y.killed = (s.proc_list p).killed → Changes s (.advance c answer) (s.set p y) :=
    fun status pid killed => changes.set (.live (by simp [running]) status pid killed)
  have child : ∀ np, point.child = some np → (s.proc_list np).status = .USED := fun np owns =>
    placed.child p np (by rw [code]; exact owns)
  cases point with
  | outside => cases ran
  | allocating todo =>
    cases todo with
    | nil =>
      cases ran
      exact changes
    | cons q todo =>
      obtain ⟨-, rfl⟩ := locking_eq_some.mp ran
      simp only [State.alloc]
      split
      next unused =>
        have taken : Allocs s (.advance c answer) q := ⟨unused, p, todo, acts⟩
        have after := changes.set (q := q) (y := { s.proc_list q with
            lock := some c, pid := s.next_pid, status := .USED })
          ⟨(by simp), fun _ => .inr taken, .inl⟩
        refine goto ?_ _
        exact ⟨.inr ⟨q, taken⟩, after.2⟩
      next => exact changes.goto _
  | copying np =>
    cases ran
    exact copy (child np rfl) (.inr (.inr ⟨c, p, runs, code⟩)) _
  | linking np =>
    obtain ⟨-, rfl⟩ := waiting_eq_some.mp ran
    refine goto ?_ _
    exact keep rfl rfl rfl
  | publishing np =>
    obtain ⟨-, rfl⟩ := locking_eq_some.mp ran
    refine ret (changes.set ?_) _
    exact .live (by simp [child np rfl]) (by simp) rfl rfl
  | closing status todo =>
    cases todo with
    | nil =>
      cases ran
      exact changes.goto _
    | cons fd todo =>
      cases ran
      exact keep rfl rfl rfl
  | leaving status =>
    obtain ⟨-, rfl⟩ := waiting_eq_some.mp ran
    exact keep (r := p) rfl rfl rfl
  | reparenting status todo =>
    cases todo with
    | nil =>
      cases ran
      exact changes.goto _
    | cons q todo =>
      cases ran
      unfold State.reparent
      split
      · refine goto ?_ _
        exact keep rfl rfl rfl
      · exact changes.goto _
  | rousing chan todo next =>
    cases todo with
    | nil =>
      cases ran
      exact changes.goto _
    | cons q todo =>
      simp only [State.advance] at ran
      split at ran
      · cases ran
        exact changes.goto _
      · obtain ⟨-, rfl⟩ := locking_eq_some.mp ran
        exact (changes.set (.wake s _ q chan)).goto _
  | dying status =>
    obtain ⟨-, rfl⟩ := locking_eq_some.mp ran
    exact unlock (rest (by simp) rfl rfl)
  | dead =>
    cases ran
    exact changes
  | entering =>
    obtain ⟨-, rfl⟩ := waiting_eq_some.mp ran
    exact changes.goto (.scanning false slots)
  | scanning havekids todo =>
    cases todo with
    | nil =>
      cases ran
      split
      · exact changes.goto _
      · exact unlock (changes.ret _)
    | cons q todo =>
      simp only [State.advance] at ran
      split at ran
      · obtain ⟨free, rfl⟩ := locking_eq_some.mp ran
        exact scan free
      · cases ran
        exact changes.goto _
  | checking =>
    obtain ⟨-, rfl⟩ := locking_eq_some.mp ran
    split
    · exact unlock (changes.ret _)
    · exact changes.goto _
  | dozing =>
    obtain ⟨-, rfl⟩ := locking_eq_some.mp ran
    exact unlock (rest (by simp) rfl rfl)
  | killing pid todo =>
    cases todo with
    | nil =>
      cases ran
      exact changes.ret _
    | cons q todo =>
      obtain ⟨-, rfl⟩ := locking_eq_some.mp ran
      split
      next found =>
        refine ret (changes.set (y := (s.proc_list q).kill) ⟨fun unused => .inl ?_, fun used => .inl ⟨fun unused => used ?_, rfl⟩,
          fun _ => .inr (.inr ⟨p, todo, found ▸ acts⟩)⟩) _
        · by_cases asleep : (s.proc_list q).status = .SLEEPING
          · simp [Process.kill, asleep] at unused
          · simpa [Process.kill, asleep] using unused
        · simp [Process.kill, unused]
      next => exact changes.goto _

omit [DecidableEq Cpu] in
theorem begin {call : Call} (runs : s.mode c = .run p)
    (code : (s.proc_list p).thread = .code .outside) (ran : s.start p call = some t) :
    Changes s (.begin c call) t := by
  have changes := refl s (.begin c call)
  cases call with
  | fork | wait | kill =>
    cases ran
    exact changes.goto _
  | exit status =>
    cases ran
    split
    · exact changes
    · exact changes.goto _
  | set_killed =>
    obtain ⟨-, rfl⟩ := locking_eq_some.mp ran
    refine changes.set ⟨(changes.2 p).unused, (changes.2 p).used, fun _ => ?_⟩
    exact .inr (.inl (placed.running runs code).1)
  | change =>
    cases ran
    exact changes.set ((changes.2 p).same rfl rfl rfl)

omit [DecidableEq Cpu] in
theorem stop {point : Point} (runs : s.mode c = .run p)
    (code : (s.proc_list p).thread = .code point) {status : Status} (live : status ≠ .UNUSED)
    {chan : Option Chan} {slept : Bool} (ran : s.stop c p status chan slept point = some t) :
    Changes s event t := by
  obtain ⟨-, rfl⟩ := locking_eq_some.mp ran
  exact (refl s event).set (.live (by simp [(placed.running runs code).1]) live rfl rfl)

/-- What every step may do. -/
theorem step (taken : step s event = some t) : Changes s event t := by
  have changes := refl s event
  have keep : ∀ {r : Slot} {y : Process Cpu}, y.status = (s.proc_list r).status →
      y.pid = (s.proc_list r).pid → y.killed = (s.proc_list r).killed → Changes s event (s.set r y) :=
    fun status pid killed => changes.set ((Change.refl s event _).same status pid killed)
  cases moves_of_step taken with
  | pick _ _ can => exact changes.set (.live (by simp [can]) (by simp) rfl rfl)
  | enter | fail => exact changes
  | start runs code ran => exact begin placed runs code ran
  | advance runs code ran => exact advance placed runs code ran
  | sched =>
    unfold State.sched
    split
    · exact keep rfl rfl rfl
    · exact changes
  | resume =>
    simp only [State.resume]
    split
    · exact keep rfl rfl rfl
    · exact changes
  | yield runs code _ ran => exact stop placed runs code (by simp) ran
  | sleep runs code _ ran => exact stop placed runs code (by simp) ran
  | @wakeup c chan r => exact changes.set (.wake s _ r _)
  | save | leave => exact keep rfl rfl rfl

end Changes

end OsCpp.Proc
