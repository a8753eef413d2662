import OsCpp.Lib.Execution

/-!
# Monitors with one condition

A process that holds the lock may change the data, go to sleep until it has been woken and has got
the lock again, wake all sleepers one after the other, or leave.  Going to sleep takes two steps;
the private lock that the process has taken before keeps wakers away in between.  Killing a process
wakes it.

If nobody makes a wait pointless without waking the sleepers before giving up the lock, no wakeup is
lost.
-/

namespace Monitor

open Function (update update_eq_self)

/-- What the holder of the lock does next. -/
inductive Move (Data Point : Type)
  | go (data : Data) (next : Point)
  /-- Change the data, wake the sleepers and go on. -/
  | wake (data : Data) (next : Point)
  /-- Go to sleep, and go on when the lock has been got again. -/
  | sleep (next : Point)
  | leave (data : Data) (next : Point)

/-- The code of the processes, between points of which one step leads to another. -/
structure Code (Pid Data Point Input : Type) where
  /-- All processes, in the order in which they are woken. -/
  procs : List Pid
  complete : ∀ p, p ∈ procs
  /-- A step without the lock. -/
  outer : Pid → Input → Point → Data → Option (Data × Point)
  enters : Point → Bool
  /-- A step of the holder of the lock, who may have been killed; nothing if the system stops. -/
  move : Pid → Bool → Input → Point → Data → Option (Move Data Point)

/-- What a process does about the lock. -/
inductive Phase (Pid Point : Type)
  | outside (point : Point)
  | inside (point : Point)
  /-- Holds the lock and wakes the processes of a list. -/
  | waking (todo : List Pid) (point : Point)
  /-- Has given up the lock and holds its private one. -/
  | falling (point : Point)
  | asleep (point : Point)
  | woken (point : Point)
  deriving DecidableEq

namespace Phase

variable {Pid Point : Type}

/-- Where the process is in its code. -/
def point : Phase Pid Point → Point
  | outside point | inside point | waking _ point | falling point | asleep point | woken point => point

/-- Does the process hold the lock? -/
def holds : Phase Pid Point → Bool
  | inside _ | waking _ _ => true
  | _ => false

/-- Does the process sleep, or is it about to? -/
def sleeps : Phase Pid Point → Bool
  | falling _ | asleep _ => true
  | _ => false

/-- Does the process hold its private lock? -/
def falls : Phase Pid Point → Bool
  | falling _ => true
  | _ => false

/-- The process is made runnable if it sleeps. -/
def rouse : Phase Pid Point → Phase Pid Point
  | asleep point => woken point
  | phase => phase

@[simp] theorem point_rouse (phase : Phase Pid Point) : phase.rouse.point = phase.point := by
  cases phase <;> rfl

@[simp] theorem holds_rouse (phase : Phase Pid Point) : phase.rouse.holds = phase.holds := by
  cases phase <;> rfl

/-- A process that is not about to sleep does not sleep once it has been woken. -/
theorem sleeps_rouse {phase : Phase Pid Point} (free : phase.falls = false) :
    phase.rouse.sleeps = false := by
  cases phase <;> simp_all [rouse, sleeps, falls]

theorem sleeps_of_rouse {phase : Phase Pid Point} (sleeps : phase.rouse.sleeps = true) :
    phase.sleeps = true := by
  cases phase <;> simp_all [rouse, Phase.sleeps]

end Phase

structure State (Pid Data Point : Type) where
  data : Data
  lock : Option Pid := none
  phase : Pid → Phase Pid Point
  killed : Pid → Bool := fun _ => false

inductive Event (Pid Input : Type)
  | outer (p : Pid) (input : Input)
  | enter (p : Pid)
  | move (p : Pid) (input : Input)
  /-- A waker reaches the next process. -/
  | wake (p : Pid)
  /-- A process that has given up the lock sleeps. -/
  | fall (p : Pid)
  | kill (p : Pid)

variable {Pid Data Point Input : Type} [DecidableEq Pid]

namespace State

variable (s : State Pid Data Point) (p : Pid)

def put (phase : Phase Pid Point) : State Pid Data Point :=
  { s with phase := update s.phase p phase }

/-- The effect of a move on the data, the lock and the phase of the process. -/
def play (procs : List Pid) : Move Data Point → State Pid Data Point
  | .go data next => { s.put p (.inside next) with data := data }
  | .wake data next => { s.put p (.waking procs next) with data := data }
  | .sleep next => { s.put p (.falling next) with lock := none }
  | .leave data next => { s.put p (.outside next) with data := data, lock := none }

def take (point : Point) : Option (State Pid Data Point) :=
  if s.lock = none then some { s.put p (.inside point) with lock := some p } else none

end State

def step (code : Code Pid Data Point Input) (s : State Pid Data Point) :
    Event Pid Input → Option (State Pid Data Point)
  | .outer p input =>
    match s.phase p with
    | .outside point =>
      (code.outer p input point s.data).map fun (data, next) =>
        { s.put p (.outside next) with data := data }
    | _ => none
  | .enter p =>
    match s.phase p with
    | .outside point => if code.enters point then s.take p point else none
    | .woken point => s.take p point
    | _ => none
  | .move p input =>
    match s.phase p with
    | .inside point => (code.move p (s.killed p) input point s.data).map (s.play p code.procs)
    | _ => none
  | .wake p =>
    match s.phase p with
    | .waking [] point => some (s.put p (.inside point))
    | .waking (q :: todo) point =>
      if q = p then some (s.put p (.waking todo point))
      else if (s.phase q).falls then none
      else some ((s.put q (s.phase q).rouse).put p (.waking todo point))
    | _ => none
  | .fall p =>
    match s.phase p with
    | .falling point => some (s.put p (.asleep point))
    | _ => none
  | .kill p =>
    if (s.phase p).falls then none
    else some { s.put p (s.phase p).rouse with killed := update s.killed p true }

/-- All processes are outside and nobody holds the lock. -/
def start (data : Data) (point : Point) : State Pid Data Point where
  data := data
  phase := fun _ => .outside point

/-- What a step does to the lock, the code and the phases. -/
theorem step_cases {code : Code Pid Data Point Input} {s t : State Pid Data Point}
    {event : Event Pid Input} (taken : step code s event = some t) :
    (∃ p input point data next, s.phase p = .outside point ∧
      code.outer p input point s.data = some (data, next) ∧
      t = { s.put p (.outside next) with data := data }) ∨
    (∃ p point, (s.phase p).holds = false ∧ (s.phase p).point = point ∧ s.lock = none ∧
      t = { s.put p (.inside point) with lock := some p }) ∨
    (∃ p input point move, s.phase p = .inside point ∧
      code.move p (s.killed p) input point s.data = some move ∧ t = s.play p code.procs move) ∨
    (∃ p point, s.phase p = .waking [] point ∧ t = s.put p (.inside point)) ∨
    (∃ p todo point, s.phase p = .waking (p :: todo) point ∧ t = s.put p (.waking todo point)) ∨
    (∃ p q todo point, s.phase p = .waking (q :: todo) point ∧ q ≠ p ∧ (s.phase q).falls = false ∧
      t = (s.put q (s.phase q).rouse).put p (.waking todo point)) ∨
    (∃ p point, s.phase p = .falling point ∧ t = s.put p (.asleep point)) ∨
    (∃ p, (s.phase p).falls = false ∧
      t = { s.put p (s.phase p).rouse with killed := update s.killed p true }) := by
  cases event with
  | outer p input =>
    simp only [step] at taken
    split at taken
    · next point here =>
      obtain ⟨⟨data, next⟩, stepped, rfl⟩ := Option.map_eq_some_iff.mp taken
      exact .inl ⟨p, input, point, data, next, here, stepped, rfl⟩
    · simp at taken
  | enter p =>
    have enters : ∀ {point}, (s.phase p).holds = false → (s.phase p).point = point →
        s.take p point = some t → ∃ p point, (s.phase p).holds = false ∧
          (s.phase p).point = point ∧ s.lock = none ∧
          t = { s.put p (.inside point) with lock := some p } := by
      intro point free here took
      simp only [State.take, Option.ite_none_right_eq_some] at took
      exact ⟨p, point, free, here, took.1, (Option.some.inj took.2).symm⟩
    simp only [step] at taken
    split at taken
    · next point here =>
      split at taken
      · exact .inr (.inl (enters (by simp [here, Phase.holds]) (by simp [here, Phase.point]) taken))
      · simp at taken
    · next point here =>
      exact .inr (.inl (enters (by simp [here, Phase.holds]) (by simp [here, Phase.point]) taken))
    · simp at taken
  | move p input =>
    simp only [step] at taken
    split at taken
    · next point here =>
      obtain ⟨move, moved, rfl⟩ := Option.map_eq_some_iff.mp taken
      exact .inr (.inr (.inl ⟨p, input, point, move, here, moved, rfl⟩))
    · simp at taken
  | wake p =>
    simp only [step] at taken
    split at taken
    · next point here =>
      exact .inr (.inr (.inr (.inl ⟨p, point, here, (Option.some.inj taken).symm⟩)))
    · next q todo point here =>
      split at taken
      · next same =>
        subst same
        exact .inr (.inr (.inr (.inr (.inl ⟨q, todo, point, here, (Option.some.inj taken).symm⟩))))
      · next other =>
        split at taken
        · simp at taken
        · next free =>
          exact .inr (.inr (.inr (.inr (.inr (.inl ⟨p, q, todo, point, here, other,
            by simpa using free, (Option.some.inj taken).symm⟩)))))
    · simp at taken
  | fall p =>
    simp only [step] at taken
    split at taken
    · next point here =>
      exact .inr (.inr (.inr (.inr (.inr (.inr (.inl ⟨p, point, here,
        (Option.some.inj taken).symm⟩))))))
    · simp at taken
  | kill p =>
    simp only [step] at taken
    split at taken
    · simp at taken
    · next free =>
      exact .inr (.inr (.inr (.inr (.inr (.inr (.inr ⟨p, by simpa using free,
        (Option.some.inj taken).symm⟩))))))

/-! ## The lock -/

/-- The lock is held by the process that is inside. -/
def Guarded (s : State Pid Data Point) : Prop := ∀ p, s.lock = some p ↔ (s.phase p).holds = true

section

variable {code : Code Pid Data Point Input} {s t : State Pid Data Point} {event : Event Pid Input}

section

variable (guarded : Guarded s)
include guarded

/-- A process changes its phase without taking or giving up the lock. -/
theorem Guarded.put (p : Pid) (phase : Phase Pid Point)
    (same : phase.holds = (s.phase p).holds) : Guarded (s.put p phase) := by
  intro q
  rcases eq_or_ne q p with rfl | other
  · simpa [State.put, same] using guarded q
  · simpa [State.put, other] using guarded q

theorem Guarded.enter (free : s.lock = none) {p : Pid} {point : Point} :
    Guarded { s.put p (.inside point) with lock := some p } := by
  intro q
  rcases eq_or_ne q p with rfl | other
  · simp [State.put, Phase.holds]
  · have outside := guarded q
    rw [free] at outside
    simpa [State.put, other, other.symm] using outside

theorem Guarded.exit {p : Pid} (held : (s.phase p).holds = true)
    (phase : Phase Pid Point) (out : phase.holds = false) (data : Data) :
    Guarded { s.put p phase with data := data, lock := none } := by
  have holder := (guarded p).mpr held
  intro q
  rcases eq_or_ne q p with rfl | other
  · simp [State.put, out]
  · have outside := guarded q
    rw [holder] at outside
    simpa [State.put, other, other.symm] using outside

theorem Guarded.play {p : Pid} {point : Point}
    (inside : s.phase p = .inside point) (move : Move Data Point) (procs : List Pid) :
    Guarded (s.play p procs move) := by
  have held : (s.phase p).holds = true := by simp [inside, Phase.holds]
  cases move with
  | go data next => exact guarded.put p (.inside next) (by rw [held]; rfl)
  | wake data next => exact guarded.put p (.waking procs next) (by rw [held]; rfl)
  | sleep next => exact guarded.exit held (.falling next) rfl s.data
  | leave data next => exact guarded.exit held (.outside next) rfl data

theorem guarded_step (taken : step code s event = some t) : Guarded t := by
  rcases step_cases taken with ⟨p, input, point, data, next, here, -, rfl⟩ |
    ⟨p, point, -, -, free, rfl⟩ | ⟨p, input, point, move, here, -, rfl⟩ | ⟨p, point, here, rfl⟩ |
    ⟨p, todo, point, here, rfl⟩ | ⟨p, q, todo, point, here, other, -, rfl⟩ | ⟨p, point, here, rfl⟩ |
    ⟨p, -, rfl⟩
  · exact guarded.put p (.outside next) (by rw [here]; rfl)
  · exact guarded.enter free
  · exact guarded.play here move code.procs
  · exact guarded.put p _ (by rw [here]; rfl)
  · exact guarded.put p _ (by rw [here]; rfl)
  · refine (guarded.put q _ (by simp)).put p _ ?_
    simp [State.put, other.symm, here, Phase.holds]
  · exact guarded.put p _ (by rw [here]; rfl)
  · exact guarded.put p _ (by simp)

end

omit [DecidableEq Pid] in
theorem guarded_start (data : Data) (point : Point) :
    Guarded (start data point : State Pid Data Point) := by
  intro p
  simp [start, Phase.holds]

end

/-! ## Data and points -/

/-- Where the processes are in their code. -/
def State.points (s : State Pid Data Point) (p : Pid) : Point := (s.phase p).point

/-- The data and the point of the process after a move. -/
def Move.result (data : Data) : Move Data Point → Data × Point
  | .go data' next | .wake data' next | .leave data' next => (data', next)
  | .sleep next => (data, next)

section

variable {code : Code Pid Data Point Input} {s t : State Pid Data Point} {event : Event Pid Input}

theorem points_put (s : State Pid Data Point) (p : Pid) (phase : Phase Pid Point) :
    (s.put p phase).points = update s.points p phase.point := by
  funext q
  rcases eq_or_ne q p with rfl | other
  · simp [State.points, State.put]
  · simp [State.points, State.put, other]

theorem points_put_same (p : Pid) {phase : Phase Pid Point} (same : phase.point = (s.phase p).point) :
    (s.put p phase).points = s.points := by
  rw [points_put, same]
  exact update_eq_self p s.points

/-- A step changes data and points by a step of the code only. -/
theorem step_points (taken : step code s event = some t) :
    t.data = s.data ∧ t.points = s.points ∨
    (∃ p input data next, code.outer p input (s.points p) s.data = some (data, next) ∧
      t.data = data ∧ t.points = update s.points p next) ∨
    (∃ p input move,
      code.move p (s.killed p) input (s.points p) s.data = some move ∧
      t.data = (move.result s.data).1 ∧ t.points = update s.points p (move.result s.data).2) := by
  rcases step_cases taken with ⟨p, input, point, data, next, here, stepped, rfl⟩ |
    ⟨p, point, -, here, -, rfl⟩ | ⟨p, input, point, move, here, moved, rfl⟩ | ⟨p, point, here, rfl⟩ |
    ⟨p, todo, point, here, rfl⟩ | ⟨p, q, todo, point, here, other, -, rfl⟩ | ⟨p, point, here, rfl⟩ |
    ⟨p, -, rfl⟩
  · refine .inr (.inl ⟨p, input, data, next, ?_, rfl, points_put s p _⟩)
    simpa [State.points, here, Phase.point] using stepped
  · exact .inl ⟨rfl, points_put_same p (by rw [here]; rfl)⟩
  · refine .inr (.inr ⟨p, input, move, ?_, ?_, ?_⟩)
    · simpa [State.points, here, Phase.point] using moved
    · cases move <;> rfl
    · cases move <;> exact points_put s p _
  · exact .inl ⟨rfl, points_put_same p (by rw [here]; rfl)⟩
  · exact .inl ⟨rfl, points_put_same p (by rw [here]; rfl)⟩
  · refine .inl ⟨rfl, ?_⟩
    rw [points_put_same p, points_put_same q (by simp)]
    simp [State.put, other.symm, here, Phase.point]
  · exact .inl ⟨rfl, points_put_same p (by rw [here]; rfl)⟩
  · exact .inl ⟨rfl, points_put_same p (by simp)⟩

/-- The code keeps an invariant of the data and the points of all processes. -/
structure Keeps (code : Code Pid Data Point Input) (inv : Data → (Pid → Point) → Prop) : Prop where
  outer : ∀ {p input data points data' next}, inv data points →
    code.outer p input (points p) data = some (data', next) → inv data' (update points p next)
  move : ∀ {p killed input data points move}, inv data points →
    code.move p killed input (points p) data = some move →
      inv (move.result data).1 (update points p (move.result data).2)

variable {inv : Data → (Pid → Point) → Prop}

theorem Keeps.of_step (keeps : Keeps code inv) (holds : inv s.data s.points)
    (taken : step code s event = some t) : inv t.data t.points := by
  rcases step_points taken with ⟨data, points⟩ | ⟨p, input, data, next, stepped, rfl, points⟩ |
    ⟨p, input, move, moved, data, points⟩
  · rwa [data, points]
  · rw [points]
    exact keeps.outer holds stepped
  · rw [data, points]
    exact keeps.move holds moved

/-- What the code keeps holds in every run. -/
theorem Keeps.of_run (keeps : Keeps code inv) {guard : State Pid Data Point → Event Pid Input → Prop}
    {first : State Pid Data Point} {events : List (Event Pid Input)}
    (initially : inv first.data first.points)
    (run : Execution.Run (step code) guard first events s) : inv s.data s.points := by
  apply run.invariant
  · exact fun holds _ taken => keeps.of_step holds taken
  · exact initially

end

/-! ## Wakeups -/

/-- Whoever makes a wait pointless passes through points that owe a wakeup only. -/
structure Pays (code : Code Pid Data Point Input) (inv : Data → (Pid → Point) → Prop)
    (waits : Data → Prop) (owes : Point → Prop) : Prop where
  outer : ∀ {p input data points data' next}, inv data points →
    code.outer p input (points p) data = some (data', next) → waits data → waits data'
  go : ∀ {p killed input data points data' next}, inv data points →
    code.move p killed input (points p) data = some (.go data' next) →
      (owes (points p) → owes next) ∧ (waits data → waits data' ∨ owes next)
  sleep : ∀ {p killed input data points next}, inv data points →
    code.move p killed input (points p) data = some (.sleep next) → waits data
  leave : ∀ {p killed input data points data' next}, inv data points →
    code.move p killed input (points p) data = some (.leave data' next) →
      ¬owes (points p) ∧ (waits data → waits data')

/-- The holder of the lock will wake a process. -/
def Owes (owes : Point → Prop) (q : Pid) : Phase Pid Point → Prop
  | .inside point => owes point
  | .waking todo _ => q ∈ todo
  | _ => False

/-- Every sleeper waits for a change, or is owed a wakeup by the holder of the lock. -/
def Owed (waits : Data → Prop) (owes : Point → Prop) (s : State Pid Data Point) : Prop :=
  ∀ q, (s.phase q).sleeps = true → waits s.data ∨ ∃ p, s.lock = some p ∧ Owes owes q (s.phase p)

/-- When the lock is free, every sleeper waits for a change. -/
def NoLostWakeup (waits : Data → Prop) (s : State Pid Data Point) : Prop :=
  s.lock = none → ∀ p, (s.phase p).sleeps = true → waits s.data

section

variable {code : Code Pid Data Point Input} {s t : State Pid Data Point} {event : Event Pid Input}
  {inv : Data → (Pid → Point) → Prop} {waits : Data → Prop} {owes : Point → Prop}

omit [DecidableEq Pid] in
theorem Owed.noLostWakeup (owed : Owed waits owes s) : NoLostWakeup waits s := by
  intro free p sleeps
  rcases owed p sleeps with waits | ⟨q, held, -⟩
  · exact waits
  · simp [free] at held

omit [DecidableEq Pid] in
theorem Guarded.eq (guarded : Guarded s) (p : Pid) {q : Pid} (held : (s.phase p).holds = true)
    (holder : s.lock = some q) : q = p := Option.some.inj (holder.symm.trans ((guarded p).mpr held))

/-- The data changes outside of the lock. -/
theorem Owed.outer (owed : Owed waits owes s) (guarded : Guarded s) {p : Pid} {point next : Point}
    {data : Data} (here : s.phase p = .outside point) (kept : waits s.data → waits data) :
    Owed waits owes { s.put p (.outside next) with data := data } := by
  intro q sleeps
  have other : q ≠ p := by
    rintro rfl
    simp [State.put, Phase.sleeps] at sleeps
  rcases owed q (by simpa [State.put, other] using sleeps) with waits | ⟨holder, held, owing⟩
  · exact .inl (kept waits)
  · refine .inr ⟨holder, held, ?_⟩
    have apart : holder ≠ p := by
      rintro rfl
      simpa [here, Phase.holds] using (guarded holder).mp held
    simpa [State.put, apart] using owing

theorem sleeps_of_put {p q : Pid} (phase : Phase Pid Point) (awake : phase.sleeps = false)
    (sleeps : ((s.put p phase).phase q).sleeps = true) : q ≠ p ∧ (s.phase q).sleeps = true := by
  rcases eq_or_ne q p with rfl | other
  · simp [State.put, awake] at sleeps
  · exact ⟨other, by simpa [State.put, other] using sleeps⟩

section

variable (owed : Owed waits owes s) (guarded : Guarded s)
include owed guarded

theorem Owed.play (pays : Pays code inv waits owes) (holds : inv s.data s.points) {p : Pid} {killed : Bool}
    {input : Input} {point : Point} {move : Move Data Point} (inside : s.phase p = .inside point)
    (moved : code.move p killed input point s.data = some move) :
    Owed waits owes (s.play p code.procs move) := by
  have here : s.points p = point := by rw [State.points, inside, Phase.point]
  rw [← here] at moved
  have holder : s.lock = some p := (guarded p).mpr (by simp [inside, Phase.holds])
  have before : ∀ {q}, (s.phase q).sleeps = true → waits s.data ∨ owes point := by
    intro q sleeps
    refine (owed q sleeps).imp_right ?_
    rintro ⟨r, held, owing⟩
    obtain rfl := guarded.eq p (by simp [inside, Phase.holds]) held
    simpa [inside, Owes] using owing
  intro q sleeps
  cases move with
  | go data next =>
    obtain ⟨other, slept⟩ := sleeps_of_put (.inside next) rfl sleeps
    have kept := pays.go holds moved
    rw [here] at kept
    have owing : waits data ∨ owes next := (before slept).elim kept.2 fun debt => .inr (kept.1 debt)
    exact owing.imp_right fun debt => ⟨p, holder, by simpa [State.play, State.put, Owes] using debt⟩
  | wake data next =>
    exact .inr ⟨p, holder, by simpa [State.play, State.put, Owes] using code.complete q⟩
  | sleep next => exact .inl (pays.sleep holds moved)
  | leave data next =>
    obtain ⟨other, slept⟩ := sleeps_of_put (.outside next) rfl sleeps
    have kept := pays.leave holds moved
    rw [here] at kept
    exact .inl (kept.2 ((before slept).resolve_right kept.1))

theorem Owed.put (p : Pid) (phase : Phase Pid Point)
    (free : (s.phase p).holds = false) (slept : phase.sleeps = true → (s.phase p).sleeps = true) :
    Owed waits owes (s.put p phase) := by
  intro q sleeps
  have before : (s.phase q).sleeps = true := by
    rcases eq_or_ne q p with rfl | other
    · exact slept (by simpa [State.put] using sleeps)
    · simpa [State.put, other] using sleeps
  refine (owed q before).imp_right ?_
  rintro ⟨holder, held, owing⟩
  have apart : holder ≠ p := by
    rintro rfl
    simp [(guarded holder).mp held] at free
  exact ⟨holder, held, by simpa [State.put, apart] using owing⟩

/-- The waker passes over processes that do not sleep. -/
theorem Owed.pass {p : Pid} {todo : List Pid}
    {point : Point} {phase : Phase Pid Point} (here : s.phase p = .waking todo point)
    (awake : phase.sleeps = false)
    (rest : ∀ q, (s.phase q).sleeps = true → q ∈ todo → Owes owes q phase) :
    Owed waits owes (s.put p phase) := by
  intro q sleeps
  obtain ⟨-, slept⟩ := sleeps_of_put _ awake sleeps
  refine (owed q slept).imp_right ?_
  rintro ⟨holder, held, owing⟩
  obtain rfl := guarded.eq p (by simp [here, Phase.holds]) held
  refine ⟨holder, held, ?_⟩
  simpa [State.put] using rest q slept (by simpa [here, Owes] using owing)

theorem owed_step (pays : Pays code inv waits owes) (holds : inv s.data s.points)
    (taken : step code s event = some t) : Owed waits owes t := by
  rcases step_cases taken with ⟨p, input, point, data, next, here, stepped, rfl⟩ |
    ⟨p, point, -, -, free, rfl⟩ | ⟨p, input, point, move, here, moved, rfl⟩ | ⟨p, point, here, rfl⟩ |
    ⟨p, todo, point, here, rfl⟩ | ⟨p, q, todo, point, here, other, awake, rfl⟩ | ⟨p, point, here, rfl⟩ |
    ⟨p, awake, rfl⟩
  · have stepped' : code.outer p input (s.points p) s.data = some (data, next) := by
      rwa [State.points, here]
    exact owed.outer guarded here (pays.outer holds stepped')
  · intro q sleeps
    obtain ⟨-, slept⟩ := sleeps_of_put (.inside point) rfl sleeps
    exact .inl (owed.noLostWakeup free q slept)
  · exact owed.play guarded pays holds here moved
  · exact owed.pass guarded here rfl fun q _ member => by simp at member
  · refine owed.pass guarded here rfl fun q sleeps member => ?_
    have apart : q ≠ p := by
      rintro rfl
      simp [here, Phase.sleeps] at sleeps
    simpa [Owes, apart] using member
  · -- The waker has made `q` runnable, so nothing is owed to it any more.
    have waker : ((s.put q (s.phase q).rouse).phase p) = .waking (q :: todo) point := by
      simpa [State.put, other.symm] using here
    have roused : Owed waits owes (s.put q (s.phase q).rouse) := by
      intro r sleeps
      obtain ⟨apart, slept⟩ := sleeps_of_put _ (Phase.sleeps_rouse awake) sleeps
      refine (owed r slept).imp_right ?_
      rintro ⟨holder, held, owing⟩
      obtain rfl := guarded.eq p (by simp [here, Phase.holds]) held
      exact ⟨holder, held, by simpa [State.put, other.symm] using owing⟩
    refine roused.pass (guarded.put q _ (by simp)) waker rfl fun r sleeps member => ?_
    obtain ⟨apart, -⟩ := sleeps_of_put _ (Phase.sleeps_rouse awake) sleeps
    simpa [Owes, apart] using member
  · exact owed.put guarded p _ (by simp [here, Phase.holds]) fun _ => by simp [here, Phase.sleeps]
  · cases held : (s.phase p).holds with
    | false => exact owed.put guarded p _ held Phase.sleeps_of_rouse
    | true =>
      have same : (s.phase p).rouse = s.phase p := by
        cases phase : s.phase p <;> simp_all [Phase.rouse, Phase.holds]
      have unchanged : (s.put p (s.phase p).rouse).phase = s.phase := by
        rw [State.put, same]
        exact update_eq_self p s.phase
      intro q sleeps
      change ((s.put p (s.phase p).rouse).phase q).sleeps = true at sleeps
      change _ ∨ ∃ r, s.lock = some r ∧ Owes owes q ((s.put p (s.phase p).rouse).phase r)
      rw [unchanged] at sleeps ⊢
      exact owed q sleeps

end

theorem noLostWakeup_of_run {guard : State Pid Data Point → Event Pid Input → Prop}
    (keeps : Keeps code inv) (pays : Pays code inv waits owes) {data : Data} {point : Point}
    (initially : inv data fun _ => point) {events : List (Event Pid Input)}
    (run : Execution.Run (step code) guard (start data point) events s) : NoLostWakeup waits s := by
  have all : (Guarded s ∧ inv s.data s.points) ∧ Owed waits owes s := by
    apply run.invariant
    · rintro source event target ⟨⟨guarded, holds⟩, owed⟩ - taken
      exact ⟨⟨guarded_step guarded taken, keeps.of_step holds taken⟩,
        owed_step owed guarded pays holds taken⟩
    · refine ⟨⟨guarded_start data point, initially⟩, fun q sleeps => ?_⟩
      simp [start, Phase.sleeps] at sleeps
  exact all.2.noLostWakeup

end

end Monitor
