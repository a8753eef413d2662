import Mathlib
import OsCpp.Locks.Interrupts

/-!
# What is restored

The states of the interrupts before the outstanding calls of `push_off` form a stack.  Its length is
`noff`, and only its oldest entry, which `intena` holds, can be `true`.
-/

namespace OsCpp.Interrupts

open Execution (Run exec exists_run_of_exec)
open Function (update update_eq_self update_of_ne update_self)
open Option (ite_none_right_eq_some)

variable {Cpu Pid Name : Type}

/-- The effect of an operation on the interrupts and the outstanding calls. -/
def Op.effect : Op Pid Name → Bool × List Bool → Bool × List Bool
  | .push_off, (intr, saved) => (false, intr :: saved)
  | .pop_off, (_, saved) => (saved.headD false, saved.tail)
  | _, now => now

def effects (todo : List (Op Pid Name)) (now : Bool × List Bool) : Bool × List Bool :=
  todo.foldl (fun now op => op.effect now) now

/-- Calls that switch to the scheduler. -/
def Call.switches : Call Pid Name → Bool
  | .yield | .sleep _ => true
  | _ => false

/-- `yield` and `sleep` leave everything as it was. -/
theorem effects_switches {p : Pid} {call : Call Pid Name} (switches : call.switches = true)
    {intr : Bool} {saved : List Bool}
    (off : (∃ l, call = .sleep l) → saved ≠ [] ∧ intr = false) :
    effects (program p call) (intr, saved) = (intr, saved) := by
  cases call with
  | yield => rfl
  | sleep l =>
    obtain ⟨some_held, rfl⟩ := off ⟨l, rfl⟩
    obtain ⟨b, rest, rfl⟩ := List.exists_cons_of_ne_nil some_held
    rfl
  | _ => cases switches

/-! ## Threads -/

/-- The calls of `push_off` and of `pop_off` that are still to come. -/
def pushes : List (Op Pid Name) → Nat
  | [] => 0
  | .push_off :: todo => pushes todo + 1
  | _ :: todo => pushes todo

def pops : List (Op Pid Name) → Nat
  | [] => 0
  | .pop_off :: todo => pops todo + 1
  | _ :: todo => pops todo

/-- Every call of `pop_off` undoes one outstanding call, and at `swtch` there is exactly one. -/
def Safe (base : Nat) : List (Op Pid Name) → Prop
  | [] => True
  | .pop_off :: todo => pushes todo ≤ base + pops todo ∧ Safe base todo
  | .swtch _ :: todo => pushes todo + 1 = base + pops todo ∧ Safe base todo
  | _ :: todo => Safe base todo

/-- What is outstanding is what has not been matched, up to the rest of the call. -/
structure Steady (th : Thread Pid Name) : Prop where
  balanced : th.saved.length + pushes th.todo = th.raw + th.held.length + pops th.todo
  safe : Safe (th.raw + th.held.length) th.todo

/-- `noff` counts what is outstanding, and interrupts are disabled if it is not zero. -/
structure Deep (cpu : Processor Pid) (th : Thread Pid Name) : Prop where
  noff : cpu.noff.toNat = th.saved.length
  outstanding : cpu.outstanding = th.saved.length
  off : th.saved ≠ [] → cpu.intr = false

/-- The processor knows what the oldest call has to restore; `yield` and `sleep` restore everything.
-/
structure Restoring (cpu : Processor Pid) (th : Thread Pid Name) : Prop where
  intena : ∀ b, th.saved.getLast? = some b → cpu.intena = b
  inner : ∀ b ∈ th.saved.dropLast, b = false
  goal : ∀ call, th.call = some call → call.switches = true →
    effects th.todo (cpu.intr, th.saved) = th.entry

section

variable {cpu : Processor Pid} {th : Thread Pid Name} {todo : List (Op Pid Name)}

theorem Deep.push_off (deep : Deep cpu th) (few : th.saved.length + 1 < 2 ^ 32) :
    Deep cpu.push_off { th with todo, saved := cpu.intr :: th.saved } := by
  refine ⟨?_, ?_, fun _ => rfl⟩
  · change (cpu.noff + 1).toNat = th.saved.length + 1
    rw [UInt32.toNat_add, deep.noff]
    exact Nat.mod_eq_of_lt few
  · change cpu.outstanding + 1 = th.saved.length + 1
    rw [deep.outstanding]

theorem Deep.noff_eq_zero_iff (deep : Deep cpu th) : cpu.noff = 0 ↔ th.saved = [] := by
  rw [← List.length_eq_zero_iff, ← deep.noff, ← UInt32.toNat_inj]
  rfl

theorem Restoring.push_off (restoring : Restoring cpu th) (deep : Deep cpu th)
    (here : th.todo = .push_off :: todo) :
    Restoring cpu.push_off { th with todo, saved := cpu.intr :: th.saved } := by
  have zero := deep.noff_eq_zero_iff
  refine ⟨fun b last => ?_, fun b inner => ?_, fun call same switches => ?_⟩
  · change (if cpu.noff = 0 then cpu.intr else cpu.intena) = b
    cases saved : th.saved with
    | nil =>
      rw [if_pos (zero.mpr saved)]
      simpa [saved] using last
    | cons first rest =>
      rw [if_neg (mt zero.mp (by simp [saved]))]
      refine restoring.intena b ?_
      simpa [saved] using last
  · cases saved : th.saved with
    | nil => simp [saved] at inner
    | cons first rest =>
      simp only [saved, List.dropLast_cons_cons, List.mem_cons] at inner
      rcases inner with rfl | inner
      · exact deep.off (by simp [saved])
      · exact restoring.inner b (by simpa [saved] using inner)
  · have goal := restoring.goal call same switches
    rwa [here] at goal

theorem Deep.pop_off (deep : Deep cpu th) {b : Bool} {rest : List Bool} (saved : th.saved = b :: rest)
    (todo : List (Op Pid Name)) :
    ∃ cpu', cpu.pop_off = .ok cpu' ∧ Deep cpu' { th with todo, saved := rest } ∧
      cpu'.runs = cpu.runs ∧ cpu'.intena = cpu.intena ∧
      cpu'.intr = (decide (rest = []) && cpu.intena) := by
  have off : cpu.intr = false := deep.off (by simp [saved])
  have length : cpu.noff.toNat = rest.length + 1 := by rw [deep.noff, saved, List.length_cons]
  have one : ¬cpu.noff < 1 := by
    rw [UInt32.lt_iff_toNat_lt, length]
    change ¬_ < 1
    omega
  have less : (cpu.noff - 1).toNat = rest.length := by
    rw [UInt32.toNat_sub_of_le _ _ (UInt32.not_lt.mp one), length]
    rfl
  have zero : cpu.noff - 1 = 0 ↔ rest = [] := by
    rw [← List.length_eq_zero_iff, ← less, ← UInt32.toNat_inj]
    rfl
  have count : cpu.outstanding - 1 = rest.length := by
    rw [deep.outstanding, saved, List.length_cons, Nat.add_sub_cancel]
  rw [Processor.pop_off, if_neg (by simp [off]), if_neg one]
  refine ⟨_, rfl, ?_, ?_, ?_, ?_⟩
  · by_cases last : cpu.noff - 1 = 0 ∧ cpu.intena = true
    · rw [if_pos last]
      exact ⟨less, count, fun more => absurd (zero.mp last.1) more⟩
    · rw [if_neg last]
      exact ⟨less, count, fun _ => off⟩
  · split <;> rfl
  · split <;> rfl
  · by_cases last : cpu.noff - 1 = 0 ∧ cpu.intena = true
    · rw [if_pos last]
      simp [zero.mp last.1, last.2]
    · rw [if_neg last]
      rw [zero] at last
      simpa [off] using last

/-- The entry that `pop_off` removes is what it restores. -/
theorem Restoring.pop_off (restoring : Restoring cpu th) {cpu' : Processor Pid} {b : Bool}
    {rest : List Bool} (saved : th.saved = b :: rest) (intena : cpu'.intena = cpu.intena)
    (intr : cpu'.intr = (decide (rest = []) && cpu.intena)) (todo : List (Op Pid Name)) :
    cpu'.intr = b ∧
      (th.todo = .pop_off :: todo → Restoring cpu' { th with todo, saved := rest }) := by
  have restored : cpu'.intr = b := by
    cases rest with
    | nil => simpa [intr] using restoring.intena b (by simp [saved])
    | cons next rest =>
      have off := restoring.inner b (by simp [saved])
      simp [intr, off]
  refine ⟨restored, fun here => ⟨fun last oldest => ?_, fun x inner => ?_, fun call same switches => ?_⟩⟩
  · rw [intena]
    refine restoring.intena last ?_
    cases rest with
    | nil => simp at oldest
    | cons next rest => simpa [saved] using oldest
  · refine restoring.inner x ?_
    cases rest with
    | nil => simp at inner
    | cons next rest => simp [saved, inner]
  · have goal := restoring.goal call same switches
    rw [here, saved] at goal
    rwa [restored]

/-- `pop_off` is called with something outstanding. -/
theorem Steady.exists_saved (steady : Steady th) (here : th.todo = .pop_off :: todo) :
    ∃ b rest, th.saved = b :: rest := by
  obtain ⟨balanced, safe⟩ := steady
  rw [here] at balanced safe
  have enough := safe.1
  simp only [pushes, pops] at balanced
  refine List.exists_cons_of_ne_nil fun none_left => ?_
  rw [none_left, List.length_nil] at balanced
  omega

/-- Operations other than `push_off` and `pop_off` change nothing that matters. -/
def Op.Plain : Op Pid Name → Prop
  | .take _ | .drop _ | .sched => True
  | _ => False

theorem Steady.plain (steady : Steady th) {op : Op Pid Name} (here : th.todo = op :: todo)
    (plain : op.Plain) : Steady { th with todo } := by
  obtain ⟨balanced, safe⟩ := steady
  rw [here] at balanced safe
  cases op with
  | take | drop | sched => exact ⟨balanced, safe⟩
  | push_off | pop_off | swtch => exact plain.elim

theorem Restoring.plain (restoring : Restoring cpu th) {op : Op Pid Name} (here : th.todo = op :: todo)
    (plain : op.Plain) : Restoring cpu { th with todo } := by
  refine ⟨restoring.intena, restoring.inner, fun call same switches => ?_⟩
  have goal := restoring.goal call same switches
  rw [here] at goal
  cases op with
  | take | drop | sched => exact goal
  | push_off | pop_off | swtch => exact plain.elim

variable [DecidableEq Cpu] [DecidableEq Pid] [DecidableEq Name] {c : Cpu}
  {locks locks' : Lock Pid Name → Option Cpu} {cpu' : Processor Pid} {th' : Thread Pid Name}

/-- The operations that all threads have keep what is said about them. -/
theorem basic_ok (deep : Deep cpu th) (steady : Steady th) (few : th.saved.length + 1 < 2 ^ 32)
    (ran : basic c cpu th locks = some (.ok (cpu', th', locks'))) :
    Deep cpu' th' ∧ Steady th' ∧ cpu'.runs = cpu.runs ∧ th'.away = th.away ∧
      th'.fresh = th.fresh ∧ th'.raw + th'.held.length = th.raw + th.held.length ∧
      (Restoring cpu th → Restoring cpu' th') := by
  rw [basic] at ran
  split at ran
  · next todo here =>
    cases ran
    refine ⟨deep.push_off few, ?_, rfl, rfl, rfl, rfl, fun restoring => restoring.push_off deep here⟩
    obtain ⟨balanced, safe⟩ := steady
    rw [here] at balanced safe
    refine ⟨?_, safe⟩
    simp only [pushes, pops, List.length_cons] at balanced ⊢
    omega
  · next todo here =>
    obtain ⟨b, rest, saved⟩ := steady.exists_saved here
    obtain ⟨popped, pop_eq, deep', runs, intena, intr⟩ := deep.pop_off saved todo
    rw [pop_eq] at ran
    cases ran
    rw [saved, List.tail_cons]
    refine ⟨deep', ?_, runs, rfl, rfl, rfl, fun restoring => (restoring.pop_off saved intena intr todo).2 here⟩
    obtain ⟨balanced, safe⟩ := steady
    rw [here] at balanced safe
    refine ⟨?_, safe.2⟩
    simp only [pushes, pops, saved, List.length_cons] at balanced ⊢
    omega
  · next l todo here =>
    split at ran
    · simp at ran
    · split at ran
      · cases ran
        exact ⟨{ deep with }, steady.plain here trivial, rfl, rfl, rfl, rfl,
          fun restoring => restoring.plain here trivial⟩
      · simp at ran
  · next l todo here =>
    split at ran
    · cases ran
      exact ⟨{ deep with }, steady.plain here trivial, rfl, rfl, rfl, rfl,
        fun restoring => restoring.plain here trivial⟩
    · simp at ran
  · simp at ran

def popPanics : List String := ["pop_off - interruptible", "pop_off"]

theorem basic_error (deep : Deep cpu th) (steady : Steady th) {message : String}
    (ran : basic c cpu th locks = some (.error message)) : message ∉ popPanics := by
  rw [basic] at ran
  split at ran
  · simp at ran
  · next todo here =>
    obtain ⟨b, rest, saved⟩ := steady.exists_saved here
    obtain ⟨popped, pop_eq, -⟩ := deep.pop_off saved todo
    rw [pop_eq] at ran
    simp [Except.map] at ran
  · split at ran
    · cases ran
      decide
    · split at ran <;> simp at ran
  · split at ran
    · simp at ran
    · cases ran
      decide
  · simp at ran

end

/-! ## Runs -/

/-- A process that does not run. -/
structure Parked (th : Thread Pid Name) : Prop where
  steady : Steady th
  one : ∃ b, th.saved = [b]
  intena : th.fresh = false → th.saved = [th.intena]
  fresh : th.fresh = true → th.call = none
  goal : ∀ call, th.call = some call → call.switches = true →
    effects th.todo (false, th.saved) = th.entry

theorem parked_forkret (p : Pid) : Parked (forkret p : Thread Pid Name) :=
  ⟨⟨rfl, zero_le, trivial⟩, ⟨false, rfl⟩, nofun, fun _ => rfl, nofun⟩

/-- A scheduler, which leaves nothing outstanding. -/
structure Scheduling (th : Thread Pid Name) : Prop where
  steady : Steady th
  zero : th.raw + th.held.length = 0

/-- A processor that runs a process. -/
structure Busy (s : State Cpu Pid Name) (c : Cpu) (p : Pid) : Prop where
  here : (s.procs p).away = false ∧ (s.procs p).fresh = false
  deep : Deep (s.cpus c) (s.procs p)
  steady : Steady (s.procs p)
  restoring : Restoring (s.cpus c) (s.procs p)
  one : (s.scheduler c).saved.length = 1
  scheduling : Scheduling (s.scheduler c)

/-- A processor that runs its scheduler. -/
structure Idle (s : State Cpu Pid Name) (c : Cpu) : Prop where
  deep : Deep (s.cpus c) (s.scheduler c)
  scheduling : Scheduling (s.scheduler c)

structure Inv (s : State Cpu Pid Name) : Prop where
  busy : ∀ c p, (s.cpus c).runs = some p → Busy s c p
  idle : ∀ c, (s.cpus c).runs = none → Idle s c
  only : ∀ c c' p, (s.cpus c).runs = some p → (s.cpus c').runs = some p → c = c'
  away : ∀ p, (s.procs p).away = true → Parked (s.procs p)
  calm : ∀ message, s.panic = some message → message ∉ popPanics

section

variable {s t : State Cpu Pid Name} {c : Cpu} {p : Pid}

variable (inv : Inv s)

include inv

/-- One processor changes, and processes that no other one runs. -/
theorem Inv.change (c : Cpu)
    (cpus : ∀ c' ≠ c, t.cpus c' = s.cpus c' ∧ t.scheduler c' = s.scheduler c')
    (procs : ∀ p, t.procs p = s.procs p ∨ ∀ c' ≠ c, (s.cpus c').runs ≠ some p)
    (busy : ∀ p, (t.cpus c).runs = some p → Busy t c p ∧ ∀ c' ≠ c, (s.cpus c').runs ≠ some p)
    (idle : (t.cpus c).runs = none → Idle t c)
    (away : ∀ p, (t.procs p).away = true → t.procs p = s.procs p ∨ Parked (t.procs p))
    (calm : t.panic = s.panic) : Inv t := by
  refine ⟨fun c' p runs => ?_, fun c' none_runs => ?_, fun c₁ c₂ p runs₁ runs₂ => ?_, fun p gone => ?_,
    fun message failed => ?_⟩
  · by_cases same : c' = c
    · subst same
      exact (busy p runs).1
    · obtain ⟨cpu, scheduler⟩ := cpus c' same
      rw [cpu] at runs
      have before := inv.busy c' p runs
      have proc := (procs p).resolve_right fun others => others c' same runs
      exact ⟨proc ▸ before.here, by rw [cpu, proc]; exact before.deep, proc ▸ before.steady,
        by rw [cpu, proc]; exact before.restoring, scheduler ▸ before.one,
        scheduler ▸ before.scheduling⟩
  · by_cases same : c' = c
    · subst same
      exact idle none_runs
    · obtain ⟨cpu, scheduler⟩ := cpus c' same
      rw [cpu] at none_runs
      have before := inv.idle c' none_runs
      exact ⟨by rw [cpu, scheduler]; exact before.deep, scheduler ▸ before.scheduling⟩
  · by_contra apart
    rcases eq_or_ne c₁ c with rfl | other₁
    · rw [(cpus c₂ (Ne.symm apart)).1] at runs₂
      exact (busy p runs₁).2 c₂ (Ne.symm apart) runs₂
    · rcases eq_or_ne c₂ c with rfl | other₂
      · rw [(cpus c₁ apart).1] at runs₁
        exact (busy p runs₂).2 c₁ apart runs₁
      · rw [(cpus c₁ other₁).1] at runs₁
        rw [(cpus c₂ other₂).1] at runs₂
        exact apart (inv.only c₁ c₂ p runs₁ runs₂)
  · rcases away p gone with same | parked
    · rw [same] at gone ⊢
      exact inv.away p gone
    · exact parked
  · exact inv.calm message (calm ▸ failed)

theorem Inv.fail {message : String} (other : message ∉ popPanics) : Inv (s.fail message) :=
  ⟨fun c p runs => ⟨(inv.busy c p runs).here, (inv.busy c p runs).deep, (inv.busy c p runs).steady,
      (inv.busy c p runs).restoring, (inv.busy c p runs).one, (inv.busy c p runs).scheduling⟩,
    fun c runs => ⟨(inv.idle c runs).deep, (inv.idle c runs).scheduling⟩, inv.only, inv.away,
    fun _ same => Option.some.inj same ▸ other⟩

theorem Inv.elsewhere (runs : (s.cpus c).runs = some p) : ∀ c' ≠ c, (s.cpus c').runs ≠ some p :=
  fun c' other runs' => other (inv.only c' c p runs' runs)

theorem Inv.not_runs (gone : (s.procs p).away = true) (c : Cpu) : (s.cpus c).runs ≠ some p := by
  intro runs
  simp [(inv.busy c p runs).here.1] at gone

omit inv in
theorem inv_init : Inv (init : State Cpu Pid Name) :=
  ⟨nofun,
    fun _ _ => ⟨⟨rfl, rfl, fun some_saved => absurd rfl some_saved⟩, ⟨⟨rfl, trivial⟩, rfl⟩⟩,
    nofun, fun p _ => parked_forkret p, nofun⟩

variable [DecidableEq Cpu] [DecidableEq Pid]

variable {cpu : Processor Pid} {th : Thread Pid Name} {todo : List (Op Pid Name)}

theorem Inv.goes_on (runs : (s.cpus c).runs = some p) (cpus : t.cpus = update s.cpus c cpu)
    (procs : t.procs = update s.procs p th) (scheduler : t.scheduler = s.scheduler)
    (panic : t.panic = s.panic) (same : cpu.runs = some p) (here : th.away = false ∧ th.fresh = false)
    (deep : Deep cpu th) (steady : Steady th) (restoring : Restoring cpu th) : Inv t := by
  have before := inv.busy c p runs
  have cpu_eq : t.cpus c = cpu := by rw [cpus, update_self]
  have proc_eq : t.procs p = th := by rw [procs, update_self]
  refine inv.change c (fun c' other => ⟨?_, by rw [scheduler]⟩) (fun q => ?_) (fun q runs_q => ?_)
    (fun none_runs => ?_) (fun q gone => ?_) panic
  · rw [cpus, update_of_ne other]
  · rcases eq_or_ne q p with rfl | other
    · exact .inr (inv.elsewhere runs)
    · exact .inl (by rw [procs, update_of_ne other])
  · obtain rfl : p = q := by
      rw [cpu_eq, same] at runs_q
      exact Option.some.inj runs_q
    refine ⟨⟨?_, ?_, ?_, ?_, ?_, ?_⟩, inv.elsewhere runs⟩
    · rwa [proc_eq]
    · rwa [cpu_eq, proc_eq]
    · rwa [proc_eq]
    · rwa [cpu_eq, proc_eq]
    · rw [scheduler]
      exact before.one
    · rw [scheduler]
      exact before.scheduling
  · rw [cpu_eq, same] at none_runs
    cases none_runs
  · rcases eq_or_ne q p with rfl | other
    · rw [proc_eq, here.1] at gone
      cases gone
    · exact .inl (by rw [procs, update_of_ne other])

omit [DecidableEq Pid] in
theorem Inv.schedules (cpus : t.cpus = update s.cpus c cpu) (procs : t.procs = s.procs)
    (scheduler : t.scheduler = update s.scheduler c th) (panic : t.panic = s.panic)
    (same : cpu.runs = none) (deep : Deep cpu th) (scheduling : Scheduling th) : Inv t := by
  have cpu_eq : t.cpus c = cpu := by rw [cpus, update_self]
  have th_eq : t.scheduler c = th := by rw [scheduler, update_self]
  refine inv.change c (fun c' other => ⟨?_, ?_⟩) (fun q => .inl (by rw [procs])) (fun q runs_q => ?_)
    (fun _ => ⟨?_, ?_⟩) (fun q _ => .inl (by rw [procs])) panic
  · rw [cpus, update_of_ne other]
  · rw [scheduler, update_of_ne other]
  · rw [cpu_eq, same] at runs_q
    cases runs_q
  · rwa [cpu_eq, th_eq]
  · rwa [th_eq]

theorem Inv.leaves (runs : (s.cpus c).runs = some p) (cpus : t.cpus = update s.cpus c cpu)
    (procs : t.procs = update s.procs p th) (scheduler : t.scheduler = s.scheduler)
    (panic : t.panic = s.panic) (same : cpu.runs = none) (deep : Deep cpu (s.scheduler c))
    (parked : Parked th) : Inv t := by
  have cpu_eq : t.cpus c = cpu := by rw [cpus, update_self]
  refine inv.change c (fun c' other => ⟨?_, by rw [scheduler]⟩) (fun q => ?_) (fun q runs_q => ?_)
    (fun _ => ⟨?_, ?_⟩) (fun q _ => ?_) panic
  · rw [cpus, update_of_ne other]
  · rcases eq_or_ne q p with rfl | other
    · exact .inr (inv.elsewhere runs)
    · exact .inl (by rw [procs, update_of_ne other])
  · rw [cpu_eq, same] at runs_q
    cases runs_q
  · rwa [cpu_eq, scheduler]
  · rw [scheduler]
    exact (inv.busy c p runs).scheduling
  · rcases eq_or_ne q p with rfl | other
    · rw [procs, update_self]
      exact .inr parked
    · exact .inl (by rw [procs, update_of_ne other])

theorem Inv.enters (gone : (s.procs p).away = true)
    {next : Thread Pid Name} (cpus : t.cpus = update s.cpus c cpu)
    (procs : t.procs = update s.procs p th)
    (scheduler : t.scheduler = update s.scheduler c next) (panic : t.panic = s.panic)
    (same : cpu.runs = some p) (here : th.away = false ∧ th.fresh = false) (deep : Deep cpu th) (steady : Steady th)
    (restoring : Restoring cpu th) (one : next.saved.length = 1) (scheduling : Scheduling next) :
    Inv t := by
  have cpu_eq : t.cpus c = cpu := by rw [cpus, update_self]
  have proc_eq : t.procs p = th := by rw [procs, update_self]
  have next_eq : t.scheduler c = next := by rw [scheduler, update_self]
  refine inv.change c (fun c' other => ⟨?_, ?_⟩) (fun q => ?_) (fun q runs_q => ?_)
    (fun none_runs => ?_) (fun q away => ?_) panic
  · rw [cpus, update_of_ne other]
  · rw [scheduler, update_of_ne other]
  · rcases eq_or_ne q p with rfl | other
    · exact .inr fun c' _ => inv.not_runs gone c'
    · exact .inl (by rw [procs, update_of_ne other])
  · obtain rfl : p = q := by
      rw [cpu_eq, same] at runs_q
      exact Option.some.inj runs_q
    refine ⟨⟨?_, ?_, ?_, ?_, ?_, ?_⟩, fun c' _ => inv.not_runs gone c'⟩
    · rwa [proc_eq]
    · rwa [cpu_eq, proc_eq]
    · rwa [proc_eq]
    · rwa [cpu_eq, proc_eq]
    · rwa [next_eq]
    · rwa [next_eq]
  · rw [cpu_eq, same] at none_runs
    cases none_runs
  · rcases eq_or_ne q p with rfl | other
    · rw [proc_eq, here.1] at away
      cases away
    · exact .inl (by rw [procs, update_of_ne other])

omit [DecidableEq Cpu] in
/-- The entry of a process that does not run is used again. -/
theorem Inv.reuse (gone : (s.procs p).away = true) : Inv (s.setProc p (forkret p)) := by
  have other : ∀ {c q}, (s.cpus c).runs = some q → (s.setProc p (forkret p)).procs q = s.procs q := by
    intro c q runs
    refine update_of_ne ?_ _ _
    rintro rfl
    exact inv.not_runs gone c runs
  refine ⟨fun c q runs => ?_, fun c none_runs => ⟨(inv.idle c none_runs).deep,
    (inv.idle c none_runs).scheduling⟩, inv.only, fun q away => ?_, inv.calm⟩
  · have before := inv.busy c q runs
    have same := other runs
    exact ⟨same ▸ before.here, same ▸ before.deep, same ▸ before.steady, same ▸ before.restoring,
      before.one, before.scheduling⟩
  · rcases eq_or_ne q p with rfl | apart
    · have new : (s.setProc q (forkret q)).procs q = forkret q := update_self ..
      rw [new]
      exact parked_forkret q
    · have same : (s.setProc p (forkret p)).procs q = s.procs q := update_of_ne apart _ _
      rw [same] at away ⊢
      exact inv.away q away

theorem Inv.sched (runs : (s.cpus c).runs = some p)
    (here : (s.procs p).todo = .sched :: todo) : Inv (s.sched c p todo) := by
  have before := inv.busy c p runs
  rw [State.sched]
  dsimp only
  split
  · exact inv.fail (by decide)
  split
  · exact inv.fail (by decide)
  next one =>
  split
  · exact inv.fail (by decide)
  next off =>
  have length : (s.procs p).saved.length = 1 := by
    rw [← before.deep.noff, not_not.mp one]
    rfl
  obtain ⟨b, saved⟩ := List.length_eq_one_iff.mp length
  have restored : (s.cpus c).intena = b := before.restoring.intena b (by simp [saved])
  have intr : (s.cpus c).intr = false := by simpa using off
  obtain ⟨balanced, safe⟩ := before.steady.plain here trivial
  have goal := (before.restoring.plain here trivial).goal
  rw [intr] at goal
  refine inv.leaves (p := p) runs rfl rfl rfl rfl rfl ⟨?_, ?_, fun _ => intr⟩
    ⟨⟨balanced, safe⟩, ⟨b, saved⟩, fun _ => saved.trans (by rw [restored]), ?_, goal⟩
  · rw [before.one, ← length]
    exact before.deep.noff
  · rw [before.one, ← length]
    exact before.deep.outstanding
  · intro fresh
    rw [before.here.2] at fresh
    cases fresh

theorem Inv.swtch (none_runs : (s.cpus c).runs = none) (gone : (s.procs p).away = true)
    (here : (s.scheduler c).todo = .swtch p :: todo) : Inv (s.swtch c p todo) := by
  have before := inv.idle c none_runs
  have parked := inv.away p gone
  obtain ⟨⟨balanced, safe⟩, zero⟩ := before.scheduling
  rw [here] at balanced safe
  have one : (s.scheduler c).saved.length = 1 := by
    have only := safe.1
    simp only [pushes, pops] at balanced
    omega
  have scheduling : Scheduling { s.scheduler c with todo } := ⟨⟨balanced, safe.2⟩, zero⟩
  have intr : (s.cpus c).intr = false := before.deep.off (by rw [← List.length_pos_iff]; omega)
  obtain ⟨b, saved⟩ := parked.one
  rw [State.swtch]
  dsimp only
  split
  · next fresh =>
    refine inv.enters (p := p) gone rfl rfl rfl rfl rfl ⟨rfl, rfl⟩
      ⟨before.deep.noff.trans one, before.deep.outstanding.trans one, fun _ => intr⟩ ?_ ?_ one scheduling
    · have steady := parked.steady
      exact ⟨by simpa [saved] using steady.balanced, steady.safe⟩
    · refine ⟨fun b last => ?_, fun b inner => ?_, fun call same => ?_⟩
      · simpa using last
      · simp at inner
      · rw [parked.fresh fresh] at same
        cases same
  · next old =>
    have own := parked.intena (by simpa using old)
    have length : (s.procs p).saved.length = 1 := by rw [saved, List.length_singleton]
    refine inv.enters (p := p) gone rfl rfl rfl rfl rfl ⟨rfl, by simpa using old⟩
      ⟨before.deep.noff.trans (one.trans length.symm),
        before.deep.outstanding.trans (one.trans length.symm), fun _ => intr⟩ ?_ ?_ one scheduling
    · exact ⟨parked.steady.balanced, parked.steady.safe⟩
    · refine ⟨fun b last => ?_, fun b inner => ?_, fun call same switches => ?_⟩
      · rw [own] at last
        simpa using last
      · rw [own] at inner
        simp at inner
      · rw [intr]
        exact parked.goal call same switches

variable [DecidableEq Name]

omit inv in
theorem Steady.begin {th' : Thread Pid Name} {call : Call Pid Name} (steady : Steady th)
    (done : th.todo = []) (matched : th.matched call = some th') :
    Steady { th' with todo := program p call } ∧ th'.saved = th.saved ∧ th'.away = th.away ∧
      th'.fresh = th.fresh ∧ ((∃ l, call = .sleep l) → th.saved ≠ []) := by
  obtain ⟨balanced, -⟩ := steady
  rw [done] at balanced
  simp only [pushes, pops, add_zero] at balanced
  cases call with
  | push_off =>
    cases matched
    refine ⟨⟨?_, trivial⟩, rfl, rfl, rfl, by simp⟩
    simp only [program, pushes, pops]
    omega
  | pop_off =>
    obtain ⟨some_raw, matched⟩ := ite_none_right_eq_some.mp matched
    cases matched
    refine ⟨⟨?_, zero_le, trivial⟩, rfl, rfl, rfl, by simp⟩
    simp only [program, pushes, pops]
    omega
  | acquire l =>
    cases matched
    refine ⟨⟨?_, trivial⟩, rfl, rfl, rfl, by simp⟩
    simp only [program, acquire, pushes, pops, List.length_cons]
    omega
  | release l =>
    obtain ⟨member, matched⟩ := ite_none_right_eq_some.mp matched
    cases matched
    refine ⟨⟨?_, zero_le, trivial⟩, rfl, rfl, rfl, by simp⟩
    have positive := List.length_pos_of_mem member
    simp only [program, release, pushes, pops, List.length_erase_of_mem member]
    omega
  | yield =>
    cases matched
    refine ⟨⟨?_, zero_le, trivial⟩, rfl, rfl, rfl, by simp⟩
    simp only [program, acquire, release, List.cons_append, List.nil_append, pushes, pops]
    omega
  | sleep l =>
    obtain ⟨member, matched⟩ := ite_none_right_eq_some.mp matched
    cases matched
    have positive := List.length_pos_of_mem member
    refine ⟨⟨?_, ?_⟩, rfl, rfl, rfl, fun _ => ?_⟩
    · simp only [program, acquire, release, List.cons_append, List.nil_append, pushes, pops]
      omega
    · simp only [program, acquire, release, List.cons_append, List.nil_append, Safe, pushes, pops]
      exact ⟨by omega, by omega, trivial⟩
    · rw [← List.length_pos_iff]
      omega

theorem Inv.begin (runs : (s.cpus c).runs = some p) {call : Call Pid Name}
    (ran : s.begin c p call = some t) : Inv t := by
  have before := inv.busy c p runs
  rw [State.begin] at ran
  obtain ⟨done, ran⟩ := ite_none_right_eq_some.mp ran
  obtain ⟨th, matched, rfl⟩ := Option.map_eq_some_iff.mp ran
  obtain ⟨⟨balanced, safe⟩, saved, away, fresh, sleeping⟩ := before.steady.begin (p := p) done matched
  obtain ⟨noff, outstanding, off⟩ := before.deep
  rw [← saved] at noff outstanding off sleeping
  refine inv.goes_on (p := p) runs (update_eq_self c s.cpus).symm rfl rfl rfl runs
    ⟨away.trans before.here.1, fresh.trans before.here.2⟩ ⟨noff, outstanding, off⟩ ⟨balanced, safe⟩
    ⟨?_, ?_, fun other same switches => ?_⟩
  · rw [saved]
    exact before.restoring.intena
  · rw [saved]
    exact before.restoring.inner
  · cases same
    exact effects_switches switches fun asleep => ⟨sleeping asleep, off (sleeping asleep)⟩

/-- What must hold before a step so that `noff` does not wrap. -/
def Fits (s : State Cpu Pid Name) (_ : Event Cpu Pid Name) : Prop :=
  ∀ c, (s.cpus c).outstanding + 1 < 2 ^ 32

theorem Inv.opProc (runs : (s.cpus c).runs = some p)
    (few : (s.cpus c).outstanding + 1 < 2 ^ 32) (ran : s.opProc c p = some t) : Inv t := by
  have before := inv.busy c p runs
  rw [State.opProc] at ran
  split at ran
  · next todo here =>
    cases ran
    exact inv.sched runs here
  · obtain ⟨result, executed, rfl⟩ := Option.map_eq_some_iff.mp ran
    cases result with
    | error message => exact inv.fail (basic_error before.deep before.steady executed)
    | ok next =>
      obtain ⟨cpu, th, locks⟩ := next
      rw [before.deep.outstanding] at few
      obtain ⟨deep, steady, same, away, fresh, -, restoring⟩ :=
        basic_ok before.deep before.steady few executed
      exact inv.goes_on (p := p) runs rfl rfl rfl rfl (same.trans runs)
        ⟨away.trans before.here.1, fresh.trans before.here.2⟩ deep steady
        (restoring before.restoring)

theorem Inv.opScheduler (none_runs : (s.cpus c).runs = none)
    (few : (s.cpus c).outstanding + 1 < 2 ^ 32) (ran : s.opScheduler c = some t) : Inv t := by
  have before := inv.idle c none_runs
  rw [State.opScheduler] at ran
  split at ran
  · next p todo here =>
    obtain ⟨gone, ran⟩ := ite_none_right_eq_some.mp ran
    cases ran
    exact inv.swtch none_runs gone here
  · obtain ⟨result, executed, rfl⟩ := Option.map_eq_some_iff.mp ran
    cases result with
    | error message => exact inv.fail (basic_error before.deep before.scheduling.steady executed)
    | ok next =>
      obtain ⟨cpu, th, locks⟩ := next
      rw [before.deep.outstanding] at few
      obtain ⟨deep, steady, same, -, -, held, -⟩ :=
        basic_ok before.deep before.scheduling.steady few executed
      exact inv.schedules rfl rfl rfl rfl (same.trans none_runs) deep
        ⟨steady, held.trans before.scheduling.zero⟩

/-- A step that does not let `noff` wrap keeps the invariant. -/
theorem Inv.step {event : Event Cpu Pid Name} (fits : Fits s event)
    (taken : step s event = some t) : Inv t := by
  unfold Interrupts.step at taken
  replace taken := (ite_none_right_eq_some.mp taken).2
  cases event with
  | interrupts c enabled =>
    obtain ⟨zero, taken⟩ := ite_none_right_eq_some.mp taken
    split at taken
    · next none_runs =>
      have before := inv.idle c none_runs
      have none_saved := before.deep.noff_eq_zero_iff.mp zero
      obtain ⟨-, taken⟩ := ite_none_right_eq_some.mp taken
      cases taken
      exact inv.schedules rfl rfl (update_eq_self c s.scheduler).symm rfl none_runs
        ⟨before.deep.noff, before.deep.outstanding, fun some_saved => absurd none_saved some_saved⟩
        before.scheduling
    · next p runs =>
      have before := inv.busy c p runs
      have none_saved := before.deep.noff_eq_zero_iff.mp zero
      obtain ⟨-, taken⟩ := ite_none_right_eq_some.mp taken
      cases taken
      exact inv.goes_on (p := p) runs rfl rfl rfl rfl runs before.here
        ⟨before.deep.noff, before.deep.outstanding, fun some_saved => absurd none_saved some_saved⟩
        ⟨before.steady.balanced, before.steady.safe⟩
        ⟨before.restoring.intena, before.restoring.inner, fun call same => nomatch same⟩
  | call c call =>
    dsimp only at taken
    split at taken
    · cases taken
    · next p runs => exact inv.begin runs taken
  | visit c p =>
    obtain ⟨⟨none_runs, done⟩, taken⟩ := ite_none_right_eq_some.mp taken
    cases taken
    have before := inv.idle c none_runs
    have balanced := before.scheduling.steady.balanced
    have zero := before.scheduling.zero
    rw [done] at balanced
    simp only [pushes, pops, add_zero] at balanced
    refine inv.schedules (update_eq_self c s.cpus).symm rfl rfl rfl none_runs
      ⟨before.deep.noff, before.deep.outstanding, before.deep.off⟩ ⟨⟨?_, ?_⟩, zero⟩
    · simp only [visit, acquire, release, List.cons_append, List.nil_append, pushes, pops]
      omega
    · simp only [visit, acquire, release, List.cons_append, List.nil_append, Safe, pushes, pops]
      exact ⟨by omega, by omega, trivial⟩
  | op c =>
    dsimp only at taken
    split at taken
    · next none_runs => exact inv.opScheduler none_runs (fits c) taken
    · next p runs => exact inv.opProc runs (fits c) taken
  | skip c =>
    dsimp only at taken
    split at taken
    · next p todo none_runs here =>
      cases taken
      have before := inv.idle c none_runs
      obtain ⟨⟨balanced, safe⟩, zero⟩ := before.scheduling
      rw [here] at balanced safe
      exact inv.schedules (update_eq_self c s.cpus).symm rfl rfl rfl none_runs
        ⟨before.deep.noff, before.deep.outstanding, before.deep.off⟩ ⟨⟨balanced, safe.2⟩, zero⟩
    · cases taken
  | reuse p =>
    obtain ⟨gone, taken⟩ := ite_none_right_eq_some.mp taken
    cases taken
    exact inv.reuse gone

omit inv in
theorem step_push_off (runs : (s.cpus c).runs = some p)
    (here : (s.procs p).todo = .push_off :: todo) (taken : Interrupts.step s (.op c) = some t) :
    (t.procs p).saved = (s.cpus c).intr :: (s.procs p).saved := by
  simp only [Interrupts.step, runs, ite_none_right_eq_some, State.opProc, here, basic,
    Option.map_some, Option.some.injEq] at taken
  obtain ⟨-, rfl⟩ := taken
  simp [State.setProc, State.setCpu]

theorem Inv.step_pop_off (runs : (s.cpus c).runs = some p)
    (here : (s.procs p).todo = .pop_off :: todo) (taken : Interrupts.step s (.op c) = some t) :
    ∃ b rest, (s.procs p).saved = b :: rest ∧ (t.procs p).saved = rest ∧ (t.cpus c).intr = b := by
  have before := inv.busy c p runs
  obtain ⟨b, rest, saved⟩ := before.steady.exists_saved here
  obtain ⟨cpu, popped, -, -, intena, intr⟩ := before.deep.pop_off saved todo
  have restored := (before.restoring.pop_off saved intena intr todo).1
  simp only [Interrupts.step, runs, ite_none_right_eq_some, State.opProc, here, basic, popped,
    Except.map, Option.map_some, Option.some.injEq] at taken
  obtain ⟨-, rfl⟩ := taken
  exact ⟨b, rest, saved, by simp [State.setProc, State.setCpu, saved],
    by simpa [State.setProc, State.setCpu] using restored⟩

end

section

variable [DecidableEq Cpu] [DecidableEq Pid] [DecidableEq Name] {s : State Cpu Pid Name}
  {events : List (Event Cpu Pid Name)}

theorem inv_run (run : Run step Fits init events s) : Inv s := by
  apply run.invariant
  · exact fun inv fits taken => inv.step fits taken
  · exact inv_init

/-- With fewer than 2^32 calls of `push_off` outstanding, `noff` is their number, interrupts are
disabled if there are any, `pop_off` restores what its `push_off` found and does not panic, and
`yield` and `sleep` return with everything as it was. -/
theorem interrupts_nest (run : Run step Fits init events s) :
    (∀ c, (s.cpus c).noff.toNat = (s.cpus c).outstanding ∧
      (0 < (s.cpus c).outstanding → (s.cpus c).intr = false)) ∧
    (s.panic ≠ some "pop_off - interruptible" ∧ s.panic ≠ some "pop_off") ∧
    (∀ c p todo t, (s.cpus c).runs = some p → (s.procs p).todo = .push_off :: todo →
      step s (.op c) = some t → (t.procs p).saved = (s.cpus c).intr :: (s.procs p).saved) ∧
    (∀ c p todo t, (s.cpus c).runs = some p → (s.procs p).todo = .pop_off :: todo →
      step s (.op c) = some t →
      ∃ b rest, (s.procs p).saved = b :: rest ∧ (t.procs p).saved = rest ∧ (t.cpus c).intr = b) ∧
    ∀ c p call, (s.cpus c).runs = some p → (s.procs p).todo = [] → (s.procs p).call = some call →
      call.switches = true → ((s.cpus c).intr, (s.procs p).saved) = (s.procs p).entry := by
  have inv := inv_run run
  refine ⟨fun c => ?_, ⟨?_, ?_⟩, fun c p todo t runs here taken => step_push_off runs here taken,
    fun c p todo t runs here taken => inv.step_pop_off runs here taken,
    fun c p call runs done same switches => ?_⟩
  · have deep : ∃ th : Thread Pid Name, Deep (s.cpus c) th := by
      cases runs : (s.cpus c).runs with
      | none => exact ⟨_, (inv.idle c runs).deep⟩
      | some p => exact ⟨_, (inv.busy c p runs).deep⟩
    obtain ⟨th, deep⟩ := deep
    refine ⟨deep.noff.trans deep.outstanding.symm, fun some_left => deep.off ?_⟩
    rw [← List.length_pos_iff, ← deep.outstanding]
    exact some_left
  · exact fun failed => inv.calm _ failed (by decide)
  · exact fun failed => inv.calm _ failed (by decide)
  · have goal := (inv.busy c p runs).restoring.goal call same switches
    rwa [done] at goal

end

instance [Fintype Cpu] (s : State Cpu Pid Name) (event : Event Cpu Pid Name) : Decidable (Fits s event) :=
  inferInstanceAs (Decidable (∀ c, (s.cpus c).outstanding + 1 < 2 ^ 32))

/-- A scheduler runs a process for the first time, and interrupts are enabled. -/
def started (c : Cpu) : List (Event Cpu Unit Bool) :=
  [.visit c (), .op c, .op c, .op c, .op c, .op c, .interrupts c true]

/-- A process yields on one processor and goes on on another one. -/
def migrated : List (Event Bool Unit Bool) :=
  started false ++ [.call false .yield, .op false, .op false, .op false, .op false, .op false,
    .visit true (), .op true, .op true, .op true, .op true, .op true]

theorem interrupts_nest_migrated :
    ∃ s : State Bool Unit Bool, Run step Fits init migrated s ∧
      (s.cpus true).runs = some () ∧ (s.cpus true).intr = true ∧
      ((s.cpus true).intr, (s.procs ()).saved) = (s.procs ()).entry := by
  obtain ⟨s, run, reached⟩ : ∃ s : State Bool Unit Bool, Run step Fits init migrated s ∧
      decide ((s.cpus true).runs = some () ∧ (s.cpus true).intr = true ∧ (s.procs ()).todo = [] ∧
        (s.procs ()).call = some .yield) = true := exists_run_of_exec (by decide +kernel)
  obtain ⟨runs, intr, done, call⟩ := of_decide_eq_true reached
  exact ⟨s, run, runs, intr, (interrupts_nest run).2.2.2.2 true () .yield runs done call rfl⟩

/-- Two locks are acquired and the first one is released. -/
def overlapping : List (Event Unit Unit Bool) :=
  [.call () (.acquire (.other false)), .op (), .op (), .call () (.acquire (.other true)), .op (), .op (),
    .call () (.release (.other false)), .op (), .op ()]

/-- Interrupts are enabled before a lock is acquired, and disabled after it is released. -/
theorem overlapping_locks :
    ∃ s t : State Unit Unit Bool, Run step Fits init (started ()) s ∧
      (s.procs ()).todo = [] ∧ (s.cpus ()).intr = true ∧
      Run step Fits s overlapping t ∧
      (t.procs ()).todo = [] ∧ (t.procs ()).call = some (.release (.other false)) ∧
      (t.cpus ()).intr = false := by
  obtain ⟨s, run, reached⟩ : ∃ s : State Unit Unit Bool, Run step Fits init (started ()) s ∧
      ((exec step Fits overlapping s).any fun t =>
        decide (((s.procs ()).todo = [] ∧ (s.cpus ()).intr = true) ∧ (t.procs ()).todo = [] ∧
          (t.procs ()).call = some (.release (.other false)) ∧ (t.cpus ()).intr = false)) = true :=
    exists_run_of_exec (by decide +kernel)
  obtain ⟨t, more, reached⟩ := exists_run_of_exec reached
  obtain ⟨⟨done, before⟩, released, call, after⟩ := of_decide_eq_true reached
  exact ⟨s, t, run, done, before, more, released, call, after⟩

end OsCpp.Interrupts
