import OsCpp.Proc.Family
import OsCpp.Proc.Changes

/-!
# What becomes of children

Every process that has exited is returned by one `wait` at most, that of its parent, and no parent
sleeps over a zombie.
-/

namespace OsCpp.Proc

open Execution (Run exists_run_of_exec)

variable {Cpu : Type} {s t u : State Cpu} {home : Slot → Option Cpu} {c : Cpu} {p q : Slot}

variable [DecidableEq Cpu] {trapframe pagetable cwd : Nat} {events : List (Event Cpu)}

/-- Every `wait` returns a zombie once, to its parent; every process but the first has a parent that
will run again; an entry is freed as a zombie on no processor, or by its `fork`; and nobody sleeps
in `wait` over a zombie while `wait_lock` is free. -/
theorem children_handed_over
    (run : Run step (fun _ _ => True) (user_init trapframe pagetable cwd) events s) :
    Exact s.history ∧
    (∀ q ≠ init_proc, Live (s.proc_list q).status ∨ (s.proc_list q).status = .ZOMBIE →
      ∃ r, (s.proc_list q).parent = some r ∧ (s.proc_list r).status ≠ .UNUSED ∧
        (s.proc_list r).status ≠ .ZOMBIE) ∧
    (∀ {event : Event Cpu} {t : State Cpu} {q : Slot}, step s event = some t →
      (s.proc_list q).status ≠ .UNUSED → (t.proc_list q).status = .UNUSED →
      (∀ c, (s.mode c).proc ≠ some q) ∧
        ((s.proc_list q).status = .ZOMBIE ∨
          (s.proc_list q).status = .USED ∧
            ∃ c p, s.mode c = .run p ∧ (s.proc_list p).thread = .code (.copying q))) ∧
    (s.wait_lock = none → ∀ p q, Dozes s.proc_list p → (s.proc_list q).parent = some p →
      (s.proc_list q).status ≠ .ZOMBIE) := by
  obtain ⟨family, home, placed⟩ := family_run run
  have nowhere : ∀ {q}, home q = none → ∀ c, (s.mode c).proc ≠ some q := by
    intro q away c has
    rw [(placed.home_iff c q).mp has] at away
    cases away
  refine ⟨family.exact, fun q other up => ?_, fun {event t q} taken used unused => ?_,
    fun free p q doze child => family.not_missed (family.quiet_of_free free) doze child⟩
  · obtain ⟨r, parent⟩ := Option.ne_none_iff_exists'.mp (family.orphan q other up)
    have live := family.parent q r parent
    refine ⟨r, parent, fun dull => ?_, fun dull => ?_⟩ <;> rw [dull] at live <;> simp [Live] at live
  · rcases ((Changes.step placed taken).2 q).unused unused with same | ⟨zombie, lock⟩ | ⟨c, p, runs, code⟩
    · exact absurd same used
    · exact ⟨nowhere (placed.off_of_parked (.inr (.inr zombie)) lock), .inl zombie⟩
    · have making := placed.child p q (by rw [code]; rfl)
      exact ⟨nowhere (placed.off_of_unready (.inr making)), .inr ⟨making, c, p, runs, code⟩⟩

def beginFork : List (Event Unit) :=
  [.pick () init_proc, .enter (), .advance () {}, .begin () .fork, .advance () {}, .advance () {}]

/-- A `fork` that gets no memory frees the entry of the child, which is not a zombie. -/
theorem fork_frees_used :
    ∃ s t q, Run step (fun _ _ => True) (user_init 1 2 3) beginFork s ∧
      step s (.advance () {}) = some t ∧
      (s.proc_list q).status = .USED ∧ (t.proc_list q).status = .UNUSED := by
  let child : Slot := ⟨1, one_lt_NPROC⟩
  obtain ⟨s, run, reached⟩ : ∃ s, Run step (fun _ _ => True) (user_init 1 2 3) beginFork s ∧
      decide ((s.proc_list child).status = .USED ∧ (step s (.advance () {})).any (fun t =>
        decide ((t.proc_list child).status = .UNUSED)) = true) = true :=
    exists_run_of_exec (by decide +kernel)
  obtain ⟨used, reached⟩ := of_decide_eq_true reached
  cases taken : step s (.advance () {}) with
  | none => simp [taken] at reached
  | some t =>
    rw [taken] at reached
    exact ⟨s, t, child, run, taken, used, by simpa using reached⟩

/-- The first process makes a child, the child exits and the first process waits for it. -/
def childExits : List (Event Bool) :=
  ([.pick false init_proc, .enter false, .advance false {}, .begin false .fork, .advance false {},
    .advance false {}, .advance false { memory := some (4, 5) }, .advance false {}, .advance false {},
    .pick true ⟨1, one_lt_NPROC⟩, .enter true, .advance true {}, .begin true (.exit 7)] : List (Event Bool)) ++
  (List.replicate 150 (.advance true {}) : List (Event Bool)) ++
  ([.save true, .leave true, .begin false .wait, .advance false {}, .advance false {},
    .advance false {}] : List (Event Bool))

theorem children_handed_over_exits :
    ∃ s, Run step (fun _ _ => True) (user_init 1 2 3) childExits s ∧
      Exact s.history ∧ (s.proc_list init_proc).a0 = 2 ∧
      s.history = [.reaped ⟨1, by decide⟩ 2 7 init_proc (some init_proc), .died ⟨1, by decide⟩ 2 7] := by
  obtain ⟨s, run, reached⟩ : ∃ s, Run step (fun _ _ => True) (user_init 1 2 3) childExits s ∧
      decide ((s.proc_list init_proc).a0 = 2 ∧
        s.history = [.reaped ⟨1, by decide⟩ 2 7 init_proc (some init_proc),
          .died ⟨1, by decide⟩ 2 7]) = true := exists_run_of_exec (by decide +kernel)
  exact ⟨s, run, (children_handed_over run).1, of_decide_eq_true reached⟩

end OsCpp.Proc
