import OsCpp.Lib.Execution

/-!
# Interleaved processes and their ledgers

A process is a program over atomic operations.  Any number of processes run against one shared
state, one operation at a time.  What a process has acquired and still has to give back is written
down in its ledger; a specification says what each operation needs from the ledger and does to it.
When every operation keeps an invariant that ties the state to the ledgers, a program that leaves an
empty ledger leaves nothing behind.
-/

namespace Process

open Function (update)

/-- A program over operations with results. -/
inductive Code (Op : Type) (Result : Op → Type) (α : Type) : Type
  | ret (value : α)
  | act (op : Op) (next : Result op → Code Op Result α)

namespace Code

variable {Op : Type} {Result : Op → Type} {α β : Type}

/-- Sequence two programs. -/
protected def bind : Code Op Result α → (α → Code Op Result β) → Code Op Result β
  | .ret value, next => next value
  | .act op rest, next => .act op fun result => (rest result).bind next

instance : Monad (Code Op Result) where
  pure := .ret
  bind := Code.bind

/-- The program of one operation. -/
def perform (op : Op) : Code Op Result (Result op) := .act op .ret

def returned : Code Op Result α → Bool
  | .ret _ => true
  | .act _ _ => false

end Code

/-- What an operation does to the ledger of its process. -/
structure Logic (Op : Type) (Result : Op → Type) (Ledger : Type) where
  spec : (op : Op) → (Result op → Ledger → Prop) → Ledger → Prop
  mono : ∀ {op : Op} {post weaker : Result op → Ledger → Prop} {ledger : Ledger},
    (∀ result after, post result after → weaker result after) → spec op post ledger →
      spec op weaker ledger

namespace Logic

variable {Op : Type} {Result : Op → Type} {Ledger : Type} (logic : Logic Op Result Ledger)
  {α β : Type}

/-- From this ledger the program ends in the postcondition. -/
def wp : Code Op Result α → (α → Ledger → Prop) → Ledger → Prop
  | .ret value, post, ledger => post value ledger
  | .act op next, post, ledger => logic.spec op (fun result => wp (next result) post) ledger

variable {logic} {post weaker : α → Ledger → Prop} {ledger : Ledger}

@[simp] theorem wp_pure (value : α) : logic.wp (pure value) post ledger ↔ post value ledger :=
  .rfl

@[simp] theorem wp_perform (op : Op) {post : Result op → Ledger → Prop} :
    logic.wp (Code.perform op) post ledger ↔ logic.spec op post ledger := .rfl

@[simp] theorem wp_bind (program : Code Op Result β) (next : β → Code Op Result α) :
    logic.wp (program >>= next) post ledger ↔
      logic.wp program (fun value => logic.wp (next value) post) ledger := by
  induction program generalizing ledger with
  | ret value => exact .rfl
  | act op rest ih =>
    have same : (fun result => logic.wp (rest result >>= next) post) =
        fun result => logic.wp (rest result) fun value => logic.wp (next value) post := by
      funext result after
      exact propext (ih result)
    exact iff_of_eq (congrArg (fun cont => logic.spec op cont ledger) same)

theorem wp_mono (weaken : ∀ value after, post value after → weaker value after)
    {program : Code Op Result α} (holds : logic.wp program post ledger) :
    logic.wp program weaker ledger := by
  induction program generalizing ledger with
  | ret value => exact weaken value ledger holds
  | act op rest ih => exact logic.mono (fun result after => ih result) holds

end Logic

/-- What becomes of an operation. -/
inductive Outcome (State Result : Type)
  /-- The operation cannot be performed now. -/
  | blocked
  | halt
  | next (state : State) (result : Result)

/-- Operations on a shared state, and the programs that processes can begin. -/
structure System (Pid State Op : Type) (Result : Op → Type) (Answer Call : Type) where
  /-- Perform an operation; the answer settles what the state leaves open. -/
  perform : State → Pid → (op : Op) → Answer → Outcome State (Result op)
  begins : State → Pid → Call → Option (Code Op Result Unit)

/-- A shared state with the rests of the programs that run on it. -/
structure Config (Pid State Op : Type) (Result : Op → Type) where
  state : State
  code : Pid → Code Op Result Unit
  halted : Bool := false

inductive Event (Pid Answer Call : Type)
  | start (pid : Pid) (call : Call)
  | run (pid : Pid) (answer : Answer)

namespace System

variable {Pid State Op : Type} {Result : Op → Type} {Answer Call Ledger : Type} [DecidableEq Pid]
  (system : System Pid State Op Result Answer Call)

/-- One step: a process begins a call or performs its next operation. -/
def step (config : Config Pid State Op Result) :
    Event Pid Answer Call → Option (Config Pid State Op Result)
  | .start pid call =>
    if config.halted then none
    else
      match config.code pid, system.begins config.state pid call with
      | .ret _, some program =>
        some { config with code := update config.code pid program }
      | _, _ => none
  | .run pid answer =>
    if config.halted then none
    else
      match config.code pid with
      | .ret _ => none
      | .act op next =>
        match system.perform config.state pid op answer with
        | .blocked => none
        | .halt => some { config with halted := true }
        | .next state result =>
          some { config with
            state := state
            code := update config.code pid (next result) }

/-- A restriction of the answers, as a restriction of the steps. -/
def guard (allowed : State → Pid → Op → Answer → Prop) (config : Config Pid State Op Result) :
    Event Pid Answer Call → Prop
  | .start _ _ => True
  | .run pid answer =>
    match config.code pid with
    | .ret _ => True
    | .act op _ => allowed config.state pid op answer

instance {allowed : State → Pid → Op → Answer → Prop}
    [∀ state pid op answer, Decidable (allowed state pid op answer)]
    (config : Config Pid State Op Result) (event : Event Pid Answer Call) :
    Decidable (guard allowed config event) :=
  match event with
  | .start _ _ => .isTrue trivial
  | .run pid answer =>
    match running : config.code pid with
    | .ret _ => .isTrue (by simp [guard, running])
    | .act op _ => decidable_of_iff (allowed config.state pid op answer) (by simp [guard, running])

/-- The operations and the programs respect an invariant between the state and the ledgers. -/
structure Sound (logic : Logic Op Result Ledger) (allowed : State → Pid → Op → Answer → Prop)
    (inv : State → (Pid → Ledger) → Prop) (idle : Ledger) : Prop where
  performs : ∀ {state ledgers pid op answer next result post}, inv state ledgers →
    logic.spec op post (ledgers pid) → allowed state pid op answer →
    system.perform state pid op answer = .next next result →
    ∃ ledger, inv next (update ledgers pid ledger) ∧ post result ledger
  begins : ∀ {state pid call program}, system.begins state pid call = some program →
    logic.wp program (fun _ ledger => ledger = idle) idle

/-- The invariant, with ledgers that the programs will settle. -/
def Settles (logic : Logic Op Result Ledger) (inv : State → (Pid → Ledger) → Prop) (idle : Ledger)
    (config : Config Pid State Op Result) : Prop :=
  ∃ ledgers, inv config.state ledgers ∧
    ∀ pid, logic.wp (config.code pid) (fun _ ledger => ledger = idle) (ledgers pid)

variable {system} {logic : Logic Op Result Ledger}
  {allowed : State → Pid → Op → Answer → Prop} {inv : State → (Pid → Ledger) → Prop} {idle : Ledger}

theorem Sound.settles_step (sound : system.Sound logic allowed inv idle)
    {config next : Config Pid State Op Result} {event : Event Pid Answer Call}
    (settles : Settles logic inv idle config) (guarded : guard allowed config event)
    (taken : system.step config event = some next) : Settles logic inv idle next := by
  obtain ⟨ledgers, holds, programs⟩ := settles
  cases event with
  | start pid call =>
    simp only [step] at taken
    split at taken
    · simp at taken
    · split at taken
      · next value program was begun =>
        cases taken
        refine ⟨ledgers, holds, fun other => ?_⟩
        rcases eq_or_ne other pid with rfl | different
        · have finished : ledgers other = idle := by simpa [was, Logic.wp] using programs other
          simpa [finished] using sound.begins begun
        · simpa [different] using programs other
      · simp at taken
  | run pid answer =>
    simp only [step] at taken
    split at taken
    · simp at taken
    · split at taken
      · simp at taken
      · next op rest running =>
        have here := programs pid
        rw [running] at here
        have allowed : allowed config.state pid op answer := by
          simpa [guard, running] using guarded
        split at taken
        · simp at taken
        · cases taken
          exact ⟨ledgers, holds, programs⟩
        · next state result performed =>
          cases taken
          obtain ⟨ledger, kept, post⟩ := sound.performs holds here allowed performed
          refine ⟨update ledgers pid ledger, kept, fun other => ?_⟩
          rcases eq_or_ne other pid with rfl | different
          · simpa using post
          · simpa [different] using programs other

/-- In every guarded run the programs settle their ledgers. -/
theorem Sound.settles_run (sound : system.Sound logic allowed inv idle)
    {first last : Config Pid State Op Result} {events : List (Event Pid Answer Call)}
    (initially : Settles logic inv idle first)
    (run : Execution.Run system.step (guard allowed) first events last) :
    Settles logic inv idle last := by
  induction run with
  | nil => exact initially
  | snoc _ guarded taken settles => exact sound.settles_step settles guarded taken

omit [DecidableEq Pid] in
/-- When no program is running, all ledgers are empty. -/
theorem Settles.inv_idle {config : Config Pid State Op Result} (settles : Settles logic inv idle config)
    (quiet : ∀ pid, (config.code pid).returned = true) : inv config.state fun _ => idle := by
  obtain ⟨ledgers, holds, programs⟩ := settles
  have empty : ledgers = fun _ => idle := by
    funext pid
    have here := programs pid
    cases code : config.code pid with
    | ret value => simpa [code, Logic.wp] using here
    | act op next => simpa [code, Code.returned] using quiet pid
  rwa [empty] at holds

end System

/-! ## Programs that are not interrupted -/

section

variable {State Op : Type} {Result : Op → Type} {α : Type}
  (perform : State → (op : Op) → Outcome State (Result op))

/-- Run a program without interruption. -/
def Code.alone : Code Op Result α → State → Outcome State α
  | .ret value, state => .next state value
  | .act op next, state =>
    match perform state op with
    | .blocked => .blocked
    | .halt => .halt
    | .next after result => (next result).alone after

/-- The postcondition holds in the end; `stuck` says whether there need not be an end. -/
def Outcome.Ends (stuck : Prop) (post : α → State → Prop) : Outcome State α → Prop
  | .next after result => post result after
  | .blocked => stuck
  | .halt => stuck

/-- The logic of programs that are not interrupted: total correctness if nothing is `stuck`. -/
def Logic.alone (stuck : Prop) : Logic Op Result State where
  spec op post state := (perform state op).Ends stuck post
  mono {op post weaker state} weaken holds := by
    cases ended : perform state op with
    | next after result =>
      rw [ended] at holds
      exact weaken result after holds
    | blocked | halt => rwa [ended] at holds

variable {perform} {stuck : Prop} {post : α → State → Prop}

variable {program : Code Op Result α}

/-- The logic speaks about the outcome. -/
theorem Logic.wp_alone {state : State} :
    (Logic.alone perform stuck).wp program post state ↔
      (program.alone perform state).Ends stuck post := by
  induction program generalizing state with
  | ret value => exact .rfl
  | act op next ih =>
    change (perform state op).Ends stuck _ ↔ _
    rw [Code.alone]
    cases perform state op with
    | next after result => exact ih result
    | blocked | halt => exact .rfl

theorem Logic.wp_alone_true {state : State} (holds : ∀ value after, post value after) :
    (Logic.alone perform True).wp program post state := by
  rw [Logic.wp_alone]
  cases program.alone perform state with
  | next after value => exact holds value after
  | blocked | halt => trivial

/-- An uninterrupted program keeps the invariant. -/
theorem System.Sound.alone {Pid Answer Call Ledger : Type} [DecidableEq Pid]
    {system : System Pid State Op Result Answer Call} {logic : Logic Op Result Ledger}
    {allowed : State → Pid → Op → Answer → Prop} {inv : State → (Pid → Ledger) → Prop}
    {idle : Ledger} (sound : system.Sound logic allowed inv idle) {pid : Pid} {answer : Op → Answer}
    (permitted : ∀ state op, allowed state pid op (answer op))
    {state after : State} {ledgers : Pid → Ledger} {value : α} {post : α → Ledger → Prop}
    (holds : inv state ledgers) (settles : logic.wp program post (ledgers pid))
    (ended : program.alone (fun state op => system.perform state pid op (answer op)) state =
      .next after value) : ∃ ledger, inv after (update ledgers pid ledger) ∧ post value ledger := by
  induction program generalizing state ledgers with
  | ret result =>
    obtain ⟨rfl, rfl⟩ := Outcome.next.inj ended
    exact ⟨ledgers pid, by rwa [Function.update_eq_self], settles⟩
  | act op next ih =>
    rw [Code.alone] at ended
    cases performed : system.perform state pid op (answer op) with
    | next between result =>
      rw [performed] at ended
      obtain ⟨ledger, kept, later⟩ := sound.performs holds settles (permitted state op) performed
      obtain ⟨last, ending, met⟩ := ih result kept (by simpa using later) ended
      exact ⟨last, by simpa using ending, met⟩
    | blocked | halt =>
      rw [performed] at ended
      simp at ended

end

end Process
