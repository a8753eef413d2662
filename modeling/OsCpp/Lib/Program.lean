import Mathlib.Tactic.Common

/-!
# Weakest preconditions of stateful programs that may stop

A program over a state either returns a value or stops for some reason.  `wp program post halt
state` says that from `state` the program returns into `post` or stops in `halt`.
-/

namespace Program

variable {ε σ α β : Type}

/-- The program returns into `post` or stops in `halt`. -/
def wp (program : EStateM ε σ α) (post : α → σ → Prop) (halt : ε → σ → Prop) (state : σ) : Prop :=
  match program state with
  | .ok value next => post value next
  | .error stop next => halt stop next

variable {post : α → σ → Prop} {halt : ε → σ → Prop} {state : σ}

@[simp] theorem wp_pure (value : α) :
    wp (pure value : EStateM ε σ α) post halt state ↔ post value state := .rfl

@[simp] theorem wp_get {post : σ → σ → Prop} :
    wp (get : EStateM ε σ σ) post halt state ↔ post state state := .rfl

@[simp] theorem wp_set {post : PUnit → σ → Prop} (next : σ) :
    wp (set next : EStateM ε σ PUnit) post halt state ↔ post ⟨⟩ next := .rfl

@[simp] theorem wp_modify {post : PUnit → σ → Prop} (change : σ → σ) :
    wp (modify change : EStateM ε σ PUnit) post halt state ↔ post ⟨⟩ (change state) := .rfl

@[simp] theorem wp_throw (stop : ε) :
    wp (throw stop : EStateM ε σ α) post halt state ↔ halt stop state := .rfl

@[simp] theorem wp_bind (program : EStateM ε σ β) (next : β → EStateM ε σ α) :
    wp (program >>= next) post halt state ↔
      wp program (fun value => wp (next value) post halt) halt state := by
  unfold wp
  simp only [bind, EStateM.bind]
  cases program state <;> rfl

@[simp] theorem wp_ite (condition : Prop) [Decidable condition] (yes no : EStateM ε σ α) :
    wp (if condition then yes else no) post halt state ↔
      (condition → wp yes post halt state) ∧ (¬condition → wp no post halt state) := by
  split <;> simp [*]

variable {program : EStateM ε σ α}

/-- Consequence: a weaker postcondition and a weaker stopping condition. -/
theorem wp_mono {post' : α → σ → Prop} {halt' : ε → σ → Prop}
    (strong : wp program post halt state) (returns : ∀ value next, post value next → post' value next)
    (stops : ∀ stop next, halt stop next → halt' stop next) : wp program post' halt' state := by
  unfold wp at strong ⊢
  cases outcome : program state with
  | ok value next => exact returns value next (by simpa [outcome] using strong)
  | error stop next => exact stops stop next (by simpa [outcome] using strong)

theorem wp_and {post' : α → σ → Prop} {halt' : ε → σ → Prop} (left : wp program post halt state)
    (right : wp program post' halt' state) :
    wp program (fun value next => post value next ∧ post' value next)
      (fun stop next => halt stop next ∧ halt' stop next) state := by
  unfold wp at left right ⊢
  cases outcome : program state <;> rw [outcome] at left right <;> exact ⟨left, right⟩

/-- What holds of all outcomes holds of those of a program. -/
theorem wp_of_forall (returns : ∀ value next, post value next)
    (stops : ∀ stop next, halt stop next) : wp program post halt state := by
  unfold wp
  cases program state with
  | ok value next => exact returns value next
  | error stop next => exact stops stop next

/-- What a program that is known to return returns into. -/
theorem post_of_wp {value : α} {next : σ}
    (known : wp program post halt state) (returns : program state = .ok value next) :
    post value next := by
  simpa [wp, returns] using known

theorem returns_of_wp (known : wp program post (fun _ _ => False) state) :
    ∃ value next, program state = .ok value next ∧ post value next := by
  unfold wp at known
  cases outcome : program state with
  | ok value next => exact ⟨value, next, rfl, by simpa [outcome] using known⟩
  | error stop next => simp [outcome] at known

end Program
