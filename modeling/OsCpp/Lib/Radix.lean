import Mathlib.Data.List.Induction

/-!
# Radix trees in memory

A root and a list of indices lead to a node in memory.  When every node of a family of trees is
reached in one way only, storing a link to a fresh frame adds one node, and storing elsewhere
changes none.
-/

namespace Radix

variable {Frame Index Word : Type} (child : Word → Option Frame)

/-- The node that a list of indices leads to. -/
def node (memory : Frame → Index → Word) : Frame → List Index → Option Frame
  | frame, [] => some frame
  | frame, index :: path => (child (memory frame index)).bind fun next => node memory next path

/-- Every node up to a depth is reached in one way only. -/
def Separate (memory : Frame → Index → Word) (roots : Frame → Prop) (depth : Nat) : Prop :=
  ∀ {root root' : Frame} {path path' : List Index} {frame : Frame}, roots root → roots root' →
    path.length ≤ depth → path'.length ≤ depth → node child memory root path = some frame →
    node child memory root' path' = some frame → root = root' ∧ path = path'

variable {child} {memory memory' : Frame → Index → Word}

@[simp] theorem node_nil (root : Frame) : node child memory root [] = some root := rfl

theorem node_append (root : Frame) (path : List Index) (index : Index) :
    node child memory root (path ++ [index]) =
      (node child memory root path).bind fun frame => child (memory frame index) := by
  induction path generalizing root with
  | nil => simp [node]
  | cons first path ih =>
    simp only [List.cons_append, node]
    cases child (memory root first) with
    | none => rfl
    | some next => exact ih next

theorem node_congr {root : Frame} {path : List Index}
    (same : ∀ upper frame, upper.length < path.length → node child memory root upper = some frame →
      memory' frame = memory frame) :
    node child memory' root path = node child memory root path := by
  induction path using List.reverseRecOn with
  | nil => rfl
  | append_singleton path index ih =>
    have before : node child memory' root path = node child memory root path := by
      refine ih fun upper frame short => same upper frame ?_
      rw [List.length_append]
      omega
    rw [node_append, node_append, before]
    cases reached : node child memory root path with
    | none => rfl
    | some frame =>
      rw [Option.bind_some, Option.bind_some, same path frame (by simp) reached]

variable [DecidableEq Frame] [DecidableEq Index] {roots : Frame → Prop} {depth : Nat}

def store (memory : Frame → Index → Word) (frame : Frame) (index : Index) (word : Word) :
    Frame → Index → Word := Function.update memory frame (Function.update (memory frame) index word)

theorem store_self (frame : Frame) (index : Index) (word : Word) :
    store memory frame index word frame index = word := by
  simp [store]

theorem store_of_ne {frame other : Frame} (apart : other ≠ frame) (index : Index) (word : Word) :
    store memory frame index word other = memory other := Function.update_of_ne apart _ _

theorem store_index_of_ne (frame : Frame) {index other : Index} (apart : other ≠ index) (word : Word) :
    store memory frame index word frame other = memory frame other := by
  simp [store, Function.update_of_ne apart]

/-- A frame that no link leads out of. -/
def Blank (child : Word → Option Frame) (memory : Frame → Index → Word) (frame : Frame) : Prop :=
  ∀ index, child (memory frame index) = none

section

variable (separate : Separate child memory roots depth) {root : Frame} (isRoot : roots root)
  {path : List Index} {above fresh : Frame} (reached : node child memory root path = some above)
  (high : path.length < depth) {index : Index} {word : Word} (vacant : child (memory above index) = none)
  (leads : child word = some fresh) (blank : Blank child memory fresh) (apart : fresh ≠ above)

include separate isRoot reached high vacant leads blank apart

theorem node_link {root' : Frame} (isRoot' : roots root') {path' : List Index}
    (short : path'.length ≤ depth) :
    node child (store memory above index word) root' path' =
      if root' = root ∧ path' = path ++ [index] then some fresh
      else node child memory root' path' := by
  induction path' using List.reverseRecOn with
  | nil => simp
  | append_singleton upper last ih =>
    have shorter : upper.length < depth := by
      rw [List.length_append, List.length_singleton] at short
      omega
    have ih := ih (Nat.le_of_lt shorter)
    rw [node_append, ih, node_append]
    by_cases through : root' = root ∧ upper = path ++ [index]
    · -- below the new node there is nothing, before and after
      obtain ⟨rfl, rfl⟩ := through
      have longer : ¬(path ++ [index] ++ [last] = path ++ [index]) := fun same => by
        simpa using congrArg List.length same
      rw [if_pos ⟨rfl, rfl⟩, if_neg fun both => longer both.2, Option.bind_some,
        store_of_ne apart, blank last, node_append, reached, Option.bind_some, vacant]
      rfl
    · rw [if_neg through]
      cases here : node child memory root' upper with
      | none =>
        have other : ¬(root' = root ∧ upper ++ [last] = path ++ [index]) := by
          rintro ⟨rfl, same⟩
          obtain ⟨rfl, -⟩ := List.append_inj' same rfl
          rw [reached] at here
          cases here
        rw [if_neg other]
        rfl
      | some frame =>
        rw [Option.bind_some, Option.bind_some]
        by_cases same : frame = above
        · subst same
          obtain ⟨rfl, rfl⟩ := separate isRoot' isRoot (Nat.le_of_lt shorter) (Nat.le_of_lt high) here reached
          by_cases at' : last = index
          · subst at'
            rw [store_self, leads, if_pos ⟨rfl, rfl⟩]
          · rw [store_index_of_ne _ at', if_neg]
            rintro ⟨-, same⟩
            exact at' (by simpa using List.append_inj_right' same rfl)
        · rw [store_of_ne same, if_neg]
          rintro ⟨rfl, equal⟩
          obtain ⟨rfl, -⟩ := List.append_inj' equal rfl
          cases reached.symm.trans here
          exact same rfl

theorem Separate.link (new : ∀ root' path', roots root' → path'.length ≤ depth →
      node child memory root' path' ≠ some fresh) :
    Separate child (store memory above index word) roots depth := by
  intro root₁ root₂ path₁ path₂ frame isRoot₁ isRoot₂ short₁ short₂ reached₁ reached₂
  rw [node_link separate isRoot reached high vacant leads blank apart isRoot₁ short₁] at reached₁
  rw [node_link separate isRoot reached high vacant leads blank apart isRoot₂ short₂] at reached₂
  split at reached₁ <;> split at reached₂
  next both both' => exact ⟨both.1.trans both'.1.symm, both.2.trans both'.2.symm⟩
  next => exact absurd (reached₂.trans reached₁.symm) (new _ _ isRoot₂ short₂)
  next => exact absurd (reached₁.trans reached₂.symm) (new _ _ isRoot₁ short₁)
  next => exact separate isRoot₁ isRoot₂ short₁ short₂ reached₁ reached₂

end

end Radix
