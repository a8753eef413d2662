import Mathlib.Data.List.Nodup

/-!
# Circular doubly linked lists

Pointers `next` and `prev` of nodes of any type.  `Chain links x l y` says that following `next`
from `x` meets the nodes of `l` and then `y`, and following `prev` back from `y` the same.
-/

namespace DList

open Function (update update_of_ne update_self)
open List (nodup_cons mem_cons mem_cons_self mem_cons_of_mem mem_singleton)

variable {Node : Type*}

structure Links (Node : Type*) where
  next : Node → Node
  prev : Node → Node

variable {links : Links Node} {x y z : Node} {l : List Node}

/-- The nodes from one to another one. -/
def Chain (links : Links Node) : Node → List Node → Node → Prop
  | x, [], y => links.next x = y ∧ links.prev y = x
  | x, z :: l, y => links.next x = z ∧ links.prev z = x ∧ Chain links z l y

theorem chain_append {left right : List Node} : Chain links x (left ++ z :: right) y ↔
    Chain links x left z ∧ Chain links z right y := by
  induction left generalizing x with
  | nil => simp only [List.nil_append, Chain, and_assoc]
  | cons w left ih => simp only [List.cons_append, Chain, ih, and_assoc]

theorem Chain.congr {links' : Links Node} (chain : Chain links x l y)
    (next : ∀ node ∈ x :: l, links'.next node = links.next node)
    (prev : ∀ node ∈ y :: l, links'.prev node = links.prev node) : Chain links' x l y := by
  induction l generalizing x with
  | nil => exact ⟨(next x (by simp)).trans chain.1, (prev y (by simp)).trans chain.2⟩
  | cons z l ih =>
    obtain ⟨first, back, rest⟩ := chain
    refine ⟨(next x (by simp)).trans first, (prev z (by simp)).trans back, ih rest ?_ ?_⟩
    · intro node member
      exact next node (mem_cons_of_mem x member)
    · intro node member
      refine prev node ?_
      simp only [mem_cons] at member ⊢
      tauto

theorem Chain.prev_mem (chain : Chain links x l y) : links.prev y ∈ x :: l := by
  induction l generalizing x with
  | nil => exact mem_singleton.mpr chain.2
  | cons z l ih => exact mem_cons_of_mem x (ih chain.2.2)

theorem Chain.next_mem (chain : Chain links x l y) : links.next x ∈ y :: l := by
  cases l with
  | nil => exact mem_singleton.mpr chain.1
  | cons z l =>
    rw [chain.1]
    simp

/-- The nodes of a circular list, without the head. -/
structure Circular (links : Links Node) (head : Node) (l : List Node) : Prop where
  chain : Chain links head l head
  nodup : (head :: l).Nodup

namespace Circular

variable {head node : Node}

theorem nil (next : links.next head = head) (prev : links.prev head = head) : Circular links head [] :=
  ⟨⟨next, prev⟩, by simp⟩

/-- The pointers are inverse to each other. -/
theorem inverse (circular : Circular links head l) {node : Node} (member : node ∈ head :: l) :
    links.prev (links.next node) = node ∧ links.next (links.prev node) = node := by
  have along : ∀ {x : Node} {l : List Node} {y : Node}, Chain links x l y →
      (∀ node ∈ x :: l, links.prev (links.next node) = node) ∧
        ∀ node ∈ y :: l, links.next (links.prev node) = node := by
    intro x l y chain
    induction l generalizing x with
    | nil =>
      obtain ⟨next, prev⟩ := chain
      constructor
      · intro node member
        rw [mem_singleton.mp member, next, prev]
      · intro node member
        rw [mem_singleton.mp member, prev, next]
    | cons z l ih =>
      obtain ⟨next, prev, rest⟩ := chain
      obtain ⟨forth, back⟩ := ih rest
      constructor
      · intro node member
        rcases mem_cons.mp member with rfl | member
        · rw [next, prev]
        · exact forth node member
      · intro node member
        by_cases here : node = z
        · rw [here, prev, next]
        · refine back node ?_
          simp only [mem_cons] at member ⊢
          tauto
  exact ⟨(along circular.chain).1 node member, (along circular.chain).2 node member⟩

end Circular

variable [DecidableEq Node]

namespace Links

def setNext (links : Links Node) (node target : Node) : Links Node :=
  { links with next := update links.next node target }

def setPrev (links : Links Node) (node target : Node) : Links Node :=
  { links with prev := update links.prev node target }

/-- Take a node out of its list. -/
def unlink (links : Links Node) (node : Node) : Links Node :=
  let links := links.setPrev (links.next node) (links.prev node)
  links.setNext (links.prev node) (links.next node)

/-- Put a node behind the head. -/
def push (links : Links Node) (head node : Node) : Links Node :=
  let links := links.setNext node (links.next head)
  let links := links.setPrev node head
  let links := links.setPrev (links.next head) node
  links.setNext head node

/-- The first node that passes a test, from a node on up to the head; nothing is known after `fuel` nodes. -/
def find (links : Links Node) (head : Node) (test : Node → Bool) : Nat → Node → Option (Option Node)
  | 0, _ => none
  | fuel + 1, node =>
    if node = head then some none
    else if test node then some (some node)
    else links.find head test fuel (links.next node)

end Links

theorem Chain.retarget (chain : Chain links x l y) (nodup : (x :: l).Nodup) {target : Node}
    (other : target ∉ l) :
    Chain ⟨update links.next (links.prev y) target,
      update links.prev target (links.prev y)⟩ x l target := by
  induction l generalizing x with
  | nil =>
    rw [chain.2]
    exact ⟨update_self .., update_self ..⟩
  | cons z l ih =>
    obtain ⟨first, back, rest⟩ := chain
    rw [nodup_cons] at nodup
    have last : x ≠ links.prev y := by
      rintro equal
      exact nodup.1 (equal ▸ rest.prev_mem)
    have kept : z ≠ target := by
      rintro rfl
      exact other mem_cons_self
    refine ⟨?_, ?_, ih rest nodup.2 fun member => other (mem_cons_of_mem z member)⟩
    · exact (update_of_ne last _ _).trans first
    · exact (update_of_ne kept _ _).trans back

namespace Circular

variable {head node : Node}

theorem unlink {left right : List Node} (circular : Circular links head (left ++ node :: right)) :
    Circular (links.unlink node) head (left ++ right) := by
  obtain ⟨before, after⟩ := chain_append.mp circular.chain
  have nodup := circular.nodup
  have apart : ∀ other ∈ head :: left, other ∉ right ∧ other ≠ node := by
    intro other member
    rw [nodup_cons] at nodup
    rcases mem_cons.mp member with rfl | member
    · constructor
      · exact fun absurd => nodup.1 (by simp [absurd])
      · rintro rfl
        exact nodup.1 (by simp)
    · have disjoint := (List.nodup_append.mp nodup.2).2.2 other member
      exact ⟨fun absurd => disjoint other (mem_cons_of_mem node absurd) rfl,
        disjoint node mem_cons_self⟩
  have early : (head :: left).Nodup := by
    refine nodup.sublist ?_
    exact (List.sublist_append_left left (node :: right)).cons_cons head
  have late : (node :: right).Nodup := nodup.sublist
    ((List.sublist_append_right left (node :: right)).trans (List.sublist_cons_self head _))
  have shorter : (head :: (left ++ right)).Nodup := by
    refine nodup.sublist ?_
    exact ((List.sublist_cons_self node right).append_left left).cons_cons head
  have self : links.next node ≠ node := by
    intro absurd
    have member := after.next_mem
    rw [absurd, mem_cons] at member
    rcases member with rfl | member
    · exact (apart node mem_cons_self).2 rfl
    · exact (nodup_cons.mp late).1 member
  -- the pointers of the node itself do not change before they are read
  have links_eq : links.unlink node =
      ⟨update links.next (links.prev node) (links.next node),
        update links.prev (links.next node) (links.prev node)⟩ := by
    simp only [Links.unlink, Links.setNext, Links.setPrev, update_of_ne self.symm]
  rw [links_eq]
  refine ⟨?_, shorter⟩
  cases right with
  | nil =>
    rw [List.append_nil]
    rw [after.1]
    exact before.retarget early fun member => (nodup_cons.mp early).1 member
  | cons z right =>
    obtain ⟨first, back, rest⟩ := after
    rw [first]
    refine chain_append.mpr ⟨before.retarget early ?_, rest.congr ?_ ?_⟩
    · exact fun member => (apart z (mem_cons_of_mem head member)).1 mem_cons_self
    · intro other member
      refine update_of_ne ?_ _ _
      rintro rfl
      exact (apart _ before.prev_mem).1 member
    · intro other member
      refine update_of_ne ?_ _ _
      rintro rfl
      rcases mem_cons.mp member with rfl | member
      · exact (apart _ mem_cons_self).1 mem_cons_self
      · exact (nodup_cons.mp (nodup_cons.mp late).2).1 member

theorem push (circular : Circular links head l) (fresh : node ∉ head :: l) :
    Circular (links.push head node) head (node :: l) := by
  obtain ⟨chain, nodup⟩ := circular
  have other : head ≠ node := by
    rintro rfl
    exact fresh mem_cons_self
  have links_eq : links.push head node =
      ⟨update (update links.next node (links.next head)) head node,
        update (update links.prev node head) (links.next head) node⟩ := by
    simp only [Links.push, Links.setNext, Links.setPrev, update_of_ne other]
  have first_ne : links.next head ≠ node := by
    rintro rfl
    exact fresh chain.next_mem
  rw [links_eq]
  refine ⟨⟨update_self .., ?_, ?_⟩, ?_⟩
  · exact (update_of_ne first_ne.symm _ _).trans (update_self ..)
  · have start : update (update links.next node (links.next head)) head node node =
        links.next head := (update_of_ne other.symm _ _).trans (update_self ..)
    cases l with
    | nil =>
      refine ⟨start.trans chain.1, ?_⟩
      rw [chain.1]
      exact update_self ..
    | cons z l =>
      obtain ⟨first, back, rest⟩ := chain
      refine ⟨start.trans first, by rw [first]; exact update_self .., rest.congr ?_ ?_⟩
      · intro w member
        have notHead : w ≠ head := by
          rintro rfl
          exact (nodup_cons.mp nodup).1 member
        have notNode : w ≠ node := by
          rintro rfl
          exact fresh (mem_cons_of_mem head member)
        exact (update_of_ne notHead _ _).trans (update_of_ne notNode _ _)
      · intro w member
        have notFirst : w ≠ links.next head := by
          rw [first]
          rintro rfl
          rcases mem_cons.mp member with rfl | member
          · exact (nodup_cons.mp nodup).1 mem_cons_self
          · exact (nodup_cons.mp (nodup_cons.mp nodup).2).1 member
        have notNode : w ≠ node := by
          rintro rfl
          refine fresh ?_
          simp only [mem_cons] at member ⊢
          tauto
        exact (update_of_ne notFirst _ _).trans (update_of_ne notNode _ _)
  · rw [nodup_cons] at nodup ⊢
    refine ⟨?_, ?_⟩
    · rw [mem_cons]
      rintro (rfl | member)
      · exact other rfl
      · exact nodup.1 member
    · exact nodup_cons.mpr ⟨fun member => fresh (mem_cons_of_mem head member), nodup.2⟩

/-- A search goes through the list in its order. -/
theorem find_eq (circular : Circular links head l) (test : Node → Bool) {fuel : Nat}
    (enough : l.length < fuel) : links.find head test fuel (links.next head) = some (l.find? test) := by
  have along : ∀ {x : Node} {l : List Node} {fuel : Nat}, Chain links x l head → head ∉ l →
      l.length < fuel → links.find head test fuel (links.next x) = some (l.find? test) := by
    intro x l fuel chain apart enough
    induction l generalizing x fuel with
    | nil =>
      obtain ⟨fuel, rfl⟩ := Nat.exists_eq_succ_of_ne_zero (Nat.ne_of_gt enough)
      rw [Links.find, if_pos chain.1]
      rfl
    | cons z l ih =>
      obtain ⟨fuel, rfl⟩ := Nat.exists_eq_succ_of_ne_zero (Nat.ne_of_gt (Nat.zero_lt_of_lt enough))
      obtain ⟨next, -, rest⟩ := chain
      rw [mem_cons, not_or] at apart
      rw [Links.find, next, if_neg (Ne.symm apart.1), List.find?_cons]
      cases passes : test z with
      | true => simp
      | false =>
        rw [List.length_cons] at enough
        simpa using ih rest apart.2 (by omega)
  exact along circular.chain (nodup_cons.mp circular.nodup).1 enough

end Circular

end DList
