import OsCpp.Exec.Call

/-!
# The first stack of a program

The part of `exec` that puts the arguments onto the stack, with the bytes of the new address space.
`copyout` is seen at user addresses; the arithmetic of `sp` is that of 64 bits.
-/

namespace OsCpp.Exec

open Frames

/-- User addresses: their bytes, and the entry for each page. -/
structure Space where
  bytes : Nat → UInt8
  pte : Nat → Pte

/-- Difference of two numbers of 64 bits. -/
def sub64 (a b : Nat) : Nat := (a + 2 ^ 64 - b) % 2 ^ 64

def write (bytes : Nat → UInt8) (va : Nat) (src : List UInt8) : Nat → UInt8 := fun a =>
  if va ≤ a then src.getD (a - va) (bytes a) else bytes a

/-- What `copyout` asks of a page. -/
def Space.writable (m : Space) (page : Nat) : Bool :=
  page * PGSIZE ≤ VA_MAX && (m.pte page).v && (m.pte page).flags.u && (m.pte page).flags.w

def copyout (m : Space) (va : Nat) (src : List UInt8) : Option Space :=
  if ∀ i < src.length, m.writable ((va + i) / PGSIZE) = true then
    some { m with bytes := write m.bytes va src }
  else none

/-- The loop that pushes the strings. -/
def pushStrings (stackbase : Nat) :
    List (List UInt8) → List Nat → Nat → Space → Option (List Nat × Nat × Space)
  | [], ustack, sp, m => some (ustack, sp, m)
  | arg :: argv, ustack, sp, m =>
    if MAXARGV ≤ ustack.length then none
    else
      let sp := sub64 sp (arg.length + 1)
      let sp := sp - sp % 16
      if sp < stackbase then none
      else (copyout m sp (arg ++ [0])).bind (pushStrings stackbase argv (ustack ++ [sp]) sp)

/-- The array of the addresses of the strings. -/
def pushArray (stackbase : Nat) (ustack : List Nat) (sp : Nat) (m : Space) : Option (Nat × Space) :=
  let sp := sub64 sp ((ustack.length + 1) * 8)
  let sp := sp - sp % 16
  if sp < stackbase then none
  else (copyout m sp ((ustack ++ [0]).flatMap (Bytes.toLE 8))).map (sp, ·)

/-- From `uvm_clear` to the last `copyout`, with the stack pages mapped from `sz` on. -/
def pushStack (sz : Nat) (argv : List (List UInt8)) (m : Space) : Option (Nat × Space) :=
  let m := { m with
    pte := Function.update m.pte (sz / PGSIZE) { m.pte (sz / PGSIZE) with v := false } }
  (pushStrings (sz + PGSIZE) argv [] (sz + 2 * PGSIZE) m).bind fun result =>
    pushArray (sz + PGSIZE) result.1 result.2.1 result.2.2

/-- Pieces of memory with their contents, the lowest first, apart from each other. -/
structure Pieces (bytes : Nat → UInt8) (low high : Nat) (pieces : List (Nat × List UInt8)) : Prop where
  inside : ∀ piece ∈ pieces, low ≤ piece.1 ∧ piece.1 + piece.2.length ≤ high
  holds : ∀ piece ∈ pieces, ∀ i, (inside : i < piece.2.length) →
    bytes (piece.1 + i) = piece.2.get ⟨i, inside⟩
  apart : pieces.Pairwise fun lower upper => lower.1 + lower.2.length ≤ upper.1

variable {bytes : Nat → UInt8} {low high sp : Nat} {pieces : List (Nat × List UInt8)}

theorem Pieces.push (known : Pieces bytes low high pieces) (src : List UInt8) (va : Nat)
    (below : va + src.length ≤ low) (le : low ≤ high) :
    Pieces (write bytes va src) va high ((va, src) :: pieces) := by
  refine ⟨?_, ?_, ?_⟩
  · rintro piece (_ | ⟨_, member⟩)
    · exact ⟨le_rfl, below.trans le⟩
    · have inside := known.inside piece member
      omega
  · rintro piece (_ | ⟨_, member⟩) i inside
    · simp [write, inside]
    · have above := (known.inside piece member).1
      rw [← known.holds piece member i inside, write, if_pos (by omega),
        List.getD_eq_default _ _ (by omega)]
  · refine known.apart.cons fun piece member => ?_
    exact below.trans (known.inside piece member).1

theorem sub64_eq {n : Nat} (le : n ≤ sp) (small : sp < 2 ^ 64) : sub64 sp n = sp - n := by
  rw [sub64]
  omega

theorem copyout_eq_some {m m' : Space} {va : Nat} {src : List UInt8}
    (copied : copyout m va src = some m') : m' = { m with bytes := write m.bytes va src } := by
  rw [copyout, Option.ite_none_right_eq_some] at copied
  exact (Option.some.inj copied.2).symm

theorem copyout_mapped {m : Space} {page va : Nat} {src : List UInt8} (mapped : m.writable page = true)
    (above : page * PGSIZE ≤ va) (below : va + src.length ≤ (page + 1) * PGSIZE) :
    copyout m va src = some { m with bytes := write m.bytes va src } := by
  refine if_pos fun i inside => ?_
  have same : (va + i) / PGSIZE = page := by
    rw [Nat.div_eq_iff (by decide), mul_comm]
    simp only [PGSIZE] at above below ⊢
    omega
  rw [same]
  exact mapped

/-- The loop, when some strings have been pushed: they stay, and the others come below them. -/
theorem pushStrings_spec {page : Nat} (small : (page + 1) * PGSIZE < 2 ^ 64) (positive : 0 < page)
    {argv : List (List UInt8)} (done : List (List UInt8)) (ustack : List Nat) {m : Space}
    (short : ∀ arg ∈ argv, arg.length < PGSIZE) (few : ustack.length + argv.length < MAXARGV)
    (above : page * PGSIZE ≤ sp) (below : sp ≤ (page + 1) * PGSIZE) (count : ustack.length = done.length)
    (known : Pieces m.bytes sp ((page + 1) * PGSIZE) (ustack.zip (done.map (· ++ [0]))).reverse) :
    match pushStrings (page * PGSIZE) argv ustack sp m with
    | none => m.writable page = true →
        pushArgs (page * PGSIZE) (argv.map List.length) ustack.length sp = none
    | some (places, sp', m') => page * PGSIZE ≤ sp' ∧ sp' ≤ (page + 1) * PGSIZE ∧
        places.length = (done ++ argv).length ∧ Pieces m'.bytes sp' ((page + 1) * PGSIZE)
          (places.zip ((done ++ argv).map (· ++ [0]))).reverse ∧ m'.pte = m.pte ∧
        pushArgs (page * PGSIZE) (argv.map List.length) ustack.length sp =
          pushArgs (page * PGSIZE) [] places.length sp' := by
  induction argv generalizing done ustack sp m with
  | nil => simpa [pushStrings, count] using ⟨above, below, known⟩
  | cons arg argv ih =>
    have length := short arg (.head _)
    have first := Nat.mul_le_mul_right PGSIZE positive
    have room : arg.length + 1 ≤ sp := by omega
    have align : sp - (arg.length + 1) - (sp - (arg.length + 1)) % 16 =
        (sp - (arg.length + 1)) / 16 * 16 := by omega
    rw [List.length_cons] at few
    simp only [pushStrings, sub64_eq room (by omega), align, List.map_cons, pushArgs]
    rw [if_neg (by omega)]
    generalize lower : (sp - (arg.length + 1)) / 16 * 16 = va
    have le : va + (arg ++ [0]).length ≤ sp := by
      rw [List.length_append, List.length_singleton]
      omega
    by_cases fits : va < page * PGSIZE
    · rw [if_pos fits, if_pos fits]
      exact fun _ => rfl
    rw [if_neg fits, if_neg fits]
    cases copied : copyout m va (arg ++ [0]) with
    | none =>
      intro mapped
      simp [copyout_mapped mapped (le_of_not_gt fits) (le.trans below)] at copied
    | some m₁ =>
      rw [copyout_eq_some copied, Option.bind_some]
      have pushed : Pieces (write m.bytes va (arg ++ [0])) va ((page + 1) * PGSIZE)
          ((ustack ++ [va]).zip ((done ++ [arg]).map (· ++ [0]))).reverse := by
        rw [List.map_append, List.zip_append (by simpa using count), List.reverse_append]
        exact known.push _ _ le below
      have more : (ustack ++ [va]).length = ustack.length + 1 := by simp
      have rest := ih (done ++ [arg]) _ (m := { m with bytes := write m.bytes va (arg ++ [0]) })
        (fun other member => short other (.tail arg member)) (by omega) (le_of_not_gt fits)
        (by omega) (by simp [count]) pushed
      simpa only [more, List.append_assoc, List.singleton_append, pushArgs, Space.writable] using rest

end OsCpp.Exec
