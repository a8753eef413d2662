import OsCpp.Fs.Directory
import Mathlib.Data.List.DropRight

/-!
# Splitting a path

`fs::skipelem` over the bytes of the path and of the name buffer.  A pointer into the path is what
lies from it to the NUL at the end, that byte included.  The buffer has `DIRSIZ` bytes, and a component
of just that length has its terminator stored behind it.
-/

namespace OsCpp.Fs.Path

/-- `while (test(*path)) ++path`; `none` is a read past the NUL. -/
def advance (test : UInt8 → Bool) : List UInt8 → Option (List UInt8)
  | [] => none
  | c :: path => if test c then advance test path else some (c :: path)

/-- `std::memmove(name, s, len)`: the bytes stored, with their places in `name`. -/
def memmove (s : List UInt8) (len : Nat) : Option (List (UInt8 × Nat)) :=
  if len ≤ s.length then some (s.take len).zipIdx else none

/-- The pointer `skipelem` returns, and its stores into `name`. -/
structure Element where
  rest : List UInt8
  stores : List (UInt8 × Nat)
  deriving DecidableEq

def skipelem (path : List UInt8) : Option (Option Element) := do
  let s ← advance (· = slash) path
  let c ← s.head?
  if c = 0 then pure none
  else do
    let path ← advance (fun c => c ≠ slash ∧ c ≠ 0) s
    let len := s.length - path.length
    let stores ←
      if len > DIRSIZ then memmove s DIRSIZ else (memmove s len).map (· ++ [(0, len)])
    let rest ← advance (· = slash) path
    pure (some ⟨rest, stores⟩)

/-- The calls of `skipelem` in the loop of `namex`, when that loop finds every component. -/
def skipelems : Nat → List UInt8 → Option (List Element)
  | 0, _ => none
  | fuel + 1, path => do
    match ← skipelem path with
    | none => pure []
    | some element => (skipelems fuel element.rest).map (element :: ·)

/-- The components a path names. -/
def components (text : List UInt8) : List (List UInt8) := (text.splitOn slash).filter (· ≠ [])

/-- What `skipelem` stores for a component. -/
def stores (component : List UInt8) : List (UInt8 × Nat) :=
  if component.length > DIRSIZ then (component.take DIRSIZ).zipIdx
  else component.zipIdx ++ [(0, component.length)]

/-- The first `DIRSIZ` bytes of a component, with a terminator if there is room for one. -/
def fitted (component : List UInt8) : List UInt8 :=
  component.take DIRSIZ ++ if component.length < DIRSIZ then [0] else []

/-- The calls store the components, and nothing outside of `name`. -/
def Exact (text : List UInt8) (elements : List Element) : Prop :=
  elements.map Element.stores = (components text).map (fun component => (fitted component).zipIdx) ∧
    ∀ element ∈ elements, ∀ store ∈ element.stores, store.2 < DIRSIZ

section

variable {text component rest : List UInt8}

/-- A loop that stops at the NUL does not go past it. -/
theorem advance_eq {test p : UInt8 → Bool} (stops : test 0 = false) (same : ∀ c ∈ text, test c = p c) :
    advance test (text ++ [0]) = some (text.dropWhile p ++ [0]) := by
  induction text with
  | nil => simp [advance, stops]
  | cons c text ih =>
    rw [List.cons_append, advance, List.dropWhile_cons, same c List.mem_cons_self]
    split
    · exact ih fun c member => same c (.tail _ member)
    · rfl

theorem advance_slash (text : List UInt8) :
    advance (· = slash) (text ++ [0]) = some (text.dropWhile (· = slash) ++ [0]) :=
  advance_eq (by decide) fun _ _ => rfl

theorem advance_component (terminated : 0 ∉ text) :
    advance (fun c => c ≠ slash ∧ c ≠ 0) (text ++ [0]) =
      some (text.dropWhile (· ≠ slash) ++ [0]) := by
  refine advance_eq (by decide) fun c member => ?_
  have some : c ≠ 0 := ne_of_mem_of_not_mem member terminated
  simp [some]

theorem memmove_append {len : Nat} (inside : len ≤ component.length) :
    memmove (component ++ rest) len = some (component.take len).zipIdx := by
  rw [memmove, if_pos (by simp; omega), List.take_append_of_le_length inside]

/-- On a terminated path the call reads nothing behind the NUL. -/
theorem skipelem_append (terminated : 0 ∉ text) : skipelem (text ++ [0]) =
    some ((Fs.skipelem text).map fun found => ⟨found.2 ++ [0], stores found.1⟩) := by
  simp only [skipelem, Fs.skipelem, advance_slash, Option.bind_eq_bind, Option.bind_some]
  have inner : 0 ∉ text.dropWhile (· = slash) :=
    fun member => terminated ((List.dropWhile_suffix _).subset member)
  generalize text.dropWhile (· = slash) = s at inner
  cases s with
  | nil => simp
  | cons c s =>
    have some : c ≠ 0 := fun zero => inner (zero ▸ .head _)
    have parts := List.takeWhile_append_dropWhile (p := fun c => decide (c ≠ slash)) (l := c :: s)
    rw [advance_component inner]
    generalize (c :: s).takeWhile (· ≠ slash) = component at parts ⊢
    generalize (c :: s).dropWhile (· ≠ slash) = rest at parts ⊢
    have whole : c :: s ++ [0] = component ++ (rest ++ [0]) := by rw [← parts, List.append_assoc]
    have length : (component ++ (rest ++ [0])).length - (rest ++ [0]).length = component.length := by
      rw [List.length_append, Nat.add_sub_cancel]
    simp only [advance_slash, Option.bind_some, List.cons_append,
      List.head?_cons, if_neg some, reduceCtorEq, if_false, Option.map_some]
    rw [← List.cons_append, whole, length, stores]
    split
    · next long =>
      rw [memmove_append (le_of_lt long)]
      rfl
    · rw [memmove_append le_rfl, List.take_length]
      rfl

/-! ### The components -/

theorem components_slash (text : List UInt8) : components (slash :: text) = components text := by
  simp [components, List.splitOn, List.splitOnP_cons_eq_if_modifyHead]

theorem components_dropWhile (text : List UInt8) :
    components (text.dropWhile (· = slash)) = components text := by
  induction text with
  | nil => rfl
  | cons c text ih =>
    rw [List.dropWhile_cons]
    split
    · next here =>
      obtain rfl : c = slash := by simpa using here
      rw [ih, components_slash]
    · rfl

theorem components_of_none (done : Fs.skipelem text = none) : components text = [] := by
  rw [← components_dropWhile]
  simp only [Fs.skipelem] at done
  split at done
  · next empty =>
    rw [empty]
    rfl
  · cases done

/-- The first component of a path that does not begin with a slash. -/
theorem components_append (nonempty : component ≠ []) (whole : slash ∉ component)
    (ends : ∀ c ∈ rest.head?, c = slash) :
    components (component ++ rest) = component :: components rest := by
  have inside : ∀ c ∈ component, (c == slash) = false :=
    fun c member => beq_false_of_ne (ne_of_mem_of_not_mem member whole)
  cases rest with
  | nil =>
    rw [List.append_nil, components, List.splitOn, List.splitOnP_eq_singleton inside]
    simp [nonempty, components]
  | cons c rest =>
    obtain rfl := ends c rfl
    rw [components_slash, components, List.splitOn,
      List.splitOnP_append_cons_of_forall_mem inside _ (by decide)]
    simp [nonempty, components, List.splitOn]

theorem components_of_some (found : Fs.skipelem text = some (component, rest)) :
    components text = component :: components rest ∧ rest <:+ text ∧ rest.length < text.length ∧
      rest.dropWhile (· = slash) = rest := by
  simp only [Fs.skipelem] at found
  split at found
  · cases found
  · next more =>
    cases found
    have start := List.dropWhile_suffix (l := text) (· = slash)
    have first := List.head_dropWhile_not (· = slash) more
    rw [components_dropWhile, ← components_dropWhile text]
    generalize text.dropWhile (· = slash) = s at more start first ⊢
    obtain ⟨c, s, rfl⟩ := List.exists_cons_of_ne_nil more
    have inside : c ≠ slash := of_decide_eq_false first
    have ends : ∀ d ∈ ((c :: s).dropWhile (· ≠ slash)).head?, d = slash := by
      intro d next
      have stopped := List.head?_dropWhile_not (· ≠ slash) (c :: s)
      rw [Option.mem_def.mp next] at stopped
      simpa using stopped
    have behind := (List.dropWhile_suffix (l := s.dropWhile (· ≠ slash)) (· = slash)).trans
      (List.dropWhile_suffix (· ≠ slash))
    refine ⟨?_, ?_, ?_, List.dropWhile_idempotent _ _⟩
    · nth_rewrite 1 [← List.takeWhile_append_dropWhile (p := fun c => decide (c ≠ slash)) (l := c :: s)]
      refine components_append (by simp [inside]) (fun member => ?_) ends
      simpa using List.mem_takeWhile_imp member
    · rw [List.dropWhile_cons_of_pos (by simpa using inside)]
      exact (behind.trans (List.suffix_cons c s)).trans start
    · rw [List.dropWhile_cons_of_pos (by simpa using inside)]
      exact (Nat.lt_succ_of_le behind.length_le).trans_le start.length_le

/-! ### The calls -/

/-- The calls yield the components and end; only the last pointer is to an empty string. -/
theorem skipelems_append (terminated : 0 ∉ text) {fuel : Nat} (enough : text.length < fuel) :
    ∃ elements, skipelems fuel (text ++ [0]) = some elements ∧
      elements.map Element.stores = (components text).map stores ∧
      ∀ k e, elements[k]? = some e → (e.rest = [0] ↔ k + 1 = elements.length) := by
  induction fuel generalizing text with
  | zero => simp at enough
  | succ fuel ih =>
    rw [skipelems, skipelem_append terminated]
    cases found : Fs.skipelem text with
    | none => exact ⟨[], rfl, by rw [components_of_none found]; rfl, by simp⟩
    | some parts =>
      obtain ⟨component, rest⟩ := parts
      obtain ⟨split, behind, shorter, trimmed⟩ := components_of_some found
      obtain ⟨elements, called, stored, last⟩ := ih (fun member => terminated (behind.subset member))
        (show rest.length < fuel by omega)
      refine ⟨⟨rest ++ [0], stores component⟩ :: elements, ?_, ?_, fun k e there => ?_⟩
      · simp [called]
      · simp [split, stored]
      · cases k with
        | zero =>
          cases there
          have none : rest = [] ↔ components rest = [] := by
            refine ⟨fun empty => by rw [empty]; rfl, fun none => ?_⟩
            by_contra more
            cases next : Fs.skipelem rest with
            | none => simp [Fs.skipelem, trimmed, more] at next
            | some parts => simp [(components_of_some next).1] at none
          have count := congrArg List.length stored
          rw [List.length_map, List.length_map] at count
          simp [count, none]
        | succ k => simpa using last k e (by simpa using there)

theorem stores_eq_iff : stores component = (fitted component).zipIdx ↔ component.length ≠ DIRSIZ := by
  rw [stores, fitted]
  rcases lt_trichotomy component.length DIRSIZ with short | full | long
  · rw [if_neg short.not_gt, if_pos short, List.take_of_length_le short.le, List.zipIdx_append]
    simpa using short.ne
  · refine iff_of_false (fun same => ?_) (not_not_intro full)
    simpa [full] using congrArg List.length same
  · rw [if_pos long, if_neg long.not_gt, List.append_nil]
    simpa using long.ne'

/-- The calls are exact unless a component fills the name buffer. -/
theorem splitting_exact_iff (terminated : 0 ∉ text) {fuel : Nat} (enough : text.length < fuel) :
    ∃ elements, skipelems fuel (text ++ [0]) = some elements ∧
      (∀ k e, elements[k]? = some e → (e.rest = [0] ↔ k + 1 = elements.length)) ∧
      (Exact text elements ↔ ∀ component ∈ components text, component.length ≠ DIRSIZ) := by
  obtain ⟨elements, called, stored, last⟩ := skipelems_append terminated enough
  refine ⟨elements, called, last, ?_⟩
  simp only [Exact, stored, List.map_inj_left, stores_eq_iff]
  refine and_iff_left_of_imp fun fits element member store inside => ?_
  have known : element.stores ∈ (components text).map stores := stored ▸ List.mem_map_of_mem member
  obtain ⟨component, listed, same⟩ := List.mem_map.mp known
  rw [← same, stores_eq_iff.mpr (fits component listed)] at inside
  have bound : (fitted component).length ≤ DIRSIZ := by
    rw [fitted, List.length_append, List.length_take]
    split
    · next short => exact Nat.succ_le_of_lt ((Nat.min_le_right _ _).trans_lt short)
    · exact Nat.min_le_left _ _
  exact (List.snd_lt_of_mem_zipIdx inside).trans_le bound

end

theorem splitting_exact_short : ∃ elements,
    skipelems 6 [slash, 97, slash, slash, 98, 0] = some elements ∧
      Exact [slash, 97, slash, slash, 98] elements := by
  obtain ⟨elements, called, _, exact⟩ := splitting_exact_iff
    (show 0 ∉ [slash, 97, slash, slash, 98] by decide) (show 5 < 6 by decide)
  exact ⟨elements, called, exact.mpr (by decide)⟩

/-- The terminator of a component of 14 bytes is stored at `name[14]`. -/
theorem splitting_overruns : ∃ element,
    skipelem (List.replicate 14 97 ++ [0]) = some (some element) ∧
      skipelems 15 (List.replicate 14 97 ++ [0]) = some [element] ∧
      (0, 14) ∈ element.stores ∧ ¬Exact (List.replicate 14 97) [element] := by
  refine ⟨⟨[0], (List.replicate 14 97).zipIdx ++ [(0, 14)]⟩, by decide, by decide, by simp, ?_⟩
  rintro ⟨_, inside⟩
  exact absurd (inside _ List.mem_cons_self (0, 14) (by simp)) (by decide)

end OsCpp.Fs.Path
