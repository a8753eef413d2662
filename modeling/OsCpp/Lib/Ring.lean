import Mathlib.Data.Nat.ModEq

/-!
# Ring buffers

A ring is an array of `size` cells; its contents are the `count` cells that follow a free-running
position, which is only ever used modulo `size`.
-/

namespace Ring

variable {Item : Type*}

/-- The `count` items that begin at a position. -/
def window (cells : Nat → Item) (size start count : Nat) : List Item :=
  (List.range count).map fun offset => cells ((start + offset) % size)

@[simp]
theorem length_window (cells : Nat → Item) (size start count : Nat) :
    (window cells size start count).length = count := by
  simp [window]

@[simp]
theorem window_zero (cells : Nat → Item) (size start : Nat) : window cells size start 0 = [] := by
  simp [window]

theorem window_congr {size start other : Nat} (same : start % size = other % size)
    (cells : Nat → Item) (count : Nat) :
    window cells size start count = window cells size other count := by
  refine List.map_congr_left fun offset _ => ?_
  rw [Nat.add_mod, same, ← Nat.add_mod]

theorem window_succ (cells : Nat → Item) (size start count : Nat) :
    window cells size start (count + 1) =
      cells (start % size) :: window cells size (start + 1) count := by
  simp only [window, List.range_succ_eq_map, List.map_cons, List.map_map, add_zero]
  congr 1
  refine List.map_congr_left fun offset _ => ?_
  simp only [Function.comp_apply]
  congr 2
  omega

theorem take_window {fewer count : Nat} (le : fewer ≤ count) (cells : Nat → Item)
    (size start : Nat) :
    (window cells size start count).take fewer = window cells size start fewer := by
  rw [window, window, ← List.map_take, List.take_range, min_eq_left le]

/-- Two positions less than a whole turn apart use different cells. -/
theorem cell_ne {size start near far : Nat} (ordered : near < far) (within : far < size) :
    (start + near) % size ≠ (start + far) % size := by
  intro same
  have close : near % size = far % size := Nat.ModEq.add_left_cancel' start same
  rw [Nat.mod_eq_of_lt (ordered.trans within), Nat.mod_eq_of_lt within] at close
  omega

/-- Storing an item behind the others appends it, as long as there is room. -/
theorem window_store (cells : Nat → Item) {size count : Nat} (start : Nat) (room : count < size)
    (item : Item) :
    window (Function.update cells ((start + count) % size) item) size start (count + 1) =
      window cells size start count ++ [item] := by
  simp only [window, List.range_succ, List.map_append, List.map_cons, List.map_nil,
    Function.update_self]
  congr 1
  refine List.map_congr_left fun offset small => ?_
  have near : offset < count := List.mem_range.mp small
  rw [Function.update_of_ne (cell_ne near room)]

/-- How far a counter that wraps at `modulus` is ahead of another one. -/
def distance (modulus start stop : Nat) : Nat := (stop + (modulus - start)) % modulus

section

variable {modulus start stop : Nat}

theorem distance_eq_zero (start_lt : start < modulus) (stop_lt : stop < modulus) :
    distance modulus start stop = 0 ↔ start = stop := by
  rw [distance]
  rcases lt_or_ge stop start with less | less
  · rw [Nat.mod_eq_of_lt (by omega)]
    omega
  · rw [show stop + (modulus - start) = (stop - start) + modulus by omega, Nat.add_mod_right,
      Nat.mod_eq_of_lt (by omega)]
    omega

theorem distance_succ_stop
    (room : distance modulus start stop + 1 < modulus) :
    distance modulus start ((stop + 1) % modulus) = distance modulus start stop + 1 := by
  simp only [distance] at room ⊢
  rw [Nat.mod_add_mod, show stop + 1 + (modulus - start) = stop + (modulus - start) + 1 by omega,
    ← Nat.mod_add_mod, Nat.mod_eq_of_lt room]

theorem distance_succ_start (start_lt : start < modulus) (stop_lt : stop < modulus)
    (apart : start ≠ stop) :
    distance modulus start stop = distance modulus ((start + 1) % modulus) stop + 1 := by
  have positive := mt (distance_eq_zero start_lt stop_lt).mp apart
  rcases lt_or_ge (start + 1) modulus with inside | wraps
  · rw [Nat.mod_eq_of_lt inside]
    have smaller : distance modulus (start + 1) stop + 1 < modulus ∨
        distance modulus (start + 1) stop + 1 = modulus := by
      have := Nat.mod_lt (stop + (modulus - (start + 1))) (Nat.zero_lt_of_lt start_lt)
      simp only [distance]
      omega
    have shifted : distance modulus start stop =
        (distance modulus (start + 1) stop + 1) % modulus := by
      simp only [distance]
      rw [Nat.mod_add_mod]
      congr 1
      omega
    rcases smaller with smaller | full
    · rw [shifted, Nat.mod_eq_of_lt smaller]
    · rw [full, Nat.mod_self] at shifted
      exact absurd shifted positive
  · obtain rfl : modulus = start + 1 := by omega
    rw [Nat.mod_self, distance, distance]
    rw [show stop + (start + 1 - start) = stop + 1 by omega, Nat.sub_zero, Nat.add_mod_right,
      Nat.mod_eq_of_lt stop_lt, Nat.mod_eq_of_lt (by omega)]

/-- The cell the counter ahead selects. -/
theorem stop_mod_size {size : Nat} (divides : size ∣ modulus) (start_lt : start < modulus) :
    stop % size = (start + distance modulus start stop) % size := by
  rw [distance, Nat.add_mod, Nat.mod_mod_of_dvd _ divides, ← Nat.add_mod,
    show start + (stop + (modulus - start)) = stop + modulus by omega, Nat.add_mod,
    Nat.mod_eq_zero_of_dvd divides, add_zero, Nat.mod_mod]

end

/-- The items between two counters that wrap at `modulus`. -/
def contents (cells : Nat → Item) (size modulus start stop : Nat) : List Item :=
  window cells size start (distance modulus start stop)

section

variable {size modulus start stop : Nat}

theorem contents_store (divides : size ∣ modulus) (size_lt : size < modulus)
    (start_lt : start < modulus) (cells : Nat → Item) (item : Item)
    (room : (contents cells size modulus start stop).length < size) :
    contents (Function.update cells (stop % size) item) size modulus start
      ((stop + 1) % modulus) = contents cells size modulus start stop ++ [item] := by
  simp only [contents, length_window] at room
  rw [contents, contents, distance_succ_stop (by omega),
    stop_mod_size divides start_lt, window_store cells start room]

theorem contents_take (divides : size ∣ modulus) (start_lt : start < modulus)
    (stop_lt : stop < modulus) (cells : Nat → Item) (apart : start ≠ stop) :
    contents cells size modulus start stop =
      cells (start % size) :: contents cells size modulus ((start + 1) % modulus) stop := by
  rw [contents, contents, distance_succ_start start_lt stop_lt apart, window_succ]
  congr 1
  exact window_congr (Nat.mod_mod_of_dvd _ divides).symm cells _

end

end Ring
