import Mathlib.Tactic.Ring

/-!
# Fixed-size byte blocks and little-endian fields

A block of `size` bytes is read and written through list slices; integer fields are little-endian
slices of a given width.
-/

abbrev Bytes (size : Nat) := Fin size → UInt8

namespace Bytes

variable {size : Nat}

/-- The block whose bytes are all zero. -/
def zero (size : Nat) : Bytes size := fun _ => 0

/-- The byte at a position, zero past the end. -/
def get (block : Bytes size) (position : Nat) : UInt8 :=
  if inside : position < size then block ⟨position, inside⟩ else 0

/-- The bytes from a position on. -/
def slice (block : Bytes size) (position length : Nat) : List UInt8 :=
  (List.range length).map fun index => block.get (position + index)

/-- Overwrite the bytes from a position on. -/
def splice (block : Bytes size) (position : Nat) (bytes : List UInt8) : Bytes size :=
  fun index =>
    if position ≤ index then (bytes[index.val - position]?).getD (block index) else block index

@[simp] theorem get_zero (position : Nat) : (zero size).get position = 0 := by
  unfold get zero
  split <;> rfl

section

variable (block : Bytes size)
include block

@[simp] theorem length_slice (position length : Nat) :
    (block.slice position length).length = length := by
  simp [slice]

theorem getElem_slice (position length index : Nat)
    (inside : index < (block.slice position length).length) :
    (block.slice position length)[index] = block.get (position + index) := by
  simp [slice]

theorem get_splice (position : Nat) (bytes : List UInt8) (place : Nat) :
    (block.splice position bytes).get place =
      if position ≤ place ∧ place < size then
        (bytes[place - position]?).getD (block.get place)
      else block.get place := by
  unfold get splice
  by_cases inside : place < size <;> by_cases past : position ≤ place <;> simp [inside, past]

theorem get_splice_of_lt {position place : Nat} (bytes : List UInt8)
    (early : place < position) : (block.splice position bytes).get place = block.get place := by
  rw [get_splice, if_neg (by omega)]

theorem get_splice_of_le {position place : Nat} (bytes : List UInt8)
    (late : position + bytes.length ≤ place) :
    (block.splice position bytes).get place = block.get place := by
  rw [get_splice]
  split
  · rw [List.getElem?_eq_none (by omega)]
    rfl
  · rfl

theorem get_splice_inside {position index : Nat} (bytes : List UInt8)
    (fits : position + bytes.length ≤ size) (inside : index < bytes.length) :
    (block.splice position bytes).get (position + index) = bytes[index] := by
  rw [get_splice, if_pos (by omega), Nat.add_sub_cancel_left, List.getElem?_eq_getElem inside]
  rfl

theorem slice_splice (position : Nat) (bytes : List UInt8)
    (fits : position + bytes.length ≤ size) :
    (block.splice position bytes).slice position bytes.length = bytes := by
  apply List.ext_getElem (by simp)
  intro index inside _
  rw [getElem_slice]
  exact get_splice_inside block bytes fits (by simpa using inside)

/-- A part of a slice just written reads back. -/
theorem slice_splice_inside (position start length : Nat) (bytes : List UInt8)
    (fits : position + bytes.length ≤ size) (inside : start + length ≤ bytes.length) :
    (block.splice position bytes).slice (position + start) length =
      (bytes.drop start).take length := by
  apply List.ext_getElem (by simp; omega)
  intro index index_lt _
  simp only [length_slice] at index_lt
  rw [getElem_slice, add_assoc, get_splice_inside block bytes fits (by omega),
    List.getElem_take, List.getElem_drop]

theorem slice_splice_of_disjoint (written read length : Nat) (bytes : List UInt8)
    (disjoint : read + length ≤ written ∨ written + bytes.length ≤ read) :
    (block.splice written bytes).slice read length = block.slice read length := by
  apply List.ext_getElem (by simp)
  intro index inside _
  simp only [length_slice] at inside
  rw [getElem_slice, getElem_slice]
  rcases disjoint with early | late
  · exact get_splice_of_lt block bytes (by omega)
  · exact get_splice_of_le block bytes (by omega)

end

/-- Little-endian bytes of a number. -/
def toLE : Nat → Nat → List UInt8
  | 0, _ => []
  | width + 1, value => UInt8.ofNat (value % 256) :: toLE width (value / 256)

/-- The number spelled by little-endian bytes. -/
def ofLE : List UInt8 → Nat
  | [] => 0
  | byte :: bytes => byte.toNat + 256 * ofLE bytes

@[simp] theorem length_toLE (width value : Nat) : (toLE width value).length = width := by
  induction width generalizing value with
  | zero => rfl
  | succ width ih => simp [toLE, ih]

theorem ofLE_toLE (width value : Nat) : ofLE (toLE width value) = value % 256 ^ width := by
  induction width generalizing value with
  | zero => simp [toLE, ofLE, Nat.mod_one]
  | succ width ih =>
    have digit : (UInt8.ofNat (value % 256)).toNat = value % 256 := by
      simp
    rw [toLE, ofLE, ih, digit, pow_succ, mul_comm (256 ^ width), Nat.mod_mul]

/-- The little-endian field of a given width at a position. -/
def field (block : Bytes size) (width position : Nat) : Nat := ofLE (block.slice position width)

/-- Store a little-endian field. -/
def setField (block : Bytes size) (width position value : Nat) : Bytes size :=
  block.splice position (toLE width value)

/-- A field just stored reads back, up to its width. -/
theorem field_setField (block : Bytes size) (width position value : Nat)
    (fits : position + width ≤ size) :
    (block.setField width position value).field width position = value % 256 ^ width := by
  have back := slice_splice block position (toLE width value) (by simpa using fits)
  rw [length_toLE] at back
  rw [field, setField, back, ofLE_toLE]

theorem field_setField_of_disjoint (block : Bytes size) (width position value : Nat)
    (otherWidth other : Nat)
    (disjoint : other + otherWidth ≤ position ∨ position + width ≤ other) :
    (block.setField width position value).field otherWidth other =
      block.field otherWidth other := by
  rw [field, setField, slice_splice_of_disjoint _ _ _ _ _ (by simpa using disjoint), field]

theorem field_splice_of_disjoint (block : Bytes size) (written : Nat) (bytes : List UInt8)
    (width position : Nat)
    (disjoint : position + width ≤ written ∨ written + bytes.length ≤ position) :
    (block.splice written bytes).field width position = block.field width position := by
  rw [field, slice_splice_of_disjoint _ _ _ _ _ disjoint, field]

theorem length_flatMap_toLE (width : Nat) (values : List Nat) :
    (values.flatMap (toLE width)).length = width * values.length := by
  induction values with
  | nil => simp
  | cons value values ih =>
    rw [List.flatMap_cons, List.length_append, length_toLE, ih, List.length_cons]
    ring

theorem take_drop_flatMap_toLE (width : Nat) (values : List Nat) (index : Nat)
    (inside : index < values.length) :
    ((values.flatMap (toLE width)).drop (width * index)).take width = toLE width values[index] := by
  induction values generalizing index with
  | nil => simp at inside
  | cons value values ih =>
    rw [List.flatMap_cons]
    cases index with
    | zero => rw [mul_zero, List.drop_zero, List.take_left' (length_toLE width value)]; rfl
    | succ index =>
      have later := ih index (by simpa using inside)
      rw [Nat.mul_succ, add_comm, ← List.drop_drop,
        List.drop_left' (length_toLE width value), later]
      rfl

/-- An element of an array of numbers just written reads back. -/
theorem field_splice_flatMap_toLE (block : Bytes size) (width position : Nat) (values : List Nat)
    (index : Nat) (inside : index < values.length)
    (fits : position + width * values.length ≤ size) :
    (block.splice position (values.flatMap (toLE width))).field width (position + width * index) =
      values[index] % 256 ^ width := by
  have within : width * index + width ≤ width * values.length := by
    rw [← Nat.mul_succ]
    exact Nat.mul_le_mul_left _ inside
  rw [field, slice_splice_inside _ _ _ _ _ (by rwa [length_flatMap_toLE])
    (by rwa [length_flatMap_toLE]), take_drop_flatMap_toLE _ _ _ inside, ofLE_toLE]

theorem ofLE_replicate_zero (count : Nat) : ofLE (List.replicate count 0) = 0 := by
  induction count with
  | zero => rfl
  | succ count ih => simp [List.replicate_succ, ofLE, ih]

@[simp] theorem field_zero (width position : Nat) : (zero size).field width position = 0 := by
  have all : (zero size).slice position width = List.replicate width 0 := by
    apply List.ext_getElem (by simp)
    intro index _ _
    simp [getElem_slice]
  rw [field, all, ofLE_replicate_zero]

end Bytes
