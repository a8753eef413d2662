import Mathlib.Data.Nat.Digits.Lemmas

/-!
# Numerals

Numerals as bytes.  Digits from ten on are letters, beginning with `letter`.
-/

namespace Numeral

variable (letter : UInt8) (base : Nat)

def digit (d : Nat) : UInt8 := if d < 10 then 0x30 + .ofNat d else letter + .ofNat (d - 10)

def ofNat (n : Nat) : List UInt8 :=
  if n = 0 then [digit letter 0] else ((base.digits n).map (digit letter)).reverse

def ofInt (v : Int) : List UInt8 :=
  if v < 0 then 0x2d :: ofNat letter base v.natAbs else ofNat letter base v.natAbs

def value (c : UInt8) : Nat := if c.toNat < 0x3a then c.toNat - 0x30 else c.toNat - letter.toNat + 10

def toNat (text : List UInt8) : Nat := Nat.ofDigits base (text.reverse.map (value letter))

/-- The integer that a numeral denotes. -/
def toInt (text : List UInt8) : Int :=
  if text.head? = some 0x2d then -toNat letter base text.tail else toNat letter base text

/-- Negation in two's complement gives the absolute value, of the least integer as well. -/
theorem natAbs_signed {w : Nat} (v : BitVec w) :
    (if v.toInt < 0 then -v else v).toNat = v.toInt.natAbs ∧ v.toInt.natAbs < 2 ^ w := by
  have less := v.isLt
  split
  · next neg =>
    rw [BitVec.toNat_neg]
    rw [BitVec.toInt_eq_toNat_cond] at neg ⊢
    split at neg
    · omega
    · rw [Nat.mod_eq_of_lt (by omega)]
      omega
  · next pos =>
    rw [BitVec.toInt_eq_toNat_cond] at pos ⊢
    split <;> omega

variable {letter base}

theorem length_ofNat_le {n k : Nat} (one : 1 < base) (positive : 0 < k) (less : n < base ^ k) :
    (ofNat letter base n).length ≤ k := by
  unfold ofNat
  split
  · exact positive
  · rw [List.length_reverse, List.length_map]
    exact (Nat.digits_length_le_iff one n).mpr less

variable (low : 0x3a ≤ letter.toNat) (high : letter.toNat < 0xf0)
include low high

theorem toNat_digit {d : Nat} (less : d < 16) :
    (digit letter d).toNat = if d < 10 then 0x30 + d else letter.toNat + (d - 10) := by
  unfold digit
  split <;> simp <;> omega

theorem value_digit {d : Nat} (less : d < 16) : value letter (digit letter d) = d := by
  rw [value, toNat_digit low high less]
  split <;> split <;> omega

variable (one : 1 < base) (sixteen : base ≤ 16)
include one sixteen

theorem le_of_mem_ofNat {n : Nat} {c : UInt8} (member : c ∈ ofNat letter base n) : 0x30 ≤ c.toNat := by
  obtain ⟨d, less, rfl⟩ : ∃ d < 16, c = digit letter d := by
    unfold ofNat at member
    split at member
    · exact ⟨0, by decide, List.mem_singleton.mp member⟩
    · obtain ⟨d, digit, rfl⟩ := List.mem_map.mp (List.mem_reverse.mp member)
      exact ⟨d, (Nat.digits_lt_base one digit).trans_le sixteen, rfl⟩
  rw [toNat_digit low high less]
  split <;> omega

theorem toNat_ofNat (n : Nat) : toNat letter base (ofNat letter base n) = n := by
  unfold toNat ofNat
  split
  · next zero => simp [zero, value_digit low high]
  · have same : (base.digits n).map (value letter ∘ digit letter) = (base.digits n).map id :=
      List.map_congr_left fun d member =>
        value_digit low high ((Nat.digits_lt_base one member).trans_le sixteen)
    rw [List.reverse_reverse, List.map_map, same, List.map_id, Nat.ofDigits_digits]

theorem toInt_ofInt (v : Int) : toInt letter base (ofInt letter base v) = v := by
  have back := toNat_ofNat low high one sixteen v.natAbs
  unfold toInt ofInt
  split
  · simp only [List.head?_cons, List.tail_cons, if_true, back]
    omega
  · have unsigned : (ofNat letter base v.natAbs).head? ≠ some 0x2d := fun head => by
      have least := le_of_mem_ofNat low high one sixteen (List.mem_of_head? head)
      exact absurd least (by decide)
    rw [if_neg unsigned, back]
    omega

end Numeral
