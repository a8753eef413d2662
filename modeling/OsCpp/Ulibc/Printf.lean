import OsCpp.Lib.Numeral

/-!
# Formatted output of the C library

`vfprintf` of `ulibc` on standard output.  A string is the list of its bytes before the NUL; an argument
fills a slot of 64 bits, of which `printint` gets the lower half.
-/

namespace OsCpp.Ulibc.Printf

open Numeral (digit ofInt)

inductive Arg
  | word (value : UInt64)
  | string (s : Option (List UInt8))

/-- The loop of `printint` over the digits, with `room` bytes left in `buf`. -/
def store (base : Nat) : Nat → Nat → Option (List UInt8)
  | 0, _ => none
  | room + 1, x =>
    if x / base = 0 then some [digit 0x41 (x % base)]
    else (store base room (x / base)).map (digit 0x41 (x % base) :: ·)

/-- `printint`; there is no result if it leaves `buf`. -/
def printint (xx : BitVec 32) (base : Nat) (sgn : Bool) : Option (List UInt8) := do
  let neg := sgn ∧ xx.toInt < 0
  let buf ← store base 16 (if neg then -xx else xx).toNat
  let buf := if neg then buf ++ [0x2d] else buf
  if buf.length ≤ 16 then some buf.reverse else none

/-- The loop of `printptr`. -/
def nibbles : Nat → UInt64 → List UInt8
  | 0, _ => []
  | n + 1, x => digit 0x41 (x >>> 60).toNat :: nibbles n (x <<< 4)

def printptr (x : UInt64) : List UInt8 := 0x30 :: 0x78 :: nibbles 16 x

/-- Print an integer argument: the output, how many characters to skip, and the arguments left. -/
def printArg (base : Nat) (sgn : Bool) (skip : Nat) : List Arg → Option (List UInt8 × Nat × List Arg)
  | .word value :: ap => (printint (value.toBitVec.setWidth 32) base sgn).map (·, skip, ap)
  | _ => none

/-- The branches of `vfprintf` in state `'%'`. -/
def convert (c c1 c2 : UInt8) (ap : List Arg) : Option (List UInt8 × Nat × List Arg) :=
  if c = 0x64 then printArg 10 true 0 ap
  else if c = 0x6c ∧ c1 = 0x64 then printArg 10 true 1 ap
  else if c = 0x6c ∧ c1 = 0x6c ∧ c2 = 0x64 then printArg 10 true 2 ap
  else if c = 0x75 then printArg 10 false 0 ap
  else if c = 0x6c ∧ c1 = 0x75 then printArg 10 false 1 ap
  else if c = 0x6c ∧ c1 = 0x6c ∧ c2 = 0x75 then printArg 10 false 2 ap
  else if c = 0x78 then printArg 16 false 0 ap
  else if c = 0x6c ∧ c1 = 0x78 then printArg 16 false 1 ap
  else if c = 0x6c ∧ c1 = 0x6c ∧ c2 = 0x78 then printArg 16 false 2 ap
  else match c, ap with
    | 0x70, .word value :: ap => some (printptr value, 0, ap)
    | 0x73, .string s :: ap => some (s.getD "(null)".toUTF8.toList, 0, ap)
    | 0x70, _ | 0x73, _ => none
    | 0x25, _ => some ([0x25], 0, ap)
    | _, _ => some ([0x25, c], 0, ap)

/-- The loop of `vfprintf`; `directive` is state `'%'`. -/
def vfprintf : Nat → Bool → List UInt8 → List Arg → Option (List UInt8)
  | 0, _, _, _ => none
  | _ + 1, _, [], _ => some []
  | fuel + 1, false, c :: fmt, ap =>
    if c = 0x25 then vfprintf fuel true fmt ap else (vfprintf fuel false fmt ap).map (c :: ·)
  | fuel + 1, true, c :: fmt, ap => do
    let (text, skip, ap) ← convert c (fmt.headD 0) ((fmt.drop 1).headD 0) ap
    (vfprintf fuel false (fmt.drop skip) ap).map (text ++ ·)

/-! ## The text that is meant -/

inductive Kind
  | d | u | x

/-- The letter of a directive, its base and whether it is signed. -/
def Kind.spec : Kind → UInt8 × Nat × Bool
  | d => (0x64, 10, true)
  | u => (0x75, 10, false)
  | x => (0x78, 16, false)

/-- The value of the lower bits of a slot. -/
def Kind.value (kind : Kind) (w : Nat) (slot : UInt64) : Int :=
  if kind.spec.2.2 then (slot.toBitVec.setWidth w).toInt else (slot.toBitVec.setWidth w).toNat

/-- A character of the format or a directive with its argument. -/
inductive Piece
  | literal (c : UInt8) (plain : c ≠ 0 ∧ c ≠ 0x25)
  | percent
  | number (kind : Kind) (longs : Fin 3) (slot : UInt64)
  | pointer (value : UInt64)
  | string (s : Option (List UInt8))

def Piece.spelling : Piece → List UInt8
  | literal c _ => [c]
  | percent => [0x25, 0x25]
  | number kind longs _ => 0x25 :: (List.replicate longs 0x6c ++ [kind.spec.1])
  | pointer _ => [0x25, 0x70]
  | string _ => [0x25, 0x73]

def Piece.args : Piece → List Arg
  | literal .. | percent => []
  | number _ _ slot => [.word slot]
  | pointer value => [.word value]
  | string s => [.string s]

/-- The last `n` hexadecimal digits. -/
def hex : Nat → Nat → List UInt8
  | 0, _ => []
  | n + 1, value => digit 0x41 (value / 16 ^ n % 16) :: hex n value

/-- The exact text, with integers of `int` or of 64 bits. -/
def Piece.text : Piece → List UInt8
  | literal c _ => [c]
  | percent => [0x25]
  | number kind longs slot => ofInt 0x41 kind.spec.2.1 (kind.value (if longs.val = 0 then 32 else 64) slot)
  | pointer value => 0x30 :: 0x78 :: hex 16 value.toNat
  | string s => s.getD "(null)".toUTF8.toList

/-- A 64-bit integer has the same value in 32 bits. -/
def Piece.Fits : Piece → Prop
  | number kind longs slot => longs.val = 0 ∨ kind.value 64 slot = kind.value 32 slot
  | _ => True

theorem store_eq {base room x : Nat} (one : 1 < base) (some_room : 0 < room) (less : x < base ^ room) :
    store base room x = some (Numeral.ofNat 0x41 base x).reverse := by
  induction room generalizing x with
  | zero => cases some_room
  | succ room ih =>
    have smaller : x / base < base ^ room := by
      rw [Nat.div_lt_iff_lt_mul (by omega), ← pow_succ]
      exact less
    rw [store, Numeral.ofNat]
    rcases Nat.eq_zero_or_pos x with rfl | positive
    · simp
    · rw [if_neg positive.ne', Nat.digits_def' one positive, List.reverse_reverse, List.map_cons]
      split
      · next last => simp [last]
      · next more =>
        have left : 0 < room := by
          by_contra none
          obtain rfl : room = 0 := by omega
          exact more (Nat.lt_one_iff.mp smaller)
        rw [ih left smaller, Numeral.ofNat, if_neg more]
        simp

theorem printint_eq {base : Nat} (ten : 10 ≤ base) (sgn : Bool) (v : BitVec 32) :
    printint v base sgn = some (ofInt 0x41 base (if sgn then v.toInt else v.toNat)) := by
  have stored : ∀ {x : Nat}, x < 2 ^ 32 → store base 16 x = some (Numeral.ofNat 0x41 base x).reverse ∧
      (Numeral.ofNat 0x41 base x).length ≤ 10 := by
    intro x small
    have less : x < base ^ 10 :=
      calc x < 10 ^ 10 := small.trans_le (by norm_num)
        _ ≤ base ^ 10 := Nat.pow_le_pow_left ten 10
    exact ⟨store_eq (by omega) (by decide) (less.trans_le (Nat.pow_le_pow_right (by omega) (by decide))),
      Numeral.length_ofNat_le (by omega) (by decide) less⟩
  cases sgn with
  | false =>
    obtain ⟨digits, short⟩ := stored v.isLt
    simp [printint, digits, ofInt]
    omega
  | true =>
    obtain ⟨same, small⟩ := Numeral.natAbs_signed v
    obtain ⟨digits, short⟩ := stored small
    simp only [printint, same, digits, ofInt, true_and, if_true, Option.bind_eq_bind, Option.bind_some]
    split
    · simp
      omega
    · simp
      omega

theorem nibbles_eq {n k v : Nat} {x : UInt64} (total : k + n = 16)
    (shifted : x.toNat = v * 16 ^ k % 16 ^ 16) : nibbles n x = hex n v := by
  induction n generalizing x k with
  | zero => rfl
  | succ n ih =>
    have top : (x >>> 60).toNat = v / 16 ^ n % 16 := by
      have whole : 16 ^ 16 = 16 ^ k * (16 ^ n * 16) := by rw [← pow_succ, ← pow_add, total]
      have part : 2 ^ 60 = 16 ^ k * 16 ^ n := by rw [← pow_add, show k + n = 15 by omega]; rfl
      rw [UInt64.toNat_shiftRight, shifted, whole, mul_comm v, Nat.mul_mod_mul_left,
        Nat.shiftRight_eq_div_pow, show UInt64.toNat 60 % 64 = 60 from rfl, part,
        Nat.mul_div_mul_left _ _ (by positivity), Nat.mod_mul_right_div_self]
    have next : (x <<< 4).toNat = v * 16 ^ (k + 1) % 16 ^ 16 := by
      rw [UInt64.toNat_shiftLeft, shifted, Nat.shiftLeft_eq, pow_succ 16 k, ← mul_assoc]
      exact Nat.mod_mul_mod ..
    rw [nibbles, hex, top, ih (by omega) next]

theorem convert_number (kind : Kind) (longs : Fin 3) (rest : List UInt8) (ap : List Arg) :
    ∃ c fmt, List.replicate longs 0x6c ++ kind.spec.1 :: rest = c :: fmt ∧ fmt.drop longs = rest ∧
      convert c (fmt.headD 0) ((fmt.drop 1).headD 0) ap =
        printArg kind.spec.2.1 kind.spec.2.2 longs ap := by
  have cases : longs = 0 ∨ longs = 1 ∨ longs = 2 := by omega
  rcases cases with rfl | rfl | rfl <;> cases kind <;> exact ⟨_, _, rfl, rfl, rfl⟩

/-- What is printed: of every integer, the value in 32 bits. -/
def Piece.printed : Piece → List UInt8
  | number kind _ slot => ofInt 0x41 kind.spec.2.1 (kind.value 32 slot)
  | piece => piece.text

section

variable {fuel : Nat} {fmt out : List UInt8} {ap : List Arg}

theorem vfprintf_directive {skip : Nat} {c : UInt8} {text : List UInt8} {ap' : List Arg}
    (converted : convert c (fmt.headD 0) ((fmt.drop 1).headD 0) ap = some (text, skip, ap'))
    (rest : vfprintf fuel false (fmt.drop skip) ap' = some out) :
    vfprintf (fuel + 2) false (0x25 :: c :: fmt) ap = some (text ++ out) := by
  rw [vfprintf, if_pos rfl, vfprintf, converted]
  simp [rest]

theorem vfprintf_piece (piece : Piece) (enough : (piece.spelling ++ fmt).length < fuel)
    (rest : ∀ fuel > fmt.length, vfprintf fuel false fmt ap = some out) :
    vfprintf fuel false (piece.spelling ++ fmt) (piece.args ++ ap) = some (piece.printed ++ out) := by
  rw [List.length_append] at enough
  cases piece with
  | literal c plain =>
    obtain ⟨fuel, rfl⟩ := Nat.exists_eq_add_one_of_ne_zero (Nat.ne_zero_of_lt enough)
    have after := rest fuel (by simp [Piece.spelling] at enough; omega)
    simp [vfprintf, Piece.spelling, Piece.args, Piece.printed, Piece.text, plain.2, after]
  | percent | string s =>
    obtain ⟨fuel, rfl⟩ := Nat.exists_eq_add_of_le' (Nat.le_of_add_right_le enough.le)
    exact vfprintf_directive rfl (rest fuel (by simp [Piece.spelling] at enough; omega))
  | pointer value =>
    obtain ⟨fuel, rfl⟩ := Nat.exists_eq_add_of_le' (Nat.le_of_add_right_le enough.le)
    have digits : nibbles 16 value = hex 16 value.toNat := nibbles_eq rfl (by simp)
    change _ = some (0x30 :: 0x78 :: hex 16 value.toNat ++ out)
    rw [← digits]
    exact vfprintf_directive rfl (rest fuel (by simp [Piece.spelling] at enough; omega))
  | number kind longs slot =>
    obtain ⟨c, fmt', spelled, dropped, converted⟩ := convert_number kind longs fmt (.word slot :: ap)
    have ten : 10 ≤ kind.spec.2.1 := by cases kind <;> decide
    rw [printArg, printint_eq ten] at converted
    simp only [Piece.spelling, List.length_cons, List.length_append, List.length_replicate] at enough
    obtain ⟨fuel, rfl⟩ := Nat.exists_eq_add_of_le' (show 2 ≤ fuel by omega)
    have spelled' : (Piece.number kind longs slot).spelling ++ fmt = 0x25 :: c :: fmt' := by
      simp [Piece.spelling, spelled]
    rw [spelled']
    exact vfprintf_directive converted (dropped ▸ rest fuel (by omega))

end

theorem vfprintf_eq {pieces : List Piece} {fuel : Nat}
    (enough : (pieces.flatMap Piece.spelling).length < fuel) :
    vfprintf fuel false (pieces.flatMap Piece.spelling) (pieces.flatMap Piece.args) =
      some (pieces.flatMap Piece.printed) := by
  induction pieces generalizing fuel with
  | nil =>
    obtain ⟨fuel, rfl⟩ := Nat.exists_eq_add_of_lt enough
    simp [vfprintf]
  | cons piece pieces ih => exact vfprintf_piece piece enough fun _ => ih

end OsCpp.Ulibc.Printf
