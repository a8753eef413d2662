import OsCpp.Lib.Numeral

/-!
# The formatter of the kernel

`print_format` and `format_arg` of `micro_libcxx/include/fmt`.  A string is the list of its bytes before
the NUL, and the output is what `console::putc` gets.
-/

namespace OsCpp.Fmt

open Numeral (digit ofInt natAbs_signed)

/-- An argument: an integer of at most 64 bits, as the types are that `make_unsigned` knows, or a
pointer to a string. -/
inductive Arg
  | signed (w : Nat) (fits : w ≤ 64) (value : BitVec w)
  | unsigned (w : Nat) (fits : w ≤ 64) (value : BitVec w)
  | string (bytes : Option (List UInt8))

/-- The loop over the digits: `room` bytes of the buffer end at `ptr`, and `tail` is behind it. -/
def fill (base : Nat) : Nat → Nat → List UInt8 → Nat × List UInt8
  | 0, _, tail => (0, tail)
  | room + 1, value, tail =>
    if value > 0 then fill base room (value / base) (digit 0x61 (value % base) :: tail)
    else (room + 1, tail)

/-- `format_arg` of an integer: the string that it puts into the buffer, and its output. -/
def formatInteger (value : Nat) (neg is_hex : Bool) (size : Nat) : List UInt8 × List UInt8 :=
  if value = 0 then ([], [0x30])
  else
    let (room, tail) := fill (if is_hex then 16 else 10) (size - 1) value []
    let start := if neg ∧ room > 0 then 0x2d :: tail else tail
    (start, start)

/-- `format_arg`: the string that it puts into the buffer, and its output. -/
def format_arg (size : Nat) (is_hex : Bool) : Arg → List UInt8 × List UInt8
  | .signed _ _ arg => formatInteger (if arg.toInt < 0 then -arg else arg).toNat (arg.toInt < 0) is_hex size
  | .unsigned _ _ arg => formatInteger arg.toNat false is_hex size
  | .string none => ([], [])
  | .string (some arg) => (arg.take (size - 1), arg.take (size - 1))

/-- A placeholder at the start of a text: is it hexadecimal, and what follows it? -/
def placeholder : List UInt8 → Option (Bool × List UInt8)
  | 0x7b :: 0x7d :: fmt => some (false, fmt)
  | 0x7b :: 0x78 :: 0x7d :: fmt => some (true, fmt)
  | _ => none

/-- `print_format(fmt, first, next...)`: the output, and where it leaves `fmt`. -/
def printFormat : Nat → Arg → List Arg → List UInt8 → Option (List UInt8 × List UInt8)
  | 0, _, _, _ => none
  | _ + 1, _, _, [] => some ([], [])
  | fuel + 1, first, next, c :: fmt =>
    match placeholder (c :: fmt) with
    | none => do
      let (out, fmt) ← printFormat fuel first next fmt
      some (c :: out, fmt)
    | some (is_hex, fmt) =>
      let text := (format_arg 32 is_hex first).2
      match next with
      | [] => some (text ++ fmt, [])
      | second :: rest => do
        let (out, fmt) ← printFormat fuel second rest fmt
        -- The loop goes on after the recursive call.
        let (more, fmt) ← printFormat fuel first next fmt
        some (text ++ out ++ more, fmt)

def print_format (fuel : Nat) (fmt : List UInt8) : List Arg → Option (List UInt8)
  | [] => some fmt
  | first :: next => (printFormat fuel first next fmt).map (·.1)

/-! ## The text that is meant -/

def Arg.value : Arg → Option Int
  | .signed _ _ value => some value.toInt
  | .unsigned _ _ value => some value.toNat
  | .string _ => none

/-- What an argument stands for. -/
def Arg.text (is_hex : Bool) : Arg → List UInt8
  | .signed _ _ value => ofInt 0x61 (if is_hex then 16 else 10) value.toInt
  | .unsigned _ _ value => ofInt 0x61 (if is_hex then 16 else 10) value.toNat
  | .string bytes => (bytes.getD []).take 31

/-- The text with its placeholders replaced one after the other. -/
def render : List UInt8 → List Arg → List UInt8
  | fmt, [] => fmt
  | [], _ => []
  | 0x7b :: 0x7d :: fmt, arg :: args => arg.text false ++ render fmt args
  | 0x7b :: 0x78 :: 0x7d :: fmt, arg :: args => arg.text true ++ render fmt args
  | c :: fmt, args => c :: render fmt args

theorem render_placeholder {fmt rest : List UInt8} {is_hex : Bool}
    (found : placeholder fmt = some (is_hex, rest)) (arg : Arg) (args : List Arg) :
    render fmt (arg :: args) = arg.text is_hex ++ render rest args ∧ rest.length < fmt.length := by
  unfold placeholder at found
  split at found <;> cases found
  · simp [render]
  · exact ⟨by simp [render], by simp only [List.length_cons]; omega⟩

theorem render_literal {c : UInt8} {fmt : List UInt8} (none : placeholder (c :: fmt) = none)
    (arg : Arg) (args : List Arg) : render (c :: fmt) (arg :: args) = c :: render fmt (arg :: args) := by
  unfold placeholder at none
  split at none
  · cases none
  · cases none
  · next other other' =>
    rw [render]
    · simp
    · rintro rest - - - rfl rfl
      exact other rest rfl
    · rintro rest - - - rfl rfl
      exact other' rest rfl

theorem fill_eq {base : Nat} (one : 1 < base) {room value : Nat} (less : value < base ^ room)
    (tail : List UInt8) : fill base room value tail =
      (room - (base.digits value).length, ((base.digits value).map (digit 0x61)).reverse ++ tail) := by
  induction room generalizing value tail with
  | zero =>
    obtain rfl : value = 0 := Nat.lt_one_iff.mp less
    simp [fill]
  | succ room ih =>
    rcases Nat.eq_zero_or_pos value with rfl | positive
    · simp [fill]
    · have smaller : value / base < base ^ room := by
        rw [Nat.div_lt_iff_lt_mul (by omega), ← pow_succ]
        exact less
      rw [fill, if_pos positive, ih smaller, Nat.digits_def' one positive]
      simp

theorem formatInteger_eq {v : Int} (small : v.natAbs < 2 ^ 64) (is_hex : Bool) :
    (formatInteger v.natAbs (v < 0) is_hex 32).2 =
        ofInt 0x61 (if is_hex then 16 else 10) v ∧
      (formatInteger v.natAbs (v < 0) is_hex 32).1.length < 32 := by
  generalize based : (if is_hex then 16 else 10) = base
  have ten : 10 ≤ base := by
    cases is_hex <;> cases based <;> decide
  have enough : v.natAbs < base ^ 20 :=
    calc v.natAbs < 2 ^ 64 := small
      _ ≤ 10 ^ 20 := by norm_num
      _ ≤ base ^ 20 := Nat.pow_le_pow_left ten 20
  have few := (Nat.digits_length_le_iff (by omega) _).mpr enough
  have less : v.natAbs < base ^ 31 := enough.trans_le (Nat.pow_le_pow_right (by omega) (by decide))
  simp only [formatInteger, ofInt, Numeral.ofNat, based, fill_eq (by omega) less]
  split
  · next zero =>
    obtain rfl := Int.natAbs_eq_zero.mp zero
    exact ⟨rfl, by decide⟩
  · have room : 31 - (base.digits v.natAbs).length > 0 := by omega
    by_cases neg : v < 0
    · simp only [neg, room, decide_true, and_self, if_true]
      exact ⟨by simp, by simp; omega⟩
    · simp only [neg]
      exact ⟨by simp, by simp; omega⟩

theorem format_arg_eq (is_hex : Bool) (arg : Arg) :
    (format_arg 32 is_hex arg).2 = arg.text is_hex ∧ (format_arg 32 is_hex arg).1.length < 32 := by
  cases arg with
  | signed w fits v =>
    obtain ⟨same, less⟩ := natAbs_signed v
    rw [format_arg, same]
    exact formatInteger_eq (less.trans_le (Nat.pow_le_pow_right two_pos fits)) is_hex
  | unsigned w fits v =>
    have less := v.isLt.trans_le (Nat.pow_le_pow_right two_pos fits)
    have formatted := formatInteger_eq (v := v.toNat) less is_hex
    rwa [Int.natAbs_natCast, decide_eq_false (by omega)] at formatted
  | string bytes =>
    cases bytes with
    | none => simp [format_arg, Arg.text]
    | some bytes => simp [format_arg, Arg.text]

theorem printFormat_eq {fuel : Nat} {fmt : List UInt8} (enough : fmt.length < fuel) (first : Arg)
    (next : List Arg) : printFormat fuel first next fmt = some (render fmt (first :: next), []) := by
  induction fuel generalizing fmt first next with
  | zero => cases enough
  | succ fuel ih =>
    cases fmt with
    | nil => simp [printFormat, render]
    | cons c fmt =>
      have shorter : fmt.length < fuel := Nat.lt_of_succ_lt_succ enough
      rw [printFormat]
      cases found : placeholder (c :: fmt) with
      | none => simp [ih shorter, render_literal found]
      | some result =>
        obtain ⟨is_hex, fmt'⟩ := result
        obtain ⟨rendered, less⟩ := render_placeholder found first next
        have formatted := (format_arg_eq is_hex first).1
        cases next with
        | nil => simp [rendered, formatted, render]
        | cons second rest =>
          have nested := ih (less.trans_le (Nat.lt_succ_iff.mp enough)) second rest
          have ended := @ih [] (Nat.zero_lt_of_lt shorter) first (second :: rest)
          simp [rendered, formatted, nested, ended, render]

/-- The formatter replaces the placeholders in order, and no buffer is overrun. -/
theorem formats_exactly (fmt : List UInt8) (args : List Arg) :
    (∀ fuel > fmt.length, print_format fuel fmt args = some (render fmt args)) ∧
      ∀ arg is_hex, (format_arg 32 is_hex arg).1.length < 32 ∧
        ∀ v, arg.value = some v →
          Numeral.toInt 0x61 (if is_hex then 16 else 10) (arg.text is_hex) = v := by
  refine ⟨fun fuel enough => ?_, fun arg is_hex => ⟨(format_arg_eq is_hex arg).2, fun v valued => ?_⟩⟩
  · cases args with
    | nil => simp [print_format, render]
    | cons first next => simp [print_format, printFormat_eq enough]
  · cases arg <;> cases valued
    all_goals
      exact Numeral.toInt_ofInt (by decide) (by decide) (by split <;> decide) (by split <;> decide) _

theorem formats_exactly_least : let least : Arg := .signed 64 le_rfl (.intMin 64)
    print_format 3 [0x7b, 0x7d] [least] = some (render [0x7b, 0x7d] [least]) ∧
      Numeral.toInt 0x61 16 (least.text true) = -2 ^ 63 := by
  obtain ⟨printed, others⟩ := formats_exactly [0x7b, 0x7d] [.signed 64 le_rfl (.intMin 64)]
  exact ⟨printed 3 (by decide), (others _ true).2 _ rfl⟩

end OsCpp.Fmt
