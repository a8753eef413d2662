import OsCpp.Lib.Execution

/-!
# The stream buffer of the C++ library

`std::basic_streambuf<char>` of `ulibc++/include/streambuf`.  Plain `char` is unsigned on RISC-V, so
`eof()`, which is `-1` as a `char`, is 255: a seek to position 255 looks like one that has failed.
`buffer_end_` is never read and left out.
-/

namespace OsCpp.Ulibc

structure Streambuf where
  /-- The characters `buffer_` points to; `none` is the null pointer. -/
  buffer_ : Option (UInt64 → UInt8) := none
  buffer_size_ : UInt64 := 0
  buffer_pos_ : UInt64 := 0

/-- `std::ios_base::seekdir`, with the values outside the enumeration. -/
inductive Seekdir
  | beg
  | cur
  | end'
  | other
  deriving DecidableEq

namespace Streambuf

/-- `traits_type::eof()`. -/
def eof : Int32 := 255

def set_buffer (buf : Option (UInt64 → UInt8)) (size : UInt64) : Streambuf := ⟨buf, size, 0⟩

def pbump (s : Streambuf) (n : Int32) : Streambuf :=
  if n < 0 ∧ s.buffer_pos_ < (-n).toInt64.toUInt64 then { s with buffer_pos_ := 0 }
  else if n < 0 then { s with buffer_pos_ := s.buffer_pos_ - (-n).toInt64.toUInt64 }
  else
    let pos := s.buffer_pos_ + n.toInt64.toUInt64
    { s with buffer_pos_ := if pos > s.buffer_size_ then s.buffer_size_ else pos }

def sputc (s : Streambuf) (ch : UInt8) : Streambuf × Int32 :=
  match s.buffer_ with
  | none => (s, eof)
  | some buffer =>
    if s.buffer_pos_ ≥ s.buffer_size_ then (s, eof)
    else
      ({ s with
          buffer_ := some (Function.update buffer s.buffer_pos_ ch)
          buffer_pos_ := s.buffer_pos_ + 1 }, ch.toUInt32.toInt32)

def overflow (s : Streambuf) (ch : Int32) : Streambuf × Int32 :=
  (if ch ≠ eof then (s.sputc ch.toUInt32.toUInt8).1 else s, ch)

def seekpos (s : Streambuf) (pos : Int64) : Streambuf × Int64 :=
  if pos < 0 ∨ pos ≥ s.buffer_size_.toInt64 then (s, eof.toInt64)
  else ({ s with buffer_pos_ := pos.toUInt64 }, pos)

/-- Where `seekoff` moves the position, before it looks whether that is inside. -/
def target (s : Streambuf) (off : Int64) : Seekdir → Option UInt64
  | .beg => some off.toUInt64
  | .cur => some (s.buffer_pos_ + off.toUInt64)
  | .end' => some (s.buffer_size_ - off.toUInt64)
  | .other => none

def seekoff (s : Streambuf) (off : Int64) (dir : Seekdir) : Streambuf × Int64 :=
  if s.buffer_.isNone then (s, eof.toInt64)
  else
    match s.target off dir with
    | none => (s, eof.toInt64)
    | some pos =>
      ({ s with buffer_pos_ := pos }, if pos > s.buffer_size_ then eof.toInt64 else pos.toInt64)

def reset (s : Streambuf) : Streambuf := { s with buffer_pos_ := 0 }

inductive Call
  | set_buffer (buf : Option (UInt64 → UInt8)) (size : UInt64)
  | sputc (ch : UInt8)
  | pbump (n : Int32)
  | overflow (ch : Int32)
  | seekpos (pos : Int64)
  | seekoff (off : Int64) (dir : Seekdir)
  | reset

/-- The buffer after a call, and what a seek returns. -/
def perform (s : Streambuf) : Call → Streambuf × Option Int64
  | .set_buffer buf size => (Streambuf.set_buffer buf size, none)
  | .sputc ch => ((s.sputc ch).1, none)
  | .pbump n => (s.pbump n, none)
  | .overflow ch => ((s.overflow ch).1, none)
  | .seekpos pos => ((s.seekpos pos).1, some (s.seekpos pos).2)
  | .seekoff off dir => ((s.seekoff off dir).1, some (s.seekoff off dir).2)
  | .reset => (s.reset, none)

def step (s : Streambuf) (call : Call) : Option Streambuf := some (s.perform call).1

def Inside (s : Streambuf) : Prop := s.buffer_pos_ ≤ s.buffer_size_

/-- After the call the position is inside, and a seek that returns `eof()` has not moved it. -/
def Keeps (s : Streambuf) (call : Call) : Prop :=
  (s.perform call).1.Inside ∧ ((s.perform call).2 = some eof.toInt64 →
    (s.perform call).1.buffer_pos_ = s.buffer_pos_)

/-- No seek goes to position 255, and `seekoff` does not leave the buffer. -/
def Call.Fits (s : Streambuf) : Call → Prop
  | .pbump n => n ≠ Int32.minValue
  | .seekpos pos => pos ≠ eof.toInt64
  | .seekoff off dir =>
    ∀ pos ∈ s.target off dir, pos ≤ s.buffer_size_ ∧ pos.toInt64 ≠ eof.toInt64
  | _ => True

variable {s : Streambuf}

theorem Inside.sputc (inside : s.Inside) (ch : UInt8) : (s.sputc ch).1.Inside := by
  unfold Streambuf.sputc
  split
  · exact inside
  · split
    · exact inside
    · next room =>
      have room := UInt64.lt_iff_toNat_lt.mp (UInt64.not_le.mp room)
      have bound := s.buffer_size_.toNat_lt
      simp only [Inside, UInt64.le_iff_toNat_le, UInt64.toNat_add, UInt64.toNat_one]
      omega

theorem Inside.pbump (inside : s.Inside) (n : Int32) : (s.pbump n).Inside := by
  unfold Streambuf.pbump
  split
  · exact UInt64.zero_le
  · next stays =>
    split
    · next back =>
      have low := UInt64.not_lt.mp (not_and.mp stays back)
      exact UInt64.le_trans (UInt64.sub_le low) inside
    · simp only [Inside]
      split
      · exact UInt64.le_refl _
      · next low => exact UInt64.not_lt.mp low

theorem Inside.keeps (inside : s.Inside) {call : Call} (fits : call.Fits s) : s.Keeps call := by
  cases call with
  | set_buffer buf size => exact ⟨UInt64.zero_le, nofun⟩
  | sputc ch => exact ⟨inside.sputc ch, nofun⟩
  | pbump n => exact ⟨inside.pbump n, nofun⟩
  | overflow ch =>
    refine ⟨?_, nofun⟩
    simp only [perform, overflow]
    split
    · exact inside.sputc _
    · exact inside
  | seekpos pos =>
    simp only [Keeps, perform, seekpos]
    split
    · exact ⟨inside, fun _ => rfl⟩
    · next within =>
      refine ⟨?_, fun failed => absurd (Option.some.inj failed) fits⟩
      obtain ⟨positive, below⟩ := not_or.mp within
      have low : pos.toBitVec.toInt < s.buffer_size_.toBitVec.toInt :=
        Int64.lt_iff_toInt_lt.mp (Int64.not_le.mp below)
      have start : 0 ≤ pos.toBitVec.toInt := Int64.le_iff_toInt_le.mp (Int64.not_lt.mp positive)
      rw [BitVec.toInt_eq_toNat_cond] at low start
      rw [BitVec.toInt_eq_toNat_cond] at low
      change pos.toBitVec.toNat ≤ s.buffer_size_.toBitVec.toNat
      omega
  | seekoff off dir =>
    simp only [Keeps, perform, seekoff]
    split
    · exact ⟨inside, fun _ => rfl⟩
    · split
      · exact ⟨inside, fun _ => rfl⟩
      · next pos there =>
        obtain ⟨below, other⟩ := fits pos there
        refine ⟨below, fun failed => absurd (Option.some.inj failed) ?_⟩
        rw [if_neg (UInt64.not_lt.mpr below)]
        exact other
  | reset => exact ⟨UInt64.zero_le, nofun⟩

/-- As long as no seek goes to position 255 and no `seekoff` leaves the buffer, the put position stays
inside. -/
theorem put_position_kept {calls : List Call} {call : Call}
    (run : Execution.Run step (fun s call => call.Fits s) {} calls s) (fits : call.Fits s) :
    s.Inside ∧ s.Keeps call := by
  have inside : s.Inside := by
    refine run.invariant (fun inside fits taken => ?_) UInt64.zero_le
    cases taken
    exact (inside.keeps fits).1
  exact ⟨inside, inside.keeps fits⟩

theorem put_position_kept_cur : (set_buffer (some fun _ => 0) 4).Keeps (.seekoff 3 .cur) := by
  have run : Execution.Run step (fun s call => call.Fits s) {} [.set_buffer (some fun _ => 0) 4]
      (set_buffer (some fun _ => 0) 4) := .single trivial rfl
  have fits : (Call.seekoff 3 .cur).Fits (set_buffer (some fun _ => 0) 4) := by
    rintro _ ⟨⟩
    decide
  exact (put_position_kept run fits).2

/-- A seek past the end leaves the position outside; one to position 255 looks like a failure. -/
theorem seeks_leave_or_look_failed :
    ((set_buffer (some fun _ => 0) 4).seekoff 5 .beg).2 = eof.toInt64 ∧
    ((set_buffer (some fun _ => 0) 4).seekoff 5 .beg).1.buffer_pos_ = 5 ∧
    ¬(set_buffer (some fun _ => 0) 4).Keeps (.seekoff 5 .beg) ∧
    ¬(set_buffer (some fun _ => 0) 256).Keeps (.seekpos 255) := by
  refine ⟨by decide, by decide, fun keeps => ?_, fun keeps => ?_⟩
  · exact absurd keeps.1 (by unfold Inside; decide)
  · exact absurd (keeps.2 (by decide)) (by decide)

end Streambuf
end OsCpp.Ulibc
