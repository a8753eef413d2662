import OsCpp.Lib.Execution

/-!
# Streams of the C library

Reading and writing through a `FILE` of `ulibc`.  `EOF` is 0 there, so the end of a stream looks like
a NUL byte, and a failed preparation like one that went well.
-/

namespace OsCpp.Ulibc.Stdio

def EOF : Int := 0

/-- An `unsigned char` as an `int`. -/
def byte (c : UInt8) : Int := c.toNat

/-- `FILE`.  A pointer into `buf` is its offset, `none` is null; `mode`, which nothing reads, is
left out. -/
structure FILE where
  F_NORD : Bool := false
  F_NOWR : Bool := false
  F_EOF : Bool := false
  F_ERR : Bool := false
  rpos : Option Nat := none
  rend : Option Nat := none
  wend : Option Nat := none
  wpos : Option Nat := none
  wbase : Option Nat := none
  buf : Nat → UInt8 := fun _ => 0
  buf_size : Nat
  lbf : Int := 0

/-! ## Reading -/

/-- `read(fd, buf, len)` on a descriptor that delivers its bytes in pieces. -/
def read (len : Nat) : List (List UInt8) → List UInt8 × List (List UInt8)
  | [] => ([], [])
  | piece :: pieces =>
    (piece.take len, if piece.length ≤ len then pieces else piece.drop len :: pieces)

/-- `__stdio_read(f, buf, len)`: the buffer it leaves, and what it returns. -/
def stdio_read (f : FILE) (buf : List UInt8) (pieces : List (List UInt8)) :
    FILE × List UInt8 × Nat × List (List UInt8) :=
  let (bytes, pieces) := read buf.length pieces
  if bytes = [] then ({ f with F_EOF := true }, buf, 0, pieces)
  else
    let filled := bytes ++ buf.drop bytes.length
    if f.buf_size = 0 then
      ({ f with rpos := some 0, rend := some bytes.length }, filled, buf.length, pieces)
    else
      -- The last byte is replaced by one of the stream's own buffer, into which nothing was read.
      ({ f with rpos := some 1, rend := some bytes.length },
        filled.set (buf.length - 1) (f.buf 0), buf.length, pieces)

/-- `__toread`.  What `f->write(f, 0, 0)` does to the pointers is undone at once. -/
def toread (f : FILE) : FILE × Int :=
  let f := { f with wpos := none, wbase := none, wend := none }
  if f.F_NORD then ({ f with F_ERR := true }, EOF)
  else
    ({ f with rpos := some f.buf_size, rend := some f.buf_size }, if f.F_EOF then EOF else 0)

/-- `__uflow`. -/
def uflow (f : FILE) (pieces : List (List UInt8)) : FILE × Int × List (List UInt8) :=
  let (f, failed) := toread f
  if failed ≠ 0 then (f, EOF, pieces)
  else
    let (f, c, count, pieces) := stdio_read f [0] pieces
    (f, if count = 1 then byte (c.headD 0) else EOF, pieces)

/-- What the call of `__uflow` after `n` others returns. -/
def uflowAfter : Nat → FILE → List (List UInt8) → Int
  | 0, f, pieces => (uflow f pieces).2.1
  | n + 1, f, pieces => uflowAfter n (uflow f pieces).1 (uflow f pieces).2.2

/-- The loop of `gets`: the bytes it stores before the NUL; `none` when it goes on. -/
def gets : Nat → FILE → List (List UInt8) → Option (List UInt8)
  | 0, _, _ => none
  | fuel + 1, f, pieces =>
    let (f, c, pieces) := uflow f pieces
    if c = EOF ∨ c = 10 ∨ c = 13 then some []
    else (gets fuel f pieces).map (UInt8.ofNat c.toNat :: ·)

/-- The byte that comes back for one of the descriptor. -/
def FILE.answer (f : FILE) (c : UInt8) : UInt8 := if f.buf_size = 0 then c else f.buf 0

/-- The calls return the bytes of the descriptor in order, and then an `EOF` that is none of them. -/
def Reads (f : FILE) (pieces : List (List UInt8)) : Prop :=
  (∀ n, uflowAfter n f pieces = (pieces.flatten.map byte).getD n EOF) ∧
    EOF ∉ pieces.flatten.map byte

/-- Bytes that come back as they are, and do not look like `EOF`. -/
def Clear (f : FILE) (pieces : List (List UInt8)) : Prop :=
  ∀ c ∈ pieces.flatten, f.answer c = c ∧ c ≠ 0

section

variable {f : FILE} {pieces : List (List UInt8)}

theorem byte_inj {c d : UInt8} : byte c = byte d ↔ c = d :=
  ⟨fun same => UInt8.toNat.inj (Int.ofNat.inj same), congrArg byte⟩

section

variable (readable : f.F_NORD = false) (whole : [] ∉ pieces)
include readable whole

/-- One call consumes a byte, if there is one. -/
theorem uflow_spec : ∃ (f' : FILE) (left : List (List UInt8)),
      uflow f pieces = (f', (pieces.flatten.map fun c => byte (f.answer c)).headD EOF, left) ∧
      left.flatten = pieces.flatten.tail ∧ [] ∉ left ∧ f'.F_NORD = false ∧ f'.answer = f.answer := by
  cases pieces with
  | nil =>
    refine ⟨{ (toread f).1 with F_EOF := true }, [], ?_, rfl, whole, ?_, ?_⟩
    · simp [uflow, toread, readable, stdio_read, read, EOF]
    · simp [toread, readable]
    · simp only [toread, readable]
      rfl
  | cons piece pieces =>
    obtain ⟨nonempty, others⟩ := not_or.mp (mt List.mem_cons.mpr whole)
    obtain ⟨c, piece, rfl⟩ := List.exists_cons_of_ne_nil (Ne.symm nonempty)
    refine ⟨{ (toread f).1 with rpos := some (if f.buf_size = 0 then 0 else 1), rend := some 1 },
      if piece = [] then pieces else piece :: pieces, ?_, ?_, ?_, ?_, ?_⟩
    · by_cases unbuffered : f.buf_size = 0
      · simp [uflow, toread, readable, stdio_read, read, EOF, unbuffered, FILE.answer]
      · simp [uflow, toread, readable, stdio_read, read, EOF, unbuffered, FILE.answer]
    · split
      · next empty => simp [empty]
      · simp
    · split
      · exact others
      · next more => simp [others, Ne.symm more]
    · simp [toread, readable]
    · simp only [toread, readable]
      rfl

theorem uflowAfter_eq (n : Nat) :
    uflowAfter n f pieces = (pieces.flatten.map fun c => byte (f.answer c)).getD n EOF := by
  induction n generalizing f pieces with
  | zero =>
    obtain ⟨f', left, called, _⟩ := uflow_spec readable whole
    rw [uflowAfter, called]
    cases pieces.flatten <;> rfl
  | succ n ih =>
    obtain ⟨f', left, called, rest, others, still, same⟩ := uflow_spec readable whole
    rw [uflowAfter, called, ih still others, rest, same]
    cases pieces.flatten <;> rfl

theorem reads_iff : Reads f pieces ↔ Clear f pieces := by
  have end' : EOF ∉ pieces.flatten.map byte ↔ ∀ c ∈ pieces.flatten, c ≠ 0 := by
    simp only [List.mem_map, not_exists, not_and]
    exact forall₂_congr fun c _ => not_congr (byte_inj (d := 0))
  simp only [Reads, uflowAfter_eq readable whole, Clear, end', forall₂_and]
  refine and_congr_left fun _ => ⟨fun same c member => ?_, fun same n => ?_⟩
  · obtain ⟨n, below, rfl⟩ := List.mem_iff_getElem.mp member
    have here := same n
    simp only [List.getD_eq_getElem?_getD, List.getElem?_map, List.getElem?_eq_getElem below] at here
    exact byte_inj.mp here
  · rw [List.map_congr_left fun c member => congrArg byte (same c member)]

theorem gets_eq (clear : Clear f pieces)
    {fuel : Nat} (enough : pieces.flatten.length < fuel) :
    gets fuel f pieces = some (pieces.flatten.takeWhile fun c => c ≠ 10 ∧ c ≠ 13) := by
  induction fuel generalizing f pieces with
  | zero => cases enough
  | succ fuel ih =>
    obtain ⟨f', left, called, rest, others, still, same⟩ := uflow_spec readable whole
    have later := @ih f' left still others
    simp only [gets, called]
    simp only [Clear, rest, same] at later
    rw [Clear] at clear
    cases stream : pieces.flatten with
    | nil => rfl
    | cons c bytes =>
      rw [stream] at later clear enough
      obtain ⟨⟨answer, some⟩, clear⟩ := List.forall_mem_cons.mp clear
      have ends : (byte c = EOF ∨ byte c = 10 ∨ byte c = 13) ↔ ¬(c ≠ 10 ∧ c ≠ 13) := by
        have zero : byte c = EOF ↔ c = 0 := byte_inj (d := 0)
        have newline : byte c = 10 ↔ c = 10 := byte_inj (d := 10)
        have carriage : byte c = 13 ↔ c = 13 := byte_inj (d := 13)
        rw [zero, newline, carriage, or_iff_right some, not_and_or, not_not, not_not]
      rw [List.map_cons, List.headD_cons, answer, List.takeWhile_cons]
      simp only [ends]
      split
      · next stops => rw [if_neg (by simpa using stops)]
      · next goes =>
        rw [later clear (Nat.lt_of_succ_lt_succ enough), if_pos (by simpa using goes)]
        simp [byte]

end

/-- A stream returns what its descriptor delivers iff no byte is a NUL and none is replaced. -/
theorem reads_iff_clear (readable : f.F_NORD = false) (whole : [] ∉ pieces) :
    (Reads f pieces ↔ Clear f pieces) ∧ (Clear f pieces → ∀ fuel, pieces.flatten.length < fuel →
      gets fuel f pieces = some (pieces.flatten.takeWhile fun c => c ≠ 10 ∧ c ≠ 13)) :=
  ⟨reads_iff readable whole, fun clear _ enough => gets_eq readable whole clear enough⟩

end

theorem reads_unbuffered : Reads { buf_size := 0 } [[104], [105, 10]] ∧
    gets 4 { buf_size := 0 } [[104], [105, 10]] = some [104, 105] := by
  have clear : Clear { buf_size := 0 } [[104], [105, 10]] := by
    simp [Clear, FILE.answer]
  have both := reads_iff_clear (f := { buf_size := 0 }) rfl (show [] ∉ [[104], [105, 10]] by decide)
  exact ⟨both.1.mpr clear, both.2 clear 4 (by decide)⟩

/-- `stdin`, whose buffer holds zeros. -/
def stdin : FILE := { F_NOWR := true, buf_size := 1024 }

/-- From `stdin` every byte comes back as a zero, and so as `EOF`. -/
theorem stdin_ends_at_once : uflowAfter 0 stdin [[104, 10]] = EOF ∧ ¬Reads stdin [[104, 10]] ∧
    gets 3 stdin [[104, 10]] = some [] := by
  refine ⟨by decide, fun reads => ?_, by decide⟩
  exact absurd (reads.1 0) (by decide)

/-! ## Writing -/

/-- A stream, with the bytes its descriptor has received. -/
structure Stream where
  file : FILE
  written : List UInt8 := []

/-- `__stdio_write`.  The system call fails or writes some bytes from the first on. -/
def stdio_write (s : Stream) (bytes : List UInt8) (answer : Option Nat) : Stream × Nat :=
  let s := { s with written := s.written ++ bytes.take (answer.getD 0) }
  let cnt := answer.elim (UInt64.size - 1) (min · bytes.length)
  if cnt = bytes.length then
    ({ s with file := { s.file with wend := some s.file.buf_size, wpos := some 0, wbase := some 0 } },
      bytes.length)
  else if cnt < 0 then
    ({ s with file := { s.file with wend := none, wpos := none, wbase := none, F_ERR := true } }, 0)
  else (s, bytes.length)

/-- `__towrite`. -/
def towrite (f : FILE) : FILE × Int :=
  if f.F_NOWR then ({ f with F_ERR := true }, EOF)
  else
    ({ f with
        rpos := none
        rend := none
        wpos := some 0
        wbase := some 0
        wend := some f.buf_size }, 0)

/-- `!f->wend && __towrite(f)`. -/
def prepare (s : Stream) : Stream × Int :=
  if s.file.wend.isNone then ({ s with file := (towrite s.file).1 }, (towrite s.file).2) else (s, 0)

/-- `__fwritex`. -/
def fwritex (s : Stream) (bytes : List UInt8) (answer : Option Nat) : Stream × Nat :=
  if (prepare s).2 ≠ 0 then ((prepare s).1, 0) else stdio_write (prepare s).1 bytes answer

def fwrite (s : Stream) (src : List UInt8) (size nmemb : Nat) (answer : Option Nat) : Stream × Nat :=
  let l := size * nmemb % UInt64.size
  let nmemb := if size = 0 then 0 else nmemb
  let (s, k) := fwritex s (src.take l) answer
  (s, if k = l then nmemb else k / size)

def fputs (s : Stream) (str : List UInt8) (answer : Option Nat) : Stream × Int :=
  let (s, count) := fwrite s str 1 str.length answer
  (s, (if count = str.length then 1 else 0) - 1)

/-- `*f->wpos++ = c`. -/
def FILE.store (f : FILE) (c : UInt8) : FILE :=
  { f with buf := Function.update f.buf (f.wpos.getD 0) c, wpos := f.wpos.map (· + 1) }

/-- `__overflow`. -/
def overflow (s : Stream) (c : UInt8) (answer : Option Nat) : Stream × Int :=
  let (s, failed) := prepare s
  if failed ≠ 0 then (s, EOF)
  else if s.file.wpos ≠ s.file.wend ∧ byte c ≠ s.file.lbf then
    ({ s with file := s.file.store c }, byte c)
  else
    let (s, count) := stdio_write s [c] answer
    (s, if count ≠ 1 then EOF else byte c)

def putc_unlocked (s : Stream) (c : UInt8) (answer : Option Nat) : Stream × Int :=
  if byte c ≠ s.file.lbf ∧ s.file.wpos ≠ s.file.wend then
    ({ s with file := s.file.store c }, byte c)
  else overflow s c answer

/-- `puts`, on any stream. -/
def puts (s : Stream) (str : List UInt8) (answer newline : Option Nat) : Stream × Int :=
  let (s, result) := fputs s str answer
  if result < 0 then (s, -1)
  else
    let (s, c) := putc_unlocked s 10 newline
    (s, if c < 0 then -1 else 0)

/-- A call, with the answers of the system call. -/
inductive Call
  | fwrite (src : List UInt8) (size nmemb : Nat) (answer : Option Nat)
  | fputs (str : List UInt8) (answer : Option Nat)
  | puts (str : List UInt8) (answer newline : Option Nat)
  | putc_unlocked (c : UInt8) (answer : Option Nat)

def perform (s : Stream) : Call → Stream × Int
  | .fwrite src size nmemb answer =>
    let (s, count) := fwrite s src size nmemb answer
    (s, count)
  | .fputs str answer => fputs s str answer
  | .puts str answer newline => puts s str answer newline
  | .putc_unlocked c answer => putc_unlocked s c answer

def step (s : Stream) (call : Call) : Option Stream := some (perform s call).1

/-- What a call is to write. -/
def Call.bytes : Call → List UInt8
  | .fwrite src .. => src
  | .fputs str _ => str
  | .puts str .. => str ++ [10]
  | .putc_unlocked c _ => [c]

/-- What a call returns when it has written everything. -/
def Call.success : Call → Int
  | .fwrite _ size nmemb _ => (if size = 0 then 0 else nmemb : Nat)
  | .fputs .. | .puts .. => 0
  | .putc_unlocked c _ => byte c

/-- The system call writes everything, and no character stays in the buffer. -/
def Call.Fits (s : Stream) : Call → Prop
  | .fwrite src size nmemb answer => src.length = size * nmemb ∧ size * nmemb < UInt64.size ∧
      answer = some src.length
  | .fputs str answer => str.length < UInt64.size ∧ answer = some str.length
  | .puts str answer newline => str.length < UInt64.size ∧ answer = some str.length ∧
      newline = some 1 ∧ (s.file.lbf = 10 ∨ s.file.buf_size = 0)
  | .putc_unlocked c answer => answer = some 1 ∧ (s.file.lbf = byte c ∨ s.file.buf_size = 0)

/-- All bytes of the call are written, it says so, and no error is noted. -/
def Reported (s : Stream) (call : Call) : Prop :=
  (perform s call).1.written = s.written ++ call.bytes ∧ (perform s call).2 = call.success ∧
    (perform s call).1.file.F_ERR = s.file.F_ERR

/-- A writable stream whose buffer is empty. -/
structure Empty (s : Stream) : Prop where
  writable : s.file.F_NOWR = false
  start : s.file.wend = none ∧ s.file.wpos = none ∨
    s.file.wend = some s.file.buf_size ∧ s.file.wpos = some 0

/-- What an operation that writes everything leaves. -/
structure Wrote (s : Stream) (bytes : List UInt8) (t : Stream) : Prop where
  empty : Empty t
  written : t.written = s.written ++ bytes
  err : t.file.F_ERR = s.file.F_ERR
  same : t.file.lbf = s.file.lbf ∧ t.file.buf_size = s.file.buf_size

section

variable {s t : Stream} {bytes more : List UInt8}

theorem Wrote.trans {u : Stream} (first : Wrote s bytes t) (second : Wrote t more u) :
    Wrote s (bytes ++ more) u where
  empty := second.empty
  written := by rw [second.written, first.written, List.append_assoc]
  err := second.err.trans first.err
  same := ⟨second.same.1.trans first.same.1, second.same.2.trans first.same.2⟩

section

variable (empty : Empty s)
include empty

theorem Empty.prepare : ∃ t, prepare s = (t, 0) ∧ Wrote s [] t ∧
    t.file.wend = some s.file.buf_size ∧ t.file.wpos = some 0 := by
  obtain ⟨writable, ⟨ended, _⟩ | ⟨ended, start⟩⟩ := empty
  · refine ⟨_, by simp [Stdio.prepare, ended, towrite, writable]; rfl, ?_, rfl, rfl⟩
    exact ⟨⟨rfl, .inr ⟨rfl, rfl⟩⟩, (List.append_nil _).symm, rfl, rfl, rfl⟩
  · refine ⟨s, by simp [Stdio.prepare, ended], ?_, ended, start⟩
    exact ⟨⟨writable, .inr ⟨ended, start⟩⟩, (List.append_nil _).symm, rfl, rfl, rfl⟩

theorem Empty.stdio_write (bytes : List UInt8) :
    ∃ t, stdio_write s bytes (some bytes.length) = (t, bytes.length) ∧ Wrote s bytes t := by
  refine ⟨_, if_pos (Nat.min_self _), ⟨empty.writable, .inr ⟨rfl, rfl⟩⟩, ?_, rfl, rfl, rfl⟩
  simp

theorem Empty.fwritex (bytes : List UInt8) :
    ∃ t, fwritex s bytes (some bytes.length) = (t, bytes.length) ∧ Wrote s bytes t := by
  obtain ⟨t, prepared, ready, _⟩ := empty.prepare
  obtain ⟨u, called, wrote⟩ := ready.empty.stdio_write bytes
  exact ⟨u, by simpa [Stdio.fwritex, prepared] using called, ready.trans wrote⟩

theorem Empty.fwrite {size nmemb : Nat} (sized : bytes.length = size * nmemb)
    (bound : size * nmemb < UInt64.size) : ∃ t,
      fwrite s bytes size nmemb (some bytes.length) = (t, if size = 0 then 0 else nmemb) ∧
      Wrote s bytes t := by
  obtain ⟨t, called, wrote⟩ := empty.fwritex bytes
  refine ⟨t, ?_, wrote⟩
  simp only [Stdio.fwrite, Nat.mod_eq_of_lt bound]
  rw [← sized, List.take_length]
  simp [called]

theorem Empty.fputs (bound : bytes.length < UInt64.size) :
    ∃ t, fputs s bytes (some bytes.length) = (t, 0) ∧ Wrote s bytes t := by
  obtain ⟨t, called, wrote⟩ := empty.fwrite (Nat.one_mul bytes.length).symm (by rwa [Nat.one_mul])
  exact ⟨t, by simp [Stdio.fputs, called], wrote⟩

theorem Empty.putc_unlocked {c : UInt8}
    (direct : s.file.lbf = byte c ∨ s.file.buf_size = 0) :
    ∃ t, putc_unlocked s c (some 1) = (t, byte c) ∧ Wrote s [c] t := by
  obtain ⟨t, prepared, ready, ended, start⟩ := empty.prepare
  obtain ⟨u, called, wrote⟩ := ready.empty.stdio_write [c]
  refine ⟨u, ?_, ready.trans wrote⟩
  have direct' : ¬(t.file.wpos ≠ t.file.wend ∧ byte c ≠ t.file.lbf) := by
    rintro ⟨room, other⟩
    rcases direct with line | none
    · exact other (line.symm.trans ready.same.1.symm)
    · exact room (by rw [start, ended, none])
  have buffered : ¬(byte c ≠ s.file.lbf ∧ s.file.wpos ≠ s.file.wend) := by
    rintro ⟨other, room⟩
    rcases direct with line | none
    · exact other line.symm
    · rcases empty.start with ⟨ended, start⟩ | ⟨ended, start⟩
      · exact room (start.trans ended.symm)
      · exact room (by rw [start, ended, none])
  rw [Stdio.putc_unlocked, if_neg buffered]
  simp only [overflow, prepared, if_neg direct']
  rw [List.length_singleton] at called
  simp [called]

theorem Empty.perform {call : Call} (fits : call.Fits s) :
    ∃ t, perform s call = (t, call.success) ∧ Wrote s call.bytes t := by
  cases call with
  | fwrite src size nmemb answer =>
    obtain ⟨sized, bound, rfl⟩ := fits
    obtain ⟨t, called, wrote⟩ := empty.fwrite sized bound
    exact ⟨t, by simp [Stdio.perform, called, Call.success], wrote⟩
  | fputs str answer =>
    obtain ⟨bound, rfl⟩ := fits
    exact empty.fputs bound
  | puts str answer newline =>
    obtain ⟨bound, rfl, rfl, direct⟩ := fits
    obtain ⟨t, first, wrote⟩ := empty.fputs bound
    rw [← wrote.same.1, ← wrote.same.2] at direct
    obtain ⟨u, second, wrote'⟩ := wrote.empty.putc_unlocked (c := 10) direct
    exact ⟨u, by simp [Stdio.perform, puts, first, second, Call.success, byte], wrote.trans wrote'⟩
  | putc_unlocked c answer =>
    obtain ⟨rfl, direct⟩ := fits
    exact empty.putc_unlocked direct

end

/-- If every system call writes everything and the buffer stays empty, the bytes arrive in order and
are reported. -/
theorem writes_reported {start : Stream} (fresh : Empty start) {calls : List Call} {call : Call}
    (run : Execution.Run step (fun s call => call.Fits s) start calls s) (fits : call.Fits s) :
    s.written = start.written ++ calls.flatMap Call.bytes ∧ Reported s call := by
  have all : Wrote start (calls.flatMap Call.bytes) s := by
    clear fits
    induction run with
    | nil => exact ⟨fresh, (List.append_nil _).symm, rfl, rfl, rfl⟩
    | snoc run fits taken ih =>
      obtain ⟨t, performed, wrote⟩ := ih.empty.perform fits
      cases taken
      rw [performed, List.flatMap_append]
      simpa using ih.trans wrote
  obtain ⟨t, performed, wrote⟩ := all.empty.perform fits
  refine ⟨all.written, ?_⟩
  rw [Reported, performed]
  exact ⟨wrote.written, rfl, wrote.err⟩

end

def stdout : FILE := { F_NORD := true, buf_size := 1024, lbf := 10 }

theorem writes_reported_line :
    Reported (perform ⟨stdout, []⟩ (.fputs [97] (some 1))).1 (.putc_unlocked 10 (some 1)) := by
  have run : Execution.Run step (fun s call => call.Fits s) ⟨stdout, []⟩ [.fputs [97] (some 1)]
      (perform ⟨stdout, []⟩ (.fputs [97] (some 1))).1 := .single ⟨by decide, rfl⟩ rfl
  have fits : (Call.putc_unlocked 10 (some 1)).Fits (perform ⟨stdout, []⟩ (.fputs [97] (some 1))).1 :=
    ⟨rfl, .inl rfl⟩
  exact (writes_reported ⟨rfl, .inl ⟨rfl, rfl⟩⟩ run fits).2

def readOnly : Stream := ⟨{ F_NOWR := true, buf_size := 0 }, []⟩

/-- A failed write is reported as a full one, `F_NOWR` is ignored, and a buffered character is
dropped. -/
theorem writes_misreported :
    ((fwrite ⟨stdout, []⟩ [97] 1 1 none).2 = 1 ∧ (fwrite ⟨stdout, []⟩ [97] 1 1 none).1.written = [] ∧
      (fwrite ⟨stdout, []⟩ [97] 1 1 none).1.file.F_ERR = false ∧ (fputs ⟨stdout, []⟩ [97] none).2 = 0) ∧
    ((fputs readOnly [97] (some 1)).2 = 0 ∧ (fputs readOnly [97] (some 1)).1.written = [97]) ∧
    (fputs (putc_unlocked ⟨stdout, []⟩ 97 (some 1)).1 [98] (some 1)).1.written = [98] := by
  decide

end OsCpp.Ulibc.Stdio
