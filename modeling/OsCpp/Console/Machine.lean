import OsCpp.Lib.Monitor
import OsCpp.Lib.Ring

/-!
# The console

`console::read` and `console::intr` of `kernel/console.cpp`, run by any number of readers and
interrupt handlers.  `cons.lock` is the lock of a monitor; readers sleep on `&cons.r`.  The buffers
of the readers are mapped, so `either_copyout` stores the byte it is given.
-/

namespace OsCpp.Console

open Monitor (Move)

def INPUT_BUF_SIZE : UInt32 := 128

/-- `'\n'`. -/
def newline : UInt8 := 10

/-- `'\r'`. -/
def carriageReturn : UInt8 := 13

/-- `'\x7f'`. -/
def delete : UInt8 := 127

/-- `C(x)`: the control character of a letter. -/
def ctrl (x : Char) : UInt8 := .ofNat (x.toNat - '@'.toNat)

/-! ## The reference -/

/-- A line editor with a bounded buffer. -/
structure Editor where
  /-- All bytes committed so far. -/
  committed : List UInt8 := []
  taken : Nat := 0
  /-- The line that is being edited. -/
  line : List UInt8 := []

namespace Editor

def queue (ed : Editor) : List UInt8 := ed.committed.drop ed.taken

/-- Append a character to the line, and commit the line if it ends with it or the buffer is full. -/
def append (ed : Editor) (c : UInt8) : Editor :=
  let line := ed.line ++ [c]
  if c = newline ∨ c = ctrl 'D' ∨ ed.queue.length + line.length = 128 then
    { ed with committed := ed.committed ++ line, line := [] }
  else { ed with line := line }

def type (ed : Editor) (c : UInt8) : Editor :=
  if c = ctrl 'U' then { ed with line := [] }
  else if c = ctrl 'H' ∨ c = delete then { ed with line := ed.line.dropLast }
  else if c = 0 ∨ 128 ≤ ed.queue.length + ed.line.length then ed
  else ed.append (if c = carriageReturn then newline else c)

def take (ed : Editor) : Editor := { ed with taken := ed.taken + 1 }

end Editor

/-! ## The code -/

/-- Why a call of `read` has returned. -/
inductive Ending
  | filled
  | newline
  | eof
  | killed
  deriving DecidableEq

/-- `cons`, and what its readers have done. -/
structure Fields where
  buf : Nat → UInt8 := fun _ => 0
  r : UInt32 := 0
  w : UInt32 := 0
  e : UInt32 := 0
  /-- Bytes taken from the ring, in their order. -/
  consumed : List UInt8 := []
  /-- Bytes given to `either_copyout`, in their order. -/
  handed : List UInt8 := []
  /-- Results of the calls of `read`: the bytes they stored and why they returned. -/
  results : List (List UInt8 × Ending) := []
  /-- The reference, which hears the same characters. -/
  ed : Editor := {}

/-- Where a reader or a handler is. -/
inductive Point
  | out
  /-- In `intr` with a character. -/
  | typing (c : UInt8)
  /-- In `intr`, behind `wakeup`. -/
  | typed
  /-- In the loop of `read` for `target` bytes, with the bytes stored so far. -/
  | reading (target : Nat) (bytes : List UInt8)
  deriving DecidableEq

inductive Call
  | intr (c : UInt8)
  | read (n : Nat)
  deriving DecidableEq

namespace Fields

variable (s : Fields)

/-- The loop that kills a line. -/
def killLine : Nat → Fields → Fields
  | 0, s => s
  | fuel + 1, s =>
    if s.e ≠ s.w ∧ s.buf ((s.e - 1) % INPUT_BUF_SIZE).toNat ≠ newline then
      killLine fuel { s with e := s.e - 1 }
    else s

/-- Store a character at the edit index. -/
def store (c : UInt8) : Fields :=
  { s with buf := Function.update s.buf (s.e % INPUT_BUF_SIZE).toNat c, e := s.e + 1 }

/-- Is the character just stored the end of a line, or is the buffer full? -/
def commits (c : UInt8) : Prop := c = newline ∨ c = ctrl 'D' ∨ s.e - s.r = INPUT_BUF_SIZE

instance (c : UInt8) : Decidable (s.commits c) := inferInstanceAs (Decidable (_ ∨ _))

/-- `intr` under `cons.lock`. -/
def intr (c : UInt8) : Move Fields Point :=
  let s := { s with ed := s.ed.type c }
  if c = ctrl 'U' then .leave (killLine INPUT_BUF_SIZE.toNat s) .out
  else if c = ctrl 'H' ∨ c = delete then
    .leave (if s.e ≠ s.w then { s with e := s.e - 1 } else s) .out
  else if c ≠ 0 ∧ s.e - s.r < INPUT_BUF_SIZE then
    let c := if c = carriageReturn then newline else c
    let stored := s.store c
    if stored.commits c then .wake { stored with w := stored.e } .typed else .leave stored .out
  else .leave s .out

/-- A call of `read` returns. -/
def finish (bytes : List UInt8) (ending : Ending) : Move Fields Point :=
  .leave { s with results := s.results ++ [(bytes, ending)] } .out

/-- One iteration of the loop of `read` under `cons.lock`. -/
def read (killed : Bool) (target : Nat) (bytes : List UInt8) : Move Fields Point :=
  if bytes.length < target then
    if s.r = s.w then
      if killed then s.finish bytes .killed else .sleep (.reading target bytes)
    else
      let c := s.buf (s.r % INPUT_BUF_SIZE).toNat
      let taken := { s with r := s.r + 1, consumed := s.consumed ++ [c], ed := s.ed.take }
      if c = ctrl 'D' then
        -- The character is saved for the next call if some bytes have been stored.
        (if bytes.length ≠ 0 then
          { taken with r := taken.r - 1, consumed := s.consumed, ed := s.ed }
        else taken).finish bytes .eof
      else
        let stored := { taken with handed := s.handed ++ [c] }
        if c = newline then stored.finish (bytes ++ [c]) .newline
        else .go stored (.reading target (bytes ++ [c]))
  else s.finish bytes .filled

end Fields

/-- What is done with `cons.lock`. -/
def body (killed : Bool) (s : Fields) : Point → Option (Move Fields Point)
  | .typing c => some (s.intr c)
  | .typed => some (.leave s .out)
  | .reading target bytes => some (s.read killed target bytes)
  | .out => none

def begins : Call → Point → Option Point
  | .intr c, .out => some (.typing c)
  | .read n, .out => some (.reading n [])
  | _, _ => none

/-- Points at which `cons.lock` is taken. -/
def enters : Point → Bool
  | .typing _ | .reading _ _ => true
  | _ => false

variable {Pid : Type}

/-- The console among readers and handlers. -/
def code (procs : List Pid) (complete : ∀ p, p ∈ procs) : Monitor.Code Pid Fields Point Call where
  procs := procs
  complete := complete
  outer := fun _ call point s => (begins call point).map fun next => (s, next)
  enters := enters
  move := fun _ killed _ point s => body killed s point

/-- A console nothing has been typed at. -/
def init : Monitor.State Pid Fields Point := Monitor.start {} .out

end OsCpp.Console
