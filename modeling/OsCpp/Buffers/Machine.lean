import OsCpp.Layout
import OsCpp.Lib.DList
import OsCpp.Lib.Execution
import Mathlib.Data.List.FinRange

/-!
# The buffer cache with its pointers

`kernel/bio.cpp` as a machine whose events are the critical sections of `bcache.lock`, the acquisition and
release of a buffer's sleep-lock, disk transfers, and stores to a locked buffer.  The list through
`bcache.head` is kept as pointers.  A process that has called `bget` has a reference until `brelse` ends;
a process may have several of them.  Nothing looks into the data of a block, so they are of any type.
-/

namespace OsCpp.Buffers

open Function (update)

/-- A node of the list: `bcache.head` is `none`. -/
abbrev Node := Option (Fin NBUF)

/-- A buffer. The sleep-lock is represented by the reference that holds it. -/
structure Buf (Ref Data : Type) where
  valid : Bool := false
  dev : Nat := 0
  blockno : Nat := 0
  refcnt : Nat := 0
  lock : Option Ref := none
  data : Data

/-- How far `bread` and `brelse` are with a reference. -/
inductive Stage
  /-- `bget` waits for the sleep-lock. -/
  | referenced
  | locked
  /-- `bread` has returned. -/
  | filled
  /-- `brelse` has released the sleep-lock. -/
  | unlocked
  deriving DecidableEq

/-- A reference to a buffer, with the arguments of `bget`. -/
structure Handle where
  buf : Fin NBUF
  dev : Nat
  blockno : Nat
  stage : Stage
  deriving DecidableEq

structure State (Ref Data : Type) where
  buf : Fin NBUF → Buf Ref Data
  /-- `prev` and `next` of the buffers and of the head. -/
  links : DList.Links Node
  disk : Nat → Nat → Data
  handle : Ref → Option Handle
  panicked : Bool := false
  /-- History: calls of `bpin` not taken back by `bupin`. -/
  pins : Fin NBUF → Nat
  /-- History: the block in the buffer was modified after it was read or written. -/
  dirty : Fin NBUF → Bool
  /-- History: what was last placed in a buffer of the block, or was on disk at the start. -/
  latest : Nat → Nat → Data

/-- `bio::init`: every buffer is put behind the head. -/
def initLinks : DList.Links Node :=
  (List.finRange NBUF).foldl (fun links b => links.push none (some b)) ⟨fun _ => none, fun _ => none⟩

inductive Event (Ref Data : Type)
  | bget (r : Ref) (dev blockno : Nat)
  | acquire (r : Ref)
  | fill (r : Ref)
  | modify (r : Ref) (data : Data)
  | bwrite (r : Ref)
  | bpin (b : Fin NBUF)
  | bupin (b : Fin NBUF)
  | release (r : Ref)
  | put (r : Ref)

variable {Ref Data : Type} [DecidableEq Ref]

/-- The state after `bio::init`. -/
def init (blank : Data) (disk : Nat → Nat → Data) : State Ref Data where
  buf := fun _ => { data := blank }
  links := initLinks
  disk := disk
  handle := fun _ => none
  pins := fun _ => 0
  dirty := fun _ => false
  latest := disk

namespace State

def setBuf (s : State Ref Data) (b : Fin NBUF) (buf : Buf Ref Data) : State Ref Data :=
  { s with buf := update s.buf b buf }

def setHandle (s : State Ref Data) (r : Ref) (handle : Option Handle) : State Ref Data :=
  { s with handle := update s.handle r handle }

/-- A loop of `bget`: the first buffer that passes a test. There is no result if the loop does not end. -/
def search (s : State Ref Data) (test : Buf Ref Data → Bool) : Option (Option (Fin NBUF)) :=
  (s.links.find none (fun node => node.elim false fun b => test (s.buf b)) (NBUF + 1)
    (s.links.next none)).map Option.join

/-- `refcnt` is an unsigned 32-bit number. -/
def increment (refcnt : Nat) : Nat := (refcnt + 1) % 2 ^ 32

def decrement (refcnt : Nat) : Nat := (refcnt + (2 ^ 32 - 1)) % 2 ^ 32

/-- The critical section of `bget`. -/
def bget (s : State Ref Data) (r : Ref) (dev blockno : Nat) : Option (State Ref Data) :=
  match s.search fun buf => buf.dev = dev ∧ buf.blockno = blockno with
  | none => none
  | some (some b) =>
    some ((s.setBuf b { s.buf b with refcnt := increment (s.buf b).refcnt }).setHandle r
      (some ⟨b, dev, blockno, .referenced⟩))
  | some none =>
    match s.search fun buf => buf.refcnt = 0 with
    | none => none
    | some none => some { s with panicked := true }
    | some (some b) =>
      let s := s.setBuf b { s.buf b with dev := dev, blockno := blockno, valid := false, refcnt := 1 }
      some ({ s with dirty := update s.dirty b false }.setHandle r
        (some ⟨b, dev, blockno, .referenced⟩))

/-- `bread` reads a block that is not there yet. -/
def fill (s : State Ref Data) (r : Ref) (h : Handle) : State Ref Data :=
  let buf := s.buf h.buf
  let s := if buf.valid then s
    else s.setBuf h.buf { buf with data := s.disk buf.dev buf.blockno, valid := true }
  s.setHandle r (some { h with stage := .filled })

/-- A block of a disk is replaced. -/
def store (disk : Nat → Nat → Data) (dev blockno : Nat) (data : Data) : Nat → Nat → Data :=
  update disk dev (update (disk dev) blockno data)

def modify (s : State Ref Data) (b : Fin NBUF) (data : Data) : State Ref Data :=
  { s.setBuf b { s.buf b with data := data } with
    dirty := update s.dirty b true
    latest := store s.latest (s.buf b).dev (s.buf b).blockno data }

def bwrite (s : State Ref Data) (b : Fin NBUF) : State Ref Data :=
  { s with
    disk := store s.disk (s.buf b).dev (s.buf b).blockno (s.buf b).data
    dirty := update s.dirty b false }

def bpin (s : State Ref Data) (b : Fin NBUF) : State Ref Data :=
  { s.setBuf b { s.buf b with refcnt := increment (s.buf b).refcnt } with
    pins := update s.pins b (s.pins b + 1) }

def bupin (s : State Ref Data) (b : Fin NBUF) : State Ref Data :=
  { s.setBuf b { s.buf b with refcnt := decrement (s.buf b).refcnt } with
    pins := update s.pins b (s.pins b - 1) }

/-- The critical section of `brelse`: a buffer without references moves to the front. -/
def put (s : State Ref Data) (r : Ref) (b : Fin NBUF) : State Ref Data :=
  let s := s.setBuf b { s.buf b with refcnt := decrement (s.buf b).refcnt }
  let s := if (s.buf b).refcnt = 0 then
      { s with links := (s.links.unlink (some b)).push none (some b) }
    else s
  s.setHandle r none

/-- What an event does, if it is possible. -/
def step (s : State Ref Data) (event : Event Ref Data) : Option (State Ref Data) :=
  if s.panicked then none
  else
    match event with
    | .bget r dev blockno => if (s.handle r).isNone then s.bget r dev blockno else none
    | .bpin b => some (s.bpin b)
    | .bupin b => some (s.bupin b)
    | .acquire r =>
      match s.handle r with
      | some ⟨b, dev, blockno, .referenced⟩ =>
        if (s.buf b).lock.isNone then
          some ((s.setBuf b { s.buf b with lock := some r }).setHandle r
            (some ⟨b, dev, blockno, .locked⟩))
        else none
      | _ => none
    | .fill r =>
      match s.handle r with
      | some ⟨b, dev, blockno, .locked⟩ => some (s.fill r ⟨b, dev, blockno, .locked⟩)
      | _ => none
    | .modify r data =>
      match s.handle r with
      | some ⟨b, _, _, .filled⟩ => some (s.modify b data)
      | _ => none
    | .bwrite r =>
      match s.handle r with
      | some ⟨b, _, _, .filled⟩ => some (s.bwrite b)
      | _ => none
    | .release r =>
      match s.handle r with
      | some ⟨b, dev, blockno, .filled⟩ =>
        some ((s.setBuf b { s.buf b with lock := none }).setHandle r
          (some ⟨b, dev, blockno, .unlocked⟩))
      | _ => none
    | .put r =>
      match s.handle r with
      | some ⟨b, _, _, .unlocked⟩ => some (s.put r b)
      | _ => none

end State

/-- The possible events, one by one. -/
inductive Moves (s : State Ref Data) : Event Ref Data → State Ref Data → Prop
  | hit {r dev blockno b} (idle : s.handle r = none)
      (found : s.search (fun buf => buf.dev = dev ∧ buf.blockno = blockno) = some (some b)) :
      Moves s (.bget r dev blockno)
        ((s.setBuf b { s.buf b with refcnt := State.increment (s.buf b).refcnt }).setHandle r
          (some ⟨b, dev, blockno, .referenced⟩))
  | miss {r dev blockno b} (idle : s.handle r = none)
      (absent : s.search (fun buf => buf.dev = dev ∧ buf.blockno = blockno) = some none)
      (unused : s.search (fun buf => buf.refcnt = 0) = some (some b)) :
      Moves s (.bget r dev blockno)
        (({ s.setBuf b { s.buf b with dev := dev, blockno := blockno, valid := false, refcnt := 1 } with
            dirty := update s.dirty b false }).setHandle r
          (some ⟨b, dev, blockno, .referenced⟩))
  | panic {r dev blockno} : Moves s (.bget r dev blockno) { s with panicked := true }
  | acquire {r b dev blockno} (has : s.handle r = some ⟨b, dev, blockno, .referenced⟩)
      (free : (s.buf b).lock = none) :
      Moves s (.acquire r) ((s.setBuf b { s.buf b with lock := some r }).setHandle r
        (some ⟨b, dev, blockno, .locked⟩))
  | fill {r b dev blockno} (has : s.handle r = some ⟨b, dev, blockno, .locked⟩) :
      Moves s (.fill r) (s.fill r ⟨b, dev, blockno, .locked⟩)
  | modify {r b dev blockno data} (has : s.handle r = some ⟨b, dev, blockno, .filled⟩) :
      Moves s (.modify r data) (s.modify b data)
  | bwrite {r b dev blockno} (has : s.handle r = some ⟨b, dev, blockno, .filled⟩) :
      Moves s (.bwrite r) (s.bwrite b)
  | bpin {b} : Moves s (.bpin b) (s.bpin b)
  | bupin {b} : Moves s (.bupin b) (s.bupin b)
  | release {r b dev blockno} (has : s.handle r = some ⟨b, dev, blockno, .filled⟩) :
      Moves s (.release r) ((s.setBuf b { s.buf b with lock := none }).setHandle r
        (some ⟨b, dev, blockno, .unlocked⟩))
  | put {r b dev blockno} (has : s.handle r = some ⟨b, dev, blockno, .unlocked⟩) :
      Moves s (.put r) (s.put r b)

theorem moves_bget {s s' : State Ref Data} {r : Ref} {dev blockno : Nat} (idle : s.handle r = none)
    (taken : s.bget r dev blockno = some s') : Moves s (.bget r dev blockno) s' := by
  unfold State.bget at taken
  split at taken
  · cases taken
  next found =>
    cases taken
    exact .hit idle found
  next absent =>
    split at taken
    · cases taken
    · cases taken
      exact .panic
    next unused =>
      cases taken
      exact .miss idle absent unused

theorem moves_of_step {s s' : State Ref Data} {event : Event Ref Data} (taken : s.step event = some s') :
    Moves s event s' := by
  unfold State.step at taken
  split at taken
  · cases taken
  · cases event with
    | bget r dev blockno =>
      obtain ⟨idle, taken⟩ := Option.ite_none_right_eq_some.mp taken
      exact moves_bget (Option.isNone_iff_eq_none.mp idle) taken
    | bpin b =>
      cases taken
      exact .bpin
    | bupin b =>
      cases taken
      exact .bupin
    | acquire r =>
      dsimp only at taken
      split at taken
      next has =>
        obtain ⟨free, taken⟩ := Option.ite_none_right_eq_some.mp taken
        cases taken
        exact .acquire has (Option.isNone_iff_eq_none.mp free)
      · cases taken
    | fill r =>
      dsimp only at taken
      split at taken
      next has =>
        cases taken
        exact .fill has
      · cases taken
    | modify r data =>
      dsimp only at taken
      split at taken
      next has =>
        cases taken
        exact .modify has
      · cases taken
    | bwrite r =>
      dsimp only at taken
      split at taken
      next has =>
        cases taken
        exact .bwrite has
      · cases taken
    | release r =>
      dsimp only at taken
      split at taken
      next has =>
        cases taken
        exact .release has
      · cases taken
    | put r =>
      dsimp only at taken
      split at taken
      next has =>
        cases taken
        exact .put has
      · cases taken

end OsCpp.Buffers
