import OsCpp.Layout
import Mathlib.Data.List.FinRange

/-!
# The buffer cache

Pure part of `kernel/bio.cpp`: the state guarded by `bcache.lock` and the effects of `bget`, `bpin`
and the reference part of `brelse` on it.  The doubly linked list through `bcache.head` is kept as
the list of buffer indices from `head.next` on.
-/

namespace OsCpp.Bio

/-- One buffer. The sleep-lock is represented by its holder. -/
structure Buf where
  valid : Bool := false
  dev : Nat := 0
  blockno : Nat := 0
  refcnt : Nat := 0
  /-- Holder of the buffer's sleep-lock. -/
  lock : Option Pid := none
  data : Block := Bytes.zero BSIZE

/-- The buffers and their order in the list through `bcache.head`. -/
structure Cache where
  buf : Fin NBUF → Buf
  /-- Buffer indices from `head.next` to `head.prev`. -/
  order : List (Fin NBUF)

/-- Result of `bio::init`: every buffer is inserted at the head, so the last one comes first. -/
def init : Cache where
  buf := fun _ => {}
  order := (List.finRange NBUF).reverse

namespace Cache

/-- Replace one buffer. -/
def set (cache : Cache) (index : Fin NBUF) (buf : Buf) : Cache :=
  { cache with buf := Function.update cache.buf index buf }

/-- First loop of `bget`: the buffer that already caches the block. -/
def lookup (cache : Cache) (dev blockno : Nat) : Option (Fin NBUF) :=
  cache.order.find? fun index =>
    (cache.buf index).dev = dev ∧ (cache.buf index).blockno = blockno

/-- Second loop of `bget`: the first buffer nobody refers to. -/
def victim (cache : Cache) : Option (Fin NBUF) :=
  cache.order.find? fun index => (cache.buf index).refcnt = 0

/-- Effect of `bget` up to the release of `bcache.lock`; `none` is the panic `no buffers`. -/
def bget (cache : Cache) (dev blockno : Nat) : Option (Fin NBUF × Cache) :=
  match cache.lookup dev blockno with
  | some index =>
    let buf := cache.buf index
    some (index, cache.set index { buf with refcnt := buf.refcnt + 1 })
  | none =>
    match cache.victim with
    | some index =>
      let buf := cache.buf index
      some (index, cache.set index
        { buf with dev := dev, blockno := blockno, valid := false, refcnt := 1 })
    | none => none

/-- Second half of `brelse`: drop one reference and move an unreferenced buffer to the front. -/
def brelse (cache : Cache) (index : Fin NBUF) : Cache :=
  let buf := cache.buf index
  let dropped := cache.set index { buf with refcnt := buf.refcnt - 1 }
  if buf.refcnt - 1 = 0 then
    { dropped with order := index :: cache.order.erase index }
  else dropped

/-- `bpin`: take one more reference. -/
def bpin (cache : Cache) (index : Fin NBUF) : Cache :=
  cache.set index { cache.buf index with refcnt := (cache.buf index).refcnt + 1 }

@[simp] theorem set_buf_self (cache : Cache) (index : Fin NBUF) (buf : Buf) :
    (cache.set index buf).buf index = buf := by
  simp [set]

@[simp] theorem set_buf_of_ne (cache : Cache) {index other : Fin NBUF} (buf : Buf)
    (different : other ≠ index) : (cache.set index buf).buf other = cache.buf other := by
  simp [set, Function.update_of_ne different]

theorem brelse_buf (cache : Cache) (index place : Fin NBUF) :
    (cache.brelse index).buf place =
      if place = index then { cache.buf place with refcnt := (cache.buf place).refcnt - 1 }
      else cache.buf place := by
  have dropped : (cache.brelse index).buf =
      (cache.set index { cache.buf index with refcnt := (cache.buf index).refcnt - 1 }).buf := by
    simp only [brelse]
    split <;> rfl
  rw [dropped]
  by_cases equal : place = index
  · subst equal
    simp
  · simp [equal]

theorem mem_brelse_order {cache : Cache} {place : Fin NBUF} (index : Fin NBUF)
    (listed : place ∈ cache.order) : place ∈ (cache.brelse index).order := by
  simp only [brelse]
  split
  · by_cases equal : place = index
    · simp [equal]
    · exact .tail _ ((List.mem_erase_of_ne equal).mpr listed)
  · exact listed

end Cache
end OsCpp.Bio
