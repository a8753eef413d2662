import OsCpp.Lib.Bytes

/-!
# Constants and on-disk layout

The constants of `kernel/include/kernel/fs` and the block type they give rise to.
-/

namespace OsCpp

/-- Bytes in a disk block. -/
def BSIZE : Nat := 1024

/-- Distinct blocks one file-system operation may log. -/
def MAXOPBLOCKS : Nat := 10

/-- Buffers in the buffer cache. -/
def NBUF : Nat := MAXOPBLOCKS * 3

theorem last_lt_NBUF : 29 < NBUF := by decide

/-- Entries of the log header. -/
def LOGSIZE : Nat := MAXOPBLOCKS * 3

/-- Device number of the root file system. -/
def ROOTDEV : Nat := 1

/-- A disk block. -/
abbrev Block := Bytes BSIZE

/-- Identifier of a process. -/
abbrev Pid := Nat

end OsCpp
