import OsCpp.Log.Accounting
import OsCpp.Log.Reservation
import OsCpp.Pipe.Stream
import OsCpp.Pipe.Wakeup
import OsCpp.Virtio.Starvation
import OsCpp.Frames.Fork
import OsCpp.Exec.Robustness
import OsCpp.Exec.Stack
import OsCpp.Trap.Bounds
import OsCpp.Fs.Truncation
import OsCpp.Fs.Consistency
import OsCpp.Fs.Offsets
import OsCpp.Fs.Brackets
import OsCpp.Proc.Credentials
import OsCpp.Proc.Handover
import OsCpp.Proc.Numbers
import OsCpp.Sv39.Grow
import OsCpp.Sv39.Fork
import OsCpp.Buffers.Consistency
import OsCpp.Buffers.Recency
import OsCpp.Locks.SleepLock
import OsCpp.Locks.Nesting
import OsCpp.Log.Waiting
import OsCpp.Console.Discipline
import OsCpp.Console.Format
import OsCpp.Dirs.Maps
import OsCpp.Dirs.Agreement
import OsCpp.Dirs.Tree
import OsCpp.ITable.Coherence
import OsCpp.Ulibc.Streambuf
import OsCpp.Fs.Path
import OsCpp.Ulibc.Stdio
import OsCpp.Ulibc.Printf
import OsCpp.Vm.Strings
