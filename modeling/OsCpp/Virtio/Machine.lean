import OsCpp.Layout
import OsCpp.Lib.Execution
import OsCpp.Lib.Ring

/-!
# The virtio disk driver

`kernel/virtio_disk.cpp` with any number of processes in `disk_rw`, the interrupt handler, and the
device.  What a process does between `vdisk_lock.acquire` and the next `sleep` or `release` is one
step; the handler's loop is one step per completed request, so that the device can go on meanwhile.
The device takes requests from the avail ring in order and completes them in any order, each one
once and with status 0.
-/

namespace OsCpp.Virtio

open Function (update)

/-- Number of descriptors. -/
def NUM : Nat := 8

def VRING_DESC_F_NEXT : UInt16 := 1

def VRING_DESC_F_WRITE : UInt16 := 2

def VIRTIO_BLK_T_IN : UInt32 := 0

def VIRTIO_BLK_T_OUT : UInt32 := 1

/-- A buffer of the buffer cache. -/
abbrev Buf := Nat

/-- What a descriptor can point to. -/
inductive Address
  | null
  /-- `&disk.ops[i]`. -/
  | request (i : Nat)
  | data (b : Buf)
  | status (i : Nat)
  deriving DecidableEq

/-- `virtq_desc`. -/
structure Desc where
  addr : Address := .null
  len : UInt32 := 0
  flags : UInt16 := 0
  next : Nat := 0
  deriving DecidableEq

/-- `virtio_blk_req`. -/
structure BlkReq where
  type : UInt32 := 0
  reserved : UInt32 := 0
  sector : UInt64 := 0

/-- An entry of `disk.info`. -/
structure Info where
  b : Option Buf := none
  status : UInt8 := 0

/-- The memory shared by the driver and the device. -/
structure Disk where
  desc : Nat → Desc := fun _ => {}
  free : Nat → Bool := fun _ => true
  ops : Nat → BlkReq := fun _ => {}
  info : Nat → Info := fun _ => {}
  availIdx : UInt16 := 0
  availRing : Nat → Nat := fun _ => 0
  usedIdx : UInt16 := 0
  usedRing : Nat → Nat := fun _ => 0
  /-- `disk.used_idx`, how far the driver has looked into the used ring. -/
  used_idx : UInt16 := 0

/-- Why the kernel stops. -/
inductive Fault
  | panic (message : String)
  | null
  | diverges
  deriving DecidableEq

/-- `idx[0..3]` of a request. -/
structure Chain where
  head : Nat
  data : Nat
  status : Nat
  deriving DecidableEq

def Chain.members (chain : Chain) : List Nat := [chain.head, chain.data, chain.status]

namespace Disk

def alloc_desc (d : Disk) : Option (Nat × Disk) :=
  match (List.range NUM).find? d.free with
  | some i => some (i, { d with free := update d.free i false })
  | none => none

def free_desc (d : Disk) (i : Nat) : Except Fault Disk :=
  if NUM ≤ i then .error (.panic "free_desc: 1")
  else if d.free i then .error (.panic "free_desc: 2")
  else .ok { d with
    desc := update d.desc i {}
    free := update d.free i true }

/-- `alloc3_desc`, with its loop unrolled. -/
def alloc3_desc (d : Disk) : Except Fault (Disk × Option Chain) :=
  match d.alloc_desc with
  | none => .ok (d, none)
  | some (head, d) =>
    match d.alloc_desc with
    | none =>
      match d.free_desc head with
      | .error fault => .error fault
      | .ok d => .ok (d, none)
    | some (data, d) =>
      match d.alloc_desc with
      | none =>
        match d.free_desc head with
        | .error fault => .error fault
        | .ok d =>
          match d.free_desc data with
          | .error fault => .error fault
          | .ok d => .ok (d, none)
      | some (status, d) => .ok (d, some ⟨head, data, status⟩)

/-- The loop of `free_chain`. -/
def freeChainFrom : Nat → Disk → Nat → Except Fault Disk
  | 0, _, _ => .error .diverges
  | fuel + 1, d, i =>
    let flag := (d.desc i).flags
    let nxt := (d.desc i).next
    match d.free_desc i with
    | .error fault => .error fault
    | .ok d => if flag &&& VRING_DESC_F_NEXT ≠ 0 then freeChainFrom fuel d nxt else .ok d

/-- `free_chain`.  A descriptor met a second time is free, and `free_desc` panics. -/
def free_chain (d : Disk) (i : Nat) : Except Fault Disk := freeChainFrom (NUM + 1) d i

/-- `disk.info[i].b = 0`. -/
def forget (d : Disk) (i : Nat) : Disk :=
  { d with info := update d.info i { d.info i with b := none } }

/-- The part of `disk_rw` that fills in a request and makes it available. -/
def submit (d : Disk) (chain : Chain) (b : Buf) (blockno : UInt32) (write : Bool) : Disk :=
  { d with
    ops := update d.ops chain.head
      { type := if write then VIRTIO_BLK_T_OUT else VIRTIO_BLK_T_IN
        reserved := 0
        sector := (blockno * (1024 / 512)).toUInt64 }
    desc :=
      update
        (update
          (update d.desc chain.head ⟨.request chain.head, 16, VRING_DESC_F_NEXT, chain.data⟩)
          chain.data
          ⟨.data b, 1024, (if write then 0 else VRING_DESC_F_WRITE) ||| VRING_DESC_F_NEXT,
            chain.status⟩) chain.status ⟨.status chain.head, 1, VRING_DESC_F_WRITE, 0⟩
    info := update d.info chain.head ⟨some b, 0xff⟩
    availRing := update d.availRing (d.availIdx.toNat % NUM) chain.head
    availIdx := d.availIdx + 1 }

end Disk

/-- A request a process has submitted, with a number of its own. -/
structure Job where
  buf : Buf
  chain : Chain
  ticket : Nat
  deriving DecidableEq

/-- Where a process is in `disk_rw`. -/
inductive Phase
  | idle
  /-- Waits for `vdisk_lock` to allocate descriptors. -/
  | starting (b : Buf) (blockno : UInt32) (write : Bool)
  /-- Sleeps on `&disk.free[0]`. -/
  | starved (b : Buf) (blockno : UInt32) (write : Bool)
  | waiting (job : Job)
  /-- Waits for `vdisk_lock` to look at `b->disk`. -/
  | woken (job : Job)
  deriving DecidableEq

/-- The request a process has in flight. -/
def Phase.job : Phase → Option Job
  | .waiting job | .woken job => some job
  | _ => none

/-- A process made runnable. -/
def Phase.wake : Phase → Phase
  | .starved b blockno write => .starting b blockno write
  | .waiting job => .woken job
  | phase => phase

/-- A request the device has read. -/
structure Request where
  head : Nat
  header : Address
  data : Address
  status : Address
  ticket : Nat

/-- Driver, processes and device, with the history of the requests. -/
structure State where
  disk : Disk := {}
  /-- `b->disk`. -/
  pending : Buf → Bool := fun _ => false
  /-- Owner of the sleep-lock of a buffer while it is in `disk_rw`. -/
  owner : Buf → Option Pid := fun _ => none
  phase : Pid → Phase := fun _ => .idle
  /-- `vdisk_lock` is held by the interrupt handler. -/
  handling : Bool := false
  /-- How far the device has looked into the avail ring. -/
  lastAvail : UInt16 := 0
  working : List Request := []
  /-- Number of requests made, and the number of the last one on each head. -/
  tickets : Nat := 0
  ticketOf : Nat → Nat := fun _ => 0
  /-- Heads put into the avail ring, and heads read from it by the device. -/
  published : List Nat := []
  consumed : List Nat := []
  /-- Requests completed by the device, and requests whose `disk_rw` has returned. -/
  completed : List Nat := []
  returned : List Nat := []
  fault : Option Fault := none

/-- The driver after `init`. -/
def init : State := {}

namespace State

/-- `disk_rw` from the end of its first loop until it sleeps on its buffer. -/
def request (s : State) (p : Pid) (b : Buf) (blockno : UInt32) (write : Bool) (d : Disk)
    (chain : Chain) : State :=
  { s with
    disk := d.submit chain b blockno write
    pending := update s.pending b true
    phase := update s.phase p (.waiting ⟨b, chain, s.tickets⟩)
    tickets := s.tickets + 1
    ticketOf := update s.ticketOf chain.head s.tickets
    published := s.published ++ [chain.head] }

/-- `disk_rw` at the loop that allocates descriptors. -/
def attempt (s : State) (p : Pid) (b : Buf) (blockno : UInt32) (write : Bool) : State :=
  match s.disk.alloc3_desc with
  | .error fault => { s with fault := some fault }
  | .ok (d, none) =>
    { s with disk := d, phase := update s.phase p (.starved b blockno write) }
  | .ok (d, some chain) => s.request p b blockno write d chain

/-- The end of `disk_rw`, with the descriptors given back. -/
def release (s : State) (p : Pid) (job : Job) (d : Disk) : State :=
  { s with
    disk := d
    owner := update s.owner job.buf none
    phase := update s.phase p .idle
    returned := s.returned ++ [job.ticket] }

/-- `disk_rw` at the loop that waits for the device. -/
def finish (s : State) (p : Pid) (job : Job) : State :=
  if s.pending job.buf then { s with phase := update s.phase p (.waiting job) }
  else
    match (s.disk.forget job.chain.head).free_chain job.chain.head with
    | .error fault => { s with fault := some fault }
    | .ok d => s.release p job d

/-- `proc::wakeup` of the processes that sleep on a buffer. -/
def wakeup (s : State) (b : Buf) : State :=
  { s with phase := fun p =>
      match s.phase p with
      | .waiting job => if job.buf = b then .woken job else .waiting job
      | phase => phase }

/-- One iteration of the loop of `virtio_disk_intr`. -/
def reap (s : State) : State :=
  if s.disk.used_idx = s.disk.usedIdx then { s with handling := false }
  else
    let id := s.disk.usedRing (s.disk.used_idx.toNat % NUM)
    if (s.disk.info id).status ≠ 0 then
      { s with fault := some (.panic "virtio_disk_intr status") }
    else
      match (s.disk.info id).b with
      | none => { s with fault := some .null }
      | some b =>
        { s.wakeup b with
          pending := update s.pending b false
          disk := { s.disk with used_idx := s.disk.used_idx + 1 } }

/-- The device reads the next request from the avail ring. -/
def consume (s : State) : State :=
  let head := s.disk.availRing (s.lastAvail.toNat % NUM)
  let first := s.disk.desc head
  let second := s.disk.desc first.next
  let third := s.disk.desc second.next
  { s with
    lastAvail := s.lastAvail + 1
    working := s.working ++ [⟨head, first.addr, second.addr, third.addr, s.ticketOf head⟩]
    consumed := s.consumed ++ [head] }

/-- Store the status 0 where a request asks for it. -/
def storeStatus (info : Nat → Info) : Address → Nat → Info
  | .status i => update info i { info i with status := 0 }
  | _ => info

def complete (s : State) (request : Request) (rest : List Request) : State :=
  { s with
    disk := { s.disk with
      info := storeStatus s.disk.info request.status
      usedRing := update s.disk.usedRing (s.disk.usedIdx.toNat % NUM) request.head
      usedIdx := s.disk.usedIdx + 1 }
    working := rest
    completed := s.completed ++ [request.ticket] }

end State

inductive Event
  /-- A process that has locked a buffer calls `disk_rw`. -/
  | disk_rw (p : Pid) (b : Buf) (blockno : UInt32) (write : Bool)
  /-- A process in `disk_rw` gets `vdisk_lock` and runs until it gives it up. -/
  | run (p : Pid)
  | virtio_disk_intr
  | reap
  | consume
  | complete (k : Nat)
  | kill (p : Pid)

/-- One step of the system.  The sleep-lock of a buffer admits one process to `disk_rw`. -/
def step (s : State) (event : Event) : Option State :=
  if s.fault ≠ none then none
  else
    match event with
    | .disk_rw p b blockno write =>
      if s.phase p = .idle ∧ s.owner b = none then
        some { s with
          phase := update s.phase p (.starting b blockno write)
          owner := update s.owner b (some p) }
      else none
    | .run p =>
      if s.handling then none
      else
        match s.phase p with
        | .starting b blockno write => some (s.attempt p b blockno write)
        | .woken job => some (s.finish p job)
        | _ => none
    | .virtio_disk_intr => if s.handling then none else some { s with handling := true }
    | .reap => if s.handling then some s.reap else none
    | .consume => if s.lastAvail = s.disk.availIdx then none else some s.consume
    | .complete k =>
      match s.working[k]? with
      | some request => some (s.complete request (s.working.eraseIdx k))
      | none => none
    | .kill p => some { s with phase := update s.phase p (s.phase p).wake }

end OsCpp.Virtio
