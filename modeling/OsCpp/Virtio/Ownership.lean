import OsCpp.Virtio.Descriptors

/-!
# Ownership of descriptors

Every descriptor that is not free belongs to the chain of one process in `disk_rw`, whose head
travels from the avail ring through the device to the used ring.
-/

namespace OsCpp.Virtio

open Disk (mem_freeSet put submit take)
open Function (update update_apply update_of_ne update_self)
open State (request)

/-- The buffer a process is in `disk_rw` with. -/
def Phase.buf : Phase → Option Buf
  | .idle => none
  | .starting b _ _ | .starved b _ _ => some b
  | .waiting job | .woken job => some job.buf

theorem Phase.buf_of_job {phase : Phase} {job : Job} (flying : phase.job = some job) :
    phase.buf = some job.buf := by
  cases phase with
  | waiting other => simp only [Phase.job, Option.some.injEq] at flying; rw [← flying, Phase.buf]
  | woken other => simp only [Phase.job, Option.some.injEq] at flying; rw [← flying, Phase.buf]
  | _ => simp [Phase.job] at flying

@[simp]
theorem Phase.job_wake (phase : Phase) : phase.wake.job = phase.job := by cases phase <;> rfl

@[simp]
theorem Phase.buf_wake (phase : Phase) : phase.wake.buf = phase.buf := by cases phase <;> rfl

theorem Chain.head_mem (chain : Chain) : chain.head ∈ chain.members := .head _

namespace State

/-- The request a process has in flight. -/
def job (s : State) (p : Pid) : Option Job := (s.phase p).job

/-- Heads in the avail ring that the device has not read. -/
def availHeads (s : State) : List Nat :=
  Ring.contents s.disk.availRing NUM (2 ^ 16) s.lastAvail.toNat s.disk.availIdx.toNat

/-- Heads in the used ring that the handler has not read. -/
def usedHeads (s : State) : List Nat :=
  Ring.contents s.disk.usedRing NUM (2 ^ 16) s.disk.used_idx.toNat s.disk.usedIdx.toNat

/-- Heads of the requests the handler has not seen completed. -/
def heads (s : State) : List Nat := s.availHeads ++ (s.working.map Request.head ++ s.usedHeads)

end State

/-- The descriptors in use are those of the chains in flight, each in one of them. -/
structure Owned (s : State) : Prop where
  linked : ∀ p j, s.job p = some j → s.disk.Linked j.chain j.buf
  held : ∀ i < NUM, s.disk.free i = false → ∃ p j, s.job p = some j ∧ i ∈ j.chain.members
  disjoint : ∀ p q j k i, s.job p = some j → s.job q = some k → i ∈ j.chain.members →
    i ∈ k.chain.members → p = q
  info : ∀ p j, s.job p = some j → (s.disk.info j.chain.head).b = some j.buf
  ticket : ∀ p j, s.job p = some j → s.ticketOf j.chain.head = j.ticket
  owner : ∀ p b, (s.phase p).buf = some b → s.owner b = some p

/-- Each request that is pending is in the avail ring, with the device or in the used ring. -/
structure Queued (s : State) : Prop where
  nodup : s.heads.Nodup
  live : ∀ h, h ∈ s.heads ↔ ∃ p j, s.job p = some j ∧ j.chain.head = h ∧ s.pending j.buf = true
  request : ∀ r ∈ s.working, r.status = .status r.head ∧ r.ticket = s.ticketOf r.head
  status : ∀ h ∈ s.usedHeads, (s.disk.info h).status = 0 ∧ s.ticketOf h ∈ s.completed
  finished : ∀ p j, s.job p = some j → s.pending j.buf = false → j.ticket ∈ s.completed
  fifo : s.published = s.consumed ++ s.availHeads
  returned : ∀ ticket ∈ s.returned, ticket ∈ s.completed
  sound : s.fault = none

/-- What the driver guarantees. -/
structure Matched (s : State) : Prop where
  /-- A descriptor is free or belongs to exactly one chain in flight. -/
  descriptor : ∀ i < NUM,
    (s.disk.free i = true ∧ ∀ p j, s.job p = some j → i ∉ j.chain.members) ∨
    (s.disk.free i = false ∧ ∃ p j, s.job p = some j ∧ i ∈ j.chain.members ∧
      ∀ q k, s.job q = some k → i ∈ k.chain.members → q = p)
  chain : ∀ p j, s.job p = some j → j.chain.members.Nodup ∧ ∀ i ∈ j.chain.members, i < NUM
  sound : s.fault = none
  /-- `free_chain` ends and frees its own chain only. -/
  frees : ∀ p j, s.job p = some j → ∃ d, s.disk.free_chain j.chain.head = .ok d ∧
    ∀ i, d.free i = (s.disk.free i || decide (i ∈ j.chain.members))
  /-- What the device has not read of the avail ring is what the driver has published. -/
  avail : s.published = s.consumed ++ s.availHeads ∧ s.availHeads.length ≤ NUM
  returned : ∀ ticket ∈ s.returned, ticket ∈ s.completed

theorem Disk.Linked.congr {d e : Disk} {chain : Chain} {b : Buf} (linked : d.Linked chain b)
    (desc : ∀ i ∈ chain.members, e.desc i = d.desc i)
    (free : ∀ i ∈ chain.members, e.free i = d.free i) : e.Linked chain b := by
  have head := desc chain.head (by simp [Chain.members])
  have data := desc chain.data (by simp [Chain.members])
  have status := desc chain.status (by simp [Chain.members])
  exact ⟨linked.nodup, linked.inside, fun i member => (free i member).trans (linked.taken i member),
    head ▸ linked.head, data ▸ linked.data, status ▸ linked.status⟩

/-- Steps that change neither the chains in flight nor the table of descriptors. -/
theorem Owned.frame {s t : State} (owned : Owned s) (jobs : ∀ p, t.job p = s.job p)
    (bufs : ∀ p, (t.phase p).buf = (s.phase p).buf)
    (desc : ∀ i, s.disk.free i = false → t.disk.desc i = s.disk.desc i)
    (free : t.disk.free = s.disk.free) (info : ∀ i, (t.disk.info i).b = (s.disk.info i).b)
    (ticketOf : t.ticketOf = s.ticketOf) (owner : t.owner = s.owner) : Owned t where
  linked := fun p j flying => by
    have linked := owned.linked p j (jobs p ▸ flying)
    exact linked.congr (fun i member => desc i (linked.taken i member)) (by simp [free])
  held := by simpa only [jobs, free] using owned.held
  disjoint := by simpa only [jobs] using owned.disjoint
  info := by simpa only [jobs, info] using owned.info
  ticket := by simpa only [jobs, ticketOf] using owned.ticket
  owner := by simpa only [bufs, owner] using owned.owner

/-- Steps that change neither the chains in flight nor the way of the requests. -/
theorem Queued.frame {s t : State} (queued : Queued s) (jobs : ∀ p, t.job p = s.job p)
    (pending : t.pending = s.pending) (avail : t.availHeads = s.availHeads)
    (working : t.working = s.working) (used : t.usedHeads = s.usedHeads)
    (info : t.disk.info = s.disk.info) (ticketOf : t.ticketOf = s.ticketOf)
    (completed : t.completed = s.completed) (published : t.published = s.published)
    (consumed : t.consumed = s.consumed) (returned : t.returned = s.returned)
    (sound : t.fault = none) : Queued t where
  nodup := by simpa only [State.heads, avail, working, used] using queued.nodup
  live := by simpa only [State.heads, avail, working, used, jobs, pending] using queued.live
  request := by simpa only [working, ticketOf] using queued.request
  status := by simpa only [used, info, ticketOf, completed] using queued.status
  finished := by simpa only [jobs, pending, completed] using queued.finished
  fifo := by simpa only [published, consumed, avail] using queued.fifo
  returned := by simpa only [returned, completed] using queued.returned
  sound := sound

theorem job_of_update {s t : State} {p : Pid} {phase : Phase}
    (changed : t.phase = update s.phase p phase) (same : phase.job = (s.phase p).job)
    (q : Pid) : t.job q = s.job q := by
  rw [State.job, State.job, changed]
  rcases eq_or_ne q p with rfl | different
  · rw [update_self, same]
  · rw [update_of_ne different]

theorem buf_of_update {s t : State} {p : Pid} {phase : Phase}
    (changed : t.phase = update s.phase p phase) (same : phase.buf = (s.phase p).buf)
    (q : Pid) : (t.phase q).buf = (s.phase q).buf := by
  rw [changed]
  rcases eq_or_ne q p with rfl | different
  · rw [update_self, same]
  · rw [update_of_ne different]

section

variable {s : State}

theorem Owned.eq_of_buf (owned : Owned s) {p q : Pid} {j k : Job} (first : s.job p = some j)
    (second : s.job q = some k) (same : j.buf = k.buf) : p = q := by
  have left := owned.owner p j.buf (Phase.buf_of_job first)
  have right := owned.owner q k.buf (Phase.buf_of_job second)
  rw [same, right] at left
  exact (Option.some.inj left).symm

theorem Owned.eq_of_head (owned : Owned s) {p q : Pid} {j k : Job} (first : s.job p = some j)
    (second : s.job q = some k) (same : j.chain.head = k.chain.head) : p = q :=
  owned.disjoint p q j k j.chain.head first second (Chain.head_mem _) (same ▸ Chain.head_mem _)

/-- A pending head is the head of a chain in flight, and not free. -/
theorem Queued.head_taken (queued : Queued s) (owned : Owned s) {h : Nat} (pending : h ∈ s.heads) :
    h < NUM ∧ s.disk.free h = false := by
  obtain ⟨p, j, flying, rfl, -⟩ := (queued.live h).mp pending
  have linked := owned.linked p j flying
  exact ⟨linked.inside _ (Chain.head_mem _), linked.taken _ (Chain.head_mem _)⟩

/-- There is room for the head of a free descriptor in both rings. -/
theorem Queued.room (queued : Queued s) (owned : Owned s) : s.heads.length ≤ NUM := by
  have inside : s.heads ⊆ List.range NUM := fun h pending =>
    List.mem_range.mpr (queued.head_taken owned pending).1
  simpa using (List.subperm_of_subset queued.nodup inside).length_le

theorem Queued.room_of_free (queued : Queued s) (owned : Owned s) {i : Nat}
    (free : i ∈ s.disk.freeSet) : s.heads.length < NUM := by
  obtain ⟨inside, free⟩ := mem_freeSet.mp free
  have fresh : i ∉ s.heads := fun pending => by
    simp [(queued.head_taken owned pending).2] at free
  have all : i :: s.heads ⊆ List.range NUM :=
    List.cons_subset.mpr ⟨List.mem_range.mpr inside, fun h pending =>
      List.mem_range.mpr (queued.head_taken owned pending).1⟩
  have bound := (List.subperm_of_subset (List.nodup_cons.mpr ⟨fresh, queued.nodup⟩) all).length_le
  simpa [Nat.succ_le_iff] using bound

end

theorem Matched.of_parts {s : State} (owned : Owned s) (queued : Queued s) : Matched s where
  descriptor := by
    intro i inside
    cases free : s.disk.free i with
    | true =>
      refine .inl ⟨rfl, fun p j flying member => ?_⟩
      rw [(owned.linked p j flying).taken i member] at free
      exact Bool.noConfusion free
    | false =>
      obtain ⟨p, j, flying, member⟩ := owned.held i inside free
      exact .inr ⟨rfl, p, j, flying, member, fun q k other member' =>
        owned.disjoint q p k j i other flying member' member⟩
  chain := fun p j flying => ⟨(owned.linked p j flying).nodup, (owned.linked p j flying).inside⟩
  sound := queued.sound
  frees := by
    intro p j flying
    refine ⟨_, Disk.free_chain_eq (owned.linked p j flying), fun i => ?_⟩
    simp only [put, update_apply, Chain.members, List.mem_cons, List.not_mem_nil, or_false]
    split_ifs <;> simp_all
  avail := ⟨queued.fifo, by
    have := queued.room owned
    simp only [State.heads, List.length_append] at this
    omega⟩
  returned := queued.returned

section

variable {s : State} {p : Pid} {b : Buf} {blockno : UInt32} {write : Bool} {chain : Chain}

def Disk.takeChain (d : Disk) (chain : Chain) : Disk :=
  ((d.take chain.head).take chain.data).take chain.status

theorem Disk.free_takeChain (d : Disk) (chain : Chain) (i : Nat) :
    (d.takeChain chain).free i = (d.free i && !decide (i ∈ chain.members)) := by
  simp only [Disk.takeChain, take, update_apply, Chain.members, List.mem_cons,
    List.not_mem_nil, or_false]
  split_ifs <;> simp_all

theorem Disk.desc_submit_of_notMem (d : Disk) {i : Nat} (outside : i ∉ chain.members) :
    (d.submit chain b blockno write).desc i = d.desc i := by
  simp only [Chain.members, List.mem_cons, List.not_mem_nil, or_false, not_or] at outside
  simp only [submit, update_of_ne outside.1, update_of_ne outside.2.1,
    update_of_ne outside.2.2]

theorem Disk.linked_submit (d : Disk) (nodup : chain.members.Nodup)
    (inside : ∀ i ∈ chain.members, i < NUM) :
    ((d.takeChain chain).submit chain b blockno write).Linked chain b := by
  have distinct := nodup
  simp only [Chain.members, List.nodup_cons, List.mem_cons, List.not_mem_nil, or_false, not_or,
    not_false_eq_true, List.nodup_nil, and_true] at distinct
  obtain ⟨⟨ne₀₁, ne₀₂⟩, ne₁₂⟩ := distinct
  refine ⟨nodup, inside, fun i member => ?_, ?_, ?_, ?_⟩
  · have taken := Disk.free_takeChain d chain i
    simp only [member, decide_true, Bool.not_true, Bool.and_false] at taken
    exact taken
  · simp only [submit, update_of_ne ne₀₂, update_of_ne ne₀₁, update_self]
    exact ⟨trivial, by decide, trivial⟩
  · simp only [submit, update_of_ne ne₁₂, update_self]
    exact ⟨trivial, by cases write <;> decide, trivial⟩
  · simp only [submit, update_self]
    exact ⟨trivial, by decide⟩

theorem Owned.notMem_of_free (owned : Owned s) {q : Pid} {k : Job} (flying : s.job q = some k)
    (free : ∀ i ∈ chain.members, i ∈ s.disk.freeSet) {i : Nat} (member : i ∈ k.chain.members) :
    i ∉ chain.members := fun other => by
  have taken := (owned.linked q k flying).taken i member
  simp [(mem_freeSet.mp (free i other)).2] at taken

theorem job_request {d : Disk} (q : Pid) :
    (s.request p b blockno write d chain).job q =
      if q = p then some ⟨b, chain, s.tickets⟩ else s.job q := by
  rcases eq_or_ne q p with rfl | different
  · simp [State.job, request, Phase.job]
  · simp [State.job, request, different]

theorem owned_request (owned : Owned s) (starting : s.phase p = .starting b blockno write)
    (nodup : chain.members.Nodup) (free : ∀ i ∈ chain.members, i ∈ s.disk.freeSet) :
    Owned (s.request p b blockno write (s.disk.takeChain chain) chain) := by
  have inside : ∀ i ∈ chain.members, i < NUM := fun i member =>
    (mem_freeSet.mp (free i member)).1
  have other : ∀ {q k}, s.job q = some k → k.chain.head ≠ chain.head := fun flying same =>
    owned.notMem_of_free flying free (same ▸ Chain.head_mem _) (Chain.head_mem chain)
  have cases : ∀ {q k}, (s.request p b blockno write (s.disk.takeChain chain) chain).job q =
      some k → (q = p ∧ k = ⟨b, chain, s.tickets⟩) ∨ s.job q = some k := by
    intro q k flying
    rw [job_request] at flying
    split at flying
    · next same => exact .inl ⟨same, (Option.some.inj flying).symm⟩
    · exact .inr flying
  constructor
  case linked =>
    intro q k flying
    rcases cases flying with ⟨rfl, rfl⟩ | old
    · exact Disk.linked_submit s.disk nodup inside
    · refine (owned.linked q k old).congr (fun i member => ?_) (fun i member => ?_)
      · exact Disk.desc_submit_of_notMem _ (owned.notMem_of_free old free member)
      · have kept := Disk.free_takeChain s.disk chain i
        simp only [owned.notMem_of_free old free member, decide_false, Bool.not_false,
          Bool.and_true] at kept
        exact kept
  case held =>
    intro i small taken
    have taken : (s.disk.takeChain chain).free i = false := taken
    rw [Disk.free_takeChain, Bool.and_eq_false_iff] at taken
    rcases taken with taken | member
    · obtain ⟨q, k, flying, member⟩ := owned.held i small taken
      refine ⟨q, k, ?_, member⟩
      rw [job_request, if_neg]
      · exact flying
      · rintro rfl
        simp [State.job, starting, Phase.job] at flying
    · exact ⟨p, ⟨b, chain, s.tickets⟩, by rw [job_request, if_pos rfl], by simpa using member⟩
  case disjoint =>
    intro q r j k i first second left right
    rcases cases first with ⟨rfl, rfl⟩ | old <;> rcases cases second with ⟨rfl, rfl⟩ | old'
    · rfl
    · exact absurd left (owned.notMem_of_free old' free right)
    · exact absurd right (owned.notMem_of_free old free left)
    · exact owned.disjoint q r j k i old old' left right
  case info =>
    intro q k flying
    rcases cases flying with ⟨rfl, rfl⟩ | old
    · simp [request, submit]
    · simpa [request, submit, update_of_ne (other old), Disk.takeChain,
        take] using owned.info q k old
  case ticket =>
    intro q k flying
    rcases cases flying with ⟨rfl, rfl⟩ | old
    · simp [request]
    · simpa [request, update_of_ne (other old)] using owned.ticket q k old
  case owner =>
    intro q c using_
    have same : Phase.buf (.waiting ⟨b, chain, s.tickets⟩) = (s.phase p).buf := by
      simp [starting, Phase.buf]
    rw [buf_of_update rfl same] at using_
    exact owned.owner q c using_

end

end OsCpp.Virtio
