import OsCpp.Virtio.Ownership

/-!
# Matching of completions

The steps of the driver and of the device keep the two invariants of the descriptors, so that every
completion reaches the request it belongs to.
-/

namespace OsCpp.Virtio

open Function (update update_apply update_of_ne)
open State (attempt availHeads complete finish reap release request usedHeads wakeup)
open Phase (buf buf_of_job)

section

variable {s t : State}

theorem availHeads_publish {head : Nat} (room : s.heads.length < NUM)
    (ring : t.disk.availRing = update s.disk.availRing (s.disk.availIdx.toNat % NUM) head)
    (idx : t.disk.availIdx = s.disk.availIdx + 1) (last : t.lastAvail = s.lastAvail) :
    t.availHeads = s.availHeads ++ [head] := by
  rw [availHeads, ring, idx, last, UInt16.toNat_add]
  refine Ring.contents_store (by decide) (by decide) s.lastAvail.toNat_lt _ _ ?_
  rw [← availHeads]
  simp only [State.heads, List.length_append] at room
  omega

theorem availHeads_consume (some_left : s.lastAvail ≠ s.disk.availIdx)
    (ring : t.disk.availRing = s.disk.availRing) (idx : t.disk.availIdx = s.disk.availIdx)
    (last : t.lastAvail = s.lastAvail + 1) :
    s.availHeads = s.disk.availRing (s.lastAvail.toNat % NUM) :: t.availHeads := by
  rw [availHeads, availHeads, ring, idx, last, UInt16.toNat_add]
  exact Ring.contents_take (by decide) s.lastAvail.toNat_lt s.disk.availIdx.toNat_lt _
    (mt UInt16.toNat_inj.mp some_left)

/-- The device puts a head behind the others in the used ring. -/
theorem usedHeads_complete {head : Nat} (room : s.usedHeads.length < NUM)
    (ring : t.disk.usedRing = update s.disk.usedRing (s.disk.usedIdx.toNat % NUM) head)
    (idx : t.disk.usedIdx = s.disk.usedIdx + 1) (seen : t.disk.used_idx = s.disk.used_idx) :
    t.usedHeads = s.usedHeads ++ [head] := by
  rw [usedHeads, ring, idx, seen, UInt16.toNat_add]
  exact Ring.contents_store (by decide) (by decide) s.disk.used_idx.toNat_lt _ _ room

theorem usedHeads_reap (some_left : s.disk.used_idx ≠ s.disk.usedIdx)
    (ring : t.disk.usedRing = s.disk.usedRing) (idx : t.disk.usedIdx = s.disk.usedIdx)
    (seen : t.disk.used_idx = s.disk.used_idx + 1) :
    s.usedHeads = s.disk.usedRing (s.disk.used_idx.toNat % NUM) :: t.usedHeads := by
  rw [usedHeads, usedHeads, ring, idx, seen, UInt16.toNat_add]
  exact Ring.contents_take (by decide) s.disk.used_idx.toNat_lt s.disk.usedIdx.toNat_lt _
    (mt UInt16.toNat_inj.mp some_left)

end

variable {s : State}

theorem queued_request (owned : Owned s) (queued : Queued s) {p : Pid} {b : Buf}
    {blockno : UInt32} {write : Bool} {chain : Chain}
    (starting : s.phase p = .starting b blockno write)
    (free : ∀ i ∈ chain.members, i ∈ s.disk.freeSet) :
    Queued (s.request p b blockno write (s.disk.takeChain chain) chain) := by
  generalize result : s.request p b blockno write (s.disk.takeChain chain) chain = t
  have jobs : ∀ q, t.job q = if q = p then some ⟨b, chain, s.tickets⟩ else s.job q := fun q => by
    rw [← result, job_request]
  have idle : s.job p = none := by simp [State.job, starting, Phase.job]
  have avail : t.availHeads = s.availHeads ++ [chain.head] := by
    subst result
    exact availHeads_publish (queued.room_of_free owned (free _ chain.head_mem)) rfl rfl rfl
  have used : t.usedHeads = s.usedHeads := by subst result; rfl
  have working : t.working = s.working := by subst result; rfl
  have fresh : chain.head ∉ s.heads := fun pending => by
    have taken := (queued.head_taken owned pending).2
    simp [(Disk.mem_freeSet.mp (free _ chain.head_mem)).2] at taken
  have heads : t.heads.Perm (chain.head :: s.heads) := by
    rw [State.heads, State.heads, avail, used, working, List.append_assoc]
    exact List.perm_middle
  have pending : ∀ q k, s.job q = some k → t.pending k.buf = s.pending k.buf := by
    intro q k flying
    have different : k.buf ≠ b := by
      intro same
      have mine := owned.owner p b (by simp [starting, buf])
      have theirs := owned.owner q k.buf (buf_of_job flying)
      rw [same, mine] at theirs
      cases theirs
      simp [idle] at flying
    subst result
    simp [request, update_of_ne different]
  have ticketOf : ∀ h ∈ s.heads, t.ticketOf h = s.ticketOf h := by
    intro h pending
    subst result
    exact update_of_ne (by rintro rfl; exact fresh pending) _ _
  constructor
  case nodup => exact heads.nodup_iff.mpr (List.nodup_cons.mpr ⟨fresh, queued.nodup⟩)
  case live =>
    intro h
    rw [heads.mem_iff, List.mem_cons, queued.live]
    constructor
    · rintro (rfl | ⟨q, k, flying, rfl, waits⟩)
      · refine ⟨p, ⟨b, chain, s.tickets⟩, by rw [jobs, if_pos rfl], rfl, ?_⟩
        subst result
        simp [request]
      · refine ⟨q, k, ?_, rfl, by rw [pending q k flying, waits]⟩
        rw [jobs, if_neg, flying]
        rintro rfl
        simp [idle] at flying
    · rintro ⟨q, k, flying, rfl, waits⟩
      rw [jobs] at flying
      split at flying
      · exact .inl (by rw [← Option.some.inj flying])
      · exact .inr ⟨q, k, flying, rfl, by rw [← pending q k flying, waits]⟩
  case request =>
    intro r member
    rw [working] at member
    have inside : r.head ∈ s.heads := by
      simp only [State.heads, List.mem_append, List.mem_map]
      exact .inr (.inl ⟨r, member, rfl⟩)
    rw [ticketOf _ inside]
    exact queued.request r member
  case status =>
    intro h member
    rw [used] at member
    have inside : h ∈ s.heads := by simp [State.heads, member]
    rw [ticketOf _ inside]
    have before := queued.status h member
    have other : h ≠ chain.head := by rintro rfl; exact fresh inside
    subst result
    exact ⟨by simpa [request, Disk.submit, update_of_ne other, Disk.takeChain,
      Disk.take] using before.1, before.2⟩
  case finished =>
    intro q k flying done
    rw [jobs] at flying
    split at flying
    · cases flying
      subst result
      simp [request] at done
    · rw [pending q k flying] at done
      have before := queued.finished q k flying done
      subst result
      exact before
  case fifo =>
    rw [avail, ← List.append_assoc]
    subst result
    simp only [request]
    rw [queued.fifo]
  case returned => subst result; exact queued.returned
  case sound => subst result; exact queued.sound

/-- Steps in which a process changes its phase but not its request. -/
theorem invariants_phase (owned : Owned s) (queued : Queued s) {t : State} {p : Pid} {phase : Phase}
    {desc : Nat → Desc} (job : phase.job = (s.phase p).job) (buf : phase.buf = (s.phase p).buf)
    (kept : ∀ i, s.disk.free i = false → desc i = s.disk.desc i)
    (result : t = { s with
      disk := { s.disk with desc := desc }
      phase := update s.phase p phase }) : Owned t ∧ Queued t := by
  have phases : t.phase = update s.phase p phase := by rw [result]
  have jobs := job_of_update phases job
  have bufs := buf_of_update phases buf
  subst result
  exact ⟨owned.frame jobs bufs kept rfl (fun _ => rfl) rfl rfl,
    queued.frame jobs rfl rfl rfl rfl rfl rfl rfl rfl rfl rfl queued.sound⟩

/-- `alloc3_desc` fails and changes nothing in flight, or a request is made. -/
theorem invariants_attempt (owned : Owned s) (queued : Queued s) {p : Pid} {b : Buf}
    {blockno : UInt32} {write : Bool} (starting : s.phase p = .starting b blockno write) :
    Owned (s.attempt p b blockno write) ∧ Queued (s.attempt p b blockno write) := by
  rcases Disk.alloc3_desc_cases s.disk with ⟨-, desc, failed, kept⟩ | ⟨chain, nodup, free, found⟩
  · simp only [attempt, failed]
    refine invariants_phase owned queued (by simp [starting, Phase.job])
      (by simp [starting, buf]) (fun i taken => kept i ?_) rfl
    simp [Disk.mem_freeSet, taken]
  · simp only [attempt, found]
    exact ⟨owned_request owned starting nodup free, queued_request owned queued starting free⟩

/-- The disk after `disk_rw` has given its chain back. -/
def Disk.putChain (d : Disk) (chain : Chain) : Disk :=
  (((d.forget chain.head).put chain.head).put chain.data).put chain.status

theorem Disk.free_putChain (d : Disk) (chain : Chain) (i : Nat) :
    (d.putChain chain).free i = (d.free i || decide (i ∈ chain.members)) := by
  simp only [Disk.putChain, Disk.put, Disk.forget, update_apply, Chain.members,
    List.mem_cons, List.not_mem_nil, or_false]
  split_ifs <;> simp_all

theorem Disk.desc_putChain_of_notMem (d : Disk) {chain : Chain} {i : Nat}
    (outside : i ∉ chain.members) : (d.putChain chain).desc i = d.desc i := by
  simp only [Chain.members, List.mem_cons, List.not_mem_nil, or_false, not_or] at outside
  simp only [Disk.putChain, Disk.put, Disk.forget, update_of_ne outside.1,
    update_of_ne outside.2.1, update_of_ne outside.2.2]

theorem finish_eq (owned : Owned s) {p : Pid} {job : Job} (flying : s.job p = some job)
    (completed : s.pending job.buf = false) :
    s.finish p job = s.release p job (s.disk.putChain job.chain) := by
  have linked : (s.disk.forget job.chain.head).Linked job.chain job.buf :=
    (owned.linked p job flying).congr (fun _ _ => rfl) (fun _ _ => rfl)
  simp only [finish, completed, Bool.false_eq_true, if_false, Disk.free_chain_eq linked,
    Disk.putChain]

theorem job_release {p : Pid} {job : Job} {d : Disk} (q : Pid) :
    (s.release p job d).job q = if q = p then none else s.job q := by
  rcases eq_or_ne q p with rfl | different
  · simp [State.job, release, Phase.job]
  · simp [State.job, release, different]

theorem owned_release (owned : Owned s) {p : Pid} {job : Job} (flying : s.job p = some job) :
    Owned (s.release p job (s.disk.putChain job.chain)) := by
  have cases : ∀ {q k}, (s.release p job (s.disk.putChain job.chain)).job q = some k →
      q ≠ p ∧ s.job q = some k := by
    intro q k other
    rw [job_release] at other
    split at other
    · simp at other
    · next different => exact ⟨different, other⟩
  have apart : ∀ {q k}, q ≠ p → s.job q = some k → ∀ {i}, i ∈ k.chain.members →
      i ∉ job.chain.members := fun different other _ left right =>
    different (owned.disjoint _ p _ job _ other flying left right)
  constructor
  case linked =>
    intro q k other
    obtain ⟨different, other⟩ := cases other
    refine (owned.linked q k other).congr (fun i member => ?_) (fun i member => ?_)
    · exact Disk.desc_putChain_of_notMem _ (apart different other member)
    · have kept := Disk.free_putChain s.disk job.chain i
      simp only [apart different other member, decide_false, Bool.or_false] at kept
      exact kept
  case held =>
    intro i small taken
    have left : (s.disk.putChain job.chain).free i = false := taken
    rw [Disk.free_putChain, Bool.or_eq_false_iff, decide_eq_false_iff_not] at left
    obtain ⟨q, k, other, member⟩ := owned.held i small left.1
    refine ⟨q, k, ?_, member⟩
    rw [job_release, if_neg, other]
    rintro rfl
    rw [flying] at other
    cases other
    exact left.2 member
  case disjoint =>
    intro q r j k i first second
    exact owned.disjoint q r j k i (cases first).2 (cases second).2
  case info =>
    intro q k other
    obtain ⟨different, other⟩ := cases other
    have head : k.chain.head ≠ job.chain.head := fun same =>
      different (owned.eq_of_head other flying same)
    simpa [release, Disk.putChain, Disk.put, Disk.forget, update_of_ne head] using
      owned.info q k other
  case ticket =>
    intro q k other
    exact owned.ticket q k (cases other).2
  case owner =>
    intro q c using_
    rcases eq_or_ne q p with rfl | different
    · simp [release, buf] at using_
    · have before : (s.phase q).buf = some c := by
        simpa [release, update_of_ne different] using using_
      have theirs := owned.owner q c before
      have other : c ≠ job.buf := by
        rintro rfl
        rw [owned.owner p job.buf (buf_of_job flying)] at theirs
        exact different (Option.some.inj theirs).symm
      simpa [release, update_of_ne other] using theirs

theorem queued_release (queued : Queued s) {p : Pid} {job : Job} (flying : s.job p = some job)
    (completed : s.pending job.buf = false) :
    Queued (s.release p job (s.disk.putChain job.chain)) := by
  constructor
  case nodup => exact queued.nodup
  case live =>
    intro h
    refine (queued.live h).trans ⟨?_, ?_⟩
    · rintro ⟨q, k, other, rfl, waits⟩
      refine ⟨q, k, ?_, rfl, waits⟩
      rw [job_release, if_neg, other]
      rintro rfl
      rw [flying] at other
      cases other
      simp [completed] at waits
    · rintro ⟨q, k, other, rfl, waits⟩
      rw [job_release] at other
      split at other
      · simp at other
      · exact ⟨q, k, other, rfl, waits⟩
  case request => exact queued.request
  case status =>
    intro h member
    have before := queued.status h member
    refine ⟨?_, before.2⟩
    simp only [release, Disk.putChain, Disk.put, Disk.forget, update_apply]
    split
    · next same => rw [← same]; exact before.1
    · exact before.1
  case finished =>
    intro q k other done
    rw [job_release] at other
    split at other
    · simp at other
    · exact queued.finished q k other done
  case fifo => exact queued.fifo
  case returned =>
    intro ticket member
    rcases List.mem_append.mp member with earlier | new
    · exact queued.returned ticket earlier
    · obtain rfl := List.mem_singleton.mp new
      exact queued.finished p job flying completed
  case sound => exact queued.sound

theorem invariants_finish (owned : Owned s) (queued : Queued s) {p : Pid} {job : Job}
    (woken : s.phase p = .woken job) : Owned (s.finish p job) ∧ Queued (s.finish p job) := by
  have flying : s.job p = some job := by simp [State.job, woken, Phase.job]
  cases waits : s.pending job.buf with
  | true =>
    simp only [finish, waits, if_true]
    exact invariants_phase owned queued (by simp [woken, Phase.job]) (by simp [woken, buf])
      (fun _ _ => rfl) rfl
  | false =>
    rw [finish_eq owned flying waits]
    exact ⟨owned_release owned flying, queued_release queued flying waits⟩

theorem invariants_consume (owned : Owned s) (queued : Queued s)
    (some_left : s.lastAvail ≠ s.disk.availIdx) : Owned s.consume ∧ Queued s.consume := by
  refine ⟨owned.frame (fun _ => rfl) (fun _ => rfl) (fun _ _ => rfl) rfl (fun _ => rfl) rfl rfl, ?_⟩
  have avail : s.availHeads = s.disk.availRing (s.lastAvail.toNat % NUM) :: s.consume.availHeads :=
    availHeads_consume some_left rfl rfl rfl
  generalize name : s.disk.availRing (s.lastAvail.toNat % NUM) = head at avail
  have heads : s.consume.heads.Perm s.heads := by
    have working : s.consume.working.map Request.head = s.working.map Request.head ++ [head] := by
      simp [State.consume, name]
    have used : s.consume.usedHeads = s.usedHeads := rfl
    rw [State.heads, State.heads, working, used, avail]
    simpa [List.append_assoc] using
      @List.perm_middle _ head (s.consume.availHeads ++ s.working.map Request.head) s.usedHeads
  have inside : head ∈ s.heads := by simp [State.heads, avail]
  obtain ⟨p, j, flying, rfl, waits⟩ := (queued.live head).mp inside
  have linked := owned.linked p j flying
  constructor
  case nodup => exact heads.nodup_iff.mpr queued.nodup
  case live => exact fun h => heads.mem_iff.trans (queued.live h)
  case request =>
    intro r member
    rcases List.mem_append.mp member with old | new
    · exact queued.request r old
    · obtain rfl := List.mem_singleton.mp new
      simp only [name, linked.head.2.2, linked.data.2.2, linked.status.1]
      exact ⟨trivial, rfl⟩
  case status => exact queued.status
  case finished => exact queued.finished
  case fifo =>
    have consumed : s.consume.consumed = s.consumed ++ [j.chain.head] := by
      rw [← name]
      rfl
    rw [consumed, List.append_assoc, List.singleton_append, ← avail]
    exact queued.fifo
  case returned => exact queued.returned
  case sound => exact queued.sound

theorem invariants_complete (owned : Owned s) (queued : Queued s) {k : Nat} {r : Request}
    (chosen : s.working[k]? = some r) :
    Owned (s.complete r (s.working.eraseIdx k)) ∧ Queued (s.complete r (s.working.eraseIdx k)) := by
  obtain ⟨bound, rfl⟩ := List.getElem?_eq_some_iff.mp chosen
  have split : s.working.Perm (s.working[k] :: s.working.eraseIdx k) :=
    (List.getElem_cons_eraseIdx_perm bound).symm
  generalize s.working[k] = r at split
  generalize s.working.eraseIdx k = rest at split
  have member : r ∈ s.working := split.mem_iff.mpr List.mem_cons_self
  obtain ⟨address, ticket⟩ := queued.request r member
  have info : (s.complete r rest).disk.info =
      update s.disk.info r.head { s.disk.info r.head with status := 0 } := by
    simp [complete, State.storeStatus, address]
  have bs : ∀ i, ((s.complete r rest).disk.info i).b = (s.disk.info i).b := by
    intro i
    rw [info, update_apply]
    split
    · next same => rw [same]
    · rfl
  refine ⟨owned.frame (fun _ => rfl) (fun _ => rfl) (fun _ _ => rfl) rfl bs rfl rfl, ?_⟩
  have counted := (split.map Request.head).length_eq
  have room : s.usedHeads.length < NUM := by
    have all := queued.room owned
    simp only [State.heads, List.length_append, counted, List.map_cons, List.length_cons] at all
    omega
  have used : (s.complete r rest).usedHeads = s.usedHeads ++ [r.head] :=
    usedHeads_complete room rfl rfl rfl
  have heads : (s.complete r rest).heads.Perm s.heads := by
    have avail : (s.complete r rest).availHeads = s.availHeads := rfl
    have working : (s.complete r rest).working = rest := rfl
    rw [State.heads, State.heads, avail, working, used]
    refine List.Perm.append_left _ ?_
    refine List.Perm.trans ?_ (List.Perm.append_right _ (split.map Request.head).symm)
    rw [← List.append_assoc, List.map_cons, List.cons_append]
    exact List.perm_append_singleton _ _
  constructor
  case nodup => exact heads.nodup_iff.mpr queued.nodup
  case live => exact fun h => heads.mem_iff.trans (queued.live h)
  case request => exact fun r' old => queued.request r' (split.mem_iff.mpr (.tail _ old))
  case status =>
    intro h among
    rw [used, List.mem_append, List.mem_singleton] at among
    rw [info, update_apply]
    rcases eq_or_ne h r.head with rfl | other
    · rw [if_pos rfl]
      exact ⟨rfl, by simp [complete, ticket]⟩
    · have before := queued.status h (among.resolve_right other)
      rw [if_neg other]
      exact ⟨before.1, List.mem_append_left _ before.2⟩
  case finished => exact fun p j flying done => List.mem_append_left _ (queued.finished p j flying done)
  case fifo => exact queued.fifo
  case returned => exact fun t member => List.mem_append_left _ (queued.returned t member)
  case sound => exact queued.sound

theorem job_wakeup (b : Buf) (p : Pid) : (s.wakeup b).job p = s.job p := by
  simp only [State.job, wakeup]
  cases s.phase p with
  | waiting job => simp only; split <;> rfl
  | _ => rfl

theorem buf_wakeup (b : Buf) (p : Pid) : ((s.wakeup b).phase p).buf = (s.phase p).buf := by
  simp only [wakeup]
  cases s.phase p with
  | waiting job => simp only; split <;> rfl
  | _ => rfl

/-- The handler finds the buffer of the request that is complete. -/
theorem invariants_reap (owned : Owned s) (queued : Queued s) : Owned s.reap ∧ Queued s.reap := by
  rcases eq_or_ne s.disk.used_idx s.disk.usedIdx with finished | some_left
  · simp only [reap, if_pos finished]
    exact ⟨owned.frame (fun _ => rfl) (fun _ => rfl) (fun _ _ => rfl) rfl (fun _ => rfl) rfl rfl,
      queued.frame (fun _ => rfl) rfl rfl rfl rfl rfl rfl rfl rfl rfl rfl queued.sound⟩
  generalize result : s.reap = t
  simp only [reap, if_neg some_left] at result
  generalize name : s.disk.usedRing (s.disk.used_idx.toNat % NUM) = id at result
  have front : id ∈ s.usedHeads := by
    rw [usedHeads_reap (t := { s with disk := { s.disk with used_idx := s.disk.used_idx + 1 } })
      some_left rfl rfl rfl, name]
    exact List.mem_cons_self
  have inside : id ∈ s.heads := by simp [State.heads, front]
  obtain ⟨p, j, flying, rfl, waits⟩ := (queued.live id).mp inside
  have seen := queued.status _ front
  rw [if_neg (by simp [seen.1]), owned.info p j flying] at result
  simp only at result
  have used : s.usedHeads = j.chain.head :: t.usedHeads := by
    rw [← name]
    subst result
    exact usedHeads_reap some_left rfl rfl rfl
  have avail : t.availHeads = s.availHeads := by subst result; rfl
  have working : t.working = s.working := by subst result; rfl
  have jobs : ∀ q, t.job q = s.job q := fun q => by subst result; exact job_wakeup j.buf q
  have bufs : ∀ q, (t.phase q).buf = (s.phase q).buf := fun q => by
    subst result; exact buf_wakeup j.buf q
  have pending : t.pending = update s.pending j.buf false := by subst result; rfl
  have heads : s.heads.Perm (j.chain.head :: t.heads) := by
    rw [State.heads, State.heads, used, avail, working, ← List.append_assoc, ← List.append_assoc]
    exact List.perm_middle
  have nodup := heads.nodup_iff.mp queued.nodup
  have completed : t.completed = s.completed := by subst result; rfl
  have ticketOf : t.ticketOf = s.ticketOf := by subst result; rfl
  have info : t.disk.info = s.disk.info := by subst result; rfl
  constructor
  · subst result
    exact owned.frame jobs bufs (fun _ _ => rfl) rfl (fun _ => rfl) rfl rfl
  constructor
  case nodup => exact (List.nodup_cons.mp nodup).2
  case live =>
    intro h
    simp only [jobs, pending]
    constructor
    · intro member
      obtain ⟨q, k, other, rfl, waits'⟩ :=
        (queued.live h).mp (heads.mem_iff.mpr (.tail _ member))
      refine ⟨q, k, other, rfl, ?_⟩
      rw [update_of_ne, waits']
      intro same
      obtain rfl := owned.eq_of_buf other flying same
      obtain rfl := Option.some.inj (other.symm.trans flying)
      exact (List.nodup_cons.mp nodup).1 member
    · rintro ⟨q, k, other, rfl, waits'⟩
      rw [update_apply] at waits'
      split at waits'
      · simp at waits'
      · next different =>
        have among := heads.mem_iff.mp ((queued.live _).mpr ⟨q, k, other, rfl, waits'⟩)
        refine (List.mem_cons.mp among).resolve_left fun same => different ?_
        obtain rfl := owned.eq_of_head other flying same
        rw [Option.some.inj (other.symm.trans flying)]
  case request =>
    rw [working, ticketOf]
    exact queued.request
  case status =>
    intro h member
    rw [info, ticketOf, completed]
    exact queued.status h (by rw [used]; exact .tail _ member)
  case finished =>
    intro q k other done
    rw [jobs] at other
    rw [pending, update_apply] at done
    rw [completed]
    split at done
    · next same =>
      obtain rfl := owned.eq_of_buf other flying same
      obtain rfl := Option.some.inj (other.symm.trans flying)
      rw [← owned.ticket q k other]
      exact seen.2
    · exact queued.finished q k other done
  case fifo =>
    rw [avail]
    subst result
    exact queued.fifo
  case returned =>
    rw [completed]
    subst result
    exact queued.returned
  case sound =>
    subst result
    exact queued.sound

/-- A process that calls `disk_rw` owns its buffer. -/
theorem invariants_call (owned : Owned s) (queued : Queued s) {p : Pid} {b : Buf}
    {blockno : UInt32} {write : Bool} (idle : s.phase p = .idle) (unowned : s.owner b = none) :
    Owned { s with
        phase := update s.phase p (.starting b blockno write)
        owner := update s.owner b (some p) } ∧
      Queued { s with
        phase := update s.phase p (.starting b blockno write)
        owner := update s.owner b (some p) } := by
  generalize result : ({ s with
        phase := update s.phase p (.starting b blockno write)
        owner := update s.owner b (some p) } : State) = t
  have jobs : ∀ q, t.job q = s.job q := by
    have phases : t.phase = update s.phase p (.starting b blockno write) := by
      rw [← result]
    exact job_of_update phases (by simp [idle, Phase.job])
  constructor
  · constructor
    case linked => subst result; simpa only [jobs] using owned.linked
    case held => subst result; simpa only [jobs] using owned.held
    case disjoint => simpa only [jobs] using owned.disjoint
    case info => subst result; simpa only [jobs] using owned.info
    case ticket => subst result; simpa only [jobs] using owned.ticket
    case owner =>
      intro q c using_
      subst result
      rcases eq_or_ne q p with rfl | different
      · obtain rfl : b = c := by simpa [buf] using using_
        simp
      · have theirs := owned.owner q c (by simpa [update_of_ne different] using using_)
        have other : c ≠ b := by
          rintro rfl
          simp [unowned] at theirs
        simpa [update_of_ne other] using theirs
  · subst result
    exact queued.frame jobs rfl rfl rfl rfl rfl rfl rfl rfl rfl rfl queued.sound

theorem invariants_step {t : State} {event : Event} (owned : Owned s) (queued : Queued s)
    (taken : step s event = some t) : Owned t ∧ Queued t := by
  unfold step at taken
  rw [if_neg (by simp [queued.sound])] at taken
  cases event with
  | disk_rw p b blockno write =>
    simp only at taken
    split at taken
    · next enabled =>
      cases taken
      exact invariants_call owned queued enabled.1 enabled.2
    · simp at taken
  | run p =>
    simp only at taken
    split at taken
    · simp at taken
    · split at taken
      · next starting =>
        cases taken
        exact invariants_attempt owned queued starting
      · next woken =>
        cases taken
        exact invariants_finish owned queued woken
      · simp at taken
  | virtio_disk_intr =>
    simp only at taken
    split at taken
    · simp at taken
    · cases taken
      exact ⟨owned.frame (fun _ => rfl) (fun _ => rfl) (fun _ _ => rfl) rfl (fun _ => rfl) rfl rfl,
        queued.frame (fun _ => rfl) rfl rfl rfl rfl rfl rfl rfl rfl rfl rfl queued.sound⟩
  | reap =>
    simp only at taken
    split at taken
    · cases taken
      exact invariants_reap owned queued
    · simp at taken
  | consume =>
    simp only at taken
    split at taken
    · simp at taken
    · next some_left =>
      cases taken
      exact invariants_consume owned queued some_left
  | complete k =>
    simp only at taken
    split at taken
    · next chosen =>
      cases taken
      exact invariants_complete owned queued chosen
    · simp at taken
  | kill p =>
    cases taken
    exact invariants_phase owned queued (by simp) (by simp) (fun _ _ => rfl) rfl

theorem owned_init : Owned init := by
  constructor <;> simp [init, State.job, Phase.job, buf]

theorem queued_init : Queued init := by
  constructor <;> simp [init, State.job, Phase.job, State.heads, availHeads, usedHeads,
    Ring.contents, Ring.distance]

theorem invariants_run {events : List Event} {guard : State → Event → Prop}
    (run : Execution.Run step guard init events s) : Owned s ∧ Queued s := by
  induction run with
  | nil => exact ⟨owned_init, queued_init⟩
  | snoc _ _ taken both => exact invariants_step both.1 both.2 taken

/-- Descriptors belong to one chain at most, nothing panics, and calls return after their
completion. -/
theorem matched_of_run {events : List Event}
    (run : Execution.Run step (fun _ _ => True) init events s) : Matched s :=
  .of_parts (invariants_run run).1 (invariants_run run).2

/-- One request from its call to its return. -/
def oneRequest : List Event :=
  [.disk_rw 0 5 100 true, .run 0, .consume, .complete 0, .virtio_disk_intr, .reap, .reap, .run 0]

theorem matched_oneRequest :
    ∃ s, Execution.Run step (fun _ _ => True) init oneRequest s ∧ s.returned = [0] ∧ Matched s := by
  obtain ⟨s, run, returned⟩ : ∃ s, Execution.Run step (fun _ _ => True) init oneRequest s ∧
      s.returned = [0] := ⟨_, Execution.run_of_exec rfl, rfl⟩
  exact ⟨s, run, returned, matched_of_run run⟩

end OsCpp.Virtio
