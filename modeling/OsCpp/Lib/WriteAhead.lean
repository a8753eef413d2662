import Mathlib.Data.Set.Insert

/-!
# Write-ahead logging over a volatile store

Updates go to a volatile copy of the disk; a commit copies the updated blocks to a log region,
writes a header block naming them, copies them home and clears the header.  A crash forgets the
volatile copy, and recovery replays whatever the header names.
-/

namespace WriteAhead

variable {Block : Type*}

/-- Position and capacity of the log region and the layout of its header block. -/
structure Format (Block : Type*) where
  start : Nat
  /-- Number of blocks the log region holds after the header. -/
  capacity : Nat
  Encodable : Nat → Prop
  entries : Block → List Nat
  record : List Nat → Block → Block
  /-- A header of admissible length reads back. -/
  entries_record : ∀ (addresses : List Nat) (block : Block), addresses.length ≤ capacity →
    (∀ address ∈ addresses, Encodable address) → entries (record addresses block) = addresses

namespace Format

/-- Address of the log block that holds one entry of the header. -/
def slot (format : Format Block) (index : Nat) : Nat := format.start + index + 1

/-- The addresses outside the log region. -/
def Home (format : Format Block) (address : Nat) : Prop :=
  address < format.start ∨ format.start + format.capacity < address

theorem Home.ne_start {format : Format Block} {address : Nat} (home : format.Home address) :
    address ≠ format.start := by
  unfold Home at home
  omega

theorem Home.ne_slot {format : Format Block} {address index : Nat} (home : format.Home address)
    (index_lt : index < format.capacity) : address ≠ format.slot index := by
  unfold Home at home
  unfold slot
  omega

theorem slot_ne_start (format : Format Block) (index : Nat) : format.slot index ≠ format.start := by
  unfold slot
  omega

theorem slot_injective (format : Format Block) {left right : Nat}
    (same : format.slot left = format.slot right) : left = right := by
  unfold slot at same
  omega

end Format

/-- Position of the protocol. A flag tells whether the next write is already prepared. -/
inductive Phase
  | ready
  | copying (index : Nat) (moved : Bool)
  | sealing (moved : Bool)
  | installing (index : Nat) (moved : Bool)
  | clearing (moved : Bool)
  | booting

/-- Disk, volatile store, log list and the two specification views of the contents. -/
structure State (Block : Type*) where
  disk : Nat → Block
  /-- Blocks as the running system sees them. -/
  memory : Nat → Block
  /-- Addresses of the group being assembled or installed. -/
  group : List Nat
  /-- Addresses updated but not yet enlisted in the group. -/
  pending : Set Nat
  /-- Contents including every update so far. -/
  current : Nat → Block
  committed : Nat → Block
  phase : Phase

open Function (update update_of_ne update_self)

inductive Step (format : Format Block) : State Block → State Block → Prop
  | modify {state : State Block} (address : Nat) (block : Block)
      (ready : state.phase = .ready) (home : format.Home address)
      (encodable : format.Encodable address) :
      Step format state
        { state with
          memory := update state.memory address block
          current := update state.current address block
          pending := insert address state.pending }
  | enlist {state : State Block} (address : Nat) (group : List Nat)
      (ready : state.phase = .ready) (home : format.Home address)
      (encodable : format.Encodable address)
      (extended : group = if address ∈ state.group then state.group
        else state.group ++ [address])
      (room : group.length ≤ format.capacity) :
      Step format state
        { state with group := group, pending := state.pending \ {address} }
  | begin {state : State Block} (ready : state.phase = .ready) (settled : state.pending = ∅) :
      Step format state { state with phase := .copying 0 false }
  | copyLog {state : State Block} (index address : Nat)
      (phase : state.phase = .copying index false) (named : state.group[index]? = some address) :
      Step format state
        { state with
          memory := update state.memory (format.slot index) (state.memory address)
          phase := .copying index true }
  | writeLog {state : State Block} (index : Nat) (phase : state.phase = .copying index true) :
      Step format state
        { state with
          disk := update state.disk (format.slot index) (state.memory (format.slot index))
          phase := .copying (index + 1) false }
  | logged {state : State Block} (index : Nat) (phase : state.phase = .copying index false)
      (complete : state.group.length ≤ index) :
      Step format state { state with phase := .sealing false }
  | setHead {state : State Block} (phase : state.phase = .sealing false) :
      Step format state
        { state with
          memory := update state.memory format.start
            (format.record state.group (state.memory format.start))
          phase := .sealing true }
  | writeHead {state : State Block} (phase : state.phase = .sealing true) :
      Step format state
        { state with
          disk := update state.disk format.start (state.memory format.start)
          committed := state.current
          phase := .installing 0 false }
  | copyHome {state : State Block} (index address : Nat)
      (phase : state.phase = .installing index false)
      (named : state.group[index]? = some address) :
      Step format state
        { state with
          memory := update state.memory address (state.memory (format.slot index))
          phase := .installing index true }
  | writeHome {state : State Block} (index address : Nat)
      (phase : state.phase = .installing index true)
      (named : state.group[index]? = some address) :
      Step format state
        { state with
          disk := update state.disk address (state.memory address)
          phase := .installing (index + 1) false }
  | installed {state : State Block} (index : Nat) (phase : state.phase = .installing index false)
      (complete : state.group.length ≤ index) :
      Step format state { state with group := [], phase := .clearing false }
  | setClear {state : State Block} (phase : state.phase = .clearing false) :
      Step format state
        { state with
          memory := update state.memory format.start (format.record [] (state.memory format.start))
          phase := .clearing true }
  | writeClear {state : State Block} (phase : state.phase = .clearing true) :
      Step format state
        { state with
          disk := update state.disk format.start (state.memory format.start)
          phase := .ready }
  | crash {state : State Block} :
      Step format state
        { state with
          memory := state.disk
          group := []
          pending := ∅
          current := state.committed
          phase := .booting }
  | readHead {state : State Block} (phase : state.phase = .booting) :
      Step format state
        { state with
          group := format.entries (state.memory format.start)
          phase := .installing 0 false }

/-- Replaying the header found on disk yields the committed contents. -/
structure Recoverable (format : Format Block) (disk committed : Nat → Block) : Prop where
  bound : (format.entries (disk format.start)).length ≤ format.capacity
  home : ∀ address ∈ format.entries (disk format.start), format.Home address
  encodable : ∀ address ∈ format.entries (disk format.start), format.Encodable address
  logged : ∀ index address, (format.entries (disk format.start))[index]? = some address →
    disk (format.slot index) = committed address
  untouched : ∀ address, format.Home address →
    address ∉ format.entries (disk format.start) → disk address = committed address

/-- What the volatile store, the group and the disk satisfy between two header writes. -/
structure Assembled (format : Format Block) (state : State Block) : Prop where
  empty : format.entries (state.disk format.start) = []
  memory : ∀ address, format.Home address → state.memory address = state.current address
  clean : ∀ address, format.Home address → address ∉ state.group →
    address ∉ state.pending → state.current address = state.committed address

/-- The first entries of the group are in the log, in memory and on disk. -/
def LoggedBelow (format : Format Block) (state : State Block) (count : Nat) : Prop :=
  ∀ index address, index < count → state.group[index]? = some address →
    state.disk (format.slot index) = state.current address ∧
      state.memory (format.slot index) = state.current address

/-- The first entries of the group are home, and the log still holds all of them. -/
structure InstalledBelow (format : Format Block) (state : State Block) (count : Nat) : Prop where
  header : format.entries (state.disk format.start) = state.group
  current : ∀ address, format.Home address → state.current address = state.committed address
  log : ∀ index address, state.group[index]? = some address →
    state.memory (format.slot index) = state.committed address
  home : ∀ index address, index < count → state.group[index]? = some address →
    state.disk address = state.committed address ∧ state.memory address = state.committed address
  other : ∀ address, format.Home address → address ∉ state.group →
    state.memory address = state.committed address

/-- The part of the invariant that depends on the phase. -/
def PhaseInvariant (format : Format Block) (state : State Block) : Phase → Prop
  | .ready => Assembled format state
  | .copying index moved =>
    Assembled format state ∧ state.pending = ∅ ∧ LoggedBelow format state index ∧
      (moved = true → ∃ address, state.group[index]? = some address ∧
        state.memory (format.slot index) = state.current address)
  | .sealing moved =>
    Assembled format state ∧ state.pending = ∅ ∧
      LoggedBelow format state state.group.length ∧
      (moved = true → format.entries (state.memory format.start) = state.group)
  | .installing index moved =>
    state.pending = ∅ ∧ InstalledBelow format state index ∧
      (moved = true → ∃ address, state.group[index]? = some address ∧
        state.memory address = state.committed address)
  | .clearing moved =>
    state.pending = ∅ ∧ state.group = [] ∧
      (∀ address, format.Home address →
        state.disk address = state.committed address ∧
        state.memory address = state.committed address ∧
        state.current address = state.committed address) ∧
      (moved = true → format.entries (state.memory format.start) = [])
  | .booting => state.pending = ∅ ∧ state.memory = state.disk ∧ state.current = state.committed

structure Invariant (format : Format Block) (state : State Block) : Prop where
  bound : state.group.length ≤ format.capacity
  home : ∀ address ∈ state.group, format.Home address
  encodable : ∀ address ∈ state.group, format.Encodable address
  recoverable : Recoverable format state.disk state.committed
  phase : PhaseInvariant format state state.phase

section

variable {format : Format Block} {state : State Block}

variable {address index : Nat}

private theorem index_lt (named : state.group[index]? = some address) :
    index < state.group.length := by
  by_contra past
  rw [List.getElem?_eq_none (by omega)] at named
  cases named

theorem Recoverable.disk_eq {disk committed : Nat → Block}
    (recoverable : Recoverable format disk committed)
    (empty : format.entries (disk format.start) = [])
    (home : format.Home address) : disk address = committed address :=
  recoverable.untouched address home (by simp [empty])

theorem Recoverable.of_empty {disk committed : Nat → Block}
    (empty : format.entries (disk format.start) = [])
    (same : ∀ address, format.Home address → disk address = committed address) :
    Recoverable format disk committed :=
  ⟨by simp [empty], by simp [empty], by simp [empty], by simp [empty], fun address home _ =>
    same address home⟩

theorem Recoverable.update_slot {disk committed : Nat → Block} (block : Block)
    (recoverable : Recoverable format disk committed)
    (empty : format.entries (disk format.start) = []) (index_lt : index < format.capacity) :
    Recoverable format (update disk (format.slot index) block) committed := by
  refine .of_empty ?_ fun address home => ?_
  · rwa [update_of_ne (format.slot_ne_start index).symm]
  · rw [update_of_ne (home.ne_slot index_lt)]
    exact recoverable.disk_eq empty home

/-- Copying a committed block home keeps the disk recoverable. -/
theorem Recoverable.update_home {disk committed : Nat → Block}
    (recoverable : Recoverable format disk committed) (home : format.Home address) :
    Recoverable format (update disk address (committed address)) committed := by
  have header : update disk address (committed address) format.start = disk format.start :=
    update_of_ne home.ne_start.symm _ _
  constructor
  · simpa [header] using recoverable.bound
  · simpa [header] using recoverable.home
  · simpa [header] using recoverable.encodable
  · intro index named entry
    rw [header] at entry
    have index_lt : index < format.capacity := by
      have inside := (List.getElem?_eq_some_iff.mp entry).1
      exact inside.trans_le recoverable.bound
    rw [update_of_ne (home.ne_slot index_lt).symm]
    exact recoverable.logged index named entry
  · intro other other_home outside
    rw [header] at outside
    by_cases same : other = address
    · subst same
      simp
    · rw [update_of_ne same]
      exact recoverable.untouched other other_home outside

theorem Recoverable.clear {disk committed : Nat → Block} {block : Block}
    (installed : ∀ address, format.Home address → disk address = committed address)
    (empty : format.entries block = []) :
    Recoverable format (update disk format.start block) committed := by
  refine .of_empty ?_ fun address home => ?_
  · rwa [update_self]
  · rw [update_of_ne home.ne_start]
    exact installed address home

variable (invariant : Invariant format state)

include invariant

theorem Invariant.during {phase : Phase} (reached : state.phase = phase) :
    PhaseInvariant format state phase :=
  reached ▸ invariant.phase

private theorem Invariant.modify
    (block : Block) (ready : state.phase = .ready) (home : format.Home address) :
    Invariant format
      { state with
        memory := update state.memory address block
        current := update state.current address block
        pending := insert address state.pending } := by
  have assembled := invariant.during ready
  refine { invariant with phase := ?_ }
  simp only [ready, PhaseInvariant]
  refine ⟨assembled.empty, ?_, ?_⟩
  · intro other other_home
    by_cases same : other = address
    · subst same
      simp
    · simpa [update_of_ne same] using assembled.memory other other_home
  · intro other other_home ungrouped unpending
    have different : other ≠ address := fun same => unpending (by simp [same])
    have settled : other ∉ state.pending := fun member => unpending (by simp [member])
    simpa [update_of_ne different] using assembled.clean other other_home ungrouped settled

private theorem Invariant.enlist
    {group : List Nat} (ready : state.phase = .ready) (home : format.Home address)
    (encodable : format.Encodable address)
    (extended : group = if address ∈ state.group then state.group else state.group ++ [address])
    (room : group.length ≤ format.capacity) :
    Invariant format { state with group := group, pending := state.pending \ {address} } := by
  have assembled := invariant.during ready
  have members : ∀ other, other ∈ group ↔ other ∈ state.group ∨ other = address := by
    intro other
    rw [extended]
    split
    · constructor
      · exact .inl
      · rintro (member | rfl) <;> assumption
    · simp
  refine ⟨room, ?_, ?_, invariant.recoverable, ?_⟩
  · intro other member
    rcases (members other).mp member with old | rfl
    · exact invariant.home other old
    · exact home
  · intro other member
    rcases (members other).mp member with old | rfl
    · exact invariant.encodable other old
    · exact encodable
  · simp only [ready, PhaseInvariant]
    refine ⟨assembled.empty, assembled.memory, ?_⟩
    intro other other_home ungrouped unpending
    have outside : ¬(other ∈ state.group ∨ other = address) :=
      fun member => ungrouped ((members other).mpr member)
    push Not at outside
    apply assembled.clean other other_home outside.1
    intro member
    exact unpending ⟨member, by simpa using outside.2⟩

private theorem Invariant.copyLog
    (phase : state.phase = .copying index false) (named : state.group[index]? = some address) :
    Invariant format
      { state with
        memory := update state.memory (format.slot index) (state.memory address)
        phase := .copying index true } := by
  obtain ⟨assembled, settled, below, -⟩ := invariant.during phase
  have room : index < format.capacity := (index_lt named).trans_le invariant.bound
  have home : format.Home address := invariant.home address (List.mem_of_getElem? named)
  refine { invariant with
    phase := ⟨{ assembled with memory := ?_ }, settled, ?_, fun _ => ⟨address, named, ?_⟩⟩ }
  · intro other other_home
    simpa [update_of_ne (other_home.ne_slot room)] using assembled.memory other other_home
  · intro earlier other earlier_lt entry
    have different : format.slot earlier ≠ format.slot index :=
      fun same => earlier_lt.ne (format.slot_injective same)
    simpa [update_of_ne different] using below earlier other earlier_lt entry
  · simpa using assembled.memory address home

private theorem Invariant.writeLog (phase : state.phase = .copying index true) :
    Invariant format
      { state with
        disk := update state.disk (format.slot index) (state.memory (format.slot index))
        phase := .copying (index + 1) false } := by
  obtain ⟨assembled, settled, below, moved⟩ := invariant.during phase
  obtain ⟨address, named, copied⟩ := moved rfl
  have room : index < format.capacity := (index_lt named).trans_le invariant.bound
  refine { invariant with
    recoverable := invariant.recoverable.update_slot _ assembled.empty room
    phase := ⟨{ assembled with empty := ?_ }, settled, ?_, by simp⟩ }
  · simpa [update_of_ne (format.slot_ne_start index).symm] using assembled.empty
  · intro earlier other earlier_lt entry
    by_cases same : earlier = index
    · subst same
      cases named.symm.trans entry
      simp [copied]
    · have different : format.slot earlier ≠ format.slot index :=
        fun equal => same (format.slot_injective equal)
      simpa [update_of_ne different] using below earlier other (by omega) entry

private theorem Invariant.logged
    (phase : state.phase = .copying index false) (complete : state.group.length ≤ index) :
    Invariant format { state with phase := .sealing false } := by
  obtain ⟨assembled, settled, below, -⟩ := invariant.during phase
  exact { invariant with
    phase := ⟨{ assembled with }, settled,
      fun earlier other earlier_lt => below earlier other (earlier_lt.trans_le complete), by simp⟩ }

private theorem Invariant.setHead
    (phase : state.phase = .sealing false) :
    Invariant format
      { state with
        memory := update state.memory format.start
          (format.record state.group (state.memory format.start))
        phase := .sealing true } := by
  obtain ⟨assembled, settled, below, -⟩ := invariant.during phase
  refine { invariant with phase := ⟨{ assembled with memory := ?_ }, settled, ?_, fun _ => ?_⟩ }
  · intro other home
    simpa [update_of_ne home.ne_start] using assembled.memory other home
  · intro earlier other earlier_lt entry
    simpa [update_of_ne (format.slot_ne_start earlier)] using below earlier other earlier_lt entry
  · simpa using format.entries_record state.group (state.memory format.start)
      invariant.bound invariant.encodable

private theorem Invariant.writeHead
    (phase : state.phase = .sealing true) :
    Invariant format
      { state with
        disk := update state.disk format.start (state.memory format.start)
        committed := state.current
        phase := .installing 0 false } := by
  obtain ⟨assembled, settled, below, moved⟩ := invariant.during phase
  have header : format.entries
      (update state.disk format.start (state.memory format.start) format.start) = state.group := by
    simpa using moved rfl
  have all : ∀ index address, state.group[index]? = some address →
      state.disk (format.slot index) = state.current address ∧
        state.memory (format.slot index) = state.current address :=
    fun index address named => below index address (index_lt named) named
  refine { invariant with
    recoverable := ⟨?_, ?_, ?_, ?_, ?_⟩
    phase := ⟨settled, ⟨header, fun _ _ => rfl, ?_, by simp, ?_⟩, by simp⟩ }
  · simpa only [header] using invariant.bound
  · simpa only [header] using invariant.home
  · simpa only [header] using invariant.encodable
  · intro index address named
    simp only [header] at named
    simpa [update_of_ne (format.slot_ne_start index)] using (all index address named).1
  · intro address home outside
    simp only [header] at outside
    simp only [update_of_ne home.ne_start]
    rw [invariant.recoverable.disk_eq assembled.empty home]
    exact (assembled.clean address home outside (by simp [settled])).symm
  · exact fun index address named => (all index address named).2
  · exact fun address home _ => assembled.memory address home

private theorem Invariant.copyHome
    (phase : state.phase = .installing index false) (named : state.group[index]? = some address) :
    Invariant format
      { state with
        memory := update state.memory address (state.memory (format.slot index))
        phase := .installing index true } := by
  obtain ⟨settled, below, -⟩ := invariant.during phase
  have home : format.Home address := invariant.home address (List.mem_of_getElem? named)
  have copied : state.memory (format.slot index) = state.committed address :=
    below.log index address named
  refine { invariant with
    phase := ⟨settled, { below with log := ?_, home := ?_, other := ?_ },
      fun _ => ⟨address, named, by simp [copied]⟩⟩ }
  · intro other target entry
    have room : other < format.capacity := (index_lt entry).trans_le invariant.bound
    simpa [update_of_ne (home.ne_slot room).symm] using below.log other target entry
  · intro earlier target earlier_lt entry
    refine ⟨(below.home earlier target earlier_lt entry).1, ?_⟩
    by_cases same : target = address
    · subst same
      simp [copied]
    · simpa [update_of_ne same] using (below.home earlier target earlier_lt entry).2
  · intro other other_home outside
    have different : other ≠ address := fun same =>
      outside (by simpa [same] using List.mem_of_getElem? named)
    simpa [update_of_ne different] using below.other other other_home outside

private theorem Invariant.writeHome
    (phase : state.phase = .installing index true) (named : state.group[index]? = some address) :
    Invariant format
      { state with
        disk := update state.disk address (state.memory address)
        phase := .installing (index + 1) false } := by
  obtain ⟨settled, below, moved⟩ := invariant.during phase
  have home : format.Home address := invariant.home address (List.mem_of_getElem? named)
  have copied : state.memory address = state.committed address := by
    obtain ⟨other, entry, copied⟩ := moved rfl
    cases named.symm.trans entry
    exact copied
  refine { invariant with
    recoverable := ?_, phase := ⟨settled, { below with header := ?_, home := ?_ }, by simp⟩ }
  · simpa only [copied] using invariant.recoverable.update_home home
  · simpa [update_of_ne home.ne_start.symm] using below.header
  · intro earlier target earlier_lt entry
    by_cases same : target = address
    · subst same
      simp [copied]
    · have different : earlier ≠ index := by
        rintro rfl
        cases named.symm.trans entry
        exact same rfl
      simpa [update_of_ne same] using below.home earlier target (by omega) entry

private theorem Invariant.installed
    (phase : state.phase = .installing index false) (complete : state.group.length ≤ index) :
    Invariant format { state with group := [], phase := .clearing false } := by
  obtain ⟨settled, below, -⟩ := invariant.during phase
  refine ⟨by simp, by simp, by simp, invariant.recoverable, settled, rfl, ?_, by simp⟩
  intro address home
  have current := below.current address home
  by_cases member : address ∈ state.group
  · obtain ⟨place, named⟩ := List.mem_iff_getElem?.mp member
    have home_facts := below.home place address ((index_lt named).trans_le complete) named
    exact ⟨home_facts.1, home_facts.2, current⟩
  · have on_disk := invariant.recoverable.untouched address home (by rwa [below.header])
    exact ⟨on_disk, below.other address home member, current⟩

private theorem Invariant.setClear
    (phase : state.phase = .clearing false) :
    Invariant format
      { state with
        memory := update state.memory format.start (format.record [] (state.memory format.start))
        phase := .clearing true } := by
  obtain ⟨settled, empty, same, -⟩ := invariant.during phase
  refine { invariant with phase := ⟨settled, empty, ?_, fun _ => ?_⟩ }
  · intro address home
    simpa [update_of_ne home.ne_start] using same address home
  · simpa using format.entries_record [] (state.memory format.start) (by simp) (by simp)

private theorem Invariant.writeClear
    (phase : state.phase = .clearing true) :
    Invariant format
      { state with
        disk := update state.disk format.start (state.memory format.start)
        phase := .ready } := by
  obtain ⟨settled, empty, same, moved⟩ := invariant.during phase
  refine { invariant with
    recoverable := .clear (fun address home => (same address home).1) (moved rfl)
    phase := ⟨?_, ?_, ?_⟩ }
  · simpa using moved rfl
  · intro address home
    exact (same address home).2.1.trans (same address home).2.2.symm
  · exact fun address home _ _ => (same address home).2.2

private theorem Invariant.readHead
    (phase : state.phase = .booting) :
    Invariant format
      { state with
        group := format.entries (state.memory format.start)
        phase := .installing 0 false } := by
  obtain ⟨settled, memory_eq, current_eq⟩ := invariant.during phase
  have recoverable := invariant.recoverable
  rw [memory_eq]
  refine ⟨recoverable.bound, recoverable.home, recoverable.encodable, recoverable, settled,
    ⟨rfl, fun _ _ => by rw [current_eq], ?_, by simp, ?_⟩, by simp⟩
  · exact fun index address named => by simpa [memory_eq] using recoverable.logged index address named
  · exact fun address home outside => by
      simpa [memory_eq] using recoverable.untouched address home outside

/-- Every step of the protocol keeps the invariant. -/
theorem Invariant.step {after : State Block}
    (step : Step format state after) : Invariant format after := by
  cases step with
  | modify address block ready home _ => exact invariant.modify block ready home
  | enlist address group ready home encodable extended room =>
    exact invariant.enlist ready home encodable extended room
  | begin ready settled =>
    have assembled := invariant.during ready
    exact { invariant with phase := ⟨{ assembled with }, settled, nofun, by simp⟩ }
  | copyLog index address phase named => exact invariant.copyLog phase named
  | writeLog index phase => exact invariant.writeLog phase
  | logged index phase complete => exact invariant.logged phase complete
  | setHead phase => exact invariant.setHead phase
  | writeHead phase => exact invariant.writeHead phase
  | copyHome index address phase named => exact invariant.copyHome phase named
  | writeHome index address phase named => exact invariant.writeHome phase named
  | installed index phase complete => exact invariant.installed phase complete
  | setClear phase => exact invariant.setClear phase
  | writeClear phase => exact invariant.writeClear phase
  | crash =>
    exact ⟨by simp, by simp, by simp, invariant.recoverable, rfl, rfl, rfl⟩
  | readHead phase => exact invariant.readHead phase

/-- At rest, the home blocks on disk are the contents of the last header write. -/
theorem Invariant.disk_eq_committed (ready : state.phase = .ready) (home : format.Home address) :
    state.disk address = state.committed address := by
  have assembled := invariant.during ready
  exact invariant.recoverable.disk_eq assembled.empty home

end

end WriteAhead
