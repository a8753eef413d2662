import OsCpp.Lib.Table
import OsCpp.Log.Machine

/-!
# Coherence of the buffer cache

A buffer may differ from the disk only while its block is pinned by the log or some process holds it
dirty.  Hence recycling a buffer never changes what the system sees.
-/

namespace OsCpp.Log

open Bio (Buf Cache init)
open Function (update update_of_ne)
open AList (lookup_insert_eq_some lookup_erase_eq_some)
open Bio.Cache (set_buf_of_ne set_buf_self brelse_buf)

/-- The table of buffer references. -/
abbrev Handles := AList fun _ : Pid × Local => Handle

/-- References to a buffer that `brelse` has not given back yet. -/
def refs (handles : Handles) (index : Fin NBUF) : Nat :=
  handles.countValues fun handle => handle.buf = index

/-- Contents of a block as the running system sees it. -/
def view (disk : Nat → Block) (cache : Cache) (blockno : Nat) : Block :=
  match cache.lookup ROOTDEV blockno with
  | some index =>
    if (cache.buf index).valid then (cache.buf index).data else disk blockno
  | none => disk blockno

/-- The sleep-lock of the buffer is held through this reference. -/
def Stage.Holding : Stage → Prop
  | .locked | .filled => True
  | .referenced | .unlocked => False

/-- The buffer caches a block of the root device. -/
def Caches (cache : Cache) (index : Fin NBUF) (blockno : Nat) : Prop :=
  (cache.buf index).dev = ROOTDEV ∧ (cache.buf index).blockno = blockno

instance (cache : Cache) (index : Fin NBUF) (blockno : Nat) :
    Decidable (Caches cache index blockno) := by
  unfold Caches
  infer_instance

/-- One when the block of the buffer is pinned. -/
def pin (cache : Cache) (pinned : List Nat) (index : Fin NBUF) : Nat :=
  if (cache.buf index).dev = ROOTDEV ∧ (cache.buf index).blockno ∈ pinned then 1 else 0

/-- The cache invariant, relative to the blocks the log keeps pinned. -/
structure Coherent (disk : Nat → Block) (cache : Cache) (handles : Handles)
    (pinned : List Nat) : Prop where
  listed : ∀ index, index ∈ cache.order
  unique : ∀ {left right blockno}, Caches cache left blockno → Caches cache right blockno →
    left = right
  counted : ∀ index, refs handles index + pin cache pinned index ≤ (cache.buf index).refcnt
  mapped : ∀ {key handle}, handles.lookup key = some handle → (cache.buf handle.buf).dev = ROOTDEV
  held : ∀ {key handle}, handles.lookup key = some handle → handle.stage.Holding →
    (cache.buf handle.buf).lock = some key.1
  exclusive : ∀ {left right leftHandle rightHandle},
    handles.lookup left = some leftHandle → handles.lookup right = some rightHandle →
    leftHandle.stage.Holding → rightHandle.stage.Holding →
    leftHandle.buf = rightHandle.buf → left = right
  filled : ∀ {key handle}, handles.lookup key = some handle → handle.stage = .filled →
    (cache.buf handle.buf).valid = true
  dirty : ∀ {key handle}, handles.lookup key = some handle → handle.dirty = true →
    handle.stage = .filled
  cached : ∀ blockno ∈ pinned, ∃ index, Caches cache index blockno ∧ (cache.buf index).valid = true
  clean : ∀ {index}, (cache.buf index).dev = ROOTDEV → (cache.buf index).valid = true →
    (cache.buf index).data ≠ disk (cache.buf index).blockno →
    (cache.buf index).blockno ∈ pinned ∨
      ∃ key handle, handles.lookup key = some handle ∧ handle.buf = index ∧ handle.dirty = true

/-- Two buffers with the same identity and contents, whatever their locks and counts. -/
structure SameData (old new : Buf) : Prop where
  dev : new.dev = old.dev
  blockno : new.blockno = old.blockno
  valid : new.valid = old.valid
  data : new.data = old.data

theorem SameData.refl (buf : Buf) : SameData buf buf := ⟨rfl, rfl, rfl, rfl⟩

theorem sameData_set {cache : Cache} {index : Fin NBUF} {buf : Buf}
    (same : SameData (cache.buf index) buf) (place : Fin NBUF) :
    SameData (cache.buf place) ((cache.set index buf).buf place) := by
  by_cases equal : place = index
  · subst equal
    simpa using same
  · rw [set_buf_of_ne _ _ equal]
    exact .refl _

section

variable {cache : Cache} {index : Fin NBUF} {blockno : Nat}

theorem caches_of_lookup (found : cache.lookup ROOTDEV blockno = some index) :
    Caches cache index blockno := by
  simpa [Caches] using List.find?_some found

theorem not_caches_of_lookup (listed : ∀ index, index ∈ cache.order)
    (missing : cache.lookup ROOTDEV blockno = none) : ¬Caches cache index blockno := by
  intro caches
  have none_matches := List.find?_eq_none.mp missing index (listed index)
  exact none_matches (by simpa [Caches] using caches)

theorem refcnt_of_victim (found : cache.victim = some index) : (cache.buf index).refcnt = 0 := by
  simpa using List.find?_some found

end

section

variable {disk : Nat → Block} {cache : Cache} {handles : Handles} {pinned : List Nat}

variable (coherent : Coherent disk cache handles pinned)

include coherent

theorem Coherent.lookup_eq {index : Fin NBUF} {blockno : Nat} (caches : Caches cache index blockno) :
    cache.lookup ROOTDEV blockno = some index := by
  cases found : cache.lookup ROOTDEV blockno with
  | none => exact absurd caches (not_caches_of_lookup coherent.listed found)
  | some other => rw [coherent.unique (caches_of_lookup found) caches]

theorem Coherent.view_eq_data {index : Fin NBUF} {blockno : Nat} (caches : Caches cache index blockno)
    (valid : (cache.buf index).valid = true) : view disk cache blockno = (cache.buf index).data := by
  simp [view, coherent.lookup_eq caches, valid]

omit coherent in
theorem view_eq_disk {blockno : Nat}
    (invalid : ∀ index, Caches cache index blockno → (cache.buf index).valid = false) :
    view disk cache blockno = disk blockno := by
  unfold view
  split
  · rename_i index found
    simp [invalid index (caches_of_lookup found)]
  · rfl

/-- When two coherent caches show the same contents. -/
theorem Coherent.view_eq {other : Cache} {otherHandles : Handles} {otherPinned : List Nat}
    (otherCoherent : Coherent disk other otherHandles otherPinned)
    (kept : ∀ {index blockno}, Caches other index blockno → (other.buf index).valid = true →
      view disk cache blockno = (other.buf index).data)
    (lost : ∀ {index blockno}, Caches cache index blockno → (cache.buf index).valid = true →
      (¬∃ place, Caches other place blockno ∧ (other.buf place).valid = true) →
      (cache.buf index).data = disk blockno) : view disk other = view disk cache := by
  funext blockno
  by_cases present : ∃ place, Caches other place blockno ∧ (other.buf place).valid = true
  · obtain ⟨place, caches, valid⟩ := present
    rw [otherCoherent.view_eq_data caches valid, kept caches valid]
  · have invalid : ∀ place, Caches other place blockno → (other.buf place).valid = false := by
      intro place caches
      by_contra is_valid
      exact present ⟨place, caches, by simpa using is_valid⟩
    rw [view_eq_disk invalid]
    by_cases before : ∃ index, Caches cache index blockno ∧ (cache.buf index).valid = true
    · obtain ⟨index, caches, valid⟩ := before
      rw [coherent.view_eq_data caches valid, lost caches valid present]
    · rw [view_eq_disk]
      intro index caches
      by_contra is_valid
      exact before ⟨index, caches, by simpa using is_valid⟩

theorem Coherent.view_congr {other : Cache} {otherHandles : Handles} {otherPinned : List Nat}
    (otherCoherent : Coherent disk other otherHandles otherPinned)
    (same : ∀ index, SameData (cache.buf index) (other.buf index)) :
    view disk other = view disk cache := by
  have caches_iff : ∀ {index blockno}, Caches other index blockno ↔ Caches cache index blockno := by
    intro index blockno
    simp [Caches, (same index).dev, (same index).blockno]
  apply coherent.view_eq otherCoherent
  · intro index blockno caches valid
    rw [(same index).valid] at valid
    rw [(same index).data, coherent.view_eq_data (caches_iff.mp caches) valid]
  · intro index blockno caches valid gone
    exact absurd ⟨index, caches_iff.mpr caches, (same index).valid.trans valid⟩ gone

end

section

variable {handles : Handles} {key : Pid × Local} {old new : Handle} {index : Fin NBUF}

theorem refs_insert_same (found : handles.lookup key = some old) (same : new.buf = old.buf) :
    refs (handles.insert key new) index = refs handles index :=
  AList.countValues_insert_same found (by simp [same])

theorem refs_insert_new (fresh : handles.lookup key = none) :
    refs (handles.insert key new) index =
      refs handles index + if new.buf = index then 1 else 0 := by
  simpa [refs] using AList.countValues_insert_new fresh new fun handle => handle.buf = index

theorem refs_erase (found : handles.lookup key = some old) (index : Fin NBUF) :
    refs (handles.erase key) index + (if old.buf = index then 1 else 0) = refs handles index := by
  simpa [refs] using AList.countValues_erase found fun handle => handle.buf = index

theorem refs_pos (found : handles.lookup key = some old) : 0 < refs handles old.buf :=
  AList.countValues_pos found (by simp)

theorem pin_congr {cache other : Cache} {pinned : List Nat}
    (dev : (other.buf index).dev = (cache.buf index).dev)
    (blockno : (other.buf index).blockno = (cache.buf index).blockno) :
    pin other pinned index = pin cache pinned index := by
  simp [pin, dev, blockno]

end

section

variable {disk : Nat → Block} {cache : Cache} {handles : Handles} {pinned : List Nat}
  {key : Pid × Local} {handle : Handle}

variable (coherent : Coherent disk cache handles pinned)

include coherent

theorem Coherent.only_holder
    (found : handles.lookup key = some handle) (holding : handle.stage.Holding)
    {other : Pid × Local} {otherHandle : Handle}
    (otherFound : handles.lookup other = some otherHandle)
    (otherHolding : otherHandle.stage.Holding) (different : other ≠ key) :
    otherHandle.buf ≠ handle.buf :=
  fun same => different (coherent.exclusive otherFound found otherHolding holding same)

/-- Insert or replace one reference without changing which block any buffer caches. -/
theorem Coherent.transition
    {newDisk : Nat → Block} {newCache : Cache} {newPinned : List Nat} (new : Handle)
    (listed : ∀ index, index ∈ newCache.order)
    (identity : ∀ index, (newCache.buf index).dev = (cache.buf index).dev ∧
      (newCache.buf index).blockno = (cache.buf index).blockno)
    (valid : ∀ index, (cache.buf index).valid = true → (newCache.buf index).valid = true)
    (counted : ∀ index, refs (handles.insert key new) index + pin cache newPinned index ≤
      (newCache.buf index).refcnt) (mapped : (cache.buf new.buf).dev = ROOTDEV)
    (held : new.stage.Holding → (newCache.buf new.buf).lock = some key.1)
    (others : ∀ other otherHandle, other ≠ key → handles.lookup other = some otherHandle →
      otherHandle.stage.Holding →
      (newCache.buf otherHandle.buf).lock = (cache.buf otherHandle.buf).lock ∧
        (new.stage.Holding → otherHandle.buf ≠ new.buf))
    (filled : new.stage = .filled → (newCache.buf new.buf).valid = true)
    (dirty : new.dirty = true → new.stage = .filled)
    (cached : ∀ blockno ∈ newPinned, blockno ∈ pinned ∨
      ∃ index, Caches cache index blockno ∧ (newCache.buf index).valid = true)
    (clean : ∀ {index}, (cache.buf index).dev = ROOTDEV → (newCache.buf index).valid = true →
      (newCache.buf index).data ≠ newDisk (cache.buf index).blockno →
      (cache.buf index).blockno ∈ newPinned ∨
        ∃ other otherHandle, (handles.insert key new).lookup other = some otherHandle ∧
          otherHandle.buf = index ∧ otherHandle.dirty = true) :
    Coherent newDisk newCache (handles.insert key new) newPinned := by
  have caches_iff : ∀ index number, Caches newCache index number ↔ Caches cache index number := by
    intro index number
    simp [Caches, (identity index).1, (identity index).2]
  refine ⟨listed, ?_, ?_, ?_, ?_, ?_, ?_, ?_, ?_, ?_⟩
  · intro left right number left_caches right_caches
    exact coherent.unique ((caches_iff left number).mp left_caches)
      ((caches_iff right number).mp right_caches)
  · intro index
    rw [pin_congr (identity index).1 (identity index).2]
    exact counted index
  · intro other found entry
    rw [(identity found.buf).1]
    rcases lookup_insert_eq_some.mp entry with ⟨-, rfl⟩ | ⟨-, entry⟩
    · exact mapped
    · exact coherent.mapped entry
  · intro other found entry holding
    rcases lookup_insert_eq_some.mp entry with ⟨rfl, rfl⟩ | ⟨different, entry⟩
    · exact held holding
    · rw [(others other found different entry holding).1]
      exact coherent.held entry holding
  · intro left right leftHandle rightHandle leftEntry rightEntry leftHolding rightHolding same
    rcases lookup_insert_eq_some.mp leftEntry with ⟨rfl, rfl⟩ | ⟨leftDifferent, leftOld⟩ <;>
      rcases lookup_insert_eq_some.mp rightEntry with
        ⟨rfl, rfl⟩ | ⟨rightDifferent, rightOld⟩
    · rfl
    · exact absurd same.symm
        ((others right rightHandle rightDifferent rightOld rightHolding).2 leftHolding)
    · exact absurd same ((others left leftHandle leftDifferent leftOld leftHolding).2 rightHolding)
    · exact coherent.exclusive leftOld rightOld leftHolding rightHolding same
  · intro other found entry stage
    rcases lookup_insert_eq_some.mp entry with ⟨-, rfl⟩ | ⟨-, entry⟩
    · exact filled stage
    · exact valid found.buf (coherent.filled entry stage)
  · intro other found entry is_dirty
    rcases lookup_insert_eq_some.mp entry with ⟨-, rfl⟩ | ⟨-, entry⟩
    · exact dirty is_dirty
    · exact coherent.dirty entry is_dirty
  · intro number member
    rcases cached number member with old | ⟨index, caches, is_valid⟩
    · obtain ⟨index, caches, was_valid⟩ := coherent.cached number old
      exact ⟨index, (caches_iff index number).mpr caches, valid index was_valid⟩
    · exact ⟨index, (caches_iff index number).mpr caches, is_valid⟩
  · intro index dev is_valid differs
    rw [(identity index).1] at dev
    rw [(identity index).2] at differs ⊢
    exact clean dev is_valid differs

/-- Change locks and counts of one buffer and the reference to it, but no contents. -/
theorem Coherent.touch {newPinned : List Nat}
    (new : Handle) {buf : Buf} (same : SameData (cache.buf new.buf) buf)
    (mapped : (cache.buf new.buf).dev = ROOTDEV)
    (counted : ∀ index, refs (handles.insert key new) index + pin cache newPinned index ≤
      ((cache.set new.buf buf).buf index).refcnt) (held : new.stage.Holding → buf.lock = some key.1)
    (others : ∀ other otherHandle, other ≠ key → handles.lookup other = some otherHandle →
      otherHandle.stage.Holding → otherHandle.buf = new.buf →
      buf.lock = (cache.buf new.buf).lock ∧ ¬new.stage.Holding)
    (filled : new.stage = .filled → buf.valid = true)
    (dirty : new.dirty = true → new.stage = .filled)
    (kept : ∀ blockno ∈ pinned, blockno ∈ newPinned)
    (cached : ∀ blockno ∈ newPinned, blockno ∈ pinned ∨
      ∃ index, Caches cache index blockno ∧ (cache.buf index).valid = true)
    (replaced : ∀ old, handles.lookup key = some old → old.buf = new.buf ∧
      (old.dirty = true → new.dirty = true ∨ (cache.buf new.buf).blockno ∈ newPinned)) :
    Coherent disk (cache.set new.buf buf) (handles.insert key new) newPinned := by
  have all : ∀ index, SameData (cache.buf index) ((cache.set new.buf buf).buf index) :=
    sameData_set same
  refine coherent.transition new coherent.listed (fun index => ⟨(all index).dev, (all index).blockno⟩)
    (fun index valid => (all index).valid.trans valid) counted mapped (by simpa using held) ?_
    (by simpa using filled) dirty ?_ ?_
  · intro other found different entry holding
    by_cases equal : found.buf = new.buf
    · obtain ⟨lock, idle⟩ := others other found different entry holding equal
      refine ⟨by simp [equal, lock], fun busy => absurd busy idle⟩
    · exact ⟨by simp [equal], fun _ => equal⟩
  · intro number member
    rcases cached number member with old | ⟨index, caches, valid⟩
    · exact .inl old
    · exact .inr ⟨index, caches, (all index).valid.trans valid⟩
  · intro index dev valid differs
    rw [(all index).valid] at valid
    rw [(all index).data] at differs
    rcases coherent.clean dev valid differs with member | ⟨other, found, entry, equal, is_dirty⟩
    · exact .inl (kept _ member)
    · by_cases at_key : other = key
      · subst at_key
        obtain ⟨same_buf, still⟩ := replaced found entry
        rcases still is_dirty with dirty_new | pinned_new
        · exact .inr ⟨other, new, by simp, same_buf.symm.trans equal, dirty_new⟩
        · left
          rwa [← equal, same_buf]
      · exact .inr ⟨other, found, lookup_insert_eq_some.mpr (.inr ⟨at_key, entry⟩), equal,
          is_dirty⟩

variable {index : Fin NBUF}

theorem Coherent.bget_hit {blockno : Nat} (fresh : handles.lookup key = none)
    (caches : Caches cache index blockno) :
    Coherent disk
      (cache.set index { cache.buf index with refcnt := (cache.buf index).refcnt + 1 })
      (handles.insert key { buf := index, stage := .referenced, dirty := false }) pinned := by
  refine coherent.touch { buf := index, stage := .referenced, dirty := false }
    ⟨rfl, rfl, rfl, rfl⟩ caches.1 ?_ (fun holding => holding.elim)
    (fun _ _ _ _ _ _ => ⟨rfl, id⟩) (by simp) (by simp) (fun _ => id) (fun _ => .inl) ?_
  · intro place
    have counted := coherent.counted place
    rw [refs_insert_new fresh]
    by_cases equal : place = index
    · subst equal
      simp only [set_buf_self, if_true]
      omega
    · rw [set_buf_of_ne _ _ equal, if_neg (Ne.symm equal)]
      omega
  · intro old entry
    rw [fresh] at entry
    cases entry

section

variable (found : handles.lookup key = some handle)
include found

theorem Coherent.acquire (stage : handle.stage = .referenced)
    (free : (cache.buf handle.buf).lock = none) :
    Coherent disk (cache.set handle.buf { cache.buf handle.buf with lock := some key.1 })
      (handles.insert key { handle with stage := .locked }) pinned := by
  have undirtied : handle.dirty ≠ true := by
    intro dirty
    have filled := coherent.dirty found dirty
    rw [stage] at filled
    cases filled
  have mapped := coherent.mapped found
  refine coherent.touch { handle with stage := .locked } ⟨rfl, rfl, rfl, rfl⟩
    mapped ?_ (fun _ => rfl) ?_ (by simp) (fun dirty => absurd dirty undirtied)
    (fun _ => id) (fun _ => .inl) ?_
  · intro place
    rw [refs_insert_same found (by rfl)]
    have counted := coherent.counted place
    by_cases equal : place = handle.buf
    · subst equal
      simpa using counted
    · simpa [equal] using counted
  · intro other otherHandle _ entry holding same
    have lock := coherent.held entry holding
    rw [same] at lock
    simp only [free] at lock
    cases lock
  · intro old entry
    rw [found] at entry
    cases entry
    exact ⟨rfl, fun dirty => absurd dirty undirtied⟩

theorem Coherent.release (stage : handle.stage = .filled)
    (settled : handle.dirty = false) :
    Coherent disk (cache.set handle.buf { cache.buf handle.buf with lock := none })
      (handles.insert key { handle with stage := .unlocked }) pinned := by
  have mapped := coherent.mapped found
  refine coherent.touch { handle with stage := .unlocked } ⟨rfl, rfl, rfl, rfl⟩
    mapped ?_ (fun holding => holding.elim) ?_ (by simp) (by simp [settled])
    (fun _ => id) (fun _ => .inl) ?_
  · intro place
    rw [refs_insert_same found (by rfl)]
    have counted := coherent.counted place
    by_cases equal : place = handle.buf
    · subst equal
      simpa using counted
    · simpa [equal] using counted
  · intro other otherHandle different entry holding same
    exact absurd same
      (coherent.only_holder found (by simp [stage, Stage.Holding]) entry holding different)
  · intro old entry
    rw [found] at entry
    cases entry
    exact ⟨rfl, by simp [settled]⟩

theorem Coherent.absorb (stage : handle.stage = .filled)
    (member : (cache.buf handle.buf).blockno ∈ pinned) :
    Coherent disk cache (handles.insert key { handle with dirty := false }) pinned := by
  have mapped := coherent.mapped found
  have filled := coherent.filled found stage
  have held : (cache.buf handle.buf).lock = some key.1 :=
    coherent.held found (by simp [stage, Stage.Holding])
  have unchanged : cache.set handle.buf (cache.buf handle.buf) = cache := by
    simp [Cache.set]
  have touched : Coherent disk (cache.set handle.buf (cache.buf handle.buf))
      (handles.insert key { handle with dirty := false }) pinned := by
    refine coherent.touch { handle with dirty := false } (.refl (cache.buf handle.buf)) mapped ?_
      (fun _ => held) ?_ (fun _ => filled) (by simp) (fun _ => id) (fun _ => .inl) ?_
    · intro place
      rw [refs_insert_same found (by rfl), unchanged]
      exact coherent.counted place
    · intro other otherHandle different entry holding same
      exact absurd same
        (coherent.only_holder found (by simp [stage, Stage.Holding]) entry holding different)
    · intro old entry
      rw [found] at entry
      cases entry
      exact ⟨rfl, fun _ => .inr member⟩
  simpa only [unchanged] using touched

theorem Coherent.fill (stage : handle.stage = .locked)
    (valid : (cache.buf handle.buf).valid = true) :
    Coherent disk (cache.set handle.buf (cache.buf handle.buf))
      (handles.insert key { handle with stage := .filled }) pinned := by
  have mapped := coherent.mapped found
  have held : (cache.buf handle.buf).lock = some key.1 :=
    coherent.held found (by simp [stage, Stage.Holding])
  refine coherent.touch { handle with stage := .filled } (.refl (cache.buf handle.buf)) mapped ?_
    (fun _ => held) ?_ (fun _ => valid) (by simp) (fun _ => id) (fun _ => .inl) ?_
  · intro place
    rw [refs_insert_same found (by rfl)]
    simpa [Cache.set] using coherent.counted place
  · intro other otherHandle different entry holding same
    exact absurd same
      (coherent.only_holder found (by simp [stage, Stage.Holding]) entry holding different)
  · intro old entry
    rw [found] at entry
    cases entry
    exact ⟨rfl, .inl⟩

/-- `lwrite` of a block that is new to the log pins its buffer. -/
theorem Coherent.enlist (stage : handle.stage = .filled)
    (absent : (cache.buf handle.buf).blockno ∉ pinned) :
    Coherent disk (cache.bpin handle.buf) (handles.insert key { handle with dirty := false })
      (pinned ++ [(cache.buf handle.buf).blockno]) := by
  have mapped := coherent.mapped found
  have filled := coherent.filled found stage
  have held : (cache.buf handle.buf).lock = some key.1 :=
    coherent.held found (by simp [stage, Stage.Holding])
  refine coherent.touch { handle with dirty := false } ⟨rfl, rfl, rfl, rfl⟩
    mapped ?_ (fun _ => held) ?_
    (fun _ => filled) (by simp) (fun _ member => by simp [member]) ?_ ?_
  · intro place
    rw [refs_insert_same found (by rfl)]
    have counted := coherent.counted place
    by_cases equal : place = handle.buf
    · subst equal
      simp only [pin, absent, and_false, if_false] at counted
      simp only [pin, mapped, set_buf_self]
      simpa using counted
    · have same_pin : pin cache (pinned ++ [(cache.buf handle.buf).blockno]) place =
          pin cache pinned place := by
        unfold pin
        congr 1
        simp only [List.mem_append, List.mem_singleton, eq_iff_iff, and_congr_right_iff]
        intro dev
        have different : (cache.buf place).blockno ≠ (cache.buf handle.buf).blockno :=
          fun same => equal (coherent.unique ⟨dev, same⟩ ⟨mapped, rfl⟩)
        simp [different]
      rw [same_pin, set_buf_of_ne _ _ equal]
      exact counted
  · intro other otherHandle different entry holding same
    exact absurd same
      (coherent.only_holder found (by simp [stage, Stage.Holding]) entry holding different)
  · intro number member
    rcases List.mem_append.mp member with old | new
    · exact .inl old
    · obtain rfl := List.mem_singleton.mp new
      exact .inr ⟨handle.buf, ⟨mapped, rfl⟩, filled⟩
  · intro old entry
    rw [found] at entry
    cases entry
    exact ⟨rfl, fun _ => .inr (by simp)⟩

theorem Coherent.overwrite (holding : handle.stage.Holding) (block : Block)
    (dirty : Bool) (clean : dirty = false → handle.dirty = false ∧
      block = disk (cache.buf handle.buf).blockno) :
    Coherent disk
      (cache.set handle.buf { cache.buf handle.buf with data := block, valid := true })
      (handles.insert key { handle with stage := .filled, dirty := dirty }) pinned := by
  have mapped := coherent.mapped found
  have held := coherent.held found holding
  refine coherent.transition { handle with stage := .filled, dirty := dirty }
    coherent.listed ?_ ?_ ?_ mapped ?_ ?_ ?_ (fun _ => rfl) (fun _ => .inl) ?_
  · intro place
    by_cases equal : place = handle.buf
    · subst equal
      simp
    · simp [equal]
  · intro place valid
    by_cases equal : place = handle.buf
    · subst equal
      simp
    · simpa [equal] using valid
  · intro place
    rw [refs_insert_same found (by rfl)]
    have counted := coherent.counted place
    by_cases equal : place = handle.buf
    · subst equal
      simpa using counted
    · simpa [equal] using counted
  · intro _
    simpa using held
  · intro other otherHandle different entry otherHolding
    have apart := coherent.only_holder found holding entry otherHolding different
    exact ⟨by rw [set_buf_of_ne _ _ apart], fun _ => apart⟩
  · intro _
    simp
  · intro place dev valid differs
    by_cases equal : place = handle.buf
    · subst equal
      simp only [set_buf_self] at differs
      cases dirty with
      | false => exact absurd (clean rfl).2 differs
      | true => exact .inr ⟨key, { handle with stage := .filled, dirty := true }, by simp, rfl, rfl⟩
    · rw [set_buf_of_ne _ _ equal] at valid differs
      rcases coherent.clean dev valid differs with member | ⟨other, old, entry, same, was_dirty⟩
      · exact .inl member
      · refine .inr ⟨other, old, lookup_insert_eq_some.mpr (.inr ⟨?_, entry⟩), same,
          was_dirty⟩
        rintro rfl
        rw [found] at entry
        cases entry
        exact equal same.symm

theorem Coherent.bwrite (stage : handle.stage = .filled) : Coherent
      (update disk (cache.buf handle.buf).blockno (cache.buf handle.buf).data) cache
      (handles.insert key { handle with dirty := false }) pinned := by
  have mapped := coherent.mapped found
  have filled := coherent.filled found stage
  have holding : handle.stage.Holding := by simp [stage, Stage.Holding]
  have held := coherent.held found holding
  refine coherent.transition { handle with dirty := false }
    coherent.listed (fun _ => ⟨rfl, rfl⟩) (fun _ => id) ?_ mapped (fun _ => held) ?_
    (fun _ => filled) (by simp) (fun _ => .inl) ?_
  · intro place
    rw [refs_insert_same found (by rfl)]
    exact coherent.counted place
  · intro other otherHandle different entry otherHolding
    exact ⟨rfl, fun _ => coherent.only_holder found holding entry otherHolding different⟩
  · intro place dev valid differs
    by_cases equal : place = handle.buf
    · subst equal
      simp at differs
    · have apart : (cache.buf place).blockno ≠ (cache.buf handle.buf).blockno :=
        fun same => equal (coherent.unique ⟨dev, same⟩ ⟨mapped, rfl⟩)
      rw [update_of_ne apart] at differs
      rcases coherent.clean dev valid differs with member | ⟨other, old, entry, same, was_dirty⟩
      · exact .inl member
      · refine .inr ⟨other, old, lookup_insert_eq_some.mpr (.inr ⟨?_, entry⟩), same,
          was_dirty⟩
        rintro rfl
        rw [found] at entry
        cases entry
        exact equal same.symm

end

/-- Forgetting the pins of blocks that look the same in the cache and on disk. -/
theorem Coherent.unpin (installed : ∀ blockno ∈ pinned, view disk cache blockno = disk blockno) :
    Coherent disk cache handles [] := by
  refine { coherent with counted := ?_, cached := by simp, clean := ?_ }
  · intro index
    have counted := coherent.counted index
    have unpinned : pin cache [] index = 0 := by simp [pin]
    omega
  · intro index dev valid differs
    rcases coherent.clean dev valid differs with member | dirty
    · have seen := installed _ member
      rw [coherent.view_eq_data ⟨dev, rfl⟩ valid] at seen
      exact absurd seen differs
    · exact .inr dirty

theorem Coherent.put (found : handles.lookup key = some handle) (stage : handle.stage = .unlocked) :
    Coherent disk (cache.brelse handle.buf) (handles.erase key) pinned := by
  have same : ∀ place, SameData (cache.buf place) ((cache.brelse handle.buf).buf place) := by
    intro place
    rw [brelse_buf]
    split <;> exact ⟨rfl, rfl, rfl, rfl⟩
  have lock : ∀ place, ((cache.brelse handle.buf).buf place).lock = (cache.buf place).lock := by
    intro place
    rw [brelse_buf]
    split <;> rfl
  have caches_iff : ∀ place number,
      Caches (cache.brelse handle.buf) place number ↔ Caches cache place number := by
    intro place number
    simp [Caches, (same place).dev, (same place).blockno]
  refine ⟨fun place => Cache.mem_brelse_order _ (coherent.listed place),
    ?_, ?_, ?_, ?_, ?_, ?_, ?_, ?_, ?_⟩
  · intro left right number left_caches right_caches
    exact coherent.unique ((caches_iff left number).mp left_caches)
      ((caches_iff right number).mp right_caches)
  · intro place
    have counted := coherent.counted place
    have erased := refs_erase found place
    rw [pin_congr (same place).dev (same place).blockno, brelse_buf]
    by_cases equal : place = handle.buf
    · subst equal
      simp only [if_true] at erased ⊢
      omega
    · rw [if_neg (Ne.symm equal)] at erased
      rw [if_neg equal]
      omega
  · intro other old entry
    rw [(same old.buf).dev]
    exact coherent.mapped (lookup_erase_eq_some.mp entry).2
  · intro other old entry holding
    rw [lock]
    exact coherent.held (lookup_erase_eq_some.mp entry).2 holding
  · intro left right leftHandle rightHandle leftEntry rightEntry
    exact coherent.exclusive (lookup_erase_eq_some.mp leftEntry).2
      (lookup_erase_eq_some.mp rightEntry).2
  · intro other old entry filled
    rw [(same old.buf).valid]
    exact coherent.filled (lookup_erase_eq_some.mp entry).2 filled
  · intro other old entry
    exact coherent.dirty (lookup_erase_eq_some.mp entry).2
  · intro number member
    obtain ⟨place, caches, valid⟩ := coherent.cached number member
    exact ⟨place, (caches_iff place number).mpr caches, (same place).valid.trans valid⟩
  · intro place dev valid differs
    rw [(same place).dev] at dev
    rw [(same place).valid] at valid
    rw [(same place).data, (same place).blockno] at differs
    rw [(same place).blockno]
    rcases coherent.clean dev valid differs with member | ⟨other, old, entry, equal, dirty⟩
    · exact .inl member
    · refine .inr ⟨other, old, lookup_erase_eq_some.mpr ⟨?_, entry⟩, equal, dirty⟩
      rintro rfl
      rw [found] at entry
      cases entry
      have filled := coherent.dirty found dirty
      rw [stage] at filled
      cases filled

theorem Coherent.victim_free (unreferenced : (cache.buf index).refcnt = 0) :
    (∀ key handle, handles.lookup key = some handle → handle.buf ≠ index) ∧
      ((cache.buf index).dev = ROOTDEV → (cache.buf index).blockno ∉ pinned) := by
  have counted := coherent.counted index
  constructor
  · rintro key handle found rfl
    have positive := refs_pos found
    omega
  · intro dev member
    simp only [pin, dev, member, and_self, if_true] at counted
    omega

section

variable {blockno : Nat} (fresh : handles.lookup key = none)
  (missing : cache.lookup ROOTDEV blockno = none) (unreferenced : (cache.buf index).refcnt = 0)
include fresh missing unreferenced

/-- A miss of `bget` recycles a buffer nobody refers to. -/
theorem Coherent.bget_miss : Coherent disk
      (cache.set index { cache.buf index with
        dev := ROOTDEV, blockno := blockno, valid := false, refcnt := 1 })
      (handles.insert key { buf := index, stage := .referenced, dirty := false }) pinned := by
  obtain ⟨unheld, unpinned⟩ := coherent.victim_free unreferenced
  have uncached : ∀ place, ¬Caches cache place blockno :=
    fun _ => not_caches_of_lookup coherent.listed missing
  have absent : blockno ∉ pinned := by
    intro member
    obtain ⟨place, caches, -⟩ := coherent.cached blockno member
    exact uncached place caches
  set recycled : Buf := { cache.buf index with
    dev := ROOTDEV, blockno := blockno, valid := false, refcnt := 1 } with recycled_def
  have caches_other : ∀ {place number}, place ≠ index →
      (Caches (cache.set index recycled) place number ↔ Caches cache place number) := by
    intro place number different
    simp [Caches, different]
  have caches_self : ∀ {number}, Caches (cache.set index recycled) index number →
      number = blockno := by
    intro number caches
    have equal := caches.2
    simp only [set_buf_self, recycled_def] at equal
    exact equal.symm
  refine ⟨coherent.listed, ?_, ?_, ?_, ?_, ?_, ?_, ?_, ?_, ?_⟩
  · intro left right number left_caches right_caches
    by_cases left_eq : left = index <;> by_cases right_eq : right = index
    · rw [left_eq, right_eq]
    · rw [left_eq] at left_caches
      rw [caches_other right_eq, caches_self left_caches] at right_caches
      exact absurd right_caches (uncached right)
    · rw [right_eq] at right_caches
      rw [caches_other left_eq, caches_self right_caches] at left_caches
      exact absurd left_caches (uncached left)
    · exact coherent.unique ((caches_other left_eq).mp left_caches)
        ((caches_other right_eq).mp right_caches)
  · intro place
    have counted := coherent.counted place
    rw [refs_insert_new fresh]
    by_cases equal : place = index
    · subst equal
      simp only [pin, set_buf_self, recycled_def, absent, and_false, if_false, if_true]
      omega
    · have same_pin : pin (cache.set index recycled) pinned place = pin cache pinned place :=
        pin_congr (by simp [equal]) (by simp [equal])
      rw [same_pin, set_buf_of_ne _ _ equal, if_neg (Ne.symm equal)]
      omega
  · intro other old entry
    rcases lookup_insert_eq_some.mp entry with ⟨-, rfl⟩ | ⟨-, entry⟩
    · simp [recycled_def]
    · rw [set_buf_of_ne _ _ (unheld other old entry)]
      exact coherent.mapped entry
  · intro other old entry holding
    rcases lookup_insert_eq_some.mp entry with ⟨-, rfl⟩ | ⟨-, entry⟩
    · exact holding.elim
    · rw [set_buf_of_ne _ _ (unheld other old entry)]
      exact coherent.held entry holding
  · intro left right leftHandle rightHandle leftEntry rightEntry leftHolding rightHolding
    rcases lookup_insert_eq_some.mp leftEntry with ⟨-, rfl⟩ | ⟨-, leftEntry⟩
    · exact leftHolding.elim
    rcases lookup_insert_eq_some.mp rightEntry with ⟨-, rfl⟩ | ⟨-, rightEntry⟩
    · exact rightHolding.elim
    exact coherent.exclusive leftEntry rightEntry leftHolding rightHolding
  · intro other old entry filled
    rcases lookup_insert_eq_some.mp entry with ⟨-, rfl⟩ | ⟨-, entry⟩
    · cases filled
    · rw [set_buf_of_ne _ _ (unheld other old entry)]
      exact coherent.filled entry filled
  · intro other old entry dirty
    rcases lookup_insert_eq_some.mp entry with ⟨-, rfl⟩ | ⟨-, entry⟩
    · cases dirty
    · exact coherent.dirty entry dirty
  · intro number member
    obtain ⟨place, caches, valid⟩ := coherent.cached number member
    have different : place ≠ index := by
      rintro rfl
      exact unpinned caches.1 (caches.2 ▸ member)
    exact ⟨place, (caches_other different).mpr caches, by simpa [different] using valid⟩
  · intro place dev valid differs
    have different : place ≠ index := by
      rintro rfl
      simp [recycled_def] at valid
    rw [set_buf_of_ne _ _ different] at dev valid differs ⊢
    rcases coherent.clean dev valid differs with member | ⟨other, old, entry, same, dirty⟩
    · exact .inl member
    · refine .inr ⟨other, old, lookup_insert_eq_some.mpr (.inr ⟨?_, entry⟩), same, dirty⟩
      rintro rfl
      rw [fresh] at entry
      cases entry

/-- Recycling a buffer does not change what the system sees. -/
theorem Coherent.view_bget_miss : view disk (cache.set index { cache.buf index with
      dev := ROOTDEV, blockno := blockno, valid := false, refcnt := 1 }) = view disk cache := by
  obtain ⟨unheld, unpinned⟩ := coherent.victim_free unreferenced
  apply coherent.view_eq (coherent.bget_miss fresh missing unreferenced)
  · intro place number caches valid
    have different : place ≠ index := by
      rintro rfl
      simp at valid
    simp only [Caches, set_buf_of_ne _ _ different] at caches valid ⊢
    exact coherent.view_eq_data caches valid
  · intro place number caches valid gone
    have recycled : place = index := by
      by_contra different
      exact gone ⟨place, by simpa [Caches, different] using caches,
        by simpa [different] using valid⟩
    subst recycled
    by_contra differs
    rw [← caches.2] at differs
    rcases coherent.clean caches.1 valid differs with member | ⟨other, old, entry, same, -⟩
    · exact unpinned caches.1 member
    · exact unheld other old entry same

end

section

variable (found : handles.lookup key = some handle)
include found

/-- Overwriting a held buffer changes exactly the view of its block. -/
theorem Coherent.view_overwrite (holding : handle.stage.Holding) (block : Block) :
    view disk (cache.set handle.buf { cache.buf handle.buf with data := block, valid := true }) =
      update (view disk cache) (cache.buf handle.buf).blockno block := by
  have after := coherent.overwrite found holding block true (by simp)
  have mapped := coherent.mapped found
  funext number
  by_cases here : number = (cache.buf handle.buf).blockno
  · subst here
    have caches : Caches (cache.set handle.buf { cache.buf handle.buf with
        data := block, valid := true }) handle.buf (cache.buf handle.buf).blockno := by
      simpa [Caches] using mapped
    rw [Function.update_self, after.view_eq_data caches (by simp)]
    simp
  · rw [update_of_ne here]
    have lookup_eq : (cache.set handle.buf { cache.buf handle.buf with
        data := block, valid := true }).lookup ROOTDEV number = cache.lookup ROOTDEV number := by
      unfold Cache.lookup
      congr 1
      funext place
      by_cases equal : place = handle.buf
      · subst equal
        simp
      · simp [equal]
    unfold view
    rw [lookup_eq]
    cases found_place : cache.lookup ROOTDEV number with
    | none => rfl
    | some place =>
      have different : place ≠ handle.buf := by
        rintro rfl
        exact here (caches_of_lookup found_place).2.symm
      simp [different]

theorem Coherent.store (stage : handle.stage = .filled) (block : Block) :
    Coherent disk (cache.set handle.buf { cache.buf handle.buf with data := block })
        (handles.insert key { handle with dirty := true }) pinned ∧
      view disk (cache.set handle.buf { cache.buf handle.buf with data := block }) =
        update (view disk cache) (cache.buf handle.buf).blockno block := by
  have holding : handle.stage.Holding := by simp [stage, Stage.Holding]
  have buf_eq : { cache.buf handle.buf with data := block } =
      { cache.buf handle.buf with data := block, valid := true } := by
    rw [← coherent.filled found stage]
  have handle_eq : { handle with dirty := true } =
      { handle with stage := .filled, dirty := true } := by
    rw [← stage]
  rw [buf_eq, handle_eq]
  exact ⟨coherent.overwrite found holding block true (by simp),
    coherent.view_overwrite found holding block⟩

/-- Filling an invalid buffer from disk does not change what the system sees. -/
theorem Coherent.update_view_of_invalid (invalid : (cache.buf handle.buf).valid = false) :
    update (view disk cache) (cache.buf handle.buf).blockno
      (disk (cache.buf handle.buf).blockno) = view disk cache := by
  apply Function.update_eq_self_iff.mpr
  symm
  apply view_eq_disk
  intro place caches
  rw [coherent.unique caches ⟨coherent.mapped found, rfl⟩]
  exact invalid

/-- Writing a held buffer to disk does not change what the system sees. -/
theorem Coherent.view_bwrite (stage : handle.stage = .filled) :
    view (update disk (cache.buf handle.buf).blockno (cache.buf handle.buf).data) cache =
      view disk cache := by
  have mapped := coherent.mapped found
  have filled := coherent.filled found stage
  funext number
  by_cases here : number = (cache.buf handle.buf).blockno
  · subst here
    rw [coherent.view_eq_data ⟨mapped, rfl⟩ filled,
      (coherent.bwrite found stage).view_eq_data ⟨mapped, rfl⟩ filled]
  · unfold view
    rw [update_of_ne here]

theorem Coherent.view_of_filled (stage : handle.stage = .filled) :
    view disk cache (cache.buf handle.buf).blockno = (cache.buf handle.buf).data :=
  coherent.view_eq_data ⟨coherent.mapped found, rfl⟩ (coherent.filled found stage)

end

omit coherent in
theorem coherent_init (disk : Nat → Block) : Coherent disk init ∅ [] := by
  refine ⟨?_, ?_, ?_, ?_, ?_, ?_, ?_, ?_, ?_, ?_⟩
  · intro index
    simp [init]
  all_goals simp [init, Caches, ROOTDEV, refs, pin]

omit coherent in
theorem view_init (disk : Nat → Block) : view disk init = disk := by
  funext number
  apply view_eq_disk
  intro index _
  rfl

end

end OsCpp.Log
