import OsCpp.Buffers.Order
import OsCpp.Lib.Tally

/-!
# Contents of the buffer cache

What `bread` returns, when every modified buffer is pinned or written before it is released and pins are
taken back in order.
-/

namespace OsCpp.Buffers

open Tally (count count_pos hit hit_none hit_self hit_some)
open Execution (Run exec exists_run_of_exec)
open State (decrement increment setBuf setHandle)
open Function (update update_of_ne update_self)

variable {Ref Data : Type} {s s' : State Ref Data}

/-- Pins and modified buffers are treated in order, and there are less than `2 ^ 32` references. -/
def Disciplined (s : State Ref Data) : Event Ref Data → Prop
  | .bget _ dev _ => dev ≠ 0 ∧ ∀ b, (s.buf b).refcnt + 1 < 2 ^ 32
  | .bpin b => (s.buf b).refcnt + 1 < 2 ^ 32
  | .bupin b => 0 < s.pins b ∧ (s.dirty b = true → 1 < s.pins b ∨ (s.buf b).lock ≠ none)
  | .release r => ∀ h ∈ s.handle r, s.dirty h.buf = true → 0 < s.pins h.buf
  | _ => True

instance (s : State Ref Data) (event : Event Ref Data) : Decidable (Disciplined s event) := by
  cases event <;> unfold Disciplined <;> infer_instance

/-- The references to buffers. -/
def refs (s : State Ref Data) (r : Ref) : Option (Fin NBUF) := (s.handle r).map Handle.buf

/-- `refcnt` counts references and pins. -/
def Counted [Fintype Ref] (s : State Ref Data) : Prop :=
  ∀ b, (s.buf b).refcnt = s.pins b + count (refs s) b ∧ (s.buf b).refcnt < 2 ^ 32

/-- A reference for which the sleep-lock of a buffer is held. -/
def Holds : Option Handle → Fin NBUF → Prop
  | none, _ => False
  | some h, b => h.buf = b ∧ (h.stage = .locked ∨ h.stage = .filled)

/-- References are to buffers with their block, and locks are held for references. -/
structure Held (s : State Ref Data) : Prop where
  keyed : ∀ {r h}, s.handle r = some h → key (s.buf h.buf) = (h.dev, h.blockno) ∧ h.dev ≠ 0
  filled : ∀ {r h}, s.handle r = some h → h.stage = .filled → (s.buf h.buf).valid = true
  locked : ∀ b r, (s.buf b).lock = some r ↔ Holds (s.handle r) b

/-- Buffers have what was last placed in them, and so has the disk but for modified buffers. -/
structure Current (s : State Ref Data) : Prop where
  device : ∀ {b}, (s.buf b).valid = true → (s.buf b).dev ≠ 0
  data : ∀ {b}, (s.buf b).valid = true → (s.buf b).data = s.latest (s.buf b).dev (s.buf b).blockno
  dirty : ∀ {b}, s.dirty b = true → (s.buf b).valid = true ∧ (0 < s.pins b ∨ (s.buf b).lock ≠ none)
  disk : ∀ dev blockno, s.disk dev blockno = s.latest dev blockno ∨
    ∃ b, key (s.buf b) = (dev, blockno) ∧ s.dirty b = true

structure Coherent [Fintype Ref] (s : State Ref Data) : Prop where
  counted : Counted s
  held : Held s
  current : Current s

theorem coherent_init [Fintype Ref] (blank : Data) (disk : Nat → Nat → Data) :
    Coherent (init blank disk : State Ref Data) := by
  refine ⟨fun b => ?_, ⟨nofun, nofun, fun b r => ?_⟩,
    ⟨nofun, nofun, nofun, fun _ _ => .inl rfl⟩⟩
  · have none : count (refs (init blank disk : State Ref Data)) b = 0 := Tally.count_eq_zero (fun _ => rfl) b
    rw [none]
    exact ⟨rfl, Nat.two_pow_pos 32⟩
  · exact ⟨nofun, fun holds => holds.elim⟩

variable {b : Fin NBUF}

/-- A buffer without references has no handle, no pin and no modification. -/
theorem Coherent.unused [Fintype Ref] (coherent : Coherent s)
    (zero : (s.buf b).refcnt = 0) : s.pins b = 0 ∧ count (refs s) b = 0 ∧
      (∀ {r h}, s.handle r = some h → h.buf ≠ b) ∧ (s.buf b).lock = none ∧ s.dirty b = false := by
  have counted := (coherent.counted b).1
  rw [zero] at counted
  have nobody : ∀ {r h}, s.handle r = some h → h.buf ≠ b := by
    rintro r h has rfl
    have counts : refs s r = some h.buf := by rw [refs, has]; rfl
    have := count_pos counts
    omega
  have free : (s.buf b).lock = none := by
    cases taken : (s.buf b).lock with
    | none => rfl
    | some r =>
      have holds := (coherent.held.locked b r).mp taken
      cases has : s.handle r with
      | none =>
        rw [has] at holds
        exact holds.elim
      | some h =>
        rw [has] at holds
        exact absurd holds.1 (nobody has)
  refine ⟨by omega, by omega, nobody, free, ?_⟩
  cases changed : s.dirty b with
  | false => rfl
  | true =>
    rcases (coherent.current.dirty changed).2 with pinned | held
    · omega
    · exact absurd free held

theorem Current.same_buf (current : Current s) (unique : Unique s) {b' : Fin NBUF}
    (valid : (s.buf b).valid = true) (equal : key (s.buf b') = key (s.buf b)) : b' = b :=
  unique_iff.mp unique (current.device valid) equal

/-- Nothing but counters, pins and locks changes. -/
theorem Current.frame (current : Current s)
    (same : ∀ b, (s'.buf b).valid = (s.buf b).valid ∧ key (s'.buf b) = key (s.buf b) ∧
      (s'.buf b).data = (s.buf b).data)
    (history : s'.latest = s.latest ∧ s'.disk = s.disk ∧ s'.dirty = s.dirty)
    (kept : ∀ b, s.dirty b = true → 0 < s'.pins b ∨ (s'.buf b).lock ≠ none) : Current s' := by
  obtain ⟨latest, disk, dirty⟩ := history
  have dev : ∀ b, (s'.buf b).dev = (s.buf b).dev := fun b => congrArg Prod.fst (same b).2.1
  have blockno : ∀ b, (s'.buf b).blockno = (s.buf b).blockno := fun b => congrArg Prod.snd (same b).2.1
  refine ⟨fun {b} valid => ?_, fun {b} valid => ?_, fun {b} changed => ?_, fun device number => ?_⟩
  · rw [(same b).1] at valid
    rw [dev]
    exact current.device valid
  · rw [(same b).1] at valid
    rw [(same b).2.2, latest, dev, blockno]
    exact current.data valid
  · rw [dirty] at changed
    rw [(same b).1]
    exact ⟨(current.dirty changed).1, kept b changed⟩
  · simp only [(same _).2.1, latest, disk, dirty]
    exact current.disk device number

theorem buf_setBuf (s : State Ref Data) (b b' : Fin NBUF) (buf : Buf Ref Data) :
    (s.setBuf b buf).buf b' = if b' = b then buf else s.buf b' := Function.update_apply ..

/-- An unmodified buffer is given to another block. -/
theorem Current.reassign (current : Current s) (clean : s.dirty b = false) {buf : Buf Ref Data}
    {handle : Ref → Option Handle} (invalid : buf.valid = false) :
    Current { s with
      buf := update s.buf b buf, dirty := update s.dirty b false, handle := handle } := by
  have other : ∀ {b'}, s.dirty b' = true → b' ≠ b := by
    rintro b' changed rfl
    rw [clean] at changed
    cases changed
  have valid_ne : ∀ {b'}, (update s.buf b buf b').valid = true → b' ≠ b := by
    rintro b' valid rfl
    rw [update_self, invalid] at valid
    cases valid
  refine ⟨fun {b'} valid => ?_, fun {b'} valid => ?_, fun {b'} changed => ?_, fun dev blockno => ?_⟩
  · have apart := valid_ne valid
    simp only [update_of_ne apart] at valid ⊢
    exact current.device valid
  · have apart := valid_ne valid
    simp only [update_of_ne apart] at valid ⊢
    exact current.data valid
  · have before : s.dirty b' = true := by
      by_cases here : b' = b
      · rw [here] at changed
        simp at changed
      · simpa [here] using changed
    simp only [update_of_ne (other before)]
    exact current.dirty before
  · refine (current.disk dev blockno).imp_right ?_
    rintro ⟨b', equal, changed⟩
    refine ⟨b', ?_, ?_⟩
    · simpa only [update_of_ne (other changed)] using equal
    · simpa only [update_of_ne (other changed)] using changed

theorem store_self (disk : Nat → Nat → Data) (dev blockno : Nat) (data : Data) :
    State.store disk dev blockno data dev blockno = data := by
  simp [State.store]

theorem store_of_ne (disk : Nat → Nat → Data) {dev blockno dev' blockno' : Nat} (data : Data)
    (other : (dev', blockno') ≠ (dev, blockno)) :
    State.store disk dev blockno data dev' blockno' = disk dev' blockno' := by
  unfold State.store
  by_cases same : dev' = dev
  · subst same
    rw [update_self, update_of_ne]
    rintro rfl
    exact other rfl
  · rw [update_of_ne same]

theorem Current.modify (current : Current s) (unique : Unique s) {r : Ref} (data : Data)
    (valid : (s.buf b).valid = true) (lock : (s.buf b).lock = some r) : Current (s.modify b data) := by
  have words : ∀ b', (s.modify b data).buf b' = if b' = b then { s.buf b with data := data } else s.buf b' :=
    fun b' => buf_setBuf s b b' _
  have alone : ∀ {b'}, b' ≠ b → key (s.buf b') ≠ key (s.buf b) := fun other equal =>
    other (current.same_buf unique valid equal)
  have keys : ∀ b', key ((s.modify b data).buf b') = key (s.buf b') := fun b' => key_update b' rfl
  refine ⟨fun {b'} valid' => ?_, fun {b'} valid' => ?_, fun {b'} changed => ?_, fun dev blockno => ?_⟩
  · by_cases here : b' = b
    · simpa only [words, here, if_true] using current.device valid
    · simp only [words, if_neg here] at valid' ⊢
      exact current.device valid'
  · by_cases here : b' = b
    · simp only [words, here, if_true]
      exact (store_self ..).symm
    · simp only [words, if_neg here] at valid' ⊢
      rw [current.data valid']
      exact (store_of_ne _ _ (alone here)).symm
  · by_cases here : b' = b
    · simp only [words, here, if_true]
      exact ⟨valid, .inr (by rw [lock]; simp)⟩
    · simp only [State.modify, update_of_ne here] at changed
      simp only [words, if_neg here]
      exact current.dirty changed
  · by_cases here : (dev, blockno) = key (s.buf b)
    · exact .inr ⟨b, (keys b).trans here.symm, update_self ..⟩
    · have same : (s.modify b data).latest dev blockno = s.latest dev blockno := store_of_ne _ _ here
      rw [same]
      refine (current.disk dev blockno).imp_right ?_
      rintro ⟨b', equal, changed⟩
      refine ⟨b', (keys b').trans equal, ?_⟩
      have other : b' ≠ b := by
        rintro rfl
        exact here equal.symm
      exact (update_of_ne other _ _).trans changed

theorem Current.bwrite (current : Current s) (valid : (s.buf b).valid = true) :
    Current (s.bwrite b) := by
  refine ⟨current.device, current.data, fun {b'} changed => ?_, fun dev blockno => ?_⟩
  · by_cases here : b' = b
    · simp [State.bwrite, here] at changed
    · simp only [State.bwrite, update_of_ne here] at changed
      exact current.dirty changed
  · by_cases here : (dev, blockno) = key (s.buf b)
    · cases here
      exact .inl ((store_self ..).trans (current.data valid))
    · have same : (s.bwrite b).disk dev blockno = s.disk dev blockno := store_of_ne _ _ here
      rw [same]
      refine (current.disk dev blockno).imp_right ?_
      rintro ⟨b', equal, changed⟩
      refine ⟨b', equal, ?_⟩
      have other : b' ≠ b := by
        rintro rfl
        exact here equal.symm
      exact (update_of_ne other _ _).trans changed

/-- A block is read that was not there: no other buffer has it, so the disk is current. -/
theorem Current.read (current : Current s) (unique : Unique s)
    (device : (s.buf b).dev ≠ 0) (invalid : (s.buf b).valid = false) :
    s.disk (s.buf b).dev (s.buf b).blockno = s.latest (s.buf b).dev (s.buf b).blockno ∧
    Current (s.setBuf b { s.buf b with
      data := s.disk (s.buf b).dev (s.buf b).blockno, valid := true }) := by
  have fresh : s.disk (s.buf b).dev (s.buf b).blockno = s.latest (s.buf b).dev (s.buf b).blockno := by
    rcases current.disk (s.buf b).dev (s.buf b).blockno with equal | ⟨b', equal, changed⟩
    · exact equal
    · obtain rfl : b' = b := unique_iff.mp unique device equal
      rw [(current.dirty changed).1] at invalid
      cases invalid
  refine ⟨fresh, fun {b'} valid => ?_, fun {b'} valid => ?_, fun {b'} changed => ?_, fun dev blockno => ?_⟩
  · by_cases here : b' = b
    · simpa only [buf_setBuf, here, if_true] using device
    · simp only [buf_setBuf, if_neg here] at valid ⊢
      exact current.device valid
  · by_cases here : b' = b
    · simp only [buf_setBuf, here, if_true]
      exact fresh
    · simp only [buf_setBuf, if_neg here] at valid ⊢
      exact current.data valid
  · obtain ⟨valid, kept⟩ := current.dirty changed
    have other : b' ≠ b := by
      rintro rfl
      rw [valid] at invalid
      cases invalid
    simp only [buf_setBuf, if_neg other]
    exact ⟨valid, kept⟩
  · refine (current.disk dev blockno).imp_right ?_
    rintro ⟨b', equal, changed⟩
    refine ⟨b', ?_, changed⟩
    rw [← equal]
    exact key_update b' (by rfl)

/-- One reference changes, to a buffer or away from it. -/
theorem Held.set [DecidableEq Ref] (held : Held s) {r : Ref} {handle : Option Handle}
    (handles : s'.handle = update s.handle r handle)
    (others : ∀ {r' h}, s.handle r' = some h → r' ≠ r → key (s'.buf h.buf) = key (s.buf h.buf) ∧
      ((s.buf h.buf).valid = true → (s'.buf h.buf).valid = true))
    (mine : ∀ h, handle = some h → h.buf = b ∧ key (s'.buf b) = (h.dev, h.blockno) ∧ h.dev ≠ 0 ∧
      (h.stage = .filled → (s'.buf b).valid = true))
    (locks : ∀ b' r', (s'.buf b').lock = some r' ↔
      if r' = r then Holds handle b' else (s.buf b').lock = some r') : Held s' := by
  refine ⟨fun {r' h} has => ?_, fun {r' h} has full => ?_, fun b' r' => ?_⟩
  · rw [handles] at has
    by_cases self : r' = r
    · rw [self, update_self] at has
      obtain ⟨rfl, equal, device, -⟩ := mine h has
      exact ⟨equal, device⟩
    · rw [update_of_ne self] at has
      rw [(others has self).1]
      exact held.keyed has
  · rw [handles] at has
    by_cases self : r' = r
    · rw [self, update_self] at has
      obtain ⟨rfl, -, -, valid⟩ := mine h has
      exact valid full
    · rw [update_of_ne self] at has
      exact (others has self).2 (held.filled has full)
  · rw [locks, handles]
    by_cases self : r' = r
    · rw [if_pos self, self, update_self]
    · rw [if_neg self, update_of_ne self]
      exact held.locked b' r'

theorem Held.frame (held : Held s) (handles : s'.handle = s.handle)
    (same : ∀ b, (s'.buf b).valid = (s.buf b).valid ∧ key (s'.buf b) = key (s.buf b) ∧
      (s'.buf b).lock = (s.buf b).lock) : Held s' := by
  refine ⟨fun {r h} has => ?_, fun {r h} has full => ?_, fun b r => ?_⟩
  · rw [handles] at has
    rw [(same _).2.1]
    exact held.keyed has
  · rw [handles] at has
    rw [(same _).1]
    exact held.filled has full
  · rw [(same b).2.2, handles]
    exact held.locked b r

theorem same_setBuf (s : State Ref Data) (b : Fin NBUF) (buf : Buf Ref Data) (valid : buf.valid = (s.buf b).valid)
    (equal : key buf = key (s.buf b)) (data : buf.data = (s.buf b).data) (b' : Fin NBUF) :
    ((s.setBuf b buf).buf b').valid = (s.buf b').valid ∧ key ((s.setBuf b buf).buf b') = key (s.buf b') ∧
      ((s.setBuf b buf).buf b').data = (s.buf b').data := by
  rw [buf_setBuf]
  split
  next here =>
    rw [here]
    exact ⟨valid, equal, data⟩
  · exact ⟨rfl, rfl, rfl⟩

theorem Counted.frame [Fintype Ref] (counted : Counted s) (references : refs s' = refs s)
    (pins : s'.pins = s.pins) (same : ∀ b, (s'.buf b).refcnt = (s.buf b).refcnt) : Counted s' := by
  intro b
  rw [references, pins, same]
  exact counted b

namespace Coherent

variable [Fintype Ref] {r : Ref} {b : Fin NBUF} {dev blockno : Nat}

theorem modify (coherent : Coherent s) (unique : Unique s)
    (has : s.handle r = some ⟨b, dev, blockno, .filled⟩) (data : Data) : Coherent (s.modify b data) := by
  obtain ⟨counted, held, current⟩ := coherent
  have lock : (s.buf b).lock = some r := (held.locked b r).mpr (by rw [has]; exact ⟨rfl, .inr rfl⟩)
  have same : ∀ b', ((s.modify b data).buf b').refcnt = (s.buf b').refcnt ∧
      ((s.modify b data).buf b').valid = (s.buf b').valid ∧
      key ((s.modify b data).buf b') = key (s.buf b') ∧
      ((s.modify b data).buf b').lock = (s.buf b').lock := by
    intro b'
    have words : (s.modify b data).buf b' = if b' = b then { s.buf b with data := data } else s.buf b' :=
      buf_setBuf s b b' _
    rw [words]
    split
    next here =>
      rw [here]
      exact ⟨rfl, rfl, rfl, rfl⟩
    · exact ⟨rfl, rfl, rfl, rfl⟩
  exact ⟨counted.frame rfl rfl fun b' => (same b').1, held.frame rfl fun b' => (same b').2,
    current.modify unique data (held.filled has rfl) lock⟩

theorem bwrite (coherent : Coherent s) (has : s.handle r = some ⟨b, dev, blockno, .filled⟩) :
    Coherent (s.bwrite b) :=
  ⟨coherent.counted.frame rfl rfl fun _ => rfl, coherent.held.frame rfl fun _ => ⟨rfl, rfl, rfl⟩,
    coherent.current.bwrite (coherent.held.filled has rfl)⟩

theorem pin (coherent : Coherent s) {refcnt pins : Nat} (room : refcnt < 2 ^ 32)
    (balance : refcnt + s.pins b = (s.buf b).refcnt + pins)
    (kept : s.dirty b = true → 0 < pins ∨ (s.buf b).lock ≠ none) :
    Coherent { s.setBuf b { s.buf b with refcnt := refcnt } with
      pins := update s.pins b pins } := by
  obtain ⟨counted, held, current⟩ := coherent
  have same := same_setBuf s b { s.buf b with refcnt := refcnt } rfl rfl rfl
  have locks : ∀ b', ((s.setBuf b { s.buf b with refcnt := refcnt }).buf b').lock = (s.buf b').lock := by
    intro b'
    rw [buf_setBuf]
    split
    next here => rw [here]
    · rfl
  refine ⟨fun b' => ?_, held.frame rfl fun b' => ⟨(same b').1, (same b').2.1, locks b'⟩,
    current.frame same ⟨rfl, rfl, rfl⟩ fun b' changed => ?_⟩
  · have before := counted b'
    have references : refs { s.setBuf b { s.buf b with refcnt := refcnt } with
      pins := update s.pins b pins } = refs s := rfl
    rw [references]
    by_cases here : b' = b
    · subst here
      simp only [buf_setBuf, if_true, update_self]
      omega
    · simpa only [buf_setBuf, if_neg here, update_of_ne here] using before
  · rw [locks]
    by_cases here : b' = b
    · subst here
      simpa only [update_self] using kept changed
    · simpa only [update_of_ne here] using (current.dirty changed).2

end Coherent

variable [DecidableEq Ref]

theorem refs_setHandle (handle : Option Handle) (r : Ref) :
    refs (s.setHandle r handle) = update (refs s) r (handle.map Handle.buf) := by
  funext r'
  by_cases equal : r' = r
  · subst equal
    simp [refs, setHandle]
  · simp [refs, setHandle, equal]

theorem refs_stage {r : Ref} {dev blockno : Nat} {stage stage' : Stage}
    (has : s.handle r = some ⟨b, dev, blockno, stage⟩) :
    refs (s.setHandle r (some ⟨b, dev, blockno, stage'⟩)) = refs s := by
  rw [refs_setHandle]
  refine Function.update_eq_self_iff.mpr ?_
  rw [refs, has]
  rfl

theorem increment_eq {refcnt : Nat} (room : refcnt + 1 < 2 ^ 32) : increment refcnt = refcnt + 1 :=
  Nat.mod_eq_of_lt room

theorem decrement_eq {refcnt : Nat} (some : 0 < refcnt) (room : refcnt < 2 ^ 32) :
    decrement refcnt = refcnt - 1 := by
  unfold decrement
  omega

/-- A counter changes with the references or pins of its buffer. -/
theorem Counted.set [Fintype Ref] (counted : Counted s) {r : Ref} {handle : Option Handle}
    (references : refs s' = update (refs s) r (handle.map Handle.buf))
    (balance : (s'.buf b).refcnt + s.pins b + hit b (refs s r) =
      (s.buf b).refcnt + s'.pins b + hit b (handle.map Handle.buf))
    (room : (s'.buf b).refcnt < 2 ^ 32)
    (others : ∀ b' ≠ b, (s'.buf b').refcnt = (s.buf b').refcnt ∧ s'.pins b' = s.pins b' ∧
      hit b' (refs s r) = hit b' (handle.map Handle.buf)) : Counted s' := by
  intro b'
  have total := Tally.count_update (refs s) r (handle.map Handle.buf) b'
  rw [← references] at total
  have before := counted b'
  by_cases here : b' = b
  · subst here
    omega
  · obtain ⟨refcnt, pins, hits⟩ := others b' here
    omega

namespace Coherent

variable [Fintype Ref] {r : Ref} {b : Fin NBUF} {dev blockno : Nat}

section

variable (coherent : Coherent s)
include coherent

theorem hit (listed : Listed s) (device : dev ≠ 0)
    (room : (s.buf b).refcnt + 1 < 2 ^ 32) (idle : s.handle r = none)
    (found : s.search (fun buf => buf.dev = dev ∧ buf.blockno = blockno) = some (some b)) :
    Coherent ((s.setBuf b { s.buf b with refcnt := increment (s.buf b).refcnt }).setHandle r
      (some ⟨b, dev, blockno, .referenced⟩)) := by
  obtain ⟨counted, held, current⟩ := coherent
  have holds : key (s.buf b) = (dev, blockno) := by
    have passes := listed.found found
    simpa [key] using passes
  have none : refs s r = none := by rw [refs, idle]; rfl
  have same := same_setBuf s b { s.buf b with refcnt := increment (s.buf b).refcnt }
    rfl (by simp only [key]) rfl
  refine ⟨counted.set (refs_setHandle _ _) (b := b) ?_ ?_ fun b' other => ?_,
    held.set rfl (b := b) (fun {_ h} _ _ => ⟨(same h.buf).2.1, fun valid => (same h.buf).1.trans valid⟩) ?_
      fun b' r' => ?_, current.frame same ⟨rfl, rfl, rfl⟩ fun b' changed => ?_⟩
  · simp only [setHandle, buf_setBuf, if_true, increment_eq room, none, hit_none,
      Option.map_some, hit_self]
    simp only [setBuf]
    omega
  · simpa only [setHandle, buf_setBuf, if_true, increment_eq room] using room
  · simp [setHandle, other, none, hit_some, other.symm, setBuf]
  · rintro h equal
    cases equal
    exact ⟨rfl, (same b).2.1.trans holds, device, (by simp)⟩
  · have before := held.locked b' r'
    simp only [setHandle, buf_setBuf]
    grind [Holds]
  · have kept := (current.dirty changed).2
    simp only [setHandle, buf_setBuf]
    grind [setBuf]

/-- A buffer without references is given to another block. -/
theorem miss (listed : Listed s) (device : dev ≠ 0) (idle : s.handle r = none)
    (absent : s.search (fun buf => buf.dev = dev ∧ buf.blockno = blockno) = some none)
    (found : s.search (fun buf => buf.refcnt = 0) = some (some b)) :
    Coherent (({ s.setBuf b { s.buf b with dev := dev, blockno := blockno, valid := false, refcnt := 1 } with
        dirty := update s.dirty b false }).setHandle r (some ⟨b, dev, blockno, .referenced⟩)) := by
  have zero : (s.buf b).refcnt = 0 := by simpa using listed.found found
  obtain ⟨pins, count, nobody, free, clean⟩ := coherent.unused zero
  obtain ⟨counted, held, current⟩ := coherent
  have none : refs s r = none := by rw [refs, idle]; rfl
  have elsewhere : ∀ b', key (s.buf b') ≠ (dev, blockno) := by
    intro b' equal
    have fails := listed.absent absent b'
    rw [key, Prod.mk.injEq] at equal
    simp [equal] at fails
  refine ⟨counted.set (refs_setHandle _ _) (b := b) ?_ ?_ fun b' other => ?_,
    held.set rfl (b := b) (fun {_ h} has _ => ?_) ?_ fun b' r' => ?_, ?_⟩
  · simp [setHandle, setBuf, none, zero, pins]
  · simp [setHandle, setBuf]
  · simp [setHandle, other, none, hit_some, other.symm, setBuf]
  · have other := nobody has
    simp [setHandle, setBuf, other]
  · rintro h equal
    cases equal
    exact ⟨rfl, by simp [setHandle, setBuf, key], device, (by simp)⟩
  · have before := held.locked b' r'
    simp only [setHandle, buf_setBuf]
    grind [Holds]
  · refine current.reassign clean ?_
    rfl

/-- The sleep-lock of a buffer changes with the stage of a reference to it. -/
theorem relock {stage stage' : Stage} {lock : Option Ref}
    (has : s.handle r = some ⟨b, dev, blockno, stage⟩) (empty : stage' ≠ .filled)
    (mine : lock = some r ↔ stage' = .locked)
    (others : ∀ r' ≠ r, lock = some r' ↔ (s.buf b).lock = some r')
    (kept : s.dirty b = true → 0 < s.pins b ∨ lock ≠ none) :
    Coherent ((s.setBuf b { s.buf b with lock := lock }).setHandle r
      (some ⟨b, dev, blockno, stage'⟩)) := by
  obtain ⟨counted, held, current⟩ := coherent
  have same := same_setBuf s b { s.buf b with lock := lock } rfl rfl rfl
  obtain ⟨holds, device⟩ := held.keyed has
  refine ⟨counted.frame (refs_stage has) rfl fun b' => ?_,
    held.set rfl (b := b) (fun {_ h} _ _ => ⟨(same h.buf).2.1, fun valid => (same h.buf).1.trans valid⟩) ?_
      fun b' r' => ?_, current.frame same ⟨rfl, rfl, rfl⟩ fun b' changed => ?_⟩
  · simp only [setHandle, buf_setBuf]
    grind
  · rintro h equal
    cases equal
    exact ⟨rfl, (same b).2.1.trans holds, device, fun full => absurd full empty⟩
  · have before := held.locked b' r'
    simp only [setHandle, buf_setBuf]
    grind [Holds]
  · have before := (current.dirty changed).2
    simp only [setHandle, buf_setBuf]
    grind [setBuf]

theorem acquire (has : s.handle r = some ⟨b, dev, blockno, .referenced⟩)
    (free : (s.buf b).lock = none) : Coherent ((s.setBuf b { s.buf b with lock := some r }).setHandle r
      (some ⟨b, dev, blockno, .locked⟩)) := by
  refine coherent.relock has (by simp) (by simp) (fun r' other => ?_) fun _ => .inr (by simp)
  rw [free]
  simp [other.symm]

theorem release (has : s.handle r = some ⟨b, dev, blockno, .filled⟩)
    (saved : s.dirty b = true → 0 < s.pins b) : Coherent ((s.setBuf b { s.buf b with lock := none }).setHandle r
      (some ⟨b, dev, blockno, .unlocked⟩)) := by
  have mine : (s.buf b).lock = some r :=
    (coherent.held.locked b r).mpr (by rw [has]; exact ⟨rfl, .inr rfl⟩)
  refine coherent.relock has (by simp) (by simp) (fun r' other => ?_) fun changed => .inl (saved changed)
  rw [mine]
  simp [other.symm]

theorem fill (unique : Unique s)
    (has : s.handle r = some ⟨b, dev, blockno, .locked⟩) :
    Coherent (s.fill r ⟨b, dev, blockno, .locked⟩) ∧
      ((s.fill r ⟨b, dev, blockno, .locked⟩).buf b).data = s.latest dev blockno ∧
      ((s.fill r ⟨b, dev, blockno, .locked⟩).buf b).data =
        if (s.buf b).valid then (s.buf b).data else s.disk dev blockno := by
  obtain ⟨counted, held, current⟩ := coherent
  have holds : key (s.buf b) = (dev, blockno) := (held.keyed has).1
  have device : dev ≠ 0 := (held.keyed has).2
  cases holds
  have locks : ∀ b' r', (s.buf b').lock = some r' ↔ if r' = r then
      Holds (some ⟨b, (s.buf b).dev, (s.buf b).blockno, .filled⟩) b' else (s.buf b').lock = some r' := by
    intro b' r'
    have before := held.locked b' r'
    grind [Holds]
  unfold State.fill
  cases valid : (s.buf b).valid with
  | true =>
    simp only [valid, if_true]
    refine ⟨⟨counted.frame (refs_stage has) rfl fun _ => rfl, held.set rfl (b := b)
      (fun _ _ => ⟨rfl, id⟩) ?_ locks, current.frame (fun _ => ⟨rfl, rfl, rfl⟩) ⟨rfl, rfl, rfl⟩
      fun b' changed => (current.dirty changed).2⟩, current.data valid, rfl⟩
    rintro h equal
    cases equal
    exact ⟨rfl, rfl, device, fun _ => valid⟩
  | false =>
    obtain ⟨fresh, current'⟩ := current.read unique device valid
    simp only [valid, Bool.false_eq_true, if_false]
    have self : ∀ b', (s.setBuf b { s.buf b with
        data := s.disk (s.buf b).dev (s.buf b).blockno, valid := true }).buf b' =
          if b' = b then { s.buf b with
            data := s.disk (s.buf b).dev (s.buf b).blockno, valid := true } else s.buf b' := fun b' =>
      buf_setBuf s b b' _
    refine ⟨⟨counted.frame (refs_stage has) rfl fun b' => ?_, held.set rfl (b := b)
      (fun {_ h} _ _ => ⟨?_, fun valid => ?_⟩) ?_ fun b' r' => ?_,
      current'.frame (fun _ => ⟨rfl, rfl, rfl⟩) ⟨rfl, rfl, rfl⟩ fun b' changed => (current'.dirty changed).2⟩, ?_, ?_⟩
    · simp only [setHandle, self]
      grind
    · exact key_update h.buf (by rfl)
    · simp only [setHandle, self]
      grind
    · rintro h equal
      cases equal
      refine ⟨rfl, key_update b (by rfl), device, fun _ => ?_⟩
      simp only [setHandle, self, if_true]
    · rw [← locks b' r']
      simp only [setHandle, self]
      grind
    · simp only [setHandle, self, if_true]
      exact fresh
    · simp only [setHandle, self, if_true]

theorem put (has : s.handle r = some ⟨b, dev, blockno, .unlocked⟩) : Coherent (s.put r b) := by
  obtain ⟨counted, held, current⟩ := coherent
  have mine : refs s r = some b := by rw [refs, has]; rfl
  have positive : 0 < (s.buf b).refcnt := by
    have := count_pos mine
    have := counted b
    omega
  have less := decrement_eq positive (counted b).2
  have same := same_setBuf s b { s.buf b with refcnt := decrement (s.buf b).refcnt } rfl
    (by simp only [key]) rfl
  have rest : (s.put r b).handle = update s.handle r none ∧ (s.put r b).pins = s.pins ∧
      (s.put r b).latest = s.latest ∧ (s.put r b).disk = s.disk ∧ (s.put r b).dirty = s.dirty := by
    unfold State.put
    dsimp only [setHandle]
    split <;> exact ⟨rfl, rfl, rfl, rfl, rfl⟩
  have now : ((s.put r b).buf b).refcnt = (s.buf b).refcnt - 1 := by
    rw [put_buf, buf_setBuf, if_pos rfl]
    exact less
  have references : refs (s.put r b) =
      update (refs s) r ((none : Option Handle).map Handle.buf) := by
    rw [← refs_setHandle]
    unfold refs
    rw [rest.1]
    rfl
  have locks : ∀ b', ((s.put r b).buf b').lock = (s.buf b').lock := by
    intro b'
    rw [put_buf, buf_setBuf]
    split
    next here => rw [here]
    · rfl
  refine ⟨counted.set references (b := b) ?_ ?_ fun b' other => ?_,
    held.set rest.1 (b := b) (fun {_ h} _ _ => ?_) (by simp) fun b' r' => ?_,
    current.frame (fun b' => by rw [put_buf]; exact same b') rest.2.2 fun b' changed => ?_⟩
  · rw [now, rest.2.1, mine, Option.map_none, hit_self, hit_none]
    omega
  · rw [now]
    have := (counted b).2
    omega
  · rw [put_buf, buf_setBuf, if_neg other, rest.2.1, mine, Option.map_none, hit_some, if_neg other.symm,
      hit_none]
    exact ⟨rfl, rfl, rfl⟩
  · rw [put_buf]
    exact ⟨(same h.buf).2.1, fun valid => (same h.buf).1.trans valid⟩
  · have before := held.locked b' r'
    rw [locks]
    grind [Holds]
  · rw [rest.2.1, locks]
    exact (current.dirty changed).2

theorem moves {event : Event Ref Data} (listed : Listed s) (unique : Unique s)
    (disciplined : Disciplined s event) (moves : Moves s event s') : Coherent s' := by
  cases moves with
  | hit idle found => exact coherent.hit listed disciplined.1 (disciplined.2 _) idle found
  | miss idle absent unused => exact coherent.miss listed disciplined.1 idle absent unused
  | panic =>
    exact ⟨coherent.counted.frame rfl rfl fun _ => rfl, coherent.held.frame rfl fun _ => ⟨rfl, rfl, rfl⟩,
      coherent.current.frame (fun _ => ⟨rfl, rfl, rfl⟩) ⟨rfl, rfl, rfl⟩
        fun _ changed => (coherent.current.dirty changed).2⟩
  | acquire has free => exact coherent.acquire has free
  | fill has => exact (coherent.fill unique has).1
  | modify has => exact coherent.modify unique has _
  | bwrite has => exact coherent.bwrite has
  | @bpin b =>
    have room : (s.buf b).refcnt + 1 < 2 ^ 32 := disciplined
    refine coherent.pin (Nat.mod_lt _ (Nat.two_pow_pos 32)) ?_ fun _ => .inl (Nat.succ_pos _)
    rw [increment_eq room]
    omega
  | @bupin b =>
    obtain ⟨pinned, last⟩ := disciplined
    have counted := coherent.counted b
    refine coherent.pin (Nat.mod_lt _ (Nat.two_pow_pos 32)) ?_ fun changed => ?_
    · rw [decrement_eq (by omega) counted.2]
      omega
    · exact (last changed).imp_left fun more => by omega
  | release has => exact coherent.release has (disciplined _ has)
  | put has => exact coherent.put has

end

end Coherent

theorem coherent_run [Fintype Ref] {blank : Data} {disk : Nat → Nat → Data} {events : List (Event Ref Data)}
    (run : Run State.step Disciplined (init blank disk) events s) : Coherent s := by
  generalize start : init blank disk = first at run
  induction run with
  | nil =>
    subst start
    exact coherent_init blank disk
  | snoc before disciplined taken ih =>
    subst start
    obtain ⟨listed, unique⟩ := listed_run before
    exact ih.moves listed unique disciplined (moves_of_step taken)

/-- The cache is consistent in every run; where pins and modified buffers are treated in order,
`bread` returns what was last placed in the block. -/
theorem cache_consistent [Fintype Ref] {blank : Data} {disk : Nat → Nat → Data}
    {events : List (Event Ref Data)}
    (run : Run State.step (fun _ _ => True) (init blank disk) events s) :
    (∃ order, DList.Circular s.links none order ∧ ∀ b, some b ∈ order) ∧
    (∀ node, s.links.prev (s.links.next node) = node ∧ s.links.next (s.links.prev node) = node) ∧
    (∀ b b', (s.buf b).dev ≠ 0 → (s.buf b').dev = (s.buf b).dev →
      (s.buf b').blockno = (s.buf b).blockno → b' = b) ∧
    (∀ event s', s.step event = some s' → ∀ b, 0 < (s.buf b).refcnt →
      (s'.buf b).dev = (s.buf b).dev ∧ (s'.buf b).blockno = (s.buf b).blockno) ∧
    (Run State.step Disciplined (init blank disk) events s →
      ∀ r s', s.step (.fill r) = some s' → ∃ b dev blockno,
        s'.handle r = some ⟨b, dev, blockno, .filled⟩ ∧
        (s'.buf b).dev = dev ∧ (s'.buf b).blockno = blockno ∧
        (s'.buf b).data = s.latest dev blockno ∧
        (s'.buf b).data = if (s.buf b).valid then (s.buf b).data else s.disk dev blockno) := by
  obtain ⟨listed, unique⟩ := listed_run run
  refine ⟨listed, ?_, fun b b' => unique, fun event s' taken b used => ?_, fun disciplined r s' taken => ?_⟩
  · obtain ⟨order, circular, all⟩ := listed
    intro node
    refine circular.inverse ?_
    cases node with
    | none => exact List.mem_cons_self
    | some b => exact List.mem_cons_of_mem _ (all b)
  · rcases (moves_of_step taken).keys listed with same | ⟨changed, dev, blockno, zero, -, -, others⟩
    · exact Prod.mk.inj (same b)
    · refine Prod.mk.inj (others b ?_)
      rintro rfl
      omega
  · have coherent := coherent_run disciplined
    cases moves_of_step taken with
    | @fill _ b dev blockno has =>
      obtain ⟨coherent', latest, source⟩ := coherent.fill unique has
      have handle : (s.fill r ⟨b, dev, blockno, .locked⟩).handle r = some ⟨b, dev, blockno, .filled⟩ := by
        unfold State.fill
        simp [setHandle]
      obtain ⟨dev_eq, blockno_eq⟩ := Prod.mk.inj (coherent'.held.keyed handle).1
      exact ⟨b, dev, blockno, handle, dev_eq, blockno_eq, latest, source⟩

/-- The buffer that `bio::init` puts first. -/
def first : Fin NBUF := ⟨29, last_lt_NBUF⟩

/-- A block that was modified and pinned is read again by another reference. -/
def readAgain : List (Event (Fin 2) Nat) :=
  [.bget 0 1 5, .acquire 0, .fill 0, .modify 0 77, .bpin first, .release 0, .put 0, .bget 1 1 5, .acquire 1]

theorem cache_consistent_readAgain : ∃ s s' : State (Fin 2) Nat,
    Run State.step Disciplined (init 0 fun _ blockno => blockno) readAgain s ∧
    s.step (.fill 1) = some s' ∧ s.latest 1 5 = 77 ∧ ∃ b dev blockno,
      s'.handle 1 = some ⟨b, dev, blockno, .filled⟩ ∧ (s'.buf b).data = s.latest dev blockno := by
  have execution : (exec State.step Disciplined readAgain
      (init 0 fun _ blockno => blockno : State (Fin 2) Nat)).any
        (fun s => (s.step (.fill 1)).isSome && s.latest 1 5 == 77) = true := by decide +kernel
  obtain ⟨s, run, check⟩ := exists_run_of_exec execution
  rw [Bool.and_eq_true, beq_iff_eq] at check
  obtain ⟨s', taken⟩ := Option.isSome_iff_exists.mp check.1
  obtain ⟨b, dev, blockno, handle, -, -, latest, -⟩ :=
    (cache_consistent (run.mono fun _ => trivial)).2.2.2.2 run 1 s' taken
  exact ⟨s, s', run, taken, check.2, b, dev, blockno, handle, latest⟩

/-- A `bupin` without a `bpin` takes away a reference. -/
def strayBupin : List (Event (Fin 2) Nat) := [.bget 0 1 5, .bupin first, .bget 1 1 6, .acquire 0]

/-- After it, `bread` of block 5 returns block 6. -/
theorem stray_bupin_mixes_blocks : ∃ s s' : State (Fin 2) Nat,
    Run State.step (fun _ _ => True) (init 0 fun _ blockno => blockno) strayBupin s ∧
    s.step (.fill 0) = some s' ∧ s.latest 1 5 = 5 ∧ s.disk 1 5 = 5 ∧
    s'.handle 0 = some ⟨first, 1, 5, .filled⟩ ∧ (s'.buf first).data = 6 := by
  have execution : (exec State.step (fun _ _ => True) strayBupin
      (init 0 fun _ blockno => blockno : State (Fin 2) Nat)).any
        (fun s => decide (s.latest 1 5 = 5 ∧ s.disk 1 5 = 5) && (s.step (.fill 0)).any fun s' =>
          decide (s'.handle 0 = some ⟨first, 1, 5, .filled⟩ ∧ (s'.buf first).data = 6)) = true := by
    decide +kernel
  obtain ⟨s, run, check⟩ := exists_run_of_exec execution
  rw [Bool.and_eq_true, decide_eq_true_eq, Option.any_eq_true] at check
  obtain ⟨⟨latest, disk⟩, s', taken, result⟩ := check
  rw [decide_eq_true_eq] at result
  exact ⟨s, s', run, taken, latest, disk, result⟩

end OsCpp.Buffers
