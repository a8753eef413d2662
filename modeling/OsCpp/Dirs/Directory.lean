import OsCpp.Fs.Format

/-!
# Directories as tables of entries

`dir_lookup` and the two overloads of `dir_link` of `kernel/fs.cpp` on a directory that is locked.  A
directory is seen as its entries and its size in bytes; whether `writei` gets a block for a new entry
is left open.  `strncpy` fills the name field exactly.
-/

namespace OsCpp.Dirs

/-- A string as the kernel gets it from a path. -/
structure Name where
  bytes : List UInt8
  clean : 0 ∉ bytes
  deriving DecidableEq

/-- `fs::dirent`; inode numbers are cut to 16 bits when they are stored. -/
structure Entry where
  inum : Nat := 0
  uid : UInt32 := 0
  gid : UInt32 := 0
  mask_user : UInt8 := 0
  mask_group : UInt8 := 0
  mask_other : UInt8 := 0
  name : List UInt8 := List.replicate DIRSIZ 0
  deriving DecidableEq

/-- The fields of an inode that matter here. -/
structure Node where
  type : UInt16 := 0
  nlink : Nat := 0
  uid : UInt32 := 0
  gid : UInt32 := 0
  mask_user : UInt8 := 0
  mask_group : UInt8 := 0
  mask_other : UInt8 := 0
  deriving DecidableEq

/-- A directory: its size and its entries. -/
structure Dir where
  size : Nat := 0
  slot : Nat → Entry := fun _ => {}

/-- The name field after `strncpy(de.name, name, DIRSIZ)`. -/
def Name.field (name : Name) : List UInt8 :=
  name.bytes.take DIRSIZ ++ List.replicate (DIRSIZ - name.bytes.length) 0

/-- Two names agree as far as the name field goes. -/
def Name.Agrees (name other : Name) : Prop := name.bytes.take DIRSIZ = other.bytes.take DIRSIZ

instance (name other : Name) : Decidable (name.Agrees other) := inferInstanceAs (Decidable (_ = _))

/-- Is an entry live, and `namecmp` of it with a name zero? -/
def Entry.Hit (de : Entry) (name : Name) : Prop :=
  de.inum ≠ 0 ∧ strncmp DIRSIZ name.bytes de.name = 0

instance (de : Entry) (name : Name) : Decidable (de.Hit name) := inferInstanceAs (Decidable (_ ∧ _))

/-- The loop of `dir_lookup`, which panics where it cannot read a whole entry. -/
def lookupFrom (d : Dir) (name : Name) : Nat → Nat → Option (Option Nat)
  | 0, _ => some none
  | fuel + 1, offset =>
    if offset < d.size then
      if offset + Dirent.size ≤ d.size then
        let de := d.slot (offset / Dirent.size)
        if de.Hit name then some (some de.inum) else lookupFrom d name fuel (offset + Dirent.size)
      else none
    else some none

/-- `dir_lookup`: the inode number found. -/
def dir_lookup (d : Dir) (name : Name) : Option (Option Nat) := lookupFrom d name d.size 0

/-- The loop of `dir_link`: the offset of a free entry or the end, and the entry last read. -/
def freeFrom (d : Dir) : Nat → Nat → Entry → Option (Nat × Entry)
  | 0, off, de => some (off, de)
  | fuel + 1, off, de =>
    if off < d.size then
      if off + Dirent.size ≤ d.size then
        let de := d.slot (off / Dirent.size)
        if de.inum = 0 then some (off, de) else freeFrom d fuel (off + Dirent.size) de
      else none
    else some (off, de)

/-- The two overloads of `dir_link`, which differ in the fields filled in after the name. -/
def dirLinkWith (d : Dir) (name : Name) (fill : Entry → Entry) (room : Bool) : Option (Dir × Bool) := do
  match ← dir_lookup d name with
  | some _ => some (d, false)
  | none => do
      let (off, de) ← freeFrom d d.size 0 {}
      if room then
        some ({ size := if d.size < off + Dirent.size then off + Dirent.size else d.size
                slot := Function.update d.slot (off / Dirent.size)
                  (fill { de with name := name.field }) }, true)
      else some (d, false)

/-- `dir_link(dp, name, inum)`. -/
def dir_link (d : Dir) (name : Name) (inum : Nat) : Bool → Option (Dir × Bool) :=
  dirLinkWith d name fun de => { de with inum := inum % 2 ^ 16 }

/-- What `dir_link(dp, name, other)` fills in. -/
def Node.fill (node : Node) (inum : Nat) (de : Entry) : Entry :=
  { de with
    inum := inum % 2 ^ 16
    uid := node.uid
    gid := node.gid
    mask_user := node.mask_user
    mask_group := node.mask_group
    mask_other := node.mask_other }

/-- `dir_link(dp, name, other)`. -/
def dir_link_inode (d : Dir) (name : Name) (inum : Nat) (node : Node) : Bool → Option (Dir × Bool) :=
  dirLinkWith d name (node.fill inum)

/-! ## Names -/

theorem strncmp_field {a b : List UInt8} (clean_a : 0 ∉ a) (clean_b : 0 ∉ b) (count : Nat) :
    strncmp count a (b.take count ++ List.replicate (count - b.length) 0) = 0 ↔
      a.take count = b.take count := by
  induction count generalizing a b with
  | zero => simp [strncmp]
  | succ count ih =>
    rw [strncmp]
    cases a with
    | nil =>
      cases b with
      | nil => simp [List.replicate_succ]
      | cons y b =>
        have nonzero : y ≠ 0 := fun zero => clean_b (by simp [zero])
        have positive : 0 < y.toNat := by
          rw [pos_iff_ne_zero]
          exact fun zero => nonzero (UInt8.toNat_inj.mp zero)
        simp
        omega
    | cons x a =>
      have nonzero : x ≠ 0 := fun zero => clean_a (by simp [zero])
      have positive : 0 < x.toNat := by
        rw [pos_iff_ne_zero]
        exact fun zero => nonzero (UInt8.toNat_inj.mp zero)
      cases b with
      | nil =>
        simp [List.replicate_succ, nonzero]
        omega
      | cons y b =>
        by_cases same : x = y
        · subst same
          have rest := ih (a := a) (b := b) (fun member => clean_a (.tail _ member))
            (fun member => clean_b (.tail _ member))
          simpa [nonzero] using rest
        · have apart : x.toNat ≠ y.toNat := fun equal => same (UInt8.toNat_inj.mp equal)
          simp [same]
          omega

theorem namecmp_field (name other : Name) :
    strncmp DIRSIZ name.bytes other.field = 0 ↔ name.Agrees other :=
  strncmp_field name.clean other.clean DIRSIZ

/-! ## Tables -/

/-- The number of entries. -/
def Dir.count (d : Dir) : Nat := d.size / Dirent.size

/-- A directory is a map: whole entries, whose live ones have different names. -/
structure Tidy (d : Dir) : Prop where
  size_eq : d.size = 32 * d.count
  named : ∀ k, (d.slot k).inum ≠ 0 → ∃ name : Name, (d.slot k).name = name.field
  distinct : ∀ j k, j < d.count → k < d.count → ∀ name,
    (d.slot j).Hit name → (d.slot k).Hit name → j = k

section

variable {d : Dir} {name : Name}

theorem lookupFrom_spec (tidy : Tidy d) (name : Name) {fuel j : Nat} (enough : d.count - j ≤ fuel) :
    (lookupFrom d name fuel (Dirent.size * j) = some none ∧
        ∀ k, j ≤ k → k < d.count → ¬(d.slot k).Hit name) ∨
      ∃ k, k < d.count ∧ (d.slot k).Hit name ∧
        lookupFrom d name fuel (Dirent.size * j) = some (some (d.slot k).inum) := by
  have whole := tidy.size_eq
  induction fuel generalizing j with
  | zero => exact .inl ⟨rfl, fun k _ _ => by omega⟩
  | succ fuel ih =>
    rw [lookupFrom]
    by_cases inside : j < d.count
    · have below : Dirent.size * j < d.size := by
        rw [whole]
        change 32 * j < _
        omega
      have fits : Dirent.size * j + Dirent.size ≤ d.size := by
        rw [whole]
        change 32 * j + 32 ≤ _
        omega
      have index : Dirent.size * j / Dirent.size = j := Nat.mul_div_cancel_left j (by decide)
      rw [if_pos below, if_pos fits]
      dsimp only
      rw [index]
      by_cases hit : (d.slot j).Hit name
      · rw [if_pos hit]
        exact .inr ⟨j, inside, hit, rfl⟩
      · rw [if_neg hit]
        rcases ih (j := j + 1) (by omega) with ⟨missed, others⟩ | found
        · refine .inl ⟨missed, fun k lower upper => ?_⟩
          rcases Nat.eq_or_lt_of_le lower with rfl | later
          · exact hit
          · exact others k later upper
        · exact .inr found
    · have beyond : ¬Dirent.size * j < d.size := by
        rw [whole]
        change ¬32 * j < _
        omega
      rw [if_neg beyond]
      exact .inl ⟨rfl, fun k _ _ => by omega⟩

theorem dir_lookup_spec (tidy : Tidy d) (name : Name) :
    (dir_lookup d name = some none ∧ ∀ k < d.count, ¬(d.slot k).Hit name) ∨
      ∃ k, k < d.count ∧ (d.slot k).Hit name ∧ dir_lookup d name = some (some (d.slot k).inum) := by
  have enough : d.count - 0 ≤ d.size := Nat.div_le_self _ _
  rcases lookupFrom_spec tidy name enough with ⟨missed, others⟩ | found
  · exact .inl ⟨missed, fun k => others k zero_le⟩
  · exact .inr found

theorem dir_lookup_eq_none_iff (tidy : Tidy d) :
    dir_lookup d name = some none ↔ ∀ k < d.count, ¬(d.slot k).Hit name := by
  rcases dir_lookup_spec tidy name with ⟨missed, others⟩ | ⟨k, inside, hit, found⟩
  · exact ⟨fun _ => others, fun _ => missed⟩
  · rw [found]
    exact ⟨fun same => by simp at same, fun others => absurd hit (others k inside)⟩

theorem dir_lookup_eq_some_iff (tidy : Tidy d) {inum : Nat} :
    dir_lookup d name = some (some inum) ↔
      ∃ k < d.count, (d.slot k).Hit name ∧ (d.slot k).inum = inum := by
  rcases dir_lookup_spec tidy name with ⟨missed, others⟩ | ⟨k, inside, hit, found⟩
  · rw [missed]
    constructor
    · intro same
      simp at same
    · rintro ⟨k, inside, hit, -⟩
      exact absurd hit (others k inside)
  · rw [found, Option.some.injEq, Option.some.injEq]
    constructor
    · exact fun same => ⟨k, inside, hit, same⟩
    · rintro ⟨j, inside_j, hit_j, rfl⟩
      rw [tidy.distinct k j inside inside_j name hit hit_j]

end

section

variable {d d' : Dir} {name : Name} {fill : Entry → Entry} {room : Bool} {inum : Nat}

/-- The entry last read before the entry `k`, or an empty one. -/
def Dir.before (d : Dir) : Nat → Entry
  | 0 => {}
  | k + 1 => d.slot k

/-- Where `dir_link` puts an entry, and what it finds there. -/
structure Place (d : Dir) (k : Nat) (de : Entry) : Prop where
  le : k ≤ d.count
  free : k < d.count → (d.slot k).inum = 0
  live : ∀ j < k, (d.slot j).inum ≠ 0
  found : k < d.count → de = d.slot k
  last : k = d.count → de = d.before k

theorem freeFrom_spec (whole : d.size = 32 * d.count) (fuel j : Nat) (enough : d.count - j ≤ fuel) (le : j ≤ d.count)
    (live : ∀ i < j, (d.slot i).inum ≠ 0) :
    ∃ k de, freeFrom d fuel (Dirent.size * j) (d.before j) = some (Dirent.size * k, de) ∧
      Place d k de := by
  induction fuel generalizing j with
  | zero =>
    obtain rfl : j = d.count := by omega
    exact ⟨d.count, _, rfl, le_rfl, by omega, live, by omega, fun _ => rfl⟩
  | succ fuel ih =>
    rw [freeFrom]
    rcases Nat.eq_or_lt_of_le le with rfl | inside
    · have beyond : ¬Dirent.size * d.count < d.size := by
        rw [whole]
        exact lt_irrefl _
      rw [if_neg beyond]
      exact ⟨d.count, _, rfl, le_rfl, by omega, live, by omega, fun _ => rfl⟩
    · have below : Dirent.size * j < d.size := by
        rw [whole]
        change 32 * j < _
        omega
      have fits : Dirent.size * j + Dirent.size ≤ d.size := by
        rw [whole]
        change 32 * j + 32 ≤ _
        omega
      have index : Dirent.size * j / Dirent.size = j := Nat.mul_div_cancel_left j (by decide)
      rw [if_pos below, if_pos fits]
      dsimp only
      rw [index]
      by_cases vacant : (d.slot j).inum = 0
      · rw [if_pos vacant]
        exact ⟨j, _, rfl, le, fun _ => vacant, live, fun _ => rfl, by omega⟩
      · rw [if_neg vacant]
        refine ih (j + 1) (by omega) inside fun i below => ?_
        rcases Nat.lt_succ_iff_lt_or_eq.mp below with earlier | rfl
        · exact live i earlier
        · exact vacant

theorem dirLinkWith_spec (whole : d.size = 32 * d.count)
    (linked : dirLinkWith d name fill room = some (d', true)) :
    dir_lookup d name = some none ∧ ∃ k de, Place d k de ∧
      d'.slot = Function.update d.slot k (fill { de with name := name.field }) ∧
      d'.size = 32 * max d.count (k + 1) := by
  rw [dirLinkWith] at linked
  obtain ⟨found, looked, linked⟩ := Option.bind_eq_some_iff.mp linked
  cases found with
  | some other => simp at linked
  | none =>
    obtain ⟨⟨off, de⟩, placed, linked⟩ := Option.bind_eq_some_iff.mp linked
    obtain ⟨k, de', placed', place⟩ := freeFrom_spec whole d.size 0
      (Nat.div_le_self _ _) zero_le fun i below => absurd below not_lt_zero
    obtain ⟨rfl, rfl⟩ := Prod.mk.inj (Option.some.inj (placed'.symm.trans placed))
    cases room with
    | false => simp at linked
    | true =>
      cases linked
      have index : Dirent.size * k / Dirent.size = k := Nat.mul_div_cancel_left k (by decide)
      have le := place.le
      refine ⟨looked, k, de', place, ?_, ?_⟩
      · rw [index]
      · change (if d.size < 32 * k + 32 then 32 * k + 32 else d.size) = _
        rw [whole]
        split <;> omega

/-- What a fill must do. -/
structure Fills (fill : Entry → Entry) (inum : Nat) : Prop where
  name : ∀ de, (fill de).name = de.name
  inum : ∀ de, (fill de).inum = inum

theorem fills_inum (fits : inum < 2 ^ 16) : Fills (fun de => { de with inum := inum % 2 ^ 16 }) inum :=
  ⟨fun _ => rfl, fun _ => Nat.mod_eq_of_lt fits⟩

theorem Node.fills (node : Node) (fits : inum < 2 ^ 16) : Fills (node.fill inum) inum :=
  ⟨fun _ => rfl, fun _ => Nat.mod_eq_of_lt fits⟩

/-- A new entry is hit by the names that agree with its own. -/
theorem hit_fill_iff (fills : Fills fill inum) (nonzero : inum ≠ 0) (de : Entry) (other : Name) :
    (fill { de with name := name.field }).Hit other ↔ other.Agrees name := by
  rw [Entry.Hit, fills.inum, fills.name, namecmp_field]
  exact and_iff_right nonzero

theorem Tidy.hit_of_agrees (tidy : Tidy d) {k : Nat} {name other : Name} (agrees : name.Agrees other)
    (hit : (d.slot k).Hit name) : (d.slot k).Hit other := by
  obtain ⟨own, named⟩ := tidy.named k hit.1
  refine ⟨hit.1, ?_⟩
  have compared := hit.2
  rw [named, namecmp_field] at compared ⊢
  exact agrees.symm.trans compared

/-- `dir_lookup` tells names apart as far as the name field goes. -/
theorem Tidy.lookup_congr (tidy : Tidy d) {name other : Name} (agrees : name.Agrees other) {inum : Nat}
    (found : dir_lookup d name = some (some inum)) : dir_lookup d other = some (some inum) := by
  rw [dir_lookup_eq_some_iff tidy] at found ⊢
  obtain ⟨k, inside, hit, same⟩ := found
  exact ⟨k, inside, tidy.hit_of_agrees agrees hit, same⟩

/-- A successful `dir_link` adds one name to the map. -/
theorem Tidy.link (tidy : Tidy d) (fills : Fills fill inum) (nonzero : inum ≠ 0)
    (linked : dirLinkWith d name fill room = some (d', true)) :
    Tidy d' ∧ dir_lookup d' name = some (some inum) ∧
      ∀ other : Name, ¬other.Agrees name → dir_lookup d' other = dir_lookup d other := by
  obtain ⟨missed, k, de, place, slot, size⟩ := dirLinkWith_spec tidy.size_eq linked
  rw [dir_lookup_eq_none_iff tidy] at missed
  have le := place.le
  have count : d'.count = max d.count (k + 1) := by
    rw [Dir.count, size]
    exact Nat.mul_div_cancel_left _ (by decide)
  have here : d'.slot k = fill { de with name := name.field } := by rw [slot, Function.update_self]
  have there : ∀ j ≠ k, d'.slot j = d.slot j := fun j other => by
    rw [slot, Function.update_of_ne other]
  -- A hit in the new directory is the new entry, or a hit in the old one.
  have hits : ∀ {j other}, j < d'.count → (d'.slot j).Hit other →
      j = k ∧ other.Agrees name ∨ j ≠ k ∧ j < d.count ∧ (d.slot j).Hit other := by
    intro j other inside hit
    rcases eq_or_ne j k with rfl | apart
    · rw [here, hit_fill_iff fills nonzero] at hit
      exact .inl ⟨rfl, hit⟩
    · rw [there j apart] at hit
      exact .inr ⟨apart, by omega, hit⟩
  have old : ∀ {j other}, other.Agrees name → j < d.count → ¬(d.slot j).Hit other := by
    intro j other agrees inside hit
    exact missed j inside (tidy.hit_of_agrees agrees hit)
  have tidy' : Tidy d' := by
    refine ⟨?_, fun j live => ?_, fun i j inside_i inside_j other hit_i hit_j => ?_⟩
    · rw [size, count]
    · rcases eq_or_ne j k with rfl | apart
      · rw [here, fills.name]
        exact ⟨name, rfl⟩
      · rw [there j apart] at live ⊢
        exact tidy.named j live
    · rcases hits inside_i hit_i with ⟨rfl, agrees⟩ | ⟨apart, old_i, hit_i⟩
      · rcases hits inside_j hit_j with ⟨rfl, -⟩ | ⟨-, old_j, hit_j⟩
        · rfl
        · exact absurd hit_j (old agrees old_j)
      · rcases hits inside_j hit_j with ⟨rfl, agrees⟩ | ⟨-, old_j, hit_j⟩
        · exact absurd hit_i (old agrees old_i)
        · exact tidy.distinct i j old_i old_j other hit_i hit_j
  refine ⟨tidy', ?_, fun other differs => ?_⟩
  · rw [dir_lookup_eq_some_iff tidy']
    refine ⟨k, by omega, ?_, ?_⟩
    · rw [here, hit_fill_iff fills nonzero]
      rfl
    · rw [here, fills.inum]
  · rcases dir_lookup_spec tidy other with ⟨none_found, others⟩ | ⟨j, inside, hit, found⟩
    · rw [none_found, dir_lookup_eq_none_iff tidy']
      intro j inside hit
      rcases hits inside hit with ⟨-, agrees⟩ | ⟨-, before, hit⟩
      · exact differs agrees
      · exact others j before hit
    · rw [found, dir_lookup_eq_some_iff tidy']
      have apart : j ≠ k := by
        rintro rfl
        exact hit.1 (place.free inside)
      exact ⟨j, by omega, by rwa [there j apart], by rw [there j apart]⟩

theorem Tidy.eq_of_name_eq (tidy : Tidy d) {j k : Nat} (inside_j : j < d.count) (inside_k : k < d.count)
    (live_j : (d.slot j).inum ≠ 0) (live_k : (d.slot k).inum ≠ 0)
    (same : (d.slot j).name = (d.slot k).name) : j = k := by
  obtain ⟨own, named⟩ := tidy.named j live_j
  have compared : strncmp DIRSIZ own.bytes (d.slot j).name = 0 := by
    rw [named, namecmp_field]
    rfl
  exact tidy.distinct j k inside_j inside_k own ⟨live_j, compared⟩ ⟨live_k, same ▸ compared⟩

theorem tidy_empty : Tidy {} :=
  ⟨rfl, fun _ live => absurd rfl live, fun _ _ inside => absurd inside not_lt_zero⟩

end

end OsCpp.Dirs
