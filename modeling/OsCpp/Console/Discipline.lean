import Mathlib
import OsCpp.Console.Machine

/-!
# The line discipline of the console

Between the read index and the edit index, the ring holds what the reference line editor has
committed and not yet given to a reader, and then the line it edits.
-/

namespace OsCpp.Console

open Monitor (Event Keeps Move Pays Phase State)

/-! ## Indices -/

section

variable (y : UInt32)
include y

theorem toNat_sub_self {k : Nat} (small : k ≤ 128) : (y + .ofNat k - y).toNat = k := by
  have cancel : y + UInt32.ofNat k - y = UInt32.ofNat k := by grind
  rw [cancel]
  exact UInt32.toNat_ofNat_of_lt' (by simp only [UInt32.size]; omega)

theorem ofNat_succ_sub_one (k : Nat) : y + .ofNat (k + 1) - 1 = y + .ofNat k := by
  have one : UInt32.ofNat 1 = 1 := rfl
  rw [UInt32.ofNat_add]
  grind

theorem add_ofNat_succ (k : Nat) : y + .ofNat k + 1 = y + .ofNat (k + 1) := by
  have one : UInt32.ofNat 1 = 1 := rfl
  rw [UInt32.ofNat_add]
  grind

theorem add_ofNat_add (k m : Nat) : y + .ofNat k + .ofNat m = y + .ofNat (k + m) := by
  rw [UInt32.ofNat_add]
  grind

theorem succ_add_ofNat (k : Nat) : y + 1 + .ofNat k = y + .ofNat (k + 1) := by
  rw [← add_ofNat_succ]
  grind

theorem cell_add (k : Nat) : ((y + .ofNat k) % INPUT_BUF_SIZE).toNat = (y.toNat + k) % 128 := by
  rw [UInt32.toNat_mod, UInt32.toNat_add, UInt32.toNat_ofNat']
  change _ % 128 = _
  omega

theorem cell_succ : (y + 1).toNat % 128 = (y.toNat + 1) % 128 := by
  rw [UInt32.toNat_add]
  change (_ + 1) % _ % 128 = _
  omega

theorem add_ofNat_eq_iff {k : Nat} (small : k ≤ 128) : y + .ofNat k = y ↔ k = 0 := by
  constructor
  · intro same
    have distance := toNat_sub_self y small
    rw [same] at distance
    simpa using distance.symm
  · rintro rfl
    have zero : UInt32.ofNat 0 = 0 := rfl
    rw [zero]
    grind

/-! ## The picture -/

end

/-- The ring shows the unread bytes and the line of the reference. -/
structure Shows (s : Fields) : Prop where
  room : s.ed.queue.length + s.ed.line.length ≤ 128
  write : s.w = s.r + .ofNat s.ed.queue.length
  edit : s.e = s.r + .ofNat (s.ed.queue.length + s.ed.line.length)
  ring : Ring.window s.buf 128 s.r.toNat (s.ed.queue.length + s.ed.line.length) =
    s.ed.queue ++ s.ed.line
  plain : newline ∉ s.ed.line
  taken : s.ed.taken ≤ s.ed.committed.length

namespace Shows

variable {s : Fields}

section

variable (shows : Shows s)
include shows

theorem used : (s.e - s.r).toNat = s.ed.queue.length + s.ed.line.length := by
  rw [shows.edit]
  exact toNat_sub_self s.r shows.room

theorem unread : (s.w - s.r).toNat = s.ed.queue.length := by
  have room := shows.room
  rw [shows.write]
  exact toNat_sub_self s.r (by omega)

theorem edit_write : s.e = s.w + .ofNat s.ed.line.length := by
  rw [shows.edit, shows.write, add_ofNat_add]

theorem edit_eq_write_iff : s.e = s.w ↔ s.ed.line = [] := by
  have room := shows.room
  rw [shows.edit_write, add_ofNat_eq_iff s.w (by omega), List.length_eq_zero_iff]

theorem read_eq_write_iff : s.r = s.w ↔ s.ed.queue = [] := by
  have room := shows.room
  rw [shows.write, eq_comm, add_ofNat_eq_iff s.r (by omega), List.length_eq_zero_iff]

theorem queue_window : Ring.window s.buf 128 s.r.toNat s.ed.queue.length = s.ed.queue := by
  rw [← Ring.take_window (Nat.le_add_right _ s.ed.line.length), shows.ring, List.take_left]

/-- The character behind a part of the line. -/
theorem line_cell {j : Nat} (inside : j < s.ed.line.length) :
    s.buf ((s.w + .ofNat j) % INPUT_BUF_SIZE).toNat = s.ed.line.get ⟨j, inside⟩ := by
  have cell := congrArg (fun bytes => bytes[s.ed.queue.length + j]?) shows.ring
  simp only [Ring.window, List.getElem?_map, List.getElem?_range
    (Nat.add_lt_add_left inside s.ed.queue.length), Option.map_some,
    List.getElem?_append_right le_self_add, Nat.add_sub_cancel_left,
    List.getElem?_eq_getElem inside] at cell
  rw [shows.write, add_ofNat_add, cell_add]
  simpa using cell

end

end Shows

/-! ## Typing -/

theorem Fields.edit_at (s : Fields) {index : UInt32} (at_index : s.e = index) :
    { s with e := index } = s := by
  subst at_index
  rfl

/-- Killing a line without a newline goes back to what has been committed. -/
theorem killLine_eq (fuel : Nat) (s : Fields) {n : Nat} (enough : n ≤ fuel) (small : n ≤ 128)
    (edit : s.e = s.w + .ofNat n)
    (plain : ∀ j < n, s.buf ((s.w + .ofNat j) % INPUT_BUF_SIZE).toNat ≠ newline) :
    Fields.killLine fuel s = { s with e := s.w } := by
  induction fuel generalizing s n with
  | zero =>
    have none_left : n = 0 := by omega
    rw [Fields.killLine, s.edit_at (edit.trans ((add_ofNat_eq_iff s.w small).mpr none_left))]
  | succ fuel ih =>
    rw [Fields.killLine]
    cases n with
    | zero =>
      have same : s.e = s.w := edit.trans ((add_ofNat_eq_iff s.w small).mpr rfl)
      rw [if_neg (by simp [same]), s.edit_at same]
    | succ n =>
      have back : s.e - 1 = s.w + .ofNat n := by rw [edit, ofNat_succ_sub_one]
      have apart : s.e ≠ s.w := by
        rw [edit]
        exact mt (add_ofNat_eq_iff s.w small).mp (by omega)
      rw [if_pos ⟨apart, back ▸ plain n (by omega)⟩]
      exact ih { s with e := s.e - 1 } (by omega) (by omega) back fun j below =>
        plain j (by omega)

section

variable {s : Fields}

section

variable (shows : Shows s)
include shows

/-- What is kept of a console whose reference changes its line. -/
theorem Shows.line {line : List UInt8} {e : UInt32}
    (shorter : line.length ≤ s.ed.line.length) (start : line = s.ed.line.take line.length)
    (edit : e = s.w + .ofNat line.length) :
    Shows { s with ed := { s.ed with line := line }, e := e } := by
  have room := shows.room
  have queue : ({ s.ed with line := line } : Editor).queue = s.ed.queue := rfl
  refine ⟨?_, shows.write, ?_, ?_, ?_, shows.taken⟩
  · rw [queue]
    change _ + line.length ≤ 128
    omega
  · change e = s.r + .ofNat (s.ed.queue.length + line.length)
    rw [edit, shows.write, add_ofNat_add]
  · change Ring.window s.buf 128 s.r.toNat (s.ed.queue.length + line.length) = s.ed.queue ++ line
    have whole := congrArg (List.take (s.ed.queue.length + line.length)) shows.ring
    rw [List.take_length_add_append, ← start] at whole
    rw [← whole, Ring.take_window (by omega)]
  · change newline ∉ line
    rw [start]
    exact fun member => shows.plain (List.mem_of_mem_take member)

theorem Shows.killLine :
    Fields.killLine INPUT_BUF_SIZE.toNat { s with ed := { s.ed with line := [] } } =
      { s with ed := { s.ed with line := [] }, e := s.w } := by
  have room := shows.room
  refine killLine_eq INPUT_BUF_SIZE.toNat { s with ed := { s.ed with line := [] } }
    (n := s.ed.line.length) (show _ ≤ 128 by omega) (by omega) shows.edit_write
    fun j inside newline_there => ?_
  change s.buf ((s.w + .ofNat j) % INPUT_BUF_SIZE).toNat = newline at newline_there
  rw [shows.line_cell inside] at newline_there
  exact shows.plain (newline_there ▸ List.get_mem _ _)

theorem Shows.kill : Shows { s with ed := { s.ed with line := [] }, e := s.w } :=
  shows.line zero_le rfl ((add_ofNat_eq_iff s.w zero_le).mpr rfl).symm

theorem Shows.backspace : Shows { s with
      ed := { s.ed with line := s.ed.line.dropLast }, e := if s.e ≠ s.w then s.e - 1 else s.e } := by
  refine shows.line (by simp) (by simp [List.dropLast_eq_take]) ?_
  split
  · next apart =>
    have some_left : s.ed.line ≠ [] := mt shows.edit_eq_write_iff.mpr apart
    have positive : 1 ≤ s.ed.line.length := List.length_pos_iff.mpr some_left
    rw [shows.edit_write, List.length_dropLast, ← Nat.sub_add_cancel positive, ofNat_succ_sub_one,
      Nat.add_sub_cancel]
  · next same =>
    have none_left : s.ed.line = [] := shows.edit_eq_write_iff.mp (not_not.mp same)
    simpa [none_left] using shows.edit_write

section

variable (room : s.ed.queue.length + s.ed.line.length < 128) (c : UInt8)
include room c

theorem Shows.store :
    Ring.window (s.store c).buf 128 s.r.toNat (s.ed.queue.length + (s.ed.line ++ [c]).length) =
        s.ed.queue ++ (s.ed.line ++ [c]) ∧
      (s.store c).e = s.r + .ofNat (s.ed.queue.length + (s.ed.line ++ [c]).length) := by
  simp only [Fields.store, List.length_append, List.length_singleton, ← add_assoc]
  constructor
  · rw [shows.edit, cell_add, Ring.window_store s.buf s.r.toNat room, shows.ring, List.append_assoc]
  · rw [shows.edit, add_ofNat_succ]

/-- The code and the reference commit at the same characters. -/
theorem Shows.commits_iff : (s.store c).commits c ↔
      c = newline ∨ c = ctrl 'D' ∨ s.ed.queue.length + (s.ed.line ++ [c]).length = 128 := by
  have distance : ((s.store c).e - (s.store c).r).toNat =
      s.ed.queue.length + (s.ed.line ++ [c]).length := by
    rw [(shows.store room c).2]
    refine toNat_sub_self s.r ?_
    simp only [List.length_append, List.length_singleton]
    omega
  rw [Fields.commits, ← distance]
  refine or_congr_right (or_congr_right ?_)
  rw [← UInt32.toNat_inj]
  rfl

theorem Shows.append : if (s.store c).commits c then
      Shows { s.store c with ed := s.ed.append c, w := (s.store c).e }
    else Shows { s.store c with ed := s.ed.append c } := by
  obtain ⟨ring, edit⟩ := shows.store room c
  have length : (s.ed.line ++ [c]).length = s.ed.line.length + 1 := by simp
  split
  · next commits =>
    rw [shows.commits_iff room] at commits
    have appended : s.ed.append c =
        { s.ed with committed := s.ed.committed ++ (s.ed.line ++ [c]), line := [] } := if_pos commits
    have queue : (s.ed.append c).queue = s.ed.queue ++ (s.ed.line ++ [c]) := by
      rw [appended]
      exact List.drop_append_of_le_length shows.taken
    have count : (s.ed.append c).queue.length = s.ed.queue.length + (s.ed.line ++ [c]).length := by
      rw [queue, List.length_append]
    have line : (s.ed.append c).line = [] := by rw [appended]
    have total : (s.ed.append c).queue.length + (s.ed.append c).line.length =
        s.ed.queue.length + (s.ed.line ++ [c]).length := by
      rw [count, line, List.length_nil, add_zero]
    refine ⟨?_, edit.trans (by rw [count]; rfl), edit.trans (by rw [total]; rfl), ?_, ?_, ?_⟩
    · rw [total]
      omega
    · rw [total, queue, line, List.append_nil]
      exact ring
    · rw [line]
      exact List.not_mem_nil
    · have before := shows.taken
      rw [appended, List.length_append]
      exact before.trans le_self_add
  · next keeps =>
    rw [shows.commits_iff room] at keeps
    have appended : s.ed.append c = { s.ed with line := s.ed.line ++ [c] } := if_neg keeps
    rw [appended]
    refine ⟨?_, shows.write, edit, ring, ?_, shows.taken⟩
    · change s.ed.queue.length + (s.ed.line ++ [c]).length ≤ 128
      omega
    · change newline ∉ s.ed.line ++ [c]
      simp only [List.mem_append, List.mem_singleton, not_or]
      exact ⟨shows.plain, fun typed => keeps (.inl typed.symm)⟩

end

end

end

/-! ## What readers get -/

theorem Editor.append_committed (ed : Editor) (c : UInt8) :
    ed.committed <+: (ed.append c).committed ∧ (ed.append c).taken = ed.taken := by
  rw [Editor.append]
  split
  · exact ⟨List.prefix_append _ _, rfl⟩
  · exact ⟨List.prefix_rfl, rfl⟩

/-- The bytes taken are those committed; all but `^D` are handed to the readers, and every `^D` has
ended a call. -/
structure Disciplined (s : Fields) : Prop where
  shows : Shows s
  consumed : s.consumed = s.ed.committed.take s.ed.taken
  handed : s.handed = s.consumed.filter (· ≠ ctrl 'D')
  eofs : s.results.count ([], .eof) = s.consumed.count (ctrl 'D')

namespace Disciplined

variable {s t : Fields}

variable (disciplined : Disciplined s)

include disciplined

theorem typed (shows : Shows t) (consumed : t.consumed = s.consumed)
    (handed : t.handed = s.handed) (results : t.results = s.results)
    (committed : s.ed.committed <+: t.ed.committed) (taken : t.ed.taken = s.ed.taken) :
    Disciplined t := by
  refine ⟨shows, ?_, by rw [handed, consumed, disciplined.handed],
    by rw [results, consumed, disciplined.eofs]⟩
  obtain ⟨more, grown⟩ := committed
  rw [consumed, disciplined.consumed, taken, ← grown,
    List.take_append_of_le_length disciplined.shows.taken]

theorem intr (c : UInt8) :
    ∃ t, Disciplined t ∧
      (s.intr c = .wake t .typed ∨ s.intr c = .leave t .out ∧ t.r = s.r ∧ t.w = s.w) := by
  have shows := disciplined.shows
  have keep : ∀ {line e}, Shows { s with ed := { s.ed with line := line }, e := e } →
      Disciplined { s with ed := { s.ed with line := line }, e := e } := fun shows' =>
    disciplined.typed shows' rfl rfl rfl List.prefix_rfl rfl
  by_cases kills : c = ctrl 'U'
  · refine ⟨_, keep shows.kill, .inr ⟨?_, rfl, rfl⟩⟩
    rw [Fields.intr, if_pos kills, Editor.type, if_pos kills, shows.killLine]
  by_cases deletes : c = ctrl 'H' ∨ c = delete
  · refine ⟨_, keep shows.backspace, .inr ⟨?_, rfl, rfl⟩⟩
    rw [Fields.intr, if_neg kills, if_pos deletes, Editor.type, if_neg kills, if_pos deletes]
    by_cases apart : s.e ≠ s.w
    · rw [if_pos apart, if_pos apart]
    · rw [if_neg apart, if_neg apart]
  have distance : s.e - s.r < INPUT_BUF_SIZE ↔ ¬128 ≤ s.ed.queue.length + s.ed.line.length := by
    rw [UInt32.lt_iff_toNat_lt, shows.used, not_le]
    rfl
  by_cases ignored : c = 0 ∨ 128 ≤ s.ed.queue.length + s.ed.line.length
  · refine ⟨s, disciplined, .inr ⟨?_, rfl, rfl⟩⟩
    have closed : ¬(c ≠ 0 ∧ s.e - s.r < INPUT_BUF_SIZE) := by
      rw [distance]
      tauto
    rw [Fields.intr, if_neg kills, if_neg deletes, if_neg closed, Editor.type, if_neg kills,
      if_neg deletes, if_pos ignored]
  · have accepted : c ≠ 0 ∧ s.e - s.r < INPUT_BUF_SIZE := by
      rw [distance]
      tauto
    have appended := shows.append (not_le.mp (not_or.mp ignored).2)
      (if c = carriageReturn then newline else c)
    obtain ⟨committed, taken⟩ := s.ed.append_committed (if c = carriageReturn then newline else c)
    rw [Fields.intr, if_neg kills, if_neg deletes, if_pos accepted, Editor.type, if_neg kills,
      if_neg deletes, if_neg ignored]
    generalize (if c = carriageReturn then newline else c) = d at appended committed taken ⊢
    by_cases commits : (s.store d).commits d
    · rw [if_pos commits] at appended
      exact ⟨_, disciplined.typed appended rfl rfl rfl committed taken, .inl (if_pos commits)⟩
    · rw [if_neg commits] at appended
      exact ⟨_, disciplined.typed appended rfl rfl rfl committed taken, .inr ⟨if_neg commits, rfl, rfl⟩⟩

theorem take (unread : s.r ≠ s.w) :
    Shows { s with r := s.r + 1, ed := s.ed.take } ∧
      s.consumed ++ [s.buf (s.r % INPUT_BUF_SIZE).toNat] = s.ed.committed.take (s.ed.taken + 1) := by
  have shows := disciplined.shows
  have room := shows.room
  have some_left : s.ed.queue ≠ [] := mt shows.read_eq_write_iff.mpr unread
  obtain ⟨c, rest, queue⟩ := List.exists_cons_of_ne_nil some_left
  have dropped : s.ed.take.queue = rest := by
    have tail := congrArg List.tail queue
    simpa [Editor.queue, Editor.take] using tail
  have count : s.ed.queue.length = rest.length + 1 := by rw [queue, List.length_cons]
  have ring := shows.ring
  rw [count, show rest.length + 1 + s.ed.line.length = rest.length + s.ed.line.length + 1 by omega,
    Ring.window_succ, queue, List.cons_append, List.cons.injEq] at ring
  obtain ⟨first, others⟩ := ring
  have inside : s.ed.taken < s.ed.committed.length := by
    have positive := List.length_pos_iff.mpr some_left
    rw [Editor.queue, List.length_drop] at positive
    omega
  constructor
  · refine ⟨?_, ?_, ?_, ?_, shows.plain, inside⟩
    · rw [dropped]
      change rest.length + s.ed.line.length ≤ 128
      omega
    · change s.w = s.r + 1 + .ofNat s.ed.take.queue.length
      rw [dropped, shows.write, count, succ_add_ofNat]
    · change s.e = s.r + 1 + .ofNat (s.ed.take.queue.length + s.ed.line.length)
      rw [dropped, shows.edit, count, succ_add_ofNat]
      congr 2
      omega
    · change Ring.window s.buf 128 (s.r + 1).toNat (s.ed.take.queue.length + s.ed.line.length) =
        s.ed.take.queue ++ s.ed.line
      rw [dropped, ← others]
      exact Ring.window_congr (cell_succ s.r) s.buf _
  · have head : s.ed.committed[s.ed.taken] = c := by
      have split_at := List.drop_eq_getElem_cons inside
      rw [← Editor.queue, queue] at split_at
      exact (List.cons.inj split_at).1.symm
    rw [List.take_succ_eq_append_getElem inside, disciplined.consumed, head, UInt32.toNat_mod]
    exact congrArg (_ ++ [·]) first

theorem finish (bytes : List UInt8) (ending : Ending) (other : (bytes, ending) ≠ ([], .eof)) :
    Disciplined { s with results := s.results ++ [(bytes, ending)] } := by
  obtain ⟨shows, consumed, handed, eofs⟩ := disciplined
  refine ⟨{ shows with }, consumed,
    handed, ?_⟩
  change (s.results ++ [(bytes, ending)]).count ([], .eof) = _
  rw [List.count_append, List.count_singleton, if_neg (by simpa using other), eofs, add_zero]

theorem hand (unread : s.r ≠ s.w) {c : UInt8}
    (here : s.buf (s.r % INPUT_BUF_SIZE).toNat = c) (other : c ≠ ctrl 'D') :
    Disciplined { s with
      r := s.r + 1, consumed := s.consumed ++ [c], ed := s.ed.take, handed := s.handed ++ [c] } := by
  obtain ⟨shows, consumed⟩ := disciplined.take unread
  rw [here] at consumed
  refine ⟨{ shows with }, consumed, ?_, ?_⟩
  · change s.handed ++ [c] = (s.consumed ++ [c]).filter _
    rw [List.filter_append, disciplined.handed]
    simp [other]
  · change s.results.count _ = (s.consumed ++ [c]).count _
    rw [List.count_append, List.count_singleton, if_neg (by simpa using other), disciplined.eofs,
      add_zero]

/-- A `^D` ends a call that has stored nothing. -/
theorem eof (unread : s.r ≠ s.w) {c : UInt8}
    (here : s.buf (s.r % INPUT_BUF_SIZE).toNat = c) (eof : c = ctrl 'D') :
    Disciplined { s with
      r := s.r + 1, consumed := s.consumed ++ [c], ed := s.ed.take,
      results := s.results ++ [([], .eof)] } := by
  obtain ⟨shows, consumed⟩ := disciplined.take unread
  rw [here] at consumed
  refine ⟨{ shows with }, consumed, ?_, ?_⟩
  · change s.handed = (s.consumed ++ [c]).filter _
    rw [List.filter_append, disciplined.handed]
    simp [eof]
  · change (s.results ++ [([], Ending.eof)]).count _ = (s.consumed ++ [c]).count _
    rw [List.count_append, List.count_append, disciplined.eofs, eof]
    simp

theorem read (killed : Bool) (target : Nat) (bytes : List UInt8) :
    (s.r = s.w ∧ s.read killed target bytes = .sleep (.reading target bytes)) ∨
      ∃ t, Disciplined t ∧ (s.r = s.w → t.r = t.w) ∧
        (s.read killed target bytes = .leave t .out ∨
          ∃ more, s.read killed target bytes = .go t (.reading target more)) := by
  rw [Fields.read]
  by_cases wanted : bytes.length < target
  · rw [if_pos wanted]
    by_cases empty : s.r = s.w
    · rw [if_pos empty]
      cases killed with
      | true => exact .inr ⟨_, disciplined.finish _ _ (by simp), fun _ => empty, .inl rfl⟩
      | false => exact .inl ⟨empty, rfl⟩
    · rw [if_neg empty]
      refine .inr ?_
      generalize here : s.buf (s.r % INPUT_BUF_SIZE).toNat = c
      by_cases ends : c = ctrl 'D'
      · rw [if_pos ends]
        cases bytes with
        | nil => exact ⟨_, disciplined.eof empty here ends, fun same => absurd same empty, .inl rfl⟩
        | cons byte bytes =>
          refine ⟨_, disciplined.finish (byte :: bytes) .eof (by simp), fun same => same, .inl ?_⟩
          have back : s.r + 1 - 1 = s.r := by grind
          simp [Fields.finish, back]
      · rw [if_neg ends]
        have handed := disciplined.hand empty here ends
        by_cases full : c = newline
        · rw [if_pos full]
          exact ⟨_, handed.finish _ _ (by simp), fun same => absurd same empty, .inl rfl⟩
        · rw [if_neg full]
          exact ⟨_, handed, fun same => absurd same empty, .inr ⟨_, rfl⟩⟩
  · rw [if_neg wanted]
    exact .inr ⟨_, disciplined.finish _ _ (by simp), id, .inl rfl⟩

omit disciplined in
theorem init : Disciplined {} :=
  ⟨⟨zero_le, rfl, rfl, rfl, List.not_mem_nil, le_rfl⟩, rfl, rfl, rfl⟩

end Disciplined

/-! ## Runs -/

variable {Pid : Type} {procs : List Pid} {complete : ∀ p, p ∈ procs}

/-- What a handler or a reader does with `cons.lock`. -/
theorem Disciplined.body {s : Fields} (disciplined : Disciplined s) {killed : Bool} {point : Point}
    {move : Move Fields Point} (moved : body killed s point = some move) :
    (s.r = s.w ∧ ∃ next, move = .sleep next) ∨
      ∃ t, Disciplined t ∧ ((∃ next, move = .wake t next) ∨
        (s.r = s.w → t.r = t.w) ∧ ((∃ next, move = .leave t next) ∨ ∃ next, move = .go t next)) := by
  cases point with
  | out => simp [Console.body] at moved
  | typed =>
    cases moved
    exact .inr ⟨s, disciplined, .inr ⟨id, .inl ⟨_, rfl⟩⟩⟩
  | typing c =>
    cases moved
    obtain ⟨t, after, wakes | ⟨leaves, read, write⟩⟩ := disciplined.intr c
    · exact .inr ⟨t, after, .inl ⟨_, wakes⟩⟩
    · exact .inr ⟨t, after, .inr ⟨fun same => by rw [read, write, same], .inl ⟨_, leaves⟩⟩⟩
  | reading target bytes =>
    cases moved
    rcases disciplined.read killed target bytes with
      ⟨empty, sleeps⟩ | ⟨t, after, kept, leaves | ⟨more, goes⟩⟩
    · exact .inl ⟨empty, _, sleeps⟩
    · exact .inr ⟨t, after, .inr ⟨kept, .inl ⟨_, leaves⟩⟩⟩
    · exact .inr ⟨t, after, .inr ⟨kept, .inr ⟨_, goes⟩⟩⟩

theorem outer_data {call : Call} {p : Pid} {point next : Point} {s t : Fields}
    (stepped : (code procs complete).outer p call point s = some (t, next)) : t = s := by
  obtain ⟨_, -, same⟩ := Option.map_eq_some_iff.mp stepped
  exact (Prod.mk.inj same).1.symm

variable [DecidableEq Pid]

theorem keeps_disciplined : Keeps (code procs complete) fun s _ => Disciplined s where
  outer := fun disciplined stepped => outer_data stepped ▸ disciplined
  move := by
    intro p killed call s points move disciplined moved
    rcases disciplined.body moved with
      ⟨-, next, rfl⟩ | ⟨t, after, ⟨next, rfl⟩ | ⟨-, ⟨next, rfl⟩ | ⟨next, rfl⟩⟩⟩
    · exact disciplined
    · exact after
    · exact after
    · exact after

omit [DecidableEq Pid] in
/-- Only a handler that wakes the readers ends their wait. -/
theorem pays : Pays (code procs complete) (fun s _ => Disciplined s) (fun s => s.r = s.w)
    fun _ => False where
  outer := fun _ stepped waits => outer_data stepped ▸ waits
  go := by
    intro p killed call s points t next disciplined moved
    rcases disciplined.body moved with
      ⟨-, _, other⟩ | ⟨u, -, ⟨_, other⟩ | ⟨kept, ⟨_, other⟩ | ⟨_, same⟩⟩⟩
    · simp at other
    · simp at other
    · simp at other
    · obtain ⟨rfl, -⟩ := Move.go.inj same
      exact ⟨id, fun waits => .inl (kept waits)⟩
  sleep := by
    intro p killed call s points next disciplined moved
    rcases disciplined.body moved with
      ⟨empty, -⟩ | ⟨u, -, ⟨_, other⟩ | ⟨-, ⟨_, other⟩ | ⟨_, other⟩⟩⟩
    · exact empty
    · simp at other
    · simp at other
    · simp at other
  leave := by
    intro p killed call s points t next disciplined moved
    refine ⟨id, fun waits => ?_⟩
    rcases disciplined.body moved with
      ⟨-, _, other⟩ | ⟨u, -, ⟨_, other⟩ | ⟨kept, ⟨_, same⟩ | ⟨_, other⟩⟩⟩
    · simp at other
    · simp at other
    · obtain ⟨rfl, -⟩ := Move.leave.inj same
      exact kept waits
    · simp at other

/-- The line discipline of a console. -/
structure Discipline (s : State Pid Fields Point) : Prop where
  committed_le : s.data.w - s.data.r ≤ s.data.e - s.data.r
  fits : s.data.e - s.data.r ≤ INPUT_BUF_SIZE
  /-- Readers take what the reference has committed, in its order. -/
  consumed : s.data.consumed <+: s.data.ed.committed
  /-- What they have not taken is in the ring. -/
  unread : s.data.consumed ++
    Ring.window s.data.buf 128 s.data.r.toNat (s.data.w - s.data.r).toNat = s.data.ed.committed
  /-- They are handed all of it but the `^D`. -/
  handed : s.data.handed = s.data.consumed.filter (· ≠ ctrl 'D')
  /-- Every `^D` they have taken has ended a call that had stored nothing. -/
  eofs : s.data.results.count ([], .eof) = s.data.consumed.count (ctrl 'D')
  awake : s.lock = none → ∀ p point, s.phase p = .asleep point → s.data.r = s.data.w

/-- In every run of handlers and readers the line discipline holds. -/
theorem discipline_correct {s : Monitor.State Pid Fields Point}
    {events : List (Monitor.Event Pid Call)}
    (run : Execution.Run (Monitor.step (code procs complete)) (fun _ _ => True) init events s) :
    Discipline s := by
  have disciplined : Disciplined s.data := keeps_disciplined.of_run Disciplined.init run
  have shows := disciplined.shows
  have room := shows.room
  refine ⟨?_, ?_, ?_, ?_, disciplined.handed, disciplined.eofs, fun free p point asleep => ?_⟩
  · rw [UInt32.le_iff_toNat_le, shows.unread, shows.used]
    exact Nat.le_add_right _ _
  · rw [UInt32.le_iff_toNat_le, shows.used]
    exact room
  · rw [disciplined.consumed]
    exact List.take_prefix _ _
  · rw [shows.unread, shows.queue_window, disciplined.consumed]
    exact List.take_append_drop _ _
  · exact Monitor.noLostWakeup_of_run keeps_disciplined pays Disciplined.init run free p
      (by simp [asleep, Phase.sleeps])

/-- A handler types `a`, a backspace, `b` and `^D`, for two readers. -/
def typing : List (Event (Fin 3) Call) :=
  ([.outer 1 (.read 4), .enter 1, .move 1 (.read 4), .fall 1] : List (Event (Fin 3) Call)) ++
    ([97, 8, 98, 4].flatMap fun c => [.outer 0 (.intr c), .enter 0, .move 0 (.intr c)]) ++
    ([.wake 0, .wake 0, .wake 0, .wake 0, .move 0 (.intr 4), .enter 1, .move 1 (.read 4),
      .move 1 (.read 4), .outer 2 (.read 4), .enter 2, .move 2 (.read 4)] :
      List (Event (Fin 3) Call))

theorem discipline_correct_typing :
    ∃ s, Execution.Run (Monitor.step (code [0, 1, 2] (by decide))) (fun _ _ => True) init typing s ∧
      s.data.results = [([98], .eof), ([], .eof)] ∧ Discipline s := by
  obtain ⟨s, run, results⟩ : ∃ s, Execution.Run
      (Monitor.step (code [0, 1, 2] (by decide))) (fun _ _ => True) init typing s ∧
      decide (s.data.results = [([98], .eof), ([], .eof)]) = true := by
    apply Execution.exists_run_of_exec
    decide +kernel
  exact ⟨s, run, of_decide_eq_true results, discipline_correct run⟩

end OsCpp.Console
