import OsCpp.Exec.Cleanup

/-!
# `exec` does not panic

Whatever a file holds, `exec` returns: neither the headers of a file nor a lack of frames lead to a
panic on a page table.
-/

namespace OsCpp.Exec

open Frames

section

variable {ok : Stop → Prop} {k : Kernel} {p : Slot}

theorem runs_ends {α : Type} {prog : Prog α} {stop : Stop} {post : α → Kernel → Prop}
    (ended : α → State → Prop) (finishes : ends False p prog ended k.memory)
    (after : ∀ value m, ended value m → post value { k with memory := m }) :
    RunsIn ok (mem p stop prog) post k := by
  rw [ends, Process.Logic.wp_alone] at finishes
  unfold RunsIn Program.wp mem
  cases outcome : prog.alone (steps p) k.memory with
  | blocked | halt =>
    rw [outcome] at finishes
    exact absurd finishes id
  | next m value =>
    rw [outcome] at finishes
    exact after value m finishes

/-- The new image replaces the old one, which is freed. -/
theorem runs_commit_image {w : World} {entry : UInt64} {t old : Table} {sz sp : Nat}
    {post : Unit → Kernel → Prop} (alive : (k.memory.proc_list p).status = .RUNNABLE)
    (table : (k.memory.proc_list p).pagetable = some old)
    (image : Image old (pages (k.memory.proc_list p).sz))
    (small : pages (k.memory.proc_list p).sz < 2 ^ 25) (after : ∀ k', post () k') :
    RunsIn ok (commit w p entry t sz sp) post k := by
  refine runs_bind ?_
  change RunsIn ok _ post { k with name := w.last, trapframe := ⟨entry.toNat, sp, sp⟩ }
  refine runs_bind (runs_ends (fun result m => result = (old, (k.memory.proc_list p).sz) ∧
    (m.proc_list p).status = .RUNNABLE) (ends_takeTable alive (fun absent => ?_) fun t found => ?_) ?_)
  · rw [table] at absent
    cases absent
  · rw [table] at found
    cases found
    exact ⟨rfl, by simpa using alive⟩
  · rintro _ m ⟨rfl, alive⟩
    refine runs_bind (runs_ends (fun _ m => (m.proc_list p).status = .RUNNABLE)
      (ends_putTable alive (by simpa using alive)) fun _ m alive => ?_)
    exact runs_ends (fun _ _ => True) (ends_free_image alive image small fun _ => trivial)
      fun _ _ _ => after _

end

theorem image_bootTable : Image bootTable 1 := by
  obtain ⟨first, second, third⟩ := lookup_bootNodes
  have lookups : ∀ va, bootTable.lookup va =
      if SamePage 0 va then some ⟨true, ⟨true, true, true, true⟩, 5⟩
      else if SamePage TRAPFRAME va then some ⟨true, { r := true, w := true }, 1⟩
      else if SamePage TRAMPOLINE va then some ⟨true, { r := true, x := true }, trampoline⟩
      else bootNodes.lookup va := by
    intro va
    rw [bootTable, Table.lookup_store third, Table.lookup_store second, Table.lookup_store first]
  refine ⟨⟨_, lookups _, by decide⟩, ⟨_, lookups _, by decide⟩, fun va pte found valid => ?_,
    fun j less => ?_⟩
  · rw [lookups] at found
    split at found
    · next same => exact .inr (.inr ⟨0, by decide, by rwa [zero_mul]⟩)
    · split at found
      · next same => exact .inr (.inl same)
      · split at found
        · next same => exact .inl same
        · rw [invalid_bootNodes found] at valid
          cases valid
  · obtain rfl : j = 0 := by omega
    exact ⟨_, lookups _, by decide⟩

end OsCpp.Exec
