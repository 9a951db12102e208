/-
VmSim.Contract.ReferenceCounts — reference counts are exact, and nothing
leaks.

The calls of a run name live tables, and allocation succeeds. The heap
answers every one of them, so no freed pointer is used or freed again;
and in the state it ends in, every count is the number of references
there are.
-/
import VmSim.PageTable.References
import VmSim.PageTable.Tables

namespace VmSim

open Lib

/-- **Reference counts are exact.** After any calls on any number of
tables, every node is counted once for each table whose root it is and
each slot that points to it, every entry once for each leaf slot, children
are one level deeper, and every object is reached from a live table. When
all tables are destroyed the heap is empty. No call faults: nothing is
freed twice, and nothing freed is used. -/
theorem pageTable_references {calls : List TableCall} {replies : List TableReply} {m : TableMaps}
    (hrun : run TableMaps.step TableMaps.empty calls = some (replies, m)) :
    ∃ h, run Heap.tableStep (Heap.empty fun _ => true) calls = some (replies, h) ∧
      (∀ t, (h.tables t).isSome = (m.map t).isSome) ∧ h.Exact ∧
      ((∀ t, m.map t = none) → ∀ p, h.objects p = none) := by
  obtain ⟨h, hheap, hm⟩ := run_simulation TableMaps.Held tableStep_refines calls _ _ _ _
    TableMaps.held_empty hrun
  refine ⟨h, hheap, hm.live, hm.wf.exact, fun hnone p => ?_⟩
  refine hm.wf.exact.empty (fun t => ?_) p
  have hlive := hm.live t
  rw [hnone t] at hlive
  exact Option.not_isSome_iff_eq_none.mp (by rw [hlive]; decide)

/-- A clone that copies a path, loses a page and outlives its source. -/
theorem pageTable_references_clone :
    ∃ h replies, run Heap.tableStep (Heap.empty fun _ => true) [.create, .map 0 0x1000 7,
        .map 0 0x40000000 8, .cloneShared 0, .map 1 0x1000 9, .unmap 1 0x40000000, .destroy 0,
        .destroy 1] = some (replies, h) ∧ h.Exact ∧ ∀ p, h.objects p = none := by
  have hrun : run TableMaps.step TableMaps.empty [.create, .map 0 0x1000 7, .map 0 0x40000000 8,
      .cloneShared 0, .map 1 0x1000 9, .unmap 1 0x40000000, .destroy 0, .destroy 1] =
        some (_, _) := rfl
  obtain ⟨h, hheap, _, hexact, hempty⟩ := pageTable_references hrun
  refine ⟨h, _, hheap, hexact, hempty fun t => ?_⟩
  match t with
  | 0 => rfl
  | 1 => rfl
  | _ + 2 => rfl

end VmSim
