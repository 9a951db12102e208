/-
VmSim.Contract.FailedMap — what `page_table_map` leaves when an allocation
fails.

The nodes that a call has created on its way down are not taken back when
a later allocation fails, although `page_table_unmap` prunes the nodes that
it empties. A failed call leaves no trace exactly if it has created none.
-/
import VmSim.PageTable.FailedMap

namespace VmSim

open Lib

variable {h : Heap} {t : Nat} {r : PageTable}

/-- **A failed map leaves the trie as it was** exactly if no node is empty
to begin with and none is hung before the failure: the path of the address
has all its nodes, or one of the allocations for the `c` copies and the
first missing node fails. The heap, its sharing and the allocations that
fail are arbitrary, and no call faults. -/
theorem pageTable_failedMap (hw : h.Wf noPending) (ht : h.tables t = some r) (a frame : Nat) :
    (∃ h', pageTableMap t a frame h = .ok () h') ∨
      ∃ h', pageTableMap t a frame h = .failed h' ∧ h'.Wf noPending ∧
        (h.Undisturbed h' ∧ h'.Full ↔
          h.Full ∧ h.NothingHung r.root (h.copies r.root (innerIndices a)) (innerIndices a)) := by
  obtain ⟨result, h', hrun, hend⟩ := pageTableMap_ends hw ht a frame
  cases hmap : pageTableMap t a frame h with
  | fault => simp [Comp.attempt, hmap] at hrun
  | ok u h₁ => exact Or.inl ⟨h₁, rfl⟩
  | failed h₁ =>
    rw [Comp.attempt_failed hmap] at hrun
    cases hrun
    have hfailed := hend rfl
    refine Or.inr ⟨h', rfl, hfailed.wf, ?_⟩
    constructor
    · rintro ⟨hundisturbed, hfull⟩
      by_cases hearly : h.NothingHung r.root (h.copies r.root (innerIndices a)) (innerIndices a)
      · exact ⟨(hfailed.early hearly).symm.full hfailed.wf hw hfull, hearly⟩
      · -- the node that was hung adds a level to the lookup of the address itself
        obtain ⟨r', ht', hdeeper⟩ := hfailed.late hearly
        obtain ⟨entry, entry', levels, hlook, hlook', _⟩ := hundisturbed.lookup t r ht a
        obtain ⟨_, hwalk, _⟩ := hw.lookup_view ht a
        obtain ⟨_, hwalk', _⟩ := hfailed.wf.lookup_view ht' a
        have hlevels := congrArg Prod.snd (Outcome.ok.inj (hlook.symm.trans hwalk)).1
        have hlevels' := congrArg Prod.snd (Outcome.ok.inj (hlook'.symm.trans hwalk')).1
        exact absurd hdeeper (Nat.not_lt.mpr (hlevels'.symm.trans hlevels).le)
    · rintro ⟨hfull, hearly⟩
      have hsame := hfailed.early hearly
      exact ⟨hsame.undisturbed hw hfailed.wf, hsame.full hw hfailed.wf hfull⟩

/-- Allocations that fail only while the second of four shared nodes is
copied. -/
theorem pageTable_failedMap_copying : ∃ h h', (∃ replies, run Heap.tableStep
      (Heap.empty fun _ => true) [.create, .map 0 0x1000 7, .cloneShared 0] = some (replies, h)) ∧
    pageTableMap 1 0x1000 9 (h.supplied ⟨fun k => k != 3, 0⟩) = .failed h' ∧
    (h.supplied ⟨fun k => k != 3, 0⟩).Undisturbed h' ∧ h'.Full := by
  have hrun : run TableMaps.step TableMaps.empty [.create, .map 0 0x1000 7, .cloneShared 0] =
      some (_, _) := rfl
  obtain ⟨h, hheap, hm, hfull⟩ := tableRun_full hrun
  obtain ⟨r, ht⟩ := hm.table (t := 1) rfl
  have hcheck : ((run Heap.tableStep (Heap.empty fun _ => true)
      [.create, .map 0 0x1000 7, .cloneShared 0]).any fun x => decide (
        (x.2.tables 1).map (fun r => descentDepth x.2.slots r.root (innerIndices 0x1000)) =
          some 4 ∧
        ((pageTableMap 1 0x1000 9 (x.2.supplied ⟨fun k => k != 3, 0⟩)).reply id).map (·.1) =
          some none)) = true := by decide +kernel
  rw [hheap, Option.any_some, decide_eq_true_iff, ht] at hcheck
  obtain ⟨hdepth, hfailed⟩ := hcheck
  refine ⟨h, ?_⟩
  rcases pageTable_failedMap (hm.wf.supplied ⟨fun k => k != 3, 0⟩) (t := 1) ht 0x1000 9 with
    ⟨h', hok⟩ | ⟨h', hmap, _, hiff⟩
  · rw [hok] at hfailed
    cases hfailed
  · exact ⟨h', ⟨_, hheap⟩, hmap, hiff.mpr ⟨⟨rfl, hfull.node⟩, Or.inl (Option.some.inj hdepth)⟩⟩

/-- An empty node below the root. -/
def Object.hollow : Object → Bool
  | .node n => 0 < n.level && n.activeEntries == 0
  | .entry _ => false

/-- The last of seven allocations fails: the three nodes for the leaf's
path stay in the table, and the leaf is empty. -/
theorem pageTable_failedMap_hollow : ∃ h h₁ h' : Heap,
    (∃ replies, run Heap.tableStep (Heap.empty fun _ => true) [.create] = some (replies, h)) ∧
    h₁ = h.supplied ⟨fun k => k != 6, 0⟩ ∧ h₁.Wf noPending ∧ h₁.Full ∧
    pageTableMap 0 0x1000 7 h₁ = .failed h' ∧
    (∃ entry, pageTableLookupWithLevels 0 0x1000 h₁ = .ok (entry, 1) h₁) ∧
    (∃ entry, pageTableLookupWithLevels 0 0x1000 h' = .ok (entry, 4) h') ∧
    pageTableNodeCount 0 h₁ = .ok 1 h₁ ∧ pageTableNodeCount 0 h' = .ok 4 h' ∧
    (h'.objects 3).any Object.hollow = true := by
  have hcreate : run TableMaps.step TableMaps.empty [.create] = some (_, _) := rfl
  obtain ⟨h, hheap, hm, hfull⟩ := tableRun_full hcreate
  obtain ⟨r, ht⟩ := hm.table (t := 0) rfl
  have hw := hm.wf.supplied ⟨fun k => k != 6, 0⟩
  have hcheck : ((run Heap.tableStep (Heap.empty fun _ => true) [.create]).any fun x =>
      ((pageTableMap 0 0x1000 7 (x.2.supplied ⟨fun k => k != 6, 0⟩)).reply id).any fun y => decide (
        y.1 = none ∧
        (x.2.tables 0).map (fun r => descentDepth x.2.slots r.root (innerIndices 0x1000)) =
          some 1 ∧
        (y.2.tables 0).map (fun r => descentDepth y.2.slots r.root (innerIndices 0x1000)) =
          some 4 ∧
        ((pageTableNodeCount 0 (x.2.supplied ⟨fun k => k != 6, 0⟩)).reply id).map (·.1) =
          some (some 1) ∧
        ((pageTableNodeCount 0 y.2).reply id).map (·.1) = some (some 4) ∧
        (y.2.objects 3).any (·.hollow) = true)) = true := by decide +kernel
  rw [hheap, Option.any_some] at hcheck
  obtain ⟨⟨result, h'⟩, hmap, hcheck⟩ := (Option.any_eq_true _ _).mp hcheck
  obtain ⟨rfl, hlevels, hlevels', hcount, hcount', hempty⟩ := of_decide_eq_true hcheck
  have hfailed : pageTableMap 0 0x1000 7 (h.supplied ⟨fun k => k != 6, 0⟩) = .failed h' := by
    cases hrun : pageTableMap 0 0x1000 7 (h.supplied ⟨fun k => k != 6, 0⟩) with
    | ok u h₁ => rw [hrun] at hmap; cases hmap
    | failed h₁ => rw [hrun] at hmap; cases hmap; rfl
    | fault => rw [hrun] at hmap; cases hmap
  obtain ⟨_, h₁, hrun, hend⟩ := pageTableMap_ends hw (t := 0) ht 0x1000 7
  rw [Comp.attempt_failed hfailed] at hrun
  cases hrun
  have hw' := (hend rfl).wf
  obtain ⟨r', ht', hdepth'⟩ := Option.map_eq_some_iff.mp hlevels'
  rw [ht, Option.map_some, Option.some.injEq] at hlevels
  obtain ⟨entry, hlook, _⟩ := hw.lookup_view (t := 0) ht 0x1000
  obtain ⟨entry', hlook', _⟩ := hw'.lookup_view ht' 0x1000
  rw [hw.nodeCount_run (t := 0) ht] at hcount
  rw [hw'.nodeCount_run ht'] at hcount'
  simp only [Outcome.reply, Option.map_some, id, Option.some.injEq] at hcount hcount'
  refine ⟨h, _, h', ⟨_, hheap⟩, rfl, hw, ⟨rfl, hfull.node⟩, hfailed, ⟨entry, ?_⟩, ⟨entry', ?_⟩, ?_,
    ?_, hempty⟩
  · exact hlevels ▸ hlook
  · exact hdepth' ▸ hlook'
  · rw [hw.nodeCount_run (t := 0) ht, hcount]
  · rw [hw'.nodeCount_run ht', hcount']

end VmSim
