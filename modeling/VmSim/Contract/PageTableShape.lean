/-
VmSim.Contract.PageTableShape — the shape of a page table depends on its
mappings only.

Whatever calls led to it, a table that maps the keys `K` has one node for
the root and one for each one-, two- and three-index prefix of `K`, and a
lookup goes down along the longest prefix that it shares with `K`.
-/
import VmSim.PageTable.Prefixes

namespace VmSim

open Lib

/-- **The trie's shape depends only on its mappings**: after any calls on
live tables, every live table has the nodes of its keys, and a lookup
visits as many levels as the address shares indices with a key, and one
more. Two histories that map the same keys agree in both. -/
theorem pageTable_shape {calls : List TableCall} {replies : List TableReply} {m : TableMaps}
    (hrun : run TableMaps.step TableMaps.empty calls = some (replies, m)) :
    ∃ h, run Heap.tableStep (Heap.empty fun _ => true) calls = some (replies, h) ∧
      ∀ t frames, m.map t = some frames →
        pageTableNodeCount t h = .ok (nodesOf (mappedKeys frames)) h ∧
        (∀ a, ∃ entry, pageTableLookupWithLevels t a h =
          .ok (entry, 1 + min 3 (sharedPrefix (mappedKeys frames) (addressPageNumber a))) h) ∧
        ∀ calls' replies' m' h' t' frames',
          run TableMaps.step TableMaps.empty calls' = some (replies', m') →
          run Heap.tableStep (Heap.empty fun _ => true) calls' = some (replies', h') →
          m'.map t' = some frames' → mappedKeys frames' = mappedKeys frames →
          (∃ count, pageTableNodeCount t h = .ok count h ∧ pageTableNodeCount t' h' = .ok count h') ∧
            ∀ a, ∃ entry entry' visited,
              pageTableLookupWithLevels t a h = .ok (entry, visited) h ∧
              pageTableLookupWithLevels t' a h' = .ok (entry', visited) h' := by
  have hshape : ∀ {m : TableMaps} {h : Heap}, m.Held h → h.Full → ∀ {t frames},
      m.map t = some frames → pageTableNodeCount t h = .ok (nodesOf (mappedKeys frames)) h ∧
        ∀ a, ∃ entry, pageTableLookupWithLevels t a h =
          .ok (entry, 1 + min 3 (sharedPrefix (mappedKeys frames) (addressPageNumber a))) h := by
    intro m h hm hfull t frames ht
    obtain ⟨r, hr⟩ := hm.table ht
    have hK : ∀ key, key ∈ mappedKeys frames ↔ key < 2 ^ 36 ∧ h.frameOf t key ≠ none := by
      intro key
      refine and_congr_right fun hkey => ?_
      rw [hm.frames t frames ht, pageKey_of_lt hkey]
    exact ⟨hfull.nodeCount hm.wf hr hK, hfull.lookupLevels hm.wf hr hK⟩
  obtain ⟨h, hrunHeap, hm, hfull⟩ := tableRun_full hrun
  refine ⟨h, hrunHeap, fun t frames ht => ?_⟩
  obtain ⟨hcount, hlevels⟩ := hshape hm hfull ht
  refine ⟨hcount, hlevels, fun calls' replies' m' h' t' frames' hrun' hheap' ht' hsame => ?_⟩
  obtain ⟨h'', hheap'', hm', hfull'⟩ := tableRun_full hrun'
  rw [hheap'] at hheap''
  cases hheap''
  obtain ⟨hcount', hlevels'⟩ := hshape hm' hfull' ht'
  rw [hsame] at hcount' hlevels'
  refine ⟨⟨_, hcount, hcount'⟩, fun a => ?_⟩
  obtain ⟨entry, hlookup⟩ := hlevels a
  obtain ⟨entry', hlookup'⟩ := hlevels' a
  exact ⟨entry, entry', _, hlookup, hlookup'⟩

/-- A clone loses one of two pages again, which takes the nodes of its
path away; the source keeps both. -/
theorem pageTable_shape_clone :
    ∃ h replies m frames frames',
      run TableMaps.step TableMaps.empty [.create, .map 0 0x1000 7, .map 0 0x40000000 8,
        .cloneShared 0, .unmap 1 0x40000000] = some (replies, m) ∧
      m.map 0 = some frames ∧ m.map 1 = some frames' ∧
      pageTableNodeCount 0 h = .ok (nodesOf (mappedKeys frames)) h ∧
      pageTableNodeCount 1 h = .ok (nodesOf (mappedKeys frames')) h ∧
      frames 0x40000 = some 8 ∧ frames' 0x40000 = none := by
  have hrun : run TableMaps.step TableMaps.empty [.create, .map 0 0x1000 7, .map 0 0x40000000 8,
      .cloneShared 0, .unmap 1 0x40000000] = some (_, _) := rfl
  obtain ⟨h, _, hshape⟩ := pageTable_shape hrun
  obtain ⟨hcount, _⟩ := hshape 0 _ rfl
  obtain ⟨hcount', _⟩ := hshape 1 _ rfl
  exact ⟨h, _, _, _, _, hrun, rfl, rfl, hcount, hcount', rfl, rfl⟩

end VmSim
