/-
VmSim.Contract.Components — the TLB is an LRU cache, and the swap is a
bounded map.

In both cases a run of calls on a fresh component and the same run on the
empty abstract structure give the same replies, and end in states that
represent each other.
-/
import VmSim.TlbOrder
import VmSim.SwapMap
import VmSim.Lib.Transition

namespace VmSim

open Lib

/-! ## The TLB -/

/-- **The TLB refines an LRU cache**: on every run of fewer than 2^64 - 1
calls it replies as the cache does, and it holds what the cache holds,
each key in one entry. -/
theorem tlb_refines_lruCache {capacity : Nat} {tlb : Tlb} (hcreate : tlbCreate capacity = some tlb)
    (calls : List TlbCall) (hcalls : ∀ call ∈ calls, call.Accepted)
    (hlen : calls.length < 2 ^ 64 - 1) :
    ∃ replies tlb' cache,
      run (fun tlb call => some (Tlb.step tlb call)) tlb calls = some (replies, tlb') ∧
      run (fun cache call => some (TlbCache.step cache call)) (.empty : TlbCache capacity) calls =
        some (replies, cache) ∧
      tlb'.Represents cache ∧ tlb'.size = cache.entries.length ∧
      (∀ pid page frame, tlb'.Holds pid page frame ↔ ((pid, page), frame) ∈ cache.entries) ∧
      tlb'.Wf := by
  obtain ⟨h, hpos⟩ := tlbCreate_represents hcreate
  obtain ⟨_, _, _, _, hfresh⟩ := tlbCreate_spec hcreate
  -- the clock keeps clear of its end by the number of calls to come
  have hstep : ∀ k (tlb : Tlb) (cache : TlbCache capacity) call, call.Accepted →
      (∃ m, tlb.Fresh m ∧ m + (k + 1) < wordSize) ∧ tlb.Represents cache →
      (tlb.step call).1 = (cache.step call).1 ∧ (∃ m, (tlb.step call).2.Fresh m ∧
        m + k < wordSize) ∧ (tlb.step call).2.Represents (cache.step call).2 := by
    rintro k tlb cache call hcall ⟨⟨m, hm, hlt⟩, h⟩
    have hticks : call.ticks ≤ 1 := by
      cases call <;> simp [TlbCall.ticks]
    have hclock := hm.clock
    obtain ⟨hr, hs⟩ := h.step hpos (by omega) hcall
    exact ⟨hr, ⟨m + call.ticks, hm.step call (by omega), by omega⟩, hs⟩
  obtain ⟨replies, tlb', cache, hrun, hrun', _, hrel⟩ := run_total
    (fun k (tlb : Tlb) (cache : TlbCache capacity) =>
      (∃ m, tlb.Fresh m ∧ m + k < wordSize) ∧ tlb.Represents cache)
    TlbCall.Accepted hstep calls tlb .empty hcalls
    ⟨⟨0, hfresh, by rw [wordSize]; omega⟩, h⟩
  exact ⟨replies, tlb', cache, hrun, hrun', hrel, hrel.size, hrel.holds, hrel.wf⟩

/-- A full TLB gives up the key that was used least recently, also after
a removal left a hole. -/
theorem tlb_refines_lruCache_full :
    ∃ tlb replies, tlbCreate 2 = some tlb ∧
      (run (fun tlb call => some (Tlb.step tlb call)) tlb
        [.insert 1 1 5, .insert 1 2 6, .lookup 1 1, .insert 2 3 7, .lookup 1 2, .invalidate 1 1,
          .insert 2 1 8, .lookup 2 3, .invalidateProcess 2]).map Prod.fst = some replies ∧
      replies = [.code 0, .code 0, .frame (some 5), .code 0, .frame none, .removed true, .code 0,
        .frame (some 7), .count 2] := by
  obtain ⟨replies, tlb', cache, hrun, hrun', _⟩ := tlb_refines_lruCache
    (show tlbCreate 2 = some _ from rfl)
    [.insert 1 1 5, .insert 1 2 6, .lookup 1 1, .insert 2 3 7, .lookup 1 2, .invalidate 1 1,
      .insert 2 1 8, .lookup 2 3, .invalidateProcess 2]
    (by simp [TlbCall.Accepted]) (by decide)
  refine ⟨_, replies, rfl, by rw [hrun]; rfl, ?_⟩
  have hreplies := congrArg (Option.map Prod.fst) hrun'
  exact (Option.some.inj hreplies).symm

/-! ## The swap -/

/-- **The swap refines a bounded map** from (pid, page) to pages: it
replies to every run of calls as the map does. Afterwards the used slots
are counted right and hold distinct keys, and every slot has its own page
of the file, at an offset that does not overflow. -/
theorem swap_refines_boundedMap {slotCount : Nat} {swap : Swap}
    (hcreate : swapCreate slotCount = some swap) (calls : List SwapCall)
    (hcalls : ∀ call ∈ calls, call.Accepted) :
    ∃ replies swap' m,
      run (fun swap call => some (Swap.step swap call)) swap calls = some (replies, swap') ∧
      run (fun m call => some (SwapMap.step m call)) (.empty : SwapMap slotCount) calls =
        some (replies, m) ∧
      (∀ pid page, swap'.content pid page = m.value (pid, page)) ∧
      swap'.usedSlotCount = m.keys.card ∧
      (∀ i < slotCount, ∀ j < slotCount, ∀ pid page, (swap'.slots i).holds pid page = true →
        (swap'.slots j).holds pid page = true → i = j) ∧
      ∀ i < slotCount, swapSlotOffset i = some (i * pageSize) ∧
        i * pageSize + pageSize ≤ swap'.file.length ∧
        swap'.file.length = slotCount * pageSize ∧ swap'.file.length ≤ longMax := by
  have hstep : ∀ (_ : Nat) (swap : Swap) (m : SwapMap slotCount) call, call.Accepted →
      swap.Represents m → (swap.step call).1 = (SwapMap.step m call).1 ∧
        (swap.step call).2.Represents (SwapMap.step m call).2 :=
    fun _ _ _ _ hcall h => h.step hcall
  obtain ⟨replies, swap', m, hrun, hrun', hrel⟩ := run_total
    (fun _ (swap : Swap) (m : SwapMap slotCount) => swap.Represents m) SwapCall.Accepted hstep
    calls swap .empty hcalls (swapCreate_represents hcreate)
  have hcount := hrel.slotCount
  have hlength := hrel.wf.length
  have hfits := hrel.wf.fits
  refine ⟨replies, swap', m, hrun, hrun', hrel.value, hrel.card, ?_, fun i hi => ?_⟩
  · have hunique := hrel.wf.unique
    rw [hcount] at hunique
    exact hunique
  · obtain ⟨hoffset, hin⟩ := hrel.wf.offset (hcount ▸ hi)
    rw [hcount] at hlength hfits
    exact ⟨hoffset, hin, hlength, hlength ▸ hfits⟩

/-- A full swap refuses a new key, takes a present one, and gives a slot
that was freed to another key. -/
theorem swap_refines_boundedMap_full :
    ∃ swap replies, swapCreate 2 = some swap ∧
      (run (fun swap call => some (Swap.step swap call)) swap
        [.write 1 1 zeroPage, .write 1 2 zeroPage, .write 2 1 zeroPage,
          .write 1 1 fun _ => 7, .remove 1 2, .write 2 1 fun _ => 9, .read 1 1, .contains 1 2,
          .removeProcess 2]).map Prod.fst = some replies ∧
      replies = [.code 0, .code 0, .code (-2), .code 0, .code 0, .code 0, .page (.ok fun _ => 7),
        .present false, .count 1] := by
  obtain ⟨replies, swap', m, hrun, hrun', _⟩ := swap_refines_boundedMap
    (show swapCreate 2 = some _ from rfl)
    [.write 1 1 zeroPage, .write 1 2 zeroPage, .write 2 1 zeroPage,
      .write 1 1 fun _ => 7, .remove 1 2, .write 2 1 fun _ => 9, .read 1 1, .contains 1 2,
      .removeProcess 2]
    (by simp [SwapCall.Accepted])
  refine ⟨_, replies, rfl, by rw [hrun]; rfl, ?_⟩
  have hreplies := congrArg (Option.map Prod.fst) hrun'
  exact (Option.some.inj hreplies).symm

end VmSim
