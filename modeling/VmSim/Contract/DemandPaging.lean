/-
VmSim.Contract.DemandPaging — the simulator is a demand paging memory.

The runs create processes and access pages, and every access succeeds. Of
such a run only the sequence of the accessed pages and the number of
frames matter to the pages in memory, to the page faults and to the
replacements; whether the pages are read or written, the TLB and the
swap do not.
-/
import VmSim.Contract.Metrics
import VmSim.VirtualMemory.ReferenceString

namespace VmSim

open Lib

variable {w w' : World} {n tlbEntries tlbEntries' k : Nat} {type : ReplacementPolicyType}
  {slots slots' : Option Nat} {history history' : List (Call × Reply)}

theorem World.ForkFree.mem_resident (h : w.ForkFree slots k) {a : Nat} (ha : a < 2 ^ 48) (p : Nat) :
    (p, addressPageNumber a) ∈ w.pager.pageFrames.resident ↔ w.translate p a ≠ none := by
  have hc := h.coherent.wf.consistent
  have hu := h.solitary.unforked
  rw [(hc.pageFrames_wf hu).mem_resident, h.coherent.wf.translate_eq, Option.ne_none_iff_exists']
  exact exists_congr fun f =>
    hc.content_of_mapped hu h.coherent.resident (addressPageNumber_lt_key ha)

theorem World.ForkFree.card_resident (h : w.ForkFree slots k) :
    w.pager.pageFrames.resident.card = w.memory.physicalMemory.occupiedFrames.card := by
  have hc := h.coherent.wf.consistent
  have hframes : w.memory.physicalMemory.occupiedFrames =
      ((List.range w.pager.physical.frameCount).filter
        fun f => (w.pager.pageFrames.content f).isSome).toFinset := by
    ext f
    simp only [PhysicalMemory.occupiedFrames, Finset.mem_filter, Finset.mem_range, List.mem_toFinset,
      List.mem_filter, List.mem_range]
    exact and_congr_right fun hf => by rw [hc.content_isSome hf]; rfl
  rw [(hc.pageFrames_wf h.solitary.unforked).card_resident, hframes,
    List.toFinset_card_of_nodup (List.nodup_range.filter _), List.countP_eq_length_filter]
  rfl

/-- The pages in memory of such a run, its faults and its replacements. -/
theorem World.Reachable.paged (h : World.Reachable n type tlbEntries slots history w)
    (hn : n < 2 ^ 32) (hrefers : ∀ event ∈ history, event.1.refers = true)
    (hok : ∀ event ∈ history, event.2.succeeded = true)
    (hsteps : (accessed history).length < 2 ^ 64) :
    Paged n (accessed history) w.pager.pageFrames.resident w.memory.stats.pageFaults ∧
      w.memory.stats.pageFaults =
        w.memory.stats.replacements + w.pager.pageFrames.resident.card := by
  obtain ⟨policy, hcreate, hframes, _⟩ := h.pageFrames hn hrefers hok hsteps
  have hpaged := PageFrames.served_paged hn hcreate hsteps
  rw [← hframes] at hpaged
  exact hpaged

/-- **Demand paging**, whatever the policy: frames are taken by the pages
that were accessed and by no others, and all of them as soon as there are
enough such pages; every page faulted at least once, and every fault that
found no free frame replaced a page. As long as the pages fit into the
frames, all of them stay. -/
theorem virtualMemory_demandPaging (hn : n < 2 ^ 32)
    (h : World.Reachable n type tlbEntries slots history w)
    (hrefers : ∀ event ∈ history, event.1.refers = true)
    (hok : ∀ event ∈ history, event.2.succeeded = true)
    (hsteps : (accessed history).length < 2 ^ 64) :
    (∀ p a, a < 2 ^ 48 → w.translate p a ≠ none → (p, addressPageNumber a) ∈ accessed history) ∧
    w.memory.physicalMemory.occupiedFrames.card = min n (accessed history).toFinset.card ∧
    w.memory.stats.pageFaults =
      w.memory.stats.replacements + w.memory.physicalMemory.occupiedFrames.card ∧
    (accessed history).toFinset.card ≤ w.memory.stats.pageFaults ∧
    ((accessed history).toFinset.card ≤ n →
      w.memory.stats.pageFaults = (accessed history).toFinset.card ∧
      w.memory.stats.replacements = 0 ∧
      ∀ p a, a < 2 ^ 48 → (p, addressPageNumber a) ∈ accessed history → w.translate p a ≠ none) := by
  obtain ⟨hpaged, hfaults⟩ := h.paged hn hrefers hok hsteps
  obtain ⟨_, _, _, hfree⟩ := h.pageFrames hn hrefers hok hsteps
  have hcard := hfree.card_resident
  have hmin := hpaged.card_eq
  refine ⟨fun p a ha hm => ?_, hcard ▸ hmin, hcard ▸ hfaults, hpaged.distinct_le, fun hroom => ?_⟩
  · exact List.mem_toFinset.mp (hpaged.subset ((hfree.mem_resident ha p).mpr hm))
  · obtain ⟨hall, hexact⟩ := hpaged.roomy hroom
    refine ⟨hexact, ?_, fun p a ha hin => ?_⟩
    · rw [Nat.min_eq_right hroom] at hmin
      omega
    · rw [← hfree.mem_resident ha, hall]
      exact List.mem_toFinset.mpr hin

/-- Four pages in three frames; one of the replacements was of a written
page. -/
theorem virtualMemory_demandPaging_four : ∃ history w,
    World.Reachable 3 .aging 2 (some 1) history w ∧ (accessed history).toFinset.card = 4 ∧
      (∀ p a, a < 2 ^ 48 → w.translate p a ≠ none → (p, addressPageNumber a) ∈ accessed history) ∧
      w.memory.physicalMemory.occupiedFrames.card = min 3 4 ∧
      w.memory.stats.pageFaults =
        w.memory.stats.replacements + w.memory.physicalMemory.occupiedFrames.card ∧
      4 ≤ w.memory.stats.pageFaults := by
  have hafter : (World.after 3 .aging 2 (some 1) [.createProcess 1, .createProcess 2,
      .writeByte 0 0x1000 5, .readByte 1 0x1000, .access 0 0x2000 .read, .access 1 0x3000 .read,
      .readByte 0 0x1000]).any (fun r => decide (
        (∀ event ∈ r.1, event.1.refers = true) ∧ (∀ event ∈ r.1, event.2.succeeded = true) ∧
        (accessed r.1).length = 5 ∧ (accessed r.1).toFinset.card = 4)) = true := by decide +kernel
  obtain ⟨⟨history, w⟩, hafter, hcheck⟩ := (Option.any_eq_true _ _).mp hafter
  obtain ⟨hrefers, hok, hlength, hcard⟩ := of_decide_eq_true hcheck
  have hreach := World.reachable_of_after hafter
  have hfive : (accessed history).length = 5 := hlength
  have hfour : (accessed history).toFinset.card = 4 := hcard
  obtain ⟨haccessed, hframes, hfaults, hdistinct, _⟩ :=
    virtualMemory_demandPaging (by decide) hreach hrefers hok (by rw [hfive]; decide)
  rw [hfour] at hframes hdistinct
  exact ⟨history, w, hreach, hfour, haccessed, hframes, hfaults, hdistinct⟩

/-- **The reference string decides.** Two runs that access the same pages in
the same order, under one policy and with as many frames, map every
address below `2 ^ 48` to the same frame and count the same page faults
and replacements; what they read and write, the TLB and the swap make no
difference. -/
theorem virtualMemory_referenceString (hn : n < 2 ^ 32)
    (h : World.Reachable n type tlbEntries slots history w)
    (h' : World.Reachable n type tlbEntries' slots' history' w')
    (hrefers : ∀ event ∈ history, event.1.refers = true)
    (hrefers' : ∀ event ∈ history', event.1.refers = true)
    (hok : ∀ event ∈ history, event.2.succeeded = true)
    (hok' : ∀ event ∈ history', event.2.succeeded = true)
    (hsteps : (accessed history).length < 2 ^ 64) (hsame : accessed history' = accessed history) :
    (∀ p a, a < 2 ^ 48 → w'.translate p a = w.translate p a) ∧
      w'.memory.stats.pageFaults = w.memory.stats.pageFaults ∧
      w'.memory.stats.replacements = w.memory.stats.replacements ∧
      w'.memory.replacementPolicy = w.memory.replacementPolicy := by
  obtain ⟨policy, hcreate, hframes, hfree⟩ := h.pageFrames hn hrefers hok hsteps
  obtain ⟨policy', hcreate', hframes', hfree'⟩ :=
    h'.pageFrames hn hrefers' hok' (by rw [hsame]; exact hsteps)
  rw [hcreate] at hcreate'
  cases hcreate'
  have heq : w'.pager.pageFrames = w.pager.pageFrames := by rw [hframes, hframes', hsame]
  refine ⟨fun p a ha => ?_, congrArg PageFrames.faults heq,
    congrArg PageFrames.replacements heq, congrArg PageFrames.policy heq⟩
  have hpage := addressPageNumber_lt_key ha
  rw [hfree'.coherent.wf.translate_eq, hfree.coherent.wf.translate_eq]
  refine Option.ext fun f => ?_
  rw [← hfree'.coherent.wf.consistent.content_of_mapped hfree'.solitary.unforked
      hfree'.coherent.resident hpage,
    ← hfree.coherent.wf.consistent.content_of_mapped hfree.solitary.unforked
      hfree.coherent.resident hpage, heq]

/-- The same pages, read and written, with a swap that is used and without
one. -/
theorem virtualMemory_referenceString_five : ∃ history w history' w',
    World.Reachable 2 .clock 3 (some 2) history w ∧ World.Reachable 2 .clock 1 none history' w' ∧
      0 < w.memory.stats.swapReads ∧
      (∀ p a, a < 2 ^ 48 → w'.translate p a = w.translate p a) ∧
      w'.memory.stats.pageFaults = w.memory.stats.pageFaults ∧
      w'.memory.stats.replacements = w.memory.stats.replacements ∧
      w'.memory.replacementPolicy = w.memory.replacementPolicy := by
  have hafter : (World.after 2 .clock 3 (some 2) [.createProcess 1, .writeByte 0 0x1000 5,
      .writeByte 0 0x2000 6, .readByte 0 0x3000, .access 0 0x1000 .read, .readByte 0 0x2004]).any
      (fun r => (World.after 2 .clock 1 none [.createProcess 9, .access 0 0x1008 .read,
        .readByte 0 0x2000, .writeByte 0 0x3000 1, .readByte 0 0x1fff,
        .access 0 0x2000 .write]).any fun r' => decide (
          (∀ event ∈ r.1, event.1.refers = true) ∧ (∀ event ∈ r'.1, event.1.refers = true) ∧
          (∀ event ∈ r.1, event.2.succeeded = true) ∧ (∀ event ∈ r'.1, event.2.succeeded = true) ∧
          (accessed r.1).length = 5 ∧ accessed r'.1 = accessed r.1 ∧
          0 < r.2.memory.stats.swapReads)) = true := by decide +kernel
  obtain ⟨⟨history, w⟩, hafter, hrest⟩ := (Option.any_eq_true _ _).mp hafter
  obtain ⟨⟨history', w'⟩, hafter', hcheck⟩ := (Option.any_eq_true _ _).mp hrest
  obtain ⟨hrefers, hrefers', hok, hok', hlength, hsame, hreads⟩ := of_decide_eq_true hcheck
  have hreach := World.reachable_of_after hafter
  have hreach' := World.reachable_of_after hafter'
  have hfive : (accessed history).length = 5 := hlength
  exact ⟨history, w, history', w', hreach, hreach', hreads, virtualMemory_referenceString
    (by decide) hreach hreach' hrefers hrefers' hok hok' (by rw [hfive]; decide) hsame⟩

end VmSim
