/-
VmSim.Contract.Policies — what three of the policies keep in memory, and
what their page faults are worth.

The runs create processes and access pages, and every access succeeds.
FIFO and Clock keep the pages that the memories of `VmSim.Lib.Conservative`
and `VmSim.Lib.SecondChance` keep, as LRU keeps those used most recently.
None of the three can do much worse than any other way to choose victims,
with as many frames or with fewer; a trace that runs through more pages
than there are frames again and again is the worst case.
-/
import VmSim.Contract.DemandPaging
import VmSim.Contract.LruStack
import VmSim.Lib.Scattered
import VmSim.VirtualMemory.FifoPages
import VmSim.VirtualMemory.ClockPages

namespace VmSim

open Lib

variable {w w' : World} {n m tlbEntries tlbEntries' : Nat} {type type' : ReplacementPolicyType}
  {slots slots' : Option Nat} {history history' : List (Call × Reply)}

/-! ## The pages in memory -/

/-- The machine of page frames decides for the virtual memory. -/
theorem World.Reachable.keeps (h : World.Reachable n type tlbEntries slots history w)
    (hn : n < 2 ^ 32) (hrefers : ∀ event ∈ history, event.1.refers = true)
    (hok : ∀ event ∈ history, event.2.succeeded = true)
    (hsteps : (accessed history).length < 2 ^ 64)
    {resident : List (Nat × Nat) → Finset (Nat × Nat)}
    (hkeeps : ∀ policy, replacementPolicyCreate type n = some policy →
      ∀ keys : List (Nat × Nat), keys.length < wordSize →
        ((PageFrames.fresh policy).serve keys).resident = resident keys) :
    (∀ p a, a < 2 ^ 48 →
      (w.translate p a ≠ none ↔ (p, addressPageNumber a) ∈ resident (accessed history))) ∧
    w.memory.stats.pageFaults = faultsOf resident (accessed history) := by
  obtain ⟨policy, hcreate, hframes, hfree⟩ := h.pageFrames hn hrefers hok hsteps
  refine ⟨fun p a ha => ?_, ?_⟩
  · rw [← hfree.mem_resident ha, hframes, hkeeps policy hcreate _ hsteps]
  · have hfaults := PageFrames.served_faults hn hcreate (hkeeps policy hcreate) hsteps
    rw [← hframes] at hfaults
    exact hfaults

/-- **FIFO keeps the pages loaded last.** The list `fifo` takes a page that
is not in it to its front, and then loses its last page if it has grown
longer than there are frames; it says which pages are in memory after
every run, and which requests were faults. -/
theorem virtualMemory_fifo (hn : n < 2 ^ 32)
    (h : World.Reachable n .fifo tlbEntries slots history w)
    (hrefers : ∀ event ∈ history, event.1.refers = true)
    (hok : ∀ event ∈ history, event.2.succeeded = true)
    (hsteps : (accessed history).length < 2 ^ 64) :
    (∀ p a, a < 2 ^ 48 →
      (w.translate p a ≠ none ↔ (p, addressPageNumber a) ∈ fifo n (accessed history))) ∧
    w.memory.stats.pageFaults = faultsOf (fifoPages n) (accessed history) := by
  obtain ⟨hpages, hfaults⟩ := h.keeps hn hrefers hok hsteps fun policy hcreate keys hlt =>
    PageFrames.fifo_resident hn hcreate hlt
  refine ⟨fun p a ha => ?_, hfaults⟩
  rw [hpages p a ha, mem_fifoPages]

/-- Three frames, and a page that is used again before it goes. -/
theorem virtualMemory_fifo_three : ∃ history w, World.Reachable 3 .fifo 1 (some 2) history w ∧
    fifo 3 (accessed history) = [(0, 4), (0, 3), (0, 2)] ∧
    (∀ p a, a < 2 ^ 48 →
      (w.translate p a ≠ none ↔ (p, addressPageNumber a) ∈ fifo 3 (accessed history))) ∧
    w.memory.stats.pageFaults = faultsOf (fifoPages 3) (accessed history) := by
  have hafter : (World.after 3 .fifo 1 (some 2) [.createProcess 1, .writeByte 0 0x1000 5,
      .readByte 0 0x2000, .access 0 0x3000 .write, .readByte 0 0x1000, .readByte 0 0x4000]).any
      (fun r => decide ((∀ event ∈ r.1, event.1.refers = true) ∧
        (∀ event ∈ r.1, event.2.succeeded = true) ∧ (accessed r.1).length = 5 ∧
        fifo 3 (accessed r.1) = [(0, 4), (0, 3), (0, 2)])) = true := by decide +kernel
  obtain ⟨⟨history, w⟩, hafter, hcheck⟩ := (Option.any_eq_true _ _).mp hafter
  obtain ⟨hrefers, hok, hlength, hpages⟩ := of_decide_eq_true hcheck
  have hreach := World.reachable_of_after hafter
  have hfive : (accessed history).length = 5 := hlength
  exact ⟨history, w, hreach, hpages,
    virtualMemory_fifo (by decide) hreach hrefers hok (by rw [hfive]; decide)⟩

/-- **Clock keeps the pages that used their second chance.** The pages of
the circle `clock` are the pages in memory after every run; the first one
from the hand on without its bit goes next. -/
theorem virtualMemory_clock (hn : n < 2 ^ 32)
    (h : World.Reachable n .clock tlbEntries slots history w)
    (hrefers : ∀ event ∈ history, event.1.refers = true)
    (hok : ∀ event ∈ history, event.2.succeeded = true)
    (hsteps : (accessed history).length < 2 ^ 64) :
    (∀ p a, a < 2 ^ 48 → (w.translate p a ≠ none ↔
      (p, addressPageNumber a) ∈ (clock n (accessed history)).map Prod.fst)) ∧
    w.memory.stats.pageFaults = faultsOf (clockPages n) (accessed history) := by
  obtain ⟨hpages, hfaults⟩ := h.keeps hn hrefers hok hsteps fun policy hcreate keys hlt =>
    PageFrames.clock_resident hn hcreate hlt
  refine ⟨fun p a ha => ?_, hfaults⟩
  rw [hpages p a ha, mem_clockPages]

/-- Page 2 uses its second chance, and page 3 has none. -/
theorem virtualMemory_clock_three : ∃ history w, World.Reachable 3 .clock 1 (some 3) history w ∧
    clock 3 (accessed history) = [((0, 4), true), ((0, 2), false), ((0, 5), true)] ∧
    (∀ p a, a < 2 ^ 48 → (w.translate p a ≠ none ↔
      (p, addressPageNumber a) ∈ (clock 3 (accessed history)).map Prod.fst)) ∧
    w.memory.stats.pageFaults = faultsOf (clockPages 3) (accessed history) := by
  have hafter : (World.after 3 .clock 1 (some 3) [.createProcess 1, .writeByte 0 0x1000 5,
      .readByte 0 0x2000, .access 0 0x3000 .write, .readByte 0 0x4000, .readByte 0 0x2004,
      .readByte 0 0x5000]).any
      (fun r => decide ((∀ event ∈ r.1, event.1.refers = true) ∧
        (∀ event ∈ r.1, event.2.succeeded = true) ∧ (accessed r.1).length = 6 ∧
        clock 3 (accessed r.1) = [((0, 4), true), ((0, 2), false), ((0, 5), true)])) = true := by
    decide +kernel
  obtain ⟨⟨history, w⟩, hafter, hcheck⟩ := (Option.any_eq_true _ _).mp hafter
  obtain ⟨hrefers, hok, hlength, hpages⟩ := of_decide_eq_true hcheck
  have hreach := World.reachable_of_after hafter
  have hsix : (accessed history).length = 6 := hlength
  exact ⟨history, w, hreach, hpages,
    virtualMemory_clock (by decide) hreach hrefers hok (by rw [hsix]; decide)⟩

/-! ## Page faults -/

theorem World.Reachable.frameCount_pos (h : World.Reachable n type tlbEntries slots history w) :
    0 < n := by
  obtain ⟨memory, hcreate, _⟩ := h
  obtain ⟨_, hpolicy, _⟩ := virtualMemoryCreateInternal_some hcreate
  refine Nat.pos_of_ne_zero fun hzero => ?_
  simp [replacementPolicyCreate, hzero] at hpolicy

/-- Under all policies but Aging the memory keeps what it loaded in a phase. -/
theorem World.Reachable.conservative (hn : n < 2 ^ 32) (htype : type ≠ .aging)
    (h : World.Reachable n type tlbEntries slots history w)
    (hrefers : ∀ event ∈ history, event.1.refers = true)
    (hok : ∀ event ∈ history, event.2.succeeded = true)
    (hsteps : (accessed history).length < 2 ^ 64) :
    ∃ resident : List (Nat × Nat) → Finset (Nat × Nat), Conservative n resident ∧
      (∀ keys, Scattered n keys → resident keys = (keys.take n).toFinset) ∧
      (∀ p a, a < 2 ^ 48 →
        (w.translate p a ≠ none ↔ (p, addressPageNumber a) ∈ resident (accessed history))) ∧
      w.memory.stats.pageFaults = faultsOf resident (accessed history) := by
  have hpos := h.frameCount_pos
  cases type with
  | fifo =>
    have hkept := h.keeps hn hrefers hok hsteps fun policy hcreate keys hlt =>
      PageFrames.fifo_resident hn hcreate hlt
    refine ⟨fifoPages n, fifoPages_conservative hpos, fun keys hkeys => ?_, hkept⟩
    rw [fifoPages, hkeys.fifo hpos]
  | lru =>
    have hrecent := h.recent hn hrefers hok hsteps
    refine ⟨recentPages n, recentPages_conservative hpos, fun keys hkeys => ?_, fun p a ha => ?_,
      hrecent.faults.trans (misses_eq_faultsOf n _)⟩
    · rw [recentPages, hkeys.recency]
    · rw [hrecent.translate ha, recentPages, List.mem_toFinset]
  | clock =>
    have hkept := h.keeps hn hrefers hok hsteps fun policy hcreate keys hlt =>
      PageFrames.clock_resident hn hcreate hlt
    refine ⟨clockPages n, clockPages_conservative hpos, fun keys hkeys => ?_, hkept⟩
    rw [clockPages, (hkeys.clock hpos).1, List.toFinset_reverse]
  | aging => exact absurd rfl htype

/-- **No policy does much better.** Under FIFO, LRU or Clock, `n` frames have
at most `n / (n + 1 - m)` times the page faults that `m ≤ n` frames have on
the same accesses, up to a constant, however the victims are chosen there:
by one of the four policies, or by looking into the future. -/
theorem virtualMemory_competitive (hn : n < 2 ^ 32) (htype : type ≠ .aging)
    (h : World.Reachable n type tlbEntries slots history w)
    (hrefers : ∀ event ∈ history, event.1.refers = true)
    (hok : ∀ event ∈ history, event.2.succeeded = true)
    (hsteps : (accessed history).length < 2 ^ 64) :
    (∀ m resident faults, m ≤ n → Paged m (accessed history) resident faults →
      (n + 1 - m) * w.memory.stats.pageFaults ≤ n * faults + n * (n - m)) ∧
    ∀ m type' tlbEntries' slots' history' w', m ≤ n →
      World.Reachable m type' tlbEntries' slots' history' w' →
      (∀ event ∈ history', event.1.refers = true) →
      (∀ event ∈ history', event.2.succeeded = true) → accessed history' = accessed history →
      (n + 1 - m) * w.memory.stats.pageFaults ≤ n * w'.memory.stats.pageFaults + n * (n - m) := by
  obtain ⟨resident, hconservative, _, _, hfaults⟩ := h.conservative hn htype hrefers hok hsteps
  have hpos := h.frameCount_pos
  have hbound : ∀ m resident faults, m ≤ n → Paged m (accessed history) resident faults →
      (n + 1 - m) * w.memory.stats.pageFaults ≤ n * faults + n * (n - m) := by
    intro m resident faults hm hpaged
    rw [hfaults]
    exact hconservative.competitive hpos hm hpaged
  refine ⟨hbound, ?_⟩
  intro m type' tlbEntries' slots' history' w' hm h' hrefers' hok' hsame
  obtain ⟨hpaged, _⟩ := h'.paged (Nat.lt_of_le_of_lt hm hn) hrefers' hok' (by rw [hsame]; exact hsteps)
  rw [hsame] at hpaged
  exact hbound m _ _ hm hpaged

/-- Clock with three frames, and LRU with two. -/
theorem virtualMemory_competitive_two : ∃ history w history' w',
    World.Reachable 3 .clock 1 (some 3) history w ∧ World.Reachable 2 .lru 2 none history' w' ∧
      accessed history' = accessed history ∧
      2 * w.memory.stats.pageFaults ≤ 3 * w'.memory.stats.pageFaults + 3 := by
  have hafter : (World.after 3 .clock 1 (some 3) [.createProcess 1, .writeByte 0 0x1000 5,
      .readByte 0 0x2000, .access 0 0x3000 .write, .readByte 0 0x4000]).any
      (fun r => (World.after 2 .lru 2 none [.createProcess 1, .readByte 0 0x1000,
        .readByte 0 0x2000, .access 0 0x3000 .read, .readByte 0 0x4000]).any fun r' => decide (
          (∀ event ∈ r.1, event.1.refers = true) ∧ (∀ event ∈ r'.1, event.1.refers = true) ∧
          (∀ event ∈ r.1, event.2.succeeded = true) ∧ (∀ event ∈ r'.1, event.2.succeeded = true) ∧
          (accessed r.1).length = 4 ∧ accessed r'.1 = accessed r.1)) = true := by decide +kernel
  obtain ⟨⟨history, w⟩, hafter, hrest⟩ := (Option.any_eq_true _ _).mp hafter
  obtain ⟨⟨history', w'⟩, hafter', hcheck⟩ := (Option.any_eq_true _ _).mp hrest
  obtain ⟨hrefers, hrefers', hok, hok', hlength, hsame⟩ := of_decide_eq_true hcheck
  have hreach := World.reachable_of_after hafter
  have hreach' := World.reachable_of_after hafter'
  have hfour : (accessed history).length = 4 := hlength
  obtain ⟨_, hbound⟩ := virtualMemory_competitive (by decide) (by decide) hreach hrefers hok
    (by rw [hfour]; decide)
  exact ⟨history, w, history', w', hreach, hreach', hsame,
    hbound 2 .lru 2 none history' w' (by decide) hreach' hrefers' hok' hsame⟩

/-- **Thrashing.** A run in which every page comes back after `n` others or
more has a page fault at every access under FIFO, LRU and Clock, and the
`n` pages accessed last are in memory. -/
theorem virtualMemory_thrashes (hn : n < 2 ^ 32) (htype : type ≠ .aging)
    (h : World.Reachable n type tlbEntries slots history w)
    (hrefers : ∀ event ∈ history, event.1.refers = true)
    (hok : ∀ event ∈ history, event.2.succeeded = true)
    (hsteps : (accessed history).length < 2 ^ 64) (hscattered : Scattered n (accessed history)) :
    w.memory.stats.pageFaults = (accessed history).length ∧
      ∀ p a, a < 2 ^ 48 →
        (w.translate p a ≠ none ↔ (p, addressPageNumber a) ∈ (accessed history).take n) := by
  obtain ⟨resident, _, hwindow, hpages, hfaults⟩ := h.conservative hn htype hrefers hok hsteps
  refine ⟨hfaults.trans (hscattered.faultsOf hwindow), fun p a ha => ?_⟩
  rw [hpages p a ha, hwindow _ hscattered, List.mem_toFinset]

/-- Three pages in turn, and two frames. -/
theorem virtualMemory_thrashes_three : ∃ history w,
    World.Reachable 2 .fifo 4 (some 2) history w ∧
      accessed history = [(0, 2), (0, 1), (0, 3), (0, 2), (0, 1)] ∧
      w.memory.stats.pageFaults = (accessed history).length ∧
      ∀ p a, a < 2 ^ 48 →
        (w.translate p a ≠ none ↔ (p, addressPageNumber a) ∈ (accessed history).take 2) := by
  have hafter : (World.after 2 .fifo 4 (some 2) [.createProcess 1, .writeByte 0 0x1000 5,
      .readByte 0 0x2000, .access 0 0x3000 .write, .readByte 0 0x1000, .readByte 0 0x2000]).any
      (fun r => decide ((∀ event ∈ r.1, event.1.refers = true) ∧
        (∀ event ∈ r.1, event.2.succeeded = true) ∧
        accessed r.1 = [(0, 2), (0, 1), (0, 3), (0, 2), (0, 1)])) = true := by decide +kernel
  obtain ⟨⟨history, w⟩, hafter, hcheck⟩ := (Option.any_eq_true _ _).mp hafter
  obtain ⟨hrefers, hok, hpages⟩ := of_decide_eq_true hcheck
  have hreach := World.reachable_of_after hafter
  have haccessed : accessed history = [(0, 2), (0, 1), (0, 3), (0, 2), (0, 1)] := hpages
  exact ⟨history, w, hreach, haccessed, virtualMemory_thrashes (by decide) (by decide) hreach
    hrefers hok (by rw [haccessed]; decide) (by rw [haccessed]; simp [Scattered])⟩

end VmSim
