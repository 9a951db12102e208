/-
VmSim.Contract.LruStack — the LRU policy has the stack property.

The runs create processes and access pages, and every access succeeds.
The sequence of pages that such a run accessed and the number of frames
say which pages are resident, and how many page faults there were; so a
memory with one frame more never does worse.
-/
import VmSim.VirtualMemory.Recency

namespace VmSim

open Lib

variable {w w' : World} {n tlbEntries tlbEntries' : Nat} {slots slots' : Option Nat}
  {history history' : List (Call × Reply)}

theorem World.Reachable.recent (h : World.Reachable n .lru tlbEntries slots history w)
    (hn : n < 2 ^ 32) (hrefers : ∀ event ∈ history, event.1.refers = true)
    (hok : ∀ event ∈ history, event.2.succeeded = true)
    (hsteps : (accessed history).length < 2 ^ 64) : w.Recent n slots (accessed history) := by
  obtain ⟨memory, hcreate, hrun⟩ := h
  refine Run.invariant (fun history w => (∀ event ∈ history, event.1.refers = true) →
    (∀ event ∈ history, event.2.succeeded = true) → (accessed history).length < 2 ^ 64 →
      w.Recent n slots (accessed history)) ?_
    (fun history w call reply w' ih ha hs hrefers hok hsteps => ?_) hrun hrefers hok hsteps
  · exact fun _ _ _ => World.boot_recent hcreate hn
  · obtain ⟨hcall, hrest⟩ := List.forall_mem_cons.mp hrefers
    obtain ⟨hreply, hrest'⟩ := List.forall_mem_cons.mp hok
    have hcons : accessed ((call, reply) :: history) = call.target.toList ++ accessed history := by
      rw [accessed, List.filterMap_cons]
      cases call.target <;> rfl
    have hlength : (accessed ((call, reply) :: history)).length =
        (accessed history).length + call.accesses := by
      rw [hcons, List.length_append, Call.accesses]
      cases call.target <;> simp [Nat.add_comm]
    rw [hlength] at hsteps
    rw [hcons]
    exact (ih hrest hrest' (by omega)).step hsteps ha hcall hs hreply

theorem World.Recent.translate {keys : List (Nat × Nat)} (h : w.Recent n slots keys) {a : Nat}
    (ha : a < 2 ^ 48) (p : Nat) :
    w.translate p a ≠ none ↔ (p, addressPageNumber a) ∈ (recency keys).take n := by
  rw [h.forkFree.coherent.wf.translate_eq, h.resident (addressPageNumber_lt_key ha)]

/-- **The stack property**: the resident pages are the pages accessed most
recently, at most one for each frame. So for the same calls, whatever the
TLB and the swap, a memory with one frame more has these pages resident
too and counts no more page faults. -/
theorem virtualMemory_lruStack (hn : n + 1 < 2 ^ 32)
    (h : World.Reachable n .lru tlbEntries slots history w)
    (hrefers : ∀ event ∈ history, event.1.refers = true)
    (hok : ∀ event ∈ history, event.2.succeeded = true)
    (hsteps : (accessed history).length < 2 ^ 64) :
    (∀ p a, a < 2 ^ 48 →
      (w.translate p a ≠ none ↔ (p, addressPageNumber a) ∈ (recency (accessed history)).take n)) ∧
    ∀ tlbEntries' slots' history' w',
      World.Reachable (n + 1) .lru tlbEntries' slots' history' w' →
      history'.map Prod.fst = history.map Prod.fst →
      (∀ event ∈ history', event.2.succeeded = true) →
      (∀ p a, a < 2 ^ 48 → w.translate p a ≠ none → w'.translate p a ≠ none) ∧
        w'.memory.stats.pageFaults ≤ w.memory.stats.pageFaults := by
  have hrecent := h.recent (Nat.lt_trans (Nat.lt_succ_self n) hn) hrefers hok hsteps
  refine ⟨fun p a ha => hrecent.translate ha p, ?_⟩
  intro tlbEntries' slots' history' w' h' hcalls hok'
  have hrefers' : ∀ event ∈ history', event.1.refers = true := by
    intro event hevent
    have hmem : event.1 ∈ history'.map Prod.fst := List.mem_map_of_mem hevent
    rw [hcalls] at hmem
    obtain ⟨event', hevent', he⟩ := List.mem_map.mp hmem
    rw [← he]
    exact hrefers event' hevent'
  have haccessed : ∀ history : List (Call × Reply),
      accessed history = (history.map Prod.fst).filterMap Call.target := by
    intro history
    rw [accessed, List.filterMap_map]
    rfl
  have hsame : accessed history' = accessed history := by rw [haccessed, haccessed, hcalls]
  have hrecent' := h'.recent hn hrefers' hok' (by rw [hsame]; exact hsteps)
  rw [hsame] at hrecent'
  refine ⟨fun p a ha hm => ?_, ?_⟩
  · rw [hrecent.translate ha] at hm
    rw [hrecent'.translate ha]
    exact mem_take_mono (Nat.le_succ n) hm
  · have hfaults : w.memory.stats.pageFaults = misses n (accessed history) := hrecent.faults
    have hfaults' : w'.memory.stats.pageFaults = misses (n + 1) (accessed history) :=
      hrecent'.faults
    rw [hfaults, hfaults']
    exact misses_mono (Nat.le_succ n) _

/-- Five accesses to three pages, with two frames and with three. -/
theorem virtualMemory_lruStack_three : ∃ history w history' w',
    World.Reachable 2 .lru 1 (some 3) history w ∧ World.Reachable 3 .lru 1 none history' w' ∧
      (recency (accessed history)).take 2 = [(0, 2), (0, 3)] ∧
      (∀ p a, a < 2 ^ 48 →
        (w.translate p a ≠ none ↔ (p, addressPageNumber a) ∈ (recency (accessed history)).take 2)) ∧
      (∀ p a, a < 2 ^ 48 → w.translate p a ≠ none → w'.translate p a ≠ none) ∧
        w'.memory.stats.pageFaults ≤ w.memory.stats.pageFaults := by
  have hafter : (World.after 2 .lru 1 (some 3) [.createProcess 1, .writeByte 0 0x1000 5,
      .readByte 0 0x2000, .access 0 0x1000 .read, .access 0 0x3000 .write, .readByte 0 0x2000]).any
      (fun r => (World.after 3 .lru 1 none [.createProcess 1, .writeByte 0 0x1000 5,
        .readByte 0 0x2000, .access 0 0x1000 .read, .access 0 0x3000 .write,
        .readByte 0 0x2000]).any fun r' => decide (
          (∀ event ∈ r.1, event.1.refers = true) ∧ (∀ event ∈ r.1, event.2.succeeded = true) ∧
          (accessed r.1).length = 5 ∧ (recency (accessed r.1)).take 2 = [(0, 2), (0, 3)] ∧
          r'.1.map Prod.fst = r.1.map Prod.fst ∧
          ∀ event ∈ r'.1, event.2.succeeded = true)) = true := by decide +kernel
  obtain ⟨⟨history, w⟩, hafter, hrest⟩ := (Option.any_eq_true _ _).mp hafter
  obtain ⟨⟨history', w'⟩, hafter', hcheck⟩ := (Option.any_eq_true _ _).mp hrest
  obtain ⟨hrefers, hok, hlength, hkeys, hcalls, hok'⟩ := of_decide_eq_true hcheck
  have hreach := World.reachable_of_after hafter
  have hreach' := World.reachable_of_after hafter'
  have hfive : (accessed history).length = 5 := hlength
  obtain ⟨hresident, hlarger⟩ := virtualMemory_lruStack (by decide) hreach hrefers hok
    (by rw [hfive]; decide)
  exact ⟨history, w, history', w', hreach, hreach', hkeys, hresident,
    hlarger 1 none history' w' hreach' hcalls hok'⟩

end VmSim
