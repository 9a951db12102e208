/-
VmSim.Contract.PageTableMemory — the page tables of a running system.

The calls of a run have valid pointers; forks share tables, accesses split
them, evictions and releases take pages out of them.
-/
import VmSim.VirtualMemory.OwnedTables

namespace VmSim

open Lib Lib.Comp

variable {w : World} {p n tlbEntries : Nat} {x : Process} {type : ReplacementPolicyType}
  {slots : Option Nat} {history : List (Call × Reply)}

/-- **A system can be torn down at any time.** After every run the
processes can be destroyed, in any order, and then no page table, node or
entry is left: none was lost, and none is freed twice. -/
theorem virtualMemory_tornDown (h : World.Served n type tlbEntries slots history w)
    {processes : List Nat} (hnodup : processes.Nodup)
    (hall : ∀ p, p ∈ processes ↔ 0 ≤ w.heap.pid p) :
    ∃ heap, forEach processDestroy processes w.heap = .ok () heap ∧
      (∀ p, heap.processes p = none) ∧ (∀ t, heap.tables t = none) ∧
      ∀ q, heap.objects q = none := by
  have htame := h.guarded.tame
  obtain ⟨_, heap, hrun, htame', howned', hprocesses⟩ :=
    destroyAll_spec processes w.heap htame h.owned hnodup
      fun p hp => Heap.process_of_pid ((hall p).mp hp)
  have hnone : ∀ p, heap.processes p = none := by
    intro p
    rw [hprocesses p]
    split
    · rfl
    · rename_i hp
      cases hx : w.heap.processes p with
      | none => rfl
      | some x => exact absurd ((hall p).mpr (htame.pid_nonneg hx)) hp
  obtain ⟨htables, hobjects⟩ := howned'.empty htame'.wf hnone
  exact ⟨heap, hrun, hnone, htables, hobjects⟩

/-- Three processes, one of them released, with two tables of one root. -/
theorem virtualMemory_tornDown_three : ∃ history w, World.Served 2 .lru 2 (some 4) history w ∧
    ∃ heap, forEach processDestroy [2, 0, 1] w.heap = .ok () heap ∧
      (∀ p, heap.processes p = none) ∧ (∀ t, heap.tables t = none) ∧
      ∀ q, heap.objects q = none := by
  have hafter : ((virtualMemoryCreateInternal 2 .lru 2 (some 4)).bind fun memory =>
      runChecked World.step (fun w call => w.pager.Valid call) [] (World.boot memory)
        [.createProcess 1, .writeByte 0 0x1000 5, .fork 0 2, .fork 0 3, .writeByte 1 0x1000 6,
          .release 0]).any (fun r => decide (r.2.heap.nextProcess = 3 ∧ 0 ≤ r.2.heap.pid 0 ∧
            0 ≤ r.2.heap.pid 1 ∧ 0 ≤ r.2.heap.pid 2)) = true := by
    decide +kernel
  obtain ⟨⟨history, w⟩, hafter, hcheck⟩ := (Option.any_eq_true _ _).mp hafter
  obtain ⟨memory, hcreate, hchecked⟩ := Option.bind_eq_some_iff.mp hafter
  obtain ⟨hnext, hzero, hone, htwo⟩ := of_decide_eq_true hcheck
  have hserved : World.Served 2 .lru 2 (some 4) history w :=
    ⟨memory, hcreate, Run.of_runChecked _ .start hchecked⟩
  refine ⟨history, w, hserved, virtualMemory_tornDown hserved (by decide) fun p => ?_⟩
  constructor
  · intro hp
    simp only [List.mem_cons, List.not_mem_nil, or_false] at hp
    rcases hp with rfl | rfl | rfl
    · exact htwo
    · exact hzero
    · exact hone
  · intro hp
    have hlt : p < 3 := Nat.lt_of_lt_of_eq (hserved.guarded.tame.pid_lt hp) hnext
    simp only [List.mem_cons, List.not_mem_nil, or_false]
    omega

/-- **The count of a root is the number of processes that share it**, in
every state that a run leads to. -/
theorem virtualMemory_rootSharers (h : World.Served n type tlbEntries slots history w)
    (hx : w.heap.processes p = some x) : ∃ count : Nat,
      pageTableRootReferenceCount x.pageTable w.heap = .ok count w.heap ∧
        (count : ℕ∞) = (w.heap.rootSharers p).encard :=
  pageTableRootReferenceCount_run h.owned h.guarded.tame hx

/-- A parent and one of its two children; the other has written. -/
theorem virtualMemory_rootSharers_two : ∃ history w x,
    World.Served 2 .lru 2 (some 4) history w ∧ w.heap.processes 0 = some x ∧
      pageTableRootReferenceCount x.pageTable w.heap = .ok 2 w.heap ∧
      (w.heap.rootSharers 0).encard = 2 := by
  have hafter : ((virtualMemoryCreateInternal 2 .lru 2 (some 4)).bind fun memory =>
      runChecked World.step (fun w call => w.pager.Valid call) [] (World.boot memory)
        [.createProcess 1, .writeByte 0 0x1000 5, .fork 0 2, .fork 0 3, .writeByte 1 0x1000 6]).any
        (fun r => (r.2.heap.processes 0).any fun x =>
          ((pageTableRootReferenceCount x.pageTable r.2.heap).reply id).any
            fun answer => answer.1 == some 2) = true := by
    decide +kernel
  obtain ⟨⟨history, w⟩, hafter, hcheck⟩ := (Option.any_eq_true _ _).mp hafter
  obtain ⟨memory, hcreate, hchecked⟩ := Option.bind_eq_some_iff.mp hafter
  obtain ⟨x, hx, hcount⟩ := (Option.any_eq_true _ _).mp hcheck
  have hserved : World.Served 2 .lru 2 (some 4) history w :=
    ⟨memory, hcreate, Run.of_runChecked _ .start hchecked⟩
  obtain ⟨count, hrun, hsharers⟩ := virtualMemory_rootSharers hserved hx
  rw [hrun] at hcount
  obtain rfl : count = 2 := by simpa [Outcome.reply] using hcount
  exact ⟨history, w, x, hserved, hx, hrun, hsharers.symm⟩

end VmSim
