/-
VmSim.Contract.Validate — the simulator's own check of its state.

`virtual_memory_validate` is what the tests of the simulator assert after
forks, evictions and releases.
-/
import VmSim.VirtualMemory.Validate

namespace VmSim

open Lib

/-- **The check passes** in every state that a run reaches, and it detects
every frame that is not as it should be: in any state at all it only reads,
and where it answers it answers true just if every occupied frame is mapped
by the process that owns it, every free one is empty, and the free frames
are counted right. -/
theorem virtualMemory_validates :
    (∀ n type tlbEntries slots history w, n < 2 ^ 32 →
      World.Reachable n type tlbEntries slots history w →
      virtualMemoryValidate w = .ok true w) ∧
    (∀ w, (∃ valid, virtualMemoryValidate w = .ok valid w ∧ (valid = true ↔ w.Validated)) ∨
      (virtualMemoryValidate w = .fault ∧ ¬ w.Validated)) := by
  constructor
  · intro n type tlbEntries slots history w hn h
    exact virtualMemoryValidate_true.mpr (h.coherent hn).wf.validated
  · intro w
    rcases virtualMemoryValidate_readOnly w with ⟨valid, hrun⟩ | hfault
    · exact Or.inl ⟨valid, hrun, (virtualMemoryValidate_ok hrun).2⟩
    · refine Or.inr ⟨hfault, fun hvalid => ?_⟩
      rw [virtualMemoryValidate_true.mpr hvalid] at hfault
      cases hfault

/-- The allocator of `w` has lost count. -/
def World.miscounted (w : World) : World :=
  { w with memory := { w.memory with
    physicalMemory := { w.memory.physicalMemory with
      freeFrameCount := w.memory.physicalMemory.freeFrameCount + 1 } } }

/-- A run with a fork, a copy and a release, and the same state with the
count of the allocator one too high. -/
theorem virtualMemory_validates_forked : ∃ history w,
    World.Reachable 3 .lru 2 (some 4) history w ∧ virtualMemoryValidate w = .ok true w ∧
      virtualMemoryValidate w.miscounted = .ok false w.miscounted := by
  have hafter : (World.after 3 .lru 2 (some 4) [.createProcess 1, .writeByte 0 0x1000 5, .fork 0 2,
      .writeByte 1 0x1000 6, .readByte 0 0x2000, .release 0, .readByte 1 0x5000]).any
      (fun r => decide (r.1.length = 7) &&
        ((virtualMemoryValidate r.2.miscounted).reply Option.isSome).isSome) = true := by
    decide +kernel
  obtain ⟨⟨history, w⟩, hafter, hcheck⟩ := (Option.any_eq_true _ _).mp hafter
  have hanswers := (Bool.and_eq_true_iff.mp hcheck).2
  have hreach := World.reachable_of_after hafter
  have hpasses := virtualMemory_validates.1 _ _ _ _ _ _ (by decide) hreach
  refine ⟨history, w, hreach, hpasses, ?_⟩
  have hcounted : w.Validated := (virtualMemoryValidate_ok hpasses).2.mp rfl
  have hwrong : ¬ w.miscounted.Validated := fun h =>
    Nat.succ_ne_self _ (h.freeCount.symm.trans hcounted.freeCount)
  rcases virtualMemory_validates.2 w.miscounted with ⟨valid, hrun, hvalid⟩ | ⟨hfault, _⟩
  · cases valid with
    | false => exact hrun
    | true => exact absurd (hvalid.mp rfl) hwrong
  · rw [hfault] at hanswers
    cases hanswers

end VmSim
