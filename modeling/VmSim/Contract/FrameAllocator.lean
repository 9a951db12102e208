/-
VmSim.Contract.FrameAllocator — the frames that
`physical_memory_allocate_frame` hands out.

`physical_memory_create` takes more frames than a `uint32_t` can name.
Once all those with a name are in use, the search finds the frame 2^32,
and the truncated number hands out frame 0 a second time.
-/
import VmSim.FrameCalls

namespace VmSim

/-- **The frame allocator.** On a memory of any size a run is safe (only
free frames are handed out, no other frame is touched, -2 says that there
is none, and the free frames are counted right) exactly when no allocation
is made while every frame below 2^32 is in use and there are more. So all
runs are safe exactly when there are no more than 2^32 frames. -/
theorem frameAllocator_safe {n : Nat} {memory : PhysicalMemory}
    (h : physicalMemoryCreate n = some memory) :
    (∀ calls, memory.RunsSafely calls ↔
      ∀ done call rest, calls = done ++ call :: rest → ¬call.Overflows (memory.after done)) ∧
    ((∀ calls, memory.RunsSafely calls) ↔ n ≤ 2 ^ 32) := by
  obtain ⟨hfree, hframes, hcount⟩ := physicalMemoryCreate_unoccupied h
  have hlow : memory.Low := fun f _ => hfree f
  refine ⟨hcount.runsSafely_iff hlow, fun hall => ?_, fun hn calls => ?_⟩
  · by_contra hlarge
    exact physicalMemoryCreate_overflows h (Nat.not_le.mp hlarge) 0 0 (Int.zero_le_ofNat 1) rfl
      (hall _)
  · rw [hcount.runsSafely_iff hlow]
    intro done call rest _ hover
    cases call with
    | allocate owner ownerPid virtualPage =>
      have hcrowd := hover.2.1
      rw [PhysicalMemory.after_frameCount, hframes] at hcrowd
      omega
    | _ => exact hover

theorem frameAllocator_safe_four :
    ∃ memory, physicalMemoryCreate 4 = some memory ∧ ∀ calls, memory.RunsSafely calls :=
  ⟨_, rfl, (frameAllocator_safe (show physicalMemoryCreate 4 = some _ from rfl)).2.mpr (by decide)⟩

/-- A memory of 2^32 + 1 frames does not survive as many allocations. -/
theorem frameAllocator_overflow :
    ∃ memory, physicalMemoryCreate (2 ^ 32 + 1) = some memory ∧
      ¬memory.RunsSafely (List.replicate (2 ^ 32 + 1) (.allocate 0 1 0)) := by
  have hsize : ¬(2 ^ 32 + 1 = 0 ∨ 2 ^ 32 + 1 > (wordSize - 1) / pageSize) := by decide
  have hcreate : physicalMemoryCreate (2 ^ 32 + 1) = some _ := if_neg hsize
  exact ⟨_, hcreate, physicalMemoryCreate_overflows hcreate (Nat.lt_succ_self _) 0 0
    (Int.zero_le_ofNat 1) rfl⟩

end VmSim
