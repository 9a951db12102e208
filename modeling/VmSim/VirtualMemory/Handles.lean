/-
VmSim.VirtualMemory.Handles — process pointers in any run.

`World.Named` is what holds of the pointers to processes whatever is
called, with pids that are not distinct and with any 64-bit address: the
heap is sound, and the registry and the mapping lists name processes that
were created at some time. `World.Within` fixes the processes too; every
function but creation and fork keeps it.
-/
import VmSim.Lib.Invariant
import VmSim.PageTable.Allocation
import VmSim.VirtualMemory.Coherence

namespace VmSim

open Lib Lib.Comp

variable {w w' : World} {start : Heap} {p q t : Nat} {x : Process}

structure World.Named (w : World) : Prop where
  sound : w.heap.Sound
  sharers : ∀ f, ∀ m ∈ w.memory.cowManager.frames f, m.process < w.heap.nextProcess
  registry : ∀ q ∈ w.memory.processes, q < w.heap.nextProcess

/-- And the processes are those of the heap `start`. -/
structure World.Within (start : Heap) (w : World) : Prop extends w.Named where
  processes : w.heap.processes = start.processes
  nextProcess : w.heap.nextProcess = start.nextProcess

/-- The table of some process. -/
def Heap.Owns (h : Heap) (t : Nat) : Prop := ∃ p x, h.processes p = some x ∧ x.pageTable = t

/-! ## Parts of the state -/

/-- Neither the heap nor the mapping lists nor the registry change. -/
theorem World.Within.congr (h : w.Within start) (hheap : w'.heap = w.heap)
    (hcow : w'.memory.cowManager = w.memory.cowManager)
    (hprocesses : w'.memory.processes = w.memory.processes) : w'.Within start := by
  refine ⟨⟨?_, ?_, ?_⟩, ?_, ?_⟩
  · rw [hheap]
    exact h.sound
  · rw [hheap, hcow]
    exact h.sharers
  · rw [hheap, hprocesses]
    exact h.registry
  · rw [hheap]
    exact h.processes
  · rw [hheap]
    exact h.nextProcess

theorem onPhysical_keeps {α : Type} (f : PhysicalMemory → α × PhysicalMemory) :
    Keeps (World.Within start) anyValue (onPhysical f) :=
  Keeps.update fun _ h => h.congr rfl rfl rfl

theorem onPolicy_keeps {α : Type} (f : ReplacementPolicy → α × ReplacementPolicy) :
    Keeps (World.Within start) anyValue (onPolicy f) :=
  Keeps.update fun _ h => h.congr rfl rfl rfl

theorem onTlb_keeps {α : Type} (f : Tlb → α × Tlb) :
    Keeps (World.Within start) anyValue (onTlb f) :=
  Keeps.update fun _ h => h.congr rfl rfl rfl

theorem onStats_keeps (f : VirtualMemoryStats → VirtualMemoryStats) :
    Keeps (World.Within start) anyValue (onStats f) :=
  Keeps.modify fun _ h => h.congr rfl rfl rfl

theorem onSwap_keeps {α : Type} (f : Swap → α × Swap) :
    Keeps (World.Within start) anyValue (onSwap f) := by
  intro w h
  unfold onSwap
  cases w.memory.swap with
  | none => trivial
  | some swap => exact ⟨h.congr rfl rfl rfl, trivial⟩

theorem cowManagerRemoveMapping_subset {manager : CowManager} {f g q v : Nat} {m : CowMapping}
    (hm : m ∈ (cowManagerRemoveMapping manager f q v).2.frames g) : m ∈ manager.frames g := by
  unfold cowManagerRemoveMapping at hm
  split at hm
  · dsimp only at hm
    by_cases e : g = f
    · subst e
      rw [Function.update_self] at hm
      exact List.mem_of_mem_erase hm
    · rwa [Function.update_of_ne e] at hm
  · exact hm

theorem mem_cowManagerInsert {manager : CowManager} {f g q v : Nat} {m : CowMapping} :
    m ∈ (cowManagerInsert manager f q v).frames g ↔ g = f ∧ m = ⟨q, v⟩ ∨ m ∈ manager.frames g := by
  unfold cowManagerInsert
  by_cases e : g = f
  · subst e
    simp
  · simp [e]

theorem cowRemoveMapping_keeps (f q v : Nat) :
    Keeps (World.Within start) anyValue (onCow (cowManagerRemoveMapping · f q v)) :=
  Keeps.update fun _ h => ⟨⟨h.sound, fun g m hm => h.sharers g m
    (cowManagerRemoveMapping_subset hm), h.registry⟩, h.processes, h.nextProcess⟩

/-! ## The heap -/

/-- A step of the heap that leaves its processes alone. -/
theorem World.Within.moved (h : w.Within start) {mapped : Nat → Nat → Option Nat} {heap : Heap}
    (hm : w.heap.Moved mapped heap) : ({ w with heap := heap } : World).Within start := by
  refine ⟨⟨hm.sound, fun f m hmem => ?_, fun q hq => ?_⟩, hm.processes.trans h.processes,
    hm.nextProcess.trans h.nextProcess⟩
  · rw [hm.nextProcess]
    exact h.sharers f m hmem
  · rw [hm.nextProcess]
    exact h.registry q hq

theorem allocate_keeps : Keeps (World.Within start) anyValue (onHeap allocate) := by
  refine Keeps.zoom fun w h => ?_
  rw [allocate_run h.sound.plenty]
  exact ⟨h.moved h.sound.drawn, trivial⟩

theorem readProcess_keeps (q : Nat) :
    Keeps (World.Within start) (fun x => start.processes q = some x)
      (onHeap (readProcess q)) := by
  refine Keeps.zoom fun w h => ?_
  unfold readProcess
  rw [h.processes]
  cases hx : start.processes q with
  | none => trivial
  | some x => exact ⟨h, rfl⟩

theorem processGetPid_keeps (q : Nat) :
    Keeps (World.Within start) anyValue (processGetPid q) :=
  (readProcess_keeps q).andThen fun _ => Keeps.done

theorem processGetPageTable_keeps (q : Nat) :
    Keeps (World.Within start) start.Owns (processGetPageTable q) :=
  (readProcess_keeps q).bind fun x hx => Keeps.pure ⟨q, x, hx, rfl⟩

theorem pageTableMap_keeps (ho : start.Owns t) (a f : Nat) :
    Keeps (World.Within start) anyValue (onHeap (pageTableMap t a f)) := by
  obtain ⟨q, x, hx, rfl⟩ := ho
  refine Keeps.zoom fun w h => ?_
  obtain ⟨heap, hrun, hm⟩ := h.sound.map_run (by rw [h.processes]; exact hx) a f
  rw [hrun]
  exact ⟨h.moved hm, trivial⟩

theorem pageTableLookup_keeps (ho : start.Owns t) (a : Nat) :
    Keeps (World.Within start) anyValue (onHeap (pageTableLookup t a)) := by
  obtain ⟨q, x, hx, rfl⟩ := ho
  refine Keeps.zoom fun w h => ?_
  obtain ⟨entry, hrun, _⟩ := h.sound.lookup_run (by rw [h.processes]; exact hx) a
  rw [hrun]
  exact ⟨h, trivial⟩

theorem pageTableLookupWithLevels_keeps (ho : start.Owns t) (a : Nat) :
    Keeps (World.Within start) anyValue (onHeap (pageTableLookupWithLevels t a)) := by
  obtain ⟨q, x, hx, rfl⟩ := ho
  refine Keeps.zoom fun w h => ?_
  obtain ⟨entry, visited, hrun, _⟩ := h.sound.walk_run (by rw [h.processes]; exact hx) a
  rw [hrun]
  exact ⟨h, trivial⟩

/-- A page that is not mapped stays so. -/
theorem pageTableUnmap_keeps (ho : start.Owns t) (a : Nat) :
    Keeps (World.Within start) anyValue (onHeap (pageTableUnmap t a)) := by
  obtain ⟨q, x, hx, rfl⟩ := ho
  refine Keeps.zoom fun w h => ?_
  have hx' : w.heap.processes q = some x := by
    rw [h.processes]
    exact hx
  by_cases hm : w.heap.mapped q (addressPageNumber a) = none
  · obtain ⟨entry, hrun, hframe, _⟩ := h.sound.lookup_run hx' a
    have hnone : entry = none := Option.map_eq_none_iff.mp (hframe.trans hm)
    rw [pageTableUnmap, bind_ok hrun, hnone]
    exact h
  · obtain ⟨heap, hrun, hmoved⟩ := h.sound.unmap_run hx' hm
    rw [hrun]
    exact ⟨h.moved hmoved, trivial⟩

/-! ## The registry and the mapping lists -/

theorem cowAddMapping_keeps (hp : p < start.nextProcess) (f v : Nat) :
    Keeps (World.Within start) anyValue (cowAddMapping f p v) := by
  refine Keeps.get.andThen fun w => (Keeps.failIf _).andThen fun _ => ?_
  split
  · exact Keeps.done
  · refine allocate_keeps.andThen fun _ => Keeps.update fun w₁ h => ⟨⟨h.sound, fun g m hm => ?_,
      h.registry⟩, h.processes, h.nextProcess⟩
    rcases mem_cowManagerInsert.mp hm with ⟨_, rfl⟩ | hold
    · rw [show w₁.heap.nextProcess = _ from h.nextProcess]
      exact hp
    · exact h.sharers g m hold

theorem virtualMemoryRegisterProcess_keeps (hp : p < start.nextProcess) :
    Keeps (World.Within start) anyValue (virtualMemoryRegisterProcess p) := by
  refine Keeps.get.bind fun w hw => ?_
  split
  · exact Keeps.done
  · refine allocate_keeps.andThen fun _ => Keeps.modify fun w₁ h => ⟨⟨h.sound, h.sharers,
      fun q hq => ?_⟩, h.processes, h.nextProcess⟩
    rw [show w₁.heap.nextProcess = _ from h.nextProcess]
    rcases List.mem_cons.mp hq with rfl | hold
    · exact hp
    · rw [← hw.nextProcess]
      exact hw.registry q hold

theorem virtualMemoryUnregisterProcess_keeps (q : Nat) :
    Keeps (World.Within start) anyValue (virtualMemoryUnregisterProcess q) := by
  refine Keeps.get.bind fun w hw => Keeps.modify fun w₁ h => ⟨⟨h.sound, h.sharers,
    fun r hr => ?_⟩, h.processes, h.nextProcess⟩
  rw [show w₁.heap.nextProcess = _ from h.nextProcess, ← hw.nextProcess]
  exact hw.registry r (List.mem_of_mem_erase hr)

theorem virtualMemoryFindFrameUserIn_keeps (f v excluded : Nat) (candidates : List Nat) :
    Keeps (World.Within start) anyValue (virtualMemoryFindFrameUserIn f v excluded candidates) := by
  induction candidates with
  | nil => exact Keeps.done
  | cons candidate rest ih =>
    refine Keeps.get.andThen fun w => ?_
    split
    · exact ih
    · refine (processGetPageTable_keeps candidate).bind fun table ho =>
        (pageTableLookup_keeps ho _).andThen fun entry => ?_
      split
      · exact Keeps.done
      · exact ih

theorem virtualMemoryFindFrameUser_keeps (f v excluded : Nat) :
    Keeps (World.Within start) anyValue (virtualMemoryFindFrameUser f v excluded) :=
  Keeps.get.andThen fun _ => virtualMemoryFindFrameUserIn_keeps f v excluded _

theorem virtualMemoryReassignFrameOwner_keeps (f owner v : Nat) :
    Keeps (World.Within start) anyValue (virtualMemoryReassignFrameOwner f owner v) := by
  refine Keeps.get.andThen fun w => (Keeps.orFail _).andThen fun frame =>
    (Keeps.failIf _).andThen fun _ => (Keeps.orFail _).andThen fun page =>
    (processGetPid_keeps owner).andThen fun pid => (onPhysical_keeps _).andThen fun _ =>
    (Keeps.check _).andThen fun _ => (onPhysical_keeps _).andThen fun _ =>
    (Keeps.check _).andThen fun _ => ?_
  split
  · exact (onPhysical_keeps _).andThen fun _ => Keeps.check _
  · exact Keeps.done

/-! ## Page faults -/

theorem virtualMemoryRestorePage_keeps (q v f : Nat) :
    Keeps (World.Within start) anyValue (virtualMemoryRestorePage q v f) := by
  refine Keeps.get.andThen fun w => ?_
  split
  · exact Keeps.done
  · refine (processGetPid_keeps q).andThen fun pid => ?_
    split
    · exact Keeps.done
    · exact (onSwap_keeps _).andThen fun _ => (Keeps.orFail _).andThen fun _ =>
        (onPhysical_keeps _).andThen fun _ => (Keeps.check _).andThen fun _ =>
        (onSwap_keeps _).andThen fun _ => (Keeps.check _).andThen fun _ => onStats_keeps _

theorem virtualMemorySaveVictim_keeps (victim : PhysicalFrame) (f : Nat) :
    Keeps (World.Within start) anyValue (virtualMemorySaveVictim victim f) := by
  refine Keeps.get.andThen fun w => ?_
  split
  · exact Keeps.done
  · exact (Keeps.orFail _).andThen fun _ => (onSwap_keeps _).andThen fun _ =>
      (Keeps.check _).andThen fun _ => onStats_keeps _

theorem virtualMemoryNotifyAccess_keeps (f : Nat) (isWrite : Bool) :
    Keeps (World.Within start) anyValue (virtualMemoryNotifyAccess f isWrite) :=
  (onPhysical_keeps _).andThen fun _ => (Keeps.check _).andThen fun _ =>
    (onPolicy_keeps _).andThen fun _ => (Keeps.check _).andThen fun _ => onPolicy_keeps _

theorem virtualMemoryLoadFreeFrame_keeps (hp : p < start.nextProcess) (a v f : Nat)
    (isWrite : Bool) :
    Keeps (World.Within start) anyValue (virtualMemoryLoadFreeFrame p a v f isWrite) := by
  refine (processGetPageTable_keeps p).bind fun table ho => ?_
  have hunmap : Keeps (World.Within start) anyValue
      (Comp.attempt (onHeap (pageTableUnmap table a))) := (pageTableUnmap_keeps ho a).attempt
  have hrelease : Keeps (World.Within start) anyValue
      (onPhysical (physicalMemoryReleaseFrame · f)) := onPhysical_keeps _
  exact ((pageTableMap_keeps ho a f).onFailure hrelease).andThen fun _ =>
    ((cowAddMapping_keeps hp f v).onFailure (hunmap.andThen fun _ => hrelease)).andThen fun _ =>
    (onPolicy_keeps _).andThen fun code =>
    ((Keeps.check code).onFailure ((cowRemoveMapping_keeps f p v).andThen fun _ =>
      hunmap.andThen fun _ => hrelease)).andThen fun _ =>
    ((virtualMemoryRestorePage_keeps p v f).onFailure ((onPolicy_keeps _).andThen fun _ =>
      (cowRemoveMapping_keeps f p v).andThen fun _ => hunmap.andThen fun _ =>
        hrelease)).andThen fun _ =>
    (onPhysical_keeps _).andThen fun _ => (Keeps.check _).andThen fun _ =>
    (processGetPid_keeps p).andThen fun _ => (onTlb_keeps _).andThen fun _ =>
    (Keeps.check _).andThen fun _ => onPolicy_keeps _

theorem virtualMemoryReplacePage_keeps (hp : p < start.nextProcess) (a v : Nat)
    (isWrite : Bool) :
    Keeps (World.Within start) anyValue (virtualMemoryReplacePage p a v isWrite) := by
  refine Keeps.get.andThen fun w => (Keeps.orFault _).andThen fun (f, policy) =>
    (onPolicy_keeps _).andThen fun _ => (Keeps.failIf _).andThen fun _ =>
    (Keeps.failIf _).andThen fun _ => (Keeps.orFail _).andThen fun victim =>
    (Keeps.failIf _).andThen fun _ => (Keeps.orFail _).andThen fun oldProcess =>
    (virtualMemorySaveVictim_keeps victim f).andThen fun _ =>
    (processGetPageTable_keeps oldProcess).bind fun oldTable hold =>
    (processGetPageTable_keeps p).bind fun newTable hnew => ?_
  exact (pageTableMap_keeps hnew a f).andThen fun _ => (onTlb_keeps _).andThen fun _ =>
    ((pageTableUnmap_keeps hold _).onFailure (pageTableUnmap_keeps hnew a)).andThen fun _ =>
    (cowRemoveMapping_keeps f oldProcess _).andThen fun _ => (Keeps.check _).andThen fun _ =>
    (onPolicy_keeps _).andThen fun _ => (Keeps.check _).andThen fun _ =>
    (processGetPid_keeps p).andThen fun _ => (onPhysical_keeps _).andThen fun _ =>
    (Keeps.check _).andThen fun _ => (cowAddMapping_keeps hp f v).andThen fun _ =>
    (onPolicy_keeps _).andThen fun _ => (Keeps.check _).andThen fun _ =>
    (virtualMemoryRestorePage_keeps p v f).andThen fun _ =>
    (onPhysical_keeps _).andThen fun _ => (Keeps.check _).andThen fun _ =>
    (onTlb_keeps _).andThen fun _ => (Keeps.check _).andThen fun _ =>
    (onStats_keeps _).andThen fun _ => onPolicy_keeps _

/-! ## Copy-on-write -/

theorem virtualMemorySaveReader_keeps (writer : CowMapping) (page : PageData)
    (reader : CowMapping) :
    Keeps (World.Within start) anyValue (virtualMemorySaveReader writer page reader) := by
  unfold virtualMemorySaveReader
  split
  · exact Keeps.done
  · exact (processGetPid_keeps _).andThen fun _ => (onSwap_keeps _).andThen fun _ =>
      (Keeps.check _).andThen fun _ => onStats_keeps _

theorem virtualMemoryDetachReader_keeps (writer : CowMapping) (f : Nat) (reader : CowMapping) :
    Keeps (World.Within start) anyValue (virtualMemoryDetachReader writer f reader) := by
  unfold virtualMemoryDetachReader
  split
  · exact Keeps.done
  · exact (Keeps.failIf _).andThen fun _ =>
      (processGetPageTable_keeps _).bind fun table ho =>
      (pageTableUnmap_keeps ho _).andThen fun _ => (cowRemoveMapping_keeps f _ _).andThen fun _ =>
      (Keeps.check _).andThen fun _ => (processGetPid_keeps _).andThen fun _ =>
      (onTlb_keeps _).andThen fun _ => Keeps.done

theorem virtualMemoryEvictCowReadersForWrite_keeps (writer v f : Nat) (page : PageData) :
    Keeps (World.Within start) anyValue
      (virtualMemoryEvictCowReadersForWrite writer v f page) := by
  refine Keeps.get.andThen fun w => (Keeps.failIf _).andThen fun _ => ?_
  dsimp only
  split
  · exact Keeps.done
  · refine allocate_keeps.andThen fun _ => (Keeps.failIf _).andThen fun _ =>
      (Keeps.forEach (virtualMemorySaveReader_keeps _ page) _).andThen fun _ =>
      (Keeps.forEach (virtualMemoryDetachReader_keeps _ f) _).andThen fun _ =>
      Keeps.get.andThen fun w' => ?_
    have hlast : Keeps (World.Within start) anyValue (do
        let w ← Comp.get
        Comp.failIf (cowManagerMappingCount w.memory.cowManager f ≠ 1)) :=
      Keeps.get.andThen fun _ => (Keeps.failIf _).any
    split
    · exact (virtualMemoryReassignFrameOwner_keeps f writer v).andThen fun _ => hlast
    · exact hlast

theorem virtualMemoryHandleCowWrite_keeps (hp : p < start.nextProcess) (a v f : Nat) :
    Keeps (World.Within start) anyValue (virtualMemoryHandleCowWrite p a v f) := by
  refine Keeps.get.andThen fun w => ?_
  split
  · exact Keeps.done
  · refine (Keeps.orFail _).andThen fun page => (processGetPid_keeps p).andThen fun pid =>
      (onPhysical_keeps _).andThen fun allocation => ?_
    cases allocation with
    | error code =>
      exact (Keeps.failIf _).andThen fun _ =>
        (virtualMemoryEvictCowReadersForWrite_keeps p v f page).andThen fun _ =>
        (onTlb_keeps _).andThen fun _ => (onTlb_keeps _).andThen fun _ =>
        (Keeps.check _).andThen fun _ => Keeps.done
    | ok g =>
      have hrelease : Keeps (World.Within start) anyValue
          (onPhysical (physicalMemoryReleaseFrame · g)) := onPhysical_keeps _
      refine (onPhysical_keeps _).andThen fun code =>
        ((Keeps.check code).onFailure hrelease).andThen fun _ =>
        (processGetPageTable_keeps p).bind fun table ho =>
        ((pageTableMap_keeps ho a g).onFailure hrelease).andThen fun _ =>
        (cowRemoveMapping_keeps f p v).andThen fun _ => (Keeps.check _).andThen fun _ =>
        (cowAddMapping_keeps hp g v).andThen fun _ => (onPolicy_keeps _).andThen fun _ =>
        (Keeps.check _).andThen fun _ => Keeps.get.andThen fun w' => ?_
      have hlast : Keeps (World.Within start) anyValue (do
          let _ ← onTlb (tlbInvalidate · pid v)
          let code ← onTlb (tlbInsert · pid v g)
          Comp.check code
          return g) :=
        (onTlb_keeps _).andThen fun _ => (onTlb_keeps _).andThen fun _ =>
          (Keeps.check _).andThen fun _ => Keeps.done
      split
      · exact (virtualMemoryFindFrameUser_keeps f v p).andThen fun _ =>
          (Keeps.orFail _).andThen fun remaining =>
          (virtualMemoryReassignFrameOwner_keeps f remaining v).andThen fun _ => hlast
      · exact hlast

/-! ## Accesses and releases -/

theorem virtualMemoryWritableFrame_keeps (hp : p < start.nextProcess) (a v f : Nat)
    (isWrite : Bool) :
    Keeps (World.Within start) anyValue (virtualMemoryWritableFrame p a v f isWrite) := by
  unfold virtualMemoryWritableFrame
  split
  · exact virtualMemoryHandleCowWrite_keeps hp a v f
  · exact Keeps.done

theorem virtualMemoryAccessFault_keeps (hp : p < start.nextProcess) (pid : Int) (a v : Nat)
    (isWrite : Bool) :
    Keeps (World.Within start) anyValue (virtualMemoryAccessFault p pid a v isWrite) := by
  refine (onStats_keeps _).andThen fun _ => (onPhysical_keeps _).andThen fun allocation => ?_
  cases allocation with
  | ok f =>
    exact (virtualMemoryLoadFreeFrame_keeps hp a v f isWrite).attempt.andThen fun _ =>
      Keeps.get.andThen fun _ => Keeps.done
  | error code =>
    dsimp only
    split
    · exact (virtualMemoryReplacePage_keeps hp a v isWrite).attempt.andThen fun _ =>
        Keeps.get.andThen fun _ => Keeps.done
    · exact Keeps.done

theorem virtualMemoryAccess_keeps (hp : p < start.nextProcess) (a : Nat)
    (accessType : VirtualMemoryAccessType) :
    Keeps (World.Within start) anyValue (virtualMemoryAccess p a accessType) := by
  have hnotified : ∀ f isWrite, Keeps (World.Within start) anyValue
      (virtualMemoryNotifyAccess f isWrite) := virtualMemoryNotifyAccess_keeps
  refine (virtualMemoryRegisterProcess_keeps hp).attempt.andThen fun registered => ?_
  split
  · exact Keeps.done
  · refine (processGetPageTable_keeps p).bind fun table ho => (onStats_keeps _).andThen fun _ =>
      (processGetPid_keeps p).andThen fun pid => (onTlb_keeps _).andThen fun hit => ?_
    cases hit with
    | some f =>
      have hdone : Keeps (World.Within start) anyValue (virtualMemoryAccessHit p a
          (addressPageNumber a) f (decide (accessType = .write))) :=
        (onStats_keeps _).andThen fun _ =>
          (virtualMemoryWritableFrame_keeps hp a _ f _).andThen fun g => hnotified g _
      exact hdone.attempt.andThen fun _ => Keeps.done
    | none =>
      refine (pageTableLookupWithLevels_keeps ho a).andThen fun (entry, levels) =>
        (onStats_keeps _).andThen fun _ => ?_
      cases entry with
      | none => exact virtualMemoryAccessFault_keeps hp pid a _ _
      | some entry =>
        have hdone : Keeps (World.Within start) anyValue (virtualMemoryAccessWalked p pid a
            (addressPageNumber a) entry.frameNumber (decide (accessType = .write))) :=
          (virtualMemoryWritableFrame_keeps hp a _ _ _).andThen fun g =>
            (onTlb_keeps _).andThen fun _ => (Keeps.check _).andThen fun _ => hnotified g _
        exact hdone.attempt.andThen fun _ => Keeps.done

theorem virtualMemoryReadByte_keeps (hp : p < start.nextProcess) (a : Nat) :
    Keeps (World.Within start) anyValue (virtualMemoryReadByte p a) :=
  (virtualMemoryAccess_keeps hp a .read).andThen fun _ => (Keeps.failIf _).andThen fun _ =>
    (processGetPageTable_keeps p).bind fun _ ho => (pageTableLookup_keeps ho a).andThen fun _ =>
    (Keeps.orFail _).andThen fun _ => Keeps.get.andThen fun _ => (Keeps.orFail _).any

theorem virtualMemoryWriteByte_keeps (hp : p < start.nextProcess) (a : Nat) (value : UInt8) :
    Keeps (World.Within start) anyValue (virtualMemoryWriteByte p a value) :=
  (virtualMemoryAccess_keeps hp a .write).andThen fun _ => (Keeps.failIf _).andThen fun _ =>
    (processGetPageTable_keeps p).bind fun _ ho => (pageTableLookup_keeps ho a).andThen fun _ =>
    (Keeps.orFail _).andThen fun _ => (onPhysical_keeps _).andThen fun _ => Keeps.check _

theorem virtualMemoryReleaseFrame_keeps (q : Nat) (pid : Int) (ho : start.Owns t) (index : Nat) :
    Keeps (World.Within start) anyValue (virtualMemoryReleaseFrame q pid t index) := by
  refine Keeps.get.andThen fun w => ?_
  split
  · exact Keeps.done
  · rename_i frame _
    split
    · exact Keeps.done
    · have hlast : Keeps (World.Within start) anyValue (do
          let code ← onCow (cowManagerRemoveMapping · (toUint32 index) q frame.virtualPage)
          Comp.check code
          let w ← Comp.get
          if cowManagerMappingCount w.memory.cowManager (toUint32 index) = 0 then do
            let code ← onPolicy (replacementPolicyOnEvict · (toUint32 index))
            Comp.check code
            let code ← onPhysical (physicalMemoryReleaseFrame · (toUint32 index))
            Comp.check code
          else if frame.ownerProcess = some q then do
            let remaining ← virtualMemoryFindFrameUser (toUint32 index) frame.virtualPage q
            let remaining ← Comp.orFail remaining
            virtualMemoryReassignFrameOwner (toUint32 index) remaining frame.virtualPage
          else pure ()) := by
        refine (cowRemoveMapping_keeps _ q _).andThen fun _ => (Keeps.check _).andThen fun _ =>
          Keeps.get.andThen fun w' => ?_
        split
        · exact (onPolicy_keeps _).andThen fun _ => (Keeps.check _).andThen fun _ =>
            (onPhysical_keeps _).andThen fun _ => Keeps.check _
        · split
          · exact (virtualMemoryFindFrameUser_keeps _ _ q).andThen fun _ =>
              (Keeps.orFail _).andThen fun remaining =>
              virtualMemoryReassignFrameOwner_keeps _ remaining _
          · exact Keeps.done
      refine (onTlb_keeps _).andThen fun _ => (pageTableLookup_keeps ho _).andThen fun entry => ?_
      dsimp only
      by_cases hmapped : (entry.any fun e => decide (e.frameNumber = toUint32 index)) = true
      · rw [if_pos hmapped]
        exact (pageTableUnmap_keeps ho _).andThen fun _ => hlast
      · rw [if_neg hmapped]
        exact hlast

theorem virtualMemoryReleaseProcess_keeps (q : Nat) :
    Keeps (World.Within start) anyValue (virtualMemoryReleaseProcess q) := by
  refine (processGetPid_keeps q).andThen fun pid => (Keeps.failIf _).andThen fun _ =>
    (processGetPageTable_keeps q).bind fun table ho => Keeps.get.andThen fun w =>
    (Keeps.forEach (virtualMemoryReleaseFrame_keeps q pid ho) _).andThen fun _ =>
    (onTlb_keeps _).andThen fun _ => Keeps.get.andThen fun w' => ?_
  split
  · exact (onSwap_keeps _).andThen fun _ => virtualMemoryUnregisterProcess_keeps q
  · exact virtualMemoryUnregisterProcess_keeps q

end VmSim
