/-
VmSim.VirtualMemory.OwnedTables — the page tables of a running system.

The functions of the virtual memory neither make nor destroy a table, but
for the fork, whose child gets one (`World.Guarded.step_owned`). So in
every run each live table belongs to a process.
-/
import VmSim.PageTable.Live
import VmSim.VirtualMemory.Safety

namespace VmSim

open Lib Lib.Comp

variable {w w' start : World} {live : Nat → Bool} {p : Nat}

/-- The live tables of the heap. -/
def World.TablesAre (live : Nat → Bool) (w : World) : Prop := w.heap.TablesAre live

/-! ## Parts of the state -/

theorem onHeap_live {α : Type} {c : Comp Heap α} {post : α → Prop}
    (h : Keeps (Heap.TablesAre live) post c) : Keeps (World.TablesAre live) post (onHeap c) :=
  Keeps.zoom fun w hw => h w.heap hw

theorem onPhysical_live {α : Type} (f : PhysicalMemory → α × PhysicalMemory) :
    Keeps (World.TablesAre live) anyValue (onPhysical f) := Keeps.update fun _ h => h

theorem onPolicy_live {α : Type} (f : ReplacementPolicy → α × ReplacementPolicy) :
    Keeps (World.TablesAre live) anyValue (onPolicy f) := Keeps.update fun _ h => h

theorem onTlb_live {α : Type} (f : Tlb → α × Tlb) :
    Keeps (World.TablesAre live) anyValue (onTlb f) := Keeps.update fun _ h => h

theorem onCow_live {α : Type} (f : CowManager → α × CowManager) :
    Keeps (World.TablesAre live) anyValue (onCow f) := Keeps.update fun _ h => h

theorem onStats_live (f : VirtualMemoryStats → VirtualMemoryStats) :
    Keeps (World.TablesAre live) anyValue (onStats f) := Keeps.modify fun _ h => h

theorem onSwap_live {α : Type} (f : Swap → α × Swap) :
    Keeps (World.TablesAre live) anyValue (onSwap f) := by
  intro w hw
  unfold onSwap
  cases w.memory.swap with
  | none => trivial
  | some swap => exact ⟨hw, trivial⟩

theorem setProcesses_live (processes : List Nat) :
    Keeps (World.TablesAre live) anyValue (setProcesses processes) := Keeps.modify fun _ h => h

theorem processGetPid_live (p : Nat) : Keeps (World.TablesAre live) anyValue (processGetPid p) :=
  (onHeap_live (readProcess_live p)).andThen fun _ => Keeps.done

theorem processGetPageTable_live (p : Nat) :
    Keeps (World.TablesAre live) anyValue (processGetPageTable p) :=
  (onHeap_live (readProcess_live p)).andThen fun _ => Keeps.done

theorem cowAddMapping_live (f p v : Nat) :
    Keeps (World.TablesAre live) anyValue (cowAddMapping f p v) := by
  refine Keeps.get.andThen fun w => (Keeps.failIf _).andThen fun _ => ?_
  split
  · exact Keeps.done
  · exact (onHeap_live allocate_live).andThen fun _ => onCow_live _

/-! ## The registry -/

theorem virtualMemoryRegisterProcess_live (p : Nat) :
    Keeps (World.TablesAre live) anyValue (virtualMemoryRegisterProcess p) := by
  refine Keeps.get.andThen fun w => ?_
  split
  · exact Keeps.done
  · exact (onHeap_live allocate_live).andThen fun _ => setProcesses_live _

theorem virtualMemoryUnregisterProcess_live (p : Nat) :
    Keeps (World.TablesAre live) anyValue (virtualMemoryUnregisterProcess p) :=
  Keeps.get.andThen fun _ => setProcesses_live _

theorem virtualMemoryFindFrameUserIn_live (f v excluded : Nat) (candidates : List Nat) :
    Keeps (World.TablesAre live) anyValue
      (virtualMemoryFindFrameUserIn f v excluded candidates) := by
  induction candidates with
  | nil => exact Keeps.done
  | cons candidate rest ih =>
    refine Keeps.get.andThen fun w => ?_
    split
    · exact ih
    · refine (processGetPageTable_live candidate).andThen fun table =>
        (onHeap_live (pageTableLookup_live table _)).andThen fun entry => ?_
      split
      · exact Keeps.done
      · exact ih

theorem virtualMemoryFindFrameUser_live (f v excluded : Nat) :
    Keeps (World.TablesAre live) anyValue (virtualMemoryFindFrameUser f v excluded) :=
  Keeps.get.andThen fun _ => virtualMemoryFindFrameUserIn_live f v excluded _

theorem virtualMemoryReassignFrameOwner_live (f owner v : Nat) :
    Keeps (World.TablesAre live) anyValue (virtualMemoryReassignFrameOwner f owner v) := by
  refine Keeps.get.andThen fun w => (Keeps.orFail _).andThen fun frame =>
    (Keeps.failIf _).andThen fun _ => (Keeps.orFail _).andThen fun page =>
    (processGetPid_live owner).andThen fun pid => (onPhysical_live _).andThen fun _ =>
    (Keeps.check _).andThen fun _ => (onPhysical_live _).andThen fun _ =>
    (Keeps.check _).andThen fun _ => ?_
  split
  · exact (onPhysical_live _).andThen fun _ => Keeps.check _
  · exact Keeps.done

/-! ## Page faults -/

theorem virtualMemoryRestorePage_live (p v f : Nat) :
    Keeps (World.TablesAre live) anyValue (virtualMemoryRestorePage p v f) := by
  refine Keeps.get.andThen fun w => ?_
  split
  · exact Keeps.done
  · refine (processGetPid_live p).andThen fun pid => ?_
    split
    · exact Keeps.done
    · exact (onSwap_live _).andThen fun _ => (Keeps.orFail _).andThen fun _ =>
        (onPhysical_live _).andThen fun _ => (Keeps.check _).andThen fun _ =>
        (onSwap_live _).andThen fun _ => (Keeps.check _).andThen fun _ => onStats_live _

theorem virtualMemorySaveVictim_live (victim : PhysicalFrame) (f : Nat) :
    Keeps (World.TablesAre live) anyValue (virtualMemorySaveVictim victim f) := by
  refine Keeps.get.andThen fun w => ?_
  split
  · exact Keeps.done
  · exact (Keeps.orFail _).andThen fun _ => (onSwap_live _).andThen fun _ =>
      (Keeps.check _).andThen fun _ => onStats_live _

theorem virtualMemoryNotifyAccess_live (f : Nat) (isWrite : Bool) :
    Keeps (World.TablesAre live) anyValue (virtualMemoryNotifyAccess f isWrite) :=
  (onPhysical_live _).andThen fun _ => (Keeps.check _).andThen fun _ =>
    (onPolicy_live _).andThen fun _ => (Keeps.check _).andThen fun _ => onPolicy_live _

theorem virtualMemoryLoadFreeFrame_live (p a v f : Nat) (isWrite : Bool) :
    Keeps (World.TablesAre live) anyValue (virtualMemoryLoadFreeFrame p a v f isWrite) := by
  refine (processGetPageTable_live p).andThen fun table => ?_
  have hunmap : Keeps (World.TablesAre live) anyValue
      (Comp.attempt (onHeap (pageTableUnmap table a))) :=
    (onHeap_live (pageTableUnmap_live table a)).attempt
  have hrelease : Keeps (World.TablesAre live) anyValue
      (onPhysical (physicalMemoryReleaseFrame · f)) := onPhysical_live _
  exact ((onHeap_live (pageTableMap_live table a f)).onFailure hrelease).andThen fun _ =>
    ((cowAddMapping_live f p v).onFailure (hunmap.andThen fun _ => hrelease)).andThen fun _ =>
    (onPolicy_live _).andThen fun code =>
    ((Keeps.check code).onFailure ((onCow_live _).andThen fun _ =>
      hunmap.andThen fun _ => hrelease)).andThen fun _ =>
    ((virtualMemoryRestorePage_live p v f).onFailure ((onPolicy_live _).andThen fun _ =>
      (onCow_live _).andThen fun _ => hunmap.andThen fun _ => hrelease)).andThen fun _ =>
    (onPhysical_live _).andThen fun _ => (Keeps.check _).andThen fun _ =>
    (processGetPid_live p).andThen fun _ => (onTlb_live _).andThen fun _ =>
    (Keeps.check _).andThen fun _ => onPolicy_live _

theorem virtualMemoryReplacePage_live (p a v : Nat) (isWrite : Bool) :
    Keeps (World.TablesAre live) anyValue (virtualMemoryReplacePage p a v isWrite) :=
  Keeps.get.andThen fun _ => (Keeps.orFault _).andThen fun _ =>
    (onPolicy_live _).andThen fun _ => (Keeps.failIf _).andThen fun _ =>
    (Keeps.failIf _).andThen fun _ => (Keeps.orFail _).andThen fun victim =>
    (Keeps.failIf _).andThen fun _ => (Keeps.orFail _).andThen fun _ =>
    (virtualMemorySaveVictim_live victim _).andThen fun _ =>
    (processGetPageTable_live _).andThen fun oldTable =>
    (processGetPageTable_live p).andThen fun newTable =>
    (onHeap_live (pageTableMap_live newTable a _)).andThen fun _ =>
    (onTlb_live _).andThen fun _ =>
    ((onHeap_live (pageTableUnmap_live oldTable _)).onFailure
      (onHeap_live (pageTableUnmap_live newTable a))).andThen fun _ =>
    (onCow_live _).andThen fun _ => (Keeps.check _).andThen fun _ =>
    (onPolicy_live _).andThen fun _ => (Keeps.check _).andThen fun _ =>
    (processGetPid_live p).andThen fun _ => (onPhysical_live _).andThen fun _ =>
    (Keeps.check _).andThen fun _ => (cowAddMapping_live _ p v).andThen fun _ =>
    (onPolicy_live _).andThen fun _ => (Keeps.check _).andThen fun _ =>
    (virtualMemoryRestorePage_live p v _).andThen fun _ =>
    (onPhysical_live _).andThen fun _ => (Keeps.check _).andThen fun _ =>
    (onTlb_live _).andThen fun _ => (Keeps.check _).andThen fun _ =>
    (onStats_live _).andThen fun _ => onPolicy_live _

/-! ## Copy-on-write -/

theorem virtualMemorySaveReader_live (writer : CowMapping) (page : PageData)
    (reader : CowMapping) :
    Keeps (World.TablesAre live) anyValue (virtualMemorySaveReader writer page reader) := by
  unfold virtualMemorySaveReader
  split
  · exact Keeps.done
  · exact (processGetPid_live _).andThen fun _ => (onSwap_live _).andThen fun _ =>
      (Keeps.check _).andThen fun _ => onStats_live _

theorem virtualMemoryDetachReader_live (writer : CowMapping) (f : Nat) (reader : CowMapping) :
    Keeps (World.TablesAre live) anyValue (virtualMemoryDetachReader writer f reader) := by
  unfold virtualMemoryDetachReader
  split
  · exact Keeps.done
  · exact (Keeps.failIf _).andThen fun _ => (processGetPageTable_live _).andThen fun table =>
      (onHeap_live (pageTableUnmap_live table _)).andThen fun _ =>
      (onCow_live _).andThen fun _ => (Keeps.check _).andThen fun _ =>
      (processGetPid_live _).andThen fun _ => (onTlb_live _).andThen fun _ => Keeps.done

theorem virtualMemoryEvictCowReadersForWrite_live (writer v f : Nat) (page : PageData) :
    Keeps (World.TablesAre live) anyValue
      (virtualMemoryEvictCowReadersForWrite writer v f page) := by
  refine Keeps.get.andThen fun w => (Keeps.failIf _).andThen fun _ => ?_
  have hlast : Keeps (World.TablesAre live) anyValue (do
      let w ← Comp.get
      Comp.failIf (cowManagerMappingCount w.memory.cowManager f ≠ 1)) :=
    Keeps.get.andThen fun _ => (Keeps.failIf _).any
  dsimp only
  split
  · exact Keeps.done
  · refine (onHeap_live allocate_live).andThen fun _ => (Keeps.failIf _).andThen fun _ =>
      (Keeps.forEach (virtualMemorySaveReader_live _ page) _).andThen fun _ =>
      (Keeps.forEach (virtualMemoryDetachReader_live _ f) _).andThen fun _ =>
      Keeps.get.andThen fun _ => ?_
    split
    · exact (virtualMemoryReassignFrameOwner_live f writer v).andThen fun _ => hlast
    · exact hlast

theorem virtualMemoryHandleCowWrite_live (p a v f : Nat) :
    Keeps (World.TablesAre live) anyValue (virtualMemoryHandleCowWrite p a v f) := by
  refine Keeps.get.andThen fun w => ?_
  split
  · exact Keeps.done
  · refine (Keeps.orFail _).andThen fun page => (processGetPid_live p).andThen fun pid =>
      (onPhysical_live _).andThen fun allocation => ?_
    cases allocation with
    | error code =>
      exact (Keeps.failIf _).andThen fun _ =>
        (virtualMemoryEvictCowReadersForWrite_live p v f page).andThen fun _ =>
        (onTlb_live _).andThen fun _ => (onTlb_live _).andThen fun _ =>
        (Keeps.check _).andThen fun _ => Keeps.done
    | ok g =>
      have hrelease : Keeps (World.TablesAre live) anyValue
          (onPhysical (physicalMemoryReleaseFrame · g)) := onPhysical_live _
      refine (onPhysical_live _).andThen fun code =>
        ((Keeps.check code).onFailure hrelease).andThen fun _ =>
        (processGetPageTable_live p).andThen fun table =>
        ((onHeap_live (pageTableMap_live table a g)).onFailure hrelease).andThen fun _ =>
        (onCow_live _).andThen fun _ => (Keeps.check _).andThen fun _ =>
        (cowAddMapping_live g p v).andThen fun _ => (onPolicy_live _).andThen fun _ =>
        (Keeps.check _).andThen fun _ => Keeps.get.andThen fun _ => ?_
      have hlast : Keeps (World.TablesAre live) anyValue (do
          let _ ← onTlb (tlbInvalidate · pid v)
          let code ← onTlb (tlbInsert · pid v g)
          Comp.check code
          return g) :=
        (onTlb_live _).andThen fun _ => (onTlb_live _).andThen fun _ =>
          (Keeps.check _).andThen fun _ => Keeps.done
      split
      · exact (virtualMemoryFindFrameUser_live f v p).andThen fun _ =>
          (Keeps.orFail _).andThen fun remaining =>
          (virtualMemoryReassignFrameOwner_live f remaining v).andThen fun _ => hlast
      · exact hlast

/-! ## Accesses -/

theorem virtualMemoryWritableFrame_live (p a v f : Nat) (isWrite : Bool) :
    Keeps (World.TablesAre live) anyValue (virtualMemoryWritableFrame p a v f isWrite) := by
  unfold virtualMemoryWritableFrame
  split
  · exact virtualMemoryHandleCowWrite_live p a v f
  · exact Keeps.done

theorem virtualMemoryAccessHit_live (p a v f : Nat) (isWrite : Bool) :
    Keeps (World.TablesAre live) anyValue (virtualMemoryAccessHit p a v f isWrite) :=
  (onStats_live _).andThen fun _ =>
    (virtualMemoryWritableFrame_live p a v f isWrite).andThen fun g =>
    virtualMemoryNotifyAccess_live g isWrite

theorem virtualMemoryAccessWalked_live (p : Nat) (pid : Int) (a v f : Nat) (isWrite : Bool) :
    Keeps (World.TablesAre live) anyValue (virtualMemoryAccessWalked p pid a v f isWrite) :=
  (virtualMemoryWritableFrame_live p a v f isWrite).andThen fun g =>
    (onTlb_live _).andThen fun _ => (Keeps.check _).andThen fun _ =>
    virtualMemoryNotifyAccess_live g isWrite

theorem virtualMemoryAccessFault_live (p : Nat) (pid : Int) (a v : Nat) (isWrite : Bool) :
    Keeps (World.TablesAre live) anyValue (virtualMemoryAccessFault p pid a v isWrite) := by
  refine (onStats_live _).andThen fun _ => (onPhysical_live _).andThen fun allocation => ?_
  cases allocation with
  | ok f =>
    exact (virtualMemoryLoadFreeFrame_live p a v f isWrite).attempt.andThen fun _ =>
      Keeps.get.andThen fun _ => Keeps.done
  | error code =>
    dsimp only
    split
    · exact (virtualMemoryReplacePage_live p a v isWrite).attempt.andThen fun _ =>
        Keeps.get.andThen fun _ => Keeps.done
    · exact Keeps.done

theorem virtualMemoryAccess_live (p a : Nat) (accessType : VirtualMemoryAccessType) :
    Keeps (World.TablesAre live) anyValue (virtualMemoryAccess p a accessType) := by
  have hcount : Keeps (World.TablesAre live) anyValue (virtualMemoryRegisterAccess accessType) :=
    onStats_live _
  refine (virtualMemoryRegisterProcess_live p).attempt.andThen fun registered => ?_
  split
  · exact Keeps.done
  · refine (processGetPageTable_live p).andThen fun table => hcount.andThen fun _ =>
      (processGetPid_live p).andThen fun pid => (onTlb_live _).andThen fun hit => ?_
    cases hit with
    | some f =>
      exact (virtualMemoryAccessHit_live p a _ f _).attempt.andThen fun _ => Keeps.done
    | none =>
      refine (onHeap_live (pageTableLookupWithLevels_live table a)).andThen fun (entry, levels) =>
        (onStats_live _).andThen fun _ => ?_
      cases entry with
      | some entry =>
        exact (virtualMemoryAccessWalked_live p pid a _ entry.frameNumber _).attempt.andThen
          fun _ => Keeps.done
      | none => exact virtualMemoryAccessFault_live p pid a _ _

theorem virtualMemoryReadByte_live (p a : Nat) :
    Keeps (World.TablesAre live) anyValue (virtualMemoryReadByte p a) :=
  (virtualMemoryAccess_live p a .read).andThen fun _ => (Keeps.failIf _).andThen fun _ =>
    (processGetPageTable_live p).andThen fun table =>
    (onHeap_live (pageTableLookup_live table a)).andThen fun _ => (Keeps.orFail _).andThen fun _ =>
    Keeps.get.andThen fun _ => (Keeps.orFail _).any

theorem virtualMemoryWriteByte_live (p a : Nat) (value : UInt8) :
    Keeps (World.TablesAre live) anyValue (virtualMemoryWriteByte p a value) :=
  (virtualMemoryAccess_live p a .write).andThen fun _ => (Keeps.failIf _).andThen fun _ =>
    (processGetPageTable_live p).andThen fun table =>
    (onHeap_live (pageTableLookup_live table a)).andThen fun _ => (Keeps.orFail _).andThen fun _ =>
    (onPhysical_live _).andThen fun _ => Keeps.check _

/-! ## Releases -/

theorem virtualMemoryReleaseFrame_live (p : Nat) (pid : Int) (table index : Nat) :
    Keeps (World.TablesAre live) anyValue (virtualMemoryReleaseFrame p pid table index) := by
  refine Keeps.get.andThen fun w => ?_
  split
  · exact Keeps.done
  · rename_i frame _
    split
    · exact Keeps.done
    · refine (onTlb_live _).andThen fun _ =>
        (onHeap_live (pageTableLookup_live table _)).andThen fun entry => ?_
      have hlast : ∀ _ : PUnit, Keeps (World.TablesAre live) anyValue (do
          let code ← onCow (cowManagerRemoveMapping · (toUint32 index) p frame.virtualPage)
          Comp.check code
          let w ← Comp.get
          if cowManagerMappingCount w.memory.cowManager (toUint32 index) = 0 then do
            let code ← onPolicy (replacementPolicyOnEvict · (toUint32 index))
            Comp.check code
            let code ← onPhysical (physicalMemoryReleaseFrame · (toUint32 index))
            Comp.check code
          else if frame.ownerProcess = some p then do
            let remaining ← virtualMemoryFindFrameUser (toUint32 index) frame.virtualPage p
            let remaining ← Comp.orFail remaining
            virtualMemoryReassignFrameOwner (toUint32 index) remaining frame.virtualPage
          else pure ()) := by
        refine fun _ => (onCow_live _).andThen fun _ => (Keeps.check _).andThen fun _ =>
          Keeps.get.andThen fun w' => ?_
        split
        · exact (onPolicy_live _).andThen fun _ => (Keeps.check _).andThen fun _ =>
            (onPhysical_live _).andThen fun _ => Keeps.check _
        · split
          · exact (virtualMemoryFindFrameUser_live _ _ p).andThen fun _ =>
              (Keeps.orFail _).andThen fun _ => virtualMemoryReassignFrameOwner_live _ _ _
          · exact Keeps.done
      dsimp only
      split
      · exact (onHeap_live (pageTableUnmap_live table _)).andThen hlast
      · exact hlast ()

theorem virtualMemoryReleaseProcess_live (p : Nat) :
    Keeps (World.TablesAre live) anyValue (virtualMemoryReleaseProcess p) := by
  refine (processGetPid_live p).andThen fun pid => (Keeps.failIf _).andThen fun _ =>
    (processGetPageTable_live p).andThen fun table => Keeps.get.andThen fun w =>
    (Keeps.forEach (virtualMemoryReleaseFrame_live p pid table) _).andThen fun _ =>
    (onTlb_live _).andThen fun _ => Keeps.get.andThen fun w' => ?_
  split
  · exact (onSwap_live _).andThen fun _ => virtualMemoryUnregisterProcess_live p
  · exact virtualMemoryUnregisterProcess_live p

/-! ## Forks -/

theorem virtualMemoryShareFrame_leads (parent child index : Nat) :
    Leads (World.TablesAre live) (virtualMemoryShareFrame parent child index)
      fun _ => World.TablesAre live := by
  refine Keeps.get.leads.bind fun w => Leads.given fun _ => ?_
  split
  · exact Leads.pure fun _ h => h
  · split
    · exact Leads.pure fun _ h => h
    · exact (cowAddMapping_live _ _ _).leads.onFailure.mono fun _ _ h => h.2

/-- What a fork does behind the creation of the child. -/
theorem virtualMemoryForkProcess_rest (parent child : Nat) :
    Leads (World.TablesAre live) (do
      Comp.onFailure (virtualMemoryRegisterProcess child) (onHeap (processDestroy child))
      let w ← Comp.get
      Comp.forEach (virtualMemoryShareFrame parent child)
        (List.range w.memory.physicalMemory.frameCount)
      let pid ← processGetPid parent
      let _ ← onTlb (tlbInvalidateProcess · pid)
      return child) fun _ => World.TablesAre live :=
  (virtualMemoryRegisterProcess_live child).leads.onFailure.bind fun _ => Leads.given fun _ =>
    Keeps.get.leads.bind fun _ => Leads.given fun _ =>
    (Leads.forEach (virtualMemoryShareFrame_leads parent child) _).bind fun _ =>
    (processGetPid_live parent).leads.bind fun _ => Leads.given fun _ =>
    (onTlb_live _).leads.bind fun _ => Leads.given fun _ => Leads.pure fun _ h => h

theorem virtualMemoryForkProcess_owned (h : w.Guarded) (hp : w.Alive p) (childPid : Int)
    (ho : w.heap.Owned) :
    Ends (virtualMemoryForkProcess p childPid) w fun _ w' => w'.heap.Owned := by
  by_cases hneg : childPid < 0
  · exact Ends.stop (decide_eq_true hneg) ho
  have hpid := Int.not_lt.mp hneg
  refine Ends.pass (decide_eq_false hneg) ?_
  obtain ⟨_, w₁, hregister, h₁, _⟩ := virtualMemoryRegisterProcess_sure h.plenty hp w h.toSteady
  have hlive₁ := (virtualMemoryRegisterProcess_live p).leads w _ w₁ (fun _ => rfl) hregister
  refine Ends.next hregister ?_
  have ho₁ : w₁.heap.Owned := ho.congr hlive₁.2 h₁.processes
  obtain ⟨x, hx⟩ := Heap.process_of_pid hp
  rw [← h₁.processes] at hx
  have hregistered := h.kept h₁
  obtain ⟨child, heap, hrun, rfl, hspawned⟩ := processFork_spec hregistered.sound hx hpid
  have hadd := processFork_leads p childPid w₁.heap _ heap (fun _ => rfl) hrun
  have hheap : heap.Owned := ho₁.spawned h₁.tame hpid hspawned hadd
  refine Ends.next (zoom_ok hrun) ?_
  obtain ⟨h₂, hlive⟩ := h₁.self.spawned hspawned
  have hparent : World.Alive { w₁ with heap := heap } p := hlive p (by rw [h₁.alive]; exact hp)
  have hchild : World.Alive { w₁ with heap := heap } w₁.heap.nextProcess := by
    show 0 ≤ heap.pid w₁.heap.nextProcess
    rw [hspawned.pid_eq, Function.update_self]
    exact hpid
  have hplenty := (hregistered.spawned hspawned).plenty
  have hrest : Sure (World.Steady { w₁ with heap := heap }) anyValue (do
      Comp.onFailure (virtualMemoryRegisterProcess w₁.heap.nextProcess)
        (onHeap (processDestroy w₁.heap.nextProcess))
      let w ← Comp.get
      Comp.forEach (virtualMemoryShareFrame p w₁.heap.nextProcess)
        (List.range w.memory.physicalMemory.frameCount)
      let pid ← processGetPid p
      let _ ← onTlb (tlbInvalidateProcess · pid)
      return w₁.heap.nextProcess) :=
    (virtualMemoryRegisterProcess_sure hplenty hchild).onFailure.andThen fun _ =>
      Sure.get.andThen fun w₃ =>
      (Sure.forEach (virtualMemoryShareFrame_sure hplenty hchild p) _).andThen fun _ =>
      (processGetPid_sure hparent).andThen fun pid =>
      ((onTlb_safe _).sure fun _ _ => ⟨_, _, rfl⟩).andThen fun _ => Sure.done
  obtain ⟨result, w', hend, hsteady, _⟩ := hrest _ h₂
  have hsame := virtualMemoryForkProcess_rest p w₁.heap.nextProcess { w₁ with heap := heap }
    result w' (fun _ => rfl) hend
  exact Ends.of_ok hend (hheap.congr hsame hsteady.processes)

/-! ## Runs -/

variable {call : Call} {reply : Reply} {n tlbEntries : Nat} {type : ReplacementPolicyType}
  {slots : Option Nat} {history : List (Call × Reply)}

theorem processCreate_owned (h : w.Guarded) (pid : Int) (ho : w.heap.Owned) :
    Ends (onHeap (processCreate pid)) w fun _ w' => w'.heap.Owned := by
  by_cases hneg : pid < 0
  · refine Ends.of_failed (zoom_failed (bind_failed ?_)) ho
    rw [decide_eq_true hneg]
    rfl
  · have hpid := Int.not_lt.mp hneg
    obtain ⟨q, heap, hrun, _, hspawned⟩ := processCreate_spec h.sound hpid
    have hadd := processCreate_leads pid w.heap q heap (fun _ => rfl) hrun
    exact Ends.of_ok (zoom_ok hrun) (ho.spawned h.tame hpid hspawned hadd)

/-- Calls with valid pointers leave no table without a process. -/
theorem World.Guarded.step_owned (h : w.Guarded) (hv : w.pager.Valid call) (ho : w.heap.Owned)
    (hstep : w.step call = some (reply, w')) : w'.heap.Owned := by
  have hreply : ∀ {α : Type} {c : Comp World α} (f : Option α → Reply),
      Ends c w (fun _ w' => w'.heap.Owned) → (c w).reply f = some (reply, w') →
        w'.heap.Owned := by
    intro α c f hends hrun
    obtain ⟨result, w₁, hrun₁, hend⟩ := hends.reply f
    rw [hrun] at hrun₁
    cases hrun₁
    exact hend
  have hkept : ∀ {α : Type} {c : Comp World α},
      Keeps (World.TablesAre fun t => (w.heap.tables t).isSome) anyValue c →
      Ends c w (fun _ w' => w'.heap.processes = w.heap.processes) →
        Ends c w (fun _ w' => w'.heap.Owned) := fun hkeeps hends =>
    (hkeeps.ends (fun _ => rfl) hends).mono fun _ _ hend => ho.congr hend.2 hend.1
  cases call with
  | createProcess pid => exact hreply .process (processCreate_owned h pid ho) hstep
  | access p a t =>
    exact hreply (fun r => .result (r.getD .internalError)) (hkept (virtualMemoryAccess_live p a t)
      ((virtualMemoryAccess_returns h hv.1 a t).ends fun _ _ hend => hend.processes)) hstep
  | readByte p a =>
    exact hreply .byte (hkept (virtualMemoryReadByte_live p a)
      ((virtualMemoryReadByte_ends h hv.1 a).mono fun _ _ hend => hend.processes)) hstep
  | writeByte p a value =>
    exact hreply (fun r => .status r.isSome) (hkept (virtualMemoryWriteByte_live p a value)
      ((virtualMemoryWriteByte_ends h hv.1 a value).mono fun _ _ hend => hend.processes)) hstep
  | fork p childPid => exact hreply .process (virtualMemoryForkProcess_owned h hv childPid ho) hstep
  | release p =>
    exact hreply (fun r => .status r.isSome) (hkept (virtualMemoryReleaseProcess_live p)
      (Ends.mono (virtualMemoryReleaseProcess_safe hv w h.toSteady)
        fun _ _ hend => hend.1.processes)) hstep

theorem World.Served.owned (h : World.Served n type tlbEntries slots history w) :
    w.heap.Owned := by
  obtain ⟨memory, hcreate, hrun⟩ := h
  have hboot : (World.boot memory).Guarded ∧ (World.boot memory).heap.Owned :=
    ⟨World.boot_guarded hcreate, fun _ ht => by cases ht⟩
  refine (Run.invariant (fun _ w => w.Guarded ∧ w.heap.Owned) hboot
    (fun _ w call reply w' hw hv hs => ?_) hrun).2
  obtain ⟨_, w₁, hstep, hguarded⟩ := hw.1.step hv
  rw [hs] at hstep
  cases hstep
  exact ⟨hguarded, hw.1.step_owned hv hw.2 hs⟩

end VmSim
