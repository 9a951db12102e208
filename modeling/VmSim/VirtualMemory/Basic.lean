/-
VmSim.VirtualMemory.Basic — the virtual memory as the code has it
(`src/virtual_memory.c`).

A `World` is the `VirtualMemory` structure together with the C heap that
holds the processes and their page tables. Every function of the source
that can return -1 is a computation that can fail at the same point,
with everything it changed before that point kept; `Comp.check` is the
test `!= 0` on the return code of a component. `virtual_memory_access`
itself always returns, with one of its result codes.

The process and output pointers are never NULL here: a NULL argument
returns the error code at once and changes nothing.
-/
import VmSim.PageTable.Trie
import VmSim.Cow
import VmSim.Tlb
import VmSim.Swap
import VmSim.Replacement.Policy

namespace VmSim

open Lib

/-! ## The state -/

inductive VirtualMemoryAccessType where
  | read
  | write
  deriving DecidableEq

inductive VirtualMemoryAccessResult where
  | ok
  | pageFault
  | invalidArgument
  | noFreeFrame
  | internalError
  | swapError
  deriving DecidableEq

/-- The result code is negative. -/
def VirtualMemoryAccessResult.isError : VirtualMemoryAccessResult → Bool
  | .ok | .pageFault => false
  | _ => true

structure VirtualMemoryStats where
  totalAccesses : Nat
  readAccesses : Nat
  writeAccesses : Nat
  pageFaults : Nat
  replacements : Nat
  dirtyEvictions : Nat
  tlbHits : Nat
  tlbMisses : Nat
  pageWalks : Nat
  pageWalkLevels : Nat
  swapReads : Nat
  swapWrites : Nat
  deriving DecidableEq

/-- `counter++` on a `uint64_t`. -/
def increment (counter : Nat) : Nat := (counter + 1) % wordSize

structure VirtualMemory where
  physicalMemory : PhysicalMemory
  replacementPolicy : ReplacementPolicy
  tlb : Tlb
  swap : Option Swap
  cowManager : CowManager
  processes : List Nat
  stats : VirtualMemoryStats

structure World where
  memory : VirtualMemory
  heap : Heap

/-! ## Access to the parts of the state -/

def onHeap {α : Type} (c : Comp Heap α) : Comp World α :=
  Comp.zoom World.heap (fun w heap => { w with heap := heap }) c

def onPhysical {α : Type} (f : PhysicalMemory → α × PhysicalMemory) : Comp World α :=
  Comp.update (·.memory.physicalMemory)
    (fun w x => { w with memory := { w.memory with physicalMemory := x } }) f

def onPolicy {α : Type} (f : ReplacementPolicy → α × ReplacementPolicy) : Comp World α :=
  Comp.update (·.memory.replacementPolicy)
    (fun w x => { w with memory := { w.memory with replacementPolicy := x } }) f

def onTlb {α : Type} (f : Tlb → α × Tlb) : Comp World α :=
  Comp.update (·.memory.tlb) (fun w x => { w with memory := { w.memory with tlb := x } }) f

def onCow {α : Type} (f : CowManager → α × CowManager) : Comp World α :=
  Comp.update (·.memory.cowManager)
    (fun w x => { w with memory := { w.memory with cowManager := x } }) f

/-- A swap operation; it is only called where the swap is not NULL. -/
def onSwap {α : Type} (f : Swap → α × Swap) : Comp World α := fun w =>
  match w.memory.swap with
  | none => .fault
  | some swap => .ok (f swap).1 { w with memory := { w.memory with swap := some (f swap).2 } }

def onStats (f : VirtualMemoryStats → VirtualMemoryStats) : Comp World Unit :=
  Comp.modify fun w => { w with memory := { w.memory with stats := f w.memory.stats } }

def setProcesses (processes : List Nat) : Comp World Unit :=
  Comp.modify fun w => { w with memory := { w.memory with processes := processes } }

def processGetPid (process : Nat) : Comp World Int := do
  let p ← onHeap (readProcess process)
  return p.pid

def processGetPageTable (process : Nat) : Comp World Nat := do
  let p ← onHeap (readProcess process)
  return p.pageTable

/-- `cow_manager_add_mapping`. -/
def cowAddMapping (frameNumber process virtualPage : Nat) : Comp World Unit := do
  let w ← Comp.get
  Comp.failIf (frameNumber ≥ w.memory.cowManager.frameCount)
  if cowManagerHasMapping w.memory.cowManager frameNumber process virtualPage then pure ()
  else do
    onHeap allocate
    onCow fun manager => ((), cowManagerInsert manager frameNumber process virtualPage)

/-! ## The process registry -/

def virtualMemoryRegisterProcess (process : Nat) : Comp World Unit := do
  let w ← Comp.get
  if w.memory.processes.contains process then pure ()
  else do
    onHeap allocate
    setProcesses (process :: w.memory.processes)

def virtualMemoryUnregisterProcess (process : Nat) : Comp World Unit := do
  let w ← Comp.get
  setProcesses (w.memory.processes.erase process)

/-- The loop of `virtual_memory_find_frame_user` over the registry. -/
def virtualMemoryFindFrameUserIn (frameNumber virtualPage excluded : Nat) :
    List Nat → Comp World (Option Nat)
  | [] => pure none
  | candidate :: rest => do
    let w ← Comp.get
    if candidate = excluded ∨
        !cowManagerHasMapping w.memory.cowManager frameNumber candidate virtualPage then
      virtualMemoryFindFrameUserIn frameNumber virtualPage excluded rest
    else do
      let table ← processGetPageTable candidate
      let entry ← onHeap (pageTableLookup table (pageAddress virtualPage))
      if entry.any fun e => e.present && e.frameNumber == frameNumber then pure (some candidate)
      else virtualMemoryFindFrameUserIn frameNumber virtualPage excluded rest

def virtualMemoryFindFrameUser (frameNumber virtualPage excluded : Nat) :
    Comp World (Option Nat) := do
  let w ← Comp.get
  virtualMemoryFindFrameUserIn frameNumber virtualPage excluded w.memory.processes

def virtualMemoryReassignFrameOwner (frameNumber newOwner virtualPage : Nat) :
    Comp World Unit := do
  let w ← Comp.get
  let frame ← Comp.orFail (physicalMemoryGetFrame w.memory.physicalMemory frameNumber)
  Comp.failIf !frame.occupied
  let page ← Comp.orFail (physicalMemoryReadPage w.memory.physicalMemory frameNumber)
  let pid ← processGetPid newOwner
  let code ← onPhysical (physicalMemoryReplaceFrame · frameNumber newOwner pid virtualPage)
  Comp.check code
  let code ← onPhysical (physicalMemoryWritePage · frameNumber page)
  Comp.check code
  if frame.referenced || frame.dirty then do
    let code ← onPhysical (physicalMemoryMarkAccess · frameNumber frame.dirty)
    Comp.check code
  else pure ()

/-! ## Creation -/

def VirtualMemoryStats.zero : VirtualMemoryStats := ⟨0, 0, 0, 0, 0, 0, 0, 0, 0, 0, 0, 0⟩

/-- `virtual_memory_create_internal`, allocation and file creation
succeeding. `none` as slot count stands for a NULL path. -/
def virtualMemoryCreateInternal (frameCount : Nat) (policyType : ReplacementPolicyType)
    (tlbEntries : Nat) (swapSlots : Option Nat) : Option VirtualMemory := do
  let physicalMemory ← physicalMemoryCreate frameCount
  let replacementPolicy ← replacementPolicyCreate policyType frameCount
  let tlb ← tlbCreate tlbEntries
  let cowManager ← cowManagerCreate frameCount
  let swap ← match swapSlots with
    | none => some none
    | some slots => if slots > 0 then (swapCreate slots).map some else some none
  return ⟨physicalMemory, replacementPolicy, tlb, swap, cowManager, [], .zero⟩

def virtualMemoryCreateComplete (frameCount : Nat) (policyType : ReplacementPolicyType)
    (tlbEntries swapSlots : Nat) : Option VirtualMemory :=
  if swapSlots = 0 then none
  else virtualMemoryCreateInternal frameCount policyType tlbEntries (some swapSlots)

/-! ## Page faults -/

def virtualMemoryRegisterAccess (accessType : VirtualMemoryAccessType) : Comp World Unit :=
  onStats fun stats =>
    match accessType with
    | .read =>
      { stats with
        totalAccesses := increment stats.totalAccesses
        readAccesses := increment stats.readAccesses }
    | .write =>
      { stats with
        totalAccesses := increment stats.totalAccesses
        writeAccesses := increment stats.writeAccesses }

def virtualMemoryRestorePage (process virtualPage frameNumber : Nat) : Comp World Unit := do
  let w ← Comp.get
  match w.memory.swap with
  | none => pure ()
  | some swap => do
    let pid ← processGetPid process
    if !swapContainsPage swap pid virtualPage then pure ()
    else do
      let page ← onSwap (swapReadPage · pid virtualPage)
      let page ← Comp.orFail page.toOption
      let code ← onPhysical (physicalMemoryWritePage · frameNumber page)
      Comp.check code
      let code ← onSwap (swapRemovePage · pid virtualPage)
      Comp.check code
      onStats fun stats => { stats with swapReads := increment stats.swapReads }

def virtualMemorySaveVictim (victim : PhysicalFrame) (victimFrame : Nat) : Comp World Unit := do
  let w ← Comp.get
  if !victim.dirty ∨ w.memory.swap.isNone then pure ()
  else do
    let page ← Comp.orFail (physicalMemoryReadPage w.memory.physicalMemory victimFrame)
    let code ← onSwap (swapWritePage · victim.ownerPid victim.virtualPage page)
    Comp.check code
    onStats fun stats => { stats with swapWrites := increment stats.swapWrites }

def virtualMemoryNotifyAccess (frameNumber : Nat) (isWrite : Bool) : Comp World Unit := do
  let code ← onPhysical (physicalMemoryMarkAccess · frameNumber isWrite)
  Comp.check code
  let code ← onPolicy (replacementPolicyOnAccess · frameNumber)
  Comp.check code
  onPolicy fun policy => ((), replacementPolicyTick policy)

def virtualMemoryLoadFreeFrame (process virtualAddress virtualPage frameNumber : Nat)
    (isWrite : Bool) : Comp World Unit := do
  let table ← processGetPageTable process
  let releaseFrame := onPhysical (physicalMemoryReleaseFrame · frameNumber)
  let unmap := Comp.attempt (onHeap (pageTableUnmap table virtualAddress))
  let unshare := onCow (cowManagerRemoveMapping · frameNumber process virtualPage)
  Comp.onFailure (onHeap (pageTableMap table virtualAddress frameNumber)) releaseFrame
  Comp.onFailure (cowAddMapping frameNumber process virtualPage)
    (do let _ ← unmap; releaseFrame)
  let code ← onPolicy (replacementPolicyOnLoad · frameNumber)
  Comp.onFailure (Comp.check code) (do let _ ← unshare; let _ ← unmap; releaseFrame)
  Comp.onFailure (virtualMemoryRestorePage process virtualPage frameNumber)
    (do let _ ← onPolicy (replacementPolicyOnEvict · frameNumber)
        let _ ← unshare; let _ ← unmap; releaseFrame)
  let code ← onPhysical (physicalMemoryMarkAccess · frameNumber isWrite)
  Comp.check code
  let pid ← processGetPid process
  let code ← onTlb (tlbInsert · pid virtualPage frameNumber)
  Comp.check code
  onPolicy fun policy => ((), replacementPolicyTick policy)

def virtualMemoryReplacePage (newProcess newVirtualAddress newVirtualPage : Nat)
    (isWrite : Bool) : Comp World Unit := do
  let w ← Comp.get
  let (victimFrame, policy) ←
    Comp.orFault (replacementPolicyChooseVictim w.memory.replacementPolicy)
  onPolicy fun _ => ((), policy)
  Comp.failIf (victimFrame == replacementInvalidFrame)
  Comp.failIf (cowManagerMappingCount w.memory.cowManager victimFrame > 1)
  let victim ← Comp.orFail (physicalMemoryGetFrame w.memory.physicalMemory victimFrame)
  Comp.failIf !victim.occupied
  let oldProcess ← Comp.orFail victim.ownerProcess
  virtualMemorySaveVictim victim victimFrame
  let oldTable ← processGetPageTable oldProcess
  let newTable ← processGetPageTable newProcess
  onHeap (pageTableMap newTable newVirtualAddress victimFrame)
  let _ ← onTlb (tlbInvalidate · victim.ownerPid victim.virtualPage)
  Comp.onFailure (onHeap (pageTableUnmap oldTable (pageAddress victim.virtualPage)))
    (onHeap (pageTableUnmap newTable newVirtualAddress))
  let code ← onCow (cowManagerRemoveMapping · victimFrame oldProcess victim.virtualPage)
  Comp.check code
  let code ← onPolicy (replacementPolicyOnEvict · victimFrame)
  Comp.check code
  let pid ← processGetPid newProcess
  let code ← onPhysical (physicalMemoryReplaceFrame · victimFrame newProcess pid newVirtualPage)
  Comp.check code
  cowAddMapping victimFrame newProcess newVirtualPage
  let code ← onPolicy (replacementPolicyOnLoad · victimFrame)
  Comp.check code
  virtualMemoryRestorePage newProcess newVirtualPage victimFrame
  let code ← onPhysical (physicalMemoryMarkAccess · victimFrame isWrite)
  Comp.check code
  let code ← onTlb (tlbInsert · pid newVirtualPage victimFrame)
  Comp.check code
  onStats fun stats =>
    { stats with
      replacements := increment stats.replacements
      dirtyEvictions := if victim.dirty then increment stats.dirtyEvictions
        else stats.dirtyEvictions }
  onPolicy fun policy => ((), replacementPolicyTick policy)

/-! ## Copy-on-write -/

/-- The first loop of `virtual_memory_evict_cow_readers_for_write`: one
swap slot for every mapping but the writer's. -/
def virtualMemorySaveReader (writer : CowMapping) (page : PageData) (reader : CowMapping) :
    Comp World Unit := do
  if reader = writer then pure ()
  else do
    let pid ← processGetPid reader.process
    let code ← onSwap (swapWritePage · pid reader.virtualPage page)
    Comp.check code
    onStats fun stats => { stats with swapWrites := increment stats.swapWrites }

/-- Its second loop: every mapping but the writer's is taken away. -/
def virtualMemoryDetachReader (writer : CowMapping) (sourceFrame : Nat) (reader : CowMapping) :
    Comp World Unit := do
  if reader = writer then pure ()
  else do
    Comp.failIf (reader.virtualPage > (wordSize - 1) >>> pageOffsetBits)
    let table ← processGetPageTable reader.process
    onHeap (pageTableUnmap table (pageAddress reader.virtualPage))
    let code ← onCow
      (cowManagerRemoveMapping · sourceFrame reader.process reader.virtualPage)
    Comp.check code
    let pid ← processGetPid reader.process
    let _ ← onTlb (tlbInvalidate · pid reader.virtualPage)

def virtualMemoryEvictCowReadersForWrite (writer writerVirtualPage sourceFrame : Nat)
    (page : PageData) : Comp World Unit := do
  let w ← Comp.get
  Comp.failIf w.memory.swap.isNone
  let mappingCount := cowManagerMappingCount w.memory.cowManager sourceFrame
  if mappingCount ≤ 1 then pure ()
  else do
    onHeap allocate
    let mappings := cowManagerCollectFrameMappings w.memory.cowManager sourceFrame
    Comp.failIf (mappings.length ≠ mappingCount)
    Comp.forEach (virtualMemorySaveReader ⟨writer, writerVirtualPage⟩ page) mappings
    Comp.forEach (virtualMemoryDetachReader ⟨writer, writerVirtualPage⟩ sourceFrame) mappings
    let w ← Comp.get
    if (physicalMemoryGetFrame w.memory.physicalMemory sourceFrame).any
        fun source => source.ownerProcess ≠ some writer then
      virtualMemoryReassignFrameOwner sourceFrame writer writerVirtualPage
    else pure ()
    let w ← Comp.get
    Comp.failIf (cowManagerMappingCount w.memory.cowManager sourceFrame ≠ 1)

/-- `virtual_memory_handle_cow_write`: the frame to write to. -/
def virtualMemoryHandleCowWrite (process virtualAddress virtualPage sourceFrame : Nat) :
    Comp World Nat := do
  let w ← Comp.get
  if cowManagerMappingCount w.memory.cowManager sourceFrame ≤ 1 then return sourceFrame
  else do
    let page ← Comp.orFail (physicalMemoryReadPage w.memory.physicalMemory sourceFrame)
    let pid ← processGetPid process
    let allocation ← onPhysical (physicalMemoryAllocateFrame · process pid virtualPage)
    match allocation with
    | .error code => do
      Comp.failIf (code ≠ -2)
      virtualMemoryEvictCowReadersForWrite process virtualPage sourceFrame page
      let _ ← onTlb (tlbInvalidate · pid virtualPage)
      let code ← onTlb (tlbInsert · pid virtualPage sourceFrame)
      Comp.check code
      return sourceFrame
    | .ok newFrame => do
      let releaseFrame := onPhysical (physicalMemoryReleaseFrame · newFrame)
      let code ← onPhysical (physicalMemoryWritePage · newFrame page)
      Comp.onFailure (Comp.check code) releaseFrame
      let table ← processGetPageTable process
      Comp.onFailure (onHeap (pageTableMap table virtualAddress newFrame)) releaseFrame
      let code ← onCow (cowManagerRemoveMapping · sourceFrame process virtualPage)
      Comp.check code
      cowAddMapping newFrame process virtualPage
      let code ← onPolicy (replacementPolicyOnLoad · newFrame)
      Comp.check code
      let w ← Comp.get
      if (physicalMemoryGetFrame w.memory.physicalMemory sourceFrame).any
          fun source => source.ownerProcess = some process then do
        let remaining ← virtualMemoryFindFrameUser sourceFrame virtualPage process
        let remaining ← Comp.orFail remaining
        virtualMemoryReassignFrameOwner sourceFrame remaining virtualPage
      else pure ()
      let _ ← onTlb (tlbInvalidate · pid virtualPage)
      let code ← onTlb (tlbInsert · pid virtualPage newFrame)
      Comp.check code
      return newFrame

/-! ## Accesses -/

/-- The resident case of `virtual_memory_access`, shared by the TLB hit
and the page walk: a write first resolves copy-on-write. -/
def virtualMemoryWritableFrame (process virtualAddress virtualPage frameNumber : Nat)
    (isWrite : Bool) : Comp World Nat :=
  if isWrite then virtualMemoryHandleCowWrite process virtualAddress virtualPage frameNumber
  else pure frameNumber

/-- The result code of a failed page fault. -/
def virtualMemoryFaultError (w : World) : VirtualMemoryAccessResult :=
  if w.memory.swap.isSome then .swapError else .internalError

/-- `virtual_memory_access` after a TLB hit on `frameNumber`. -/
def virtualMemoryAccessHit (process virtualAddress virtualPage frameNumber : Nat)
    (isWrite : Bool) : Comp World Unit := do
  onStats fun stats => { stats with tlbHits := increment stats.tlbHits }
  let frame ← virtualMemoryWritableFrame process virtualAddress virtualPage frameNumber isWrite
  virtualMemoryNotifyAccess frame isWrite

/-- `virtual_memory_access` after a page walk that found `frameNumber`. -/
def virtualMemoryAccessWalked (process : Nat) (pid : Int)
    (virtualAddress virtualPage frameNumber : Nat) (isWrite : Bool) : Comp World Unit := do
  let frame ← virtualMemoryWritableFrame process virtualAddress virtualPage frameNumber isWrite
  let code ← onTlb (tlbInsert · pid virtualPage frame)
  Comp.check code
  virtualMemoryNotifyAccess frame isWrite

/-- `virtual_memory_access` on a page that is not resident. -/
def virtualMemoryAccessFault (process : Nat) (pid : Int) (virtualAddress virtualPage : Nat)
    (isWrite : Bool) : Comp World VirtualMemoryAccessResult := do
  onStats fun stats => { stats with pageFaults := increment stats.pageFaults }
  let allocation ← onPhysical (physicalMemoryAllocateFrame · process pid virtualPage)
  match allocation with
  | .ok frameNumber => do
    let loaded ← Comp.attempt
      (virtualMemoryLoadFreeFrame process virtualAddress virtualPage frameNumber isWrite)
    let w ← Comp.get
    return if loaded.isSome then .pageFault else virtualMemoryFaultError w
  | .error code =>
    if code = -2 then do
      let replaced ← Comp.attempt
        (virtualMemoryReplacePage process virtualAddress virtualPage isWrite)
      let w ← Comp.get
      return if replaced.isSome then .pageFault else virtualMemoryFaultError w
    else return .internalError

def virtualMemoryAccess (process virtualAddress : Nat) (accessType : VirtualMemoryAccessType) :
    Comp World VirtualMemoryAccessResult := do
  let registered ← Comp.attempt (virtualMemoryRegisterProcess process)
  if registered.isNone then return .internalError
  else do
    let table ← processGetPageTable process
    virtualMemoryRegisterAccess accessType
    let pid ← processGetPid process
    let virtualPage := addressPageNumber virtualAddress
    let isWrite := decide (accessType = .write)
    let hit ← onTlb (tlbLookup · pid virtualPage)
    match hit with
    | some frameNumber => do
      let done ← Comp.attempt
        (virtualMemoryAccessHit process virtualAddress virtualPage frameNumber isWrite)
      return if done.isSome then .ok else .internalError
    | none => do
      let (entry, levels) ← onHeap (pageTableLookupWithLevels table virtualAddress)
      onStats fun stats =>
        { stats with
          tlbMisses := increment stats.tlbMisses
          pageWalks := increment stats.pageWalks
          pageWalkLevels := (stats.pageWalkLevels + levels) % wordSize }
      match entry with
      | some entry => do
        let done ← Comp.attempt
          (virtualMemoryAccessWalked process pid virtualAddress virtualPage entry.frameNumber
            isWrite)
        return if done.isSome then .ok else .internalError
      | none => virtualMemoryAccessFault process pid virtualAddress virtualPage isWrite

def virtualMemoryReadByte (process virtualAddress : Nat) : Comp World UInt8 := do
  let result ← virtualMemoryAccess process virtualAddress .read
  Comp.failIf result.isError
  let table ← processGetPageTable process
  let entry ← onHeap (pageTableLookup table virtualAddress)
  let entry ← Comp.orFail entry
  let w ← Comp.get
  Comp.orFail (physicalMemoryReadByte w.memory.physicalMemory entry.frameNumber
    (addressOffset virtualAddress))

def virtualMemoryWriteByte (process virtualAddress : Nat) (value : UInt8) : Comp World Unit := do
  let result ← virtualMemoryAccess process virtualAddress .write
  Comp.failIf result.isError
  let table ← processGetPageTable process
  let entry ← onHeap (pageTableLookup table virtualAddress)
  let entry ← Comp.orFail entry
  let code ← onPhysical
    (physicalMemoryWriteByte · entry.frameNumber (addressOffset virtualAddress) value)
  Comp.check code

/-! ## Fork and release -/

/-- The loop body of `virtual_memory_fork_process`. -/
def virtualMemoryShareFrame (parent child index : Nat) : Comp World Unit := do
  let w ← Comp.get
  match physicalMemoryGetFrame w.memory.physicalMemory (toUint32 index) with
  | none => pure ()
  | some frame =>
    if !frame.occupied ∨ !cowManagerHasMapping w.memory.cowManager (toUint32 index) parent
        frame.virtualPage then pure ()
    else do
      Comp.onFailure (cowAddMapping (toUint32 index) child frame.virtualPage)
        (do virtualMemoryUnregisterProcess child; onHeap (processDestroy child))

/-- `virtual_memory_fork_process`: the child. -/
def virtualMemoryForkProcess (parent : Nat) (childPid : Int) : Comp World Nat := do
  Comp.failIf (childPid < 0)
  virtualMemoryRegisterProcess parent
  let child ← onHeap (processFork parent childPid)
  Comp.onFailure (virtualMemoryRegisterProcess child) (onHeap (processDestroy child))
  let w ← Comp.get
  Comp.forEach (virtualMemoryShareFrame parent child)
    (List.range w.memory.physicalMemory.frameCount)
  let pid ← processGetPid parent
  let _ ← onTlb (tlbInvalidateProcess · pid)
  return child

/-- The loop body of `virtual_memory_release_process`. -/
def virtualMemoryReleaseFrame (process : Nat) (pid : Int) (table index : Nat) :
    Comp World Unit := do
  let w ← Comp.get
  match physicalMemoryGetFrame w.memory.physicalMemory (toUint32 index) with
  | none => pure ()
  | some frame =>
    if !frame.occupied ∨ !cowManagerHasMapping w.memory.cowManager (toUint32 index) process
        frame.virtualPage then pure ()
    else do
      let _ ← onTlb (tlbInvalidate · pid frame.virtualPage)
      let entry ← onHeap (pageTableLookup table (pageAddress frame.virtualPage))
      if entry.any fun e => e.frameNumber = toUint32 index then
        onHeap (pageTableUnmap table (pageAddress frame.virtualPage))
      else pure ()
      let code ← onCow
        (cowManagerRemoveMapping · (toUint32 index) process frame.virtualPage)
      Comp.check code
      let w ← Comp.get
      if cowManagerMappingCount w.memory.cowManager (toUint32 index) = 0 then do
        let code ← onPolicy (replacementPolicyOnEvict · (toUint32 index))
        Comp.check code
        let code ← onPhysical (physicalMemoryReleaseFrame · (toUint32 index))
        Comp.check code
      else if frame.ownerProcess = some process then do
        let remaining ← virtualMemoryFindFrameUser (toUint32 index) frame.virtualPage process
        let remaining ← Comp.orFail remaining
        virtualMemoryReassignFrameOwner (toUint32 index) remaining frame.virtualPage
      else pure ()

def virtualMemoryReleaseProcess (process : Nat) : Comp World Unit := do
  let pid ← processGetPid process
  Comp.failIf (pid < 0)
  let table ← processGetPageTable process
  let w ← Comp.get
  Comp.forEach (virtualMemoryReleaseFrame process pid table)
    (List.range w.memory.physicalMemory.frameCount)
  let _ ← onTlb (tlbInvalidateProcess · pid)
  let w ← Comp.get
  if w.memory.swap.isSome then do
    let _ ← onSwap (swapRemoveProcess · pid)
  else pure ()
  virtualMemoryUnregisterProcess process

end VmSim
