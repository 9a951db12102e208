/-
VmSim.VirtualMemory.Pager — what the virtual memory does, without heap
and TLB.

A `Pager` is a `World` seen from outside: the trie heap is forgotten but
for the pid and the page map of every process, and the TLB is gone. Its
operations are total functions without error paths that cannot occur.
What the TLB contributed to a call (`TlbAnswers`) is a parameter: whether
the lookup hit, and whether the insertions were accepted.

`World.pager` is the abstraction function. `VmSim.VirtualMemory.Simulation`
proves that every call of the code is a step of this machine.
-/
import VmSim.VirtualMemory.System
import VmSim.PageTable.Processes

namespace VmSim

open Lib

/-! ## The state -/

structure Pager where
  physical : PhysicalMemory
  policy : ReplacementPolicy
  swap : Option Swap
  cow : CowManager
  processes : List Nat
  stats : VirtualMemoryStats
  pid : Nat → Int
  nextProcess : Nat
  mapped : Nat → Nat → Option Nat

/-- The counters that do not depend on the TLB. -/
def VirtualMemoryStats.untranslated (stats : VirtualMemoryStats) : VirtualMemoryStats :=
  { stats with tlbHits := 0, tlbMisses := 0, pageWalks := 0, pageWalkLevels := 0 }

def World.pager (w : World) : Pager where
  physical := w.memory.physicalMemory
  policy := w.memory.replacementPolicy
  swap := w.memory.swap
  cow := w.memory.cowManager
  processes := w.memory.processes
  stats := w.memory.stats.untranslated
  pid := w.heap.pid
  nextProcess := w.heap.nextProcess
  mapped := w.heap.mapped

/-- What the TLB answered during a call: the frame of the lookup, and
whether it took the translation of a page moved by a copy and the
translation recorded at the end. -/
structure TlbAnswers where
  hit : Option Nat
  moved : Bool
  recorded : Bool

/-! ## Frames -/

def Pager.register (s : Pager) (p : Nat) : Pager :=
  if s.processes.contains p then s else { s with processes := p :: s.processes }

/-- A free frame becomes the zero-filled home of a page. -/
def Pager.place (s : Pager) (p page f : Nat) : Pager :=
  { s with
    physical := { physicalFrameAssign s.physical f p (s.pid p) page with
      freeFrameCount := s.physical.freeFrameCount - 1 }
    policy := (replacementPolicyOnLoad s.policy f).2
    cow := cowManagerInsert s.cow f p page
    mapped := rebind s.mapped p page (some f) }

/-- A frame loses its only mapping and becomes free. -/
def Pager.vacate (s : Pager) (p page f : Nat) : Pager :=
  { s with
    physical := { physicalFrameReset s.physical f with
      freeFrameCount := s.physical.freeFrameCount + 1 }
    policy := (replacementPolicyOnEvict s.policy f).2
    cow := (cowManagerRemoveMapping s.cow f p page).2
    mapped := rebind s.mapped p page none }

/-- A shared frame loses one mapping. -/
def Pager.drop (s : Pager) (p page f : Nat) : Pager :=
  { s with
    cow := (cowManagerRemoveMapping s.cow f p page).2
    mapped := rebind s.mapped p page none }

def Pager.handOver (s : Pager) (f q : Nat) : Pager :=
  { s with physical := { s.physical with
      frames := Function.update s.physical.frames f
        { s.physical.frames f with ownerProcess := some q, ownerPid := s.pid q } } }

/-- The first other process that maps the frame. -/
def Pager.user (s : Pager) (p page f : Nat) : Option Nat :=
  s.processes.find? fun q => decide (q ≠ p) && (s.cow.frames f).contains ⟨q, page⟩

/-- A process gives up its mapping of a shared frame; another one becomes
the owner if it was the owner. -/
def Pager.detach (s : Pager) (p page f : Nat) : Pager :=
  if (s.physical.frames f).ownerProcess = some p then
    match s.user p page f with
    | some q => (s.drop p page f).handOver f q
    | none => s.drop p page f
  else s.drop p page f

/-- A process becomes the only user of a shared frame. -/
def Pager.exclude (s : Pager) (p page f : Nat) : Pager :=
  { s.handOver f p with
    cow := { s.cow with frames := Function.update s.cow.frames f [⟨p, page⟩] }
    mapped := fun q v => if q ≠ p ∧ s.mapped q v = some f then none else s.mapped q v }

def Pager.fill (s : Pager) (f : Nat) (page : PageData) : Pager :=
  { s with physical := { s.physical with data := Function.update s.physical.data f page } }

def Pager.touch (s : Pager) (f : Nat) (isWrite : Bool) : Pager :=
  { s with physical := { s.physical with
      frames := Function.update s.physical.frames f ((s.physical.frames f).touch isWrite) } }

def Pager.tick (s : Pager) : Pager := { s with policy := replacementPolicyTick s.policy }

/-- A resident page is accessed. -/
def Pager.notify (s : Pager) (f : Nat) (isWrite : Bool) : Pager :=
  { s.touch f isWrite with
    policy := replacementPolicyTick (replacementPolicyOnAccess s.policy f).2 }

/-! ## Swap -/

/-- A page goes to swap; `none` if there is no room. -/
def Pager.store (s : Pager) (pid : Int) (page : Nat) (data : PageData) : Option Pager :=
  match s.swap with
  | none => none
  | some swap =>
    if (swapWritePage swap pid page data).1 = 0 then
      some { s with
        swap := some (swapWritePage swap pid page data).2
        stats := { s.stats with swapWrites := increment s.stats.swapWrites } }
    else none

/-- A dirty victim is saved if there is a swap. -/
def Pager.saveVictim (s : Pager) (f : Nat) : Option Pager :=
  if !(s.physical.frames f).dirty ∨ s.swap.isNone then some s
  else s.store (s.physical.frames f).ownerPid (s.physical.frames f).virtualPage
    (s.physical.data f)

/-- One slot for every mapping but the writer's, as far as there is room. -/
def Pager.saveReaders (writer : CowMapping) (data : PageData) :
    List CowMapping → Pager → Bool × Pager
  | [], s => (true, s)
  | reader :: readers, s =>
    if reader = writer then Pager.saveReaders writer data readers s
    else
      match s.store (s.pid reader.process) reader.virtualPage data with
      | none => (false, s)
      | some s' => Pager.saveReaders writer data readers s'

/-- A page just placed is filled from its swap slot, which is given up. -/
def Pager.restore (s : Pager) (p page f : Nat) : Pager :=
  match s.swap with
  | none => s
  | some swap =>
    match swap.content (s.pid p) page with
    | none => s
    | some data =>
      { s.fill f data with
        swap := some (swapRemovePage { swap with reads := (swap.reads + 1) % wordSize }
          (s.pid p) page).2
        stats := { s.stats with swapReads := increment s.stats.swapReads } }

theorem Pager.restore_none {s : Pager} {p page : Nat}
    (h : ∀ swap, s.swap = some swap → swap.content (s.pid p) page = none) (f : Nat) :
    s.restore p page f = s := by
  unfold Pager.restore
  split
  · rfl
  · rename_i swap hswap
    rw [h swap hswap]

theorem Pager.restore_some {s : Pager} {p page : Nat} {swap : Swap} {data : PageData}
    (hswap : s.swap = some swap) (hc : swap.content (s.pid p) page = some data) (f : Nat) :
    s.restore p page f = { s.fill f data with
      swap := some (swapRemovePage { swap with reads := (swap.reads + 1) % wordSize }
        (s.pid p) page).2
      stats := { s.stats with swapReads := increment s.stats.swapReads } } := by
  unfold Pager.restore
  rw [hswap]
  simp only [hc]

/-! ## Accesses -/

def Pager.faultError (s : Pager) : VirtualMemoryAccessResult :=
  if s.swap.isSome then .swapError else .internalError

def Pager.load (s : Pager) (p page f : Nat) (isWrite : Bool) : Pager :=
  ((s.place p page f).restore p page f).touch f isWrite

/-- The page in a frame goes, whoever owns it. -/
def Pager.evict (s : Pager) (f : Nat) : Pager :=
  s.vacate ((s.physical.frames f).ownerProcess.getD 0) (s.physical.frames f).virtualPage f

def Pager.countReplacement (s : Pager) (dirty : Bool) : Pager :=
  { s with stats := { s.stats with
      replacements := increment s.stats.replacements
      dirtyEvictions := if dirty then increment s.stats.dirtyEvictions
        else s.stats.dirtyEvictions } }

/-- A page fault with no free frame. -/
def Pager.replace (s : Pager) (p page : Nat) (isWrite recorded : Bool) :
    VirtualMemoryAccessResult × Pager :=
  match replacementPolicyChooseVictim s.policy with
  | none => (s.faultError, s)
  | some (f, policy) =>
    let s := { s with policy := policy }
    if f = replacementInvalidFrame ∨ 1 < (s.cow.frames f).length then (s.faultError, s)
    else
      match s.saveVictim f with
      | none => (s.faultError, s)
      | some saved =>
        let loaded := (saved.evict f).load p page f isWrite
        if recorded then
          (.pageFault, (loaded.countReplacement (s.physical.frames f).dirty).tick)
        else (s.faultError, loaded)

def Pager.countFault (s : Pager) : Pager :=
  { s with stats := { s.stats with pageFaults := increment s.stats.pageFaults } }

def Pager.fault (s : Pager) (p page : Nat) (isWrite recorded : Bool) :
    VirtualMemoryAccessResult × Pager :=
  match s.physical.firstFree with
  | some f =>
    let loaded := s.countFault.load p page f isWrite
    if recorded then (.pageFault, loaded.tick) else (s.faultError, loaded)
  | none => s.countFault.replace p page isWrite recorded

/-- Copy-on-write: the frame to write to. A shared page is copied to a
free frame; where there is none, the other users are sent to swap. -/
def Pager.cowWrite (s : Pager) (p page f : Nat) (moved : Bool) : Option Nat × Pager :=
  if (s.cow.frames f).length ≤ 1 then (some f, s)
  else
    match s.physical.firstFree with
    | some g =>
      (if moved then some g else none,
        ((s.detach p page f).place p page g).fill g (s.physical.data f))
    | none =>
      if s.swap.isNone then (none, s)
      else
        match Pager.saveReaders ⟨p, page⟩ (s.physical.data f) (s.cow.frames f) s with
        | (false, s') => (none, s')
        | (true, s') => (if moved then some f else none, s'.exclude p page f)

/-- An access to a page that was found in frame `f`. -/
def Pager.resident (s : Pager) (p page f : Nat) (isWrite moved recorded : Bool) :
    VirtualMemoryAccessResult × Pager :=
  match if isWrite then s.cowWrite p page f moved else (some f, s) with
  | (none, s') => (.internalError, s')
  | (some g, s') => if recorded then (.ok, s'.notify g isWrite) else (.internalError, s')

def Pager.count (s : Pager) (isWrite : Bool) : Pager :=
  { s with stats := { s.stats with
      totalAccesses := increment s.stats.totalAccesses
      readAccesses := if isWrite then s.stats.readAccesses else increment s.stats.readAccesses
      writeAccesses := if isWrite then increment s.stats.writeAccesses
        else s.stats.writeAccesses } }

def Pager.access (s : Pager) (answers : TlbAnswers) (p page : Nat) (isWrite : Bool) :
    VirtualMemoryAccessResult × Pager :=
  let s := (s.register p).count isWrite
  match answers.hit with
  | some f => s.resident p page f isWrite answers.moved true
  | none =>
    match s.mapped p page with
    | some f => s.resident p page f isWrite answers.moved answers.recorded
    | none => s.fault p page isWrite answers.recorded

/-- The offset of an address as a position in its page. -/
def pageOffset (address : Nat) : Fin pageSize := ⟨addressOffset address, addressOffset_lt address⟩

def Pager.setByte (s : Pager) (f : Nat) (offset : Fin pageSize) (value : UInt8) : Pager :=
  s.fill f (Function.update (s.physical.data f) offset value)

def Pager.readByte (s : Pager) (answers : TlbAnswers) (p a : Nat) : Option UInt8 × Pager :=
  let (result, s) := s.access answers p (addressPageNumber a) false
  if result.isError then (none, s)
  else ((s.mapped p (addressPageNumber a)).map fun f => s.physical.data f (pageOffset a), s)

def Pager.writeByte (s : Pager) (answers : TlbAnswers) (p a : Nat) (value : UInt8) :
    Bool × Pager :=
  let (result, s) := s.access answers p (addressPageNumber a) true
  if result.isError then (false, s)
  else
    match s.mapped p (addressPageNumber a) with
    | none => (false, s)
    | some f => (true, s.setByte f (pageOffset a) value)

/-! ## Processes -/

def Pager.create (s : Pager) (pid : Int) : Option Nat × Pager :=
  if pid < 0 then (none, s)
  else (some s.nextProcess, { s with
    pid := Function.update s.pid s.nextProcess pid
    nextProcess := s.nextProcess + 1
    mapped := Function.update s.mapped s.nextProcess fun _ => none })

/-- The users of a frame after a child joined those its parent uses. -/
def Pager.joined (s : Pager) (p child f : Nat) : List CowMapping :=
  if ⟨p, (s.physical.frames f).virtualPage⟩ ∈ s.cow.frames f then
    ⟨child, (s.physical.frames f).virtualPage⟩ :: s.cow.frames f
  else s.cow.frames f

/-- The child maps what the parent maps. -/
def Pager.spawn (s : Pager) (p : Nat) (childPid : Int) : Pager :=
  { s with
    processes := s.nextProcess :: s.processes
    pid := Function.update s.pid s.nextProcess childPid
    nextProcess := s.nextProcess + 1
    mapped := Function.update s.mapped s.nextProcess (s.mapped p)
    cow := { s.cow with frames := s.joined p s.nextProcess } }

def Pager.fork (s : Pager) (p : Nat) (childPid : Int) : Option Nat × Pager :=
  if childPid < 0 then (none, s) else (some s.nextProcess, (s.register p).spawn p childPid)

def Pager.releaseFrame (s : Pager) (p f : Nat) : Pager :=
  if ⟨p, (s.physical.frames f).virtualPage⟩ ∈ s.cow.frames f then
    if (s.cow.frames f).length = 1 then s.vacate p (s.physical.frames f).virtualPage f
    else s.detach p (s.physical.frames f).virtualPage f
  else s

/-- What a process has in swap goes, and the process leaves the registry. -/
def Pager.forget (s : Pager) (p : Nat) : Pager :=
  { s with
    swap := s.swap.map fun swap => (swapRemoveProcess swap (s.pid p)).2
    processes := s.processes.erase p }

def Pager.releaseFrames (s : Pager) (p : Nat) (frames : List Nat) : Pager :=
  frames.foldl (fun s f => s.releaseFrame p f) s

def Pager.release (s : Pager) (p : Nat) : Pager :=
  (s.releaseFrames p (List.range s.physical.frameCount)).forget p

/-! ## Calls -/

def Pager.step (s : Pager) (answers : TlbAnswers) : Call → Reply × Pager
  | .createProcess pid => (.process (s.create pid).1, (s.create pid).2)
  | .access p a t =>
    let (result, s') := s.access answers p (addressPageNumber a) (decide (t = .write))
    (.result result, s')
  | .readByte p a => (.byte (s.readByte answers p a).1, (s.readByte answers p a).2)
  | .writeByte p a value =>
    (.status (s.writeByte answers p a value).1, (s.writeByte answers p a value).2)
  | .fork p childPid => (.process (s.fork p childPid).1, (s.fork p childPid).2)
  | .release p => (.status true, s.release p)

end VmSim
