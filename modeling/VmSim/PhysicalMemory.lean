/-
VmSim.PhysicalMemory — physical frames and their bytes
(`src/physical_memory.c`).

Frame numbers are `uint32_t` in the interfaces while the loops run over
`size_t` indices, so every `(uint32_t)index` of the source is written
`toUint32 index` here. A frame owner is a process pointer together with
the pid that `process_get_pid` reads from it at the time of the call.
-/
import VmSim.Address
import Mathlib.Data.List.Range
import Mathlib.Data.Finset.Card
import Mathlib.Data.Finset.Range

namespace VmSim

/-- The bytes of one page. -/
abbrev PageData := Fin pageSize → UInt8

def zeroPage : PageData := fun _ => 0

/-- The cast `(uint32_t)index`. -/
def toUint32 (index : Nat) : Nat := index % 2 ^ 32

structure PhysicalFrame where
  occupied : Bool
  dirty : Bool
  referenced : Bool
  ownerPid : Int
  ownerProcess : Option Nat
  virtualPage : Nat
  deriving DecidableEq

structure PhysicalMemory where
  frames : Nat → PhysicalFrame
  data : Nat → PageData
  frameCount : Nat
  freeFrameCount : Nat

/-- The frame that `physical_frame_reset` leaves. -/
def PhysicalFrame.free : PhysicalFrame := ⟨false, false, false, -1, none, 0⟩

/-- The frame that `physical_frame_assign` leaves. -/
def PhysicalFrame.assigned (owner : Nat) (ownerPid : Int) (virtualPage : Nat) :
    PhysicalFrame := ⟨true, false, false, ownerPid, some owner, virtualPage⟩

/-- Overwrite a frame's metadata and its bytes. -/
def PhysicalMemory.setFrame (memory : PhysicalMemory) (frameNumber : Nat)
    (frame : PhysicalFrame) (page : PageData) : PhysicalMemory :=
  { memory with
    frames := Function.update memory.frames frameNumber frame
    data := Function.update memory.data frameNumber page }

def physicalFrameReset (memory : PhysicalMemory) (frameNumber : Nat) : PhysicalMemory :=
  memory.setFrame frameNumber .free zeroPage

def physicalFrameAssign (memory : PhysicalMemory) (frameNumber : Nat) (owner : Nat)
    (ownerPid : Int) (virtualPage : Nat) : PhysicalMemory :=
  memory.setFrame frameNumber (.assigned owner ownerPid virtualPage) zeroPage

/-- The initialisation loop of `physical_memory_create`. -/
def physicalMemoryResetAll (memory : PhysicalMemory) : Nat → PhysicalMemory
  | 0 => memory
  | index + 1 => physicalFrameReset (physicalMemoryResetAll memory index) (toUint32 index)

/-- `physical_memory_create`, allocation succeeding. The frames and bytes
start out as `calloc` leaves them. -/
def physicalMemoryCreate (frameCount : Nat) : Option PhysicalMemory :=
  if frameCount = 0 ∨ frameCount > (wordSize - 1) / pageSize then none
  else some (physicalMemoryResetAll
    ⟨fun _ => ⟨false, false, false, 0, none, 0⟩, fun _ => zeroPage, frameCount, frameCount⟩
    frameCount)

/-- The first index whose frame is not occupied. -/
def PhysicalMemory.firstFree (memory : PhysicalMemory) : Option Nat :=
  (List.range memory.frameCount).find? fun index => !(memory.frames index).occupied

/-- `physical_memory_allocate_frame`: the frame number, or the error code. -/
def physicalMemoryAllocateFrame (memory : PhysicalMemory) (owner : Nat) (ownerPid : Int)
    (virtualPage : Nat) : Except Int Nat × PhysicalMemory :=
  if ownerPid < 0 then (.error (-1), memory)
  else if memory.freeFrameCount = 0 then (.error (-2), memory)
  else match memory.firstFree with
    | none => (.error (-2), memory)
    | some index =>
      (.ok (toUint32 index),
        { physicalFrameAssign memory (toUint32 index) owner ownerPid virtualPage with
          freeFrameCount := memory.freeFrameCount - 1 })

def physicalMemoryReplaceFrame (memory : PhysicalMemory) (frameNumber : Nat) (newOwner : Nat)
    (newOwnerPid : Int) (newVirtualPage : Nat) : Int × PhysicalMemory :=
  if frameNumber ≥ memory.frameCount ∨ newOwnerPid < 0 then (-1, memory)
  else if !(memory.frames frameNumber).occupied then (-1, memory)
  else (0, physicalFrameAssign memory frameNumber newOwner newOwnerPid newVirtualPage)

def physicalMemoryReleaseFrame (memory : PhysicalMemory) (frameNumber : Nat) :
    Int × PhysicalMemory :=
  if frameNumber ≥ memory.frameCount then (-1, memory)
  else if !(memory.frames frameNumber).occupied then (-1, memory)
  else (0, { physicalFrameReset memory frameNumber with
    freeFrameCount := memory.freeFrameCount + 1 })

/-- The bits that `physical_memory_mark_access` sets. -/
def PhysicalFrame.touch (frame : PhysicalFrame) (isWrite : Bool) : PhysicalFrame :=
  { frame with referenced := true, dirty := frame.dirty || isWrite }

def physicalMemoryMarkAccess (memory : PhysicalMemory) (frameNumber : Nat) (isWrite : Bool) :
    Int × PhysicalMemory :=
  if frameNumber ≥ memory.frameCount ∨ !(memory.frames frameNumber).occupied then (-1, memory)
  else (0, { memory with
    frames := Function.update memory.frames frameNumber
      ((memory.frames frameNumber).touch isWrite) })

def physicalMemoryGetFrame (memory : PhysicalMemory) (frameNumber : Nat) :
    Option PhysicalFrame :=
  if frameNumber ≥ memory.frameCount then none else some (memory.frames frameNumber)

def physicalMemoryReadPage (memory : PhysicalMemory) (frameNumber : Nat) : Option PageData :=
  if frameNumber ≥ memory.frameCount ∨ !(memory.frames frameNumber).occupied then none
  else some (memory.data frameNumber)

def physicalMemoryWritePage (memory : PhysicalMemory) (frameNumber : Nat) (page : PageData) :
    Int × PhysicalMemory :=
  if frameNumber ≥ memory.frameCount ∨ !(memory.frames frameNumber).occupied then (-1, memory)
  else (0, { memory with data := Function.update memory.data frameNumber page })

def physicalMemoryReadByte (memory : PhysicalMemory) (frameNumber offset : Nat) : Option UInt8 :=
  if frameNumber ≥ memory.frameCount then none
  else if h : offset < pageSize then
    if !(memory.frames frameNumber).occupied then none
    else some (memory.data frameNumber ⟨offset, h⟩)
  else none

def physicalMemoryWriteByte (memory : PhysicalMemory) (frameNumber offset : Nat) (value : UInt8) :
    Int × PhysicalMemory :=
  if frameNumber ≥ memory.frameCount then (-1, memory)
  else if h : offset < pageSize then
    if !(memory.frames frameNumber).occupied then (-1, memory)
    else (0, { memory with
      data := Function.update memory.data frameNumber
        (Function.update (memory.data frameNumber) ⟨offset, h⟩ value) })
  else (-1, memory)

/-! ## Frame numbers -/

theorem toUint32_of_lt {index : Nat} (h : index < 2 ^ 32) : toUint32 index = index :=
  Nat.mod_eq_of_lt h

/-! ## Free frames -/

/-- The unoccupied frames below the frame count. -/
def freeFrames (frames : Nat → PhysicalFrame) (frameCount : Nat) : Finset Nat :=
  (Finset.range frameCount).filter fun f => (frames f).occupied = false

theorem mem_freeFrames {frames : Nat → PhysicalFrame} {frameCount f : Nat} :
    f ∈ freeFrames frames frameCount ↔ f < frameCount ∧ (frames f).occupied = false := by
  simp [freeFrames]

theorem card_freeFrames_occupy {frames : Nat → PhysicalFrame} {frameCount f : Nat}
    {frame : PhysicalFrame} (hf : f < frameCount) (hfree : (frames f).occupied = false)
    (hocc : frame.occupied = true) :
    (freeFrames (Function.update frames f frame) frameCount).card =
      (freeFrames frames frameCount).card - 1 := by
  rw [← Finset.card_erase_of_mem (mem_freeFrames.mpr ⟨hf, hfree⟩)]
  congr 1
  ext g
  by_cases e : g = f <;> simp [mem_freeFrames, e, hocc]

theorem card_freeFrames_release {frames : Nat → PhysicalFrame} {frameCount f : Nat}
    {frame : PhysicalFrame} (hf : f < frameCount) (hocc : (frames f).occupied = true)
    (hfree : frame.occupied = false) :
    (freeFrames (Function.update frames f frame) frameCount).card =
      (freeFrames frames frameCount).card + 1 := by
  rw [← Finset.card_insert_of_notMem (a := f) (by simp [mem_freeFrames, hocc])]
  congr 1
  ext g
  by_cases e : g = f <;> simp [mem_freeFrames, e, hf, hfree]

theorem freeFrames_update {frames : Nat → PhysicalFrame} {frameCount f : Nat}
    {frame : PhysicalFrame} (h : frame.occupied = (frames f).occupied) :
    freeFrames (Function.update frames f frame) frameCount = freeFrames frames frameCount := by
  ext g
  by_cases e : g = f <;> simp [mem_freeFrames, e, h]

theorem PhysicalMemory.firstFree_some {memory : PhysicalMemory} {f : Nat}
    (h : memory.firstFree = some f) :
    f < memory.frameCount ∧ (memory.frames f).occupied = false := by
  have hmem := List.mem_of_find?_eq_some h
  have hfree := List.find?_some h
  exact ⟨List.mem_range.mp hmem, by simpa using hfree⟩

theorem PhysicalMemory.firstFree_none {memory : PhysicalMemory} (h : memory.firstFree = none)
    {f : Nat} (hf : f < memory.frameCount) : (memory.frames f).occupied = true := by
  have hall := List.find?_eq_none.mp h f (List.mem_range.mpr hf)
  simpa using hall

/-- With the free count right, allocation is decided by the search. -/
theorem physicalMemoryAllocateFrame_eq {memory : PhysicalMemory}
    (hn : memory.frameCount < 2 ^ 32)
    (hfree : memory.freeFrameCount = (freeFrames memory.frames memory.frameCount).card)
    (owner : Nat) {ownerPid : Int} (hpid : 0 ≤ ownerPid) (page : Nat) :
    physicalMemoryAllocateFrame memory owner ownerPid page =
      match memory.firstFree with
      | none => (.error (-2), memory)
      | some f => (.ok f, { physicalFrameAssign memory f owner ownerPid page with
          freeFrameCount := memory.freeFrameCount - 1 }) := by
  unfold physicalMemoryAllocateFrame
  rw [if_neg (Int.not_lt.mpr hpid)]
  cases h : memory.firstFree with
  | none => split <;> rfl
  | some f =>
    obtain ⟨hf, hocc⟩ := PhysicalMemory.firstFree_some h
    have hpos : memory.freeFrameCount ≠ 0 := by
      rw [hfree]
      exact Finset.card_ne_zero_of_mem (mem_freeFrames.mpr ⟨hf, hocc⟩)
    simp only [if_neg hpos, toUint32_of_lt (hf.trans hn)]

/-! ## Creation -/

theorem physicalMemoryResetAll_spec (memory : PhysicalMemory)
    (hdata : memory.data = fun _ => zeroPage) :
    ∀ n, n ≤ 2 ^ 32 →
      (physicalMemoryResetAll memory n).frames =
          (fun f => if f < n then .free else memory.frames f) ∧
        (physicalMemoryResetAll memory n).data = (fun _ => zeroPage) ∧
        (physicalMemoryResetAll memory n).frameCount = memory.frameCount ∧
        (physicalMemoryResetAll memory n).freeFrameCount = memory.freeFrameCount
  | 0, _ => ⟨by simp [physicalMemoryResetAll], hdata, rfl, rfl⟩
  | n + 1, hn => by
      obtain ⟨hframes, hd, hc, hfree⟩ :=
        physicalMemoryResetAll_spec memory hdata n (Nat.le_of_succ_le hn)
      simp only [physicalMemoryResetAll, physicalFrameReset, PhysicalMemory.setFrame, hframes, hd,
        toUint32_of_lt (Nat.lt_of_succ_le hn)]
      refine ⟨?_, ?_, hc, hfree⟩
      · funext f
        by_cases e : f = n
        · simp [e]
        · rw [Function.update_of_ne e]
          by_cases hlt : f < n
          · rw [if_pos hlt, if_pos (by omega)]
          · rw [if_neg hlt, if_neg (by omega)]
      · funext f
        by_cases e : f = n <;> simp [e]

/-- A fresh physical memory: every frame free and zero-filled. -/
theorem physicalMemoryCreate_spec {frameCount : Nat} {memory : PhysicalMemory}
    (h : physicalMemoryCreate frameCount = some memory) (hn : frameCount < 2 ^ 32) :
    (∀ f, f < frameCount → memory.frames f = .free) ∧
      (∀ f, (memory.frames f).occupied = false) ∧ (∀ f, (memory.frames f).dirty = false) ∧
      memory.data = (fun _ => zeroPage) ∧ memory.frameCount = frameCount ∧
      memory.freeFrameCount = frameCount ∧ 0 < frameCount := by
  unfold physicalMemoryCreate at h
  split at h
  · cases h
  · rename_i hcond
    cases h
    obtain ⟨hframes, hdata, hc, hfree⟩ := physicalMemoryResetAll_spec
      ⟨fun _ => ⟨false, false, false, 0, none, 0⟩, fun _ => zeroPage, frameCount, frameCount⟩
      rfl frameCount hn.le
    rw [hframes]
    refine ⟨fun f hf => if_pos hf, fun f => ?_, fun f => ?_, hdata, hc, hfree, by omega⟩
    · dsimp only
      split <;> rfl
    · dsimp only
      split <;> rfl

end VmSim
