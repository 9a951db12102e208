/-
VmSim.Cow — the copy-on-write manager: for every frame the list of
(process, page) mappings that use it (`src/cow.c`).

The singly linked list of a frame is a `List`, head first. The `calloc`
of a new list cell draws from the allocator of the C heap, so
`cow_manager_add_mapping` is split: `cowManagerInsert` links a cell that
was allocated, and the computation over the whole state that draws it is
`cowAddMapping` in `VmSim.VirtualMemory.Basic`.
-/
import Mathlib.Logic.Function.Basic

namespace VmSim

structure CowMapping where
  process : Nat
  virtualPage : Nat
  deriving DecidableEq

structure CowManager where
  frames : Nat → List CowMapping
  frameCount : Nat

def cowManagerCreate (frameCount : Nat) : Option CowManager :=
  if frameCount = 0 then none else some ⟨fun _ => [], frameCount⟩

def cowManagerHasMapping (manager : CowManager) (frameNumber process virtualPage : Nat) : Bool :=
  decide (frameNumber < manager.frameCount) &&
    (manager.frames frameNumber).contains ⟨process, virtualPage⟩

/-- Link a new cell at the head of the frame's list. -/
def cowManagerInsert (manager : CowManager) (frameNumber process virtualPage : Nat) : CowManager :=
  { manager with
    frames := Function.update manager.frames frameNumber
      (⟨process, virtualPage⟩ :: manager.frames frameNumber) }

def cowManagerRemoveMapping (manager : CowManager) (frameNumber process virtualPage : Nat) :
    Int × CowManager :=
  if cowManagerHasMapping manager frameNumber process virtualPage then
    (0, { manager with
      frames := Function.update manager.frames frameNumber
        ((manager.frames frameNumber).erase ⟨process, virtualPage⟩) })
  else (-1, manager)

def cowManagerMappingCount (manager : CowManager) (frameNumber : Nat) : Nat :=
  if frameNumber ≥ manager.frameCount then 0 else (manager.frames frameNumber).length

def cowManagerCollectFrameMappings (manager : CowManager) (frameNumber : Nat) : List CowMapping :=
  if frameNumber ≥ manager.frameCount then [] else manager.frames frameNumber

end VmSim
