/-
VmSim.VirtualMemory.System — the simulator as a transition system: a
state is a `World`, a label is one call of the public interface.

`step` runs a call and gives its reply; it is `none` only if the call
touches storage that is not allocated. `boot` is a fresh virtual memory
on an empty heap.
-/
import VmSim.VirtualMemory.Basic
import VmSim.Lib.Transition

namespace VmSim

open Lib

/-- One call of the public interface. -/
inductive Call where
  | createProcess (pid : Int)
  | access (process address : Nat) (accessType : VirtualMemoryAccessType)
  | readByte (process address : Nat)
  | writeByte (process address : Nat) (value : UInt8)
  | fork (parent : Nat) (childPid : Int)
  | release (process : Nat)
  deriving DecidableEq

/-- What a call returns: a process pointer (`none` for NULL), a result
code, a byte (`none` for -1), or whether the return code was 0. -/
inductive Reply where
  | process (pointer : Option Nat)
  | result (code : VirtualMemoryAccessResult)
  | byte (value : Option UInt8)
  | status (succeeded : Bool)
  deriving DecidableEq

def World.step (w : World) : Call → Option (Reply × World)
  | .createProcess pid => (onHeap (processCreate pid) w).reply .process
  | .access p a t =>
    (virtualMemoryAccess p a t w).reply fun r => .result (r.getD .internalError)
  | .readByte p a => (virtualMemoryReadByte p a w).reply .byte
  | .writeByte p a v => (virtualMemoryWriteByte p a v w).reply fun r => .status r.isSome
  | .fork p pid => (virtualMemoryForkProcess p pid w).reply .process
  | .release p => (virtualMemoryReleaseProcess p w).reply fun r => .status r.isSome

/-- A virtual memory just created, on an empty C heap whose allocations
all succeed. -/
def World.boot (memory : VirtualMemory) : World := ⟨memory, Heap.empty fun _ => true⟩

end VmSim
