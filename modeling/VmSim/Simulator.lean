/-
VmSim.Simulator — the program (`src/main.c`).

A disk gives the text of each file; paths that are spelled differently
name different files. The swap file is one of them: it is made with the
memory, before the trace is opened, it holds what the replay has sent to
swap when the counters are exported, and it is removed with the memory,
unless the options keep it.

`SimulatorDevices` is what the operating system answers to the calls that
work on files, and to allocations. Of what is printed the model keeps the
counters.
-/
import VmSim.Cli
import VmSim.PageTable.Live
import VmSim.Trace.Replay
import VmSim.VirtualMemory.System

namespace VmSim

open Lib

/-! ## Files -/

/-- The text of each file, by its path. -/
abbrev Disk := List Char → Option (List Char)

/-- A file is written, or removed. -/
def Disk.put (disk : Disk) (path : List Char) (file : Option (List Char)) : Disk :=
  Function.update disk path file

@[simp] theorem Disk.put_same (disk : Disk) (path : List Char) (file : Option (List Char)) :
    disk.put path file path = file := Function.update_self ..

@[simp] theorem Disk.put_other {path other : List Char} (h : other ≠ path) (disk : Disk)
    (file : Option (List Char)) : disk.put path file other = disk other :=
  Function.update_of_ne h ..

/-- The bytes of the swap file as text. -/
def SwapFile.text (file : SwapFile) : List Char :=
  (List.range file.length).map fun position => Char.ofUInt8 (file.bytes position)

@[simp] theorem SwapFile.text_length (file : SwapFile) : file.text.length = file.length := by
  simp [SwapFile.text]

/-- The lines that `fgets` reads before it fails. -/
def traceLines : Nat → List Char → List Char
  | 0, _ => []
  | count + 1, file =>
    let line := fgetsLine (traceLineSize - 1) file
    line.1 ++ traceLines count line.2

/-! ## The swap file -/

/-- The answers of the operating system. `allocates` is whether there is
storage for the memory, `grants` whether there is for what the process and
its accesses take later, `swapFills` whether a new swap file gets its size,
`traceReads` how many lines of the trace are read if reading it fails, and
`csvKeeps` how many characters of an export that fails have reached its
file. -/
structure SimulatorDevices where
  allocates : Bool
  grants : Nat → Bool
  swapOpens : Bool
  swapFills : Bool
  swapReads : Bool
  swapWrites : Bool
  swapRemoves : Bool
  traceOpens : Bool
  traceReads : Option Nat
  csv : CsvDevice
  csvKeeps : Nat

/-- `remove` of the swap file. -/
def simulatorRemoveSwap (devices : SimulatorDevices) (options : CliArguments) (disk : Disk) :
    Disk :=
  if devices.swapRemoves then disk.put options.swapPath none else disk

def Swap.answering (swap : Swap) (readable writable : Bool) : Swap :=
  { swap with file := { swap.file with readable := readable, writable := writable } }

/-- The memory with a swap file that can be read and written as the devices
say. -/
def VirtualMemory.onDevices (memory : VirtualMemory) (devices : SimulatorDevices) :
    VirtualMemory :=
  { memory with swap := memory.swap.map (·.answering devices.swapReads devices.swapWrites) }

/-- The swap file holds what has been sent to swap. -/
def simulatorSaveSwap (options : CliArguments) (memory : VirtualMemory) (disk : Disk) : Disk :=
  match memory.swap with
  | some swap => disk.put options.swapPath (some swap.file.text)
  | none => disk

/-- The memory gets as far as its swap file, and that can be opened. -/
def simulatorOpensSwap (devices : SimulatorDevices) (options : CliArguments) : Bool :=
  devices.allocates && decide (options.swapSlots ≠ 0) &&
    (virtualMemoryCreateInternal options.frameCount options.policy options.tlbEntries none).isSome &&
      devices.swapOpens

/-- `virtual_memory_create_complete`, and the disk after it: opening the
swap file has emptied it, and if it cannot be filled it is removed. -/
def simulatorMemory (devices : SimulatorDevices) (options : CliArguments) (disk : Disk) :
    Option VirtualMemory × Disk :=
  if simulatorOpensSwap devices options then
    match virtualMemoryCreateComplete options.frameCount options.policy options.tlbEntries
      options.swapSlots with
    | some memory =>
      if devices.swapFills then
        (some (memory.onDevices devices),
          simulatorSaveSwap options memory (disk.put options.swapPath (some [])))
      else (none, simulatorRemoveSwap devices options (disk.put options.swapPath (some [])))
    | none => (none, simulatorRemoveSwap devices options (disk.put options.swapPath (some [])))
  else (none, disk)

/-! ## The program -/

def exitSuccess : Nat := 0

def exitFailure : Nat := 1

/-- The exit status, the processed accesses and the counters that
`print_simulation_results` prints, and the disk. -/
structure SimulatorResult where
  status : Nat
  reported : Option (Nat × VirtualMemoryStats)
  disk : Disk

/-- How the program ends, with the processes and page tables it leaves
allocated. -/
structure SimulatorExit extends SimulatorResult where
  heap : Heap

/-- What is read of the trace, if it can be opened. -/
def SimulatorDevices.readTrace (devices : SimulatorDevices) (file : Option (List Char)) :
    Option (List Char) :=
  if devices.traceOpens then
    match devices.traceReads with
    | some count => file.map (traceLines count)
    | none => file
  else none

/-- `trace_replay` with the trace that the devices read: where reading it
fails, the lines before have been replayed. -/
def simulatorReplay (devices : SimulatorDevices) (process : Nat) (file : Option (List Char)) :
    Comp Replay Unit := do
  traceReplay process (devices.readTrace file)
  Comp.failIf devices.traceReads.isSome

/-- The new memory, and no process yet. -/
def simulatorStart (devices : SimulatorDevices) (memory : VirtualMemory) : World :=
  ⟨memory, Heap.empty devices.grants⟩

def simulatorDestroyProcess (process : Nat) : Comp Replay Unit :=
  onWorld (onHeap (processDestroy process))

/-- The results are printed, and exported if the options name a file. -/
def simulatorExport (format : FixedFormat) (devices : SimulatorDevices) (options : CliArguments)
    (disk : Disk) (memory : VirtualMemory) (processedAccesses : Nat) : SimulatorResult :=
  let reported := some (processedAccesses, memory.stats)
  match options.csvPath with
  | some path =>
    match csvExportResult format devices.csv (disk path) (some path) (some options.toCliOptions)
      (some memory) processedAccesses options.csvAppend with
    | some text => ⟨exitSuccess, reported, disk.put path (some text)⟩
    | none =>
      ⟨exitFailure, reported, disk.put path (csvExportLeft format devices.csv devices.csvKeeps
        (disk path) path options.toCliOptions memory processedAccesses options.csvAppend)⟩
  | none => ⟨exitSuccess, reported, disk⟩

/-- `main` between the creation and the destruction of the memory. -/
def simulatorRun (format : FixedFormat) (devices : SimulatorDevices) (options : CliArguments)
    (disk : Disk) : Comp Replay SimulatorResult := do
  let created ← Comp.attempt (onWorld (onHeap (processCreate options.pid)))
  match created with
  | none => return ⟨exitFailure, none, disk⟩
  | some process => do
    let replayed ← Comp.attempt (simulatorReplay devices process (options.tracePath.bind disk))
    let s ← Comp.get
    let disk := simulatorSaveSwap options s.world.memory disk
    if replayed.isNone then do
      simulatorDestroyProcess process
      return ⟨exitFailure, none, disk⟩
    else do
      -- the process is destroyed whether the export succeeds or not
      let result := simulatorExport format devices options disk s.world.memory s.processedAccesses
      simulatorDestroyProcess process
      return result

/-- `swap_destroy` -/
def simulatorDestroySwap (devices : SimulatorDevices) (options : CliArguments) (disk : Disk) :
    Disk :=
  if options.removeSwapOnDestroy then simulatorRemoveSwap devices options disk else disk

/-- `main`, with options that hold anything; `none` is a run that touches
storage that is not allocated. -/
def simulatorMain (format : FixedFormat) (disk : Disk) (devices : SimulatorDevices)
    (argv : List (List Char)) (options : CliArguments) : Option SimulatorExit :=
  let heap := Heap.empty devices.grants
  let parsed := cliParse argv options
  if parsed.1 = 1 then some ⟨⟨exitSuccess, none, disk⟩, heap⟩
  else if parsed.1 ≠ 0 then some ⟨⟨exitFailure, none, disk⟩, heap⟩
  else
    match simulatorMemory devices parsed.2 disk with
    | (none, disk) => some ⟨⟨exitFailure, none, disk⟩, heap⟩
    | (some memory, disk) =>
      match simulatorRun format devices parsed.2 disk ⟨simulatorStart devices memory, 0⟩ with
      | .ok result s =>
        some ⟨{ result with disk := simulatorDestroySwap devices parsed.2 result.disk },
          s.world.heap⟩
      | _ => none

/-! ## Scripts -/

/-- A run of the program that a script starts; `stack` is what the options
hold before they are read. -/
structure Execution where
  argv : List (List Char)
  devices : SimulatorDevices
  stack : CliArguments

end VmSim
