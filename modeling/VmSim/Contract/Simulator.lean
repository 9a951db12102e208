/-
VmSim.Contract.Simulator — the program as a whole.

A run of the program reads the command line, creates the memory with its
swap file and a process, replays the trace, exports the counters and gives
everything back. Two files can be different afterwards, the swap file and
the one it exports to.
-/
import VmSim.Contract.CsvExport
import VmSim.SimulatorRuns

namespace VmSim

open Lib

variable {format : FixedFormat} {disk disk' disk'' : Disk} {devices : SimulatorDevices}
  {argv : List (List Char)} {before options : CliArguments} {exit : SimulatorExit}
  {memory : VirtualMemory} {file path : List Char} {entries entries' : List TraceEntry}
  {last last' : TraceResult} {result : SimulatorResult} {w : World} {processed : Nat}

/-! ## Every run -/

/-- What a run can have done to the files that are not its swap file. The
file it exports to is as it was, or has a part of one record more than the
mode keeps of it; it has the whole record if the run succeeds. -/
structure SimulatorResult.Leaves (result : SimulatorResult) (format : FixedFormat)
    (options : CliArguments) (disk : Disk) : Prop where
  status : result.status = exitSuccess ∧ result.reported.isSome = true ∨
    result.status = exitFailure
  others : ∀ path, path ≠ options.swapPath → options.csvPath ≠ some path →
    result.disk path = disk path
  csv : ∀ path, path ≠ options.swapPath → options.csvPath = some path →
    (result.status = exitFailure ∧ result.disk path = disk path) ∨
    ∃ (memory : VirtualMemory) (processed : Nat) (written : List Char),
      result.reported = some (processed, memory.stats) ∧
      result.disk path = some (csvKept (disk path) options.csvAppend ++ written) ∧
      written <+: csvWritten format (disk path) options.toCliOptions memory processed
        options.csvAppend ∧
      (result.status = exitSuccess → written = csvWritten format (disk path) options.toCliOptions
        memory processed options.csvAppend)

/-- A run that ends before the export. -/
theorem SimulatorResult.leaves_failed
    (hothers : ∀ path, path ≠ options.swapPath → disk' path = disk path) :
    (SimulatorResult.mk exitFailure none disk').Leaves format options disk :=
  ⟨Or.inr rfl, fun path hne _ => hothers path hne, fun path hne _ => Or.inl ⟨rfl, hothers path hne⟩⟩

theorem simulatorExport_leaves (format : FixedFormat) (devices : SimulatorDevices)
    (options : CliArguments) (disk : Disk) (memory : VirtualMemory) (processed : Nat) :
    (simulatorExport format devices options disk memory processed).Leaves format options disk := by
  refine ⟨?_, fun path _ hother => simulatorExport_other hother, fun path _ hpath => ?_⟩
  · rw [simulatorExport_reported]
    exact (simulatorExport_status format devices options disk memory processed).imp
      (fun h => ⟨h, rfl⟩) id
  · rcases simulatorExport_left hpath with hsame | ⟨written, htext, hprefix, hall⟩
    · exact Or.inl hsame
    · exact Or.inr ⟨memory, processed, written, simulatorExport_reported _ _ _ _ _ _, htext,
        hprefix, hall⟩

/-- Before the run and after it, only the swap file is another one. -/
theorem SimulatorResult.Leaves.around (h : result.Leaves format options disk')
    (hbefore : ∀ path, path ≠ options.swapPath → disk' path = disk path)
    (hafter : ∀ path, path ≠ options.swapPath → disk'' path = result.disk path) :
    { result with disk := disk'' }.Leaves format options disk := by
  refine ⟨h.status, fun path hne hother => ?_, fun path hne hpath => ?_⟩
  · exact (hafter path hne).trans ((h.others path hne hother).trans (hbefore path hne))
  · have hcsv := h.csv path hne hpath
    rw [hbefore path hne, ← hafter path hne] at hcsv
    exact hcsv

/-- With a process or without one, and with a trace or without one. -/
theorem simulatorRun_ends (hnew : (simulatorStart devices memory).Orderly) (hpid : 0 ≤ options.pid)
    (format : FixedFormat) (hswap : (disk options.swapPath).isSome = true) :
    ∃ result w processed, SimulatorRan format devices options disk memory result w processed ∧
      result.Leaves format options disk ∧ (options.csvPath ≠ some options.swapPath →
        (result.disk options.swapPath).isSome = true) := by
  have hsaved : ∀ memory, (simulatorSaveSwap options memory disk options.swapPath).isSome = true :=
    fun memory => simulatorSaveSwap_isSome hswap
  by_cases hg : (Heap.empty devices.grants).Grants 4
  swap
  · exact ⟨_, _, 0, simulatorRun_unlaunched format disk hg hpid,
      SimulatorResult.leaves_failed fun _ _ => rfl, fun _ => hswap⟩
  obtain ⟨start, hstart⟩ := simulatorStart_launched hnew hg hpid
  cases hfile : devices.readTrace (options.tracePath.bind disk) with
  | none =>
    exact ⟨_, start, 0, simulatorRun_closed format hstart hfile,
      SimulatorResult.leaves_failed fun _ hne => simulatorSaveSwap_other hne,
      fun _ => hsaved memory⟩
  | some file =>
    obtain ⟨entries, last, results, w, _, _, _, hran⟩ :=
      simulatorRun_replayed format hstart hfile
    cases haccepts : replayAccepts entries last results && devices.traceReads.isNone with
    | true =>
      rw [haccepts, if_pos rfl] at hran
      refine ⟨_, w, _, hran, ?_, fun hother => ?_⟩
      · exact (simulatorExport_leaves _ _ _ _ _ _).around
          (fun _ hne => simulatorSaveSwap_other hne) fun _ _ => rfl
      · rw [simulatorExport_other hother]
        exact hsaved w.memory
    | false =>
      rw [haccepts, if_neg Bool.false_ne_true] at hran
      exact ⟨_, w, _, hran, SimulatorResult.leaves_failed fun _ hne => simulatorSaveSwap_other hne,
        fun _ => hsaved w.memory⟩

/-- Whether there is a swap file after a run that opened it. -/
def CliArguments.leavesSwap (options : CliArguments) (devices : SimulatorDevices) (disk : Disk) :
    Bool :=
  !devices.swapRemoves ||
    ((simulatorMemory devices options disk).1.isSome && !options.removeSwapOnDestroy)

/-- The run that `main` makes with the options. -/
theorem simulatorMain_leaves (hparse : cliParse argv before = (0, options)) (format : FixedFormat)
    (disk : Disk) (devices : SimulatorDevices) :
    ∃ exit, simulatorMain format disk devices argv before = some exit ∧ exit.heap.AllFree ∧
      exit.Leaves format options disk ∧
      (simulatorOpensSwap devices options = false → exit.disk = disk ∧ exit.reported = none) ∧
      (simulatorOpensSwap devices options = true → options.csvPath ≠ some options.swapPath →
        (exit.disk options.swapPath).isSome = options.leavesSwap devices disk) := by
  cases hmemory : (simulatorMemory devices options disk).1 with
  | none =>
    refine ⟨_, simulatorMain_none hparse hmemory, Heap.allFree_empty _,
      SimulatorResult.leaves_failed fun _ hne => simulatorMemory_other hne, fun hclosed => ?_,
      fun hopens _ => ?_⟩
    · rw [simulatorMemory_closed hclosed]
      exact ⟨rfl, rfl⟩
    · show ((simulatorMemory devices options disk).2 options.swapPath).isSome = _
      rw [simulatorMemory_isSome hopens, CliArguments.leavesSwap, hmemory]
      simp
  | some memory =>
    obtain ⟨_, _, _, hopens, _⟩ := simulatorMemory_some hmemory
    have hswap : ((simulatorMemory devices options disk).2 options.swapPath).isSome = true := by
      rw [simulatorMemory_isSome hopens, hmemory]
      rfl
    obtain ⟨result, w, processed, hran, hleaves, hkept⟩ := simulatorRun_ends
      (simulatorStart_orderly hmemory) (cliParse_valid hparse).pid.1 format hswap
    obtain ⟨heap, hfree, hmain⟩ := simulatorMain_ran hparse hmemory hran
    refine ⟨_, hmain, hfree, hleaves.around (fun _ hne => simulatorMemory_other hne)
      fun _ hne => simulatorDestroySwap_other hne, fun hclosed => ?_, fun _ hother => ?_⟩
    · rw [hopens] at hclosed
      cases hclosed
    · show (simulatorDestroySwap devices options result.disk options.swapPath).isSome = _
      rw [simulatorDestroySwap_isSome (hkept hother), CliArguments.leavesSwap, hmemory]
      simp [Bool.or_comm]

/-- **The program always ends**, with one of its two exit statuses, and
gives back all processes and page tables, whichever of its allocations
fail; it never touches storage that is not allocated. Of the files it
changes only the swap file, which it leaves if it was asked to or cannot
remove it, and the file it exports to. -/
theorem simulatorMain_ends (format : FixedFormat) (disk : Disk) (devices : SimulatorDevices)
    (argv : List (List Char)) (before : CliArguments) :
    ∃ exit, simulatorMain format disk devices argv before = some exit ∧ exit.heap.AllFree ∧
      (exit.status = exitSuccess ∨ exit.status = exitFailure) ∧
      ((cliParse argv before).1 ≠ 0 → exit.disk = disk ∧ exit.reported = none) ∧
      ((cliParse argv before).1 = 0 →
        exit.Leaves format (cliParse argv before).2 disk ∧
        (simulatorOpensSwap devices (cliParse argv before).2 = false →
          exit.disk = disk ∧ exit.reported = none) ∧
        (simulatorOpensSwap devices (cliParse argv before).2 = true →
          (cliParse argv before).2.csvPath ≠ some (cliParse argv before).2.swapPath →
          (exit.disk (cliParse argv before).2.swapPath).isSome =
            (cliParse argv before).2.leavesSwap devices disk)) := by
  cases hparse : cliParse argv before with
  | mk code options =>
    by_cases hhelp : code = 1
    · refine ⟨⟨⟨exitSuccess, none, disk⟩, Heap.empty devices.grants⟩, ?_, Heap.allFree_empty _,
        Or.inl rfl, fun _ => ⟨rfl, rfl⟩, fun hzero => ?_⟩
      · simp [simulatorMain, hparse, hhelp]
      · subst hhelp
        cases hzero
    · by_cases hzero : code = 0
      · subst hzero
        obtain ⟨exit, hmain, hfree, hleaves, hclosed, hswap⟩ :=
          simulatorMain_leaves hparse format disk devices
        exact ⟨exit, hmain, hfree, hleaves.status.imp_left And.left, fun hne => absurd rfl hne,
          fun _ => ⟨hleaves, hclosed, hswap⟩⟩
      · refine ⟨⟨⟨exitFailure, none, disk⟩, Heap.empty devices.grants⟩, ?_, Heap.allFree_empty _,
          Or.inr rfl, fun _ => ⟨rfl, rfl⟩, fun hcode => absurd hcode hzero⟩
        simp [simulatorMain, hparse, hhelp, hzero]

/-! ## Exit statuses -/

/-- A replay on pages that are few enough: no access fails, and the result
depends on how the trace ends. -/
theorem simulatorRun_few (format : FixedFormat) (devices : SimulatorDevices) {n tlbEntries : Nat}
    {type : ReplacementPolicyType} {slots : Option Nat}
    (h : virtualMemoryCreateInternal n type tlbEntries slots = some memory)
    (hworks : devices.Works) (hpid : 0 ≤ options.pid) (hn : n < 2 ^ 32)
    (hfile : options.tracePath.bind disk = some file)
    (hdelivers : Delivers file entries last) (hbelow : EntriesBelow entries)
    (hfew : (traceAccesses entries).length < 2 ^ 62)
    (hpages : ∀ count, slots = some count → (accessPages (traceAccesses entries)).card < n + count) :
    ∃ (w : World) (history : List (Call × Reply)),
      w.Ran n type tlbEntries slots (traceAccesses entries) history ∧
      TraceMetrics n (traceAccesses entries) w.memory.stats ∧
      SimulatorRan format devices options disk memory
        (if last = .endOfFile then
          simulatorExport format devices options (simulatorSaveSwap options w.memory disk) w.memory
            (traceAccesses entries).length
        else ⟨exitFailure, none, simulatorSaveSwap options w.memory disk⟩) w
        (traceAccesses entries).length := by
  have hg : (Heap.empty devices.grants).Grants 4 := fun _ _ => hworks.grants _
  obtain ⟨start, hlaunched⟩ := simulatorStart_launched (World.new_orderly h _) hg hpid
  obtain ⟨entries', last', results, w, hdelivers', hwf, hperforms, hran⟩ :=
    simulatorRun_replayed format hlaunched ((hworks.readTrace _).trans hfile)
  have hstart := hlaunched.started hworks h hpid
  obtain ⟨rfl, rfl⟩ := hdelivers.unique hdelivers'
  have hbounds := hbelow.accesses_lt hwf
  have hok : anyFailed results = false := by
    refine hperforms.succeeds hstart.replaying hn hbounds ?_
      (accessPages (traceAccesses entries)) (fun key hkey => by cases hkey)
      (fun call hcall => mem_accessPages.mpr ⟨call, hcall, rfl⟩) fun count hcount _ =>
        hpages count hcount
    have hnone : accesses [(Call.createProcess options.pid, Reply.process (some 0))] = 0 := rfl
    omega
  have haccepts : (replayAccepts entries last results && devices.traceReads.isNone) =
      decide (last = .endOfFile) := by
    simp [replayAccepts, hbelow.fits, hok, hworks.traceReads]
  rw [haccepts, hperforms.succeededCount_eq hok hfew] at hran
  simp only [decide_eq_true_eq] at hran
  exact ⟨w, _, hperforms.ran hstart hbounds hok,
    hperforms.metrics hstart hn hbounds hfew hok, hran⟩

/-- The export of a run succeeds, and leaves its text in the file. -/
def SimulatorExit.Exports (exit : SimulatorExit) (format : FixedFormat) (disk : Disk)
    (devices : SimulatorDevices) (options : CliArguments) (memory : VirtualMemory)
    (processed : Nat) : Prop :=
  ∀ path, options.csvPath = some path → ∃ text,
    csvExportResult format devices.csv (disk path) (some path) (some options.toCliOptions)
      (some memory) processed options.csvAppend = some text ∧ exit.disk path = some text

/-- Only the file it exports to decides how a run ends. -/
theorem simulatorExport_exports (heap : Heap) (hcsv : options.csvPath ≠ some options.swapPath)
    (hsame : ∀ path, path ≠ options.swapPath → disk' path = disk path) :
    (simulatorExport format devices options disk' memory processed).status = exitSuccess ↔
      (SimulatorExit.mk { simulatorExport format devices options disk' memory processed with
        disk := simulatorDestroySwap devices options
          (simulatorExport format devices options disk' memory processed).disk } heap).Exports
        format disk devices options memory processed := by
  rw [simulatorExport_success]
  refine forall₂_congr fun path hpath => ?_
  have hne : path ≠ options.swapPath := fun e => hcsv (e ▸ hpath)
  show _ ↔ ∃ text, _ ∧ simulatorDestroySwap _ _ _ path = some text
  rw [hsame path hne, simulatorDestroySwap_other hne]

/-- **The exit status tells well-formed traces from others.** If the memory
is created, later allocations succeed, the trace and the swap file can be
read and written, the swap file is neither the trace nor the file of the
export, and the pages of the trace are fewer than the frames and the
slots, a trace on addresses below `2 ^ 48` makes the program fail only
by a line that is not an entry; apart from that, only the export can fail.
The counters it prints are those of the trace. -/
theorem simulatorMain_status (hparse : cliParse argv before = (0, options))
    (hmemory : (simulatorMemory devices options disk).1 = some memory)
    (hworks : devices.Works) (hn : options.frameCount < 2 ^ 32)
    (htrace : options.tracePath ≠ some options.swapPath)
    (hcsv : options.csvPath ≠ some options.swapPath)
    (hfile : options.tracePath.bind disk = some file) (hdelivers : Delivers file entries last)
    (hbelow : EntriesBelow entries) (hfew : (traceAccesses entries).length < 2 ^ 62)
    (hpages : (accessPages (traceAccesses entries)).card <
      options.frameCount + options.swapSlots) :
    ∃ exit final, simulatorMain format disk devices argv before = some exit ∧
      (exit.status = exitSuccess ↔ last = .endOfFile ∧
        exit.Exports format disk devices options final (traceAccesses entries).length) ∧
      (last = .endOfFile →
        exit.reported = some ((traceAccesses entries).length, final.stats)) ∧
      TraceMetrics options.frameCount (traceAccesses entries) final.stats := by
  obtain ⟨w, _, _, hmetrics, hran⟩ := simulatorRun_few format devices
    (simulatorMemory_created hmemory hworks) hworks (cliParse_valid hparse).pid.1 hn
    ((simulatorMemory_trace htrace).trans hfile) hdelivers hbelow hfew
    fun count hcount => by
      cases hcount
      exact hpages
  by_cases hlast : last = .endOfFile
  · rw [if_pos hlast] at hran
    obtain ⟨heap, _, hmain⟩ := simulatorMain_ran hparse hmemory hran
    refine ⟨_, w.memory, hmain, ?_, fun _ => simulatorExport_reported _ _ _ _ _ _, hmetrics⟩
    rw [and_iff_right hlast]
    exact simulatorExport_exports heap hcsv fun _ hne =>
      (simulatorSaveSwap_other hne).trans (simulatorMemory_other hne)
  · rw [if_neg hlast] at hran
    obtain ⟨heap, _, hmain⟩ := simulatorMain_ran hparse hmemory hran
    exact ⟨_, w.memory, hmain, iff_of_false Nat.one_ne_zero fun h => hlast h.1,
      fun h => absurd h hlast, hmetrics⟩

/-- Three pages for two frames and two slots. -/
def sampleArgv : List (List Char) :=
  ["vmsim".toList, "--trace".toList, "t".toList, "--frames".toList, "2".toList,
    "--swap-slots".toList, "2".toList, "--csv".toList, "c".toList]

def sampleEntries : List TraceEntry :=
  [⟨.write, 0x1000, 1⟩, ⟨.read, 0x1fff, 2⟩, ⟨.write, 0x1fff, 2⟩, ⟨.write, 0x3000, 1⟩,
    ⟨.read, 0x1000, 1⟩]

def sampleDisk : Disk
  | ['t'] => some "W 1000\nM 1fff,2\nW 3000\nR 1000\n".toList
  | _ => none

def sampleDevices : SimulatorDevices :=
  ⟨true, fun _ => true, true, true, true, true, true, true, none, ⟨true, 4096, true, true⟩, 0⟩

theorem sampleArgv_parsed : (cliParse sampleArgv cliOptionsInit).1 = 0 ∧
    (simulatorMemory sampleDevices (cliParse sampleArgv cliOptionsInit).2 sampleDisk).1.isSome =
      true ∧
    (cliParse sampleArgv cliOptionsInit).2.frameCount = 2 ∧
    (cliParse sampleArgv cliOptionsInit).2.swapSlots = 2 ∧
    (cliParse sampleArgv cliOptionsInit).2.tracePath = some "t".toList ∧
    (cliParse sampleArgv cliOptionsInit).2.csvPath = some "c".toList ∧
    (cliParse sampleArgv cliOptionsInit).2.swapPath = "bin/vmsim.swap".toList := by
  decide +kernel

theorem sampleDisk_delivers :
    Delivers ((sampleDisk "t".toList).getD []) sampleEntries .endOfFile := by
  unfold Delivers
  decide +kernel

theorem simulatorMain_status_sample : ∃ exit final,
    simulatorMain sixDigits sampleDisk sampleDevices sampleArgv cliOptionsInit = some exit ∧
      (exit.status = exitSuccess ↔ exit.Exports sixDigits sampleDisk sampleDevices
        (cliParse sampleArgv cliOptionsInit).2 final 7) ∧
      exit.reported = some (7, final.stats) ∧
        TraceMetrics 2 (traceAccesses sampleEntries) final.stats := by
  have hparsed := sampleArgv_parsed
  have hseven : (traceAccesses sampleEntries).length = 7 := by decide +kernel
  have hpages : (accessPages (traceAccesses sampleEntries)).card = 3 := by decide +kernel
  cases hparse : cliParse sampleArgv cliOptionsInit with
  | mk code options =>
    rw [hparse] at hparsed
    obtain ⟨hzero, hmemory, hframes, hslots, htrace, hpath, hswap⟩ := hparsed
    dsimp only at hzero hmemory hframes hslots htrace hpath hswap
    subst hzero
    obtain ⟨memory, hmemory⟩ := Option.isSome_iff_exists.mp hmemory
    have hfile : options.tracePath.bind sampleDisk = some ((sampleDisk "t".toList).getD []) := by
      rw [htrace]
      rfl
    obtain ⟨exit, final, hmain, hstatus, hreported, hmetrics⟩ := simulatorMain_status hparse hmemory
      ⟨fun _ => rfl, rfl, rfl, rfl, rfl⟩ (by rw [hframes]; decide) (by rw [htrace, hswap]; decide)
      (by rw [hpath, hswap]; decide) hfile sampleDisk_delivers (by unfold EntriesBelow; decide)
      (by rw [hseven]; decide) (by rw [hframes, hslots, hpages]; decide)
    rw [hseven] at hstatus hreported
    rw [hframes] at hmetrics
    exact ⟨exit, final, hmain, by simpa using hstatus, hreported rfl, hmetrics⟩

end VmSim
