/-
VmSim.SimulatorRuns — what a run of the program does.

The replay ends in a state with one process, to which all page tables
belong (`World.Performs.keeps`), so that nothing is left when the process
is destroyed. `simulatorRun_replayed` says which accesses are made, and
what is exported. Of the files, a run changes its swap file and the one it
exports to at most.
-/
import VmSim.Simulator
import VmSim.Trace.ReplayRuns
import VmSim.VirtualMemory.OwnedTables

namespace VmSim

open Lib Lib.Comp

variable {w w' : World} {n tlbEntries p a k : Nat} {type : ReplacementPolicyType}
  {slots : Option Nat} {calls : List (Nat × VirtualMemoryAccessType)}
  {results : List VirtualMemoryAccessResult} {memory : VirtualMemory}
  {format : FixedFormat} {disk : Disk} {devices : SimulatorDevices} {options : CliArguments}
  {file path other : List Char} {pid : Int}

/-! ## Nothing is left -/

/-- No process, page table, node or entry is allocated. -/
structure Heap.AllFree (h : Heap) : Prop where
  processes : ∀ p, h.processes p = none
  tables : ∀ t, h.tables t = none
  objects : ∀ q, h.objects q = none

theorem Heap.allFree_empty (answer : Nat → Bool) : (Heap.empty answer).AllFree :=
  ⟨fun _ => rfl, fun _ => rfl, fun _ => rfl⟩

/-- An access makes no table and no process. -/
theorem World.Orderly.access_owned {accessType : VirtualMemoryAccessType}
    {result : VirtualMemoryAccessResult} (h : w.Orderly) (hp : w.Alive p) (ho : w.heap.Owned)
    (hrun : virtualMemoryAccess p a accessType w = .ok result w') : w'.heap.Owned :=
  ho.congr ((virtualMemoryAccess_live p a accessType).leads w result w' (fun _ => rfl) hrun).2
    (h.accessed hp hrun).processes

/-- Allowed calls have valid pointers. -/
theorem World.Reachable.served {history : List (Call × Reply)}
    (h : World.Reachable n type tlbEntries slots history w) :
    World.Served n type tlbEntries slots history w := by
  obtain ⟨memory, hcreate, hrun⟩ := h
  exact ⟨memory, hcreate, hrun.imp fun _ _ ha => ha.pager.valid⟩

theorem World.Performs.keeps (h : w.Performs p calls results w') :
    w.Orderly → w.heap.Owned → w.Sole p → w'.Orderly ∧ w'.heap.Owned ∧ w'.Sole p := by
  induction h with
  | done => exact fun hw ho hsole => ⟨hw, ho, hsole⟩
  | next haccess _ _ ih =>
    intro hw ho hsole
    have hconcluded := hw.accessed hsole.alive haccess
    exact ih (hconcluded.orderly hw) (hw.access_owned hsole.alive ho haccess)
      (hsole.congr hconcluded.alive)
  | failed haccess _ =>
    intro hw ho hsole
    have hconcluded := hw.accessed hsole.alive haccess
    exact ⟨hconcluded.orderly hw, hw.access_owned hsole.alive ho haccess,
      hsole.congr hconcluded.alive⟩

/-- The only process is destroyed. -/
theorem simulatorDestroyProcess_spec (hw : w.Orderly) (ho : w.heap.Owned) (hsole : w.Sole p)
    (k : Nat) : ∃ heap : Heap, heap.AllFree ∧
      simulatorDestroyProcess p ⟨w, k⟩ = .ok () ⟨{ w with heap := heap }, k⟩ := by
  obtain ⟨x, hx⟩ := Heap.process_of_pid hsole.alive
  obtain ⟨_, heap, hrun, hgone⟩ := processDestroy_spec hw.tame hx
  have hnone : ∀ q, heap.processes q = none := by
    intro q
    rw [hgone.processes, Function.update_apply]
    split
    · rfl
    · rename_i hne
      cases hy : w.heap.processes q with
      | none => rfl
      | some y => exact absurd (hsole.only q (hw.tame.pid_nonneg hy)) hne
  obtain ⟨htables, hobjects⟩ := (hgone.owned ho).empty hgone.tame.wf hnone
  have hheap : onHeap (processDestroy p) (Replay.mk w k).world = .ok () { w with heap := heap } :=
    zoom_ok hrun
  have hworld : onWorld (onHeap (processDestroy p)) ⟨w, k⟩ = .ok () ⟨{ w with heap := heap }, k⟩ :=
    zoom_ok hheap
  exact ⟨heap, ⟨hnone, htables, hobjects⟩, hworld⟩

/-! ## The replay -/

/-- The trace is delivered as `entries`, and then `last`. -/
def Delivers (file : List Char) (entries : List TraceEntry) (last : TraceResult) : Prop :=
  traceReaderRun (traceReaderOpen file).rounds (traceReaderOpen file) =
    entries.map TraceResult.entry ++ [last]

variable {entries entries' : List TraceEntry} {last last' : TraceResult} {entry : TraceEntry}

theorem Delivers.unique (h : Delivers file entries last) (h' : Delivers file entries' last') :
    entries = entries' ∧ last = last' := by
  obtain ⟨hentries, hlast⟩ := List.append_inj' (h.symm.trans h') rfl
  have hinjective : Function.Injective TraceResult.entry := fun _ _ e => TraceResult.entry.inj e
  exact ⟨hinjective.list_map hentries, List.singleton_inj.mp hlast⟩

/-- The entries end before the top of the 48-bit addresses. -/
def EntriesBelow (entries : List TraceEntry) : Prop :=
  ∀ entry ∈ entries, entry.address + entry.size ≤ 2 ^ 48

theorem TraceEntry.Wf.accesses_lt (hwf : entry.Wf) (hbelow : entry.address + entry.size ≤ 2 ^ 48) :
    ∀ call ∈ entry.accesses, call.1 < 2 ^ 48 := by
  obtain ⟨_, hsize⟩ := hwf
  intro call hcall
  obtain ⟨page, hpage, rfl⟩ := List.mem_map.mp hcall
  have hlast : page ≤ (entry.address + (entry.size - 1)) / 2 ^ 12 := by
    have hbounds := (List.mem_range'_1.mp hpage).2
    have hfirst : entry.firstPage ≤ entry.lastPage := addressPageNumber_mono (Nat.le_add_right _ _)
    have hshift : entry.lastPage = (entry.address + (entry.size - 1)) / 2 ^ 12 :=
      Nat.shiftRight_eq_div_pow _ _
    omega
  dsimp only
  split
  · omega
  · have hpageAddress : pageAddress page ≤ page * 2 ^ 12 := by
      simp only [pageAddress, pageOffsetBits, Nat.shiftLeft_eq]
      exact Nat.mod_le _ _
    omega

theorem EntriesBelow.accesses_lt (h : EntriesBelow entries) (hwf : ∀ entry ∈ entries, entry.Wf) :
    ∀ call ∈ traceAccesses entries, call.1 < 2 ^ 48 := by
  intro call hcall
  obtain ⟨entry, hentry, hcall⟩ := List.mem_flatMap.mp hcall
  have hmem := List.takeWhile_subset _ hentry
  exact (hwf entry hmem).accesses_lt (h entry hmem) call hcall

theorem EntriesBelow.fits (h : EntriesBelow entries) : entries.all TraceEntry.fits = true := by
  refine List.all_eq_true.mpr fun entry hentry => decide_eq_true ?_
  exact (h entry hentry).trans (by decide)

/-- All entries were replayed. -/
def replayAccepts (entries : List TraceEntry) (last : TraceResult)
    (results : List VirtualMemoryAccessResult) : Bool :=
  (entries.all TraceEntry.fits && decide (last = .endOfFile)) && !anyFailed results

theorem traceReplay_spec (hw : w.Orderly) (hp : w.Alive p) (file : List Char) (k : Nat) :
    ∃ entries last results w', Delivers file entries last ∧ (∀ entry ∈ entries, entry.Wf) ∧
      w.Performs p (traceAccesses entries) results w' ∧
      traceReplay p (some file) ⟨w, k⟩ =
        if replayAccepts entries last results then .ok () ⟨w', succeededCount results % wordSize⟩
        else .failed ⟨w', succeededCount results % wordSize⟩ := by
  have hopen : (traceReaderOpen file).Wf := fun _ e => by cases e
  obtain ⟨entries, last, hdelivered, _, hwf, hreplays⟩ :=
    traceReplayEntries_replays hopen (Nat.le_refl _)
  obtain ⟨results, w', hperforms, hrun⟩ := hreplays w 0 hw hp (by decide)
  rw [Nat.zero_add] at hrun
  exact ⟨entries, last, results, w', hdelivered, hwf, hperforms, hrun⟩

/-! ## The files -/

theorem simulatorRemoveSwap_other (h : other ≠ options.swapPath) :
    simulatorRemoveSwap devices options disk other = disk other := by
  unfold simulatorRemoveSwap
  split
  · exact Disk.put_other h _ _
  · rfl

theorem simulatorSaveSwap_other (h : other ≠ options.swapPath) :
    simulatorSaveSwap options memory disk other = disk other := by
  unfold simulatorSaveSwap
  cases memory.swap with
  | some swap => exact Disk.put_other h _ _
  | none => rfl

theorem simulatorDestroySwap_other (h : other ≠ options.swapPath) :
    simulatorDestroySwap devices options disk other = disk other := by
  unfold simulatorDestroySwap
  split
  · exact simulatorRemoveSwap_other h
  · rfl

/-- A swap file stays as it is, or gets a new text. -/
theorem simulatorSaveSwap_isSome (h : (disk options.swapPath).isSome = true) :
    (simulatorSaveSwap options memory disk options.swapPath).isSome = true := by
  unfold simulatorSaveSwap
  cases memory.swap with
  | some swap => simp
  | none => exact h

theorem simulatorRemoveSwap_isSome (h : (disk options.swapPath).isSome = true) :
    (simulatorRemoveSwap devices options disk options.swapPath).isSome = !devices.swapRemoves := by
  unfold simulatorRemoveSwap
  cases devices.swapRemoves with
  | true => simp
  | false => exact h

theorem simulatorDestroySwap_isSome (h : (disk options.swapPath).isSome = true) :
    (simulatorDestroySwap devices options disk options.swapPath).isSome =
      (!options.removeSwapOnDestroy || !devices.swapRemoves) := by
  unfold simulatorDestroySwap
  cases options.removeSwapOnDestroy with
  | true => exact simulatorRemoveSwap_isSome h
  | false => exact h

/-! ## The memory -/

/-- The devices matter to the swap file only. -/
theorem VirtualMemory.onDevices_orderly {heap : Heap} (h : World.Orderly ⟨memory, heap⟩)
    (devices : SimulatorDevices) : World.Orderly ⟨memory.onDevices devices, heap⟩ :=
  ⟨⟨h.tame, rfl, rfl, rfl, h.sharers, h.registry, h.owners, h.policy, rfl, rfl⟩, h.counted⟩

theorem simulatorMemory_some (h : (simulatorMemory devices options disk).1 = some memory) :
    ∃ created, virtualMemoryCreateInternal options.frameCount options.policy options.tlbEntries
        (some options.swapSlots) = some created ∧ memory = created.onDevices devices ∧
      simulatorOpensSwap devices options = true ∧ (simulatorMemory devices options disk).2 =
        simulatorSaveSwap options created (disk.put options.swapPath (some [])) := by
  unfold simulatorMemory at h ⊢
  split at h
  · rename_i hopens
    rw [if_pos hopens]
    split at h
    · rename_i created hcreate
      split at h
      · rename_i hfills
        cases h
        rw [if_pos hfills]
        unfold virtualMemoryCreateComplete at hcreate
        split at hcreate
        · cases hcreate
        · exact ⟨created, hcreate, rfl, hopens, rfl⟩
      · cases h
    · cases h
  · cases h

theorem simulatorStart_orderly (h : (simulatorMemory devices options disk).1 = some memory) :
    (simulatorStart devices memory).Orderly := by
  obtain ⟨created, hcreate, rfl, _⟩ := simulatorMemory_some h
  exact VirtualMemory.onDevices_orderly (World.new_orderly hcreate _) devices

/-- There is storage, the swap file can be read and written, and the trace
can be read. -/
structure SimulatorDevices.Works (devices : SimulatorDevices) : Prop where
  grants : ∀ k, devices.grants k = true
  swapReads : devices.swapReads = true
  swapWrites : devices.swapWrites = true
  traceOpens : devices.traceOpens = true
  traceReads : devices.traceReads = none

theorem SimulatorDevices.Works.readTrace (h : devices.Works) (file : Option (List Char)) :
    devices.readTrace file = file := by
  rw [SimulatorDevices.readTrace, if_pos h.traceOpens, h.traceReads]

theorem Swap.Works.answering {swap : Swap} (h : swap.Works) : swap.answering true true = swap := by
  obtain ⟨⟨bytes, length, readable, writable⟩, slots, slotCount, used, reads, writes⟩ := swap
  obtain ⟨rfl, rfl⟩ := h
  rfl

theorem SimulatorDevices.Works.start (h : devices.Works) (memory : VirtualMemory) :
    simulatorStart devices memory = World.boot memory := by
  rw [simulatorStart, show devices.grants = fun _ => true from funext h.grants]
  rfl

/-- Then the memory is the one that all other results are about. -/
theorem simulatorMemory_created (h : (simulatorMemory devices options disk).1 = some memory)
    (hworks : devices.Works) :
    virtualMemoryCreateInternal options.frameCount options.policy options.tlbEntries
      (some options.swapSlots) = some memory := by
  obtain ⟨created, hcreate, rfl, _⟩ := simulatorMemory_some h
  obtain ⟨_, _, _, _, hswap, _, _⟩ := virtualMemoryCreateInternal_some hcreate
  have hsame : created.onDevices devices = created := by
    unfold VirtualMemory.onDevices
    rw [hworks.swapReads, hworks.swapWrites]
    have hanswers : created.swap.map (·.answering true true) = created.swap := by
      cases hfile : created.swap with
      | none => rfl
      | some swap =>
        obtain ⟨count, _, _, hmade⟩ := hswap swap hfile
        exact congrArg some (swapCreate_spec hmade).2.1.answering
    rw [hanswers]
  rw [hsame]
  exact hcreate

theorem simulatorMemory_other (h : other ≠ options.swapPath) :
    (simulatorMemory devices options disk).2 other = disk other := by
  have hput : disk.put options.swapPath (some []) other = disk other := Disk.put_other h _ _
  unfold simulatorMemory
  split
  · split
    · split
      · exact (simulatorSaveSwap_other h).trans hput
      · exact (simulatorRemoveSwap_other h).trans hput
    · exact (simulatorRemoveSwap_other h).trans hput
  · rfl

/-- The trace is still there when it is opened. -/
theorem simulatorMemory_trace (h : options.tracePath ≠ some options.swapPath) :
    options.tracePath.bind (simulatorMemory devices options disk).2 =
      options.tracePath.bind disk := by
  cases hpath : options.tracePath with
  | none => rfl
  | some path => exact simulatorMemory_other fun e => h (hpath.trans (congrArg some e))

theorem simulatorMemory_closed (h : simulatorOpensSwap devices options = false) :
    simulatorMemory devices options disk = (none, disk) := by
  rw [simulatorMemory, h]
  rfl

/-- A swap file that was opened is there, unless it was removed as no
memory was created. -/
theorem simulatorMemory_isSome (h : simulatorOpensSwap devices options = true) :
    ((simulatorMemory devices options disk).2 options.swapPath).isSome =
      ((simulatorMemory devices options disk).1.isSome || !devices.swapRemoves) := by
  have hopened : (disk.put options.swapPath (some []) options.swapPath).isSome = true := by
    rw [Disk.put_same]
    rfl
  unfold simulatorMemory
  rw [if_pos h]
  split
  · split
    · exact simulatorSaveSwap_isSome hopened
    · exact simulatorRemoveSwap_isSome hopened
  · exact simulatorRemoveSwap_isSome hopened

/-! ## The export -/

section Export

variable {processed : Nat}

theorem simulatorExport_status (format : FixedFormat) (devices : SimulatorDevices)
    (options : CliArguments) (disk : Disk) (memory : VirtualMemory) (processed : Nat) :
    (simulatorExport format devices options disk memory processed).status = exitSuccess ∨
      (simulatorExport format devices options disk memory processed).status = exitFailure := by
  unfold simulatorExport
  split
  · split
    · exact Or.inl rfl
    · exact Or.inr rfl
  · exact Or.inl rfl

theorem simulatorExport_reported (format : FixedFormat) (devices : SimulatorDevices)
    (options : CliArguments) (disk : Disk) (memory : VirtualMemory) (processed : Nat) :
    (simulatorExport format devices options disk memory processed).reported =
      some (processed, memory.stats) := by
  unfold simulatorExport
  split
  · split <;> rfl
  · rfl

theorem simulatorExport_other (h : options.csvPath ≠ some other) :
    (simulatorExport format devices options disk memory processed).disk other = disk other := by
  unfold simulatorExport
  split
  · rename_i path hpath
    have hne : other ≠ path := fun e => h (e ▸ hpath)
    split
    · exact Disk.put_other hne _ _
    · exact Disk.put_other hne _ _
  · rfl

/-- The program succeeds if it has nothing to export, or exports it. -/
theorem simulatorExport_success :
    (simulatorExport format devices options disk memory processed).status = exitSuccess ↔
      ∀ path, options.csvPath = some path → ∃ text,
        csvExportResult format devices.csv (disk path) (some path) (some options.toCliOptions)
          (some memory) processed options.csvAppend = some text ∧
        (simulatorExport format devices options disk memory processed).disk path = some text := by
  unfold simulatorExport
  cases options.csvPath with
  | none => simp
  | some path =>
    dsimp only
    cases hexport : csvExportResult format devices.csv (disk path) (some path)
      (some options.toCliOptions) (some memory) processed options.csvAppend with
    | none => simp [exitSuccess, exitFailure, hexport]
    | some text => simp [hexport]

/-- What an export leaves in its file: nothing has happened to it, or it
has a part of the record, and all of it if the program succeeds. -/
theorem simulatorExport_left (hpath : options.csvPath = some path) :
    ((simulatorExport format devices options disk memory processed).status = exitFailure ∧
      (simulatorExport format devices options disk memory processed).disk path = disk path) ∨
    ∃ written, (simulatorExport format devices options disk memory processed).disk path =
        some (csvKept (disk path) options.csvAppend ++ written) ∧
      written <+: csvWritten format (disk path) options.toCliOptions memory processed
        options.csvAppend ∧
      ((simulatorExport format devices options disk memory processed).status = exitSuccess →
        written = csvWritten format (disk path) options.toCliOptions memory processed
          options.csvAppend) := by
  unfold simulatorExport
  rw [hpath]
  dsimp only
  split
  · rename_i text hexport
    refine Or.inr ⟨_, (Disk.put_same ..).trans ?_, List.prefix_refl _, fun _ => rfl⟩
    rw [csvExportResult_text hexport]
  · have hfailed : exitFailure ≠ exitSuccess := Nat.one_ne_zero
    simp only [Disk.put_same, csvExportLeft]
    split
    · exact Or.inl ⟨trivial, rfl⟩
    · exact Or.inr ⟨_, rfl, List.take_prefix _ _, fun h => absurd h hfailed⟩

end Export

/-! ## Between creation and destruction -/

/-- The state with the first process. -/
structure World.Launched (start : World) (devices : SimulatorDevices) (memory : VirtualMemory)
    (pid : Int) : Prop where
  created : onHeap (processCreate pid) (simulatorStart devices memory) = .ok 0 start
  orderly : start.Orderly
  owned : start.heap.Owned
  sole : start.Sole 0
  memory_eq : start.memory = memory

theorem simulatorStart_launched (hnew : (simulatorStart devices memory).Orderly)
    (hg : (Heap.empty devices.grants).Grants 4) (hpid : 0 ≤ pid) :
    ∃ start : World, start.Launched devices memory pid := by
  obtain ⟨heap, hrun, hspawned, horderly, hsole⟩ := World.new_spawned hnew hg hpid
  have hempty : (Heap.empty devices.grants).Owned := fun _ ht => by cases ht
  have hadd := processCreate_leads pid _ 0 heap (fun _ => rfl) hrun
  exact ⟨⟨memory, heap⟩, zoom_ok hrun, horderly, hempty.spawned hnew.tame hpid hspawned hadd, hsole,
    rfl⟩

theorem World.Launched.started {start : World} (h : start.Launched devices memory pid)
    (hworks : devices.Works)
    (hcreate : virtualMemoryCreateInternal n type tlbEntries slots = some memory)
    (hpid : 0 ≤ pid) : start.Started n type tlbEntries slots pid := by
  obtain ⟨heap, hrun, hstart⟩ := World.boot_process hcreate hpid
  have hcreated := h.created
  rw [hworks.start, hrun] at hcreated
  cases hcreated
  exact hstart

/-- `simulatorRun` returns `result` and leaves the memory of `w`, and nothing on
the heap. -/
def SimulatorRan (format : FixedFormat) (devices : SimulatorDevices) (options : CliArguments)
    (disk : Disk) (memory : VirtualMemory) (result : SimulatorResult) (w : World)
    (processed : Nat) : Prop :=
  ∃ heap : Heap, heap.AllFree ∧
    simulatorRun format devices options disk ⟨simulatorStart devices memory, 0⟩ =
      .ok result ⟨{ w with heap := heap }, processed⟩

/-- There is no storage for the process. -/
theorem simulatorRun_unlaunched (format : FixedFormat) (disk : Disk)
    (hg : ¬ (Heap.empty devices.grants).Grants 4) (hpid : 0 ≤ options.pid) :
    SimulatorRan format devices options disk memory ⟨exitFailure, none, disk⟩
      (simulatorStart devices memory) 0 := by
  obtain ⟨allocator, hrefused⟩ := (processCreate_refused hpid hg).supplied
  have hcreated : onHeap (processCreate options.pid) (simulatorStart devices memory) =
      .failed ⟨memory, (Heap.empty devices.grants).supplied allocator⟩ := zoom_failed hrefused
  have hworld : onWorld (onHeap (processCreate options.pid)) ⟨simulatorStart devices memory, 0⟩ =
      .failed ⟨⟨memory, (Heap.empty devices.grants).supplied allocator⟩, 0⟩ := zoom_failed hcreated
  have hfree := Heap.allFree_empty devices.grants
  refine ⟨(Heap.empty devices.grants).supplied allocator,
    ⟨hfree.processes, hfree.tables, hfree.objects⟩, ?_⟩
  rw [simulatorRun, bind_ok (attempt_failed hworld)]
  rfl

/-- There is no trace. -/
theorem simulatorRun_closed (format : FixedFormat) {start : World}
    (hstart : start.Launched devices memory options.pid)
    (hfile : devices.readTrace (options.tracePath.bind disk) = none) :
    SimulatorRan format devices options disk memory
      ⟨exitFailure, none, simulatorSaveSwap options memory disk⟩ start 0 := by
  have hcreated : onWorld (onHeap (processCreate options.pid)) ⟨simulatorStart devices memory, 0⟩ =
      .ok 0 ⟨start, 0⟩ := zoom_ok hstart.created
  have hreplay : simulatorReplay devices 0 (options.tracePath.bind disk) ⟨start, 0⟩ =
      .failed ⟨start, 0⟩ := by
    rw [simulatorReplay, hfile]
    exact bind_failed rfl
  obtain ⟨heap', hfree, hdestroy⟩ :=
    simulatorDestroyProcess_spec hstart.orderly hstart.owned hstart.sole 0
  refine ⟨heap', hfree, ?_⟩
  rw [simulatorRun, bind_ok (attempt_ok hcreated)]
  dsimp only
  rw [bind_ok (attempt_failed hreplay), bind_ok (get_run _),
    if_pos (show (none : Option Unit).isNone = true from rfl), bind_ok hdestroy,
    hstart.memory_eq]
  rfl

/-- The trace is replayed as far as it can be read. -/
theorem simulatorRun_replayed (format : FixedFormat) {start : World}
    (hstart : start.Launched devices memory options.pid)
    (hfile : devices.readTrace (options.tracePath.bind disk) = some file) :
    ∃ (entries : List TraceEntry) (last : TraceResult)
      (results : List VirtualMemoryAccessResult) (w : World), Delivers file entries last ∧
      (∀ entry ∈ entries, entry.Wf) ∧ start.Performs 0 (traceAccesses entries) results w ∧
      SimulatorRan format devices options disk memory
        (if replayAccepts entries last results && devices.traceReads.isNone then
          simulatorExport format devices options (simulatorSaveSwap options w.memory disk) w.memory
            (succeededCount results % wordSize)
        else ⟨exitFailure, none, simulatorSaveSwap options w.memory disk⟩) w
        (succeededCount results % wordSize) := by
  have hcreated : onWorld (onHeap (processCreate options.pid)) ⟨simulatorStart devices memory, 0⟩ =
      .ok 0 ⟨start, 0⟩ := zoom_ok hstart.created
  obtain ⟨entries, last, results, w, hdelivered, hwf, hperforms, hreplay⟩ :=
    traceReplay_spec hstart.orderly hstart.sole.alive file 0
  obtain ⟨hw, ho, hsole⟩ := hperforms.keeps hstart.orderly hstart.owned hstart.sole
  obtain ⟨heap', hfree, hdestroy⟩ :=
    simulatorDestroyProcess_spec hw ho hsole (succeededCount results % wordSize)
  refine ⟨entries, last, results, w, hdelivered, hwf, hperforms, heap', hfree, ?_⟩
  have hended : simulatorReplay devices 0 (options.tracePath.bind disk) ⟨start, 0⟩ =
      if replayAccepts entries last results && devices.traceReads.isNone then
        .ok () ⟨w, succeededCount results % wordSize⟩
      else .failed ⟨w, succeededCount results % wordSize⟩ := by
    rw [simulatorReplay, hfile]
    cases haccepts : replayAccepts entries last results with
    | false =>
      rw [haccepts] at hreplay
      exact bind_failed hreplay
    | true =>
      rw [haccepts] at hreplay
      rw [bind_ok hreplay]
      cases devices.traceReads <;> rfl
  rw [simulatorRun, bind_ok (attempt_ok hcreated)]
  dsimp only
  cases haccepts : replayAccepts entries last results && devices.traceReads.isNone with
  | false =>
    rw [haccepts] at hended
    rw [bind_ok (attempt_failed hended), bind_ok (get_run _),
      if_pos (show (none : Option Unit).isNone = true from rfl), bind_ok hdestroy]
    rfl
  | true =>
    rw [haccepts] at hended
    rw [bind_ok (attempt_ok hended), bind_ok (get_run _),
      if_neg (show ¬(some ()).isNone = true from Bool.false_ne_true), if_pos rfl]
    dsimp only
    rw [bind_ok hdestroy]
    rfl

/-! ## The program -/

variable {argv : List (List Char)} {before : CliArguments} {exit : SimulatorExit}

/-- What the command line gives is valid. -/
theorem cliParse_valid (h : cliParse argv before = (0, options)) : options.Valid := by
  cases argv with
  | nil => cases h
  | cons name words =>
    exact ((parseCommandLine_range cliOption_yields (fun _ hvalid => hvalid.spells)
      cliOptionsInit_valid CliSetting.apply_valid (fun _ hvalid => hvalid.toSettings)
      fun _ hvalid => hvalid.applyAll_toSettings).mp ⟨words, h⟩).1

theorem simulatorMain_ran (hparse : cliParse argv before = (0, options))
    (hmemory : (simulatorMemory devices options disk).1 = some memory)
    {result : SimulatorResult} {w : World} {processed : Nat}
    (hran : SimulatorRan format devices options (simulatorMemory devices options disk).2 memory
      result w processed) :
    ∃ heap : Heap, heap.AllFree ∧ simulatorMain format disk devices argv before =
      some ⟨{ result with disk := simulatorDestroySwap devices options result.disk }, heap⟩ := by
  obtain ⟨heap, hfree, hrun⟩ := hran
  refine ⟨heap, hfree, ?_⟩
  have hpair : simulatorMemory devices options disk =
      (some memory, (simulatorMemory devices options disk).2) := Prod.ext hmemory rfl
  rw [simulatorMain, hparse]
  dsimp only
  rw [if_neg (by decide), if_neg (by decide), hpair]
  dsimp only
  rw [hrun]

theorem simulatorMain_none (hparse : cliParse argv before = (0, options))
    (hmemory : (simulatorMemory devices options disk).1 = none) :
    simulatorMain format disk devices argv before = some
      ⟨⟨exitFailure, none, (simulatorMemory devices options disk).2⟩,
        Heap.empty devices.grants⟩ := by
  have hpair : simulatorMemory devices options disk =
      (none, (simulatorMemory devices options disk).2) := Prod.ext hmemory rfl
  rw [simulatorMain, hparse]
  dsimp only
  rw [if_neg (by decide), if_neg (by decide), hpair]

end VmSim
