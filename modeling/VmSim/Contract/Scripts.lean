/-
VmSim.Contract.Scripts — experiments.

A script runs the program on several traces and configurations, and all
runs export to one file. The file then holds a record for each run, and
the counters in it are those of the trace: they pass the checks that the
stress test makes of its results.
-/
import VmSim.Contract.Simulator

namespace VmSim

open Lib

/-- What the command line of a run sets. -/
def Execution.options (execution : Execution) : CliArguments :=
  (cliParse execution.argv execution.stack).2

variable {format : FixedFormat} {disk disk' : Disk} {exit : SimulatorExit}
  {path : List Char} {execution : Execution} {executions : List Execution} {call : CsvCall}
  {options : CliArguments} {entries : List TraceEntry}

/-- The run exports to `path`, and nothing else it needs can fail; its trace
and its swap file are other files. -/
structure Execution.Exports (execution : Execution) (disk : Disk) (path : List Char)
    (options : CliArguments) (entries : List TraceEntry) : Prop where
  parses : cliParse execution.argv execution.stack = (0, options)
  csvPath : options.csvPath = some path
  trace : options.tracePath ≠ some path
  swapPath : options.swapPath ≠ path
  works : execution.devices.Works
  frames : options.frameCount < 2 ^ 32
  delivers : ∃ file last, options.tracePath.bind disk = some file ∧ Delivers file entries last
  below : EntriesBelow entries
  few : (traceAccesses entries).length < 2 ^ 62

/-- The run removes its swap file. -/
structure Execution.CleansUp (execution : Execution) : Prop where
  asked : execution.options.removeSwapOnDestroy = true
  removes : execution.devices.swapRemoves = true

theorem Execution.Exports.options_eq (h : execution.Exports disk path options entries) :
    execution.options = options := congrArg Prod.snd h.parses

/-- Only the trace matters. -/
theorem Execution.Exports.congr (h : execution.Exports disk path options entries)
    (hdisk : ∀ name, options.tracePath = some name → disk' name = disk name) :
    execution.Exports disk' path options entries := by
  obtain ⟨hparses, hpath, htrace, hswap, hworks, hframes, ⟨file, last, hfile, hdelivers⟩, hbelow,
    hfew⟩ := h
  refine ⟨hparses, hpath, htrace, hswap, hworks, hframes, ⟨file, last, ?_, hdelivers⟩, hbelow, hfew⟩
  rw [← hfile]
  cases hname : options.tracePath with
  | none => rfl
  | some name => exact hdisk name hname

/-- What a run exported: the counters of its trace. -/
structure Execution.Measured (execution : Execution) (disk : Disk) (path : List Char)
    (options : CliArguments) (entries : List TraceEntry) (call : CsvCall) : Prop where
  exports : execution.Exports disk path options entries
  options_eq : call.options = options.toCliOptions
  append : call.append = options.csvAppend
  processed : call.processedAccesses = (traceAccesses entries).length
  metrics : TraceMetrics options.frameCount (traceAccesses entries) call.memory.stats

/-- One run, and its record. -/
theorem Execution.Exports.run (h : execution.Exports disk path options entries)
    (htrace : options.tracePath ≠ some options.swapPath)
    (hrun : simulatorMain format disk execution.devices execution.argv execution.stack = some exit)
    (hstatus : exit.status = exitSuccess) : ∃ call text,
      execution.Measured disk path options entries call ∧
      call.result format path (disk path) = some text ∧ exit.disk path = some text := by
  obtain ⟨file, last, hfile, hdelivers⟩ := h.delivers
  have hvalid := cliParse_valid h.parses
  cases hmemory : (simulatorMemory execution.devices options disk).1 with
  | none =>
    rw [simulatorMain_none h.parses hmemory] at hrun
    cases hrun
    cases hstatus
  | some memory =>
    have hcreate := simulatorMemory_created hmemory h.works
    obtain ⟨start, hlaunched⟩ := simulatorStart_launched (simulatorStart_orderly hmemory)
      (fun _ _ => h.works.grants _) hvalid.pid.1
    obtain ⟨entries', last', results, w, hdelivers', hwf, hperforms, hran⟩ :=
      simulatorRun_replayed format hlaunched
        ((h.works.readTrace _).trans ((simulatorMemory_trace htrace).trans hfile))
    rw [h.works.traceReads, Option.isNone_none, Bool.and_true] at hran
    have hstart := hlaunched.started h.works hcreate hvalid.pid.1
    obtain ⟨rfl, rfl⟩ := hdelivers.unique hdelivers'
    cases haccepts : replayAccepts entries last results with
    | false =>
      rw [haccepts, if_neg Bool.false_ne_true] at hran
      obtain ⟨heap, _, hmain⟩ := simulatorMain_ran h.parses hmemory hran
      rw [hmain] at hrun
      cases hrun
      cases hstatus
    | true =>
      rw [haccepts, if_pos rfl] at hran
      obtain ⟨heap, _, hmain⟩ := simulatorMain_ran h.parses hmemory hran
      rw [hmain] at hrun
      cases hrun
      have hok : anyFailed results = false := by
        simp only [replayAccepts, Bool.and_eq_true, Bool.not_eq_true'] at haccepts
        exact haccepts.2
      have hcsv : options.csvPath ≠ some options.swapPath := fun e =>
        h.swapPath (Option.some.inj (e.symm.trans h.csvPath))
      obtain ⟨text, hresult, htext⟩ := (simulatorExport_exports heap hcsv fun _ hne =>
        (simulatorSaveSwap_other hne).trans (simulatorMemory_other hne)).mp hstatus path h.csvPath
      exact ⟨⟨options.toCliOptions, w.memory, succeededCount results % wordSize,
        options.csvAppend, execution.devices.csv⟩, text, ⟨h, rfl, rfl,
        hperforms.succeededCount_eq hok h.few, hperforms.metrics hstart h.frames
          (h.below.accesses_lt hwf) h.few hok⟩, hresult, htext⟩

/-- No swap file of a run is the trace of another one, or its own. -/
def Execution.Apart (executions : List Execution) : Prop :=
  ∀ execution ∈ executions, ∀ other ∈ executions,
    execution.options.tracePath ≠ some other.options.swapPath

theorem Execution.Apart.tail (h : Execution.Apart (execution :: executions)) :
    Execution.Apart executions := fun first hfirst other hother =>
  h first (List.mem_cons_of_mem _ hfirst) other (List.mem_cons_of_mem _ hother)

/-- The files after the runs of a script, except for the one they export
to. -/
structure Execution.Left (executions : List Execution) (path : List Char) (disk disk' : Disk) :
    Prop where
  others : ∀ other, other ≠ path →
    (∀ execution ∈ executions, execution.options.swapPath ≠ other) → disk' other = disk other
  swaps : ∀ other, other ≠ path →
    (∃ execution ∈ executions, execution.options.swapPath = other) →
    (∀ execution ∈ executions, execution.options.swapPath = other → execution.CleansUp) →
    disk' other = none

/-- One more run before the others. -/
theorem Execution.Left.cons {between : Disk} (h : Execution.Left executions path between disk')
    (hothers : ∀ other, other ≠ path → other ≠ execution.options.swapPath →
      between other = disk other)
    (hswap : execution.CleansUp → between execution.options.swapPath = none) :
    Execution.Left (execution :: executions) path disk disk' := by
  refine ⟨fun other hne hall => ?_, fun other hne hsome hall => ?_⟩
  · obtain ⟨hfirst, hrest⟩ := List.forall_mem_cons.mp hall
    exact (h.others other hne hrest).trans (hothers other hne hfirst.symm)
  · obtain ⟨hfirst, hrest⟩ := List.forall_mem_cons.mp hall
    by_cases hlater : ∃ execution ∈ executions, execution.options.swapPath = other
    · exact h.swaps other hne hlater hrest
    · -- the first run is the last one with this swap file
      have hnone : ∀ execution ∈ executions, execution.options.swapPath ≠ other :=
        fun execution hmem e => hlater ⟨execution, hmem, e⟩
      obtain ⟨found, hmem, rfl⟩ := hsome
      rcases List.mem_cons.mp hmem with rfl | hmem
      · exact (h.others _ hne hnone).trans (hswap (hfirst rfl))
      · exact absurd rfl (hnone found hmem)

end VmSim
