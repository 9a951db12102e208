/-
VmSim.Contract.Pipeline — from the generator to the simulator.

A trace is generated by one program and replayed by the other, as the
stress test does it. The options of the two decide what is reported: the
number of the accesses, and for the sequential pattern the number of the
page faults.
-/
import VmSim.Contract.Policies
import VmSim.Contract.Simulator
import VmSim.Trace.Generated

namespace VmSim

open Lib

variable {devices : SimulatorDevices}
  {argv words : List (List Char)} {before options : CliArguments}
  {stack : TraceGeneratorArguments} {memory : VirtualMemory} {w : World} {n tlbEntries : Nat}
  {type : ReplacementPolicyType} {slots : Option Nat} {history : List (Call × Reply)}

/-- The accesses of a generated trace. -/
def TraceGeneratorOptions.accesses (generated : TraceGeneratorOptions) :
    List (Nat × VirtualMemoryAccessType) := generated.choices.map generated.access

theorem TraceGeneratorOptions.accesses_length (generated : TraceGeneratorOptions) :
    generated.accesses.length = generated.accessCount.toNat := by
  rw [accesses, List.length_map]
  exact traceChoices_length _ _ _ _

/-- The trace keeps to its pages. -/
theorem TraceGeneratorOptions.Checked.accessPages_card {generated : TraceGeneratorOptions}
    (h : generated.Checked) :
    (accessPages generated.accesses).card ≤ generated.pageCount.toNat := by
  have hsub : accessPages generated.accesses ⊆ (Finset.range generated.pageCount.toNat).image
      fun page => addressPageNumber generated.baseAddress.toNat + page := by
    intro page hpage
    obtain ⟨call, hcall, rfl⟩ := mem_accessPages.mp hpage
    obtain ⟨choice, hchoice, rfl⟩ := List.mem_map.mp hcall
    obtain ⟨hnumber, hlt, _⟩ := h.page hchoice
    exact Finset.mem_image.mpr ⟨_, Finset.mem_range.mpr hlt, hnumber.symm⟩
  exact (Finset.card_le_card hsub).trans (Finset.card_image_le.trans (Finset.card_range _).le)

theorem TraceGeneratorOptions.Checked.entriesBelow {generated : TraceGeneratorOptions}
    (h : generated.Checked)
    (hbelow : generated.baseAddress.toNat + generated.pageCount.toNat * pageSize ≤ 2 ^ 48) :
    EntriesBelow (generated.choices.map generated.entry) := by
  intro entry hentry
  obtain ⟨choice, hchoice, rfl⟩ := List.mem_map.mp hentry
  obtain ⟨_, hlt, haddress⟩ := h.page hchoice
  show (generated.access choice).1 + 1 ≤ 2 ^ 48
  rw [haddress]
  simp only [pageSize] at hbelow ⊢
  omega

/-- What is reported of a generated trace. The pattern matters to the page
faults: pages that fit are loaded once, and a sequence of pages that do
not fit has a page fault at every access. -/
structure GeneratedMetrics (generated : TraceGeneratorOptions) (n : Nat)
    (type : ReplacementPolicyType) (stats : VirtualMemoryStats) : Prop where
  total : stats.totalAccesses = generated.accessCount.toNat
  accesses : stats.readAccesses + stats.writeAccesses = stats.totalAccesses
  neverWrites : generated.writePercentage = 0 → stats.writeAccesses = 0
  alwaysWrites : generated.writePercentage = 100 → stats.readAccesses = 0
  fits : generated.pageCount.toNat ≤ n →
    stats.replacements = 0 ∧ stats.pageFaults ≤ generated.pageCount.toNat
  sequential : generated.pattern = .sequential → generated.pageCount.toNat ≤ n →
    stats.pageFaults = min generated.pageCount.toNat generated.accessCount.toNat
  thrashes : generated.pattern = .sequential → n < generated.pageCount.toNat → type ≠ .aging →
    stats.pageFaults = generated.accessCount.toNat

/-- The pages of the sequential pattern. -/
theorem TraceGeneratorOptions.Checked.accesses_sequential {generated : TraceGeneratorOptions}
    (h : generated.Checked) (hpattern : generated.pattern = .sequential) :
    generated.accesses.map (fun call => addressPageNumber call.1) =
      (List.range generated.accessCount.toNat).map fun i =>
        addressPageNumber generated.baseAddress.toNat + i % generated.pageCount.toNat := by
  rw [TraceGeneratorOptions.accesses, List.map_map]
  exact h.sequential hpattern

/-- More pages in turn than there are frames: no access finds its page. -/
theorem TraceGeneratorOptions.Checked.thrashes {generated : TraceGeneratorOptions}
    (h : generated.Checked) (hran : w.Ran n type tlbEntries slots generated.accesses history)
    (hn : n < 2 ^ 32) (hpattern : generated.pattern = .sequential)
    (hlt : n < generated.pageCount.toNat) (htype : type ≠ .aging) :
    w.memory.stats.pageFaults = generated.accessCount.toNat := by
  have hlength := generated.accesses_length
  have hfew := generated.accessCount.toNat_lt
  have hkeys : accessed history = (List.range generated.accessCount.toNat).reverse.map
      fun i => (0, addressPageNumber generated.baseAddress.toNat +
        i % generated.pageCount.toNat) := by
    have hpages := congrArg (List.map fun page => (0, page)) (h.accesses_sequential hpattern)
    rw [List.map_map, List.map_map] at hpages
    rw [hran.accessed, List.map_reverse]
    exact congrArg List.reverse hpages
  have hscattered : Scattered n (accessed history) := by
    rw [hkeys]
    refine scattered_cyclic hlt (g := fun page =>
      (0, addressPageNumber generated.baseAddress.toNat + page)) ?_ _
    exact fun i _ j _ heq => Nat.add_left_cancel (Prod.mk.inj heq).2
  have hsteps : (accessed history).length = generated.accessCount.toNat := by
    rw [hran.accessed, List.length_reverse, List.length_map, hlength]
  obtain ⟨resident, _, hwindow, _, hfaults⟩ := hran.reachable.conservative hn htype hran.refers
    hran.succeeded (by omega)
  rw [hfaults, hscattered.faultsOf hwindow, hsteps]

/-- The run that replays the trace. -/
theorem TraceGeneratorOptions.Checked.metrics {generated : TraceGeneratorOptions}
    (h : generated.Checked) (hran : w.Ran n type tlbEntries slots generated.accesses history)
    (hn : n < 2 ^ 32)
    (hmetrics : TraceMetrics n generated.accesses w.memory.stats) :
    GeneratedMetrics generated n type w.memory.stats := by
  have hlength := generated.accesses_length
  have hcard := h.accessPages_card
  have hpos : 0 < generated.pageCount.toNat := by
    have hpages := h.pages
    rw [ne_eq, ← UInt64.toNat_inj] at hpages
    exact Nat.pos_of_ne_zero hpages
  have hinjective : ∀ base P : Nat, Set.InjOn (fun page => base + page) (Set.Iio P) :=
    fun base P i _ j _ heq => Nat.add_left_cancel heq
  have hoperation : ∀ call ∈ generated.accesses, ∃ choice index,
      generated.Chosen index choice ∧ call = generated.access choice := by
    intro call hcall
    obtain ⟨choice, hchoice, rfl⟩ := List.mem_map.mp hcall
    obtain ⟨index, hchosen⟩ := h.mem_chosen hchoice
    exact ⟨choice, index, hchosen, rfl⟩
  refine ⟨hmetrics.total.trans hlength, hmetrics.accesses, fun hrate => ?_, fun hrate => ?_,
    fun hfits => ?_, fun hpattern hfits => ?_, fun hpattern hlt htype => ?_⟩
  · rw [hmetrics.writes, List.countP_eq_zero]
    intro call hcall
    obtain ⟨choice, index, hchosen, rfl⟩ := hoperation call hcall
    simp [TraceGeneratorOptions.access, hchosen.neverWrites hrate]
  · rw [hmetrics.reads, List.countP_eq_zero]
    intro call hcall
    obtain ⟨choice, index, hchosen, rfl⟩ := hoperation call hcall
    simp [TraceGeneratorOptions.access, hchosen.alwaysWrites hrate]
  · have hfaults := hmetrics.roomy (hcard.trans hfits)
    have hloads := hmetrics.loads
    omega
  · rw [hmetrics.roomy (hcard.trans hfits), accessPages, h.accesses_sequential hpattern,
      card_cyclic hpos (hinjective _ _)]
  · exact h.thrashes hran hn hpattern hlt htype

/-- The generator succeeds on pages that end below the last address. -/
theorem traceGeneratorMain_succeeds {generated : TraceGeneratorArguments}
    (hgenerator : traceGeneratorParse words stack = (0, generated))
    (hbelow : generated.baseAddress.toNat + generated.pageCount.toNat * pageSize ≤ 2 ^ 48) :
    ∃ path text, generated.outputPath = some path ∧
      traceGeneratorGenerate generated.toTraceGeneratorOptions = some text ∧
      traceGeneratorMain true words stack = ⟨exitSuccess, some (path.toList, text)⟩ := by
  obtain ⟨hvalid, houtput⟩ := traceGeneratorParse_valid hgenerator
  obtain ⟨path, hpath⟩ := Option.isSome_iff_exists.mp houtput
  have hrange : traceGeneratorGenerate generated.toTraceGeneratorOptions ≠ none := by
    rw [ne_eq, hvalid.generate_none houtput, Nat.not_le]
    have hsub : (generated.pageCount.toNat - 1) * pageSize ≤
        generated.pageCount.toNat * pageSize := Nat.mul_le_mul_right _ (Nat.sub_le _ _)
    exact (Nat.add_le_add_left hsub _).trans_lt (hbelow.trans_lt (by decide))
  obtain ⟨text, htext⟩ := Option.ne_none_iff_exists'.mp hrange
  exact ⟨path, text, hpath, htext, by simp [traceGeneratorMain, hgenerator, htext, hpath]⟩

/-- **From the options of the generator to the counters of the simulator.**
If the pages end below `2 ^ 48` and are fewer than the frames and the
slots, the generator succeeds on what its command line accepts, and the
simulator replays its file to the end: it makes as many accesses as were
asked for, and it can fail only to export. The swap file is neither the
trace nor the file of the export. -/
theorem generatedTrace_simulated (format : FixedFormat) (disk : Disk)
    {generated : TraceGeneratorArguments}
    (hgenerator : traceGeneratorParse words stack = (0, generated))
    (hparse : cliParse argv before = (0, options))
    (htrace : options.tracePath = generated.outputPath.map String.toList)
    (hmemory : (simulatorMemory devices options
      ((traceGeneratorMain true words stack).disk disk)).1 = some memory)
    (hworks : devices.Works) (hn : options.frameCount < 2 ^ 32)
    (hswap : options.tracePath ≠ some options.swapPath)
    (hcsv : options.csvPath ≠ some options.swapPath)
    (hbelow : generated.baseAddress.toNat + generated.pageCount.toNat * pageSize ≤ 2 ^ 48)
    (hfew : generated.accessCount.toNat < 2 ^ 62)
    (hroom : generated.pageCount.toNat < options.frameCount + options.swapSlots) :
    (traceGeneratorMain true words stack).status = exitSuccess ∧ ∃ exit final,
      simulatorMain format ((traceGeneratorMain true words stack).disk disk) devices argv before =
        some exit ∧
      (exit.status = exitSuccess ↔ exit.Exports format
        ((traceGeneratorMain true words stack).disk disk) devices options final
        generated.accessCount.toNat) ∧
      exit.reported = some (generated.accessCount.toNat, final.stats) ∧
      GeneratedMetrics generated.toTraceGeneratorOptions options.frameCount options.policy
        final.stats := by
  obtain ⟨path, text, hpath, htext, hmain⟩ := traceGeneratorMain_succeeds hgenerator hbelow
  obtain ⟨hchecked, _⟩ := traceGeneratorGenerate_some htext
  rw [hmain] at hmemory ⊢
  have hfile : options.tracePath.bind (Function.update disk path.toList (some text)) =
      some text := by
    simp [htrace, hpath]
  have haccesses : traceAccesses (generated.choices.map generated.entry) = generated.accesses :=
    traceAccesses_generated _ _
  have hlength := generated.accesses_length
  obtain ⟨w, history, hran, hmetrics, hrun⟩ := simulatorRun_few format devices
    (simulatorMemory_created hmemory hworks) hworks (cliParse_valid hparse).pid.1 hn
    ((simulatorMemory_trace hswap).trans hfile) (generated_delivers htext)
    (hchecked.entriesBelow hbelow) (by rw [haccesses, hlength]; exact hfew) fun count hcount => by
      cases hcount
      rw [haccesses]
      exact hchecked.accessPages_card.trans_lt hroom
  rw [if_pos rfl] at hrun
  rw [haccesses] at hran hmetrics hrun
  rw [hlength] at hrun
  obtain ⟨heap, _, hend⟩ := simulatorMain_ran hparse hmemory hrun
  exact ⟨rfl, _, w.memory, hend, simulatorExport_exports heap hcsv fun _ hne =>
    (simulatorSaveSwap_other hne).trans (simulatorMemory_other hne),
    simulatorExport_reported _ _ _ _ _ _, hchecked.metrics hran hn hmetrics⟩

/-- Five pages in turn, for the sample with two frames and four slots. -/
def sampleWords : List (List Char) :=
  ["tracegen".toList, "--output".toList, "t".toList, "--pages".toList, "5".toList,
    "--accesses".toList, "12".toList]

theorem sampleWords_parsed : (traceGeneratorParse sampleWords traceGeneratorOptionsInit).1 = 0 ∧
    (cliParse (sampleArgv ++ ["--swap-slots".toList, "4".toList]) cliOptionsInit).1 = 0 ∧
    (cliParse (sampleArgv ++ ["--swap-slots".toList, "4".toList]) cliOptionsInit).2.tracePath =
      (traceGeneratorParse sampleWords traceGeneratorOptionsInit).2.outputPath.map String.toList := by
  decide +kernel

theorem sampleWords_values :
    (traceGeneratorParse sampleWords traceGeneratorOptionsInit).2.baseAddress.toNat = 0x1000 ∧
    (traceGeneratorParse sampleWords traceGeneratorOptionsInit).2.pageCount.toNat = 5 ∧
    (traceGeneratorParse sampleWords traceGeneratorOptionsInit).2.accessCount.toNat = 12 ∧
    (traceGeneratorParse sampleWords traceGeneratorOptionsInit).2.pattern = .sequential ∧
    (simulatorMemory sampleDevices
      (cliParse (sampleArgv ++ ["--swap-slots".toList, "4".toList]) cliOptionsInit).2
      ((traceGeneratorMain true sampleWords traceGeneratorOptionsInit).disk fun _ => none)).1.isSome =
        true ∧
    (cliParse (sampleArgv ++ ["--swap-slots".toList, "4".toList]) cliOptionsInit).2.frameCount = 2 ∧
    (cliParse (sampleArgv ++ ["--swap-slots".toList, "4".toList]) cliOptionsInit).2.swapSlots = 4 ∧
    (cliParse (sampleArgv ++ ["--swap-slots".toList, "4".toList]) cliOptionsInit).2.tracePath =
      some "t".toList ∧
    (cliParse (sampleArgv ++ ["--swap-slots".toList, "4".toList]) cliOptionsInit).2.csvPath =
      some "c".toList ∧
    (cliParse (sampleArgv ++ ["--swap-slots".toList, "4".toList]) cliOptionsInit).2.swapPath =
      "bin/vmsim.swap".toList ∧
    (cliParse (sampleArgv ++ ["--swap-slots".toList, "4".toList]) cliOptionsInit).2.policy ≠
      .aging := by
  decide +kernel

theorem generatedTrace_simulated_sequential : ∃ (exit : SimulatorExit) (final : VirtualMemory),
    simulatorMain sixDigits
        ((traceGeneratorMain true sampleWords traceGeneratorOptionsInit).disk fun _ => none)
        sampleDevices (sampleArgv ++ ["--swap-slots".toList, "4".toList]) cliOptionsInit =
      some exit ∧ exit.reported = some (12, final.stats) ∧ final.stats.pageFaults = 12 := by
  have hparsed := sampleWords_parsed
  have hvalues := sampleWords_values
  cases hgenerator : traceGeneratorParse sampleWords traceGeneratorOptionsInit with
  | mk gcode generated =>
    cases hparse : cliParse (sampleArgv ++ ["--swap-slots".toList, "4".toList]) cliOptionsInit with
    | mk code options =>
      rw [hgenerator, hparse] at hparsed hvalues
      obtain ⟨hgzero, hzero, htrace⟩ := hparsed
      obtain ⟨hbase, hpages, haccesses, hpattern, hmemory, hframes, hslots, hpath, hcsv, hswap,
        hpolicy⟩ := hvalues
      dsimp only at hgzero hzero htrace hbase hpages haccesses hpattern hmemory hframes hslots
      dsimp only at hpath hcsv hswap hpolicy
      subst hgzero hzero
      obtain ⟨memory, hmemory⟩ := Option.isSome_iff_exists.mp hmemory
      obtain ⟨_, exit, final, hmain, _, hreported, hmetrics⟩ := generatedTrace_simulated
        sixDigits (fun _ => none) hgenerator hparse htrace hmemory
        ⟨fun _ => rfl, rfl, rfl, rfl, rfl⟩
        (by rw [hframes]; decide) (by rw [hpath, hswap]; decide) (by rw [hcsv, hswap]; decide)
        (by rw [hbase, hpages]; decide) (by rw [haccesses]; decide)
        (by rw [hpages, hframes, hslots]; decide)
      rw [haccesses] at hreported
      exact ⟨exit, final, hmain, hreported, (hmetrics.thrashes hpattern
        (by rw [hpages, hframes]; decide) hpolicy).trans haccesses⟩

end VmSim
