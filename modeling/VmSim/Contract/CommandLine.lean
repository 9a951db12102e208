/-
VmSim.Contract.CommandLine — what the command lines can say.

Both programs take a table of options. What a command line gives is a
configuration that passes all checks behind it, and every such
configuration can be given; of the settings of one option the last one
counts.
-/
import VmSim.Cli
import VmSim.Trace.Options

namespace VmSim

open Lib

variable {words words' : List (List Char)}

/-- **The simulator can be given exactly the valid configurations**: a
trace, sizes of which none is zero, and a pid that is an `int` and not
negative. Whatever the options held before does not matter. -/
theorem cliParse_configurations (name : List Char) (options configuration : CliArguments) :
    (∃ words, cliParse (name :: words) options = (0, configuration)) ↔
      configuration.Valid ∧ configuration.tracePath.isSome = true :=
  parseCommandLine_range cliOption_yields (fun _ hvalid => hvalid.spells) cliOptionsInit_valid
    CliSetting.apply_valid (fun _ hvalid => hvalid.toSettings)
    fun _ hvalid => hvalid.applyAll_toSettings

/-- **The last setting of every option counts**, in whatever order the
options are given, and whatever comes after them. -/
theorem cliParse_lastOf {settings settings' : List CliSetting}
    (h : Spells cliOption words settings) (h' : Spells cliOption words' settings')
    (hlast : ∀ kind, lastOf CliSetting.kind kind settings = lastOf CliSetting.kind kind settings')
    (name : List Char) (rest : List (List Char)) (options : CliArguments) :
    cliParse (name :: (words ++ rest)) options = cliParse (name :: (words' ++ rest)) options :=
  parseCommandLine_congr h h' (applyAll_congr CliSetting.apply_comm CliSetting.apply_over hlast) rest

/-- A number of frames that is given again, before and after a flag. -/
theorem cliParse_lastOf_frames :
    cliParse ("vmsim".toList :: (["--frames".toList, "8".toList, "--keep-swap".toList,
      "--frames".toList, "2".toList] ++ ["--trace".toList, "t".toList])) cliOptionsInit =
    cliParse ("vmsim".toList :: (["--frames".toList, "2".toList, "--keep-swap".toList] ++
      ["--trace".toList, "t".toList])) cliOptionsInit := by
  have hsize : ∀ n text, stored (cliParseSize (some text) (some 0)) = some n →
      Spells cliOption ["--frames".toList, text] [.frames n] := by
    intro n text htext
    exact .value (by simp [cliOption]; rfl) (by simp [htext]) .nil
  have hkeep : Spells cliOption ["--keep-swap".toList] [.keepSwap] :=
    .flag (by simp [cliOption]) .nil
  have height := hsize 8 "8".toList (by decide +kernel)
  have htwo := hsize 2 "2".toList (by decide +kernel)
  refine cliParse_lastOf (height.append (hkeep.append htwo)) (htwo.append hkeep) (fun kind => ?_) _ _ _
  by_cases hframes : CliSetting.kind (.frames 2) = kind
  · subst hframes
    rfl
  · by_cases hkind : CliSetting.kind .keepSwap = kind
    · subst hkind
      rfl
    · have hframes' : CliSetting.kind (.frames 8) ≠ kind := hframes
      simp [lastOf, hframes, hframes', hkind]

/-- **The generator can be given exactly the options it accepts**, except
that the pages may reach beyond the last address: then, and only then, it
refuses what its command line has accepted. -/
theorem traceGeneratorParse_configurations (name : List Char)
    (options configuration : TraceGeneratorArguments) :
    ((∃ words, traceGeneratorParse (name :: words) options = (0, configuration)) ↔
      configuration.Valid ∧ configuration.outputPath.isSome = true) ∧
    ∀ words, traceGeneratorParse (name :: words) options = (0, configuration) →
      (traceGeneratorGenerate configuration.toTraceGeneratorOptions = none ↔
        wordSize ≤
          configuration.baseAddress.toNat + (configuration.pageCount.toNat - 1) * pageSize) := by
  refine ⟨traceGeneratorParse_range, fun words hparse => ?_⟩
  obtain ⟨hvalid, houtput⟩ := traceGeneratorParse_valid hparse
  exact hvalid.generate_none houtput

end VmSim
