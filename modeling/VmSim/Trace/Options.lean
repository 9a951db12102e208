/-
VmSim.Trace.Options — the command line of the trace generator (the first
half of `src/trace_generator.c`).

The words are read into settings, as those of the simulator are. Sizes
are `size_t`, and `unsigned long` is as wide as `unsigned long long`.
-/
import VmSim.OptionSizes
import VmSim.Trace.Generator

namespace VmSim

open Lib

/-- `TraceGeneratorOptions` with the field that the generator does not
look at. -/
structure TraceGeneratorArguments extends TraceGeneratorOptions where
  showHelp : Bool

def traceGeneratorOptionsInit : TraceGeneratorArguments where
  outputPath := none
  pattern := .sequential
  pageCount := 16
  accessCount := 1000
  seed := 1
  baseAddress := 0x1000
  writePercentage := 20
  showHelp := false

def traceParseUint64 (text : Option (List Char)) (value : Option Nat) : Int × Option Nat :=
  match text, value with
  | some text, some _ =>
    if text = [] ∨ text.head? = some '-' then (-1, value)
    else
      let parsed := strtoullAnyBase text
      if parsed.2.2 ∨ parsed.2.1 = text ∨ parsed.2.1 ≠ [] then (-1, value)
      else (0, some parsed.1)
  | _, _ => (-1, value)

/-- `strtoul` reads as `strtoull` does. -/
def traceParsePercentage (text : Option (List Char)) (value : Option Nat) : Int × Option Nat :=
  match text, value with
  | some text, some _ =>
    if text = [] ∨ text.head? = some '-' then (-1, value)
    else
      let parsed := strtoull text
      if parsed.2.2 ∨ parsed.2.1 = text ∨ parsed.2.1 ≠ [] ∨ parsed.1 > 100 ∨
          parsed.1 > 2 ^ 32 - 1 then (-1, value)
      else (0, some parsed.1)
  | _, _ => (-1, value)

def traceParsePattern (text : List Char) : Option TracePattern :=
  if text = "sequential".toList then some .sequential
  else if text = "random".toList then some .random
  else none

def traceGeneratorPatternName : TracePattern → List Char
  | .sequential => "sequential".toList
  | .random => "random".toList

/-! ## The loop -/

/-- What an option changes; the numbers are not yet stored into their
words. -/
inductive TraceSetting where
  | output (path : List Char)
  | pattern (chosen : TracePattern)
  | pages (count : Nat)
  | accesses (count : Nat)
  | seed (number : Nat)
  | base (address : Nat)
  | writeRate (percentage : Nat)

def TraceSetting.apply : TraceSetting → TraceGeneratorArguments → TraceGeneratorArguments
  | .output path, options => { options with outputPath := some (String.ofList path) }
  | .pattern chosen, options => { options with pattern := chosen }
  | .pages count, options => { options with pageCount := UInt64.ofNat count }
  | .accesses count, options => { options with accessCount := UInt64.ofNat count }
  | .seed number, options => { options with seed := UInt64.ofNat number }
  | .base address, options => { options with baseAddress := UInt64.ofNat address }
  | .writeRate percentage, options =>
    { options with writePercentage := UInt32.ofNat percentage }

/-- The tests of the loop of `trace_generator_parse`. -/
def traceOption (argument : List Char) : Option (CommandOption TraceSetting) :=
  if argument = "--help".toList ∨ argument = "-h".toList then some .help
  else if argument = "--output".toList then some (.value fun text => some (.output text))
  else if argument = "--pattern".toList then
    some (.value fun text => (traceParsePattern text).map .pattern)
  else if argument = "--pages".toList then
    some (.value fun text => (stored (traceParseSize (some text) (some 0))).map .pages)
  else if argument = "--accesses".toList then
    some (.value fun text => (stored (traceParseSize (some text) (some 0))).map .accesses)
  else if argument = "--seed".toList then
    some (.value fun text => (stored (traceParseUint64 (some text) (some 0))).map .seed)
  else if argument = "--base".toList then
    some (.value fun text => (stored (traceParseUint64 (some text) (some 0))).map .base)
  else if argument = "--write-rate".toList then
    some (.value fun text => (stored (traceParsePercentage (some text) (some 0))).map .writeRate)
  else none

def traceGeneratorParse (argv : List (List Char)) (options : TraceGeneratorArguments) :
    Int × TraceGeneratorArguments :=
  parseCommandLine traceOption TraceSetting.apply traceGeneratorOptionsInit
    (fun options => { options with showHelp := true }) (fun options => options.outputPath.isSome)
    argv options

/-! ## Settings -/

/-- The words of the target hold the number. -/
def TraceSetting.Valid : TraceSetting → Prop
  | .pages n | .accesses n => 0 < n ∧ n ≤ sizeMax
  | .seed n | .base n => n < wordSize
  | .writeRate n => n ≤ 100
  | _ => True

variable {text : List Char} {n : Nat}

theorem strtoullAnyBase_lt (text : List Char) : (strtoullAnyBase text).1 < wordSize := by
  unfold strtoullAnyBase
  dsimp only
  split
  · exact Nat.two_pow_pos 64
  · exact unsignedOf_lt _ _

theorem traceParseUint64_stored (h : stored (traceParseUint64 (some text) (some 0)) = some n) :
    n < wordSize := by
  have hread := stored_eq.mp h
  simp only [traceParseUint64] at hread
  split at hread
  · cases hread
  · split at hread
    · cases hread
    · cases hread
      exact strtoullAnyBase_lt text

theorem traceParsePercentage_stored
    (h : stored (traceParsePercentage (some text) (some 0)) = some n) : n ≤ 100 := by
  have hread := stored_eq.mp h
  simp only [traceParsePercentage] at hread
  split at hread
  · cases hread
  · split at hread
    · cases hread
    · cases hread
      omega

/-- No word gives a setting that is not valid. -/
theorem traceOption_yields (word : List Char) :
    ∀ option, traceOption word = some option → option.Yields TraceSetting.Valid := by
  have hhelp : CommandOption.help.Yields TraceSetting.Valid := trivial
  apply CommandOption.Yields.ite hhelp
  apply CommandOption.Yields.ite (.text fun _ => trivial)
  apply CommandOption.Yields.ite (.map fun _ _ _ => trivial)
  apply CommandOption.Yields.ite (.map fun _ _ => parseSize_stored)
  apply CommandOption.Yields.ite (.map fun _ _ => parseSize_stored)
  apply CommandOption.Yields.ite (.map fun _ _ => traceParseUint64_stored)
  apply CommandOption.Yields.ite (.map fun _ _ => traceParseUint64_stored)
  apply CommandOption.Yields.ite (.map fun _ _ => traceParsePercentage_stored)
  intro option h
  cases h

/-! ## Words -/

@[simp] theorem traceParsePattern_name (pattern : TracePattern) :
    traceParsePattern (traceGeneratorPatternName pattern) = some pattern := by
  cases pattern with
  | sequential => exact if_pos rfl
  | random => rfl

/-- The number as the usage text and the trace print addresses. -/
theorem traceParseUint64_printHex (hn : n < wordSize) (value : Nat) :
    traceParseUint64 (some ('0' :: 'x' :: printHex 16 n)) (some value) = (0, some n) := by
  have hread := strtoullAnyBase_printHex hn 16
  simp [traceParseUint64, hread]

theorem traceParsePercentage_decimal (hn : n ≤ 100) (value : Nat) :
    traceParsePercentage (some (Numeral.decimal n).text) (some value) = (0, some n) := by
  have hhead : (Numeral.decimal n).text.head? ≠ some '-' := Numeral.head_other (.inr (by simp))
  have hvalue : (Numeral.decimal n).value = n := by
    simp [Numeral.value, unsignedOf]
    omega
  have hguard : ¬((Numeral.decimal n).text = [] ∨ (Numeral.decimal n).text.head? = some '-') :=
    not_or.mpr ⟨(Numeral.decimal n).text_ne, hhead⟩
  simp only [traceParsePercentage]
  rw [if_neg hguard, strtoull_text, hvalue, if_neg]
  simp [(Numeral.decimal n).text_ne.symm]
  omega

/-- Words that give the setting. -/
def TraceSetting.words : TraceSetting → List (List Char)
  | .output path => ["--output".toList, path]
  | .pattern chosen => ["--pattern".toList, traceGeneratorPatternName chosen]
  | .pages count => ["--pages".toList, (Numeral.decimal count).text]
  | .accesses count => ["--accesses".toList, (Numeral.decimal count).text]
  | .seed number => ["--seed".toList, '0' :: 'x' :: printHex 16 number]
  | .base address => ["--base".toList, '0' :: 'x' :: printHex 16 address]
  | .writeRate percentage => ["--write-rate".toList, (Numeral.decimal percentage).text]

/-- Every valid setting can be given. -/
theorem TraceSetting.Valid.spells {setting : TraceSetting} (h : setting.Valid) :
    Spells traceOption setting.words [setting] := by
  have hsize : ∀ n, 0 < n → n ≤ sizeMax →
      stored (traceParseSize (some (Numeral.decimal n).text) (some 0)) = some n :=
    fun n hpos hn => parseSize_decimal hpos hn 0
  cases setting with
  | output path => exact .value (by simp [traceOption]; rfl) rfl .nil
  | pattern chosen => exact .value (by simp [traceOption]; rfl) (by simp) .nil
  | pages n => exact .value (by simp [traceOption]; rfl) (by simp [hsize n h.1 h.2]) .nil
  | accesses n => exact .value (by simp [traceOption]; rfl) (by simp [hsize n h.1 h.2]) .nil
  | seed n =>
    refine .value (by simp [traceOption]; rfl) ?_ .nil
    simp [traceParseUint64_printHex h, stored]
  | base n =>
    refine .value (by simp [traceOption]; rfl) ?_ .nil
    simp [traceParseUint64_printHex h, stored]
  | writeRate n =>
    refine .value (by simp [traceOption]; rfl) ?_ .nil
    simp [traceParsePercentage_decimal h, stored]

/-! ## The options -/

/-- What the options of a command line satisfy, an output given or not. -/
structure TraceGeneratorArguments.Valid (options : TraceGeneratorArguments) : Prop where
  pageCount : options.pageCount ≠ 0
  accessCount : options.accessCount ≠ 0
  writePercentage : options.writePercentage ≤ 100
  showHelp : options.showHelp = false

variable {options : TraceGeneratorArguments}

theorem ofNat_size_ne (hpos : 0 < n) (hn : n ≤ sizeMax) : UInt64.ofNat n ≠ 0 := by
  have hlt : n < 2 ^ 64 := Nat.lt_of_le_of_lt hn (by decide)
  rw [ne_eq, ← UInt64.toNat_inj, UInt64.toNat_ofNat_of_lt' hlt]
  exact hpos.ne'

theorem ofNat_percentage_le (hn : n ≤ 100) : UInt32.ofNat n ≤ 100 := by
  rw [UInt32.le_iff_toNat_le, UInt32.toNat_ofNat_of_lt' (Nat.lt_of_le_of_lt hn (by decide))]
  exact hn

theorem TraceSetting.apply_valid (setting : TraceSetting) (options : TraceGeneratorArguments)
    (hvalid : setting.Valid) (h : options.Valid) : (setting.apply options).Valid := by
  obtain ⟨hpages, haccesses, hrate, hhelp⟩ := h
  cases setting with
  | pages n => exact ⟨ofNat_size_ne hvalid.1 hvalid.2, haccesses, hrate, hhelp⟩
  | accesses n => exact ⟨hpages, ofNat_size_ne hvalid.1 hvalid.2, hrate, hhelp⟩
  | writeRate n => exact ⟨hpages, haccesses, ofNat_percentage_le hvalid, hhelp⟩
  | _ => exact ⟨hpages, haccesses, hrate, hhelp⟩

theorem traceGeneratorOptionsInit_valid : traceGeneratorOptionsInit.Valid := by
  constructor <;> decide

/-- The settings that make the defaults the given options. -/
def TraceGeneratorArguments.toSettings (options : TraceGeneratorArguments) : List TraceSetting :=
  options.outputPath.toList.map (fun path => .output path.toList) ++
    [.pattern options.pattern, .pages options.pageCount.toNat,
      .accesses options.accessCount.toNat, .seed options.seed.toNat,
      .base options.baseAddress.toNat, .writeRate options.writePercentage.toNat]

theorem TraceGeneratorArguments.Valid.applyAll_toSettings (h : options.Valid) :
    applyAll TraceSetting.apply options.toSettings traceGeneratorOptionsInit = options := by
  obtain ⟨⟨output, _, _, _, _, _, _⟩, _⟩ := options
  obtain rfl : _ = false := h.showHelp
  cases output <;>
    simp [toSettings, TraceSetting.apply, traceGeneratorOptionsInit, String.ofList_toList]

theorem TraceGeneratorArguments.Valid.toSettings (h : options.Valid) :
    ∀ setting ∈ options.toSettings, setting.Valid := by
  have hsize : ∀ n : UInt64, n ≠ 0 → 0 < n.toNat ∧ n.toNat ≤ sizeMax := by
    intro n hn
    have hlt := n.toNat_lt
    rw [ne_eq, ← UInt64.toNat_inj] at hn
    exact ⟨Nat.pos_of_ne_zero hn, by rw [sizeMax]; omega⟩
  intro setting hmem
  simp only [TraceGeneratorArguments.toSettings, List.mem_append, List.mem_map, List.mem_cons,
    List.not_mem_nil, or_false] at hmem
  obtain ⟨_, _, rfl⟩ | rfl | rfl | rfl | rfl | rfl | rfl := hmem
  · trivial
  · trivial
  · exact hsize _ h.pageCount
  · exact hsize _ h.accessCount
  · exact options.seed.toNat_lt
  · exact options.baseAddress.toNat_lt
  · exact UInt32.le_iff_toNat_le.mp h.writePercentage

/-- The command lines that are accepted give just the valid options with an
output. -/
theorem traceGeneratorParse_range {name : List Char} {before : TraceGeneratorArguments} :
    (∃ words, traceGeneratorParse (name :: words) before = (0, options)) ↔
      options.Valid ∧ options.outputPath.isSome = true :=
  parseCommandLine_range traceOption_yields (fun _ hvalid => hvalid.spells)
    traceGeneratorOptionsInit_valid TraceSetting.apply_valid (fun _ hvalid => hvalid.toSettings)
    fun _ hvalid => hvalid.applyAll_toSettings

theorem traceGeneratorParse_valid {argv : List (List Char)} {before : TraceGeneratorArguments}
    (h : traceGeneratorParse argv before = (0, options)) :
    options.Valid ∧ options.outputPath.isSome = true := by
  cases argv with
  | nil => cases h
  | cons name words => exact traceGeneratorParse_range.mp ⟨words, h⟩

/-! ## What the generator makes of them -/

/-- The pages are in range if the last one is. -/
theorem traceAddressRangeIsValid_iff {options : TraceGeneratorOptions}
    (hpages : options.pageCount ≠ 0) : traceAddressRangeIsValid options = true ↔
      options.baseAddress.toNat + (options.pageCount.toNat - 1) * pageSize < wordSize := by
  have hbase := options.baseAddress.toNat_lt
  have hpos : 0 < options.pageCount.toNat := by
    rw [ne_eq, ← UInt64.toNat_inj] at hpages
    exact Nat.pos_of_ne_zero hpages
  have hlast : (options.pageCount - 1).toNat = options.pageCount.toNat - 1 :=
    UInt64.toNat_sub_of_le _ _ (UInt64.le_iff_toNat_le.mpr hpos)
  have hroom : (0xFFFFFFFFFFFFFFFF - options.baseAddress).toNat =
      2 ^ 64 - 1 - options.baseAddress.toNat := by
    have hle : options.baseAddress ≤ 0xFFFFFFFFFFFFFFFF := by
      rw [UInt64.le_iff_toNat_le]
      simp only [UInt64.reduceToNat]
      omega
    exact UInt64.toNat_sub_of_le _ _ hle
  simp only [traceAddressRangeIsValid, Bool.and_eq_true, bne_iff_ne, ne_eq, hpages,
    not_false_eq_true, true_and, Bool.not_eq_true', decide_eq_false_iff_not, gt_iff_lt,
    UInt64.not_lt, UInt64.le_iff_toNat_le, UInt64.toNat_div, hlast, hroom]
  simp only [UInt64.reduceToNat, pageSize, wordSize]
  omega

/-- Of what its command line accepts, the generator refuses a range of
pages that wraps. -/
theorem TraceGeneratorArguments.Valid.generate_none (h : options.Valid)
    (houtput : options.outputPath.isSome = true) :
    traceGeneratorGenerate options.toTraceGeneratorOptions = none ↔
      wordSize ≤ options.baseAddress.toNat + (options.pageCount.toNat - 1) * pageSize := by
  have hrate : ¬options.writePercentage > 100 := UInt32.not_lt.mpr h.writePercentage
  have hsome : options.outputPath.isNone = false := by
    rw [← Option.not_isSome, houtput]
    rfl
  have hrange := traceAddressRangeIsValid_iff h.pageCount
  unfold traceGeneratorGenerate
  rw [← Nat.not_lt, ← hrange]
  simp [hsome, h.pageCount, h.accessCount, hrate]

end VmSim
