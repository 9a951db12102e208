/-
VmSim.Cli — the command line of the simulator (`src/cli.c`).

A word of the command line is a list of characters. The options are read
into settings, of which `CliSetting.Valid` says what values they can have;
`CliArguments.Valid` says the same of the options as a whole. The functions
that read a value store it only on success, so it does not matter what
the target holds before.
-/
import VmSim.CsvExport
import VmSim.OptionSizes

namespace VmSim

open Lib

/-! ## Options -/

/-- `CliOptions` with the fields that are not exported. -/
structure CliArguments extends CliOptions where
  swapPath : List Char
  csvPath : Option (List Char)
  policy : ReplacementPolicyType
  removeSwapOnDestroy : Bool
  csvAppend : Bool
  showHelp : Bool

def cliOptionsInit : CliArguments where
  tracePath := none
  swapPath := "bin/vmsim.swap".toList
  csvPath := none
  frameCount := 4
  tlbEntries := 16
  swapSlots := 64
  pid := 1
  policy := .fifo
  removeSwapOnDestroy := true
  csvAppend := true
  showHelp := false

/-- `INT_MAX` -/
def intMax : Int := 2 ^ 31 - 1

def cliParsePid (text : Option (List Char)) (pid : Option Int) : Int × Option Int :=
  match text, pid with
  | some text, some _ =>
    if text = [] then (-1, pid)
    else
      let parsed := strtol text
      if parsed.2.2 ∨ parsed.2.1 = text ∨ parsed.2.1 ≠ [] ∨ parsed.1 < 0 ∨ parsed.1 > intMax then
        (-1, pid)
      else (0, some parsed.1)
  | _, _ => (-1, pid)

def cliParsePolicy (text : List Char) : Option ReplacementPolicyType :=
  if text = "fifo".toList then some .fifo
  else if text = "lru".toList then some .lru
  else if text = "clock".toList then some .clock
  else if text = "aging".toList then some .aging
  else none

/-! ## The loop -/

/-- What an option changes. -/
inductive CliSetting where
  | keepSwap
  | csvOverwrite
  | trace (path : List Char)
  | swap (path : List Char)
  | csv (path : List Char)
  | frames (count : Nat)
  | tlb (entries : Nat)
  | swapSlots (slots : Nat)
  | pid (number : Int)
  | policy (type : ReplacementPolicyType)

def CliSetting.apply : CliSetting → CliArguments → CliArguments
  | .keepSwap, options => { options with removeSwapOnDestroy := false }
  | .csvOverwrite, options => { options with csvAppend := false }
  | .trace path, options => { options with tracePath := some path }
  | .swap path, options => { options with swapPath := path }
  | .csv path, options => { options with csvPath := some path }
  | .frames count, options => { options with frameCount := count }
  | .tlb entries, options => { options with tlbEntries := entries }
  | .swapSlots slots, options => { options with swapSlots := slots }
  | .pid number, options => { options with pid := number }
  | .policy type, options => { options with policy := type }

/-- The tests of the loop of `cli_parse`. -/
def cliOption (argument : List Char) : Option (CommandOption CliSetting) :=
  if argument = "--help".toList ∨ argument = "-h".toList then some .help
  else if argument = "--keep-swap".toList then some (.flag .keepSwap)
  else if argument = "--csv-overwrite".toList then some (.flag .csvOverwrite)
  else if argument = "--trace".toList then some (.value fun text => some (.trace text))
  else if argument = "--swap".toList then some (.value fun text => some (.swap text))
  else if argument = "--csv".toList then some (.value fun text => some (.csv text))
  else if argument = "--frames".toList then
    some (.value fun text => (stored (cliParseSize (some text) (some 0))).map .frames)
  else if argument = "--tlb".toList then
    some (.value fun text => (stored (cliParseSize (some text) (some 0))).map .tlb)
  else if argument = "--swap-slots".toList then
    some (.value fun text => (stored (cliParseSize (some text) (some 0))).map .swapSlots)
  else if argument = "--pid".toList then
    some (.value fun text => (stored (cliParsePid (some text) (some 0))).map .pid)
  else if argument = "--policy".toList then
    some (.value fun text => (cliParsePolicy text).map .policy)
  else none

/-- `cli_parse` on options that hold anything. -/
def cliParse (argv : List (List Char)) (options : CliArguments) : Int × CliArguments :=
  parseCommandLine cliOption CliSetting.apply cliOptionsInit
    (fun options => { options with showHelp := true }) (fun options => options.tracePath.isSome)
    argv options

/-! ## Numbers -/

variable {text : List Char}

/-- The text is a decimal numeral for a process number. A minus sign is
read before a zero only. -/
def DenotesPid (text : List Char) (pid : Int) : Prop :=
  ∃ numeral : Numeral 10, text = numeral.text ∧ (numeral.sign = ['-'] → numeral.magnitude = 0) ∧
    (numeral.magnitude : Int) = pid ∧ pid ≤ intMax

theorem longOf_pid {negative : Bool} {magnitude : Nat} :
    (longOf negative magnitude).2 = false ∧ 0 ≤ (longOf negative magnitude).1 ∧
        (longOf negative magnitude).1 ≤ intMax ↔
      (negative = true → magnitude = 0) ∧ (magnitude : Int) ≤ intMax := by
  rw [longOf_nonneg (by decide)]
  simp [intMax]

theorem longOf_value {negative : Bool} {magnitude : Nat} (hsign : negative = true → magnitude = 0)
    (hfits : (magnitude : Int) ≤ intMax) : (longOf negative magnitude).1 = magnitude := by
  unfold longOf
  unfold intMax at hfits
  cases negative with
  | true => simp [hsign rfl]
  | false =>
    rw [if_neg Bool.false_ne_true, if_neg (by omega)]

/-- Process numbers are never misread. -/
theorem cliParsePid_reads (text : List Char) (value : Int) :
    (∀ pid, DenotesPid text pid → cliParsePid (some text) (some value) = (0, some pid)) ∧
      ((¬∃ pid, DenotesPid text pid) → cliParsePid (some text) (some value) = (-1, some value)) := by
  constructor
  · rintro pid ⟨numeral, rfl, hsign, rfl, hfits⟩
    have hsign' : (numeral.sign == ['-']) = true → numeral.magnitude = 0 := by simpa using hsign
    obtain ⟨hrange, hpos, hle⟩ := longOf_pid.mpr ⟨hsign', hfits⟩
    rw [longOf_value hsign' hfits] at hpos hle
    simp only [cliParsePid]
    rw [if_neg numeral.text_ne, strtol_text]
    dsimp only
    rw [longOf_value hsign' hfits, if_neg]
    simp [hrange, numeral.text_ne.symm, hle]
  · intro hnone
    simp only [cliParsePid]
    split
    · rfl
    · split
      · rfl
      · rename_i hread
        simp only [not_or, not_not, not_lt] at hread
        obtain ⟨hrange, hmoved, hend, hpos, hle⟩ := hread
        rw [strtol_end] at hmoved hend
        obtain ⟨numeral, rfl⟩ := numeral_of_strtoull hend hmoved
        rw [strtol_text] at hrange hpos hle
        obtain ⟨hsign, hfits⟩ := longOf_pid.mp ⟨by simpa using hrange, hpos, hle⟩
        exact absurd ⟨_, numeral, rfl, by simpa using hsign, rfl, hfits⟩ hnone

/-! ## Settings -/

def CliSetting.Valid : CliSetting → Prop
  | .frames n | .tlb n | .swapSlots n => 0 < n ∧ n ≤ sizeMax
  | .pid number => 0 ≤ number ∧ number ≤ intMax
  | _ => True

theorem cliParsePid_stored {pid : Int} (h : stored (cliParsePid (some text) (some 0)) = some pid) :
    0 ≤ pid ∧ pid ≤ intMax := by
  obtain ⟨_, hrefused⟩ := cliParsePid_reads text 0
  by_cases hdenotes : ∃ pid, DenotesPid text pid
  · obtain ⟨pid', hdenotes⟩ := hdenotes
    rw [(cliParsePid_reads text 0).1 pid' hdenotes] at h
    obtain ⟨numeral, _, _, rfl, hle⟩ := hdenotes
    cases h
    exact ⟨Int.natCast_nonneg _, hle⟩
  · rw [hrefused hdenotes] at h
    cases h

/-- No word gives a setting that is not valid. -/
theorem cliOption_yields (word : List Char) :
    ∀ option, cliOption word = some option → option.Yields CliSetting.Valid := by
  have hhelp : CommandOption.help.Yields CliSetting.Valid := trivial
  have hflag : ∀ setting : CliSetting, setting.Valid →
      (CommandOption.flag setting).Yields CliSetting.Valid := fun _ hvalid => hvalid
  apply CommandOption.Yields.ite hhelp
  apply CommandOption.Yields.ite (hflag .keepSwap trivial)
  apply CommandOption.Yields.ite (hflag .csvOverwrite trivial)
  apply CommandOption.Yields.ite (.text fun _ => trivial)
  apply CommandOption.Yields.ite (.text fun _ => trivial)
  apply CommandOption.Yields.ite (.text fun _ => trivial)
  apply CommandOption.Yields.ite (.map fun _ _ => parseSize_stored)
  apply CommandOption.Yields.ite (.map fun _ _ => parseSize_stored)
  apply CommandOption.Yields.ite (.map fun _ _ => parseSize_stored)
  apply CommandOption.Yields.ite (.map fun _ _ => cliParsePid_stored)
  apply CommandOption.Yields.ite (.map fun _ _ _ => trivial)
  intro option h
  cases h

/-! ## Words -/

def policyWord : ReplacementPolicyType → List Char
  | .fifo => "fifo".toList
  | .lru => "lru".toList
  | .clock => "clock".toList
  | .aging => "aging".toList

@[simp] theorem cliParsePolicy_policyWord (type : ReplacementPolicyType) :
    cliParsePolicy (policyWord type) = some type := by
  cases type <;> simp [cliParsePolicy, policyWord]

/-- Words that give the setting. -/
def CliSetting.words : CliSetting → List (List Char)
  | .keepSwap => ["--keep-swap".toList]
  | .csvOverwrite => ["--csv-overwrite".toList]
  | .trace path => ["--trace".toList, path]
  | .swap path => ["--swap".toList, path]
  | .csv path => ["--csv".toList, path]
  | .frames count => ["--frames".toList, (Numeral.decimal count).text]
  | .tlb entries => ["--tlb".toList, (Numeral.decimal entries).text]
  | .swapSlots slots => ["--swap-slots".toList, (Numeral.decimal slots).text]
  | .pid number => ["--pid".toList, (Numeral.decimal number.toNat).text]
  | .policy type => ["--policy".toList, policyWord type]

theorem cliParsePid_decimal {pid : Int} (hpos : 0 ≤ pid) (hle : pid ≤ intMax) (value : Int) :
    cliParsePid (some (Numeral.decimal pid.toNat).text) (some value) = (0, some pid) := by
  refine (cliParsePid_reads _ value).1 pid ⟨Numeral.decimal pid.toNat, rfl, ?_, ?_, hle⟩
  · simp
  · simpa using hpos

/-- Every valid setting can be given. -/
theorem CliSetting.Valid.spells {setting : CliSetting} (h : setting.Valid) :
    Spells cliOption setting.words [setting] := by
  have hsize : ∀ n, 0 < n → n ≤ sizeMax →
      stored (cliParseSize (some (Numeral.decimal n).text) (some 0)) = some n :=
    fun n hpos hn => parseSize_decimal hpos hn 0
  cases setting with
  | keepSwap => exact .flag (by simp [cliOption]) .nil
  | csvOverwrite => exact .flag (by simp [cliOption]) .nil
  | trace path => exact .value (by simp [cliOption]; rfl) rfl .nil
  | swap path => exact .value (by simp [cliOption]; rfl) rfl .nil
  | csv path => exact .value (by simp [cliOption]; rfl) rfl .nil
  | frames n => exact .value (by simp [cliOption]; rfl) (by simp [hsize n h.1 h.2]) .nil
  | tlb n => exact .value (by simp [cliOption]; rfl) (by simp [hsize n h.1 h.2]) .nil
  | swapSlots n => exact .value (by simp [cliOption]; rfl) (by simp [hsize n h.1 h.2]) .nil
  | pid number =>
    refine .value (by simp [cliOption]; rfl) ?_ .nil
    simp [cliParsePid_decimal h.1 h.2, stored]
  | policy type => exact .value (by simp [cliOption]; rfl) (by simp) .nil

/-! ## The options -/

/-- What the options of a command line satisfy, a trace given or not. -/
structure CliArguments.Valid (options : CliArguments) : Prop where
  frameCount : 0 < options.frameCount ∧ options.frameCount ≤ sizeMax
  tlbEntries : 0 < options.tlbEntries ∧ options.tlbEntries ≤ sizeMax
  swapSlots : 0 < options.swapSlots ∧ options.swapSlots ≤ sizeMax
  pid : 0 ≤ options.pid ∧ options.pid ≤ intMax
  showHelp : options.showHelp = false

variable {options : CliArguments}

theorem CliSetting.apply_valid (setting : CliSetting) (options : CliArguments)
    (hvalid : setting.Valid) (h : options.Valid) : (setting.apply options).Valid := by
  obtain ⟨hframes, htlb, hslots, hpid, hhelp⟩ := h
  cases setting with
  | frames n => exact ⟨hvalid, htlb, hslots, hpid, hhelp⟩
  | tlb n => exact ⟨hframes, hvalid, hslots, hpid, hhelp⟩
  | swapSlots n => exact ⟨hframes, htlb, hvalid, hpid, hhelp⟩
  | pid number => exact ⟨hframes, htlb, hslots, hvalid, hhelp⟩
  | _ => exact ⟨hframes, htlb, hslots, hpid, hhelp⟩

theorem cliOptionsInit_valid : cliOptionsInit.Valid := by
  constructor <;> simp [cliOptionsInit, sizeMax, intMax]

/-- The settings that make the defaults the given options. -/
def CliArguments.toSettings (options : CliArguments) : List CliSetting :=
  options.tracePath.toList.map .trace ++ options.csvPath.toList.map .csv ++
    (if options.removeSwapOnDestroy then [] else [.keepSwap]) ++
    (if options.csvAppend then [] else [.csvOverwrite]) ++
    [.swap options.swapPath, .frames options.frameCount, .tlb options.tlbEntries,
      .swapSlots options.swapSlots, .pid options.pid, .policy options.policy]

theorem CliArguments.Valid.applyAll_toSettings (h : options.Valid) :
    applyAll CliSetting.apply options.toSettings cliOptionsInit = options := by
  obtain ⟨⟨trace, _, _, _, _⟩, _, csv, _, remove, append, _⟩ := options
  obtain rfl : _ = false := h.showHelp
  cases trace <;> cases csv <;> cases remove <;> cases append <;> rfl

theorem CliArguments.Valid.toSettings (h : options.Valid) :
    ∀ setting ∈ options.toSettings, setting.Valid := by
  intro setting hmem
  simp only [CliArguments.toSettings, List.mem_append, List.mem_map, List.mem_cons,
    List.not_mem_nil, or_false] at hmem
  obtain ((((⟨_, _, rfl⟩ | ⟨_, _, rfl⟩) | hmem) | hmem) | rfl | rfl | rfl | rfl | rfl | rfl) := hmem
  · trivial
  · trivial
  · split at hmem
    · cases hmem
    · rw [List.mem_singleton.mp hmem]
      trivial
  · split at hmem
    · cases hmem
    · rw [List.mem_singleton.mp hmem]
      trivial
  · trivial
  · exact h.frameCount
  · exact h.tlbEntries
  · exact h.swapSlots
  · exact h.pid
  · trivial

/-! ## Repeated options -/

/-- The option that gives the setting. -/
def CliSetting.kind (setting : CliSetting) : Nat := setting.ctorIdx

theorem CliSetting.apply_comm (a b : CliSetting) (h : a.kind ≠ b.kind) (options : CliArguments) :
    a.apply (b.apply options) = b.apply (a.apply options) := by
  cases a <;> cases b <;> first | rfl | exact absurd rfl h

theorem CliSetting.apply_over (a b : CliSetting) (h : a.kind = b.kind) (options : CliArguments) :
    a.apply (b.apply options) = a.apply options := by
  cases a <;> cases b <;> first | rfl | cases h

end VmSim
