/-
VmSim.Trace.Generator — writing memory traces (`src/trace_generator.c`).

The fields of the options and the state of the random numbers are machine
words; their arithmetic wraps as it does in C. The text is what ends up
in the output file, whose writing does not fail.
-/
import VmSim.Address
import VmSim.Lib.Scan

namespace VmSim

open Lib

inductive TracePattern where
  | sequential
  | random
  deriving DecidableEq

/-- `none` as output path stands for NULL. -/
structure TraceGeneratorOptions where
  outputPath : Option String
  pattern : TracePattern
  pageCount : UInt64
  accessCount : UInt64
  seed : UInt64
  baseAddress : UInt64
  writePercentage : UInt32

/-- The state after the next random number, which is that number. -/
def traceRandomNext (state : UInt64) : UInt64 :=
  state * 6364136223846793005 + 1442695040888963407

/-- No page of the range reaches beyond the last address. -/
def traceAddressRangeIsValid (options : TraceGeneratorOptions) : Bool :=
  options.pageCount != 0 &&
    !decide (options.pageCount - 1 > (0xFFFFFFFFFFFFFFFF - options.baseAddress) / 4096)

/-- The page of an access, and the state of the random numbers. -/
def traceChoosePage (options : TraceGeneratorOptions) (random accessIndex : UInt64) :
    UInt64 × UInt64 :=
  match options.pattern with
  | .sequential => (accessIndex % options.pageCount, random)
  | .random => (traceRandomNext random % options.pageCount, traceRandomNext random)

def traceChooseOperation (options : TraceGeneratorOptions) (random : UInt64) : Char × UInt64 :=
  let value := traceRandomNext random % 100
  (if value < options.writePercentage.toUInt64 then 'W' else 'R', traceRandomNext random)

/-- `"%c 0x%016llx\n"` -/
def traceLine (operation : Char) (address : UInt64) : List Char :=
  operation :: ' ' :: '0' :: 'x' :: (printHex 16 address.toNat ++ ['\n'])

/-- The loop of `trace_generator_generate`, some accesses before its
end. -/
def traceGenerateFrom (options : TraceGeneratorOptions) : Nat → UInt64 → UInt64 → List Char
  | 0, _, _ => []
  | n + 1, accessIndex, random =>
    let page := traceChoosePage options random accessIndex
    let address := options.baseAddress + page.1 * 4096
    let operation := traceChooseOperation options page.2
    traceLine operation.1 address ++ traceGenerateFrom options n (accessIndex + 1) operation.2

def traceGeneratorGenerate (options : TraceGeneratorOptions) : Option (List Char) :=
  if options.outputPath.isNone ∨ options.pageCount = 0 ∨ options.accessCount = 0 ∨
      options.writePercentage > 100 ∨ !traceAddressRangeIsValid options then none
  else some (traceGenerateFrom options options.accessCount.toNat 0 options.seed)

/-! ## The choices

What the generator writes is determined by the pages and operations it
chooses. -/

/-- The pages and operations chosen, in the order of the accesses. -/
def traceChoices (options : TraceGeneratorOptions) : Nat → UInt64 → UInt64 → List (UInt64 × Char)
  | 0, _, _ => []
  | n + 1, accessIndex, random =>
    let page := traceChoosePage options random accessIndex
    let operation := traceChooseOperation options page.2
    (page.1, operation.1) :: traceChoices options n (accessIndex + 1) operation.2

theorem traceGenerateFrom_choices (options : TraceGeneratorOptions) (n : Nat) :
    ∀ accessIndex random, traceGenerateFrom options n accessIndex random =
      (traceChoices options n accessIndex random).flatMap fun choice =>
        traceLine choice.2 (options.baseAddress + choice.1 * 4096) := by
  induction n with
  | zero => exact fun _ _ => rfl
  | succ n ih =>
    intro accessIndex random
    rw [traceGenerateFrom, traceChoices, List.flatMap_cons, ih]

theorem traceChoices_length (options : TraceGeneratorOptions) (n : Nat) :
    ∀ accessIndex random, (traceChoices options n accessIndex random).length = n := by
  induction n with
  | zero => exact fun _ _ => rfl
  | succ n ih =>
    intro accessIndex random
    rw [traceChoices, List.length_cons, ih]

variable {options : TraceGeneratorOptions}

theorem traceChoosePage_lt (h : options.pageCount ≠ 0) (random accessIndex : UInt64) :
    (traceChoosePage options random accessIndex).1 < options.pageCount := by
  have hpos : 0 < options.pageCount := UInt64.pos_iff_ne_zero.mpr h
  unfold traceChoosePage
  cases options.pattern <;> exact UInt64.mod_lt _ hpos

/-- What a choice keeps to: the range, the pattern and the rate. -/
structure TraceGeneratorOptions.Chosen (options : TraceGeneratorOptions) (accessIndex : UInt64)
    (choice : UInt64 × Char) : Prop where
  page : choice.1 < options.pageCount
  operation : choice.2 = 'R' ∨ choice.2 = 'W'
  sequential : options.pattern = .sequential → choice.1 = accessIndex % options.pageCount
  neverWrites : options.writePercentage = 0 → choice.2 = 'R'
  alwaysWrites : options.writePercentage = 100 → choice.2 = 'W'

theorem traceChoose_chosen (h : options.pageCount ≠ 0) (random random' accessIndex : UInt64) :
    options.Chosen accessIndex ((traceChoosePage options random accessIndex).1,
      (traceChooseOperation options random').1) := by
  refine ⟨traceChoosePage_lt h random accessIndex, ?_, fun hpattern => ?_, fun hrate => ?_,
    fun hrate => ?_⟩
  · rw [traceChooseOperation]
    dsimp only
    split
    · exact Or.inr rfl
    · exact Or.inl rfl
  · rw [traceChoosePage, hpattern]
  · have hzero : (0 : UInt32).toUInt64 = 0 := by decide
    have hnot : ¬ traceRandomNext random' % 100 < 0 := UInt64.not_lt.mpr UInt64.zero_le
    simp only [traceChooseOperation, hrate, hzero, if_neg hnot]
  · have hhundred : (100 : UInt32).toUInt64 = 100 := by decide
    have hlt : traceRandomNext random' % 100 < 100 := UInt64.mod_lt _ (by decide)
    simp only [traceChooseOperation, hrate, hhundred, if_pos hlt]

theorem traceChoices_chosen (h : options.pageCount ≠ 0) (n : Nat) :
    ∀ (accessIndex random : UInt64) (i : Nat) (choice : UInt64 × Char),
      (traceChoices options n accessIndex random)[i]? = some choice →
      options.Chosen (accessIndex + UInt64.ofNat i) choice := by
  induction n with
  | zero =>
    intro accessIndex random i choice hi
    cases hi
  | succ n ih =>
    intro accessIndex random i choice hi
    rw [traceChoices] at hi
    cases i with
    | zero =>
      have hindex : accessIndex + UInt64.ofNat 0 = accessIndex := UInt64.add_zero accessIndex
      rw [List.getElem?_cons_zero] at hi
      rw [hindex, ← Option.some.inj hi]
      exact traceChoose_chosen h random _ accessIndex
    | succ i =>
      have hone : UInt64.ofNat 1 = 1 := rfl
      have hindex : accessIndex + UInt64.ofNat (i + 1) = accessIndex + 1 + UInt64.ofNat i := by
        rw [UInt64.ofNat_add, UInt64.add_comm (UInt64.ofNat i), ← UInt64.add_assoc, hone]
      rw [List.getElem?_cons_succ] at hi
      rw [hindex]
      exact ih (accessIndex + 1) _ i choice hi

/-- The address of a page in range is computed without wrapping. -/
theorem traceAddress_toNat (h : traceAddressRangeIsValid options = true) {page : UInt64}
    (hpage : page < options.pageCount) :
    options.baseAddress.toNat + page.toNat * pageSize < wordSize ∧
      (options.baseAddress + page * 4096).toNat =
        options.baseAddress.toNat + page.toNat * pageSize := by
  simp only [traceAddressRangeIsValid, Bool.and_eq_true, bne_iff_ne, ne_eq, Bool.not_eq_true',
    decide_eq_false_iff_not, gt_iff_lt, UInt64.not_lt] at h
  obtain ⟨hpos, hrange⟩ := h
  have hbase := options.baseAddress.toNat_lt
  have hcount := options.pageCount.toNat_lt
  have hpos' : 0 < options.pageCount.toNat := by
    rw [UInt64.lt_iff_toNat_lt] at hpage
    omega
  have hlast : (options.pageCount - 1).toNat = options.pageCount.toNat - 1 := by
    have hone : (1 : UInt64) ≤ options.pageCount := UInt64.le_iff_toNat_le.mpr hpos'
    rw [UInt64.toNat_sub_of_le _ _ hone]
    rfl
  have hroom : (0xFFFFFFFFFFFFFFFF - options.baseAddress).toNat =
      2 ^ 64 - 1 - options.baseAddress.toNat := by
    have hle : options.baseAddress ≤ 0xFFFFFFFFFFFFFFFF := by
      rw [UInt64.le_iff_toNat_le]
      simp only [UInt64.reduceToNat]
      omega
    rw [UInt64.toNat_sub_of_le _ _ hle]
    rfl
  rw [UInt64.le_iff_toNat_le, UInt64.toNat_div, hlast, hroom] at hrange
  rw [UInt64.lt_iff_toNat_lt] at hpage
  simp only [UInt64.reduceToNat] at hrange
  have hfit : options.baseAddress.toNat + page.toNat * 4096 < 2 ^ 64 := by omega
  refine ⟨hfit, ?_⟩
  rw [UInt64.toNat_add, UInt64.toNat_mul]
  simp only [UInt64.reduceToNat, pageSize]
  omega

end VmSim
