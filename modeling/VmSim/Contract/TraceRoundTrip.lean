/-
VmSim.Contract.TraceRoundTrip — a generated trace reads back as the
accesses that were chosen.

A line that the generator prints is read as one entry and leaves the rest
of the file alone (`traceReaderNext_line`); a whole trace is a sequence
of such lines.
-/
import VmSim.Trace.Reader
import VmSim.Trace.Generator

namespace VmSim

open Lib

/-! ## One line -/

/-- The type of the entry that a printed operation stands for. -/
def traceOperationType (operation : Char) : TraceAccessType :=
  if operation = 'R' then .read else .write

theorem printHex_notMem {c : Char} (hc : isDigitOf 16 c = false) (width n : Nat) :
    c ∉ printHex width n := by
  intro hin
  rw [printHex_digits width n c hin] at hc
  cases hc

theorem traceParseParameters_printHex {n : Nat} (hn : n < 2 ^ 64) :
    traceParseParameters (' ' :: '0' :: 'x' :: (printHex 16 n ++ ['\n'])) = some (n, 1) := by
  have hscan := scanUnsigned_printHex hn 16 (show isDigitOf 16 '\n' = false by decide) []
  have hspace : (' ' :: '0' :: 'x' :: (printHex 16 n ++ ['\n'])).dropWhile isSpace =
      '0' :: 'x' :: (printHex 16 n ++ ['\n']) := rfl
  have hvalues : sscanf [.space, .unsigned 16, .literal ',', .unsigned 10]
      (' ' :: '0' :: 'x' :: (printHex 16 n ++ ['\n'])) = [n] := by
    rw [sscanf, hspace, sscanf, hscan]
    rfl
  rw [traceParseParameters, hvalues]
  rfl

theorem traceParseLine_line {operation : Char} (hop : operation = 'R' ∨ operation = 'W')
    (address : UInt64) : traceParseLine (traceLine operation address) =
      .entry ⟨traceOperationType operation, address.toNat, 1⟩ none := by
  have hparameters := traceParseParameters_printHex address.toNat_lt
  have hnul : ∀ c ∈ traceLine operation address, (c != '\x00') = true := by
    intro c hc
    rw [bne_iff_ne]
    rintro rfl
    have hdigit := printHex_notMem (show isDigitOf 16 '\x00' = false by decide) 16 address.toNat
    rcases hop with rfl | rfl <;> simp [traceLine, hdigit] at hc
  have htext : (traceLine operation address).takeWhile (fun c => c != '\x00') =
      traceLine operation address := List.takeWhile_eq_self_iff.mpr hnul
  rw [traceParseLine, htext]
  rcases hop with rfl | rfl
  · rw [traceLine, List.dropWhile_cons, if_neg (by decide)]
    simp [hparameters, traceOperationType]
  · rw [traceLine, List.dropWhile_cons, if_neg (by decide)]
    simp [hparameters, traceOperationType]

theorem traceReaderNext_line {operation : Char} (hop : operation = 'R' ∨ operation = 'W')
    (address : UInt64) (rest : List Char) :
    traceReaderNext (traceReaderOpen (traceLine operation address ++ rest)) =
      (.entry ⟨traceOperationType operation, address.toNat, 1⟩, traceReaderOpen rest) := by
  have hlength : (printHex 16 address.toNat).length = 16 :=
    printHex_length (by decide) address.toNat_lt
  have hline : '\n' ∉ operation :: ' ' :: '0' :: 'x' :: printHex 16 address.toNat := by
    have hdigit := printHex_notMem (show isDigitOf 16 '\n' = false by decide) 16 address.toNat
    rcases hop with rfl | rfl <;> simp [hdigit]
  have hread := fgetsLine_line hline rest
    (show _ < traceLineSize - 1 by simp only [List.length_cons, hlength]; decide)
  have htext : traceLine operation address ++ rest =
      operation :: ' ' :: '0' :: 'x' :: printHex 16 address.toNat ++ '\n' :: rest := by
    simp [traceLine]
  have hwhole : operation :: ' ' :: '0' :: 'x' :: printHex 16 address.toNat ++ ['\n'] =
      traceLine operation address := rfl
  rw [hwhole] at hread
  rw [traceReaderNext, traceReaderOpen, htext]
  dsimp only
  rw [List.cons_append, List.length_cons, traceReadLines, if_neg (List.cons_ne_nil _ _),
    ← List.cons_append, hread]
  simp only [traceParseLine_line hop]
  rfl

/-! ## Whole traces -/

theorem traceReaderResults_lines (address : UInt64 × Char → UInt64)
    (choices : List (UInt64 × Char)) :
    (∀ choice ∈ choices, choice.2 = 'R' ∨ choice.2 = 'W') →
    traceReaderResults (choices.length + 1) (traceReaderOpen
      (choices.flatMap fun choice => traceLine choice.2 (address choice))) =
      choices.map (fun choice =>
        .entry ⟨traceOperationType choice.2, (address choice).toNat, 1⟩) ++ [.endOfFile] := by
  induction choices with
  | nil => exact fun _ => rfl
  | cons choice choices ih =>
    intro hops
    obtain ⟨hop, hrest⟩ := List.forall_mem_cons.mp hops
    rw [List.flatMap_cons, List.length_cons, traceReaderResults, traceReaderNext_line hop,
      ih hrest]
    rfl

/-- **Generated traces read back.** The trace of accepted options is read
as one entry of size 1 for every access, and then as the end of the file;
the addresses are those of pages in range and do not wrap, different
pages have different page numbers, and pages and types agree with the
pattern and the rate. -/
theorem generatedTrace_reads_back {options : TraceGeneratorOptions} {text : List Char}
    (h : traceGeneratorGenerate options = some text) :
    ∃ (page : Nat → Nat) (type : Nat → TraceAccessType),
      traceReaderResults (options.accessCount.toNat + 1) (traceReaderOpen text) =
        ((List.range options.accessCount.toNat).map fun i =>
          .entry ⟨type i, options.baseAddress.toNat + page i * pageSize, 1⟩) ++ [.endOfFile] ∧
      (∀ i < options.accessCount.toNat, page i < options.pageCount.toNat ∧
        options.baseAddress.toNat + page i * pageSize < 2 ^ 64) ∧
      (∀ i < options.accessCount.toNat, ∀ j < options.accessCount.toNat, page i ≠ page j →
        addressPageNumber (options.baseAddress.toNat + page i * pageSize) ≠
          addressPageNumber (options.baseAddress.toNat + page j * pageSize)) ∧
      (options.pattern = .sequential → ∀ i < options.accessCount.toNat,
        page i = i % options.pageCount.toNat) ∧
      (options.writePercentage = 0 → ∀ i < options.accessCount.toNat, type i = .read) ∧
      (options.writePercentage = 100 → ∀ i < options.accessCount.toNat, type i = .write) := by
  unfold traceGeneratorGenerate at h
  split at h
  · cases h
  · rename_i haccepted
    simp only [not_or, Bool.not_eq_true', Bool.not_eq_false] at haccepted
    obtain ⟨_, hpages, _, _, hrange⟩ := haccepted
    have hchosen := traceChoices_chosen hpages options.accessCount.toNat 0 options.seed
    have hlength := traceChoices_length options options.accessCount.toNat 0 options.seed
    cases h
    rw [traceGenerateFrom_choices]
    generalize traceChoices options options.accessCount.toNat 0 options.seed = choices
      at hchosen hlength ⊢
    -- the choice of an access, with a default past the end
    have hget : ∀ i < options.accessCount.toNat,
        choices[i]? = some (choices[i]?.getD (0, 'R')) := by
      intro i hi
      rw [List.getElem?_eq_getElem (hlength.symm ▸ hi)]
      rfl
    have hspec := fun i hi => hchosen i _ (hget i hi)
    have haddress := fun i hi => traceAddress_toNat hrange (hspec i hi).page
    refine ⟨fun i => (choices[i]?.getD (0, 'R')).1.toNat,
      fun i => traceOperationType (choices[i]?.getD (0, 'R')).2, ?_, fun i hi => ?_,
      fun i hi j hj hne => ?_, fun hpattern i hi => ?_, fun hrate i hi => ?_, fun hrate i hi => ?_⟩
    · have hops : ∀ choice ∈ choices, choice.2 = 'R' ∨ choice.2 = 'W' := by
        intro choice hin
        obtain ⟨i, hi⟩ := List.mem_iff_getElem?.mp hin
        exact (hchosen i choice hi).operation
      rw [← hlength, traceReaderResults_lines _ choices hops]
      congr 1
      refine List.ext_getElem? fun i => ?_
      rw [List.getElem?_map, List.getElem?_map]
      by_cases hi : i < choices.length
      · rw [List.getElem?_range hi, hget i (hlength ▸ hi), Option.map_some, Option.map_some,
          (haddress i (hlength ▸ hi)).2]
      · rw [List.getElem?_eq_none (Nat.le_of_not_lt hi), List.getElem?_eq_none (by simpa using hi)]
        rfl
    · exact ⟨UInt64.lt_iff_toNat_lt.mp (hspec i hi).page, (haddress i hi).1⟩
    · intro heq
      apply hne
      dsimp only at heq ⊢
      simp only [addressPageNumber, pageOffsetBits, pageSize, Nat.shiftRight_eq_div_pow] at heq
      omega
    · have hindex : ((0 : UInt64) + UInt64.ofNat i).toNat = i := by
        have hlt : i < 2 ^ 64 := hi.trans options.accessCount.toNat_lt
        rw [UInt64.zero_add, UInt64.toNat_ofNat_of_lt' hlt]
      show (choices[i]?.getD (0, 'R')).1.toNat = i % options.pageCount.toNat
      rw [(hspec i hi).sequential hpattern, UInt64.toNat_mod, hindex]
    · show traceOperationType _ = .read
      rw [(hspec i hi).neverWrites hrate]
      rfl
    · show traceOperationType _ = .write
      rw [(hspec i hi).alwaysWrites hrate]
      rfl

/-- Three accesses to two pages, all of them writes. -/
theorem generatedTrace_reads_back_sequential :
    ∃ text, traceGeneratorGenerate ⟨some "trace.txt", .sequential, 2, 3, 1, 0x1000, 100⟩ =
        some text ∧
      traceReaderResults 4 (traceReaderOpen text) =
        [.entry ⟨.write, 0x1000, 1⟩, .entry ⟨.write, 0x2000, 1⟩, .entry ⟨.write, 0x1000, 1⟩,
          .endOfFile] := by
  have hsome : (traceGeneratorGenerate
      ⟨some "trace.txt", .sequential, 2, 3, 1, 0x1000, 100⟩).isSome = true := by decide
  obtain ⟨text, htext⟩ := Option.isSome_iff_exists.mp hsome
  obtain ⟨page, type, hresults, _, _, hpage, _, htype⟩ := generatedTrace_reads_back htext
  refine ⟨text, htext, ?_⟩
  have hp : ∀ i < 3, page i = i % 2 := fun i hi => hpage rfl i hi
  have ht : ∀ i < 3, type i = .write := fun i hi => htype rfl i hi
  rw [show (3 : UInt64).toNat = 3 from rfl] at hresults
  simpa [List.range_succ, hp, ht, pageSize] using hresults

end VmSim
