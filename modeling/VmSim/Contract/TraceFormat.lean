/-
VmSim.Contract.TraceFormat — which lines of a trace are accepted, and
with what.

The first format of `trace_parse_parameters` reads the address of a line
whose size stands behind a blank, so the second is not tried on it
(`sizeSyntaxes_agree`). Nothing looks behind what the formats read, and
they take an address that stands directly behind the operation letter,
a sign, or a numeral that does not fit (`malformed_refused`).
-/
import VmSim.Trace.Format

namespace VmSim

open Lib

/-! ## The two syntaxes of a size -/

/-- **The two size syntaxes.** A line with a comma and a line with a blank
are both read as the access with its address and its size exactly when
the size is 1. -/
theorem sizeSyntaxes_agree (a : SizedAccess) :
    (traceParseLine a.commaLine = a.line ∧ traceParseLine a.blankLine = a.line) ↔
      numeralValue 10 a.size = 1 := by
  have hblank : traceParseLine a.blankLine = a.line ↔ 1 = numeralValue 10 a.size := by
    rw [a.parse_blankLine, SizedAccess.line, traceOperationLine_inj]
    exact and_iff_right rfl
  rw [hblank]
  constructor
  · intro h
    exact h.2.symm
  · intro h
    exact ⟨a.parse_commaLine, h.symm⟩

/-- `R 10 4` -/
def blankSizeFour : SizedAccess where
  operation := 'R'
  mark := []
  address := ['1', '0']
  size := ['4']
  ending := ['\n']
  operation_valid := by decide
  mark_mem := .inl rfl
  address_ne := by decide
  address_digit := List.forall_mem_cons.mpr ⟨rfl, List.forall_mem_singleton.mpr rfl⟩
  address_fits := by decide
  size_ne := by decide
  size_digit := List.forall_mem_singleton.mpr rfl
  size_pos := by decide
  size_fits := by decide
  ending_mem := .inr rfl

/-- The size 4 of a line with a blank is read as 1. -/
theorem sizeSyntaxes_differ :
    blankSizeFour.blankLine = ['R', ' ', '1', '0', ' ', '4', '\n'] ∧
      blankSizeFour.line = .entry ⟨.read, 0x10, 4⟩ none ∧
      traceParseLine blankSizeFour.blankLine = .entry ⟨.read, 0x10, 1⟩ none ∧
      traceParseLine blankSizeFour.blankLine ≠ blankSizeFour.line := by
  have hread : traceParseLine blankSizeFour.blankLine = .entry ⟨.read, 0x10, 1⟩ none := by
    rw [blankSizeFour.parse_blankLine]
    rfl
  refine ⟨rfl, rfl, hread, ?_⟩
  rw [hread]
  intro h
  have hline : blankSizeFour.line = .entry ⟨.read, 0x10, 4⟩ none := rfl
  rw [hline] at h
  injection h with h
  injection h with _ _ h
  cases h

/-! ## Lines that are not well formed -/

/-- `fgets` on a line that is short enough, the last of its file or not. -/
theorem fgetsLine_short {line file : List Char} (hline : '\n' ∉ line)
    (hfile : file = [] ∨ file.head? = some '\n') {room : Nat} (hroom : line.length < room) :
    fgetsLine room (line ++ file) = (line ++ file.take 1, file.drop 1) := by
  cases file with
  | nil =>
    rw [List.append_nil, List.take_nil, List.append_nil, List.drop_nil]
    exact fgetsLine_last hline hroom
  | cons c file =>
    have hc : c = '\n' := by
      rcases hfile with h | h
      · cases h
      · exact Option.some.inj h
    subst hc
    exact fgetsLine_line hline file hroom

/-- A line that is not ignored decides the result. -/
theorem traceReaderNext_short {line file : List Char} {result : TraceResult}
    {pending : Option TraceEntry} (hne : line ≠ []) (hline : '\n' ∉ line)
    (hlength : line.length < 255) (hfile : file = [] ∨ file.head? = some '\n')
    (hparse : match traceParseLine (line ++ file.take 1) with
      | .ignored => False
      | .invalid => result = .invalid ∧ pending = none
      | .entry entry left => result = .entry entry ∧ pending = left) :
    traceReaderNext (traceReaderOpen (line ++ file)) = (result, ⟨file.drop 1, pending⟩) := by
  have hread := fgetsLine_short hline hfile (show line.length < traceLineSize - 1 from hlength)
  rw [traceReaderNext_step (List.append_ne_nil_of_left_ne_nil hne file), hread]
  dsimp only
  cases hline' : traceParseLine (line ++ file.take 1) with
  | ignored =>
    rw [hline'] at hparse
    cases hparse
  | invalid =>
    rw [hline'] at hparse
    rw [hparse.1, hparse.2]
    rfl
  | entry entry left =>
    rw [hline'] at hparse
    rw [hparse.1, hparse.2]

/-- **Malformed lines.** A line with an operation letter is refused, and
leaves no entry for later, exactly when the numeral that the letter is
followed by cannot be read or is followed by a size of 0; so the
malformed lines are all refused where they are of this kind. -/
theorem malformed_refused {line rest file : List Char} {c : Char} (hline : '\n' ∉ line)
    (hlength : line.length < 255) (hfile : file = [] ∨ file.head? = some '\n')
    (hfirst : line.dropWhile isSpace = c :: rest) (hc : isTraceOperation c) :
    (¬IsParameterField rest →
      traceReaderNext (traceReaderOpen (line ++ file)) = (.invalid, ⟨file.drop 1, none⟩)) ↔
    IsParameterField rest ∨ HasNoParameters (cString rest) := by
  have hne : line ≠ [] := by
    rintro rfl
    cases hfirst
  have hparameters : traceParseParameters (cString (rest ++ file.take 1)) =
      traceParseParameters (cString rest) := by
    rcases hfile with rfl | hhead
    · rw [List.take_nil, List.append_nil]
    · obtain ⟨after, rfl⟩ := List.head?_eq_some_iff.mp hhead
      exact traceParseParameters_newline rest
  have hstring := cString_dropWhile (isTraceOperation_notNull hc)
    (dropWhile_append_cons hfirst (file.take 1))
  have hparse := traceParseLine_operation hstring hc
  rw [hparameters] at hparse
  -- the line is refused exactly when its parameters are
  have hrefused : traceReaderNext (traceReaderOpen (line ++ file)) =
      (.invalid, ⟨file.drop 1, none⟩) ↔ HasNoParameters (cString rest) := by
    rw [← traceParseParameters_eq_none]
    cases hread : traceParseParameters (cString rest) with
    | none =>
      rw [hread] at hparse
      refine iff_of_true (traceReaderNext_short hne hline hlength hfile ?_) rfl
      rw [hparse]
      exact ⟨rfl, rfl⟩
    | some parameters =>
      rw [hread] at hparse
      obtain ⟨entry, left, hentry⟩ := traceOperationLine_entry c parameters.1 parameters.2
      dsimp only at hparse
      rw [hentry] at hparse
      have hnext : traceReaderNext (traceReaderOpen (line ++ file)) =
          (.entry entry, ⟨file.drop 1, left⟩) := by
        refine traceReaderNext_short hne hline hlength hfile ?_
        rw [hparse]
        exact ⟨rfl, rfl⟩
      refine iff_of_false (fun h => ?_) (fun h => by cases h)
      rw [hnext] at h
      cases h
  rw [hrefused]
  exact ⟨fun h => Classical.or_iff_not_imp_left.mpr h, fun h hnot => h.resolve_left hnot⟩

/-- The line `R 10,0` is refused for its size. -/
theorem malformed_refused_zeroSize : ¬IsParameterField [' ', '1', '0', ',', '0'] ∧
    traceReaderNext (traceReaderOpen (['R', ' ', '1', '0', ',', '0'] ++ ['\n'])) =
      (.invalid, ⟨[], none⟩) := by
  have hnone : traceParseParameters [' ', '1', '0', ',', '0'] = none := by decide
  have hmalformed : ¬IsParameterField [' ', '1', '0', ',', '0'] := fun h => h.read hnone
  have hrefused := malformed_refused (show '\n' ∉ ['R', ' ', '1', '0', ',', '0'] by decide)
    (by decide) (show ['\n'] = [] ∨ ['\n'].head? = some '\n' from .inr rfl)
    (show ['R', ' ', '1', '0', ',', '0'].dropWhile isSpace = 'R' :: [' ', '1', '0', ',', '0'] from
      rfl) (by decide)
  exact ⟨hmalformed, hrefused.mpr (.inr (traceParseParameters_eq_none.mp hnone)) hmalformed⟩

/-- The line `Rf` has no blank behind its letter, and is read as an
access to the address 15. -/
theorem malformed_accepted :
    ¬IsParameterField ['f'] ∧
      traceReaderNext (traceReaderOpen (['R', 'f'] ++ ['\n'])) =
        (.entry ⟨.read, 15, 1⟩, ⟨[], none⟩) := by
  constructor
  · intro h
    obtain ⟨c, hc, hspace⟩ := h.head
    rw [← Option.some.inj hc] at hspace
    exact absurd hspace (by decide)
  · decide

end VmSim
