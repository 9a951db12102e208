/-
VmSim.Contract.TraceComments — ignored lines, and what a long one does.

`fgets` cuts a line after 255 characters, and the loop of
`trace_reader_next` takes what is left of it for a line of its own. A
comment therefore changes nothing in a trace as long as each of its
pieces would be ignored on its own.
-/
import VmSim.Trace.Ignored

namespace VmSim

open Lib

/-- **Ignored lines.** Wherever it is inserted in a trace, a line that is
to be ignored changes none of the results, up to the end of the file or
the first error, exactly when its pieces after the first would be ignored
too. -/
theorem ignoredLine_changes_nothing {line : List Char} (hline : '\n' ∉ line)
    (hignored : IsIgnoredLine line) :
    (∀ before after : List Char, IsLineBoundary before → ∀ n,
      traceReaderRun n (traceReaderOpen (before ++ (line ++ '\n' :: after))) =
        traceReaderRun n (traceReaderOpen (before ++ after))) ↔
    ∀ k, IsIgnoredLine (cString (linePiece line (k + 1))) := by
  constructor
  · intro hsame k
    by_contra hpiece
    -- in front of the end of the file
    have hresult := traceReaderNext_piece [] (k + 1) hline hpiece
    have hone := hsame [] [] (.inl rfl) 1
    have hempty : traceReaderRun 1 (traceReaderOpen []) = [.endOfFile] := rfl
    rw [List.nil_append, List.nil_append, hempty, traceReaderRun] at hone
    generalize traceReaderNext (traceReaderOpen (line ++ ['\n'])) = next at hresult hone
    obtain ⟨result, reader⟩ := next
    cases result with
    | entry entry => cases hone
    | endOfFile => exact hresult rfl
    | invalid => cases hone
  · intro hpieces before after hbefore n
    have hall : ∀ k, IsIgnoredLine (cString (linePiece line k)) := by
      intro k
      cases k with
      | zero =>
        rw [linePiece_zero]
        exact hignored.of_prefix ((List.takeWhile_prefix _).trans (List.take_prefix _ _))
      | succ k => exact hpieces k
    have hskip := traceReaderNext_pieces after _ (Nat.le_refl _) hline hall
    exact TraceReader.Alike.run hskip n (.before hbefore none)

/-- A comment of 300 characters, read in two pieces, between two
accesses. -/
theorem ignoredLine_changes_nothing_rule :
    traceReaderRun 3 (traceReaderOpen (['R', ' ', '1', '\n'] ++ (List.replicate 300 '#' ++ '\n' ::
      ['W', ' ', '2', '\n']))) =
    traceReaderRun 3 (traceReaderOpen (['R', ' ', '1', '\n'] ++ ['W', ' ', '2', '\n'])) := by
  have hline : '\n' ∉ List.replicate 300 '#' := fun h =>
    absurd (List.eq_of_mem_replicate h) (by decide)
  have hsame := ignoredLine_changes_nothing hline fun c hc => .inl (Option.some.inj hc).symm
  refine hsame.mpr (fun k c hc => .inl ?_) _ _ (.inr rfl) 3
  -- a piece has no other characters
  have hmem := List.mem_of_mem_head? hc
  have hpiece := (List.takeWhile_sublist _).subset ((List.dropWhile_sublist _).subset hmem)
  rw [linePiece, List.drop_replicate, List.take_replicate] at hpiece
  exact List.eq_of_mem_replicate hpiece

/-- A comment of 259 characters, whose second piece is `R 10`. -/
def longComment : List Char := '#' :: (List.replicate 254 ' ' ++ ['R', ' ', '1', '0'])

/-- It adds an access to the empty trace. -/
theorem ignoredLine_adds_access :
    '\n' ∉ longComment ∧ IsIgnoredLine longComment ∧
      traceReaderRun 2 (traceReaderOpen ([] ++ (longComment ++ '\n' :: []))) =
        [.entry ⟨.read, 0x10, 1⟩, .endOfFile] ∧
      traceReaderRun 2 (traceReaderOpen ([] ++ [])) = [.endOfFile] := by
  refine ⟨by decide +kernel, fun c hc => .inl (Option.some.inj hc).symm, by decide +kernel, rfl⟩

end VmSim
