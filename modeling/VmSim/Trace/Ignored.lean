/-
VmSim.Trace.Ignored — the lines of a trace that are passed over.

`traceParseLine_ignored` says which they are. A line that is longer than
the buffer is read in pieces, each as a line of its own, so it is passed
over when all of its pieces are (`traceReaderNext_pieces`). Two files that
are read alike are still read alike with the same lines before them
(`TraceReader.Alike.next`).
-/
import VmSim.Trace.Format

namespace VmSim

open Lib

/-- A blank line, or one whose first character that is no blank is `#`,
`I` or `i`. -/
def IsIgnoredLine (line : List Char) : Prop :=
  ∀ c ∈ (line.dropWhile isSpace).head?, c = '#' ∨ c = 'I' ∨ c = 'i'

/-- What the reader takes of a long line at a time. -/
def linePiece (line : List Char) (k : Nat) : List Char := (line.drop (255 * k)).take 255

/-! ## One line -/

theorem toUpper_eq_I {c : Char} : c.toUpper = 'I' ↔ c = 'I' ∨ c = 'i' := by
  constructor
  · intro h
    unfold Char.toUpper at h
    split at h
    · right
      have hsum := congrArg Char.val h
      dsimp only at hsum
      have hval : c.val = 'I'.val - ('A'.val - 'a'.val) := by
        rw [← hsum]
        simp
      apply Char.ext
      rw [hval]
      decide
    · exact .inl h
  · rintro (rfl | rfl) <;> rfl

theorem traceParseLine_ignored {line : List Char} :
    traceParseLine line = .ignored ↔ IsIgnoredLine (cString line) := by
  unfold traceParseLine IsIgnoredLine
  rw [cString]
  cases hline : (line.takeWhile fun c => c != '\x00').dropWhile isSpace with
  | nil => simp
  | cons c rest =>
    have hspace : isSpace c = false :=
      head_dropWhile (line.takeWhile fun c => c != '\x00') c (by rw [hline]; rfl)
    have hnewline : c ≠ '\n' := by
      rintro rfl
      exact absurd hspace (by decide)
    have hhead : (∀ d ∈ (c :: rest).head?, d = '#' ∨ d = 'I' ∨ d = 'i') ↔
        c = '#' ∨ c.toUpper = 'I' := by
      rw [toUpper_eq_I]
      simp
    rw [hhead]
    dsimp only
    by_cases hhash : c = '#'
    · simp [hhash]
    · by_cases hI : c.toUpper = 'I'
      · simp [hI]
      · rw [if_neg (not_or.mpr ⟨hnewline, hhash⟩), if_neg hI]
        refine iff_of_false ?_ (not_or.mpr ⟨hhash, hI⟩)
        split
        · exact fun h => by cases h
        · split
          · exact fun h => by cases h
          · split
            · exact fun h => by cases h
            · split <;> exact fun h => by cases h

/-- The end of the line changes nothing. -/
theorem isIgnoredLine_newline (line : List Char) :
    IsIgnoredLine (cString (line ++ ['\n'])) ↔ IsIgnoredLine (cString line) := by
  rcases cString_concat line with heq | heq
  · rw [heq]
  · rw [heq, IsIgnoredLine, IsIgnoredLine]
    cases hdrop : (cString line).dropWhile isSpace with
    | nil =>
      have hall := List.dropWhile_eq_nil_iff.mp hdrop
      rw [List.dropWhile_append_of_pos hall]
      exact Iff.rfl
    | cons d rest =>
      rw [dropWhile_append_cons hdrop]
      exact Iff.rfl

/-- The beginning of a line that is passed over would be too. -/
theorem IsIgnoredLine.of_prefix {line piece : List Char} (h : IsIgnoredLine line)
    (hpiece : piece <+: line) : IsIgnoredLine piece := by
  obtain ⟨rest, rfl⟩ := hpiece
  intro c hc
  cases hdrop : piece.dropWhile isSpace with
  | nil =>
    rw [hdrop] at hc
    cases hc
  | cons d more =>
    rw [hdrop] at hc
    exact h c (by rw [dropWhile_append_cons hdrop]; exact hc)

/-! ## A line that is read in pieces -/

theorem linePiece_zero (line : List Char) : linePiece line 0 = line.take 255 := rfl

theorem linePiece_drop (line : List Char) (k : Nat) :
    linePiece (line.drop 255) k = linePiece line (k + 1) := by
  rw [linePiece, linePiece, List.drop_drop]
  congr 2
  omega

/-- A piece that is passed over. -/
theorem traceReaderNext_ignored {file : List Char} (hne : file ≠ [])
    (h : IsIgnoredLine (cString (fgetsLine (traceLineSize - 1) file).1)) :
    traceReaderNext (traceReaderOpen file) =
      traceReaderNext (traceReaderOpen (fgetsLine (traceLineSize - 1) file).2) := by
  rw [traceReaderNext_step hne, traceParseLine_ignored.mpr h]

/-- The end of a short line is in its piece, which changes nothing. -/
theorem isIgnoredLine_fgetsLine {line : List Char} (hline : '\n' ∉ line) (rest : List Char) :
    IsIgnoredLine (cString (fgetsLine (traceLineSize - 1) (line ++ '\n' :: rest)).1) ↔
      IsIgnoredLine (cString (linePiece line 0)) := by
  rw [linePiece_zero]
  by_cases hfits : line.length < 255
  · rw [fgetsLine_line hline rest (show line.length < traceLineSize - 1 from hfits),
      List.take_of_length_le (Nat.le_of_lt hfits)]
    exact isIgnoredLine_newline line
  · rw [fgetsLine_long hline _ (show traceLineSize - 1 ≤ line.length from Nat.le_of_not_lt hfits)]
    exact Iff.rfl

theorem traceReaderNext_pieces (rest : List Char) (n : Nat) :
    ∀ {line : List Char}, line.length ≤ n → '\n' ∉ line →
      (∀ k, IsIgnoredLine (cString (linePiece line k))) →
      traceReaderNext (traceReaderOpen (line ++ '\n' :: rest)) =
        traceReaderNext (traceReaderOpen rest) := by
  induction n using Nat.strong_induction_on with
  | _ n ih =>
    intro line hlength hline hpieces
    have hne : line ++ '\n' :: rest ≠ [] := List.append_ne_nil_of_right_ne_nil _ (by simp)
    rw [traceReaderNext_ignored hne ((isIgnoredLine_fgetsLine hline rest).mpr (hpieces 0))]
    by_cases hfits : line.length < 255
    · rw [fgetsLine_line hline rest (show line.length < traceLineSize - 1 from hfits)]
    · have hlong : 255 ≤ line.length := Nat.le_of_not_lt hfits
      have hshort : (line.drop 255).length < n := by
        rw [List.length_drop]
        omega
      rw [fgetsLine_long hline _ (show traceLineSize - 1 ≤ line.length from hlong)]
      refine ih _ hshort (Nat.le_refl _) (fun h => hline (List.mem_of_mem_drop h)) fun k => ?_
      rw [show traceLineSize - 1 = 255 from rfl, linePiece_drop]
      exact hpieces (k + 1)

/-- With a piece that is not passed over something is returned before the
end of the file. -/
theorem traceReaderNext_piece (rest : List Char) (k : Nat) :
    ∀ {line : List Char}, '\n' ∉ line → ¬IsIgnoredLine (cString (linePiece line k)) →
      (traceReaderNext (traceReaderOpen (line ++ '\n' :: rest))).1 ≠ .endOfFile := by
  have hfirst : ∀ {line : List Char}, '\n' ∉ line →
      ¬IsIgnoredLine (cString (linePiece line 0)) →
      (traceReaderNext (traceReaderOpen (line ++ '\n' :: rest))).1 ≠ .endOfFile := by
    intro line hline hpiece
    have hne : line ++ '\n' :: rest ≠ [] := List.append_ne_nil_of_right_ne_nil _ (by simp)
    have hread := mt (isIgnoredLine_fgetsLine hline rest).mp hpiece
    rw [← traceParseLine_ignored] at hread
    rw [traceReaderNext_step hne]
    split
    · rename_i hignored
      exact absurd hignored hread
    · exact fun h => by cases h
    · exact fun h => by cases h
  induction k with
  | zero => exact hfirst
  | succ k ih =>
    intro line hline hpiece
    by_cases hzero : IsIgnoredLine (cString (linePiece line 0))
    · have hne : line ++ '\n' :: rest ≠ [] := List.append_ne_nil_of_right_ne_nil _ (by simp)
      have hlong : 255 ≤ line.length := by
        by_contra hfits
        apply hpiece
        rw [linePiece, List.drop_eq_nil_of_le (by omega)]
        exact fun c hc => by cases hc
      rw [traceReaderNext_ignored hne ((isIgnoredLine_fgetsLine hline rest).mpr hzero),
        fgetsLine_long hline _ (show traceLineSize - 1 ≤ line.length from hlong)]
      refine ih (fun h => hline (List.mem_of_mem_drop h)) ?_
      rw [show traceLineSize - 1 = 255 from rfl, linePiece_drop]
      exact hpiece
    · exact hfirst hline hzero

/-! ## The same lines before two files -/

/-- The end of a line, or the beginning of the file. -/
def IsLineBoundary (file : List Char) : Prop := file = [] ∨ file.getLast? = some '\n'

/-- The readers have the same lines before the two files, or are the
same. -/
inductive TraceReader.Alike (file file' : List Char) : TraceReader → TraceReader → Prop where
  | before {lines : List Char} (hlines : IsLineBoundary lines) (pending : Option TraceEntry) :
    Alike file file' ⟨lines ++ file, pending⟩ ⟨lines ++ file', pending⟩
  | same (reader : TraceReader) : Alike file file' reader reader

section
variable {file file' : List Char}

theorem TraceReader.Alike.next_lines
    (hfiles : traceReaderNext (traceReaderOpen file) = traceReaderNext (traceReaderOpen file'))
    (n : Nat) : ∀ {lines : List Char}, lines.length ≤ n → IsLineBoundary lines →
      (traceReaderNext (traceReaderOpen (lines ++ file))).1 =
          (traceReaderNext (traceReaderOpen (lines ++ file'))).1 ∧
        Alike file file' (traceReaderNext (traceReaderOpen (lines ++ file))).2
          (traceReaderNext (traceReaderOpen (lines ++ file'))).2 := by
  induction n using Nat.strong_induction_on with
  | _ n ih =>
    intro lines hlength hlines
    rcases hlines with rfl | hlast
    · rw [List.nil_append, List.nil_append, hfiles]
      exact ⟨rfl, .same _⟩
    · have hne : lines ≠ [] := by
        rintro rfl
        cases hlast
      have hroom : 0 < traceLineSize - 1 := by decide
      obtain ⟨hread, hend⟩ := fgetsLine_append file hlast hroom
      obtain ⟨hread', _⟩ := fgetsLine_append file' hlast hroom
      have hshort := fgetsLine_length hne hroom
      rw [traceReaderNext_step (List.append_ne_nil_of_left_ne_nil hne file),
        traceReaderNext_step (List.append_ne_nil_of_left_ne_nil hne file'), hread, hread']
      dsimp only
      split
      · exact ih _ (Nat.lt_of_lt_of_le hshort hlength) (Nat.le_refl _) hend
      · exact ⟨rfl, .before hend none⟩
      · exact ⟨rfl, .before hend _⟩

/-- Readers that are alike return the same, and are alike afterwards. -/
theorem TraceReader.Alike.next
    (hfiles : traceReaderNext (traceReaderOpen file) = traceReaderNext (traceReaderOpen file'))
    {reader reader' : TraceReader} (h : Alike file file' reader reader') :
    (traceReaderNext reader).1 = (traceReaderNext reader').1 ∧
      Alike file file' (traceReaderNext reader).2 (traceReaderNext reader').2 := by
  cases h with
  | same => exact ⟨rfl, .same _⟩
  | before hlines pending =>
    cases pending with
    | some entry => exact ⟨rfl, .before hlines none⟩
    | none => exact next_lines hfiles _ (Nat.le_refl _) hlines

theorem TraceReader.Alike.run
    (hfiles : traceReaderNext (traceReaderOpen file) = traceReaderNext (traceReaderOpen file'))
    (n : Nat) : ∀ {reader reader' : TraceReader}, Alike file file' reader reader' →
      traceReaderRun n reader = traceReaderRun n reader' := by
  induction n with
  | zero =>
    intro reader reader' _
    rfl
  | succ n ih =>
    intro reader reader' h
    obtain ⟨hresult, hafter⟩ := h.next hfiles
    rw [traceReaderRun, traceReaderRun]
    generalize traceReaderNext reader = next at hresult hafter ⊢
    generalize traceReaderNext reader' = next' at hresult hafter ⊢
    obtain ⟨result, after⟩ := next
    obtain ⟨result', after'⟩ := next'
    obtain rfl : result = result' := hresult
    cases result with
    | entry entry =>
      dsimp only
      rw [ih hafter]
    | endOfFile => rfl
    | invalid => rfl

end

end VmSim
