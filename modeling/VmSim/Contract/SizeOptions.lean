/-
VmSim.Contract.SizeOptions — what the size options of the two command
lines store.

Both parsers test the first character for a minus sign, and leave blanks
and signs to `strtoull`, which takes a minus sign behind blanks as well
and answers modulo 2^64. `" -1"` is stored as 2^64 - 1.
-/
import VmSim.SizeOptions

namespace VmSim

open Lib

/-- **Size options.** Each parser stores the size that a text denotes and
refuses every other text exactly when the text is not a negative number
that hides its sign behind blanks. -/
theorem sizeOptions_read (text : List Char) (value : Nat) :
    (ReadsSize cliParseSize text value ↔ ¬HidesMinus text) ∧
      (ReadsSize traceParseSize text value ↔ ¬HidesMinus text) :=
  ⟨parseSize_reads text value, parseSize_reads text value⟩

/-- The number -1 behind a blank. -/
def hiddenMinusOne : Numeral 10 where
  blanks := [' ']
  sign := ['-']
  mark := []
  digits := ['1']
  blanks_space := List.forall_mem_singleton.mpr rfl
  sign_mem := .inr (.inr rfl)
  mark_mem := Numeral.decimal_mark
  digits_ne := by decide
  digits_digit := List.forall_mem_singleton.mpr rfl

/-- `" -1"` becomes the largest size in place of a refusal. -/
theorem sizeOptions_misread :
    cliParseSize (some [' ', '-', '1']) (some 4) = (0, some (2 ^ 64 - 1)) ∧
      traceParseSize (some [' ', '-', '1']) (some 4) = (0, some (2 ^ 64 - 1)) ∧
      (¬∃ n, DenotesSize [' ', '-', '1'] n) ∧
      ¬ReadsSize cliParseSize [' ', '-', '1'] 4 ∧ ¬ReadsSize traceParseSize [' ', '-', '1'] 4 := by
  have hstored : parseSize (some [' ', '-', '1']) (some 4) = (0, some (2 ^ 64 - 1)) := by decide
  have hnone : ¬∃ n, DenotesSize [' ', '-', '1'] n := by
    rintro ⟨_, m, htext, hsign, _⟩
    exact hsign ((Numeral.text_inj (n := hiddenMinusOne) htext).1.mp rfl)
  have hbroken : ¬ReadsSize parseSize [' ', '-', '1'] 4 := by
    intro h
    have hrefused := h.2 hnone
    rw [hstored] at hrefused
    cases congrArg Prod.fst hrefused
  exact ⟨hstored, hstored, hnone, hbroken, hbroken⟩

end VmSim
