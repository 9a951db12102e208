/-
VmSim.OptionSizes — the sizes that a command line can give.

An option that takes a size takes it from `parseSize`: nothing else than
the sizes of a machine can be given, and all of them can, in decimal.
-/
import VmSim.Lib.CommandLine
import VmSim.Lib.Strtol
import VmSim.SizeOptions

namespace VmSim

open Lib

variable {text : List Char} {n value : Nat}

theorem parseSize_stored (h : stored (parseSize (some text) (some value)) = some n) :
    0 < n ∧ n ≤ sizeMax := by
  have hread := stored_eq.mp h
  simp only [parseSize] at hread
  split at hread
  · cases hread
  · split at hread
    · cases hread
    · cases hread
      omega

theorem parseSize_decimal (hpos : 0 < n) (hn : n ≤ sizeMax) (value : Nat) :
    stored (parseSize (some (Numeral.decimal n).text) (some value)) = some n := by
  have hplain : ¬HidesMinus (Numeral.decimal n).text := by
    rintro ⟨m, htext, _, hsign, _⟩
    have h := (Numeral.text_inj htext).1.mpr hsign
    cases h
  have hread := ((parseSize_reads (Numeral.decimal n).text value).mpr hplain).1 n
    ⟨Numeral.decimal n, rfl, by simp, by simp, hpos, hn⟩
  exact stored_eq.mpr hread

end VmSim
