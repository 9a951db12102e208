/-
VmSim.SizeOptions — the numbers of the command lines (`cli_parse_size` in
`src/cli.c`, `trace_parse_size` in `src/trace_generator.c`).

Both functions have the same body, `parseSize`. `none` stands for NULL;
the target is given by what it holds, and the result is the return code
with what the target holds afterwards.
-/
import VmSim.Lib.Strtoull

namespace VmSim

open Lib

/-- `SIZE_MAX` -/
def sizeMax : Nat := 2 ^ 64 - 1

def parseSize (text : Option (List Char)) (value : Option Nat) : Int × Option Nat :=
  match text, value with
  | some text, some _ =>
    if text = [] ∨ text.head? = some '-' then (-1, value)
    else
      let parsed := strtoull text
      if parsed.2.2 ∨ parsed.2.1 = text ∨ parsed.2.1 ≠ [] ∨ parsed.1 = 0 ∨ parsed.1 > sizeMax then
        (-1, value)
      else (0, some parsed.1)
  | _, _ => (-1, value)

def cliParseSize (text : Option (List Char)) (value : Option Nat) : Int × Option Nat :=
  parseSize text value

def traceParseSize (text : Option (List Char)) (value : Option Nat) : Int × Option Nat :=
  parseSize text value

/-! ## What a text denotes -/

/-- The text is a decimal numeral for the size `n`, perhaps with blanks
and a plus sign before it. -/
def DenotesSize (text : List Char) (n : Nat) : Prop :=
  ∃ numeral : Numeral 10, text = numeral.text ∧ numeral.sign ≠ ['-'] ∧ numeral.magnitude = n ∧
    0 < n ∧ n ≤ sizeMax

/-- The text is a negative number with blanks before its sign, and fits
into a word without it. -/
def HidesMinus (text : List Char) : Prop :=
  ∃ numeral : Numeral 10, text = numeral.text ∧ numeral.blanks ≠ [] ∧ numeral.sign = ['-'] ∧
    0 < numeral.magnitude ∧ numeral.magnitude ≤ sizeMax

/-- What a parser of sizes is for: a text that denotes a size is stored as
that size, and any other is refused and stores nothing. -/
def ReadsSize (parse : Option (List Char) → Option Nat → Int × Option Nat) (text : List Char)
    (value : Nat) : Prop :=
  (∀ n, DenotesSize text n → parse (some text) (some value) = (0, some n)) ∧
    ((¬∃ n, DenotesSize text n) → parse (some text) (some value) = (-1, some value))

variable {text : List Char} {value : Nat} {n : Numeral 10}

/-! ## What the parser does -/

theorem parseSize_minus (h : text.head? = some '-') :
    parseSize (some text) (some value) = (-1, some value) :=
  if_pos (.inr h)

/-- A numeral that does not begin with the minus sign is stored as
`strtoull` reads it. -/
theorem parseSize_numeral (hhead : n.text.head? ≠ some '-') :
    parseSize (some n.text) (some value) =
      if 0 < n.magnitude ∧ n.magnitude ≤ sizeMax then (0, some n.value) else (-1, some value) := by
  have hguard : ¬(n.text = [] ∨ n.text.head? = some '-') := not_or.mpr ⟨n.text_ne, hhead⟩
  have hvalue : n.value < 2 ^ 64 := unsignedOf_lt _ _
  have hzero := Numeral.value_eq_zero (n := n)
  simp only [parseSize]
  rw [if_neg hguard, strtoull_text]
  dsimp only
  by_cases hsize : 0 < n.magnitude ∧ n.magnitude ≤ sizeMax
  · rw [if_pos hsize, if_neg]
    have hne := n.text_ne.symm
    simp only [sizeMax] at hsize ⊢
    simp only [decide_eq_true_eq, ne_eq, not_true_eq_false, hne, hzero, false_or]
    omega
  · rw [if_neg hsize, if_pos]
    simp only [sizeMax] at hsize ⊢
    simp only [decide_eq_true_eq, hzero]
    omega

/-- A text that is no numeral is refused. -/
theorem parseSize_none (h : ¬∃ n : Numeral 10, text = n.text) :
    parseSize (some text) (some value) = (-1, some value) := by
  simp only [parseSize]
  split
  · rfl
  · rw [if_pos]
    rcases strtoull_cases text with ⟨n, rest, htext, _, hread⟩ | hread
    · -- something is left of the text
      rw [hread]
      right
      right
      left
      rintro rfl
      exact h ⟨n, by rw [htext, List.append_nil]⟩
    · rw [hread]
      right
      left
      rfl

/-- The parser reads every text but the negative numbers that hide their
sign behind blanks. -/
theorem parseSize_reads (text : List Char) (value : Nat) :
    ReadsSize parseSize text value ↔ ¬HidesMinus text := by
  constructor
  · rintro ⟨_, hrefused⟩ ⟨n, rfl, hblanks, hsign, hpos, hfits⟩
    have hnone : ¬∃ k, DenotesSize n.text k := by
      rintro ⟨k, m, htext, hm, _⟩
      exact hm ((Numeral.text_inj htext).1.mp hsign)
    have hstored := hrefused hnone
    rw [parseSize_numeral (Numeral.head_other (.inl hblanks)), if_pos ⟨hpos, hfits⟩] at hstored
    cases congrArg Prod.fst hstored
  · intro hplain
    constructor
    · rintro k ⟨n, rfl, hsign, rfl, hpos, hfits⟩
      rw [parseSize_numeral (Numeral.head_other (.inr hsign)), if_pos ⟨hpos, hfits⟩,
        Numeral.value_positive hsign (by simp only [sizeMax] at hfits; omega)]
    · intro hnone
      by_cases hnumeral : ∃ n : Numeral 10, text = n.text
      · obtain ⟨n, rfl⟩ := hnumeral
        by_cases hhead : n.text.head? = some '-'
        · exact parseSize_minus hhead
        · rw [parseSize_numeral hhead, if_neg]
          rintro ⟨hpos, hfits⟩
          by_cases hsign : n.sign = ['-']
          · exact hplain ⟨n, rfl, fun hblanks => hhead (Numeral.head_minus hblanks hsign), hsign,
              hpos, hfits⟩
          · exact hnone ⟨n.magnitude, n, rfl, hsign, rfl, hpos, hfits⟩
      · exact parseSize_none hnumeral

end VmSim
