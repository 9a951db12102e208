/-
VmSim.Lib.Strtoull — `strtoull` in base 10, with 64-bit `unsigned long
long`.

A text is read as `scanUnsigned` reads it, and what makes the difference
is what the caller can ask about: where the reading stopped, and whether
the number was out of range. `strtoull_cases` has the two cases, a text
that begins with a numeral and a text that does not.
-/
import VmSim.Lib.Numerals

namespace VmSim.Lib

/-- The value, the text that `end` points to, and whether `errno` was
set. Without a digit `end` is the text itself. -/
def strtoull (text : List Char) : Nat × List Char × Bool :=
  let signed := scanSign (text.dropWhile isSpace)
  let digits := signed.2.takeWhile (isDigitOf 10)
  if digits.isEmpty then (0, text, false)
  else (unsignedOf signed.1 (numeralValue 10 digits), signed.2.dropWhile (isDigitOf 10),
    decide (2 ^ 64 ≤ numeralValue 10 digits))

variable {text rest : List Char}

/-- There is no mark in base 10. -/
theorem Numeral.mark_ten (n : Numeral 10) : n.mark = [] :=
  n.mark_mem.resolve_right fun h => absurd h.1 (by decide)

theorem strtoull_numeral {n : Numeral 10} (h : n.EndsBefore rest) :
    strtoull (n.text ++ rest) = (n.value, rest, decide (2 ^ 64 ≤ n.magnitude)) := by
  have hsigned := n.scanSign_text rest
  rw [n.mark_ten, List.nil_append] at hsigned
  have htake : (n.digits ++ rest).takeWhile (isDigitOf 10) = n.digits := by
    rw [List.takeWhile_append_of_pos n.digits_digit, takeWhile_head h.1, List.append_nil]
  have hdrop : (n.digits ++ rest).dropWhile (isDigitOf 10) = rest := by
    rw [List.dropWhile_append_of_pos n.digits_digit, dropWhile_head h.1]
  unfold strtoull
  rw [hsigned]
  dsimp only
  rw [htake, hdrop, if_neg (by simpa using n.digits_ne)]
  rfl

theorem strtoull_none (h : scanUnsigned 10 text = none) : strtoull text = (0, text, false) := by
  unfold scanUnsigned at h
  simp only [show (10 : Nat) ≠ 16 by decide, if_false, ite_eq_left_iff, reduceCtorEq, imp_false,
    not_not] at h
  unfold strtoull
  rw [if_pos h]

/-- The text begins with a numeral, or nothing was read. -/
theorem strtoull_cases (text : List Char) :
    (∃ (n : Numeral 10) (rest : List Char), text = n.text ++ rest ∧ n.EndsBefore rest ∧
      strtoull text = (n.value, rest, decide (2 ^ 64 ≤ n.magnitude))) ∨
    strtoull text = (0, text, false) := by
  cases hscan : scanUnsigned 10 text with
  | none => exact .inr (strtoull_none hscan)
  | some scanned =>
    obtain ⟨value, rest⟩ := scanned
    obtain ⟨n, htext, hends, _⟩ := Numeral.of_scanUnsigned hscan
    exact .inl ⟨n, rest, htext, hends, by rw [htext, strtoull_numeral hends]⟩

/-- A numeral that is all of the text ends there. -/
theorem Numeral.endsBefore_nil {base : Nat} (n : Numeral base) : n.EndsBefore [] := by
  constructor
  · intro c hc
    cases hc
  · intro _ _ _ c hc
    cases hc

/-- A text is one numeral at most. -/
theorem strtoull_text (n : Numeral 10) :
    strtoull n.text = (n.value, [], decide (2 ^ 64 ≤ n.magnitude)) := by
  have h := strtoull_numeral n.endsBefore_nil
  rwa [List.append_nil] at h

/-! ## Signs -/

theorem Numeral.value_positive {n : Numeral 10} (hsign : n.sign ≠ ['-'])
    (hfits : n.magnitude < 2 ^ 64) : n.value = n.magnitude := by
  have hpositive : (n.sign == ['-']) = false := by simpa using hsign
  rw [Numeral.value, hpositive, unsignedOf, if_neg (by omega), if_neg Bool.false_ne_true]

/-- The sign and the magnitude of a numeral can be read off its text. -/
theorem Numeral.text_inj {n m : Numeral 10} (h : n.text = m.text) :
    (n.sign = ['-'] ↔ m.sign = ['-']) ∧ n.magnitude = m.magnitude := by
  have hn := n.scanSign_text []
  have hm := m.scanSign_text []
  rw [h, hm, n.mark_ten, m.mark_ten] at hn
  simp only [List.nil_append, List.append_nil, Prod.mk.injEq] at hn
  constructor
  · rw [← beq_iff_eq, ← beq_iff_eq (a := m.sign), hn.1]
  · rw [Numeral.magnitude, Numeral.magnitude, hn.2]

theorem Numeral.head_minus {n : Numeral 10} (hblanks : n.blanks = []) (hsign : n.sign = ['-']) :
    n.text.head? = some '-' := by
  rw [Numeral.text, hblanks, hsign]
  rfl

/-- Blanks, a plus sign or a digit come first in any other numeral. -/
theorem Numeral.head_other {n : Numeral 10} (h : n.blanks ≠ [] ∨ n.sign ≠ ['-']) :
    n.text.head? ≠ some '-' := by
  intro hhead
  have hminus : isSpace '-' = false := by decide
  cases hblanks : n.blanks with
  | cons c blanks =>
    rw [Numeral.text, hblanks, List.cons_append, List.head?_cons] at hhead
    have hspace := n.blanks_space c (by rw [hblanks]; exact List.mem_cons_self)
    rw [Option.some.inj hhead, hminus] at hspace
    cases hspace
  | nil =>
    have hsign := h.resolve_left fun hne => hne hblanks
    rw [Numeral.text, hblanks, n.mark_ten, List.nil_append, List.nil_append] at hhead
    rcases n.sign_mem with hs | hs | hs
    · rw [hs, List.nil_append] at hhead
      have hdigit := n.digits_digit '-' (List.mem_of_mem_head? hhead)
      exact absurd hdigit (by decide)
    · rw [hs, List.cons_append, List.head?_cons] at hhead
      cases hhead
    · exact hsign hs

end VmSim.Lib
