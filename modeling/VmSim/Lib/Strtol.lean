/-
VmSim.Lib.Strtol — the other conversions of the C library: `strtol` in
base 10, with 64-bit `long`, and `strtoull` in base 0.

In base 0 the text says which base its digits have: `0x` is the mark of
hexadecimal numbers, and a `0` in front that of octal ones.
-/
import VmSim.Lib.Strtoull

namespace VmSim.Lib

/-! ## `strtol` -/

/-- The `long` for a numeral and its sign, and whether it is out of
range. -/
def longOf (negative : Bool) (value : Nat) : Int × Bool :=
  if negative then
    if value > 2 ^ 63 then (-((2 ^ 63 : Nat) : Int), true) else (-value, false)
  else if value > 2 ^ 63 - 1 then (((2 ^ 63 - 1 : Nat) : Int), true)
  else (value, false)

/-- The value, the text that `end` points to, and whether `errno` was set. -/
def strtol (text : List Char) : Int × List Char × Bool :=
  let signed := scanSign (text.dropWhile isSpace)
  let digits := signed.2.takeWhile (isDigitOf 10)
  if digits.isEmpty then (0, text, false)
  else
    let parsed := longOf signed.1 (numeralValue 10 digits)
    (parsed.1, signed.2.dropWhile (isDigitOf 10), parsed.2)

/-- It stops where `strtoull` does. -/
theorem strtol_end (text : List Char) : (strtol text).2.1 = (strtoull text).2.1 := by
  unfold strtol strtoull
  dsimp only
  split <;> rfl

theorem strtol_text (n : Numeral 10) : strtol n.text =
    ((longOf (n.sign == ['-']) n.magnitude).1, [], (longOf (n.sign == ['-']) n.magnitude).2) := by
  have hsigned := n.scanSign_text []
  rw [n.mark_ten, List.nil_append, List.append_nil, List.append_nil] at hsigned
  have htake : n.digits.takeWhile (isDigitOf 10) = n.digits :=
    List.takeWhile_eq_self_iff.mpr n.digits_digit
  have hdrop : n.digits.dropWhile (isDigitOf 10) = [] :=
    List.dropWhile_eq_nil_iff.mpr n.digits_digit
  unfold strtol
  rw [hsigned]
  dsimp only
  rw [htake, hdrop, if_neg (by simpa using n.digits_ne)]
  rfl

/-- What is read to its end is a numeral. -/
theorem numeral_of_strtoull {text : List Char} (hend : (strtoull text).2.1 = [])
    (hread : (strtoull text).2.1 ≠ text) : ∃ n : Numeral 10, text = n.text := by
  rcases strtoull_cases text with ⟨n, rest, htext, _, hparsed⟩ | hparsed
  · rw [hparsed] at hend
    obtain rfl : rest = [] := hend
    exact ⟨n, by rw [htext, List.append_nil]⟩
  · rw [hparsed] at hread
    exact absurd rfl hread

theorem longOf_nonneg {negative : Bool} {value : Nat} {limit : Int}
    (hlimit : limit < ((2 ^ 63 - 1 : Nat) : Int)) :
    (longOf negative value).2 = false ∧ 0 ≤ (longOf negative value).1 ∧
      (longOf negative value).1 ≤ limit ↔
    (negative = true → value = 0) ∧ (value : Int) ≤ limit ∧ 0 ≤ limit := by
  unfold longOf
  cases negative with
  | true =>
    simp only [if_true, forall_const]
    split
    · simp
      omega
    · simp
      omega
  | false =>
    simp only [Bool.false_eq_true, if_false, false_imp_iff, true_and]
    split
    · simp
      omega
    · simp
      omega

/-! ## `strtoull` in base 0 -/

/-- The base of the digits that follow, and the text at the first of
them. -/
def scanBase : List Char → Nat × List Char
  | '0' :: mark :: digit :: text =>
    if (mark = 'x' ∨ mark = 'X') ∧ isDigitOf 16 digit then (16, digit :: text)
    else (8, '0' :: mark :: digit :: text)
  | '0' :: text => (8, '0' :: text)
  | text => (10, text)

def strtoullAnyBase (text : List Char) : Nat × List Char × Bool :=
  let signed := scanSign (text.dropWhile isSpace)
  let based := scanBase signed.2
  let digits := based.2.takeWhile (isDigitOf based.1)
  if digits.isEmpty then (0, text, false)
  else (unsignedOf signed.1 (numeralValue based.1 digits), based.2.dropWhile (isDigitOf based.1),
    decide (2 ^ 64 ≤ numeralValue based.1 digits))

/-- A number in hexadecimal, with its mark. -/
theorem strtoullAnyBase_printHex {n : Nat} (hn : n < 2 ^ 64) (width : Nat) :
    strtoullAnyBase ('0' :: 'x' :: printHex width n) = (n, [], false) := by
  have hdigits := printHex_digits width n
  have hvalue := printHex_value width n
  have hne : printHex width n ≠ [] := by simp [printHex, List.leftpad]
  generalize printHex width n = digits at hdigits hvalue hne ⊢
  obtain ⟨digit, digits, rfl⟩ := List.exists_cons_of_ne_nil hne
  have hbase : scanBase ('0' :: 'x' :: digit :: digits) = (16, digit :: digits) := by
    simp [scanBase, hdigits digit]
  have hsigned : scanSign (('0' :: 'x' :: digit :: digits).dropWhile isSpace) =
      (false, '0' :: 'x' :: digit :: digits) := rfl
  have htake : (digit :: digits).takeWhile (isDigitOf 16) = digit :: digits :=
    List.takeWhile_eq_self_iff.mpr hdigits
  have hdrop : (digit :: digits).dropWhile (isDigitOf 16) = [] :=
    List.dropWhile_eq_nil_iff.mpr hdigits
  unfold strtoullAnyBase
  rw [hsigned]
  dsimp only
  rw [hbase]
  dsimp only
  rw [htake, hdrop, hvalue]
  simp [unsignedOf]
  omega

/-! ## Decimal numbers -/

theorem digitValue_ten {d : Nat} (h : d < 10) : digitValue 10 d.digitChar = some d := by
  have hall : ∀ d < 10, digitValue 10 d.digitChar = some d := by decide
  exact hall d h

theorem isDigitOf_toDigits_ten (n : Nat) : ∀ c ∈ Nat.toDigits 10 n, isDigitOf 10 c = true := by
  induction n using Nat.strong_induction_on with
  | _ n ih =>
    rw [Nat.toDigits_eq_if (by decide)]
    split
    · rename_i hlt
      exact List.forall_mem_singleton.mpr (by rw [isDigitOf, digitValue_ten hlt]; rfl)
    · refine List.forall_mem_append.mpr ⟨ih (n / 10) (by omega), ?_⟩
      refine List.forall_mem_singleton.mpr ?_
      rw [isDigitOf, digitValue_ten (Nat.mod_lt _ (by decide))]
      rfl

theorem numeralValue_toDigits_ten (n : Nat) : numeralValue 10 (Nat.toDigits 10 n) = n := by
  induction n using Nat.strong_induction_on with
  | _ n ih =>
    rw [Nat.toDigits_eq_if (by decide)]
    split
    · rename_i hlt
      simp [numeralValue, digitValue_ten hlt]
    · have hrest := ih (n / 10) (by omega)
      rw [numeralValue] at hrest
      rw [numeralValue, List.foldl_append, hrest]
      simp only [List.foldl_cons, List.foldl_nil, digitValue_ten (Nat.mod_lt n (show 10 > 0 by decide)),
        Option.getD_some]
      omega

theorem Numeral.decimal_blanks : ∀ c ∈ ([] : List Char), isSpace c = true := by
  simp

theorem Numeral.decimal_sign :
    ([] : List Char) = [] ∨ ([] : List Char) = ['+'] ∨ ([] : List Char) = ['-'] :=
  .inl rfl

/-- A number as it is printed. -/
def Numeral.decimal (n : Nat) : Numeral 10 where
  blanks := []
  sign := []
  mark := []
  digits := Nat.toDigits 10 n
  blanks_space := Numeral.decimal_blanks
  sign_mem := Numeral.decimal_sign
  mark_mem := Numeral.decimal_mark
  digits_ne := Nat.toDigits_ne_nil
  digits_digit := isDigitOf_toDigits_ten n

@[simp] theorem Numeral.magnitude_decimal (n : Nat) : (Numeral.decimal n).magnitude = n :=
  numeralValue_toDigits_ten n

@[simp] theorem Numeral.sign_decimal (n : Nat) : (Numeral.decimal n).sign = [] := rfl

end VmSim.Lib
