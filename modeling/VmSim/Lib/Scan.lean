/-
VmSim.Lib.Scan — the conversions of the C library between numbers and
text, in the C locale and with 64-bit `unsigned long long`.

A text is a list of characters without its terminator. `sscanf` returns
the values it assigned, in order; their number is its return value, with
0 for EOF. A numeral that does not fit is reported as the largest value,
as `strtoull` does.
-/
import Mathlib.Algebra.Group.Nat.Defs
import Mathlib.Data.List.TakeWhile

namespace VmSim.Lib

/-! ## Characters -/

def isSpace (c : Char) : Bool :=
  c == ' ' || c == '\t' || c == '\n' || c == '\x0b' || c == '\x0c' || c == '\r'

/-- The value of a hexadecimal digit. -/
def hexDigitValue (c : Char) : Option Nat :=
  if '0' ≤ c ∧ c ≤ '9' then some (c.toNat - '0'.toNat)
  else if 'a' ≤ c ∧ c ≤ 'f' then some (c.toNat - 'a'.toNat + 10)
  else if 'A' ≤ c ∧ c ≤ 'F' then some (c.toNat - 'A'.toNat + 10)
  else none

/-- The value of a digit in a base up to 16. -/
def digitValue (base : Nat) (c : Char) : Option Nat :=
  (hexDigitValue c).filter fun value => decide (value < base)

def isDigitOf (base : Nat) (c : Char) : Bool := (digitValue base c).isSome

/-! ## Reading -/

def numeralValue (base : Nat) (digits : List Char) : Nat :=
  digits.foldl (fun value c => value * base + (digitValue base c).getD 0) 0

/-- What is stored for a numeral and its sign. -/
def unsignedOf (negative : Bool) (value : Nat) : Nat :=
  if value > 2 ^ 64 - 1 then 2 ^ 64 - 1
  else if negative then (2 ^ 64 - value) % 2 ^ 64
  else value

def scanSign : List Char → Bool × List Char
  | '-' :: text => (true, text)
  | '+' :: text => (false, text)
  | text => (false, text)

theorem unsignedOf_lt (negative : Bool) (value : Nat) : unsignedOf negative value < 2 ^ 64 := by
  unfold unsignedOf
  split
  · decide
  · split
    · exact Nat.mod_lt _ (by decide)
    · omega

/-- The optional mark of a hexadecimal number. -/
def scanHexMark : List Char → List Char
  | '0' :: 'x' :: text => text
  | '0' :: 'X' :: text => text
  | text => text

/-- The conversions `%llx` (base 16) and `%zu` (base 10): the value, and
what comes after it. -/
def scanUnsigned (base : Nat) (text : List Char) : Option (Nat × List Char) :=
  let signed := scanSign (text.dropWhile isSpace)
  let text := if base = 16 then scanHexMark signed.2 else signed.2
  let digits := text.takeWhile (isDigitOf base)
  if digits.isEmpty then none
  else some (unsignedOf signed.1 (numeralValue base digits), text.dropWhile (isDigitOf base))

theorem scanUnsigned_lt {base value : Nat} {text rest : List Char}
    (h : scanUnsigned base text = some (value, rest)) : value < 2 ^ 64 := by
  simp only [scanUnsigned, Option.ite_none_left_eq_some, Option.some.injEq, Prod.mk.injEq] at h
  rw [← h.2.1]
  exact unsignedOf_lt _ _

/-- A directive of a format: white space, a character, or a conversion of
an unsigned number. -/
inductive ScanDirective where
  | space
  | literal (c : Char)
  | unsigned (base : Nat)

def sscanf : List ScanDirective → List Char → List Nat
  | [], _ => []
  | .space :: format, text => sscanf format (text.dropWhile isSpace)
  | .literal c :: format, text =>
    match text with
    | [] => []
    | c' :: text' => if c' = c then sscanf format text' else []
  | .unsigned base :: format, text =>
    match scanUnsigned base text with
    | none => []
    | some (value, text') => value :: sscanf format text'

/-- `fgets` on a file that has not been read yet: at most `room`
characters, up to the end of the line, and the rest. -/
def fgetsLine : Nat → List Char → List Char × List Char
  | 0, file => ([], file)
  | _ + 1, [] => ([], [])
  | room + 1, c :: file =>
    if c = '\n' then ([c], file)
    else (c :: (fgetsLine room file).1, (fgetsLine room file).2)

/-- A line that fits is read as a whole. -/
theorem fgetsLine_line {line : List Char} (h : '\n' ∉ line) (file : List Char) :
    ∀ {room : Nat}, line.length < room →
      fgetsLine room (line ++ '\n' :: file) = (line ++ ['\n'], file) := by
  induction line with
  | nil =>
    intro room hroom
    obtain ⟨n, rfl⟩ := Nat.exists_eq_succ_of_ne_zero (Nat.ne_of_gt hroom)
    rfl
  | cons c line ih =>
    intro room hroom
    obtain ⟨n, rfl⟩ := Nat.exists_eq_succ_of_ne_zero (Nat.ne_of_gt (Nat.lt_of_le_of_lt
      (Nat.zero_le _) hroom))
    obtain ⟨hc, hline⟩ := not_or.mp (mt List.mem_cons.mpr h)
    rw [List.cons_append, fgetsLine, if_neg (Ne.symm hc),
      ih hline (Nat.lt_of_succ_lt_succ hroom)]
    rfl

/-- So is the last line of a file, which has no end. -/
theorem fgetsLine_last {line : List Char} (h : '\n' ∉ line) :
    ∀ {room : Nat}, line.length < room → fgetsLine room line = (line, []) := by
  induction line with
  | nil =>
    intro room _
    cases room <;> rfl
  | cons c line ih =>
    intro room hroom
    obtain ⟨n, rfl⟩ := Nat.exists_eq_succ_of_ne_zero (Nat.ne_of_gt (Nat.lt_of_le_of_lt
      (Nat.zero_le _) hroom))
    obtain ⟨hc, hline⟩ := not_or.mp (mt List.mem_cons.mpr h)
    rw [fgetsLine, if_neg (Ne.symm hc), ih hline (Nat.lt_of_succ_lt_succ hroom)]

/-- A line that does not fit is cut. -/
theorem fgetsLine_long {line : List Char} (h : '\n' ∉ line) (file : List Char) :
    ∀ {room : Nat}, room ≤ line.length →
      fgetsLine room (line ++ file) = (line.take room, line.drop room ++ file) := by
  induction line with
  | nil =>
    intro room hroom
    rw [Nat.le_zero.mp hroom]
    rfl
  | cons c line ih =>
    intro room hroom
    cases room with
    | zero => rfl
    | succ room =>
      obtain ⟨hc, hline⟩ := not_or.mp (mt List.mem_cons.mpr h)
      rw [List.cons_append, fgetsLine, if_neg (Ne.symm hc),
        ih hline (Nat.le_of_succ_le_succ hroom)]
      rfl

/-- What comes after the end of a line does not matter to it. -/
theorem fgetsLine_append {file : List Char} (rest : List Char) :
    ∀ {room : Nat}, file.getLast? = some '\n' → 0 < room →
      fgetsLine room (file ++ rest) =
          ((fgetsLine room file).1, (fgetsLine room file).2 ++ rest) ∧
        ((fgetsLine room file).2 = [] ∨ (fgetsLine room file).2.getLast? = some '\n') := by
  induction file with
  | nil =>
    intro room h _
    cases h
  | cons c file ih =>
    intro room h hroom
    obtain ⟨n, rfl⟩ := Nat.exists_eq_succ_of_ne_zero (Nat.ne_of_gt hroom)
    have hlast : file = [] ∧ c = '\n' ∨ file.getLast? = some '\n' := by
      cases file with
      | nil => exact .inl ⟨rfl, Option.some.inj h⟩
      | cons d file => exact .inr ((List.getLast?_cons_cons).symm.trans h)
    rw [List.cons_append, fgetsLine, fgetsLine]
    by_cases hc : c = '\n'
    · rw [if_pos hc, if_pos hc]
      exact ⟨rfl, hlast.imp_left And.left⟩
    · rw [if_neg hc, if_neg hc]
      have hfile := hlast.resolve_left fun h => hc h.2
      cases n with
      | zero =>
        cases file with
        | nil => exact ⟨rfl, .inl rfl⟩
        | cons d file => exact ⟨rfl, .inr hfile⟩
      | succ n =>
        obtain ⟨heq, hend⟩ := ih hfile (Nat.succ_pos n)
        rw [heq]
        exact ⟨rfl, hend⟩

/-! ## Printing -/

/-- `%0{width}x` -/
def printHex (width n : Nat) : List Char := List.leftpad width '0' (Nat.toDigits 16 n)

theorem digitValue_digitChar {d : Nat} (h : d < 16) : digitValue 16 d.digitChar = some d := by
  have hall : ∀ i : Fin 16, digitValue 16 (Nat.digitChar i) = some (i : Nat) := by decide
  exact hall ⟨d, h⟩

theorem isDigitOf_digitChar {d : Nat} (h : d < 16) : isDigitOf 16 d.digitChar = true := by
  rw [isDigitOf, digitValue_digitChar h]
  rfl

theorem isDigitOf_toDigits (n : Nat) : ∀ c ∈ Nat.toDigits 16 n, isDigitOf 16 c = true := by
  induction n using Nat.strong_induction_on with
  | _ n ih =>
    rw [Nat.toDigits_eq_if (by decide)]
    split
    · rename_i hlt
      exact List.forall_mem_singleton.mpr (isDigitOf_digitChar hlt)
    · refine List.forall_mem_append.mpr ⟨ih (n / 16) (by omega), ?_⟩
      exact List.forall_mem_singleton.mpr (isDigitOf_digitChar (Nat.mod_lt _ (by decide)))

theorem numeralValue_concat (digits : List Char) (c : Char) :
    numeralValue 16 (digits ++ [c]) =
      numeralValue 16 digits * 16 + (digitValue 16 c).getD 0 := by
  rw [numeralValue, List.foldl_append]
  rfl

theorem numeralValue_toDigits (n : Nat) : numeralValue 16 (Nat.toDigits 16 n) = n := by
  induction n using Nat.strong_induction_on with
  | _ n ih =>
    rw [Nat.toDigits_eq_if (by decide)]
    split
    · rename_i hlt
      simp [numeralValue, digitValue_digitChar hlt]
    · rw [numeralValue_concat, ih (n / 16) (by omega),
        digitValue_digitChar (Nat.mod_lt _ (by decide)), Option.getD_some]
      omega

theorem numeralValue_zeros (digits : List Char) (k : Nat) :
    numeralValue 16 (List.replicate k '0' ++ digits) = numeralValue 16 digits := by
  induction k with
  | zero => rfl
  | succ k ih =>
    rw [List.replicate_succ, List.cons_append]
    exact ih

theorem printHex_digits (width n : Nat) : ∀ c ∈ printHex width n, isDigitOf 16 c = true := by
  refine List.forall_mem_append.mpr ⟨fun c hc => ?_, isDigitOf_toDigits n⟩
  rw [List.eq_of_mem_replicate hc]
  rfl

theorem printHex_value (width n : Nat) : numeralValue 16 (printHex width n) = n := by
  rw [printHex, List.leftpad, numeralValue_zeros, numeralValue_toDigits]

theorem printHex_length {width n : Nat} (hpos : 0 < width) (h : n < 16 ^ width) :
    (printHex width n).length = width := by
  have hlen := (Nat.length_toDigits_le_iff (b := 16) (by decide) hpos).mpr h
  rw [printHex, List.length_leftpad]
  exact Nat.max_eq_left hlen

/-- A number that was printed with the mark of hexadecimal numbers is
read back. -/
theorem scanUnsigned_printHex {n : Nat} (hn : n < 2 ^ 64) (width : Nat) {c : Char}
    (hc : isDigitOf 16 c = false) (rest : List Char) :
    scanUnsigned 16 ('0' :: 'x' :: (printHex width n ++ c :: rest)) = some (n, c :: rest) := by
  have hsigned : scanSign (('0' :: 'x' :: (printHex width n ++ c :: rest)).dropWhile
      isSpace) = (false, '0' :: 'x' :: (printHex width n ++ c :: rest)) := rfl
  have hmark : scanHexMark ('0' :: 'x' :: (printHex width n ++ c :: rest)) =
      printHex width n ++ c :: rest := rfl
  have htake : (printHex width n ++ c :: rest).takeWhile (isDigitOf 16) = printHex width n := by
    rw [List.takeWhile_append_of_pos (printHex_digits width n), List.takeWhile_cons, hc]
    simp
  have hdrop : (printHex width n ++ c :: rest).dropWhile (isDigitOf 16) = c :: rest := by
    rw [List.dropWhile_append_of_pos (printHex_digits width n), List.dropWhile_cons, hc]
    simp
  have hne : (printHex width n).isEmpty = false := by
    rw [List.isEmpty_eq_false_iff, printHex, List.leftpad]
    simp
  have hvalue : unsignedOf false n = n := by
    rw [unsignedOf, if_neg (by omega), if_neg Bool.false_ne_true]
  unfold scanUnsigned
  rw [hsigned]
  dsimp only
  rw [if_pos rfl, hmark, htake, hdrop, hne, if_neg Bool.false_ne_true, printHex_value, hvalue]

end VmSim.Lib
