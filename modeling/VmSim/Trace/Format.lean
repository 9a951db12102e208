/-
VmSim.Trace.Format — the lines of a trace.

`traceParseParameters_eq` says in one equation what the two formats of
`trace_parse_parameters` read, and `traceParseLine_operation` what a line
with an operation letter is. The second format is tried only when the
first read no address, and then it reads none either.
-/
import VmSim.Lib.Numerals
import VmSim.Trace.Reader

namespace VmSim

open Lib

/-- The letters of data accesses, in either case. -/
def isTraceOperation (c : Char) : Prop := c.toUpper ∈ ['R', 'W', 'L', 'S', 'M']

instance isTraceOperation.decidable (c : Char) : Decidable (isTraceOperation c) :=
  inferInstanceAs (Decidable (c.toUpper ∈ ['R', 'W', 'L', 'S', 'M']))

/-- What a line is whose operation, address and size were read. -/
def traceOperationLine (operation : Char) (address size : Nat) : TraceLine :=
  if operation.toUpper = 'R' ∨ operation.toUpper = 'L' then .entry ⟨.read, address, size⟩ none
  else if operation.toUpper = 'W' ∨ operation.toUpper = 'S' then
    .entry ⟨.write, address, size⟩ none
  else .entry ⟨.read, address, size⟩ (some ⟨.write, address, size⟩)

/-- The C string that a buffer holds. -/
def cString (text : List Char) : List Char := text.takeWhile fun c => c != '\x00'

/-- A text without null characters is all of its string. -/
theorem cString_eq {text : List Char} (h : '\x00' ∉ text) : cString text = text := by
  refine List.takeWhile_eq_self_iff.mpr fun c hc => ?_
  rw [bne_iff_ne]
  rintro rfl
  exact h hc

/-- Blanks at the beginning are no end of the string. -/
theorem cString_dropWhile {text rest : List Char} {c : Char} (hc : c ≠ '\x00')
    (h : text.dropWhile isSpace = c :: rest) :
    (cString text).dropWhile isSpace = c :: cString rest := by
  induction text with
  | nil => cases h
  | cons d text ih =>
    rw [List.dropWhile_cons] at h
    split at h
    · rename_i hd
      have hnul : (d != '\x00') = true := by
        rw [bne_iff_ne]
        rintro rfl
        exact absurd hd (by decide)
      rw [cString, List.takeWhile_cons, if_pos hnul, List.dropWhile_cons, if_pos hd]
      exact ih h
    · rename_i hd
      obtain ⟨rfl, rfl⟩ := List.cons.inj h
      rw [cString, List.takeWhile_cons, if_pos (bne_iff_ne.mpr hc), List.dropWhile_cons, if_neg hd]
      rfl

/-! ## The two formats -/

theorem scanUnsigned_dropWhile (base : Nat) (text : List Char) :
    scanUnsigned base (text.dropWhile isSpace) = scanUnsigned base text := by
  have hdrop : (text.dropWhile isSpace).dropWhile isSpace = text.dropWhile isSpace :=
    dropWhile_head (head_dropWhile text)
  rw [scanUnsigned, scanUnsigned, hdrop]

/-- The size is read after a comma that stands right behind the address,
and nowhere else. -/
theorem traceParseParameters_eq (text : List Char) :
    traceParseParameters text =
      match scanUnsigned 16 text with
      | none => none
      | some (address, ',' :: rest) =>
        match scanUnsigned 10 rest with
        | none => some (address, 1)
        | some (size, _) => if size = 0 then none else some (address, size)
      | some (address, _) => some (address, 1) := by
  have haddress := scanUnsigned_dropWhile 16 text
  unfold traceParseParameters
  simp only [sscanf, haddress]
  cases hscan : scanUnsigned 16 text with
  | none => simp
  | some scanned =>
    obtain ⟨address, rest⟩ := scanned
    cases rest with
    | nil => simp
    | cons c rest =>
      by_cases hc : c = ','
      · subst hc
        cases hsize : scanUnsigned 10 rest with
        | none => simp [hsize]
        | some size => simp [hsize]
      · simp [hc]

/-! ## Lines with an operation letter -/

theorem traceParseLine_operation {line rest : List Char} {c : Char}
    (hline : (cString line).dropWhile isSpace = c :: rest) (hc : isTraceOperation c) :
    traceParseLine line =
      match traceParseParameters rest with
      | none => .invalid
      | some (address, size) => traceOperationLine c address size := by
  have hne : ∀ d : Char, d.toUpper ∉ ['R', 'W', 'L', 'S', 'M'] → c ≠ d := by
    rintro d hd rfl
    exact hd hc
  have hI : c.toUpper ≠ 'I' := by
    intro h
    rw [isTraceOperation, h] at hc
    revert hc
    decide
  have hin : ¬(c.toUpper ≠ 'R' ∧ c.toUpper ≠ 'W' ∧ c.toUpper ≠ 'L' ∧ c.toUpper ≠ 'S' ∧
      c.toUpper ≠ 'M') := by
    rintro ⟨hR, hW, hL, hS, hM⟩
    simp [isTraceOperation, hR, hW, hL, hS, hM] at hc
  rw [cString] at hline
  rw [traceParseLine, hline]
  dsimp only
  rw [if_neg (not_or.mpr ⟨hne '\n' (by decide), hne '#' (by decide)⟩), if_neg hI, if_neg hin]
  rfl

theorem traceOperationLine_inj {operation : Char} {address address' size size' : Nat} :
    traceOperationLine operation address size = traceOperationLine operation address' size' ↔
      address = address' ∧ size = size' := by
  unfold traceOperationLine
  split
  · simp
  · split <;> simp

theorem traceOperationLine_entry (operation : Char) (address size : Nat) :
    ∃ entry pending, traceOperationLine operation address size = .entry entry pending := by
  unfold traceOperationLine
  split
  · exact ⟨_, _, rfl⟩
  · split <;> exact ⟨_, _, rfl⟩

theorem isTraceOperation_notSpace {c : Char} (hc : isTraceOperation c) : isSpace c = false := by
  rw [Bool.eq_false_iff]
  intro h
  revert hc
  rcases isSpace_iff.mp h with rfl | rfl | rfl | rfl | rfl | rfl <;> decide

theorem isTraceOperation_notNull {c : Char} (hc : isTraceOperation c) : c ≠ '\x00' := by
  rintro rfl
  revert hc
  decide

/-! ## Lines with a size -/

theorem endsBefore_comma (n : Numeral 16) (rest : List Char) :
    n.EndsBefore (',' :: rest) := by
  constructor <;> simp [isDigitOf_eq_false (show hexDigitValue ',' = none by decide)]

/-- An access with its size, as the characters of a line give it. -/
structure SizedAccess where
  operation : Char
  mark : List Char
  address : List Char
  size : List Char
  ending : List Char
  operation_valid : isTraceOperation operation
  mark_mem : mark = [] ∨ mark = ['0', 'x'] ∨ mark = ['0', 'X']
  address_ne : address ≠ []
  address_digit : ∀ c ∈ address, isDigitOf 16 c = true
  address_fits : numeralValue 16 address < 2 ^ 64
  size_ne : size ≠ []
  size_digit : ∀ c ∈ size, isDigitOf 10 c = true
  size_pos : 0 < numeralValue 10 size
  size_fits : numeralValue 10 size < 2 ^ 64
  ending_mem : ending = [] ∨ ending = ['\n']

namespace SizedAccess

/-- `op A,s` -/
def commaLine (a : SizedAccess) : List Char :=
  a.operation :: ' ' :: (a.mark ++ a.address ++ ',' :: (a.size ++ a.ending))

/-- `op A s` -/
def blankLine (a : SizedAccess) : List Char :=
  a.operation :: ' ' :: (a.mark ++ a.address ++ ' ' :: (a.size ++ a.ending))

def addressNumeral (a : SizedAccess) : Numeral 16 where
  blanks := [' ']
  sign := []
  mark := a.mark
  digits := a.address
  blanks_space := by simp [isSpace]
  sign_mem := .inl rfl
  mark_mem := a.mark_mem.imp_right fun h => ⟨rfl, h⟩
  digits_ne := a.address_ne
  digits_digit := a.address_digit

def sizeNumeral (a : SizedAccess) : Numeral 10 where
  blanks := []
  sign := []
  mark := []
  digits := a.size
  blanks_space := List.forall_mem_nil _
  sign_mem := .inl rfl
  mark_mem := Numeral.decimal_mark
  digits_ne := a.size_ne
  digits_digit := a.size_digit

/-- What a line with this access is to be read as. -/
def line (a : SizedAccess) : TraceLine :=
  traceOperationLine a.operation (numeralValue 16 a.address) (numeralValue 10 a.size)

theorem addressNumeral_value (a : SizedAccess) :
    a.addressNumeral.value = numeralValue 16 a.address := by
  have hfits := a.address_fits
  show unsignedOf false (numeralValue 16 a.address) = _
  rw [unsignedOf, if_neg (by omega), if_neg Bool.false_ne_true]

theorem sizeNumeral_value (a : SizedAccess) : a.sizeNumeral.value = numeralValue 10 a.size := by
  have hfits := a.size_fits
  show unsignedOf false (numeralValue 10 a.size) = _
  rw [unsignedOf, if_neg (by omega), if_neg Bool.false_ne_true]

/-- The line with either separator, up to the operation letter. -/
theorem cString_line (a : SizedAccess) {c : Char} (hc : c ≠ '\x00') :
    (cString (a.operation :: ' ' :: (a.mark ++ a.address ++ c :: (a.size ++ a.ending)))).dropWhile
      isSpace = a.operation :: (a.addressNumeral.text ++ c :: (a.size ++ a.ending)) := by
  have hoperation := (isTraceOperation_notNull a.operation_valid).symm
  have hmark : '\x00' ∉ a.mark := by
    rcases a.mark_mem with h | h | h <;> rw [h] <;> decide
  have haddress : '\x00' ∉ a.address :=
    fun h => isDigitOf_ne (a.address_digit _ h) (by decide) rfl
  have hsize : '\x00' ∉ a.size := fun h => isDigitOf_ne (a.size_digit _ h) (by decide) rfl
  have hending : '\x00' ∉ a.ending := by
    rcases a.ending_mem with h | h <;> rw [h] <;> decide
  rw [cString_eq (by simp [hoperation, hmark, haddress, hsize, hending, hc.symm]),
    dropWhile_head (by simpa using isTraceOperation_notSpace a.operation_valid)]
  simp [Numeral.text, addressNumeral]

theorem parse_commaLine (a : SizedAccess) : traceParseLine a.commaLine = a.line := by
  have haddress := endsBefore_comma a.addressNumeral (a.size ++ a.ending)
  have hsize : a.sizeNumeral.EndsBefore a.ending := by
    have hend : isDigitOf 10 '\n' = false := isDigitOf_eq_false (by decide)
    constructor
    · rcases a.ending_mem with h | h <;> simp [h, hend]
    · intro h
      cases h
  have hscan : scanUnsigned 10 (a.size ++ a.ending) = some (numeralValue 10 a.size, a.ending) := by
    rw [← a.sizeNumeral_value]
    exact scanUnsigned_numeral hsize
  rw [commaLine, traceParseLine_operation (a.cString_line (by decide)) a.operation_valid,
    traceParseParameters_eq, scanUnsigned_numeral haddress, a.addressNumeral_value]
  simp only [hscan, if_neg (Nat.ne_of_gt a.size_pos)]
  rfl

/-- A size behind a blank is not read. -/
theorem parse_blankLine (a : SizedAccess) : traceParseLine a.blankLine =
    traceOperationLine a.operation (numeralValue 16 a.address) 1 := by
  have haddress : a.addressNumeral.EndsBefore (' ' :: (a.size ++ a.ending)) := by
    constructor <;> simp [isDigitOf_eq_false (show hexDigitValue ' ' = none by decide)]
  rw [blankLine, traceParseLine_operation (a.cString_line (by decide)) a.operation_valid,
    traceParseParameters_eq, scanUnsigned_numeral haddress, a.addressNumeral_value]
  rfl

end SizedAccess

/-! ## Parameters that are well formed, and parameters that are refused -/

/-- The size of an access: none, or a positive number behind a comma or
blanks. -/
def IsSizeField (text : List Char) : Prop :=
  text = [] ∨ ∃ size : Numeral 10, size.sign = [] ∧ 0 < size.magnitude ∧
    size.magnitude < 2 ^ 64 ∧ (text = ',' :: size.digits ∨ size.blanks ≠ [] ∧ text = size.text)

/-- What a line is to have behind its operation letter: blanks, an
address, perhaps a size, and blanks. -/
def IsParameterField (text : List Char) : Prop :=
  ∃ (address : Numeral 16) (size blanks : List Char),
    text = address.text ++ (size ++ blanks) ∧
    address.blanks ≠ [] ∧ address.sign = [] ∧ address.magnitude < 2 ^ 64 ∧
    IsSizeField size ∧ ∀ c ∈ blanks, isSpace c = true

/-- No numeral stands at the beginning, or a comma and a numeral of
value 0 follow it at once. -/
def HasNoParameters (text : List Char) : Prop :=
  (¬∃ (address : Numeral 16) (rest : List Char),
    text = address.text ++ rest ∧ address.EndsBefore rest) ∨
  ∃ (address : Numeral 16) (size : Numeral 10) (rest : List Char),
    text = address.text ++ ',' :: (size.text ++ rest) ∧ size.EndsBefore rest ∧ size.magnitude = 0

/-- The blanks are not optional. -/
theorem IsParameterField.head {text : List Char} (h : IsParameterField text) :
    ∃ c ∈ text.head?, isSpace c = true := by
  obtain ⟨address, size, blanks, rfl, hne, _⟩ := h
  cases hblanks : address.blanks with
  | nil => exact absurd hblanks hne
  | cons c rest =>
    refine ⟨c, by rw [Numeral.text, hblanks]; rfl, address.blanks_space c ?_⟩
    rw [hblanks]
    exact List.mem_cons_self

/-- What follows an address is its size only behind a comma. -/
theorem traceParseParameters_space (address : Numeral 16) {rest : List Char}
    (h : ∀ c ∈ rest.head?, isSpace c = true) :
    traceParseParameters (address.text ++ rest) = some (address.value, 1) := by
  have hne : ∀ d : Char, isSpace d = false → ∀ c ∈ rest.head?, c ≠ d := by
    rintro d hd c hc rfl
    rw [h c hc] at hd
    cases hd
  have hends : address.EndsBefore rest :=
    ⟨fun c hc => isDigitOf_space (h c hc),
      fun _ _ _ c hc => ⟨hne 'x' (by decide) c hc, hne 'X' (by decide) c hc⟩⟩
  rw [traceParseParameters_eq, scanUnsigned_numeral hends]
  cases rest with
  | nil => rfl
  | cons c rest => simp [hne ',' (by decide) c rfl]

/-- Parameters that are well formed are read. -/
theorem IsParameterField.read {text : List Char} (h : IsParameterField text) :
    traceParseParameters text ≠ none := by
  obtain ⟨address, size, blanks, rfl, _, _, _, hsize, hblanks⟩ := h
  rcases hsize with rfl | ⟨size, _, hpos, _, rfl | ⟨hne, rfl⟩⟩
  · rw [List.nil_append, traceParseParameters_space address fun c hc =>
      hblanks c (List.mem_of_mem_head? hc)]
    exact Option.some_ne_none _
  · let digits : Numeral 10 := { size with
      blanks := []
      sign := []
      mark := []
      blanks_space := List.forall_mem_nil _
      sign_mem := .inl rfl
      mark_mem := .inl rfl }
    have hends : digits.EndsBefore blanks :=
      ⟨fun c hc => isDigitOf_space (hblanks c (List.mem_of_mem_head? hc)), fun h => by cases h⟩
    have hscan : scanUnsigned 10 (size.digits ++ blanks) = some (digits.value, blanks) :=
      scanUnsigned_numeral hends
    have hvalue : digits.value ≠ 0 := fun h =>
      hpos.ne' (Numeral.value_eq_zero.mp h : digits.magnitude = 0)
    rw [List.cons_append, traceParseParameters_eq, scanUnsigned_numeral (endsBefore_comma address _)]
    simp [hscan, hvalue]
  · obtain ⟨c, more, hcons⟩ := List.exists_cons_of_ne_nil hne
    have hhead : ∀ d ∈ (size.text ++ blanks).head?, isSpace d = true := by
      intro d hd
      rw [Numeral.text, hcons] at hd
      cases hd
      exact size.blanks_space c (hcons ▸ List.mem_cons_self)
    rw [traceParseParameters_space address hhead]
    exact Option.some_ne_none _

/-- The code refuses the parameters that it cannot read and those with
size 0 behind a comma. -/
theorem traceParseParameters_eq_none {text : List Char} :
    traceParseParameters text = none ↔ HasNoParameters text := by
  constructor
  · intro h
    rw [traceParseParameters_eq] at h
    cases hscan : scanUnsigned 16 text with
    | none =>
      left
      rintro ⟨address, rest, htext, hends⟩
      rw [htext, scanUnsigned_numeral hends] at hscan
      cases hscan
    | some scanned =>
      right
      rw [hscan] at h
      obtain ⟨address, htext, _, _⟩ := Numeral.of_scanUnsigned hscan
      split at h
      · rename_i hnone
        cases hnone
      · rename_i value behind hsome
        cases hsome
        split at h
        · cases h
        · rename_i size rest hsize
          obtain ⟨n, hbehind, hends, hvalue⟩ := Numeral.of_scanUnsigned hsize
          have hzero : size = 0 := by
            by_contra hne
            rw [if_neg hne] at h
            cases h
          refine ⟨address, n, rest, by rw [htext, hbehind], hends, ?_⟩
          rw [← Numeral.value_eq_zero, ← hvalue, hzero]
      · cases h
  · rw [traceParseParameters_eq]
    rintro (hnone | ⟨address, size, rest, htext, hends, hzero⟩)
    · cases hscan : scanUnsigned 16 text with
      | none => rfl
      | some scanned =>
        obtain ⟨address, htext, hends, _⟩ := Numeral.of_scanUnsigned hscan
        exact absurd ⟨address, scanned.2, htext, hends⟩ hnone
    · rw [htext, scanUnsigned_numeral (endsBefore_comma address _)]
      simp only [scanUnsigned_numeral hends, Numeral.value_eq_zero.mpr hzero, if_pos]

/-- A blank at the end of the line changes nothing. -/
theorem traceParseParameters_concat {c : Char} (hc : isSpace c = true) (text : List Char) :
    traceParseParameters (text ++ [c]) = traceParseParameters text := by
  have hcomma : c ≠ ',' := by
    rintro rfl
    exact absurd hc (by decide)
  rw [traceParseParameters_eq, traceParseParameters_eq, scanUnsigned_concat hc]
  cases scanUnsigned 16 text with
  | none => rfl
  | some scanned =>
    obtain ⟨address, rest⟩ := scanned
    cases rest with
    | nil =>
      simp only [Option.map_some, List.nil_append]
      split
      · rename_i hnone
        cases hnone
      · rename_i hsome
        injection hsome with hsome
        injection hsome with _ hbehind
        exact absurd (List.cons.inj hbehind).1 hcomma
      · rename_i hsome
        cases hsome
        rfl
    | cons d rest =>
      by_cases hd : d = ','
      · subst hd
        simp only [Option.map_some, List.cons_append]
        rw [scanUnsigned_concat hc]
        cases scanUnsigned 10 rest <;> rfl
      · simp [hd]

theorem cString_concat (text : List Char) :
    cString (text ++ ['\n']) = cString text ∨ cString (text ++ ['\n']) = cString text ++ ['\n'] := by
  induction text with
  | nil => exact .inr rfl
  | cons c text ih =>
    simp only [cString, List.cons_append, List.takeWhile_cons] at ih ⊢
    split
    · rcases ih with ih | ih
      · exact .inl (by rw [ih])
      · exact .inr (by rw [ih, List.cons_append])
    · exact .inl rfl

/-- So does the end of the line. -/
theorem traceParseParameters_newline (text : List Char) :
    traceParseParameters (cString (text ++ ['\n'])) = traceParseParameters (cString text) := by
  rcases cString_concat text with h | h
  · rw [h]
  · rw [h, traceParseParameters_concat (by decide)]

end VmSim
