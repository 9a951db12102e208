/-
VmSim.Lib.Numerals — the numerals that the conversions of the C library
read.

`Numeral base` is a numeral as it is written: blanks, a sign, the mark of
hexadecimal numbers, and digits. `Numeral.EndsBefore` says that no longer
numeral is read where it stands. `scanUnsigned_numeral` and
`Numeral.of_scanUnsigned` are the two directions: what is written is what
`scanUnsigned` reads.
-/
import VmSim.Lib.Scan

namespace VmSim.Lib

/-- A numeral, with the blanks before it. -/
structure Numeral (base : Nat) where
  blanks : List Char
  sign : List Char
  mark : List Char
  digits : List Char
  blanks_space : ∀ c ∈ blanks, isSpace c = true
  sign_mem : sign = [] ∨ sign = ['+'] ∨ sign = ['-']
  mark_mem : mark = [] ∨ base = 16 ∧ (mark = ['0', 'x'] ∨ mark = ['0', 'X'])
  digits_ne : digits ≠ []
  digits_digit : ∀ c ∈ digits, isDigitOf base c = true

namespace Numeral

/-- A decimal numeral carries no base mark. -/
theorem decimal_mark : ([] : List Char) = [] ∨
    10 = 16 ∧ (([] : List Char) = ['0', 'x'] ∨ ([] : List Char) = ['0', 'X']) :=
  .inl rfl

variable {base : Nat}

def text (n : Numeral base) : List Char := n.blanks ++ (n.sign ++ (n.mark ++ n.digits))

/-- What its digits stand for. -/
def magnitude (n : Numeral base) : Nat := numeralValue base n.digits

/-- What is stored for it. -/
def value (n : Numeral base) : Nat := unsignedOf (n.sign == ['-']) n.magnitude

/-- The numeral is not the beginning of a longer one. A `0` before an `x`
is the beginning of a mark. -/
def EndsBefore (n : Numeral base) (rest : List Char) : Prop :=
  (∀ c ∈ rest.head?, isDigitOf base c = false) ∧
    (base = 16 → n.mark = [] → n.digits = ['0'] → ∀ c ∈ rest.head?, c ≠ 'x' ∧ c ≠ 'X')

end Numeral

theorem Numeral.text_ne {base : Nat} (n : Numeral base) : n.text ≠ [] := by
  intro h
  have hbody := (List.append_eq_nil_iff.mp (List.append_eq_nil_iff.mp h).2).2
  exact n.digits_ne (List.append_eq_nil_iff.mp hbody).2

/-! ## Digits are neither blanks nor signs nor marks -/

theorem isDigitOf_eq_false {base : Nat} {c : Char} (h : hexDigitValue c = none) :
    isDigitOf base c = false := by
  rw [isDigitOf, digitValue, h]
  rfl

theorem isSpace_iff {c : Char} : isSpace c = true ↔
    c = ' ' ∨ c = '\t' ∨ c = '\n' ∨ c = '\x0b' ∨ c = '\x0c' ∨ c = '\r' := by
  simp only [isSpace, Bool.or_eq_true, beq_iff_eq, or_assoc]

theorem isDigitOf_space {base : Nat} {c : Char} (h : isSpace c = true) :
    isDigitOf base c = false := by
  rcases isSpace_iff.mp h with rfl | rfl | rfl | rfl | rfl | rfl <;>
    exact isDigitOf_eq_false (by decide)

theorem isDigitOf_ne {base : Nat} {c d : Char} (hc : isDigitOf base c = true)
    (hd : hexDigitValue d = none) : c ≠ d := by
  rintro rfl
  rw [isDigitOf_eq_false hd] at hc
  cases hc

/-! ## Reading what is written -/

theorem scanSign_other {c : Char} {text : List Char} (hminus : c ≠ '-') (hplus : c ≠ '+') :
    scanSign (c :: text) = (false, c :: text) := by
  unfold scanSign
  split
  · rename_i heq
    exact absurd (List.cons.inj heq).1 hminus
  · rename_i heq
    exact absurd (List.cons.inj heq).1 hplus
  · rfl

/-- A text that does not begin with the mark is left as it is. -/
theorem scanHexMark_other {text : List Char}
    (h : ∀ c t, text = '0' :: c :: t → c ≠ 'x' ∧ c ≠ 'X') : scanHexMark text = text := by
  unfold scanHexMark
  split
  · exact absurd rfl (h _ _ rfl).1
  · exact absurd rfl (h _ _ rfl).2
  · rfl

theorem dropWhile_head {p : Char → Bool} {text : List Char} (h : ∀ c ∈ text.head?, p c = false) :
    text.dropWhile p = text := by
  cases text with
  | nil => rfl
  | cons c text =>
    rw [List.dropWhile_cons, h c rfl]
    rfl

theorem dropWhile_append_cons {p : Char → Bool} {text rest : List Char} {c : Char}
    (h : text.dropWhile p = c :: rest) (more : List Char) :
    (text ++ more).dropWhile p = c :: (rest ++ more) := by
  induction text with
  | nil => cases h
  | cons d text ih =>
    rw [List.dropWhile_cons] at h
    rw [List.cons_append, List.dropWhile_cons]
    split
    · rename_i hd
      rw [if_pos hd] at h
      exact ih h
    · rename_i hd
      rw [if_neg hd] at h
      rw [← List.cons_append, h, List.cons_append]

theorem takeWhile_head {p : Char → Bool} {text : List Char} (h : ∀ c ∈ text.head?, p c = false) :
    text.takeWhile p = [] := by
  cases text with
  | nil => rfl
  | cons c text =>
    rw [List.takeWhile_cons, h c rfl]
    rfl

namespace Numeral

variable {base : Nat}

/-- Past the sign there is no blank and no sign. -/
theorem body_head (n : Numeral base) (rest : List Char) :
    ∃ c text, n.mark ++ n.digits ++ rest = c :: text ∧
      (c = '0' ∨ isDigitOf base c = true) := by
  rcases n.mark_mem with hmark | ⟨_, hmark | hmark⟩
  · cases hdigits : n.digits with
    | nil => exact absurd hdigits n.digits_ne
    | cons d ds =>
      refine ⟨d, ds ++ rest, by rw [hmark]; rfl, .inr (n.digits_digit d ?_)⟩
      rw [hdigits]
      exact List.mem_cons_self
  · exact ⟨'0', 'x' :: (n.digits ++ rest), by rw [hmark]; rfl, .inl rfl⟩
  · exact ⟨'0', 'X' :: (n.digits ++ rest), by rw [hmark]; rfl, .inl rfl⟩

theorem scanSign_text (n : Numeral base) (rest : List Char) :
    scanSign ((n.text ++ rest).dropWhile isSpace) =
      (n.sign == ['-'], n.mark ++ n.digits ++ rest) := by
  obtain ⟨c, text, hbody, hc⟩ := n.body_head rest
  have hne : ∀ d, hexDigitValue d = none → c ≠ d := by
    intro d hd
    rcases hc with rfl | hc
    · rintro rfl
      cases hd
    · exact isDigitOf_ne hc hd
  have hspace : isSpace c = false := by
    rw [Bool.eq_false_iff]
    intro h
    rcases hc with rfl | hc
    · exact absurd h (by decide)
    · rw [isDigitOf_space h] at hc
      cases hc
  have htext : n.text ++ rest = n.blanks ++ (n.sign ++ (n.mark ++ n.digits ++ rest)) := by
    simp only [Numeral.text, List.append_assoc]
  rw [htext, List.dropWhile_append_of_pos n.blanks_space, hbody]
  rcases n.sign_mem with hsign | hsign | hsign
  · rw [hsign, List.nil_append, List.dropWhile_cons, hspace, if_neg Bool.false_ne_true,
      scanSign_other (hne '-' (by decide)) (hne '+' (by decide))]
    rfl
  · rw [hsign]
    rfl
  · rw [hsign]
    rfl

theorem scanHexMark_body {n : Numeral 16} {rest : List Char} (h : n.EndsBefore rest) :
    scanHexMark (n.mark ++ n.digits ++ rest) = n.digits ++ rest := by
  rcases n.mark_mem with hmark | ⟨_, hmark | hmark⟩
  · rw [hmark, List.nil_append]
    apply scanHexMark_other
    intro c t heq
    have hdigits := n.digits_digit
    cases hn : n.digits with
    | nil => exact absurd hn n.digits_ne
    | cons d ds =>
      rw [hn, List.cons_append] at heq
      rw [hn] at hdigits
      obtain ⟨rfl, hds⟩ := List.cons.inj heq
      cases ds with
      | nil => exact h.2 rfl hmark hn c (by rw [List.nil_append] at hds; rw [hds]; rfl)
      | cons d' ds =>
        have hd' := hdigits d' (List.mem_cons_of_mem _ List.mem_cons_self)
        rw [(List.cons.inj hds).1] at hd'
        exact ⟨isDigitOf_ne hd' (by decide), isDigitOf_ne hd' (by decide)⟩
  · rw [hmark]
    rfl
  · rw [hmark]
    rfl

end Numeral

/-- A numeral is read as its value, and what follows it is left. -/
theorem scanUnsigned_numeral {base : Nat} {n : Numeral base} {rest : List Char}
    (h : n.EndsBefore rest) : scanUnsigned base (n.text ++ rest) = some (n.value, rest) := by
  have hbody : (if base = 16 then scanHexMark (n.mark ++ n.digits ++ rest)
      else n.mark ++ n.digits ++ rest) = n.digits ++ rest := by
    split
    · rename_i hbase
      subst hbase
      exact Numeral.scanHexMark_body h
    · rename_i hbase
      rcases n.mark_mem with hmark | ⟨h16, _⟩
      · rw [hmark, List.nil_append]
      · exact absurd h16 hbase
  have htake : (n.digits ++ rest).takeWhile (isDigitOf base) = n.digits := by
    rw [List.takeWhile_append_of_pos n.digits_digit, takeWhile_head h.1, List.append_nil]
  have hdrop : (n.digits ++ rest).dropWhile (isDigitOf base) = rest := by
    rw [List.dropWhile_append_of_pos n.digits_digit, dropWhile_head h.1]
  unfold scanUnsigned
  rw [n.scanSign_text rest]
  dsimp only
  rw [hbody, htake, hdrop, if_neg (by simpa using n.digits_ne)]
  rfl

/-! ## What is read is written -/

theorem scanSign_split (text : List Char) : ∃ sign,
    (sign = [] ∨ sign = ['+'] ∨ sign = ['-']) ∧ text = sign ++ (scanSign text).2 ∧
      (scanSign text).1 = (sign == ['-']) := by
  unfold scanSign
  split
  · exact ⟨['-'], .inr (.inr rfl), rfl, rfl⟩
  · exact ⟨['+'], .inr (.inl rfl), rfl, rfl⟩
  · exact ⟨[], .inl rfl, rfl, rfl⟩

/-- The mark is taken whenever it stands there. -/
theorem scanHexMark_split (text : List Char) : ∃ mark,
    (mark = [] ∨ mark = ['0', 'x'] ∨ mark = ['0', 'X']) ∧ text = mark ++ scanHexMark text ∧
      (mark = [] → ∀ c t, scanHexMark text = '0' :: c :: t → c ≠ 'x' ∧ c ≠ 'X') := by
  unfold scanHexMark
  split
  · exact ⟨['0', 'x'], .inr (.inl rfl), rfl, fun h => by cases h⟩
  · exact ⟨['0', 'X'], .inr (.inr rfl), rfl, fun h => by cases h⟩
  · rename_i hx hX
    refine ⟨[], .inl rfl, rfl, fun _ c t heq => ⟨?_, ?_⟩⟩
    · rintro rfl
      exact hx t heq
    · rintro rfl
      exact hX t heq

theorem head_dropWhile {p : Char → Bool} (text : List Char) :
    ∀ c ∈ (text.dropWhile p).head?, p c = false := by
  intro c hc
  have h := List.head?_dropWhile_not p text
  rw [Option.mem_def] at hc
  rw [hc] at h
  simpa using h

/-- What is read was a numeral. -/
theorem Numeral.of_scanUnsigned {base : Nat} {text rest : List Char} {value : Nat}
    (h : scanUnsigned base text = some (value, rest)) :
    ∃ n : Numeral base, text = n.text ++ rest ∧ n.EndsBefore rest ∧ value = n.value := by
  obtain ⟨sign, hsign, hsigned, hnegative⟩ := scanSign_split (text.dropWhile isSpace)
  generalize hbody : (scanSign (text.dropWhile isSpace)).2 = body at hsigned
  obtain ⟨mark, hmark, hmarked, hkept⟩ : ∃ mark,
      (mark = [] ∨ base = 16 ∧ (mark = ['0', 'x'] ∨ mark = ['0', 'X'])) ∧
      body = mark ++ (if base = 16 then scanHexMark body else body) ∧
      (base = 16 → mark = [] → ∀ c t, scanHexMark body = '0' :: c :: t → c ≠ 'x' ∧ c ≠ 'X') := by
    by_cases hbase : base = 16
    · obtain ⟨mark, hmark, hmarked, hkept⟩ := scanHexMark_split body
      rw [if_pos hbase]
      exact ⟨mark, hmark.imp_right fun hm => ⟨hbase, hm⟩, hmarked, fun _ => hkept⟩
    · rw [if_neg hbase]
      exact ⟨[], .inl rfl, rfl, fun h16 => absurd h16 hbase⟩
  unfold scanUnsigned at h
  dsimp only at h
  rw [hbody, hnegative] at h
  generalize hdigits : (if base = 16 then scanHexMark body else body) = digits at h hmarked
  split at h
  · cases h
  · rename_i hne
    have hparts := List.takeWhile_append_dropWhile (p := isDigitOf base) (l := digits)
    obtain ⟨hvalue, hrest⟩ := Prod.mk.inj (Option.some.inj h)
    subst hvalue hrest
    refine ⟨⟨text.takeWhile isSpace, sign, mark, digits.takeWhile (isDigitOf base),
      fun c hc => List.mem_takeWhile_imp hc, hsign, hmark, by simpa using hne,
      fun c hc => List.mem_takeWhile_imp hc⟩, ?_, ⟨head_dropWhile digits, ?_⟩, rfl⟩
    · simp only [Numeral.text, List.append_assoc]
      rw [hparts, ← hmarked, ← hsigned, List.takeWhile_append_dropWhile]
    · intro hbase hnone hzero c hc
      rw [if_pos hbase] at hdigits
      dsimp only at hzero hnone
      obtain ⟨t, ht⟩ : ∃ t, digits.dropWhile (isDigitOf base) = c :: t := by
        cases hdrop : digits.dropWhile (isDigitOf base) with
        | nil =>
          rw [hdrop] at hc
          cases hc
        | cons d t =>
          rw [hdrop] at hc
          exact ⟨t, by rw [Option.some.inj hc]⟩
      refine hkept hbase hnone c t ?_
      rw [hdigits, ← hparts, hzero, ht]
      rfl

/-! ## The end of a text -/

theorem Numeral.value_eq_zero {base : Nat} {n : Numeral base} :
    n.value = 0 ↔ n.magnitude = 0 := by
  unfold Numeral.value unsignedOf
  split
  · omega
  · split <;> omega

theorem Numeral.EndsBefore.append {base : Nat} {n : Numeral base} {c : Char}
    (hc : isSpace c = true) {rest : List Char} (h : n.EndsBefore rest) :
    n.EndsBefore (rest ++ [c]) := by
  cases rest with
  | cons d rest => exact h
  | nil =>
    refine ⟨?_, fun _ _ _ => ?_⟩
    · rintro d ⟨⟩
      exact isDigitOf_space hc
    · rintro d ⟨⟩
      constructor <;> rintro rfl <;> exact absurd hc (by decide)

theorem Numeral.EndsBefore.of_append {base : Nat} {n : Numeral base} {c : Char}
    {rest : List Char} (h : n.EndsBefore (rest ++ [c])) : n.EndsBefore rest := by
  cases rest with
  | cons d rest => exact h
  | nil =>
    constructor
    · intro _ hd
      cases hd
    · intro _ _ _ _ hd
      cases hd

/-- A blank at the end of the text changes nothing. -/
theorem scanUnsigned_concat {c : Char} (hc : isSpace c = true) (base : Nat) (text : List Char) :
    scanUnsigned base (text ++ [c]) =
      (scanUnsigned base text).map fun scanned => (scanned.1, scanned.2 ++ [c]) := by
  cases hscan : scanUnsigned base text with
  | some scanned =>
    obtain ⟨n, htext, hends, hvalue⟩ := Numeral.of_scanUnsigned hscan
    rw [htext, List.append_assoc, scanUnsigned_numeral (hends.append hc), ← hvalue]
    rfl
  | none =>
    cases hconcat : scanUnsigned base (text ++ [c]) with
    | none => rfl
    | some scanned =>
      obtain ⟨n, htext, hends, _⟩ := Numeral.of_scanUnsigned hconcat
      exfalso
      rcases List.eq_nil_or_concat scanned.2 with hrest | ⟨rest, d, hrest⟩
      · -- the last character of a numeral is a digit
        obtain ⟨digits, d, hdigits⟩ := (List.eq_nil_or_concat n.digits).resolve_left n.digits_ne
        rw [List.concat_eq_append] at hdigits
        rw [hrest, List.append_nil, Numeral.text, hdigits, ← List.append_assoc,
          ← List.append_assoc, ← List.append_assoc] at htext
        obtain ⟨_, hd⟩ := List.append_inj' htext rfl
        have hdigit := n.digits_digit d (by rw [hdigits]; simp)
        rw [← (List.cons.inj hd).1, isDigitOf_space hc] at hdigit
        cases hdigit
      · rw [List.concat_eq_append] at hrest
        rw [hrest, ← List.append_assoc] at htext
        obtain ⟨htext, _⟩ := List.append_inj' htext rfl
        rw [hrest] at hends
        rw [htext, scanUnsigned_numeral hends.of_append] at hscan
        cases hscan

end VmSim.Lib
