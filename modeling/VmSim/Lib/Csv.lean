/-
VmSim.Lib.Csv — comma-separated values as RFC 4180 has them, with a
newline at the end of a record.

`csvParse` reads a text as records of fields. A field is written plain,
when it has no character that means something, or between quotes with its
own quotes doubled (`CsvField`); `csvParse_records` reads back any records
whose fields are written in one of the two ways.
-/
import Mathlib.Data.List.Basic

namespace VmSim.Lib

/-! ## Reading -/

/-- Where the reader is: before a field, in a plain field, between
quotes, or behind a quote that ends the field or is the first of two. -/
inductive CsvMode where
  | start
  | plain
  | quoted
  | closed

/-- The records of a text, where part of a field and some fields before it
were read; `none` is a text that is not in the format. -/
def csvScan : CsvMode → List Char → List (List Char) → List Char →
    Option (List (List (List Char)))
  | .quoted, _, _, [] => none
  | .start, _, record, [] => some (if record = [] then [] else [record ++ [[]]])
  | _, field, record, [] => some [record ++ [field]]
  | .start, _, record, c :: text =>
    if c = '"' then csvScan .quoted [] record text
    else if c = ',' then csvScan .start [] (record ++ [[]]) text
    else if c = '\n' then (csvScan .start [] [] text).map ((record ++ [[]]) :: ·)
    else csvScan .plain [c] record text
  | .plain, field, record, c :: text =>
    if c = '"' then none
    else if c = ',' then csvScan .start [] (record ++ [field]) text
    else if c = '\n' then (csvScan .start [] [] text).map ((record ++ [field]) :: ·)
    else csvScan .plain (field ++ [c]) record text
  | .quoted, field, record, c :: text =>
    if c = '"' then csvScan .closed field record text
    else csvScan .quoted (field ++ [c]) record text
  | .closed, field, record, c :: text =>
    if c = '"' then csvScan .quoted (field ++ ['"']) record text
    else if c = ',' then csvScan .start [] (record ++ [field]) text
    else if c = '\n' then (csvScan .start [] [] text).map ((record ++ [field]) :: ·)
    else none

def csvParse (text : List Char) : Option (List (List (List Char))) := csvScan .start [] [] text

/-! ## Writing -/

/-- No character that ends a field, or begins a quoted one. -/
def IsPlainField (text : List Char) : Prop := ∀ c ∈ text, c ≠ '"' ∧ c ≠ ',' ∧ c ≠ '\n'

instance IsPlainField.decidable (text : List Char) : Decidable (IsPlainField text) :=
  List.decidableBAll (fun c => c ≠ '"' ∧ c ≠ ',' ∧ c ≠ '\n') text

/-- The quotes of a text, doubled. -/
def doubleQuotes : List Char → List Char
  | [] => []
  | c :: text => if c = '"' then '"' :: '"' :: doubleQuotes text else c :: doubleQuotes text

/-- A field as it is written. -/
inductive CsvField where
  | plain (text : List Char) (h : IsPlainField text)
  | quoted (text : List Char)

def CsvField.value : CsvField → List Char
  | plain text _ => text
  | quoted text => text

def CsvField.text : CsvField → List Char
  | plain text _ => text
  | quoted text => '"' :: (doubleQuotes text ++ ['"'])

/-- A record and its end. -/
def csvRecord : List CsvField → List Char
  | [] => ['\n']
  | [field] => field.text ++ ['\n']
  | field :: rest => field.text ++ ',' :: csvRecord rest

theorem csvRecord_ne (fields : List CsvField) : csvRecord fields ≠ [] := by
  cases fields with
  | nil => exact List.cons_ne_nil _ _
  | cons field fields => cases fields <;> simp [csvRecord]

/-! ## Reading back -/

theorem csvScan_plain {text : List Char} (h : IsPlainField text) (record : List (List Char))
    (rest : List Char) : ∀ field, csvScan .plain field record (text ++ rest) =
      csvScan .plain (field ++ text) record rest := by
  induction text with
  | nil =>
    intro field
    rw [List.nil_append, List.append_nil]
  | cons c text ih =>
    intro field
    obtain ⟨⟨hquote, hcomma, hend⟩, htext⟩ := List.forall_mem_cons.mp h
    rw [List.cons_append, csvScan, if_neg hquote, if_neg hcomma, if_neg hend, ih htext,
      List.append_assoc]
    rfl

theorem csvScan_quoted (text : List Char) (record : List (List Char)) (rest : List Char) :
    ∀ field, csvScan .quoted field record (doubleQuotes text ++ '"' :: rest) =
      csvScan .closed (field ++ text) record rest := by
  induction text with
  | nil =>
    intro field
    rw [doubleQuotes, List.nil_append, csvScan, if_pos rfl, List.append_nil]
  | cons c text ih =>
    intro field
    have happend : field ++ c :: text = field ++ [c] ++ text := by simp
    rw [doubleQuotes, happend]
    by_cases hc : c = '"'
    · -- the second of two quotes is one of the text
      subst hc
      rw [if_pos rfl, List.cons_append, List.cons_append, csvScan, if_pos rfl, csvScan,
        if_pos rfl, ih]
    · rw [if_neg hc, List.cons_append, csvScan, if_neg hc, ih]

/-- A field before a comma. -/
theorem csvScan_comma (field : CsvField) (record : List (List Char)) (rest : List Char) :
    csvScan .start [] record (field.text ++ ',' :: rest) =
      csvScan .start [] (record ++ [field.value]) rest := by
  cases field with
  | quoted text =>
    rw [CsvField.text, List.cons_append, List.append_assoc, csvScan, if_pos rfl,
      List.singleton_append, csvScan_quoted, List.nil_append, csvScan, if_neg (by decide),
      if_pos rfl]
    rfl
  | plain text h =>
    cases text with
    | nil => rfl
    | cons c text =>
      obtain ⟨⟨hquote, hcomma, hend⟩, htext⟩ := List.forall_mem_cons.mp h
      rw [CsvField.text, List.cons_append, csvScan, if_neg hquote, if_neg hcomma, if_neg hend,
        csvScan_plain htext, csvScan, if_neg (by decide), if_pos rfl]
      rfl

/-- The last field of a record. -/
theorem csvScan_newline (field : CsvField) (record : List (List Char)) (rest : List Char) :
    csvScan .start [] record (field.text ++ '\n' :: rest) =
      (csvScan .start [] [] rest).map ((record ++ [field.value]) :: ·) := by
  cases field with
  | quoted text =>
    rw [CsvField.text, List.cons_append, List.append_assoc, csvScan, if_pos rfl,
      List.singleton_append, csvScan_quoted, List.nil_append, csvScan, if_neg (by decide),
      if_neg (by decide), if_pos rfl]
    rfl
  | plain text h =>
    cases text with
    | nil => rfl
    | cons c text =>
      obtain ⟨⟨hquote, hcomma, hend⟩, htext⟩ := List.forall_mem_cons.mp h
      rw [CsvField.text, List.cons_append, csvScan, if_neg hquote, if_neg hcomma, if_neg hend,
        csvScan_plain htext, csvScan, if_neg (by decide), if_neg (by decide), if_pos rfl]
      rfl

theorem csvScan_record (fields : List CsvField) (hne : fields ≠ []) (rest : List Char) :
    ∀ record, csvScan .start [] record (csvRecord fields ++ rest) =
      (csvScan .start [] [] rest).map ((record ++ fields.map CsvField.value) :: ·) := by
  induction fields with
  | nil => exact absurd rfl hne
  | cons field fields ih =>
    intro record
    cases fields with
    | nil =>
      rw [csvRecord, List.append_assoc]
      exact csvScan_newline field record rest
    | cons next fields =>
      rw [csvRecord, List.append_assoc, List.cons_append, csvScan_comma,
        ih (List.cons_ne_nil next fields), List.append_assoc]
      · rfl
      · simp

/-- Records that are written are read back. -/
theorem csvParse_records {records : List (List CsvField)} (hne : ∀ record ∈ records, record ≠ []) :
    csvParse (records.flatMap csvRecord) =
      some (records.map fun record => record.map CsvField.value) := by
  induction records with
  | nil => rfl
  | cons record records ih =>
    obtain ⟨hrecord, hrecords⟩ := List.forall_mem_cons.mp hne
    rw [List.flatMap_cons, csvParse, csvScan_record record hrecord]
    rw [csvParse] at ih
    rw [ih hrecords]
    rfl

end VmSim.Lib
