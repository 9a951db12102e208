/-
VmSim.Trace.Reader — reading memory traces (`src/trace.c`).

The file is the text that has not been read yet; reading it does not
fail. The lines that `trace_parse_line` ignores are skipped by a loop
that is given as many rounds as the file has characters, and each round
reads one of them.
-/
import VmSim.Lib.Scan

namespace VmSim

open Lib

inductive TraceAccessType where
  | read
  | write
  deriving DecidableEq

structure TraceEntry where
  type : TraceAccessType
  address : Nat
  size : Nat
  deriving DecidableEq

structure TraceReader where
  file : List Char
  pendingEntry : Option TraceEntry
  deriving DecidableEq

def traceReaderOpen (file : List Char) : TraceReader := ⟨file, none⟩

/-- `TRACE_LINE_SIZE` -/
def traceLineSize : Nat := 256

/-- `trace_parse_parameters`: the address and the size. -/
def traceParseParameters (text : List Char) : Option (Nat × Nat) :=
  let comma := sscanf [.space, .unsigned 16, .literal ',', .unsigned 10] text
  let matched :=
    if comma.length < 1 then sscanf [.space, .unsigned 16, .space, .unsigned 10] text else comma
  match matched with
  | [] => none
  | address :: rest =>
    let size := rest.headD 1
    if size = 0 then none else some (address, size)

/-- What a line is: nothing to read (0), invalid (-1), or an entry (1)
and what `M` leaves for the next call. -/
inductive TraceLine where
  | ignored
  | invalid
  | entry (entry : TraceEntry) (pending : Option TraceEntry)

/-- The line is a C string: it ends at a null character. -/
def traceParseLine (line : List Char) : TraceLine :=
  match (line.takeWhile fun c => c != '\x00').dropWhile isSpace with
  | [] => .ignored
  | c :: rest =>
    if c = '\n' ∨ c = '#' then .ignored
    else
      let operation := c.toUpper
      if operation = 'I' then .ignored
      else if operation ≠ 'R' ∧ operation ≠ 'W' ∧ operation ≠ 'L' ∧ operation ≠ 'S' ∧
          operation ≠ 'M' then .invalid
      else
        match traceParseParameters rest with
        | none => .invalid
        | some (address, size) =>
          if operation = 'R' ∨ operation = 'L' then .entry ⟨.read, address, size⟩ none
          else if operation = 'W' ∨ operation = 'S' then .entry ⟨.write, address, size⟩ none
          else .entry ⟨.read, address, size⟩ (some ⟨.write, address, size⟩)

/-- What `trace_reader_next` returns: an entry (1), the end of the file
(0), or an error (-1). -/
inductive TraceResult where
  | entry (entry : TraceEntry)
  | endOfFile
  | invalid
  deriving DecidableEq

/-- The loop of `trace_reader_next`. -/
def traceReadLines : Nat → List Char → TraceResult × TraceReader
  | 0, file => (.endOfFile, ⟨file, none⟩)
  | rounds + 1, file =>
    if file = [] then (.endOfFile, ⟨file, none⟩)
    else
      let line := fgetsLine (traceLineSize - 1) file
      match traceParseLine line.1 with
      | .ignored => traceReadLines rounds line.2
      | .invalid => (.invalid, ⟨line.2, none⟩)
      | .entry entry pending => (.entry entry, ⟨line.2, pending⟩)

def traceReaderNext (reader : TraceReader) : TraceResult × TraceReader :=
  match reader.pendingEntry with
  | some entry => (.entry entry, { reader with pendingEntry := none })
  | none => traceReadLines reader.file.length reader.file

/-- The results of a number of calls of `trace_reader_next`. -/
def traceReaderResults : Nat → TraceReader → List TraceResult
  | 0, _ => []
  | n + 1, reader =>
    (traceReaderNext reader).1 :: traceReaderResults n (traceReaderNext reader).2

/-- What the calls of `trace_reader_next` return up to the first that
delivers no entry, or up to a number of calls. -/
def traceReaderRun : Nat → TraceReader → List TraceResult
  | 0, _ => []
  | n + 1, reader =>
    match traceReaderNext reader with
    | (.entry entry, reader') => .entry entry :: traceReaderRun n reader'
    | (result, _) => [result]

/-! ## The loop -/

theorem fgetsLine_length {file : List Char} (hne : file ≠ []) {room : Nat} (hroom : 0 < room) :
    (fgetsLine room file).2.length < file.length := by
  have hle : ∀ (file : List Char) (room : Nat), (fgetsLine room file).2.length ≤ file.length := by
    intro file
    induction file with
    | nil => intro room; cases room <;> exact Nat.le_refl _
    | cons c file ih =>
      intro room
      cases room with
      | zero => exact Nat.le_refl _
      | succ room =>
        unfold fgetsLine
        split
        · exact Nat.le_succ _
        · exact (ih room).trans (Nat.le_succ _)
  cases file with
  | nil => exact absurd rfl hne
  | cons c file =>
    cases room with
    | zero => exact absurd hroom (Nat.lt_irrefl 0)
    | succ room =>
      unfold fgetsLine
      split
      · exact Nat.lt_succ_self _
      · exact Nat.lt_succ_of_le (hle file room)

/-- The rounds given are enough: more of them change nothing. -/
theorem traceReadLines_rounds : ∀ (rounds : Nat) (file : List Char), file.length ≤ rounds →
    traceReadLines rounds file = traceReadLines file.length file := by
  intro rounds
  induction rounds using Nat.strong_induction_on with
  | _ rounds ih =>
    intro file hle
    cases file with
    | nil => cases rounds <;> rfl
    | cons c file =>
      cases rounds with
      | zero => exact absurd hle (Nat.not_succ_le_zero _)
      | succ rounds =>
        have hlt := fgetsLine_length (List.cons_ne_nil c file)
          (show 0 < traceLineSize - 1 by decide)
        rw [List.length_cons] at hle hlt
        rw [List.length_cons, traceReadLines, traceReadLines, if_neg (List.cons_ne_nil c file),
          if_neg (List.cons_ne_nil c file)]
        dsimp only
        split
        · rw [ih rounds (Nat.lt_succ_self _) _ (by omega), ih file.length (by omega) _ (by omega)]
        · rfl
        · rfl

/-- One line of a file that has one. -/
theorem traceReaderNext_step {file : List Char} (hne : file ≠ []) :
    traceReaderNext (traceReaderOpen file) =
      match traceParseLine (fgetsLine (traceLineSize - 1) file).1 with
      | .ignored => traceReaderNext (traceReaderOpen (fgetsLine (traceLineSize - 1) file).2)
      | .invalid => (.invalid, traceReaderOpen (fgetsLine (traceLineSize - 1) file).2)
      | .entry entry pending =>
        (.entry entry, ⟨(fgetsLine (traceLineSize - 1) file).2, pending⟩) := by
  have hlt := fgetsLine_length hne (show 0 < traceLineSize - 1 by decide)
  rw [traceReaderNext, traceReaderOpen]
  dsimp only
  cases file with
  | nil => exact absurd rfl hne
  | cons c file =>
    rw [List.length_cons] at hlt
    rw [List.length_cons, traceReadLines, if_neg hne]
    dsimp only
    split
    · rw [traceReadLines_rounds _ _ (Nat.le_of_lt_succ hlt)]
      rfl
    · rfl
    · rfl

end VmSim
