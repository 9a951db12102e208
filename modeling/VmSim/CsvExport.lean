/-
VmSim.CsvExport — writing results to a file (`src/csv_export.c`).

A file is its text, or absent. What is written goes to the end of an open
stream, which has room for a number of characters; a call that cannot
write, flush or close its file fails, and leaves there what
`csvExportLeft` says. Measuring an open file does not fail.

`%.6f` is a parameter, of which only the characters are known
(`FixedFormat`). The text of a row is that of a record of 21 fields
(`csvWriteResultRow_text`).
-/
import VmSim.Lib.Csv
import VmSim.VirtualMemory.Basic

namespace VmSim

open Lib

/-! ## What is written -/

/-- The options that are exported; `none` as trace path stands for
NULL. -/
structure CliOptions where
  tracePath : Option (List Char)
  frameCount : Nat
  tlbEntries : Nat
  swapSlots : Nat
  pid : Int

/-- `%.6f` on the quotient of two numbers. -/
structure FixedFormat where
  print : Nat × Nat → List Char
  plain : ∀ quotient, IsPlainField (print quotient)

/-- `%zu` and `PRIu64` -/
def printNat (n : Nat) : List Char := Nat.toDigits 10 n

/-- `%d` -/
def printInt (n : Int) : List Char := if n < 0 then '-' :: printNat n.natAbs else printNat n.natAbs

def replacementPolicyName (policy : ReplacementPolicy) : List Char :=
  match policy.state with
  | .fifo _ => "FIFO".toList
  | .lru _ => "LRU".toList
  | .clock _ => "Clock".toList
  | .aging _ => "Aging".toList

def virtualMemoryPolicyName (memory : VirtualMemory) : List Char :=
  replacementPolicyName memory.replacementPolicy

/-- A quotient; 0.0 is 0 / 1. -/
def virtualMemoryTlbHitRatio (memory : VirtualMemory) : Nat × Nat :=
  let total := (memory.stats.tlbHits + memory.stats.tlbMisses) % wordSize
  if total = 0 then (0, 1) else (memory.stats.tlbHits, total)

def virtualMemoryAveragePageWalkLevels (memory : VirtualMemory) : Nat × Nat :=
  if memory.stats.pageWalks = 0 then (0, 1)
  else (memory.stats.pageWalkLevels, memory.stats.pageWalks)

/-! ## Streams -/

/-- An open file, and the number of characters that can be written to
it. -/
structure CsvStream where
  text : List Char
  room : Nat

def CsvStream.put (stream : CsvStream) (text : List Char) : Option CsvStream :=
  if text.length ≤ stream.room then
    some ⟨stream.text ++ text, stream.room - text.length⟩
  else none

def csvFileIsEmpty (stream : CsvStream) : Bool := decide (stream.text.length ≤ 0)

/-- The loop of `csv_write_text_field`. -/
def csvWriteText : CsvStream → List Char → Option CsvStream
  | stream, [] => some stream
  | stream, c :: text =>
    if c = '"' then do
      let stream ← stream.put ['"']
      let stream ← stream.put ['"']
      csvWriteText stream text
    else do
      let stream ← stream.put [c]
      csvWriteText stream text

def csvWriteTextField (stream : CsvStream) (text : Option (List Char)) : Option CsvStream := do
  let stream ← stream.put ['"']
  let stream ← csvWriteText stream (text.getD [])
  stream.put ['"']

/-- The text of the header. -/
def csvHeader : List Char :=
  "trace,".toList ++ "pid,".toList ++ "frames,".toList ++ "policy,".toList ++
    "tlb_entries,".toList ++ "swap_slots,".toList ++ "processed_accesses,".toList ++
    "total_accesses,".toList ++ "read_accesses,".toList ++ "write_accesses,".toList ++
    "page_faults,".toList ++ "replacements,".toList ++ "dirty_evictions,".toList ++
    "tlb_hits,".toList ++ "tlb_misses,".toList ++ "tlb_hit_ratio,".toList ++
    "page_walks,".toList ++ "page_walk_levels,".toList ++ "average_page_walk_levels,".toList ++
    "swap_reads,".toList ++ "swap_writes\n".toList

def csvWriteHeader (stream : CsvStream) : Option CsvStream := stream.put csvHeader

def csvWriteResultRow (format : FixedFormat) (stream : CsvStream) (options : CliOptions)
    (memory : VirtualMemory) (processedAccesses : Nat) : Option CsvStream := do
  let stats := memory.stats
  let stream ← csvWriteTextField stream options.tracePath
  let stream ← stream.put [',']
  let stream ← stream.put (printInt options.pid ++ ',' :: (printNat options.frameCount ++ [',']))
  let stream ← csvWriteTextField stream (some (virtualMemoryPolicyName memory))
  let stream ← stream.put [',']
  stream.put (printNat options.tlbEntries ++ ',' :: (printNat options.swapSlots ++ ',' ::
    (printNat processedAccesses ++ ',' :: (printNat stats.totalAccesses ++ ',' ::
    (printNat stats.readAccesses ++ ',' :: (printNat stats.writeAccesses ++ ',' ::
    (printNat stats.pageFaults ++ ',' :: (printNat stats.replacements ++ ',' ::
    (printNat stats.dirtyEvictions ++ ',' :: (printNat stats.tlbHits ++ ',' ::
    (printNat stats.tlbMisses ++ ',' :: (format.print (virtualMemoryTlbHitRatio memory) ++ ',' ::
    (printNat stats.pageWalks ++ ',' :: (printNat stats.pageWalkLevels ++ ',' ::
    (format.print (virtualMemoryAveragePageWalkLevels memory) ++ ',' ::
    (printNat stats.swapReads ++ ',' :: (printNat stats.swapWrites ++ ['\n'])))))))))))))))))

/-- What the operating system answers to a call. -/
structure CsvDevice where
  opens : Bool
  room : Nat
  flushes : Bool
  closes : Bool

/-- `csv_export_result` on the file at the path: its text after a call
that returns 0, and `none` for -1. -/
def csvExportResult (format : FixedFormat) (device : CsvDevice) (file : Option (List Char))
    (path : Option (List Char)) (options : Option CliOptions) (memory : Option VirtualMemory)
    (processedAccesses : Nat) (append : Bool) : Option (List Char) :=
  match path, options, memory with
  | some path, some options, some memory =>
    if path = [] then none
    else if device.opens then do
      -- the mode "w" drops what was in the file
      let stream : CsvStream := ⟨if append then file.getD [] else [], device.room⟩
      let stream ← (if !append || csvFileIsEmpty stream then csvWriteHeader stream
        else some stream)
      let stream ← csvWriteResultRow format stream options memory processedAccesses
      if device.flushes then if device.closes then some stream.text else none else none
    else none
  | _, _, _ => none

/-! ## Numbers are plain fields -/

theorem printNat_plain (n : Nat) : IsPlainField (printNat n) := by
  intro c hc
  have hdigit := Nat.isDigit_of_mem_toDigits (by decide) (by decide) hc
  refine ⟨?_, ?_, ?_⟩ <;> rintro rfl <;> exact absurd hdigit (by decide)

theorem printInt_plain (n : Int) : IsPlainField (printInt n) := by
  unfold printInt
  split
  · exact List.forall_mem_cons.mpr ⟨by decide, printNat_plain _⟩
  · exact printNat_plain _

/-! ## What the streams hold -/

theorem CsvStream.put_text {stream stream' : CsvStream} {text : List Char}
    (h : stream.put text = some stream') : stream'.text = stream.text ++ text := by
  unfold CsvStream.put at h
  split at h
  · rw [← Option.some.inj h]
  · cases h

theorem csvWriteText_text (text : List Char) : ∀ {stream stream' : CsvStream},
    csvWriteText stream text = some stream' →
    stream'.text = stream.text ++ doubleQuotes text := by
  induction text with
  | nil =>
    intro stream stream' h
    rw [← Option.some.inj h, doubleQuotes, List.append_nil]
  | cons c text ih =>
    intro stream stream' h
    rw [csvWriteText] at h
    rw [doubleQuotes]
    split at h
    · rename_i hc
      obtain ⟨one, hone, h⟩ := Option.bind_eq_some_iff.mp h
      obtain ⟨two, htwo, h⟩ := Option.bind_eq_some_iff.mp h
      rw [if_pos hc, ih h, CsvStream.put_text htwo, CsvStream.put_text hone]
      simp
    · rename_i hc
      obtain ⟨one, hone, h⟩ := Option.bind_eq_some_iff.mp h
      rw [if_neg hc, ih h, CsvStream.put_text hone]
      simp

theorem csvWriteTextField_text {stream stream' : CsvStream} {text : Option (List Char)}
    (h : csvWriteTextField stream text = some stream') :
    stream'.text = stream.text ++ (CsvField.quoted (text.getD [])).text := by
  obtain ⟨opened, hopened, h⟩ := Option.bind_eq_some_iff.mp h
  obtain ⟨written, hwritten, h⟩ := Option.bind_eq_some_iff.mp h
  rw [CsvStream.put_text h, csvWriteText_text _ hwritten, CsvStream.put_text hopened]
  simp [CsvField.text]

/-- A number as a field. -/
def csvNat (n : Nat) : CsvField := .plain (printNat n) (printNat_plain n)

/-- The fields of a row. -/
def csvRow (format : FixedFormat) (options : CliOptions) (memory : VirtualMemory)
    (processedAccesses : Nat) : List CsvField :=
  [.quoted (options.tracePath.getD []), .plain (printInt options.pid) (printInt_plain _),
    csvNat options.frameCount, .quoted (virtualMemoryPolicyName memory), csvNat options.tlbEntries,
    csvNat options.swapSlots, csvNat processedAccesses, csvNat memory.stats.totalAccesses,
    csvNat memory.stats.readAccesses, csvNat memory.stats.writeAccesses, csvNat memory.stats.pageFaults,
    csvNat memory.stats.replacements, csvNat memory.stats.dirtyEvictions, csvNat memory.stats.tlbHits,
    csvNat memory.stats.tlbMisses, .plain _ (format.plain (virtualMemoryTlbHitRatio memory)),
    csvNat memory.stats.pageWalks, csvNat memory.stats.pageWalkLevels,
    .plain _ (format.plain (virtualMemoryAveragePageWalkLevels memory)),
    csvNat memory.stats.swapReads, csvNat memory.stats.swapWrites]

theorem csvWriteResultRow_text {format : FixedFormat} {stream stream' : CsvStream}
    {options : CliOptions} {memory : VirtualMemory} {processedAccesses : Nat}
    (h : csvWriteResultRow format stream options memory processedAccesses = some stream') :
    stream'.text = stream.text ++
      csvRecord (csvRow format options memory processedAccesses) := by
  obtain ⟨path, hpath, h⟩ := Option.bind_eq_some_iff.mp h
  obtain ⟨comma, hcomma, h⟩ := Option.bind_eq_some_iff.mp h
  obtain ⟨sizes, hsizes, h⟩ := Option.bind_eq_some_iff.mp h
  obtain ⟨policy, hpolicy, h⟩ := Option.bind_eq_some_iff.mp h
  obtain ⟨behind, hbehind, h⟩ := Option.bind_eq_some_iff.mp h
  rw [CsvStream.put_text h, CsvStream.put_text hbehind, csvWriteTextField_text hpolicy,
    CsvStream.put_text hsizes, CsvStream.put_text hcomma, csvWriteTextField_text hpath]
  simp only [csvRow, csvRecord, csvNat, CsvField.text, Option.getD_some, List.append_assoc,
    List.cons_append, List.nil_append]

/-! ## What a call leaves -/

/-- What is in the file once it is open. -/
def csvKept (file : Option (List Char)) (append : Bool) : List Char :=
  if append then file.getD [] else []

/-- What a call has to write. -/
def csvWritten (format : FixedFormat) (file : Option (List Char)) (options : CliOptions)
    (memory : VirtualMemory) (processedAccesses : Nat) (append : Bool) : List Char :=
  (if !append || decide ((csvKept file append).length ≤ 0) then csvHeader else []) ++
    csvRecord (csvRow format options memory processedAccesses)

/-- The file after a call that fails. If it was opened, the mode "w" has
dropped what was in it, and of what the call had to write, `keeps`
characters have reached it: all of them where only the closing failed. -/
def csvExportLeft (format : FixedFormat) (device : CsvDevice) (keeps : Nat)
    (file : Option (List Char)) (path : List Char) (options : CliOptions) (memory : VirtualMemory)
    (processedAccesses : Nat) (append : Bool) : Option (List Char) :=
  if path = [] ∨ device.opens = false then file
  else some (csvKept file append ++
    (csvWritten format file options memory processedAccesses append).take (min keeps device.room))

theorem csvExportResult_text {format : FixedFormat} {device : CsvDevice}
    {file : Option (List Char)} {path text : List Char} {options : CliOptions}
    {memory : VirtualMemory} {processedAccesses : Nat} {append : Bool}
    (h : csvExportResult format device file (some path) (some options) (some memory)
      processedAccesses append = some text) :
    text = csvKept file append ++
      csvWritten format file options memory processedAccesses append := by
  unfold csvExportResult at h
  dsimp only at h
  split at h
  · cases h
  · split at h
    · obtain ⟨headed, hheaded, h⟩ := Option.bind_eq_some_iff.mp h
      obtain ⟨written, hwritten, h⟩ := Option.bind_eq_some_iff.mp h
      have htext : text = written.text := by
        split at h
        · split at h
          · exact (Option.some.inj h).symm
          · cases h
        · cases h
      have hhead : headed.text = csvKept file append ++
          (if !append || decide ((csvKept file append).length ≤ 0) then csvHeader else []) := by
        unfold csvFileIsEmpty at hheaded
        change (if !append || decide ((csvKept file append).length ≤ 0) then _ else _) = _
          at hheaded
        split at hheaded
        · rename_i hcond
          rw [if_pos hcond, CsvStream.put_text hheaded]
          rfl
        · rename_i hcond
          rw [if_neg hcond, List.append_nil, ← Option.some.inj hheaded]
          rfl
      rw [htext, csvWriteResultRow_text hwritten, hhead, csvWritten, List.append_assoc]
    · cases h

end VmSim
