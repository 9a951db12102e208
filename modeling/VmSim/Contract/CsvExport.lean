/-
VmSim.Contract.CsvExport — the exported file is a log of the exports.

`LogFile` is what a file holds: nothing, or the header and a row for each
export that was kept. A call that succeeds keeps to it
(`LogFile.export`), and what a log file holds is read back as its records
(`LogFile.parse`).
-/
import VmSim.CsvExport

namespace VmSim

open Lib

/-! ## Calls -/

/-- The arguments of a call, except for the file. -/
structure CsvCall where
  options : CliOptions
  memory : VirtualMemory
  processedAccesses : Nat
  append : Bool
  device : CsvDevice

/-- The text of the file after the call, when it succeeds. -/
def CsvCall.result (call : CsvCall) (format : FixedFormat) (path : List Char)
    (file : Option (List Char)) : Option (List Char) :=
  csvExportResult format call.device file (some path) (some call.options) (some call.memory)
    call.processedAccesses call.append

/-- The file after some calls, when they all succeed. -/
def csvExports (format : FixedFormat) (path : List Char) :
    Option (List Char) → List CsvCall → Option (Option (List Char))
  | file, [] => some file
  | file, call :: calls =>
    (call.result format path file).bind fun text => csvExports format path (some text) calls

/-- The calls since the last one that overwrote the file, and that one. -/
def exportsSinceOverwrite (calls : List CsvCall) : List CsvCall :=
  calls.foldl (fun kept call => if call.append then kept ++ [call] else [call]) []

/-- The fields of the row that a call writes. -/
def CsvCall.record (call : CsvCall) (format : FixedFormat) : List (List Char) :=
  (csvRow format call.options call.memory call.processedAccesses).map CsvField.value

/-! ## The header -/

def csvColumn (name : String) (h : IsPlainField name.toList) : CsvField := .plain name.toList h

def csvColumns : List CsvField :=
  [csvColumn "trace" (by decide), csvColumn "pid" (by decide), csvColumn "frames" (by decide),
    csvColumn "policy" (by decide), csvColumn "tlb_entries" (by decide),
    csvColumn "swap_slots" (by decide), csvColumn "processed_accesses" (by decide),
    csvColumn "total_accesses" (by decide), csvColumn "read_accesses" (by decide),
    csvColumn "write_accesses" (by decide), csvColumn "page_faults" (by decide),
    csvColumn "replacements" (by decide), csvColumn "dirty_evictions" (by decide),
    csvColumn "tlb_hits" (by decide), csvColumn "tlb_misses" (by decide),
    csvColumn "tlb_hit_ratio" (by decide), csvColumn "page_walks" (by decide),
    csvColumn "page_walk_levels" (by decide), csvColumn "average_page_walk_levels" (by decide),
    csvColumn "swap_reads" (by decide), csvColumn "swap_writes" (by decide)]

theorem csvHeader_eq : csvHeader = csvRecord csvColumns := by decide +kernel

theorem csvWriteHeader_text {stream stream' : CsvStream}
    (h : csvWriteHeader stream = some stream') :
    stream'.text = stream.text ++ csvRecord csvColumns := by
  rw [CsvStream.put_text h, csvHeader_eq]

/-! ## What the file holds -/

/-- The text of the rows of some calls. -/
def csvRows (format : FixedFormat) (calls : List CsvCall) : List Char :=
  calls.flatMap fun call =>
    csvRecord (csvRow format call.options call.memory call.processedAccesses)

/-- An empty file, or the header and a row for each of the calls. -/
def LogFile (format : FixedFormat) (kept : List CsvCall) (file : Option (List Char)) : Prop :=
  file.getD [] = if kept = [] then [] else csvRecord csvColumns ++ csvRows format kept

/-- A file has its header, and only one, before a row is written. -/
theorem LogFile.headed {format : FixedFormat} {kept : List CsvCall} {file : Option (List Char)}
    (h : LogFile format kept file) {append : Bool} {stream headed : CsvStream}
    (hstream : stream.text = if append then file.getD [] else [])
    (hheaded : (if !append || csvFileIsEmpty stream then csvWriteHeader stream else some stream) =
      some headed) :
    headed.text = csvRecord csvColumns ++ csvRows format (if append then kept else []) := by
  cases append with
  | false =>
    rw [Bool.not_false, Bool.true_or, if_pos rfl] at hheaded
    rw [csvWriteHeader_text hheaded, hstream]
    simp [csvRows]
  | true =>
    rw [if_pos rfl, h] at hstream
    rw [Bool.not_true, Bool.false_or, csvFileIsEmpty, hstream] at hheaded
    by_cases hkept : kept = []
    · rw [if_pos hkept] at hstream hheaded
      rw [if_pos (by decide)] at hheaded
      rw [csvWriteHeader_text hheaded, hstream, hkept]
      simp [csvRows]
    · rw [if_neg hkept] at hstream hheaded
      rw [if_neg (by simp [csvRecord_ne])] at hheaded
      rw [← Option.some.inj hheaded, hstream, if_pos rfl]

/-- One successful call. -/
theorem LogFile.export {format : FixedFormat} {kept : List CsvCall} {file : Option (List Char)}
    (h : LogFile format kept file) {path : List Char} {call : CsvCall} {text : List Char}
    (hcall : call.result format path file = some text) :
    LogFile format (if call.append then kept ++ [call] else [call]) (some text) := by
  unfold CsvCall.result csvExportResult at hcall
  dsimp only at hcall
  split at hcall
  · cases hcall
  · split at hcall
    · obtain ⟨headed, hheaded, hcall⟩ := Option.bind_eq_some_iff.mp hcall
      obtain ⟨written, hwritten, hcall⟩ := Option.bind_eq_some_iff.mp hcall
      have htext : text = written.text := by
        split at hcall
        · split at hcall
          · exact (Option.some.inj hcall).symm
          · cases hcall
        · cases hcall
      have hrow := csvWriteResultRow_text hwritten
      rw [h.headed rfl hheaded, ← htext] at hrow
      show text = _
      rw [hrow]
      cases call.append with
      | false =>
        rw [if_neg Bool.false_ne_true, if_neg Bool.false_ne_true,
          if_neg (List.cons_ne_nil call [])]
        simp [csvRows]
      | true =>
        rw [if_pos rfl, if_pos rfl, if_neg (by simp)]
        simp [csvRows]
    · cases hcall

/-- All of them. -/
theorem LogFile.exports {format : FixedFormat} {path : List Char} (calls : List CsvCall) :
    ∀ {kept : List CsvCall} {file file' : Option (List Char)}, LogFile format kept file →
      csvExports format path file calls = some file' →
      LogFile format (calls.foldl
        (fun kept call => if call.append then kept ++ [call] else [call]) kept) file' := by
  induction calls with
  | nil =>
    intro kept file file' h hrun
    rw [← Option.some.inj hrun]
    exact h
  | cons call calls ih =>
    intro kept file file' h hrun
    obtain ⟨text, hcall, hrun⟩ := Option.bind_eq_some_iff.mp hrun
    exact ih (h.export hcall) hrun

theorem exportsSinceOverwrite_ne {calls : List CsvCall} (hne : calls ≠ []) :
    exportsSinceOverwrite calls ≠ [] := by
  obtain ⟨before, last, rfl⟩ := (List.eq_nil_or_concat calls).resolve_left hne
  rw [List.concat_eq_append, exportsSinceOverwrite, List.foldl_append]
  show (if last.append then _ ++ [last] else [last]) ≠ []
  split <;> simp

/-- The records of a log file. -/
theorem LogFile.parse {format : FixedFormat} {kept : List CsvCall} {text : List Char}
    (h : LogFile format kept (some text)) (hne : kept ≠ []) :
    csvParse text = some (csvColumns.map CsvField.value :: kept.map (CsvCall.record · format)) := by
  have htext : text = (csvColumns :: kept.map fun call =>
      csvRow format call.options call.memory call.processedAccesses).flatMap csvRecord := by
    rw [List.flatMap_cons, List.flatMap_map]
    exact h.trans (if_neg hne)
  rw [htext, csvParse_records, List.map_cons, List.map_map]
  · rfl
  · rw [List.forall_mem_cons]
    refine ⟨by simp [csvColumns], fun record hrecord => ?_⟩
    obtain ⟨call, _, rfl⟩ := List.mem_map.mp hrecord
    simp [csvRow]

/-- **The export is a log.** After any successful calls on a file that was
absent or empty, its text is read as the header and one record for each
call since the last that overwrote the file, in order; all records have
21 fields, of which the first is the trace path and the fourth the name
of the policy. -/
theorem csvExport_log {format : FixedFormat} {path : List Char} {file : Option (List Char)}
    (hfile : file = none ∨ file = some []) {calls : List CsvCall} (hne : calls ≠ [])
    {text : List Char} (hrun : csvExports format path file calls = some (some text)) :
    csvParse text = some (csvColumns.map CsvField.value ::
        (exportsSinceOverwrite calls).map (CsvCall.record · format)) ∧
      (csvColumns.map CsvField.value).length = 21 ∧
      ∀ call ∈ exportsSinceOverwrite calls, (call.record format).length = 21 ∧
        (call.record format)[0]? = some (call.options.tracePath.getD []) ∧
        (call.record format)[3]? = some (virtualMemoryPolicyName call.memory) := by
  have hlog : LogFile format [] file := by
    rcases hfile with rfl | rfl <;> rfl
  refine ⟨(hlog.exports calls hrun).parse (exportsSinceOverwrite_ne hne), rfl, fun call _ => ?_⟩
  exact ⟨rfl, rfl, rfl⟩

/-- Six digits behind the point, not rounded; the quotients of the sample
are 0. -/
def sixDigits : FixedFormat where
  print q := printNat (q.1 / q.2) ++ '.' ::
    List.leftpad 6 '0' (printNat (q.1 * 10 ^ 6 / q.2 % 10 ^ 6))
  plain q := by
    refine List.forall_mem_append.mpr ⟨printNat_plain _, List.forall_mem_cons.mpr ⟨by decide, ?_⟩⟩
    refine List.forall_mem_append.mpr ⟨fun c hc => ?_, printNat_plain _⟩
    rw [List.eq_of_mem_replicate hc]
    decide

/-- Two exports of a new memory under a path with a comma, quotes and a
newline; the second is appended. -/
def sampleExports (memory : VirtualMemory) : List CsvCall :=
  [⟨⟨some "a,\"b\"\n".toList, 2, 2, 0, 7⟩, memory, 3, false, ⟨true, 4096, true, true⟩⟩,
    ⟨⟨some "c".toList, 2, 2, 0, 7⟩, memory, 4, true, ⟨true, 4096, true, true⟩⟩]

theorem csvExport_log_two :
    ∃ memory text, virtualMemoryCreateInternal 2 .lru 2 none = some memory ∧
      csvExports sixDigits "metrics.csv".toList none (sampleExports memory) = some (some text) ∧
      csvParse text = some (csvColumns.map CsvField.value ::
        (sampleExports memory).map (CsvCall.record · sixDigits)) := by
  have hsome : ((virtualMemoryCreateInternal 2 .lru 2 none).bind fun memory =>
      (csvExports sixDigits "metrics.csv".toList none (sampleExports memory)).bind id).isSome =
        true := by decide +kernel
  obtain ⟨text, hbind⟩ := Option.isSome_iff_exists.mp hsome
  obtain ⟨memory, hmemory, hbind⟩ := Option.bind_eq_some_iff.mp hbind
  obtain ⟨file, hrun, hfile⟩ := Option.bind_eq_some_iff.mp hbind
  obtain rfl : file = some text := hfile
  exact ⟨memory, text, hmemory, hrun,
    (csvExport_log (.inl rfl) (List.cons_ne_nil _ _) hrun).1⟩

end VmSim
