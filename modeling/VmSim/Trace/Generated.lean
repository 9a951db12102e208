/-
VmSim.Trace.Generated — the trace generator as a program
(`src/tracegen_main.c`), and what the simulator gets from it.

The file that the generator writes is delivered as one entry of size 1
for every choice, so a replay makes one access for each
(`traceAccesses_generated`).
-/
import VmSim.Contract.TraceRoundTrip
import VmSim.Trace.Options
import VmSim.SimulatorRuns

namespace VmSim

open Lib

/-- The exit status, and the path and the text of the file that was
written. -/
structure TraceGeneratorExit where
  status : Nat
  written : Option (List Char × List Char)

/-- `main`; `fileWrites` is whether the output file can be opened, written
and closed. What a failed run leaves in its file is not modelled. -/
def traceGeneratorMain (fileWrites : Bool) (argv : List (List Char))
    (options : TraceGeneratorArguments) : TraceGeneratorExit :=
  let parsed := traceGeneratorParse argv options
  if parsed.1 = 1 then ⟨exitSuccess, none⟩
  else if parsed.1 ≠ 0 then ⟨exitFailure, none⟩
  else
    match traceGeneratorGenerate parsed.2.toTraceGeneratorOptions with
    | some text =>
      if fileWrites then ⟨exitSuccess, parsed.2.outputPath.map fun path => (path.toList, text)⟩
      else ⟨exitFailure, none⟩
    | none => ⟨exitFailure, none⟩

def TraceGeneratorExit.disk (exit : TraceGeneratorExit) (disk : Disk) : Disk :=
  match exit.written with
  | some (path, text) => Function.update disk path (some text)
  | none => disk

/-! ## Delivery -/

variable {reader : TraceReader} {file : List Char} {entries : List TraceEntry}
  {last : TraceResult} {options : TraceGeneratorOptions} {text : List Char} {m n : Nat}

/-- More rounds than the reader needs make no difference. -/
theorem traceReaderRun_rounds (hn : reader.rounds ≤ n) (hm : reader.rounds ≤ m) :
    traceReaderRun n reader = traceReaderRun m reader := by
  induction n generalizing m reader with
  | zero => exact absurd hn (Nat.not_succ_le_zero _)
  | succ n ih =>
    cases m with
    | zero => exact absurd hm (Nat.not_succ_le_zero _)
    | succ m =>
      cases hnext : traceReaderNext reader with
      | mk result reader' =>
        rw [traceReaderRun, traceReaderRun, hnext]
        cases result with
        | entry entry =>
          have hfewer := traceReaderNext_rounds hnext
          have hrest : traceReaderRun n reader' = traceReaderRun m reader' :=
            ih (by omega) (by omega)
          dsimp only
          rw [hrest]
        | endOfFile => rfl
        | invalid => rfl

/-- A file that starts with a line of the generator. -/
theorem Delivers.line {operation : Char} (hop : operation = 'R' ∨ operation = 'W')
    (address : UInt64) (h : Delivers file entries last) :
    Delivers (traceLine operation address ++ file)
      (⟨traceOperationType operation, address.toNat, 1⟩ :: entries) last := by
  have hnext := traceReaderNext_line hop address file
  have hfewer := traceReaderNext_rounds hnext
  obtain ⟨rounds, hrounds⟩ := Nat.exists_eq_add_of_lt hfewer
  unfold Delivers at h ⊢
  rw [hrounds, traceReaderRun, hnext]
  dsimp only
  rw [traceReaderRun_rounds (Nat.le_add_right _ rounds) (Nat.le_refl _), h]
  rfl

/-- The entry of a choice. -/
def TraceGeneratorOptions.entry (options : TraceGeneratorOptions) (choice : UInt64 × Char) :
    TraceEntry :=
  ⟨traceOperationType choice.2, (options.baseAddress + choice.1 * 4096).toNat, 1⟩

/-- The choices of a whole trace. -/
def TraceGeneratorOptions.choices (options : TraceGeneratorOptions) : List (UInt64 × Char) :=
  traceChoices options options.accessCount.toNat 0 options.seed

theorem delivers_choices (options : TraceGeneratorOptions) (choices : List (UInt64 × Char)) :
    (∀ choice ∈ choices, choice.2 = 'R' ∨ choice.2 = 'W') →
      Delivers (choices.flatMap fun choice =>
        traceLine choice.2 (options.baseAddress + choice.1 * 4096))
        (choices.map options.entry) .endOfFile := by
  induction choices with
  | nil => exact fun _ => rfl
  | cons choice choices ih =>
    intro hops
    obtain ⟨hop, hrest⟩ := List.forall_mem_cons.mp hops
    rw [List.flatMap_cons, List.map_cons]
    exact (ih hrest).line hop _

/-- What the generator has checked before it writes. -/
structure TraceGeneratorOptions.Checked (options : TraceGeneratorOptions) : Prop where
  pages : options.pageCount ≠ 0
  range : traceAddressRangeIsValid options = true

theorem traceGeneratorGenerate_some (h : traceGeneratorGenerate options = some text) :
    options.Checked ∧ text = options.choices.flatMap fun choice =>
      traceLine choice.2 (options.baseAddress + choice.1 * 4096) := by
  unfold traceGeneratorGenerate at h
  split at h
  · cases h
  · rename_i hchecked
    simp only [not_or, Bool.not_eq_true', Bool.not_eq_false] at hchecked
    obtain ⟨_, hpages, _, _, hrange⟩ := hchecked
    cases h
    exact ⟨⟨hpages, hrange⟩, traceGenerateFrom_choices _ _ _ _⟩

theorem TraceGeneratorOptions.Checked.chosen (h : options.Checked) {i : Nat}
    {choice : UInt64 × Char} (hi : options.choices[i]? = some choice) :
    options.Chosen (UInt64.ofNat i) choice := by
  have hchosen := traceChoices_chosen h.pages options.accessCount.toNat 0 options.seed i choice hi
  rwa [UInt64.zero_add] at hchosen

theorem TraceGeneratorOptions.Checked.mem_chosen (h : options.Checked) {choice : UInt64 × Char}
    (hmem : choice ∈ options.choices) : ∃ index, options.Chosen index choice := by
  obtain ⟨i, hi⟩ := List.mem_iff_getElem?.mp hmem
  exact ⟨_, h.chosen hi⟩

theorem generated_delivers (h : traceGeneratorGenerate options = some text) :
    Delivers text (options.choices.map options.entry) .endOfFile := by
  obtain ⟨hchecked, rfl⟩ := traceGeneratorGenerate_some h
  refine delivers_choices options options.choices fun choice hmem => ?_
  obtain ⟨_, hchosen⟩ := hchecked.mem_chosen hmem
  exact hchosen.operation

/-! ## Accesses -/

/-- The access of a choice. -/
def TraceGeneratorOptions.access (options : TraceGeneratorOptions) (choice : UInt64 × Char) :
    Nat × VirtualMemoryAccessType :=
  ((options.baseAddress + choice.1 * 4096).toNat, if choice.2 = 'R' then .read else .write)

theorem TraceEntry.accesses_one {entry : TraceEntry} (h : entry.size = 1) :
    entry.accesses = [(entry.address, entry.accessType)] := by
  have hlast : entry.lastPage = entry.firstPage := by
    rw [TraceEntry.lastPage, h]
    rfl
  simp [TraceEntry.accesses, hlast]

theorem traceAccesses_generated (options : TraceGeneratorOptions)
    (choices : List (UInt64 × Char)) :
    traceAccesses (choices.map options.entry) = choices.map options.access := by
  have hfits : ∀ entry ∈ choices.map options.entry, entry.fits = true := by
    intro entry hentry
    obtain ⟨choice, _, rfl⟩ := List.mem_map.mp hentry
    exact decide_eq_true (UInt64.toNat_lt _)
  rw [traceAccesses, List.takeWhile_eq_self_iff.mpr hfits]
  induction choices with
  | nil => rfl
  | cons choice choices ih =>
    rw [List.map_cons, List.flatMap_cons, TraceEntry.accesses_one rfl, List.map_cons,
      ih fun entry hentry => hfits entry (List.mem_cons_of_mem _ hentry)]
    have htype : (options.entry choice).accessType =
        if choice.2 = 'R' then VirtualMemoryAccessType.read else .write := by
      simp only [TraceGeneratorOptions.entry, TraceEntry.accessType, traceOperationType]
      split <;> rfl
    rw [htype]
    rfl

/-- The page of a choice comes that many pages after the first. -/
theorem TraceGeneratorOptions.Checked.page (h : options.Checked) {choice : UInt64 × Char}
    (hmem : choice ∈ options.choices) :
    addressPageNumber (options.access choice).1 =
      addressPageNumber options.baseAddress.toNat + choice.1.toNat ∧
      choice.1.toNat < options.pageCount.toNat ∧
      (options.access choice).1 = options.baseAddress.toNat + choice.1.toNat * pageSize := by
  obtain ⟨_, hchosen⟩ := h.mem_chosen hmem
  obtain ⟨_, haddress⟩ := traceAddress_toNat h.range hchosen.page
  refine ⟨?_, UInt64.lt_iff_toNat_lt.mp hchosen.page, haddress⟩
  show addressPageNumber (options.baseAddress + choice.1 * 4096).toNat = _
  rw [haddress]
  simp only [addressPageNumber, pageOffsetBits, pageSize, Nat.shiftRight_eq_div_pow]
  omega

/-- The sequential pattern goes round the pages. -/
theorem TraceGeneratorOptions.Checked.sequential (h : options.Checked)
    (hpattern : options.pattern = .sequential) :
    options.choices.map (fun choice => addressPageNumber (options.access choice).1) =
      (List.range options.accessCount.toNat).map fun i =>
        addressPageNumber options.baseAddress.toNat + i % options.pageCount.toNat := by
  have hlength : options.choices.length = options.accessCount.toNat := traceChoices_length _ _ _ _
  refine List.ext_getElem (by simp [hlength]) fun i hi hi' => ?_
  simp only [List.length_map, List.length_range] at hi'
  have hget : options.choices[i]? = some options.choices[i] := by
    simp [hlength, hi']
  have hindex : (UInt64.ofNat i).toNat = i :=
    UInt64.toNat_ofNat_of_lt' (hi'.trans options.accessCount.toNat_lt)
  rw [List.getElem_map, List.getElem_map, List.getElem_range,
    (h.page (List.getElem_mem _)).1, (h.chosen hget).sequential hpattern, UInt64.toNat_mod, hindex]

end VmSim
