/-
VmSim.Trace.Replay — replaying a memory trace (`trace_replay` in
`src/trace.c`).

Both loops run on fuel, and running out of it is a fault. The page loop is
given one round for each page and one for the test that ends it, the loop
over the entries one round for each call of `trace_reader_next`.

`World.Performs` says what the accesses of a list do one after the other, up
to the first that fails. `Replays p calls finishes c` is the specification
of a part of a replay: it makes the accesses `calls`, and it returns 0
if none of them failed and `finishes` holds.
-/
import VmSim.Trace.Reader
import VmSim.VirtualMemory.Safety

namespace VmSim

open Lib Lib.Comp

/-- The virtual memory, and the counter that the caller of `trace_replay`
passes. -/
structure Replay where
  world : World
  processedAccesses : Nat

def onWorld {α : Type} (c : Comp World α) : Comp Replay α :=
  Comp.zoom Replay.world (fun s w => { s with world := w }) c

/-- The access type of an entry. -/
def TraceEntry.accessType (entry : TraceEntry) : VirtualMemoryAccessType :=
  if entry.type = .write then .write else .read

/-- The body of the page loop of `trace_replay_entry`. -/
def traceReplayAccess (process address : Nat) (accessType : VirtualMemoryAccessType) :
    Comp Replay Unit := do
  let result ← onWorld (virtualMemoryAccess process address accessType)
  Comp.failIf result.isError
  Comp.modify fun s => { s with processedAccesses := increment s.processedAccesses }

/-- The page loop of `trace_replay_entry`. -/
def traceReplayPages (process address firstPage lastPage : Nat)
    (accessType : VirtualMemoryAccessType) : Nat → Nat → Comp Replay Unit
  | 0, _ => Comp.fault
  | rounds + 1, page =>
    if page ≤ lastPage then do
      traceReplayAccess process (if page = firstPage then address else pageAddress page) accessType
      if page = wordSize - 1 then pure ()
      else traceReplayPages process address firstPage lastPage accessType rounds (increment page)
    else pure ()

def traceReplayEntry (process : Nat) (entry : TraceEntry) : Comp Replay Unit := do
  Comp.failIf (entry.size = 0)
  let sizeMinusOne := entry.size - 1
  Comp.failIf (sizeMinusOne > wordSize - 1 - entry.address)
  let finalAddress := entry.address + sizeMinusOne
  let firstPage := addressPageNumber entry.address
  let lastPage := addressPageNumber finalAddress
  traceReplayPages process entry.address firstPage lastPage entry.accessType
    (lastPage - firstPage + 2) firstPage

/-- The loop of `trace_replay`. -/
def traceReplayEntries (process : Nat) : Nat → TraceReader → Comp Replay Unit
  | 0, _ => Comp.fault
  | rounds + 1, reader =>
    match traceReaderNext reader with
    | (.entry entry, reader') => do
      traceReplayEntry process entry
      traceReplayEntries process rounds reader'
    | (.endOfFile, _) => pure ()
    | (.invalid, _) => Comp.fail

/-- A line leaves two entries at most, and the last call none. -/
def TraceReader.rounds (reader : TraceReader) : Nat :=
  2 * reader.file.length + reader.pendingEntry.toList.length + 1

/-- `trace_replay`; `none` is a file that cannot be opened. -/
def traceReplay (process : Nat) (file : Option (List Char)) : Comp Replay Unit := do
  let reader ← Comp.orFail (file.map traceReaderOpen)
  Comp.modify fun s => { s with processedAccesses := 0 }
  traceReplayEntries process reader.rounds reader

/-! ## The reader -/

variable {reader reader' : TraceReader} {entry : TraceEntry} {file : List Char}

theorem traceReadLines_shorter {rounds : Nat} :
    ∀ {file : List Char}, traceReadLines rounds file = (.entry entry, reader') →
      reader'.file.length < file.length := by
  induction rounds with
  | zero =>
    intro file h
    cases h
  | succ rounds ih =>
    intro file h
    rw [traceReadLines] at h
    by_cases hempty : file = []
    · rw [if_pos hempty] at h
      cases h
    · rw [if_neg hempty] at h
      have hlt := fgetsLine_length hempty (show 0 < traceLineSize - 1 by decide)
      dsimp only at h
      split at h
      · exact (ih h).trans hlt
      · cases h
      · cases h
        exact hlt

/-- Every entry that is delivered takes a round. -/
theorem traceReaderNext_rounds (h : traceReaderNext reader = (.entry entry, reader')) :
    reader'.rounds < reader.rounds := by
  obtain ⟨file, pending⟩ := reader
  cases pending with
  | some pending =>
    cases h
    exact Nat.lt_succ_self _
  | none =>
    have hlt : reader'.file.length < file.length := traceReadLines_shorter h
    have hpending : reader'.pendingEntry.toList.length ≤ 1 := by
      cases reader'.pendingEntry <;> simp
    unfold TraceReader.rounds
    dsimp only [Option.toList_none, List.length_nil]
    omega

/-- What the reader promises of an entry. -/
structure TraceEntry.Wf (entry : TraceEntry) : Prop where
  address : entry.address < wordSize
  size : 1 ≤ entry.size

theorem sscanf_lt {format : List ScanDirective} :
    ∀ {text : List Char}, ∀ value ∈ sscanf format text, value < wordSize := by
  induction format with
  | nil =>
    intro text value hvalue
    cases hvalue
  | cons directive format ih =>
    intro text value hvalue
    cases directive with
    | space => exact ih value hvalue
    | literal c =>
      cases text with
      | nil => cases hvalue
      | cons c' text =>
        rw [sscanf] at hvalue
        split at hvalue
        · exact ih value hvalue
        · cases hvalue
    | unsigned base =>
      rw [sscanf] at hvalue
      split at hvalue
      · cases hvalue
      · rename_i scanned text' hscan
        rcases List.mem_cons.mp hvalue with rfl | hrest
        · exact scanUnsigned_lt hscan
        · exact ih value hrest

theorem traceParseParameters_wf {text : List Char} {address size : Nat}
    (h : traceParseParameters text = some (address, size)) : address < wordSize ∧ 1 ≤ size := by
  unfold traceParseParameters at h
  dsimp only at h
  split at h
  · cases h
  · rename_i first rest hmatched
    have hfirst : first < wordSize := by
      have hmem : first ∈ first :: rest := List.mem_cons_self
      rw [← hmatched] at hmem
      split at hmem
      · exact sscanf_lt first hmem
      · exact sscanf_lt first hmem
    split at h
    · cases h
    · rename_i hsize
      cases h
      exact ⟨hfirst, Nat.pos_of_ne_zero hsize⟩

theorem traceParseLine_wf {line : List Char} {pending : Option TraceEntry}
    (h : traceParseLine line = .entry entry pending) :
    entry.Wf ∧ ∀ later, pending = some later → later.Wf := by
  unfold traceParseLine at h
  split at h
  · cases h
  · split at h
    · cases h
    · dsimp only at h
      split at h
      · cases h
      · split at h
        · cases h
        · split at h
          · cases h
          · rename_i address size hparameters
            obtain ⟨haddress, hsize⟩ := traceParseParameters_wf hparameters
            split at h
            · cases h
              exact ⟨⟨haddress, hsize⟩, fun _ e => by cases e⟩
            · split at h
              · cases h
                exact ⟨⟨haddress, hsize⟩, fun _ e => by cases e⟩
              · cases h
                refine ⟨⟨haddress, hsize⟩, fun _ e => ?_⟩
                cases e
                exact ⟨haddress, hsize⟩

/-- What a reader has kept of an `M` line. -/
def TraceReader.Wf (reader : TraceReader) : Prop :=
  ∀ entry, reader.pendingEntry = some entry → entry.Wf

theorem traceReadLines_wf {rounds : Nat} :
    ∀ {file : List Char}, traceReadLines rounds file = (.entry entry, reader') →
      entry.Wf ∧ reader'.Wf := by
  induction rounds with
  | zero =>
    intro file h
    cases h
  | succ rounds ih =>
    intro file h
    rw [traceReadLines] at h
    split at h
    · cases h
    · dsimp only at h
      split at h
      · exact ih h
      · cases h
      · rename_i hline
        cases h
        exact traceParseLine_wf hline

theorem traceReaderNext_wf (hwf : reader.Wf)
    (h : traceReaderNext reader = (.entry entry, reader')) : entry.Wf ∧ reader'.Wf := by
  obtain ⟨file, pending⟩ := reader
  cases pending with
  | some pending =>
    cases h
    exact ⟨hwf entry rfl, fun _ e => by cases e⟩
  | none => exact traceReadLines_wf h

/-! ## Lists of accesses -/

variable {w w₁ w' : World} {p a : Nat} {accessType : VirtualMemoryAccessType}
  {calls later : List (Nat × VirtualMemoryAccessType)}
  {results followed : List VirtualMemoryAccessResult} {finishes : Bool}

/-- The accesses of a list are made in order, up to the first that fails. -/
inductive World.Performs (p : Nat) : World → List (Nat × VirtualMemoryAccessType) →
    List VirtualMemoryAccessResult → World → Prop where
  | done {w : World} : Performs p w [] [] w
  | next {w w₁ w' : World} {a : Nat} {accessType : VirtualMemoryAccessType}
      {result : VirtualMemoryAccessResult} {calls : List (Nat × VirtualMemoryAccessType)}
      {results : List VirtualMemoryAccessResult} :
      virtualMemoryAccess p a accessType w = .ok result w₁ → result.isError = false →
      Performs p w₁ calls results w' → Performs p w ((a, accessType) :: calls) (result :: results) w'
  | failed {w w' : World} {a : Nat} {accessType : VirtualMemoryAccessType}
      {result : VirtualMemoryAccessResult} {calls : List (Nat × VirtualMemoryAccessType)} :
      virtualMemoryAccess p a accessType w = .ok result w' → result.isError = true →
      Performs p w ((a, accessType) :: calls) [result] w'

/-- Some access failed. -/
def anyFailed (results : List VirtualMemoryAccessResult) : Bool := results.any (·.isError)

/-- How many accesses did not fail. -/
def succeededCount (results : List VirtualMemoryAccessResult) : Nat :=
  results.countP fun result => !result.isError

@[simp] theorem anyFailed_nil : anyFailed [] = false := rfl

@[simp] theorem anyFailed_cons (result : VirtualMemoryAccessResult)
    (results : List VirtualMemoryAccessResult) :
    anyFailed (result :: results) = (result.isError || anyFailed results) := rfl

@[simp] theorem succeededCount_nil : succeededCount [] = 0 := rfl

@[simp] theorem succeededCount_cons (result : VirtualMemoryAccessResult)
    (results : List VirtualMemoryAccessResult) : succeededCount (result :: results) =
      succeededCount results + if result.isError then 0 else 1 := by
  rw [succeededCount, List.countP_cons]
  cases result.isError <;> rfl

/-- Only the last access can have failed. -/
theorem World.Performs.length_eq (h : w.Performs p calls results w') :
    results.length = succeededCount results + if anyFailed results then 1 else 0 := by
  induction h with
  | done => rfl
  | next _ hresult _ ih =>
    rw [List.length_cons, ih, succeededCount_cons, anyFailed_cons, hresult, Bool.false_or,
      if_neg Bool.false_ne_true]
    exact Nat.add_right_comm _ _ _
  | failed _ hresult => simp [hresult]

theorem World.Performs.append (h : w.Performs p calls results w₁)
    (hall : anyFailed results = false) (hlater : w₁.Performs p later followed w') :
    w.Performs p (calls ++ later) (results ++ followed) w' := by
  induction h with
  | done => exact hlater
  | next haccess hresult _ ih =>
    exact .next haccess hresult (ih ((Bool.or_eq_false_iff).mp hall).2 hlater)
  | failed _ hresult => simp [hresult] at hall

theorem World.Performs.stop (h : w.Performs p calls results w') (hsome : anyFailed results = true)
    (later : List (Nat × VirtualMemoryAccessType)) :
    w.Performs p (calls ++ later) results w' := by
  induction h with
  | done => cases hsome
  | next haccess hresult _ ih =>
    rw [anyFailed_cons, hresult, Bool.false_or] at hsome
    exact .next haccess hresult (ih hsome)
  | failed haccess hresult => exact .failed haccess hresult

/-- The state after an access that returned. -/
theorem World.Orderly.accessed {result : VirtualMemoryAccessResult} (h : w.Orderly)
    (hp : w.Alive p) (hrun : virtualMemoryAccess p a accessType w = .ok result w') :
    w.Concluded w' := by
  obtain ⟨result₁, w₁, hrun₁, hconcluded⟩ := virtualMemoryAccess_concluded h hp a accessType
  rw [hrun] at hrun₁
  cases hrun₁
  exact hconcluded

theorem World.Guarded.accessed {result : VirtualMemoryAccessResult} (h : w.Guarded)
    (hp : w.Alive p) (hrun : virtualMemoryAccess p a accessType w = .ok result w') :
    World.Steady w.counted w' :=
  (h.toOrderly.accessed hp hrun).resolve_right fun hscarce => hscarce.1 h.plenty

theorem World.Performs.orderly (h : w.Performs p calls results w') :
    w.Orderly → w.Alive p → w'.Orderly ∧ w'.Alive p := by
  induction h with
  | done => exact fun hw hp => ⟨hw, hp⟩
  | next haccess _ _ ih =>
    intro hw hp
    have hconcluded := hw.accessed hp haccess
    exact ih (hconcluded.orderly hw) (by rw [hconcluded.alive]; exact hp)
  | failed haccess _ =>
    intro hw hp
    have hconcluded := hw.accessed hp haccess
    exact ⟨hconcluded.orderly hw, by rw [hconcluded.alive]; exact hp⟩

/-- Every access is counted once. -/
theorem World.Performs.guarded (h : w.Performs p calls results w') :
    w.Guarded → w.Alive p → w'.Guarded ∧ w'.Alive p ∧ w'.memory.stats.totalAccesses =
      (w.memory.stats.totalAccesses + results.length) % wordSize := by
  induction h with
  | done => exact fun hw hp => ⟨hw, hp, (Nat.mod_eq_of_lt hw.counted).symm⟩
  | next haccess _ _ ih =>
    intro hw hp
    have hsteady := hw.accessed hp haccess
    obtain ⟨hguarded, halive, htotal⟩ := ih (hw.counts hsteady) (by rw [hsteady.alive]; exact hp)
    refine ⟨hguarded, halive, ?_⟩
    rw [htotal, hsteady.total]
    simp only [World.counted, increment, List.length_cons, Nat.mod_add_mod]
    congr 1
    omega
  | failed haccess _ =>
    intro hw hp
    have hsteady := hw.accessed hp haccess
    exact ⟨hw.counts hsteady, by rw [hsteady.alive]; exact hp, hsteady.total⟩

/-! ## Parts of a replay -/

def Replays (p : Nat) (calls : List (Nat × VirtualMemoryAccessType)) (finishes : Bool)
    (c : Comp Replay Unit) : Prop :=
  ∀ w k, w.Orderly → w.Alive p → k < wordSize → ∃ results w', w.Performs p calls results w' ∧
    c ⟨w, k⟩ =
      if finishes && !anyFailed results then .ok () ⟨w', (k + succeededCount results) % wordSize⟩
      else .failed ⟨w', (k + succeededCount results) % wordSize⟩

theorem Replays.done : Replays p [] true (Pure.pure ()) := by
  intro w k _ _ hk
  refine ⟨[], w, .done, ?_⟩
  rw [succeededCount_nil, Nat.add_zero, Nat.mod_eq_of_lt hk]
  rfl

theorem Replays.fail : Replays p [] false Comp.fail := by
  intro w k _ _ hk
  refine ⟨[], w, .done, ?_⟩
  rw [succeededCount_nil, Nat.add_zero, Nat.mod_eq_of_lt hk]
  rfl

theorem Replays.access (p a : Nat) (accessType : VirtualMemoryAccessType) :
    Replays p [(a, accessType)] true (traceReplayAccess p a accessType) := by
  intro w k hw hp hk
  obtain ⟨result, w', haccess, _⟩ := virtualMemoryAccess_concluded hw hp a accessType
  have hrun : onWorld (virtualMemoryAccess p a accessType) ⟨w, k⟩ = .ok result ⟨w', k⟩ :=
    zoom_ok haccess
  refine ⟨[result], w', ?_, ?_⟩
  · cases hresult : result.isError with
    | false => exact .next haccess hresult .done
    | true => exact .failed haccess hresult
  · rw [traceReplayAccess, bind_ok hrun]
    cases hresult : result.isError with
    | false =>
      rw [anyFailed_cons, succeededCount_cons, hresult]
      rfl
    | true =>
      rw [anyFailed_cons, succeededCount_cons, hresult, succeededCount_nil, if_pos rfl,
        Nat.add_zero, Nat.mod_eq_of_lt hk]
      rfl

/-- The second part starts where the first has made all its accesses. -/
theorem Replays.andThen {c d : Comp Replay Unit} (hc : Replays p calls true c)
    (hd : Replays p later finishes d) : Replays p (calls ++ later) finishes (c >>= fun _ => d) := by
  intro w k hw hp hk
  obtain ⟨results, w₁, hperforms, hrun⟩ := hc w k hw hp hk
  cases hfailed : anyFailed results with
  | true =>
    rw [hfailed] at hrun
    refine ⟨results, w₁, hperforms.stop hfailed later, ?_⟩
    rw [bind_failed hrun, hfailed, Bool.not_true, Bool.and_false]
    rfl
  | false =>
    rw [hfailed] at hrun
    obtain ⟨hw₁, hp₁⟩ := hperforms.orderly hw hp
    obtain ⟨followed, w', hlater, hrest⟩ :=
      hd w₁ ((k + succeededCount results) % wordSize) hw₁ hp₁ (Nat.mod_lt _ (by decide))
    refine ⟨results ++ followed, w', hperforms.append hfailed hlater, ?_⟩
    have hany : anyFailed (results ++ followed) = anyFailed followed := by
      rw [anyFailed, List.any_append, ← anyFailed, hfailed]
      rfl
    have hcount : (k + succeededCount results) % wordSize + succeededCount followed ≡
        k + succeededCount (results ++ followed) [MOD wordSize] := by
      rw [succeededCount, succeededCount, succeededCount, List.countP_append, ← Nat.add_assoc]
      exact (Nat.mod_modEq _ _).add_right _
    rw [bind_ok hrun, hrest, hany, hcount]

/-- A part that cannot finish is the last. -/
theorem Replays.last {c : Comp Replay Unit} (hc : Replays p calls false c)
    (f : Unit → Comp Replay Unit) : Replays p calls false (c >>= f) := by
  intro w k hw hp hk
  obtain ⟨results, w', hperforms, hrun⟩ := hc w k hw hp hk
  exact ⟨results, w', hperforms, bind_failed hrun⟩

/-! ## Entries -/

/-- The entry ends at `UINT64_MAX` or before. -/
def TraceEntry.fits (entry : TraceEntry) : Bool := decide (entry.address + entry.size ≤ wordSize)

def TraceEntry.firstPage (entry : TraceEntry) : Nat := addressPageNumber entry.address

def TraceEntry.lastPage (entry : TraceEntry) : Nat :=
  addressPageNumber (entry.address + (entry.size - 1))

/-- The accesses that an entry stands for. -/
def TraceEntry.accesses (entry : TraceEntry) : List (Nat × VirtualMemoryAccessType) :=
  (List.range' entry.firstPage (entry.lastPage + 1 - entry.firstPage)).map fun page =>
    (if page = entry.firstPage then entry.address else pageAddress page, entry.accessType)

theorem addressPageNumber_mono {a b : Nat} (h : a ≤ b) :
    addressPageNumber a ≤ addressPageNumber b := by
  simp only [addressPageNumber, Nat.shiftRight_eq_div_pow]
  exact Nat.div_le_div_right h

/-- The page loop with `count` pages to go. -/
theorem traceReplayPages_replays {lastPage : Nat} (hlast : lastPage < 2 ^ 52)
    (p address firstPage : Nat) (accessType : VirtualMemoryAccessType) (count : Nat) :
    ∀ (rounds page : Nat), count < rounds → page + count = lastPage + 1 →
      Replays p ((List.range' page count).map fun page =>
          (if page = firstPage then address else pageAddress page, accessType)) true
        (traceReplayPages p address firstPage lastPage accessType rounds page) := by
  induction count with
  | zero =>
    intro rounds page hrounds hpage
    obtain ⟨rounds, rfl⟩ := Nat.exists_eq_succ_of_ne_zero (Nat.ne_of_gt hrounds)
    rw [traceReplayPages, if_neg (by omega)]
    exact Replays.done
  | succ count ih =>
    intro rounds page hrounds hpage
    obtain ⟨rounds, rfl⟩ := Nat.exists_eq_succ_of_ne_zero (Nat.ne_zero_of_lt hrounds)
    have hword : page + 1 < 2 ^ 64 := by omega
    have hmore : ¬page = wordSize - 1 := Nat.ne_of_lt (Nat.lt_sub_of_add_lt hword)
    have hnext : increment page = page + 1 := Nat.mod_eq_of_lt hword
    rw [traceReplayPages, if_pos (by omega), if_neg hmore, hnext, List.range'_succ, List.map_cons]
    exact (Replays.access p _ accessType).andThen (ih rounds (page + 1) (by omega) (by omega))

theorem traceReplayEntry_replays (hwf : entry.Wf) (hfits : entry.fits = true) :
    Replays p entry.accesses true (traceReplayEntry p entry) := by
  obtain ⟨haddress, hsize⟩ := hwf
  have hend : entry.address + entry.size ≤ wordSize := of_decide_eq_true hfits
  have hlast : entry.lastPage < 2 ^ 52 := addressPageNumber_lt (by omega)
  have hle : entry.firstPage ≤ entry.lastPage := addressPageNumber_mono (Nat.le_add_right _ _)
  have hpages := traceReplayPages_replays hlast p entry.address entry.firstPage entry.accessType
    (entry.lastPage + 1 - entry.firstPage) (entry.lastPage - entry.firstPage + 2) entry.firstPage
    (by omega) (by omega)
  intro w k hw hp hk
  obtain ⟨results, w', hperforms, hrun⟩ := hpages w k hw hp hk
  refine ⟨results, w', hperforms, ?_⟩
  rw [← hrun, traceReplayEntry, decide_eq_false (Nat.ne_of_gt hsize),
    bind_ok (failIf_false _), decide_eq_false (by omega), bind_ok (failIf_false _)]
  rfl

/-- No access is made for an entry that does not fit. -/
theorem traceReplayEntry_refused (hwf : entry.Wf) (hfits : entry.fits = false) :
    Replays p [] false (traceReplayEntry p entry) := by
  obtain ⟨haddress, hsize⟩ := hwf
  have hend : wordSize < entry.address + entry.size := Nat.lt_of_not_le (of_decide_eq_false hfits)
  intro w k hw hp hk
  obtain ⟨results, w', hperforms, hrun⟩ := Replays.fail w k hw hp hk
  refine ⟨results, w', hperforms, ?_⟩
  rw [← hrun, traceReplayEntry, decide_eq_false (Nat.ne_of_gt hsize),
    bind_ok (failIf_false _), decide_eq_true (show entry.size - 1 > wordSize - 1 - entry.address
      by omega)]
  rfl

/-! ## Traces -/

/-- The accesses of the entries before the first that does not fit. -/
def traceAccesses (entries : List TraceEntry) : List (Nat × VirtualMemoryAccessType) :=
  (entries.takeWhile TraceEntry.fits).flatMap TraceEntry.accesses

/-- The loop of `trace_replay` makes the accesses of the entries that the
reader delivers. -/
theorem traceReplayEntries_replays {rounds : Nat} : ∀ {reader : TraceReader}, reader.Wf →
    reader.rounds ≤ rounds → ∃ entries last,
      traceReaderRun rounds reader = entries.map TraceResult.entry ++ [last] ∧
      (last = .endOfFile ∨ last = .invalid) ∧ (∀ entry ∈ entries, entry.Wf) ∧
      Replays p (traceAccesses entries) (entries.all TraceEntry.fits && decide (last = .endOfFile))
        (traceReplayEntries p rounds reader) := by
  induction rounds with
  | zero =>
    intro reader _ hrounds
    exact absurd hrounds (Nat.not_succ_le_zero _)
  | succ rounds ih =>
    intro reader hwf hrounds
    cases hnext : traceReaderNext reader with
    | mk result reader' =>
      rw [traceReaderRun, traceReplayEntries, hnext]
      cases result with
      | endOfFile =>
        exact ⟨[], .endOfFile, rfl, Or.inl rfl, fun _ he => (by cases he), Replays.done⟩
      | invalid => exact ⟨[], .invalid, rfl, Or.inr rfl, fun _ he => (by cases he), Replays.fail⟩
      | entry entry =>
        obtain ⟨hentry, hwf'⟩ := traceReaderNext_wf hwf hnext
        have hfewer := traceReaderNext_rounds hnext
        obtain ⟨entries, last, hdelivered, hlast, hall, hreplays⟩ :=
          ih hwf' (Nat.le_of_lt_succ (Nat.lt_of_lt_of_le hfewer hrounds))
        refine ⟨entry :: entries, last, ?_, hlast, List.forall_mem_cons.mpr ⟨hentry, hall⟩, ?_⟩
        · dsimp only
          rw [hdelivered]
          rfl
        · dsimp only
          rw [traceAccesses, List.takeWhile_cons, List.all_cons]
          cases hfits : entry.fits with
          | true =>
            rw [if_pos rfl, List.flatMap_cons, Bool.true_and]
            exact (traceReplayEntry_replays hentry hfits).andThen hreplays
          | false =>
            rw [if_neg Bool.false_ne_true, Bool.false_and, Bool.false_and]
            exact (traceReplayEntry_refused hentry hfits).last _

end VmSim
