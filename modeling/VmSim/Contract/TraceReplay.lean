/-
VmSim.Contract.TraceReplay — what a replay of a trace does.

Every entry that the reader delivers is replayed by one access for each page
that it intersects. The replay ends at the first entry that runs past the
end of the address space, at the first access that fails, or where the
reader delivers nothing more. The counters are `uint64_t`.
-/
import VmSim.Trace.Replay

namespace VmSim

open Lib Lib.Comp

variable {w : World} {p n tlbEntries : Nat} {type : ReplacementPolicyType}
  {slots : Option Nat} {history : List (Call × Reply)} {entry : TraceEntry}

/-- One access for each page that the entry intersects, in ascending order:
the first at the address of the entry, the others at the start of a page. -/
structure TraceEntry.Covers (entry : TraceEntry)
    (calls : List (Nat × VirtualMemoryAccessType)) : Prop where
  ascending : (calls.map fun call => addressPageNumber call.1).Pairwise (· < ·)
  pages : ∀ page, page ∈ calls.map (fun call => addressPageNumber call.1) ↔
    ∃ byte, entry.address ≤ byte ∧ byte ≤ entry.address + entry.size - 1 ∧
      addressPageNumber byte = page
  first : calls.head?.map Prod.fst = some entry.address
  others : ∀ call ∈ calls.tail, addressOffset call.1 = 0
  accessType : ∀ call ∈ calls, call.2 = entry.accessType

theorem addressOffset_pageAddress (page : Nat) : addressOffset (pageAddress page) = 0 := by
  rw [addressOffset_eq]
  simp only [pageAddress, pageOffsetBits, pageSize, Nat.shiftLeft_eq, wordSize]
  omega

/-- A page between two others has an address between theirs. -/
theorem exists_byte {a b page : Nat} (ha : addressPageNumber a ≤ page)
    (hb : page ≤ addressPageNumber b) (hab : a ≤ b) :
    ∃ byte, a ≤ byte ∧ byte ≤ b ∧ addressPageNumber byte = page := by
  simp only [addressPageNumber, pageOffsetBits, Nat.shiftRight_eq_div_pow] at ha hb ⊢
  rcases Nat.le_total a (page * 2 ^ 12) with hle | hge
  · exact ⟨page * 2 ^ 12, hle, by omega, by omega⟩
  · exact ⟨a, Nat.le_refl a, hab, by omega⟩

theorem TraceEntry.Wf.covers (hwf : entry.Wf) (hfits : entry.fits = true) :
    entry.Covers entry.accesses := by
  obtain ⟨haddress, hsize⟩ := hwf
  have hend : entry.address + entry.size ≤ wordSize := of_decide_eq_true hfits
  have hlast : entry.lastPage < 2 ^ 52 := addressPageNumber_lt (by omega)
  have hle : entry.firstPage ≤ entry.lastPage := addressPageNumber_mono (Nat.le_add_right _ _)
  have hsmall : ∀ page ∈ List.range' entry.firstPage (entry.lastPage + 1 - entry.firstPage),
      entry.firstPage ≤ page ∧ page ≤ entry.lastPage := by
    intro page hpage
    have hbounds := List.mem_range'_1.mp hpage
    omega
  have hpages : entry.accesses.map (fun call => addressPageNumber call.1) =
      List.range' entry.firstPage (entry.lastPage + 1 - entry.firstPage) := by
    rw [TraceEntry.accesses, List.map_map, List.map_congr_left (g := id) fun page hpage => ?_,
      List.map_id]
    obtain ⟨_, hupper⟩ := hsmall page hpage
    show addressPageNumber (if page = entry.firstPage then entry.address else pageAddress page) =
      page
    split
    · rename_i e
      exact e.symm
    · exact addressPageNumber_pageAddress (by omega)
  -- there is a first page
  obtain ⟨count, hcount⟩ : ∃ count, entry.lastPage + 1 - entry.firstPage = count + 1 :=
    ⟨entry.lastPage - entry.firstPage, by omega⟩
  have hcalls : entry.accesses = (entry.address, entry.accessType) ::
      (List.range' (entry.firstPage + 1) count).map fun page =>
        (if page = entry.firstPage then entry.address else pageAddress page, entry.accessType) := by
    rw [TraceEntry.accesses, hcount, List.range'_succ, List.map_cons, if_pos rfl]
  refine ⟨?_, fun page => ?_, by rw [hcalls]; rfl, fun call hcall => ?_, fun call hcall => ?_⟩
  · rw [hpages]
    exact List.pairwise_lt_range'
  · rw [hpages, List.mem_range'_1]
    constructor
    · intro hbounds
      refine exists_byte hbounds.1 ?_ (by omega)
      rw [Nat.add_sub_assoc hsize]
      show page ≤ entry.lastPage
      omega
    · rintro ⟨byte, hlower, hupper, rfl⟩
      have hfirst : entry.firstPage ≤ addressPageNumber byte := addressPageNumber_mono hlower
      have hlast : addressPageNumber byte ≤ entry.lastPage := addressPageNumber_mono (by omega)
      omega
  · rw [hcalls, List.tail_cons] at hcall
    obtain ⟨page, hpage, rfl⟩ := List.mem_map.mp hcall
    have hbounds := List.mem_range'_1.mp hpage
    rw [if_neg (by omega)]
    exact addressOffset_pageAddress page
  · obtain ⟨page, _, rfl⟩ := List.mem_map.mp hcall
    rfl

/-- The replay of a trace from which the reader delivers `entries`, and
then `last`: what its accesses returned, and where it leaves the virtual
memory and the counter. -/
structure World.Replayed (w : World) (p : Nat) (file : List Char) (before : Nat)
    (entries : List TraceEntry) (last : TraceResult) (results : List VirtualMemoryAccessResult)
    (w' : World) (processed : Nat) : Prop where
  delivered : traceReaderRun (traceReaderOpen file).rounds (traceReaderOpen file) =
    entries.map TraceResult.entry ++ [last]
  ended : last = .endOfFile ∨ last = .invalid
  covers : ∀ entry ∈ entries, entry.fits = true → entry.Covers entry.accesses
  performs : w.Performs p (traceAccesses entries) results w'
  counted : processed = succeededCount results % wordSize
  total : w'.memory.stats.totalAccesses = (w.memory.stats.totalAccesses + processed +
    if anyFailed results then 1 else 0) % wordSize
  returns : traceReplay p (some file) ⟨w, before⟩ =
    if entries.all TraceEntry.fits ∧ anyFailed results = false ∧ last = .endOfFile then
      .ok () ⟨w', processed⟩
    else .failed ⟨w', processed⟩

/-- **A replay makes exactly the accesses of its trace**, in any state that
calls with valid pointers lead to, and it terminates. -/
theorem traceReplay_accesses (h : World.Served n type tlbEntries slots history w)
    (hp : 0 ≤ w.heap.pid p) (file : List Char) (before : Nat) :
    ∃ entries last results w' processed,
      w.Replayed p file before entries last results w' processed := by
  have hopen : (traceReaderOpen file).Wf := fun _ e => by cases e
  obtain ⟨entries, last, hdelivered, hlast, hwf, hreplays⟩ :=
    traceReplayEntries_replays hopen (Nat.le_refl _)
  obtain ⟨results, w', hperforms, hrun⟩ := hreplays w 0 h.guarded.toOrderly hp (by decide)
  rw [Nat.zero_add] at hrun
  obtain ⟨_, _, htotal⟩ := hperforms.guarded h.guarded hp
  refine ⟨entries, last, results, w', succeededCount results % wordSize, hdelivered, hlast,
    fun entry hentry hfits => (hwf entry hentry).covers hfits, hperforms, rfl, ?_, ?_⟩
  · rw [htotal, hperforms.length_eq, Nat.add_right_comm, Nat.add_mod_mod, Nat.add_right_comm,
      Nat.add_assoc]
  · have hstart : traceReplay p (some file) ⟨w, before⟩ =
        traceReplayEntries p (traceReaderOpen file).rounds (traceReaderOpen file) ⟨w, 0⟩ := rfl
    rw [hstart, hrun]
    refine if_congr ?_ rfl rfl
    simp only [Bool.and_eq_true, decide_eq_true_eq, Bool.not_eq_true', and_assoc]
    exact and_congr_right fun _ => and_comm

/-- Two pages read and then written, one page written, and an entry that runs
past the end. -/
theorem traceReplay_accesses_three : ∃ history w, World.Served 1 .clock 1 none history w ∧
    ∃ entries last results w' processed, w.Replayed 0
      "M 1fff,2\nS fffffffffffffffe,2\nR ffffffffffffffff,2\n".toList 7 entries last results w'
      processed := by
  have hafter : ((virtualMemoryCreateInternal 1 .clock 1 none).bind fun memory =>
      runChecked World.step (fun w call => w.pager.Valid call) [] (World.boot memory)
        [.createProcess 1]).any (fun r => decide (0 ≤ r.2.heap.pid 0)) = true := by
    decide +kernel
  obtain ⟨⟨history, w⟩, hafter, hcheck⟩ := (Option.any_eq_true _ _).mp hafter
  obtain ⟨memory, hcreate, hchecked⟩ := Option.bind_eq_some_iff.mp hafter
  have hserved : World.Served 1 .clock 1 none history w :=
    ⟨memory, hcreate, Run.of_runChecked _ .start hchecked⟩
  exact ⟨history, w, hserved, traceReplay_accesses hserved (of_decide_eq_true hcheck) _ 7⟩

end VmSim
