/-
VmSim.Trace.ReplayRuns — a replay is a run of the virtual memory.

The program creates one process and replays a trace with it. What is true
of all runs is then true of a replay (`World.Replaying`). As the process
shares no page, no access fails as long as the swap has room for the
pages that have no frame (`World.Performs.succeeds`), and no counter wraps
around in fewer than `2 ^ 62` accesses (`World.Replaying.balanced`).
-/
import VmSim.Trace.Replay
import VmSim.Contract.DemandPaging
import VmSim.Contract.LeastSwap
import VmSim.Contract.Counters

namespace VmSim

open Lib Lib.Comp

variable {w w' : World} {n tlbEntries p a k : Nat} {type : ReplacementPolicyType}
  {slots : Option Nat} {history : List (Call × Reply)} {call : Call} {reply : Reply}
  {calls : List (Nat × VirtualMemoryAccessType)} {results : List VirtualMemoryAccessResult}
  {memory : VirtualMemory} {pid : Int}

/-! ## One process -/

/-- The process is the only one. -/
structure World.Sole (w : World) (p : Nat) : Prop where
  alive : w.Alive p
  only : ∀ q, w.Alive q → q = p

theorem World.Sole.live (h : w.Sole p) (hw : w.Orderly) : w.Live p :=
  ⟨h.alive, fun q hq _ => h.only q (hw.registry q hq)⟩

theorem World.Sole.congr (h : w.Sole p) (halive : w'.Alive = w.Alive) : w'.Sole p := by
  constructor <;> rw [halive]
  · exact h.alive
  · exact h.only

/-- A state of a replay. -/
structure World.Replaying (w : World) (n : Nat) (type : ReplacementPolicyType) (tlbEntries : Nat)
    (slots : Option Nat) (p : Nat) (history : List (Call × Reply)) : Prop where
  reachable : World.Reachable n type tlbEntries slots history w
  guarded : w.Guarded
  sole : w.Sole p
  plain : ∀ event ∈ history, event.1.Plain
  pages : ∀ key ∈ accessed history, key.1 = p

theorem Call.Plain.isFork (h : call.Plain) : call.isFork = false := by
  cases call with
  | fork p childPid => cases h
  | _ => rfl

theorem Call.Plain.refers (h : call.Plain) : call.refers = true := by
  cases call with
  | fork p childPid => cases h
  | release p => cases h
  | _ => rfl

/-- The state in which a replay starts. -/
structure World.Started (w : World) (n : Nat) (type : ReplacementPolicyType) (tlbEntries : Nat)
    (slots : Option Nat) (pid : Int) : Prop where
  replaying : w.Replaying n type tlbEntries slots 0 [(.createProcess pid, .process (some 0))]
  balanced : n < 2 ^ 32 → w.Balanced slots [(.createProcess pid, .process (some 0))]
  stats : w.memory.stats = .zero

/-- The first process of a new memory. -/
theorem World.new_spawned {plan : Nat → Bool} (hnew : World.Orderly ⟨memory, Heap.empty plan⟩)
    (hg : (Heap.empty plan).Grants 4) (hpid : 0 ≤ pid) : ∃ heap,
      processCreate pid (Heap.empty plan) = .ok 0 heap ∧
      (Heap.empty plan).Spawned pid (fun _ => none) heap ∧ World.Orderly ⟨memory, heap⟩ ∧
      World.Sole ⟨memory, heap⟩ 0 := by
  obtain ⟨_, heap, hrun, rfl, hspawned⟩ := processCreate_granted hnew.tame hpid hg
  have halive : ∀ q, World.Alive ⟨memory, heap⟩ q ↔ q = 0 := by
    intro q
    show 0 ≤ heap.pid q ↔ q = 0
    rw [hspawned.pid_eq, Function.update_apply]
    change 0 ≤ (if q = 0 then pid else -1) ↔ q = 0
    split
    · rename_i hzero
      exact iff_of_true hpid hzero
    · rename_i hne
      exact iff_of_false (by decide) hne
  exact ⟨heap, hrun, hspawned, ⟨(hnew.toSteady.spawned hspawned).1, hnew.counted⟩,
    ⟨(halive 0).mpr rfl, fun q hq => (halive q).mp hq⟩⟩

theorem World.step_create {w' : World} (h : onHeap (processCreate pid) w = .ok p w') :
    w.step (.createProcess pid) = some (.process (some p), w') := by
  rw [World.step, h]
  rfl

theorem World.boot_process (h : virtualMemoryCreateInternal n type tlbEntries slots = some memory)
    (hpid : 0 ≤ pid) : ∃ heap,
      onHeap (processCreate pid) (World.boot memory) = .ok 0 ⟨memory, heap⟩ ∧
        World.Started ⟨memory, heap⟩ n type tlbEntries slots pid := by
  have hboot := World.boot_guarded h
  obtain ⟨_, _, _, _, _, _, hstats⟩ := virtualMemoryCreateInternal_some h
  obtain ⟨heap, hrun, hspawned, horderly, hsole⟩ :=
    World.new_spawned hboot.toOrderly (hboot.plenty.grants 4) hpid
  have hguarded : World.Guarded ⟨memory, heap⟩ := ⟨horderly, (hspawned.sound hboot.sound).plenty⟩
  have hstep : (World.boot memory).step (.createProcess pid) =
      some (.process (some 0), ⟨memory, heap⟩) := World.step_create (zoom_ok hrun)
  have hcounts : (World.boot memory).Counts (.createProcess pid) := by
    refine ⟨hboot.counted, fun r hr => ?_⟩
    rw [hstep] at hr
    cases hr
    exact Nat.le_refl _
  refine ⟨heap, zoom_ok hrun, ⟨⟨⟨memory, h, .next .start trivial hstep⟩, hguarded, hsole,
    fun event hevent => ?_, fun key hkey => ?_⟩,
    fun hn => (World.boot_balanced h hn).step trivial trivial hcounts hstep, hstats⟩⟩
  · rw [List.mem_singleton.mp hevent]
    trivial
  · cases hkey

/-! ## Accesses -/

/-- The accesses that were made as calls, the last one first. -/
def replayed (p : Nat) (calls : List (Nat × VirtualMemoryAccessType))
    (results : List VirtualMemoryAccessResult) : List (Call × Reply) :=
  (List.zipWith (fun call result => (Call.access p call.1 call.2, Reply.result result))
    calls results).reverse

@[simp] theorem replayed_nil (p : Nat) (calls : List (Nat × VirtualMemoryAccessType)) :
    replayed p calls [] = [] := by
  simp [replayed]

@[simp] theorem replayed_cons (p : Nat) (call : Nat × VirtualMemoryAccessType)
    (calls : List (Nat × VirtualMemoryAccessType)) (result : VirtualMemoryAccessResult)
    (results : List VirtualMemoryAccessResult) (history : List (Call × Reply)) :
    replayed p (call :: calls) (result :: results) ++ history =
      replayed p calls results ++
        (Call.access p call.1 call.2, Reply.result result) :: history := by
  simp [replayed]

theorem World.step_access {accessType : VirtualMemoryAccessType} {result : VirtualMemoryAccessResult}
    (h : virtualMemoryAccess p a accessType w = .ok result w') :
    w.step (.access p a accessType) = some (.result result, w') := by
  rw [World.step, h]
  rfl

theorem World.Replaying.allows (h : w.Replaying n type tlbEntries slots p history)
    (ha : a < 2 ^ 48) (accessType : VirtualMemoryAccessType) :
    w.Allows (.access p a accessType) := ⟨h.sole.live h.guarded.toOrderly, ha⟩

theorem World.Replaying.access {accessType : VirtualMemoryAccessType}
    {result : VirtualMemoryAccessResult} (h : w.Replaying n type tlbEntries slots p history)
    (ha : a < 2 ^ 48) (hrun : virtualMemoryAccess p a accessType w = .ok result w') :
    w'.Replaying n type tlbEntries slots p
      ((.access p a accessType, .result result) :: history) := by
  obtain ⟨memory, hcreate, hreached⟩ := h.reachable
  have hsteady := h.guarded.accessed h.sole.alive hrun
  refine ⟨⟨memory, hcreate, .next hreached (h.allows ha accessType) (World.step_access hrun)⟩,
    h.guarded.counts hsteady, h.sole.congr hsteady.alive, ?_, ?_⟩
  · exact List.forall_mem_cons.mpr ⟨trivial, h.plain⟩
  · exact List.forall_mem_cons.mpr ⟨rfl, h.pages⟩

theorem World.Performs.replaying (h : w.Performs p calls results w') :
    ∀ {history : List (Call × Reply)}, w.Replaying n type tlbEntries slots p history →
      (∀ call ∈ calls, call.1 < 2 ^ 48) →
        w'.Replaying n type tlbEntries slots p (replayed p calls results ++ history) := by
  induction h with
  | done =>
    intro history hw _
    exact hw
  | next haccess _ _ ih =>
    intro history hw hcalls
    obtain ⟨hcall, hrest⟩ := List.forall_mem_cons.mp hcalls
    rw [replayed_cons]
    exact ih (hw.access hcall haccess) hrest
  | failed haccess _ =>
    intro history hw hcalls
    rw [replayed_cons, replayed_nil]
    exact hw.access (List.forall_mem_cons.mp hcalls).1 haccess

/-! ## No access fails -/

/-- All pages are those of the process. -/
theorem World.Replaying.touched_le (h : w.Replaying n type tlbEntries slots p history)
    {pages : Finset Nat} (hpages : ∀ key ∈ accessed history, key.2 ∈ pages) :
    (w.touched (history.map Prod.fst)).card ≤ pages.card := by
  have hsub : w.touched (history.map Prod.fst) ⊆ pages.image fun page => (w.heap.pid p, page) := by
    rintro ⟨pid, v⟩ hkey
    obtain ⟨call, hcall, q, htarget, rfl⟩ := World.mem_touched.mp hkey
    obtain ⟨event, hevent, rfl⟩ := List.mem_map.mp hcall
    have hmem : (q, v) ∈ accessed history := List.mem_filterMap.mpr ⟨event, hevent, htarget⟩
    obtain rfl : q = p := h.pages _ hmem
    exact Finset.mem_image.mpr ⟨v, hpages _ hmem, rfl⟩
  exact (Finset.card_le_card hsub).trans Finset.card_image_le

theorem accesses_eq (history : List (Call × Reply)) :
    accesses history = (accessed history).length := by
  induction history with
  | nil => rfl
  | cons event history ih =>
    rw [accesses, List.map_cons, List.sum_cons, accessed, List.filterMap_cons, ← accesses, ih,
      Call.accesses]
    cases event.1.target <;> simp [accessed, Nat.add_comm]

theorem World.Performs.succeeds (h : w.Performs p calls results w') :
    ∀ {history : List (Call × Reply)}, w.Replaying n type tlbEntries slots p history → n < 2 ^ 32 →
      (∀ call ∈ calls, call.1 < 2 ^ 48) → accesses history + calls.length < 2 ^ 64 - 1 →
      ∀ pages : Finset Nat, (∀ key ∈ accessed history, key.2 ∈ pages) →
        (∀ call ∈ calls, addressPageNumber call.1 ∈ pages) →
        (∀ count, slots = some count → 0 < count → pages.card < n + count) →
          anyFailed results = false := by
  induction h with
  | done =>
    intros
    rfl
  | next haccess hresult _ ih =>
    intro history hw hn hcalls hsteps pages hold hnew hslots
    obtain ⟨hcall, hrest⟩ := List.forall_mem_cons.mp hcalls
    obtain ⟨hpage, hpages⟩ := List.forall_mem_cons.mp hnew
    rw [anyFailed_cons, hresult, Bool.false_or]
    refine ih (hw.access hcall haccess) hn hrest ?_ pages
      (List.forall_mem_cons.mpr ⟨hpage, hold⟩) hpages hslots
    rw [accesses_eq] at hsteps ⊢
    simp only [accessed, List.filterMap_cons, Call.target, List.length_cons] at hsteps ⊢
    omega
  | failed haccess hresult =>
    intro history hw hn hcalls hsteps pages hold hnew hslots
    obtain ⟨hcall, _⟩ := List.forall_mem_cons.mp hcalls
    have hfree : ∀ event ∈ history, event.1.isFork = false :=
      fun event hevent => (hw.plain event hevent).isFork
    rw [List.length_cons] at hsteps
    have hword : wordSize = 2 ^ 64 := rfl
    have hserved := (hw.reachable.unshared hn hfree (by omega)).served (hw.allows hcall _)
      (by simp [Call.target]) (by omega) (fun count hcount hpos => by
        rw [hw.reachable.frames hn hfree]
        exact (hw.touched_le hold).trans_lt (hslots count hcount hpos)) (World.step_access haccess)
    simp [Reply.succeeded, hresult] at hserved

/-! ## No counter wraps around -/

/-- Few accesses walk over few levels. -/
theorem World.Balanced.counts (h : w.Balanced slots history) (ha : w.Allows call)
    (hfew : w.memory.stats.totalAccesses + 1 < 2 ^ 62) : w.Counts call := by
  have hword : wordSize = 2 ^ 64 := rfl
  have hone : call.accesses ≤ 1 := by
    unfold Call.accesses
    split <;> omega
  refine ⟨by omega, fun r hr => ?_⟩
  obtain ⟨answers, hs, _⟩ := h.forkFree.coherent.stepped ha (Option.mem_def.mp hr)
  obtain ⟨levels, hlevels, htranslation⟩ := hs.translations
  have hwalked := congrArg TranslationStats.pageWalkLevels htranslation
  change r.2.memory.stats.pageWalkLevels = _ at hwalked
  have hfour : pageTableLevels = 4 := rfl
  have hlookups := h.translated.lookups
  have hwalks := h.translated.walks
  have hupper := h.translated.levels.2
  rw [hfour] at hlevels hupper
  rw [hwalked, TranslationStats.after]
  cases call.target with
  | none => exact Nat.le_refl _
  | some target =>
    dsimp only [TranslationStats.looked]
    cases answers.hit with
    | some f => exact Nat.le_refl _
    | none =>
      show _ ≤ (w.memory.stats.translation.pageWalkLevels + levels) % wordSize
      rw [Nat.mod_eq_of_lt (by omega)]
      exact Nat.le_add_right _ _

theorem World.Replaying.few (h : w.Replaying n type tlbEntries slots p history)
    (hbalanced : w.Balanced slots history) (htotal : w.memory.stats.totalAccesses = accesses history)
    (ha : a < 2 ^ 48) {accessType : VirtualMemoryAccessType} {result : VirtualMemoryAccessResult}
    (hrun : virtualMemoryAccess p a accessType w = .ok result w')
    (hfew : accesses history + 1 < 2 ^ 62) :
    w'.Balanced slots ((.access p a accessType, .result result) :: history) ∧
      w'.memory.stats.totalAccesses =
        accesses ((.access p a accessType, .result result) :: history) := by
  have hallows := h.allows ha accessType
  rw [← htotal] at hfew
  refine ⟨hbalanced.step hallows trivial (hbalanced.counts hallows hfew) (World.step_access hrun),
    ?_⟩
  rw [(h.guarded.accessed h.sole.alive hrun).total]
  show increment w.memory.stats.totalAccesses = 1 + accesses history
  have hword : wordSize = 2 ^ 64 := rfl
  rw [increment_lt (by omega), htotal, Nat.add_comm]

theorem World.Performs.balanced (h : w.Performs p calls results w') :
    ∀ {history : List (Call × Reply)}, w.Replaying n type tlbEntries slots p history →
      w.Balanced slots history → w.memory.stats.totalAccesses = accesses history →
      (∀ call ∈ calls, call.1 < 2 ^ 48) → accesses history + calls.length < 2 ^ 62 →
        w'.Balanced slots (replayed p calls results ++ history) ∧
          w'.memory.stats.totalAccesses = accesses (replayed p calls results ++ history) := by
  induction h with
  | done =>
    intro history _ hbalanced htotal _ _
    exact ⟨hbalanced, htotal⟩
  | next haccess _ _ ih =>
    intro history hw hbalanced htotal hcalls hfew
    obtain ⟨hcall, hrest⟩ := List.forall_mem_cons.mp hcalls
    rw [List.length_cons] at hfew
    obtain ⟨hbalanced', htotal'⟩ := hw.few hbalanced htotal hcall haccess (by omega)
    rw [replayed_cons]
    refine ih (hw.access hcall haccess) hbalanced' htotal' hrest ?_
    show 1 + accesses history + _ < 2 ^ 62
    omega
  | failed haccess _ =>
    intro history hw hbalanced htotal hcalls hfew
    rw [List.length_cons] at hfew
    rw [replayed_cons, replayed_nil]
    exact hw.few hbalanced htotal (List.forall_mem_cons.mp hcalls).1 haccess (by omega)

/-! ## What was measured -/

/-- The pages of some accesses. -/
def accessPages (calls : List (Nat × VirtualMemoryAccessType)) : Finset Nat :=
  (calls.map fun call => addressPageNumber call.1).toFinset

theorem mem_accessPages {page : Nat} :
    page ∈ accessPages calls ↔ ∃ call ∈ calls, addressPageNumber call.1 = page := by
  simp [accessPages]

theorem World.Performs.length (h : w.Performs p calls results w')
    (hok : anyFailed results = false) : results.length = calls.length := by
  induction h with
  | done => rfl
  | next _ _ _ ih =>
    rw [List.length_cons, List.length_cons, ih (Bool.or_eq_false_iff.mp hok).2]
  | failed _ hresult => simp [hresult] at hok

theorem World.Performs.succeededCount_eq (h : w.Performs p calls results w')
    (hok : anyFailed results = false) (hfew : calls.length < 2 ^ 62) :
    succeededCount results % wordSize = calls.length := by
  have hcount := h.length_eq
  rw [hok, if_neg Bool.false_ne_true, Nat.add_zero] at hcount
  rw [← hcount, h.length hok]
  exact Nat.mod_eq_of_lt (hfew.trans (by decide))

theorem replayed_succeeded (p : Nat) (calls : List (Nat × VirtualMemoryAccessType))
    (hok : anyFailed results = false) :
    ∀ event ∈ replayed p calls results, event.2.succeeded = true := by
  induction calls generalizing results with
  | nil => simp [replayed]
  | cons call calls ih =>
    cases results with
    | nil => simp
    | cons result results =>
      obtain ⟨hresult, hrest⟩ := Bool.or_eq_false_iff.mp hok
      intro event hevent
      rw [← List.append_nil (replayed _ _ _), replayed_cons, List.mem_append,
        List.mem_singleton] at hevent
      rcases hevent with hold | rfl
      · exact ih hrest event hold
      · simp [Reply.succeeded, hresult]

theorem accessed_replayed (p : Nat) (history : List (Call × Reply))
    (hlength : results.length = calls.length) :
    accessed (replayed p calls results ++ history) =
      (calls.map fun call => (p, addressPageNumber call.1)).reverse ++ accessed history := by
  induction calls generalizing results history with
  | nil => simp [replayed]
  | cons call calls ih =>
    cases results with
    | nil => cases hlength
    | cons result results =>
      rw [replayed_cons, ih _ (Nat.succ.inj hlength)]
      simp [accessed, Call.target]

theorem accessesOf_replayed (isWrite : Bool) (history : List (Call × Reply))
    (hlength : results.length = calls.length) :
    accessesOf isWrite (replayed p calls results ++ history) =
      (calls.countP fun call => decide (call.2 = .write) == isWrite) +
        accessesOf isWrite history := by
  induction calls generalizing results history with
  | nil => simp [replayed]
  | cons call calls ih =>
    cases results with
    | nil => cases hlength
    | cons result results =>
      rw [replayed_cons, ih _ (Nat.succ.inj hlength), accessesOf_cons, List.countP_cons]
      simp only [Call.target, Call.writes, Option.isSome_some, true_and, beq_iff_eq]
      omega

/-- The counters after accesses that all succeeded. -/
structure TraceMetrics (n : Nat) (calls : List (Nat × VirtualMemoryAccessType))
    (stats : VirtualMemoryStats) : Prop where
  total : stats.totalAccesses = calls.length
  reads : stats.readAccesses = calls.countP fun call => decide (call.2 = .read)
  writes : stats.writeAccesses = calls.countP fun call => decide (call.2 = .write)
  accesses : stats.readAccesses + stats.writeAccesses = stats.totalAccesses
  lookups : stats.tlbHits + stats.tlbMisses = stats.totalAccesses
  walks : stats.pageWalks = stats.tlbMisses
  levels : stats.pageWalks ≤ stats.pageWalkLevels ∧ stats.pageWalkLevels ≤ 4 * stats.pageWalks
  faults : stats.pageFaults ≤ stats.tlbMisses
  loads : stats.pageFaults = stats.replacements + min n (accessPages calls).card
  distinct : (accessPages calls).card ≤ stats.pageFaults
  roomy : (accessPages calls).card ≤ n → stats.pageFaults = (accessPages calls).card
  evictions : stats.dirtyEvictions ≤ stats.replacements
  saved : stats.swapWrites ≤ stats.dirtyEvictions
  restored : stats.swapReads ≤ stats.swapWrites
  busy : calls ≠ [] → 0 < stats.pageFaults ∧ 0 < stats.tlbMisses

theorem accessPages_pos (hne : calls ≠ []) : 0 < (accessPages calls).card := by
  obtain ⟨call, rest, rfl⟩ := List.exists_cons_of_ne_nil hne
  exact Finset.card_pos.mpr ⟨_, mem_accessPages.mpr ⟨call, List.mem_cons_self .., rfl⟩⟩

theorem card_accessed (p : Nat) (calls : List (Nat × VirtualMemoryAccessType)) :
    (calls.map fun call => (p, addressPageNumber call.1)).reverse.toFinset.card =
      (accessPages calls).card := by
  have himage : (calls.map fun call => (p, addressPageNumber call.1)).reverse.toFinset =
      (accessPages calls).image fun page => (p, page) := by
    ext key
    simp [accessPages, eq_comm]
  rw [himage, Finset.card_image_of_injective _ fun _ _ h => (Prod.mk.inj h).2]

/-- A run of the virtual memory that makes some accesses. -/
structure World.Ran (w : World) (n : Nat) (type : ReplacementPolicyType) (tlbEntries : Nat)
    (slots : Option Nat) (calls : List (Nat × VirtualMemoryAccessType))
    (history : List (Call × Reply)) : Prop where
  reachable : World.Reachable n type tlbEntries slots history w
  refers : ∀ event ∈ history, event.1.refers = true
  succeeded : ∀ event ∈ history, event.2.succeeded = true
  accessed : accessed history = (calls.map fun call => (0, addressPageNumber call.1)).reverse
  accesses : ∀ isWrite, accessesOf isWrite history =
    calls.countP fun call => decide (call.2 = .write) == isWrite

theorem World.Performs.ran (h : w.Performs 0 calls results w')
    (hw : w.Started n type tlbEntries slots pid) (hcalls : ∀ call ∈ calls, call.1 < 2 ^ 48)
    (hok : anyFailed results = false) : w'.Ran n type tlbEntries slots calls
      (replayed 0 calls results ++ [(.createProcess pid, .process (some 0))]) := by
  have hreplaying := h.replaying hw.replaying hcalls
  refine ⟨hreplaying.reachable, fun event hevent => (hreplaying.plain event hevent).refers,
    fun event hevent => ?_, ?_, fun isWrite => ?_⟩
  · rcases List.mem_append.mp hevent with hnew | hold
    · exact replayed_succeeded 0 calls hok event hnew
    · rw [List.mem_singleton.mp hold]
      rfl
  · rw [accessed_replayed 0 _ (h.length hok)]
    exact List.append_nil _
  · exact accessesOf_replayed isWrite _ (h.length hok)

theorem World.Performs.metrics (h : w.Performs 0 calls results w')
    (hw : w.Started n type tlbEntries slots pid) (hn : n < 2 ^ 32)
    (hcalls : ∀ call ∈ calls, call.1 < 2 ^ 48) (hfew : calls.length < 2 ^ 62)
    (hok : anyFailed results = false) : TraceMetrics n calls w'.memory.stats := by
  have hran := h.ran hw hcalls hok
  have hlength := congrArg List.length hran.accessed
  rw [List.length_reverse, List.length_map] at hlength
  obtain ⟨hbalanced, htotal⟩ := h.balanced hw.replaying (hw.balanced hn)
    (by rw [hw.stats]; rfl) hcalls (by
      have hnone : accesses [(Call.createProcess pid, Reply.process (some 0))] = 0 := rfl
      omega)
  obtain ⟨hpaged, hfaults⟩ := hran.reachable.paged hn hran.refers hran.succeeded (by omega)
  obtain ⟨t, ht⟩ := hran.reachable.counted hn
  have hcard := hpaged.card_eq
  have hdistinct := hpaged.distinct_le
  have hroomy := hpaged.roomy
  rw [hran.accessed, card_accessed] at hcard hdistinct hroomy
  rw [accesses_eq, hlength] at htotal
  have hcount : ∀ isWrite, accessesOf isWrite (replayed 0 calls results ++
      [(Call.createProcess pid, Reply.process (some 0))]) < wordSize := by
    intro isWrite
    rw [hran.accesses]
    exact List.countP_le_length.trans_lt (hfew.trans (by decide))
  obtain ⟨haccesses, hlookups, hwalks, hlevels, hmisses, _, hevictions, hsaved, hunsaved⟩ :=
    hbalanced.conserved
  refine ⟨htotal, ?_, ?_, haccesses.symm, hlookups.symm, hwalks, hlevels, hmisses, by omega, hdistinct,
    fun hroom => (hroomy hroom).2, hevictions, ?_, ?_, fun hne => ?_⟩
  · rw [ht.counters]
    show t.readAccesses % wordSize = _
    rw [ht.reads, Nat.mod_eq_of_lt (hcount false), hran.accesses]
    refine List.countP_congr fun call _ => ?_
    cases call.2 <;> simp
  · rw [ht.counters]
    show t.writeAccesses % wordSize = _
    rw [ht.writes, Nat.mod_eq_of_lt (hcount true), hran.accesses]
    refine List.countP_congr fun call _ => ?_
    cases call.2 <;> simp
  · cases hswap : w'.memory.swap with
    | none => rw [(hunsaved hswap).2]; exact Nat.zero_le _
    | some swap => exact Nat.le_of_eq (hsaved swap hswap).1
  · cases hswap : w'.memory.swap with
    | none => rw [(hunsaved hswap).1]; exact Nat.zero_le _
    | some swap => exact (hsaved swap hswap).2.2
  · have hpages := accessPages_pos hne
    omega

end VmSim
