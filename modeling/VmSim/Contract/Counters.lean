/-
VmSim.Contract.Counters — what the counters say of any run.

`virtualMemory_metrics` is about runs without a fork, of accesses only,
that end before a counter does. Here the run is any: it forks, releases
processes, is refused, and goes on after a counter has come to the end of
its 64 bits. Each counter is a count modulo 2^64 (`World.Counted`), and
the counts are tied to the calls, to one another and to the slots.
-/
import VmSim.VirtualMemory.Tally
import VmSim.Contract.Metrics

namespace VmSim

open Lib

variable {w w' : World} {n tlbEntries : Nat} {type : ReplacementPolicyType} {slots : Option Nat}
  {history : List (Call × Reply)} {call : Call} {reply : Reply} {t t' : VirtualMemoryStats}

/-- How many calls of a run access a page to read (or to write) it. -/
def accessesOf (isWrite : Bool) (history : List (Call × Reply)) : Nat :=
  history.countP fun event => event.1.target.isSome && (event.1.writes == isWrite)

/-- The counts behind the counters after a run. -/
structure World.Counted (w : World) (history : List (Call × Reply)) (t : VirtualMemoryStats) :
    Prop where
  counters : w.memory.stats = t.wrapped
  reads : t.readAccesses = accessesOf false history
  writes : t.writeAccesses = accessesOf true history
  total : t.totalAccesses = t.readAccesses + t.writeAccesses
  lookups : t.totalAccesses = t.tlbHits + t.tlbMisses
  walks : t.pageWalks = t.tlbMisses
  levels : t.pageWalks ≤ t.pageWalkLevels ∧ t.pageWalkLevels ≤ 4 * t.pageWalks
  missed : t.pageFaults ≤ t.tlbMisses
  returned : faulted history ≤ t.pageFaults
  paging : w.pager.Tallied t

theorem accessesOf_cons (isWrite : Bool) (call : Call) (reply : Reply)
    (history : List (Call × Reply)) : accessesOf isWrite ((call, reply) :: history) =
      accessesOf isWrite history +
        if call.target.isSome = true ∧ call.writes = isWrite then 1 else 0 := by
  simp [accessesOf, List.countP_cons]

theorem VirtualMemoryStats.wrapped_eq {stats : VirtualMemoryStats}
    (huntranslated : stats.untranslated = t.wrapped.untranslated)
    (htranslation : stats.translation = t.wrapped.translation) : stats = t.wrapped := by
  cases stats
  simp_all [VirtualMemoryStats.untranslated, VirtualMemoryStats.translation,
    VirtualMemoryStats.wrapped]

/-- The translation counts after a lookup. -/
def VirtualMemoryStats.looked (t : VirtualMemoryStats) (hit : Option Nat) (levels : Nat) :
    VirtualMemoryStats :=
  match hit with
  | some _ => { t with tlbHits := t.tlbHits + 1 }
  | none =>
    { t with
      tlbMisses := t.tlbMisses + 1
      pageWalks := t.pageWalks + 1
      pageWalkLevels := t.pageWalkLevels + levels }

theorem VirtualMemoryStats.Served.wrapped_translation {faults : Nat}
    (h : (t.called call).Served faults t') : t'.wrapped.translation = t.wrapped.translation := by
  have hkept : (t.called call).translation = t.translation := by
    unfold VirtualMemoryStats.called
    split <;> rfl
  have hsame := h.translation.trans hkept
  simp only [VirtualMemoryStats.translation, TranslationStats.mk.injEq] at hsame
  simp [VirtualMemoryStats.translation, VirtualMemoryStats.wrapped, hsame]

theorem VirtualMemoryStats.looked_translation (t : VirtualMemoryStats) (hit : Option Nat)
    (levels : Nat) :
    t.wrapped.translation.looked hit levels = (t.looked hit levels).wrapped.translation := by
  cases hit <;> simp [TranslationStats.looked, VirtualMemoryStats.looked,
    VirtualMemoryStats.translation, VirtualMemoryStats.wrapped]

/-- The paging counts do not look at the translations. -/
theorem Pager.Tallied.looked {s : Pager} (h : s.Tallied t) (hit : Option Nat) (levels : Nat) :
    s.Tallied (t.looked hit levels) := by
  cases hit <;> exact ⟨h.stats, h.replacements, h.evictions, h.slots, h.saved, h.unsaved, h.device⟩

/-- The counts after a call translated: only an access does. -/
def VirtualMemoryStats.translated (t : VirtualMemoryStats) (call : Call) (hit : Option Nat)
    (levels : Nat) : VirtualMemoryStats :=
  match call.target with
  | some _ => t.looked hit levels
  | none => t

theorem VirtualMemoryStats.translated_translation (t : VirtualMemoryStats) (call : Call)
    (hit : Option Nat) (levels : Nat) : (t.translated call hit levels).wrapped.translation =
      t.wrapped.translation.after call hit levels := by
  unfold VirtualMemoryStats.translated TranslationStats.after
  cases call.target with
  | none => rfl
  | some key => exact (t.looked_translation hit levels).symm

theorem Pager.Tallied.translated {s : Pager} (h : s.Tallied t) (call : Call) (hit : Option Nat)
    (levels : Nat) : s.Tallied (t.translated call hit levels) := by
  unfold VirtualMemoryStats.translated
  cases call.target with
  | none => exact h
  | some key => exact h.looked hit levels

/-- The counts that do not come from translations stay. -/
theorem VirtualMemoryStats.translated_served (t : VirtualMemoryStats) (call : Call)
    (hit : Option Nat) (levels : Nat) :
    (t.translated call hit levels).readAccesses = t.readAccesses ∧
      (t.translated call hit levels).writeAccesses = t.writeAccesses ∧
      (t.translated call hit levels).pageFaults = t.pageFaults := by
  unfold VirtualMemoryStats.translated
  cases call.target <;> cases hit <;> exact ⟨rfl, rfl, rfl⟩

/-! ## Reads, writes and page faults -/

theorem VirtualMemoryStats.called_reads (t : VirtualMemoryStats) (call : Call) :
    (t.called call).readAccesses = t.readAccesses +
      if call.target.isSome = true ∧ call.writes = false then 1 else 0 := by
  unfold VirtualMemoryStats.called
  cases call.target <;> cases call.writes <;> simp [VirtualMemoryStats.accessed]

theorem VirtualMemoryStats.called_writes (t : VirtualMemoryStats) (call : Call) :
    (t.called call).writeAccesses = t.writeAccesses +
      if call.target.isSome = true ∧ call.writes = true then 1 else 0 := by
  unfold VirtualMemoryStats.called
  cases call.target <;> cases call.writes <;> simp [VirtualMemoryStats.accessed]

theorem VirtualMemoryStats.called_faults (t : VirtualMemoryStats) (call : Call) :
    (t.called call).pageFaults = t.pageFaults := by
  unfold VirtualMemoryStats.called
  split <;> rfl

/-- A reply that says page fault comes from an access without a
translation. -/
theorem World.Stepped.faulted_le {answers : TlbAnswers} (h : w.Stepped call answers reply w') :
    (if reply = .result .pageFault then 1 else 0) ≤ w.pager.faults answers call := by
  split
  · rename_i hreply
    have hpager := congrArg Prod.fst h.pager
    rw [hreply] at hpager
    cases call with
    | access p a t =>
      have hresult : (w.pager.access answers p (addressPageNumber a) (decide (t = .write))).1 =
          .pageFault := by
        simpa [Pager.step] using hpager
      have hmissed := w.pager.access_faulted answers p _ _ hresult
      show 1 ≤ if answers.hit = none ∧ w.pager.mapped p (addressPageNumber a) = none then 1 else 0
      rw [if_pos hmissed]
    | _ => simp [Pager.step] at hpager
  · exact Nat.zero_le _

/-! ## Calls -/

/-- What holds between the counts themselves. -/
structure VirtualMemoryStats.Balances (t : VirtualMemoryStats) : Prop where
  total : t.totalAccesses = t.readAccesses + t.writeAccesses
  lookups : t.totalAccesses = t.tlbHits + t.tlbMisses
  walks : t.pageWalks = t.tlbMisses
  levels : t.pageWalks ≤ t.pageWalkLevels ∧ t.pageWalkLevels ≤ 4 * t.pageWalks
  missed : t.pageFaults ≤ t.tlbMisses

theorem World.Counted.balances (h : w.Counted history t) : t.Balances :=
  ⟨h.total, h.lookups, h.walks, h.levels, h.missed⟩

theorem VirtualMemoryStats.Balances.accessed (h : t.Balances) {faults : Nat} {isWrite : Bool}
    (hserved : (t.accessed isWrite).Served faults t') {hit : Option Nat}
    (hfaults : faults ≤ if hit = none then 1 else 0) {levels : Nat} (hone : 1 ≤ levels)
    (hfour : levels ≤ 4) : (t'.looked hit levels).Balances := by
  obtain ⟨htotal, hlookups, hwalks, hlevels, hmissed⟩ := h
  obtain ⟨htotal', hreads', hwrites', hfaults', htranslation⟩ := hserved
  obtain ⟨hhits, hmisses, hwalked, hlevelled⟩ : t'.tlbHits = t.tlbHits ∧
      t'.tlbMisses = t.tlbMisses ∧ t'.pageWalks = t.pageWalks ∧
      t'.pageWalkLevels = t.pageWalkLevels := by
    simpa [VirtualMemoryStats.translation, VirtualMemoryStats.accessed] using htranslation
  have hsum : t'.totalAccesses = t'.readAccesses + t'.writeAccesses := by
    rw [htotal', hreads', hwrites']
    cases isWrite <;> simp only [VirtualMemoryStats.accessed, if_true, if_false,
      Bool.false_eq_true] <;> omega
  change t'.totalAccesses = t.totalAccesses + 1 at htotal'
  change t'.pageFaults = t.pageFaults + faults at hfaults'
  cases hit with
  | some f =>
    rw [if_neg (by simp)] at hfaults
    constructor <;> dsimp only [VirtualMemoryStats.looked] <;> omega
  | none =>
    rw [if_pos rfl] at hfaults
    constructor <;> dsimp only [VirtualMemoryStats.looked] <;> omega

theorem VirtualMemoryStats.Balances.step (h : t.Balances) {s : Pager} {answers : TlbAnswers}
    (hserved : (t.called call).Served (s.faults answers call) t') {levels : Nat}
    (hone : 1 ≤ levels) (hfour : levels ≤ 4) :
    (t'.translated call answers.hit levels).Balances := by
  unfold VirtualMemoryStats.called Pager.faults at hserved
  unfold VirtualMemoryStats.translated
  cases htarget : call.target with
  | none =>
    rw [htarget, if_pos rfl] at hserved
    obtain ⟨htotal, hlookups, hwalks, hlevels, hmissed⟩ := h
    obtain ⟨htotal', hreads', hwrites', hfaults', htranslation⟩ := hserved
    simp only [VirtualMemoryStats.translation, TranslationStats.mk.injEq] at htranslation
    dsimp only at hfaults'
    constructor <;> dsimp only <;> omega
  | some key =>
    rw [htarget, if_neg (by simp)] at hserved
    refine h.accessed hserved ?_ hone hfour
    dsimp only
    split
    · rename_i hmissed
      rw [if_pos hmissed.1]
    · exact Nat.zero_le _

/-- One call. -/
theorem World.Counted.step (h : w.Counted history t) (hc : w.Coherent (· < 2 ^ 36))
    (ha : w.Allows call) (hrun : w.step call = some (reply, w')) :
    ∃ t', w'.Counted ((call, reply) :: history) t' := by
  obtain ⟨answers, hs, _⟩ := hc.stepped ha hrun
  obtain ⟨levels, ⟨hone, hfour⟩, htranslation⟩ := hs.translations
  obtain ⟨t', h', hserved⟩ := h.paging.step hc.wf.consistent ha.pager answers
  have hend : (w.pager.step answers call).2 = w'.pager := congrArg Prod.snd hs.pager
  rw [hend] at h'
  have hpaging := h'.translated call answers.hit levels
  have hcounters : w'.memory.stats = (t'.translated call answers.hit levels).wrapped := by
    refine VirtualMemoryStats.wrapped_eq hpaging.stats ?_
    have hkept : t'.wrapped.translation = w.memory.stats.translation := by
      rw [h.counters]
      exact hserved.wrapped_translation
    rw [htranslation, VirtualMemoryStats.translated_translation, hkept]
  obtain ⟨hreads, hwrites, hfaults⟩ := t'.translated_served call answers.hit levels
  have hfaulted := hs.faulted_le
  have hreturned := h.returned
  have hbalances := h.balances.step hserved hone hfour
  refine ⟨_, hcounters, ?_, ?_, hbalances.total, hbalances.lookups, hbalances.walks,
    hbalances.levels, hbalances.missed, ?_, hpaging⟩
  · rw [hreads, hserved.reads, VirtualMemoryStats.called_reads, h.reads, accessesOf_cons]
  · rw [hwrites, hserved.writes, VirtualMemoryStats.called_writes, h.writes, accessesOf_cons]
  · rw [hfaults, hserved.faults, VirtualMemoryStats.called_faults, faulted_cons]
    omega

theorem World.boot_counted {memory : VirtualMemory}
    (h : virtualMemoryCreateInternal n type tlbEntries slots = some memory) :
    (World.boot memory).Counted [] .zero := by
  obtain ⟨_, _, _, _, hswap, _, hstats⟩ := virtualMemoryCreateInternal_some h
  have hzero : (World.boot memory).memory.stats = .zero := hstats
  have hpager : (World.boot memory).pager.stats = .zero := by
    rw [show (World.boot memory).pager.stats = memory.stats.untranslated from rfl, hstats]
    rfl
  have hempty : ∀ swap, memory.swap = some swap →
      swap.usedSlotCount = 0 ∧ swap.reads = 0 ∧ swap.writes = 0 := by
    intro swap hsome
    obtain ⟨count, _, _, hcreate⟩ := hswap swap hsome
    unfold swapCreate at hcreate
    split at hcreate
    · cases hcreate
    · obtain ⟨file, _, rfl⟩ := Option.map_eq_some_iff.mp hcreate
      exact ⟨rfl, rfl, rfl⟩
  refine ⟨hzero, rfl, rfl, rfl, rfl, rfl, ⟨Nat.le_refl 0, Nat.le_refl 0⟩, Nat.le_refl 0,
    Nat.le_refl 0, hpager, Nat.le_refl 0, Nat.le_refl 0, ?_, fun _ => Nat.le_refl 0,
    fun _ => rfl, fun swap hsome => (hempty swap hsome).2⟩
  cases hsome : memory.swap with
  | none => simp [Pager.used, World.pager, World.boot, hsome, VirtualMemoryStats.zero]
  | some swap =>
    simp [Pager.used, World.pager, World.boot, hsome, VirtualMemoryStats.zero,
      (hempty swap hsome).1]

theorem World.Reachable.counted (h : World.Reachable n type tlbEntries slots history w)
    (hn : n < 2 ^ 32) : ∃ t, w.Counted history t := by
  have hcoherent : ∀ {history : List (Call × Reply)} {w : World},
      World.Reachable n type tlbEntries slots history w → w.Coherent (· < 2 ^ 36) :=
    fun h => h.coherent hn
  obtain ⟨memory, hcreate, hrun⟩ := h
  induction hrun with
  | start => exact ⟨_, World.boot_counted hcreate⟩
  | next hrun ha hs ih =>
    obtain ⟨t, ht⟩ := ih
    exact ht.step (hcoherent ⟨memory, hcreate, hrun⟩) ha hs

end VmSim
