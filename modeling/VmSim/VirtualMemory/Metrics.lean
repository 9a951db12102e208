/-
VmSim.VirtualMemory.Metrics — what the counters of the pager count.

`Pager.Metered` ties the counters to the frame table and the slot table.
A dirty victim that is saved takes a new slot, because a resident page
has none, and a page that is restored gives its slot up, so the slots in
use are the pages written to swap and not read back.
-/
import VmSim.VirtualMemory.ForkFreeRuns

namespace VmSim

open Lib

variable {s s' : Pager} {p page f k faulted : Nat} {isWrite : Bool} {slots : Option Nat}
  {result : VirtualMemoryAccessResult} {answers : TlbAnswers}

/-! ## Counters -/

/-- The counters when `faulted` accesses have returned a page fault. -/
structure Pager.Metered (s : Pager) (faulted : Nat) : Prop where
  accesses : s.stats.totalAccesses = s.stats.readAccesses + s.stats.writeAccesses
  faults : s.stats.pageFaults ≤ s.stats.totalAccesses
  replacements : s.stats.replacements ≤ s.stats.pageFaults
  evictions : s.stats.dirtyEvictions ≤ s.stats.replacements
  loads : faulted + s.physical.freeFrameCount = s.stats.replacements + s.physical.frameCount
  saved : s.swap ≠ none → s.stats.swapWrites = s.stats.dirtyEvictions ∧
    s.used + s.stats.swapReads = s.stats.swapWrites
  unsaved : s.swap = none → s.stats.swapReads = 0 ∧ s.stats.swapWrites = 0

theorem increment_lt {counter : Nat} (h : counter + 1 < wordSize) :
    increment counter = counter + 1 := Nat.mod_eq_of_lt h

theorem Pager.Metered.congr (h : s.Metered faulted) (hstats : s'.stats = s.stats)
    (hphysical : s'.physical = s.physical) (hswap : s'.swap = s.swap) : s'.Metered faulted := by
  obtain ⟨haccesses, hfaults, hreplacements, hevictions, hloads, hsaved, hunsaved⟩ := h
  constructor <;> rw [hstats]
  · exact haccesses
  · exact hfaults
  · exact hreplacements
  · exact hevictions
  · rw [hphysical]
    exact hloads
  · rw [hswap, (Pager.used_congr hswap).1]
    exact hsaved
  · rw [hswap]
    exact hunsaved

/-- The counters of the translations after `total` lookups. -/
structure TranslationStats.Balanced (stats : TranslationStats) (total : Nat) : Prop where
  lookups : total = stats.tlbHits + stats.tlbMisses
  walks : stats.pageWalks = stats.tlbMisses
  levels : stats.pageWalks ≤ stats.pageWalkLevels ∧
    stats.pageWalkLevels ≤ pageTableLevels * stats.pageWalks
  walked : stats.pageWalkLevels < wordSize

/-- One more lookup, unless it makes the counter of the levels wrap
around. -/
theorem TranslationStats.Balanced.looked {stats : TranslationStats} {total levels : Nat}
    (h : stats.Balanced total) (hlt : total + 1 < wordSize)
    (hlevels : 1 ≤ levels ∧ levels ≤ pageTableLevels) (hit : Option Nat)
    (hcounts : stats.pageWalkLevels ≤ (stats.looked hit levels).pageWalkLevels) :
    (stats.looked hit levels).Balanced (total + 1) ∧ (stats.looked hit levels).tlbMisses =
      if hit = none then stats.tlbMisses + 1 else stats.tlbMisses := by
  obtain ⟨hlookups, hwalks, ⟨hlower, hupper⟩, hwalked⟩ := h
  cases hit with
  | some f =>
    have hhits : increment stats.tlbHits = stats.tlbHits + 1 := increment_lt (by omega)
    refine ⟨⟨?_, hwalks, ⟨hlower, hupper⟩, hwalked⟩, rfl⟩
    show total + 1 = increment stats.tlbHits + stats.tlbMisses
    omega
  | none =>
    have hmisses : increment stats.tlbMisses = stats.tlbMisses + 1 := increment_lt (by omega)
    change stats.pageWalkLevels ≤ (stats.pageWalkLevels + levels) % wordSize at hcounts
    have hfour : pageTableLevels = 4 := rfl
    have hword : wordSize = 2 ^ 64 := rfl
    rw [hfour] at hlevels hupper
    rw [hword] at hcounts hwalked
    have hsum : (stats.pageWalkLevels + levels) % wordSize = stats.pageWalkLevels + levels := by
      rw [hword]
      omega
    refine ⟨⟨?_, ?_, ?_, Nat.mod_lt _ (by decide)⟩, hmisses⟩
    · show total + 1 = stats.tlbHits + increment stats.tlbMisses
      omega
    · exact congrArg increment hwalks
    · show increment stats.pageWalks ≤ (stats.pageWalkLevels + levels) % wordSize ∧
        (stats.pageWalkLevels + levels) % wordSize ≤ pageTableLevels * increment stats.pageWalks
      rw [hsum, hwalks, hmisses, hfour]
      omega

/-! ## Loading and saving -/

/-- A load restores the page if it has a slot. -/
theorem Pager.load_stats (s : Pager) (p page f : Nat) (isWrite : Bool) :
    (s.load p page f isWrite).stats = if s.slot (s.pid p) page = none then s.stats
      else { s.stats with swapReads := increment s.stats.swapReads } := by
  show ((s.place p page f).restore p page f).stats = _
  cases hc : s.slot (s.pid p) page with
  | none =>
    have hrestore : (s.place p page f).restore p page f = s.place p page f :=
      Pager.restore_none (s := s.place p page f)
        (fun swap hswap => by rw [← Pager.slot_some hswap]; exact hc) f
    rw [hrestore, if_pos rfl]
    rfl
  | some data =>
    obtain ⟨swap, hswap, hcontent⟩ := Option.bind_eq_some_iff.mp hc
    rw [Pager.restore_some (s := s.place p page f) hswap hcontent,
      if_neg (Option.some_ne_none data)]
    rfl

theorem Pager.load_used (s : Pager) (p page f : Nat) (isWrite : Bool) :
    (s.load p page f isWrite).used =
      if s.slot (s.pid p) page = none then s.used else s.used - 1 :=
  ((s.place p page f).restore_used p page f).2

theorem Pager.load_freeFrameCount (s : Pager) (p page f : Nat) (isWrite : Bool) :
    (s.load p page f isWrite).physical.freeFrameCount = s.physical.freeFrameCount - 1 ∧
      (s.load p page f isWrite).physical.frameCount = s.physical.frameCount := by
  obtain ⟨data, swap, stats, heq⟩ := (s.place p page f).restore_eq p page f
  rw [Pager.load, heq]
  exact ⟨rfl, rfl⟩

/-- A dirty victim is saved if there is a swap. -/
theorem Pager.saveVictim_cases (hs : s.saveVictim f = some s') :
    (¬((s.physical.frames f).dirty = true ∧ s.swap ≠ none) ∧ s' = s) ∨
      (((s.physical.frames f).dirty = true ∧ s.swap ≠ none) ∧
        s.store (s.physical.frames f).ownerPid (s.physical.frames f).virtualPage
          (s.physical.data f) = some s') := by
  unfold Pager.saveVictim at hs
  split at hs
  · rename_i hskip
    cases hs
    refine Or.inl ⟨fun ⟨hdirty, hsome⟩ => ?_, rfl⟩
    rcases hskip with hclean | hnone
    · rw [hdirty] at hclean
      cases hclean
    · exact hsome (Option.isNone_iff_eq_none.mp hnone)
  · rename_i hsave
    obtain ⟨hdirty, hsome⟩ := not_or.mp hsave
    exact Or.inr ⟨⟨by simpa using hdirty, fun e => hsome (Option.isNone_iff_eq_none.mpr e)⟩, hs⟩

/-- A victim has no slot, so saving it takes one. -/
theorem Pager.Consistent.saveVictim_used (h : s.Consistent) (he : s.Exclusive)
    (hocc : (s.physical.frames f).occupied = true) (hs : s.saveVictim f = some s') :
    if (s.physical.frames f).dirty = true ∧ s.swap ≠ none then
      s'.stats = { s.stats with swapWrites := increment s.stats.swapWrites } ∧ s'.used = s.used + 1
    else s'.stats = s.stats ∧ s'.used = s.used := by
  rcases Pager.saveVictim_cases hs with ⟨hskip, rfl⟩ | ⟨hsave, hstore⟩
  · rw [if_neg hskip]
    exact ⟨rfl, rfl⟩
  · rw [if_pos hsave]
    obtain ⟨o, _, hpid, ho⟩ := h.owner hocc
    have hnone : s.slot (s.physical.frames f).ownerPid (s.physical.frames f).virtualPage = none := by
      rw [hpid]
      exact he f _ ho
    have hused := (Pager.store_used hstore).2
    rw [if_pos hnone] at hused
    obtain ⟨swap, _, _, rfl⟩ := Pager.store_eq hstore
    exact ⟨rfl, hused⟩

/-! ## What the operations keep -/

/-- A free frame is counted. -/
theorem Pager.Consistent.free_pos (h : s.Consistent) (hf : f < s.physical.frameCount)
    (hfree : (s.physical.frames f).occupied = false) : 0 < s.physical.freeFrameCount := by
  rw [h.freeCount, Finset.card_pos]
  exact ⟨f, mem_freeFrames.mpr ⟨hf, hfree⟩⟩

/-- A load takes a free frame and ends a page fault. -/
theorem Pager.Metered.load (h : s.Metered faulted) (hc : s.Consistent)
    (hfree : 0 < s.physical.freeFrameCount) (hlt : s.stats.totalAccesses < wordSize)
    (p page f : Nat) (isWrite : Bool) : (s.load p page f isWrite).Metered (faulted + 1) := by
  have hfaults := h.faults
  have hreplacements := h.replacements
  have hevictions := h.evictions
  have hloads := h.loads
  have hused := s.load_used p page f isWrite
  have hswap : (s.load p page f isWrite).swap = none ↔ s.swap = none := by
    rw [← Option.isNone_iff_eq_none, ← Option.isNone_iff_eq_none, ← Option.not_isSome,
      ← Option.not_isSome, s.load_swap]
  obtain ⟨hcount, hframes⟩ := s.load_freeFrameCount p page f isWrite
  have hstats := s.load_stats p page f isWrite
  cases hslot : s.slot (s.pid p) page with
  | none =>
    rw [if_pos hslot] at hstats hused
    refine ⟨?_, ?_, ?_, ?_, ?_, fun hsome => ?_, fun hnone => ?_⟩
    all_goals rw [hstats]
    · exact h.accesses
    · exact hfaults
    · exact hreplacements
    · exact hevictions
    · rw [hcount, hframes]
      omega
    · rw [hused]
      exact h.saved fun e => hsome (hswap.mpr e)
    · exact h.unsaved (hswap.mp hnone)
  | some data =>
    have hne : s.slot (s.pid p) page ≠ none := by
      rw [hslot]
      exact Option.some_ne_none data
    have hpos := hc.used_pos hne
    have hsome : s.swap ≠ none := by
      intro hnone
      rw [Pager.slot, hnone] at hne
      exact hne rfl
    obtain ⟨hwrites, hreads⟩ := h.saved hsome
    rw [if_neg hne] at hstats hused
    have hincrement : increment s.stats.swapReads = s.stats.swapReads + 1 :=
      increment_lt (by omega)
    refine ⟨?_, ?_, ?_, ?_, ?_, fun _ => ?_, fun hnone => absurd (hswap.mp hnone) hsome⟩
    all_goals rw [hstats]
    · exact h.accesses
    · exact hfaults
    · exact hreplacements
    · exact hevictions
    · rw [hcount, hframes]
      dsimp only
      omega
    · rw [hused]
      dsimp only
      omega

theorem Pager.load_countReplacement (s : Pager) (p page f : Nat) (isWrite dirty : Bool) :
    (s.load p page f isWrite).countReplacement dirty =
      (s.countReplacement dirty).load p page f isWrite := by
  cases hc : s.slot (s.pid p) page with
  | none =>
    have hcontent : ∀ swap, s.swap = some swap → swap.content (s.pid p) page = none :=
      fun swap hswap => by rw [← Pager.slot_some hswap, hc]
    rw [Pager.load, Pager.load, Pager.restore_none (s := s.place p page f) hcontent,
      Pager.restore_none (s := (s.countReplacement dirty).place p page f) hcontent]
    rfl
  | some data =>
    obtain ⟨swap, hswap, hcontent⟩ := Option.bind_eq_some_iff.mp hc
    rw [Pager.load, Pager.load, Pager.restore_some (s := s.place p page f) hswap hcontent,
      Pager.restore_some (s := (s.countReplacement dirty).place p page f) hswap hcontent]
    rfl

theorem Pager.saveVictim_swap_none (hs : s.saveVictim f = some s') :
    s'.swap = none ↔ s.swap = none := by
  rw [← Option.isNone_iff_eq_none, ← Option.isNone_iff_eq_none, ← Option.not_isSome,
    ← Option.not_isSome, Pager.saveVictim_swap hs]

/-- The replacement of a victim that was saved. -/
theorem Pager.Metered.evict (h : s.Metered faulted) (hc : s.Consistent) (he : s.Exclusive)
    (hocc : (s.physical.frames f).occupied = true)
    (hroom : s.stats.replacements < s.stats.pageFaults)
    (hlt : s.stats.totalAccesses < wordSize) (hs : s.saveVictim f = some s') :
    ((s'.evict f).countReplacement (s.physical.frames f).dirty).Metered faulted := by
  have haccesses := h.accesses
  have hfaults := h.faults
  have hevictions := h.evictions
  have hloads := h.loads
  have hused := hc.saveVictim_used he hocc hs
  have hswap := Pager.saveVictim_swap_none hs
  have hreplaced : increment s.stats.replacements = s.stats.replacements + 1 :=
    increment_lt (by omega)
  have hdirtied : increment s.stats.dirtyEvictions = s.stats.dirtyEvictions + 1 :=
    increment_lt (by omega)
  have hphysical : s'.physical = s.physical := by
    obtain ⟨swap, stats, rfl⟩ := Pager.saveVictim_eq hs
    rfl
  have hwrites : s'.stats = { s.stats with swapWrites := s'.stats.swapWrites } := by
    split at hused <;> rw [hused.1]
  have hcounters : ((s'.evict f).countReplacement (s.physical.frames f).dirty).stats =
      { s'.stats with
        replacements := s.stats.replacements + 1
        dirtyEvictions := if (s.physical.frames f).dirty then s.stats.dirtyEvictions + 1
          else s.stats.dirtyEvictions } := by
    rw [← hreplaced, ← hdirtied]
    show { s'.stats with
      replacements := increment s'.stats.replacements
      dirtyEvictions := if (s.physical.frames f).dirty then increment s'.stats.dirtyEvictions
        else s'.stats.dirtyEvictions } = _
    rw [hwrites]
  have hused' : ((s'.evict f).countReplacement (s.physical.frames f).dirty).used = s'.used := rfl
  have hswap' : ((s'.evict f).countReplacement (s.physical.frames f).dirty).swap = s'.swap := rfl
  refine ⟨?_, ?_, ?_, ?_, ?_, fun hsome => ?_, fun hnone => ?_⟩
  · rw [hcounters, hwrites]
    exact haccesses
  · rw [hcounters, hwrites]
    exact hfaults
  · rw [hcounters, hwrites]
    exact hroom
  · rw [hcounters]
    dsimp only
    split <;> omega
  · rw [hcounters]
    show faulted + (s'.physical.freeFrameCount + 1) =
      s.stats.replacements + 1 + s'.physical.frameCount
    rw [hphysical]
    omega
  · have hsome' : s.swap ≠ none := fun e => hsome (hswap.mpr e)
    obtain ⟨hsaved, hreads⟩ := h.saved hsome'
    have hwritten : increment s.stats.swapWrites = s.stats.swapWrites + 1 :=
      increment_lt (by omega)
    rw [hcounters, hused']
    dsimp only
    cases hdirty : (s.physical.frames f).dirty with
    | true =>
      rw [if_pos ⟨hdirty, hsome'⟩] at hused
      rw [hused.1, hused.2, if_pos rfl, hwritten]
      refine ⟨congrArg (· + 1) hsaved, ?_⟩
      show s.used + 1 + s.stats.swapReads = s.stats.swapWrites + 1
      omega
    | false =>
      rw [if_neg fun hboth => by rw [hdirty] at hboth; cases hboth.1] at hused
      rw [hused.1, hused.2, if_neg Bool.false_ne_true]
      exact ⟨hsaved, hreads⟩
  · have hnone' : s.swap = none := hswap.mp hnone
    rw [if_neg fun hboth => hboth.2 hnone'] at hused
    rw [hcounters, hused.1]
    exact h.unsaved hnone'

/-! ## Accesses -/

/-- Each end of an access. -/
theorem Pager.Outcome.metered (hend : s.Outcome p page isWrite result s') (h : s.Metered faulted)
    (hc : s.Consistent) (hs : s.Solitary slots k)
    (hroom : s.stats.pageFaults < s.stats.totalAccesses) (hlt : s.stats.totalAccesses < wordSize) :
    s'.Metered (faulted + if result = .pageFault then 1 else 0) := by
  have hfaults : increment s.stats.pageFaults = s.stats.pageFaults + 1 :=
    increment_lt (by omega)
  have hcounted : s.countFault.Consistent := hc.setStats _
  have hstats : s.countFault.stats =
      { s.stats with pageFaults := s.stats.pageFaults + 1 } := by
    rw [← hfaults]
    rfl
  have h₁ : s.countFault.Metered faulted := by
    refine ⟨?_, ?_, ?_, ?_, ?_, ?_, ?_⟩
    all_goals rw [hstats]
    · exact h.accesses
    · exact hroom
    · exact h.replacements.trans (Nat.le_succ _)
    · exact h.evictions
    · exact h.loads
    · exact h.saved
    · exact h.unsaved
  cases hend with
  | resident hm => exact ⟨h.accesses, h.faults, h.replacements, h.evictions, h.loads, h.saved,
      h.unsaved⟩
  | placed hm hf =>
    rename_i f
    obtain ⟨hbound, hfree, _⟩ := hc.firstFree hf
    obtain ⟨haccesses, hpages, hreplacements, hevictions, hloads, hsaved, hunsaved⟩ :=
      h₁.load hcounted (hc.free_pos hbound hfree) hlt p page f isWrite
    exact ⟨haccesses, hpages, hreplacements, hevictions, hloads, hsaved, hunsaved⟩
  | replaced hm hfull hchoose hocc hsaved =>
    rename_i f policy saved
    have hchosen := hcounted.chosen hchoose
    have hexclusive : Pager.Exclusive { s.countFault with policy := policy } :=
      hs.exclusive.congr rfl rfl rfl
    have h₂ : Pager.Metered { s.countFault with policy := policy } faulted :=
      ⟨h₁.accesses, h₁.faults, h₁.replacements, h₁.evictions, h₁.loads, h₁.saved, h₁.unsaved⟩
    have hunused : s.countFault.stats.replacements < s.countFault.stats.pageFaults := by
      rw [hstats]
      exact Nat.lt_succ_of_le h.replacements
    have h₃ := h₂.evict hchosen hexclusive hocc hunused hlt hsaved
    have hc₂ := hchosen.saveVictim hocc hsaved
    have haccesses : saved.stats.totalAccesses = s.stats.totalAccesses := by
      rcases Pager.saveVictim_cases hsaved with ⟨_, rfl⟩ | ⟨_, hstore⟩
      · rfl
      · obtain ⟨_, _, _, rfl⟩ := Pager.store_eq hstore
        rfl
    have hphysical : saved.physical = s.physical ∧ saved.cow = s.cow ∧
        saved.mapped = s.mapped := by
      obtain ⟨swap, stats, rfl⟩ := Pager.saveVictim_eq hsaved
      exact ⟨rfl, rfl, rfl⟩
    have hnone : saved.mapped p page = none := by
      rw [hphysical.2.2]
      exact hm
    obtain ⟨hc₃, _, _, hfree, hcount⟩ := hc₂.evicted (by rw [hphysical.1]; exact hocc)
      (by rw [hphysical.2.1]; exact hs.unforked f) hnone
    have hbound : f < (saved.evict f).physical.frameCount := by
      rw [hcount, hphysical.1]
      exact hc.frame_lt hocc
    obtain ⟨haccesses', hpages, hreplacements, hevictions, hloads, hkept, hunsaved⟩ :=
      h₃.load (hc₃.setStats _) (hc₃.free_pos hbound hfree)
        (by rw [show ((saved.evict f).countReplacement _).stats.totalAccesses =
          saved.stats.totalAccesses from rfl, haccesses]; exact hlt) p page f isWrite
    rw [← Pager.load_countReplacement] at haccesses' hpages hreplacements hevictions hloads hkept
    rw [← Pager.load_countReplacement] at hunsaved
    exact ⟨haccesses', hpages, hreplacements, hevictions, hloads, hkept, hunsaved⟩
  | refused hm hfull hchoose hocc hsaved =>
    have hresult : (if s.faultError = .pageFault then 1 else 0) = 0 := if_neg fun e => by
      have herror := s.faultError_isError
      rw [e] at herror
      cases herror
    rw [hresult]
    exact ⟨h₁.accesses, h₁.faults, h₁.replacements, h₁.evictions, h₁.loads, h₁.saved, h₁.unsaved⟩

/-- What an access adds to two of the counters. -/
theorem Pager.Outcome.counters (hend : s.Outcome p page isWrite result s') :
    s'.stats.totalAccesses = s.stats.totalAccesses ∧ s'.stats.pageFaults =
      if s.mapped p page = none then increment s.stats.pageFaults else s.stats.pageFaults := by
  have hloaded : ∀ (s : Pager) (f : Nat),
      (s.load p page f isWrite).stats.totalAccesses = s.stats.totalAccesses ∧
        (s.load p page f isWrite).stats.pageFaults = s.stats.pageFaults := by
    intro s f
    rw [Pager.load_stats]
    split <;> exact ⟨rfl, rfl⟩
  cases hend with
  | resident hm =>
    rw [hm, if_neg (Option.some_ne_none _)]
    exact ⟨rfl, rfl⟩
  | placed hm hf =>
    rw [if_pos hm]
    exact hloaded s.countFault _
  | replaced hm hfull hchoose hocc hsaved =>
    rename_i f policy saved
    rw [if_pos hm]
    obtain ⟨haccesses, hfaults⟩ := hloaded (saved.evict f) f
    refine ⟨haccesses.trans ?_, hfaults.trans ?_⟩
    all_goals
      rcases Pager.saveVictim_cases hsaved with ⟨_, rfl⟩ | ⟨_, hstore⟩
      · rfl
      · obtain ⟨_, _, _, rfl⟩ := Pager.store_eq hstore
        rfl
  | refused hm hfull hchoose hocc hsaved =>
    rw [if_pos hm]
    exact ⟨rfl, rfl⟩

theorem Pager.Metered.count (h : s.Metered faulted) (hlt : s.stats.totalAccesses + 1 < wordSize)
    (p : Nat) (isWrite : Bool) : ((s.register p).count isWrite).Metered faulted ∧
      ((s.register p).count isWrite).stats.totalAccesses = s.stats.totalAccesses + 1 ∧
      ((s.register p).count isWrite).stats.pageFaults = s.stats.pageFaults := by
  have haccesses := h.accesses
  have htotal : increment s.stats.totalAccesses = s.stats.totalAccesses + 1 := increment_lt hlt
  have hread : increment s.stats.readAccesses = s.stats.readAccesses + 1 :=
    increment_lt (by omega)
  have hwrite : increment s.stats.writeAccesses = s.stats.writeAccesses + 1 :=
    increment_lt (by omega)
  rw [Pager.register_eq]
  refine ⟨⟨?_, ?_, h.replacements, h.evictions, h.loads, h.saved, h.unsaved⟩, htotal, rfl⟩
  · show increment s.stats.totalAccesses =
      (if isWrite then s.stats.readAccesses else increment s.stats.readAccesses) +
        if isWrite then increment s.stats.writeAccesses else s.stats.writeAccesses
    rw [htotal, hread, hwrite]
    split <;> omega
  · show s.stats.pageFaults ≤ increment s.stats.totalAccesses
    rw [htotal]
    exact h.faults.trans (Nat.le_succ _)

/-- An access whose translation the TLB takes. -/
theorem Pager.Metered.access (h : s.Metered faulted) (hc : s.Consistent) (hs : s.Solitary slots k)
    (hk : k + 1 < wordSize) (hlt : s.stats.totalAccesses + 1 < wordSize) (hp : 0 ≤ s.pid p)
    (hhit : ∀ f, answers.hit = some f → s.mapped p page = some f)
    (hrecorded : answers.recorded = true) (isWrite : Bool) :
    (s.access answers p page isWrite).2.Metered
        (faulted + if (s.access answers p page isWrite).1 = .pageFault then 1 else 0) ∧
      (s.access answers p page isWrite).2.stats.totalAccesses = s.stats.totalAccesses + 1 ∧
      (s.access answers p page isWrite).2.stats.pageFaults =
        if s.mapped p page = none then s.stats.pageFaults + 1 else s.stats.pageFaults := by
  have hend := hc.outcome hs.unforked hs.policy hk hp hhit hrecorded isWrite
  have hc₁ : ((s.register p).count isWrite).Consistent := (hc.register hp).setStats _
  obtain ⟨h₁, htotal, hfaults⟩ := h.count hlt p isWrite
  have hle := h.faults
  obtain ⟨haccesses, hpages⟩ := hend.counters
  rw [htotal] at haccesses
  rw [hfaults, increment_lt (by omega)] at hpages
  obtain ⟨processes, stats, heq⟩ := s.counted_eq p isWrite
  have hmapped : ((s.register p).count isWrite).mapped = s.mapped := by rw [heq]
  have hs₁ : ((s.register p).count isWrite).Solitary slots k := by
    rw [heq]
    exact hs.congr rfl rfl rfl hs.policy
  rw [hmapped] at hpages
  exact ⟨hend.metered h₁ hc₁ hs₁ (by omega) (by omega), haccesses, hpages⟩

end VmSim
