/-
VmSim.VirtualMemory.Tally — the counters count modulo 2^64.

Each counter is what 64 bits keep of a count that never stops. The counts
(`t` throughout, a `VirtualMemoryStats` whose fields are not cut off) are
what the calls change, and what the counters say of one another holds of
the counts in every run, forks and failed accesses included.
-/
import VmSim.VirtualMemory.Metrics

namespace VmSim

open Lib

variable {s s' : Pager} {t t' : VirtualMemoryStats} {p page f g : Nat} {isWrite : Bool}
  {answers : TlbAnswers} {data : PageData}

/-! ## Counts -/

/-- What the 64 bits of each counter keep. -/
def VirtualMemoryStats.wrapped (t : VirtualMemoryStats) : VirtualMemoryStats where
  totalAccesses := t.totalAccesses % wordSize
  readAccesses := t.readAccesses % wordSize
  writeAccesses := t.writeAccesses % wordSize
  pageFaults := t.pageFaults % wordSize
  replacements := t.replacements % wordSize
  dirtyEvictions := t.dirtyEvictions % wordSize
  tlbHits := t.tlbHits % wordSize
  tlbMisses := t.tlbMisses % wordSize
  pageWalks := t.pageWalks % wordSize
  pageWalkLevels := t.pageWalkLevels % wordSize
  swapReads := t.swapReads % wordSize
  swapWrites := t.swapWrites % wordSize

@[simp] theorem increment_mod (count : Nat) :
    increment (count % wordSize) = (count + 1) % wordSize := by
  simp [increment]

/-- The counts behind the counters of a pager: the evictions are
replacements, the replacements page faults, and the slots in use are among
the pages written to swap and not read back. -/
structure Pager.Tallied (s : Pager) (t : VirtualMemoryStats) : Prop where
  stats : s.stats = t.wrapped.untranslated
  replacements : t.replacements ≤ t.pageFaults
  evictions : t.dirtyEvictions ≤ t.replacements
  slots : s.used + t.swapReads ≤ t.swapWrites
  saved : s.swap ≠ none → t.dirtyEvictions ≤ t.swapWrites
  unsaved : s.swap = none → t.swapWrites = 0
  device : ∀ swap, s.swap = some swap →
    swap.reads = t.swapReads % wordSize ∧ swap.writes = t.swapWrites % wordSize

/-- Pages went to swap or came back, and nothing else was counted. -/
structure VirtualMemoryStats.Swapped (t t' : VirtualMemoryStats) : Prop where
  reads : t.swapReads ≤ t'.swapReads
  writes : t.swapWrites ≤ t'.swapWrites
  rest : t' = { t with swapReads := t'.swapReads, swapWrites := t'.swapWrites }

theorem VirtualMemoryStats.Swapped.refl (t : VirtualMemoryStats) : t.Swapped t :=
  ⟨Nat.le_refl _, Nat.le_refl _, rfl⟩

theorem VirtualMemoryStats.Swapped.trans {t'' : VirtualMemoryStats} (h : t.Swapped t')
    (h' : t'.Swapped t'') : t.Swapped t'' := by
  refine ⟨h.reads.trans h'.reads, h.writes.trans h'.writes, ?_⟩
  rw [h'.rest, h.rest]

theorem Pager.Tallied.congr (h : s.Tallied t) (hstats : s'.stats = s.stats)
    (hswap : s'.swap = s.swap) : s'.Tallied t := by
  obtain ⟨hused, _⟩ := Pager.used_congr hswap
  constructor
  · rw [hstats]
    exact h.stats
  · exact h.replacements
  · exact h.evictions
  · rw [hused]
    exact h.slots
  · rw [hswap]
    exact h.saved
  · rw [hswap]
    exact h.unsaved
  · rw [hswap]
    exact h.device

/-! ## Swap -/

theorem swapWritePage_counters {swap : Swap} {pid : Int}
    (h : (swapWritePage swap pid page data).1 = 0) :
    (swapWritePage swap pid page data).2.reads = swap.reads ∧
      (swapWritePage swap pid page data).2.writes = (swap.writes + 1) % wordSize := by
  revert h
  unfold swapWritePage
  dsimp only
  repeat' split
  all_goals simp

theorem swapRemovePage_counters (swap : Swap) (pid : Int) (page : Nat) :
    (swapRemovePage swap pid page).2.reads = swap.reads ∧
      (swapRemovePage swap pid page).2.writes = swap.writes := by
  unfold swapRemovePage
  repeat' split
  all_goals simp

theorem swapRemoveProcess_counters (swap : Swap) (pid : Int) :
    (swapRemoveProcess swap pid).2.reads = swap.reads ∧
      (swapRemoveProcess swap pid).2.writes = swap.writes ∧
      (swapRemoveProcess swap pid).2.usedSlotCount ≤ swap.usedSlotCount := by
  unfold swapRemoveProcess
  split <;> simp

/-- A page written to swap takes at most one more slot. -/
theorem Pager.Tallied.store (h : s.Tallied t) {pid : Int} (hs : s.store pid page data = some s') :
    s'.Tallied { t with swapWrites := t.swapWrites + 1 } := by
  have hused : s'.used ≤ s.used + 1 := by
    rw [(Pager.store_used hs).2]
    split <;> omega
  have hslots := h.slots
  obtain ⟨swap, hswap, hcode, rfl⟩ := Pager.store_eq hs
  have hsome : s.swap ≠ none := by simp [hswap]
  have hsaved := h.saved hsome
  obtain ⟨hreads, hwrites⟩ := h.device swap hswap
  refine ⟨?_, h.replacements, h.evictions, ?_, fun _ => ?_, fun hnone => ?_, fun swap' hs' => ?_⟩
  · simp [h.stats, VirtualMemoryStats.wrapped, VirtualMemoryStats.untranslated]
  · exact (Nat.add_le_add_right hused _).trans (by dsimp only; omega)
  · dsimp only
    omega
  · simp at hnone
  · cases hs'
    obtain ⟨hreads', hwrites'⟩ := swapWritePage_counters hcode
    rw [hreads', hwrites', hreads, hwrites]
    simp

theorem VirtualMemoryStats.Swapped.written (t : VirtualMemoryStats) :
    t.Swapped { t with swapWrites := t.swapWrites + 1 } :=
  ⟨Nat.le_refl _, Nat.le_succ _, rfl⟩

/-- A dirty victim is written to swap if there is one. -/
theorem Pager.Tallied.saveVictim (h : s.Tallied t) (hs : s.saveVictim f = some s') :
    ∃ t', s'.Tallied t' ∧ t.Swapped t' ∧
      ((s.physical.frames f).dirty = true → s.swap ≠ none → t.swapWrites < t'.swapWrites) := by
  rcases Pager.saveVictim_cases hs with ⟨hskip, rfl⟩ | ⟨_, hstore⟩
  · exact ⟨t, h, .refl t, fun hdirty hsome => absurd ⟨hdirty, hsome⟩ hskip⟩
  · exact ⟨_, h.store hstore, .written t, fun _ _ => Nat.lt_succ_self _⟩

theorem Pager.Tallied.saveReaders (writer : CowMapping) (data : PageData)
    (readers : List CowMapping) : ∀ {s : Pager} {t : VirtualMemoryStats}, s.Tallied t →
      ∃ t', (Pager.saveReaders writer data readers s).2.Tallied t' ∧ t.Swapped t' := by
  induction readers with
  | nil => exact fun h => ⟨_, h, .refl _⟩
  | cons reader readers ih =>
    intro s t h
    unfold Pager.saveReaders
    split
    · exact ih h
    · split
      · exact ⟨t, h, .refl t⟩
      · rename_i s₁ hs
        obtain ⟨t', h', hswapped⟩ := ih (h.store hs)
        exact ⟨t', h', (VirtualMemoryStats.Swapped.written t).trans hswapped⟩

/-- A page read back gives up its slot. -/
theorem Pager.Tallied.load (h : s.Tallied t) (hc : s.Consistent) (p page f : Nat)
    (isWrite : Bool) : ∃ t', (s.load p page f isWrite).Tallied t' ∧ t.Swapped t' := by
  have hused := s.load_used p page f isWrite
  cases hslot : s.slot (s.pid p) page with
  | none =>
    have hrestore : (s.place p page f).restore p page f = s.place p page f :=
      Pager.restore_none (s := s.place p page f)
        (fun swap hswap => by rw [← Pager.slot_some hswap]; exact hslot) f
    refine ⟨t, h.congr ?_ ?_, .refl t⟩
    · rw [Pager.load, hrestore]
      rfl
    · rw [Pager.load, hrestore]
      rfl
  | some data =>
    have hne : s.slot (s.pid p) page ≠ none := by simp [hslot]
    have hpos := hc.used_pos hne
    have hslots := h.slots
    rw [if_neg hne] at hused
    obtain ⟨swap, hswap, hcontent⟩ := Option.bind_eq_some_iff.mp hslot
    obtain ⟨hreads, hwrites⟩ := h.device swap hswap
    have hload : (s.load p page f isWrite).stats =
          { s.stats with swapReads := increment s.stats.swapReads } ∧
        (s.load p page f isWrite).swap = some (swapRemovePage
          { swap with reads := (swap.reads + 1) % wordSize } (s.pid p) page).2 := by
      rw [Pager.load, Pager.restore_some (s := s.place p page f) hswap hcontent]
      exact ⟨rfl, rfl⟩
    obtain ⟨hstats, hend⟩ := hload
    refine ⟨{ t with swapReads := t.swapReads + 1 }, ⟨?_, h.replacements, h.evictions, ?_,
      fun _ => h.saved (by simp [hswap]), fun hnone => ?_, fun swap' hs' => ?_⟩,
      Nat.le_succ _, Nat.le_refl _, rfl⟩
    · rw [hstats]
      simp [h.stats, VirtualMemoryStats.wrapped, VirtualMemoryStats.untranslated]
    · rw [hused]
      dsimp only
      omega
    · simp [hend] at hnone
    · rw [hend] at hs'
      cases hs'
      obtain ⟨hreads', hwrites'⟩ := swapRemovePage_counters
        { swap with reads := (swap.reads + 1) % wordSize } (s.pid p) page
      rw [hreads', hwrites']
      simp [hreads, hwrites]

/-! ## Page faults -/

/-- How a replacement ends: no victim, a victim refused, or the page in
the victim's frame. -/
theorem Pager.Consistent.replace_cases (h : s.Consistent) (hm : s.mapped p page = none)
    (isWrite recorded : Bool) :
    (∃ policy, (s.replace p page isWrite recorded).2 = { s with policy := policy }) ∨
      ∃ f policy saved, s.Evicts p page f policy saved ∧
        ((s.replace p page isWrite recorded).2 = (saved.evict f).load p page f isWrite ∨
          (s.replace p page isWrite recorded).2 = (((saved.evict f).load p page f
            isWrite).countReplacement (s.physical.frames f).dirty).tick) := by
  obtain ⟨f, policy, hchoose, hvictim, hchosen⟩ := h.chooseVictim
  simp only [Pager.replace, hchoose]
  split
  · exact Or.inl ⟨policy, rfl⟩
  · rename_i hcond
    have hvalid : f ≠ replacementInvalidFrame := fun e => hcond (Or.inl e)
    have hocc : (s.physical.frames f).occupied = true := hvictim.resolve_left hvalid
    have hlen : (s.cow.frames f).length ≤ 1 := Nat.le_of_not_lt fun hlt => hcond (Or.inr hlt)
    split
    · exact Or.inl ⟨policy, rfl⟩
    · rename_i saved hsaved
      have hconsistent := hchosen.saveVictim hocc hsaved
      refine Or.inr ⟨f, policy, saved, ?_, ?_⟩
      · obtain ⟨swap, stats, rfl⟩ := Pager.saveVictim_eq hsaved
        obtain ⟨hevicted, hprocesses, hnone, hfree, hcount⟩ := hconsistent.evicted hocc hlen hm
        exact ⟨hchoose, hvalid, hchosen, hocc, hlen, hsaved, hconsistent, hevicted, hprocesses,
          hnone, hfree, by rw [hcount]; exact h.frame_lt hocc⟩
      · cases recorded with
        | true => exact Or.inr rfl
        | false => exact Or.inl rfl

/-- What an access counts once it is counted itself: at most a page fault
(`faults`), a replacement and pages that went to swap or came back. -/
structure VirtualMemoryStats.Served (t : VirtualMemoryStats) (faults : Nat)
    (t' : VirtualMemoryStats) : Prop where
  total : t'.totalAccesses = t.totalAccesses
  reads : t'.readAccesses = t.readAccesses
  writes : t'.writeAccesses = t.writeAccesses
  faults : t'.pageFaults = t.pageFaults + faults
  translation : t'.translation = t.translation

theorem VirtualMemoryStats.Swapped.served (h : t.Swapped t') : t.Served 0 t' := by
  rw [h.rest]
  exact ⟨rfl, rfl, rfl, rfl, rfl⟩

theorem VirtualMemoryStats.Served.trans {t'' : VirtualMemoryStats} {m n : Nat}
    (h : t.Served m t') (h' : t'.Served n t'') : t.Served (m + n) t'' := by
  refine ⟨h'.total.trans h.total, h'.reads.trans h.reads, h'.writes.trans h.writes, ?_,
    h'.translation.trans h.translation⟩
  rw [h'.faults, h.faults, Nat.add_assoc]

/-- A replacement is counted. -/
theorem Pager.Tallied.countReplacement (h : s.Tallied t) (hroom : t.replacements < t.pageFaults)
    (dirty : Bool) (hsaved : dirty = true → s.swap ≠ none → t.dirtyEvictions < t.swapWrites) :
    ∃ t', (s.countReplacement dirty).tick.Tallied t' ∧ t.Served 0 t' := by
  refine ⟨{ t with
    replacements := t.replacements + 1
    dirtyEvictions := if dirty then t.dirtyEvictions + 1 else t.dirtyEvictions },
    ⟨?_, hroom, ?_, h.slots, fun hswap => ?_, h.unsaved, h.device⟩, ⟨rfl, rfl, rfl, rfl, rfl⟩⟩
  · show { s.stats with
      replacements := increment s.stats.replacements
      dirtyEvictions := if dirty then increment s.stats.dirtyEvictions
        else s.stats.dirtyEvictions } = _
    rw [h.stats]
    cases dirty <;> simp [VirtualMemoryStats.wrapped, VirtualMemoryStats.untranslated]
  · have hevictions := h.evictions
    dsimp only
    split <;> omega
  · have hkept := h.saved hswap
    cases dirty with
    | true => exact hsaved rfl hswap
    | false => exact hkept

/-- A replacement, which the page fault before it makes room for. -/
theorem Pager.Tallied.replace (h : s.Tallied t) (hc : s.Consistent)
    (hm : s.mapped p page = none) (hroom : t.replacements < t.pageFaults)
    (isWrite recorded : Bool) :
    ∃ t', (s.replace p page isWrite recorded).2.Tallied t' ∧ t.Served 0 t' := by
  rcases hc.replace_cases hm isWrite recorded with ⟨policy, hend⟩ | ⟨f, policy, saved, hv, hend⟩
  · rw [hend]
    exact ⟨t, h.congr rfl rfl, (VirtualMemoryStats.Swapped.refl t).served⟩
  have hchosen : Pager.Tallied { s with policy := policy } t := h.congr rfl rfl
  obtain ⟨t₁, h₁, hswapped₁, hdirtied⟩ := hchosen.saveVictim hv.victim
  have hevicted : (saved.evict f).Tallied t₁ := h₁.congr rfl rfl
  obtain ⟨t₂, h₂, hswapped₂⟩ := hevicted.load hv.evicted p page f isWrite
  have hswapped := hswapped₁.trans hswapped₂
  rcases hend with hend | hend
  · rw [hend]
    exact ⟨t₂, h₂, hswapped.served⟩
  have hbounds : t₂.replacements = t.replacements ∧ t₂.dirtyEvictions = t.dirtyEvictions := by
    rw [hswapped.rest]
    exact ⟨rfl, rfl⟩
  obtain ⟨hreplaced, hdirty⟩ := hbounds
  have hfaults := hswapped.served.faults
  have hsome : ((saved.evict f).load p page f isWrite).swap ≠ none ↔ s.swap ≠ none := by
    rw [← Option.isSome_iff_ne_none, ← Option.isSome_iff_ne_none, Pager.load_swap,
      show (saved.evict f).swap = saved.swap from rfl, Pager.saveVictim_swap hv.victim]
  obtain ⟨t₃, h₃, hserved⟩ := h₂.countReplacement (by omega)
    (s.physical.frames f).dirty fun hdirtyFrame hswap => by
      -- the dirty victim went to swap
      have hkept := h.saved (hsome.mp hswap)
      have hwritten := hdirtied hdirtyFrame (hsome.mp hswap)
      have hlater := hswapped₂.writes
      omega
  rw [hend]
  exact ⟨t₃, h₃, hswapped.served.trans hserved⟩

/-- A page fault is counted once, whether it can be served or not. -/
theorem Pager.Tallied.fault (h : s.Tallied t) (hc : s.Consistent) (hm : s.mapped p page = none)
    (isWrite recorded : Bool) :
    ∃ t', (s.fault p page isWrite recorded).2.Tallied t' ∧ t.Served 1 t' := by
  have hreplacements := h.replacements
  have hcounted : s.countFault.Consistent := hc.setStats _
  have h₁ : s.countFault.Tallied { t with pageFaults := t.pageFaults + 1 } := by
    refine ⟨?_, hreplacements.trans (Nat.le_succ _), h.evictions, h.slots, h.saved, h.unsaved,
      h.device⟩
    simp [Pager.countFault, h.stats, VirtualMemoryStats.wrapped, VirtualMemoryStats.untranslated]
  have hend : ∃ t', (s.fault p page isWrite recorded).2.Tallied t' ∧
      VirtualMemoryStats.Served { t with pageFaults := t.pageFaults + 1 } 0 t' := by
    unfold Pager.fault
    split
    · rename_i f _
      obtain ⟨t', h', hswapped⟩ := h₁.load hcounted p page f isWrite
      refine ⟨t', ?_, hswapped.served⟩
      dsimp only
      split
      · exact h'.congr rfl rfl
      · exact h'
    · exact h₁.replace hcounted hm (Nat.lt_succ_of_le hreplacements) isWrite recorded
  have hone : t.Served 1 { t with pageFaults := t.pageFaults + 1 } := ⟨rfl, rfl, rfl, rfl, rfl⟩
  obtain ⟨t', h', hserved⟩ := hend
  exact ⟨t', h', hone.trans hserved⟩

/-! ## Accesses -/

/-- Copy-on-write sends the other users of a page to swap, or nothing. -/
theorem Pager.Tallied.resident (h : s.Tallied t) (p page f : Nat)
    (isWrite moved recorded : Bool) :
    ∃ t', (s.resident p page f isWrite moved recorded).2.Tallied t' ∧ t.Swapped t' := by
  refine Pager.resident_rule recorded (P := fun s' => ∃ t', s'.Tallied t' ∧ t.Swapped t')
    (fun _ => ⟨t, h, .refl t⟩) (fun _ => ?_) fun s' g h' => ?_
  · have hreaders := Pager.Tallied.saveReaders ⟨p, page⟩ (s.physical.data f) (s.cow.frames f) h
    refine Pager.cowWrite_rule (P := fun s' => ∃ t', s'.Tallied t' ∧ t.Swapped t') moved
      ⟨t, h, .refl t⟩ (fun g _ _ => ⟨t, h.congr ?_ ?_, .refl t⟩)
      (fun swap stats _ _ _ hs => ?_) fun swap stats _ _ hs => ?_
    · unfold Pager.detach
      split
      · split <;> rfl
      · rfl
    · unfold Pager.detach
      split
      · split <;> rfl
      · rfl
    · rw [hs] at hreaders
      exact hreaders
    · rw [hs] at hreaders
      obtain ⟨t', h', hswapped⟩ := hreaders
      exact ⟨t', h'.congr rfl rfl, hswapped⟩
  · obtain ⟨t', h', hswapped⟩ := h'
    exact ⟨t', h'.congr rfl rfl, hswapped⟩

/-- The counts after an access was counted. -/
def VirtualMemoryStats.accessed (t : VirtualMemoryStats) (isWrite : Bool) : VirtualMemoryStats :=
  { t with
    totalAccesses := t.totalAccesses + 1
    readAccesses := if isWrite then t.readAccesses else t.readAccesses + 1
    writeAccesses := if isWrite then t.writeAccesses + 1 else t.writeAccesses }

theorem Pager.Tallied.count (h : s.Tallied t) (p : Nat) (isWrite : Bool) :
    ((s.register p).count isWrite).Tallied (t.accessed isWrite) := by
  rw [Pager.register_eq]
  refine ⟨?_, h.replacements, h.evictions, h.slots, h.saved, h.unsaved, h.device⟩
  cases isWrite <;> simp [Pager.count, h.stats, VirtualMemoryStats.accessed,
    VirtualMemoryStats.wrapped, VirtualMemoryStats.untranslated]

/-- An access that neither the TLB nor the page table can translate is a
page fault; no other is. -/
theorem Pager.Tallied.access (h : s.Tallied t) (hc : s.Consistent) (hp : 0 ≤ s.pid p)
    (answers : TlbAnswers) (page : Nat) (isWrite : Bool) :
    ∃ t', (s.access answers p page isWrite).2.Tallied t' ∧ (t.accessed isWrite).Served
      (if answers.hit = none ∧ s.mapped p page = none then 1 else 0) t' := by
  have h₁ := h.count p isWrite
  have hc₁ : ((s.register p).count isWrite).Consistent := (hc.register hp).setStats _
  rcases s.access_cases answers p page isWrite with ⟨f, recorded, hfound, hend⟩ | ⟨hhit, hm, hend⟩
  · have hfault : ¬(answers.hit = none ∧ s.mapped p page = none) := by
      rintro ⟨hhit, hm⟩
      rcases hfound with hf | ⟨_, hf⟩
      · simp [hhit] at hf
      · simp [hm] at hf
    obtain ⟨t', h', hswapped⟩ := h₁.resident p page f isWrite answers.moved recorded
    rw [hend, if_neg hfault]
    exact ⟨t', h', hswapped.served⟩
  · have hm₁ : ((s.register p).count isWrite).mapped p page = none := by
      rw [Pager.register_eq]
      exact hm
    rw [hend, if_pos ⟨hhit, hm⟩]
    exact h₁.fault hc₁ hm₁ isWrite answers.recorded

/-- An access that returns a page fault found no translation. -/
theorem Pager.access_faulted (s : Pager) (answers : TlbAnswers) (p page : Nat) (isWrite : Bool)
    (hresult : (s.access answers p page isWrite).1 = .pageFault) :
    answers.hit = none ∧ s.mapped p page = none := by
  rcases s.access_cases answers p page isWrite with ⟨f, recorded, _, hend⟩ | ⟨hhit, hm, _⟩
  · rw [hend] at hresult
    unfold Pager.resident at hresult
    split at hresult
    · cases hresult
    · split at hresult <;> cases hresult
  · exact ⟨hhit, hm⟩

/-! ## Calls -/

/-- What a call counts. -/
def VirtualMemoryStats.called (t : VirtualMemoryStats) (call : Call) : VirtualMemoryStats :=
  if call.target = none then t else t.accessed call.writes

/-- One page fault for an access without a translation. -/
def Pager.faults (s : Pager) (answers : TlbAnswers) (call : Call) : Nat :=
  match call.target with
  | none => 0
  | some (p, page) => if answers.hit = none ∧ s.mapped p page = none then 1 else 0

theorem Pager.Tallied.release (h : s.Tallied t) (hc : s.Consistent) (p : Nat) :
    (s.release p).Tallied t := by
  have hr := Pager.Consistent.releaseFrames p (List.range s.physical.frameCount) s hc
  have h₁ : (s.releaseFrames p (List.range s.physical.frameCount)).Tallied t :=
    h.congr hr.stats hr.swap
  unfold Pager.release
  generalize s.releaseFrames p (List.range s.physical.frameCount) = s₁ at h₁
  have hslots := h₁.slots
  cases hswap : s₁.swap with
  | none => exact h₁.congr rfl (by simp [Pager.forget, hswap])
  | some swap =>
    have hforget : (s₁.forget p).swap = some (swapRemoveProcess swap (s₁.pid p)).2 := by
      simp [Pager.forget, hswap]
    obtain ⟨hreads, hwrites, hused⟩ := swapRemoveProcess_counters swap (s₁.pid p)
    obtain ⟨hreads₁, hwrites₁⟩ := h₁.device swap hswap
    refine ⟨h₁.stats, h₁.replacements, h₁.evictions, ?_, fun _ => h₁.saved (by simp [hswap]),
      fun hnone => ?_, fun swap' hs' => ?_⟩
    · rw [Pager.used_some hswap] at hslots
      rw [Pager.used_some hforget]
      omega
    · simp [hforget] at hnone
    · rw [hforget] at hs'
      cases hs'
      rw [hreads, hwrites]
      exact ⟨hreads₁, hwrites₁⟩

/-- A call counts an access if it makes one, and a page fault if that
access finds no translation. -/
theorem Pager.Tallied.step (h : s.Tallied t) (hc : s.Consistent) {pages : Nat → Prop}
    {call : Call} (ha : s.Allows pages call) (answers : TlbAnswers) :
    ∃ t', (s.step answers call).2.Tallied t' ∧
      (t.called call).Served (s.faults answers call) t' := by
  unfold Pager.faults VirtualMemoryStats.called
  cases htarget : call.target with
  | none =>
    rw [if_pos rfl]
    have hkept : (s.step answers call).2.Tallied t := by
      cases call with
      | createProcess pid =>
        refine h.congr ?_ ?_
        all_goals
          simp only [Pager.step, Pager.create]
          split <;> rfl
      | fork p childPid =>
        refine h.congr ?_ ?_
        all_goals
          simp only [Pager.step, Pager.fork]
          split
          · rfl
          · rw [Pager.register_eq]
            rfl
      | release p => exact h.release hc p
      | _ => cases htarget
    exact ⟨t, hkept, (VirtualMemoryStats.Swapped.refl t).served⟩
  | some key =>
    obtain ⟨p, page⟩ := key
    obtain ⟨hp, _, _⟩ := ha.target htarget
    obtain ⟨t', h', hserved⟩ := h.access hc hp answers page call.writes
    rw [if_neg (by simp)]
    refine ⟨t', ?_, hserved⟩
    exact s.step_rule (P := fun s' => s'.Tallied t') answers htarget h'
      fun s' f offset value h' => h'.congr rfl rfl

end VmSim
