/-
VmSim.VirtualMemory.Faults — the page-fault paths of the code are those
of the pager.
-/
import VmSim.VirtualMemory.Correspondence
import VmSim.VirtualMemory.Preservation
import VmSim.VirtualMemory.Translations

namespace VmSim

open Lib

variable {w w' : World} {backdrop : Backdrop} {s s' : Pager} {tlb : Tlb}
  {p q page f a : Nat} {x : Process} {isWrite : Bool}

/-! ## Restoring and saving -/

theorem World.Shows.restore (hs : w.Shows backdrop s tlb) (hx : backdrop p = some x)
    (hswap : ∀ swap, s.swap = some swap → swap.Wf ∧ swap.Works)
    (hf : f < s.physical.frameCount) (hocc : (s.physical.frames f).occupied = true) (page : Nat) :
    Comp.Returns (virtualMemoryRestorePage p page f) w fun _ w' =>
      w'.Shows backdrop (s.restore p page f) tlb := by
  unfold virtualMemoryRestorePage
  refine hs.get.bind fun r w₁ hget => ?_
  obtain ⟨hs₁, rfl⟩ := hget
  rw [hs₁.swap]
  cases hsw : s.swap with
  | none =>
    rw [Pager.restore_none (by simp [hsw])]
    exact Comp.Returns.pure hs₁
  | some swap =>
    obtain ⟨hwf, hworks⟩ := hswap swap hsw
    refine (hs₁.getPid hx).bind fun pid w₂ h₂ => ?_
    obtain ⟨rfl, hs₂⟩ := h₂
    rw [swapContainsPage_iff]
    cases hc : swap.content (s.pid p) page with
    | none =>
      rw [Pager.restore_none (by simp [hsw, hc])]
      exact Comp.Returns.pure hs₂
    | some data =>
      rw [Pager.restore_some hsw hc]
      have hread := swapReadPage_spec hwf hworks hc
      obtain ⟨hcode, _⟩ := swapTakePage_spec hwf
        (by rw [hc]; exact Option.some_ne_none data) ((swap.reads + 1) % wordSize)
      refine (hs₂.swapStep hsw (swapReadPage · (s.pid p) page)).bind fun r w₃ h₃ => ?_
      obtain ⟨rfl, hs₃⟩ := h₃
      rw [hread] at hs₃ ⊢
      refine (hs₃.fill hf hocc data).bindCheck (fun _ _ h => h.1) fun _ w₄ h₄ => ?_
      refine (h₄.2.swapStep rfl (swapRemovePage · (s.pid p) page)).bindCheck
        (fun _ _ h => h.1.trans hcode) fun _ w₅ h₅ => ?_
      exact h₅.2.statsStep

/-- Storing a page succeeds where the pager stores it, and changes
nothing otherwise. -/
theorem World.Shows.store (hs : w.Shows backdrop s tlb) {swap : Swap}
    (hsw : s.swap = some swap) (pid : Int) (page : Nat) (data : PageData) :
    Comp.Ends (do
      let code ← onSwap (swapWritePage · pid page data)
      Comp.check code
      onStats fun stats => { stats with swapWrites := increment stats.swapWrites }) w
      fun r w' => match s.store pid page data with
        | some s' => r = some () ∧ w'.Shows backdrop s' tlb
        | none => r = none ∧ w'.Shows backdrop s tlb := by
  have hstore : s.store pid page data = if (swapWritePage swap pid page data).1 = 0 then
      some { s with
        swap := some (swapWritePage swap pid page data).2
        stats := { s.stats with swapWrites := increment s.stats.swapWrites } } else none := by
    simp only [Pager.store, hsw]
  rw [hstore]
  refine (hs.swapStep hsw (swapWritePage · pid page data)).bindEnds fun code w₁ h₁ => ?_
  obtain ⟨rfl, hs₁⟩ := h₁
  by_cases hcode : (swapWritePage swap pid page data).1 = 0
  · rw [if_pos hcode]
    refine Comp.Returns.bindEnds (P := fun _ w' => w' = w₁) (Comp.Returns.check hcode rfl)
      fun _ w₂ h₂ => ?_
    subst h₂
    exact Comp.Returns.ends hs₁.statsStep fun _ _ h => ⟨rfl, h⟩
  · rw [if_neg hcode]
    rw [swapWritePage_refused hcode, ← hsw] at hs₁
    refine Comp.Ends.bind (P := fun r w' => r = none ∧ w' = w₁)
      (Comp.Ends.check (fun h => absurd h hcode) fun _ => ⟨rfl, rfl⟩) (fun _ _ h => ?_)
      fun _ h => ⟨rfl, h.2 ▸ hs₁⟩
    cases h.1

theorem World.Shows.saveVictim (hs : w.Shows backdrop s tlb) (hf : f < s.physical.frameCount)
    (hocc : (s.physical.frames f).occupied = true) :
    Comp.Ends (virtualMemorySaveVictim (s.physical.frames f) f) w fun r w' =>
      match s.saveVictim f with
      | some s' => r = some () ∧ w'.Shows backdrop s' tlb
      | none => r = none ∧ w'.Shows backdrop s tlb := by
  unfold virtualMemorySaveVictim Pager.saveVictim
  refine hs.get.bindEnds fun r w₁ hget => ?_
  obtain ⟨hs₁, rfl⟩ := hget
  rw [hs₁.swap, hs₁.physical]
  split
  · exact Comp.Ends.pure ⟨rfl, hs₁⟩
  · rename_i hcond
    obtain ⟨swap, hsw⟩ : ∃ swap, s.swap = some swap := by
      rw [← Option.ne_none_iff_exists']
      intro hn
      exact hcond (Or.inr (by rw [hn]; rfl))
    have hpage : physicalMemoryReadPage s.physical f = some (s.physical.data f) := by
      rw [physicalMemoryReadPage, if_neg (by simp [hocc, hf])]
    rw [hpage]
    exact hs₁.store hsw _ _ _

/-! ## Loading into a free frame -/

/-- The TLB takes a translation. -/
def tlbAccepts (tlb : Tlb) (pid : Int) (page f : Nat) : Bool :=
  decide ((tlbInsert tlb pid page f).1 = 0)

/-- The end of a page fault: the translation is recorded, and time passes. -/
theorem World.Shows.record (hs : w.Shows backdrop s tlb) (pid : Int) (page f : Nat)
    {finish : Comp World Unit} {s' : Pager}
    (hfinish : ∀ w' tlb', w'.Shows backdrop s tlb' →
      Comp.Returns finish w' fun _ w'' => w''.Shows backdrop s' tlb') :
    Comp.Ends (do
      let code ← onTlb (tlbInsert · pid page f)
      Comp.check code
      finish) w fun r w' =>
      if tlbAccepts tlb pid page f then
        r = some () ∧ w'.Shows backdrop s' (tlbInsert tlb pid page f).2
      else r = none ∧ w'.Shows backdrop s (tlbInsert tlb pid page f).2 := by
  refine (hs.tlbStep (tlbInsert · pid page f)).bindEnds fun code w₁ h₁ => ?_
  obtain ⟨rfl, hs₁⟩ := h₁
  by_cases hcode : (tlbInsert tlb pid page f).1 = 0
  · rw [tlbAccepts, decide_eq_true hcode]
    refine Comp.Returns.bindEnds (P := fun _ w' => w' = w₁) (Comp.Returns.check hcode rfl)
      fun _ w₂ h₂ => ?_
    subst h₂
    exact (hfinish w₂ _ hs₁).ends fun _ _ h => ⟨rfl, h⟩
  · rw [tlbAccepts, decide_eq_false hcode]
    refine Comp.Ends.bind (P := fun r w' => r = none ∧ w' = w₁)
      (Comp.Ends.check (fun h => absurd h hcode) fun _ => ⟨rfl, rfl⟩) (fun _ _ h => ?_)
      fun _ h => ⟨rfl, h.2 ▸ hs₁⟩
    cases h.1

/-- A frame as `physical_memory_allocate_frame` hands it out. -/
def Pager.allocated (s : Pager) (p page f : Nat) : Pager :=
  { s with physical := { physicalFrameAssign s.physical f p (s.pid p) page with
      freeFrameCount := s.physical.freeFrameCount - 1 } }

/-- A page is placed in a frame handed out for it. `rest` comes after, and
need not find the swap the pager has. -/
theorem World.Shows.placeFree (swap : Option Swap) (h : s.Consistent) (hx : backdrop p = some x)
    (hs : w.Shows backdrop (Pager.allocated { s with swap := swap } p (addressPageNumber a) f) tlb)
    (hf : f < s.physical.frameCount) (hfree : (s.physical.frames f).occupied = false)
    {unmapped unshared unloaded : Comp World Int} {rest : Comp World Unit}
    {Q : Option Unit → World → Prop}
    (hrest : ∀ w', w'.Shows backdrop (Pager.place { s with swap := swap } p (addressPageNumber a) f)
      tlb → Comp.Ends rest w' Q) :
    Comp.Ends (do
      Comp.onFailure (onHeap (pageTableMap x.pageTable a f)) unmapped
      Comp.onFailure (cowAddMapping f p (addressPageNumber a)) unshared
      let code ← onPolicy (replacementPolicyOnLoad · f)
      Comp.onFailure (Comp.check code) unloaded
      rest) w Q := by
  have husers := h.no_user hf hfree
  have hload := replacementPolicyOnLoad_spec h.policy (h.policy_count ▸ hf)
    ((h.loaded f).trans hfree)
  refine (hs.map hx a f).onFailure.bindEnds fun _ w₁ hs₁ => ?_
  refine (hs₁.cowAdd (by rw [← h.cow_count] at hf; exact hf)
    (by simp [Pager.allocated, husers])).onFailure.bindEnds fun _ w₂ hs₂ => ?_
  refine (hs₂.policyStep (replacementPolicyOnLoad · f)).bindEnds fun code w₃ h₃ => ?_
  obtain ⟨rfl, hs₃⟩ := h₃
  exact Comp.Returns.bindEnds
    (P := fun _ w' => w'.Shows backdrop
      (Pager.place { s with swap := swap } p (addressPageNumber a) f) tlb)
    (Comp.Returns.onFailure (Comp.Returns.check hload.code hs₃)) fun _ w₄ hs₄ => hrest w₄ hs₄

theorem World.Shows.loadFree (h : s.Consistent) (hx : backdrop p = some x)
    (hs : w.Shows backdrop (s.allocated p (addressPageNumber a) f) tlb)
    (hf : f < s.physical.frameCount) (hfree : (s.physical.frames f).occupied = false)
    (hp : p ∈ s.processes) (ha : a < wordSize) (hm : s.mapped p (addressPageNumber a) = none)
    (isWrite : Bool) :
    Comp.Ends (virtualMemoryLoadFreeFrame p a (addressPageNumber a) f isWrite) w fun r w' =>
      if tlbAccepts tlb (s.pid p) (addressPageNumber a) f then
        r = some () ∧ w'.Shows backdrop (s.load p (addressPageNumber a) f isWrite).tick
          (tlbInsert tlb (s.pid p) (addressPageNumber a) f).2
      else r = none ∧ w'.Shows backdrop (s.load p (addressPageNumber a) f isWrite)
          (tlbInsert tlb (s.pid p) (addressPageNumber a) f).2 := by
  have hplaced := h.place hp (addressPageNumber_lt ha) hf hfree hm
  have hocc : ((s.place p (addressPageNumber a) f).physical.frames f).occupied = true := by
    simp [Pager.place_frames, PhysicalFrame.assigned]
  unfold virtualMemoryLoadFreeFrame
  refine (hs.getTable hx).bindEnds fun table w₁ h₁ => ?_
  obtain ⟨rfl, hs₁⟩ := h₁
  refine World.Shows.placeFree s.swap h hx hs₁ hf hfree fun w₅ hs₅ => ?_
  refine (hs₅.restore hx h.swap hf hocc _).onFailure.bindEnds fun _ w₆ hs₆ => ?_
  have hrestored := hplaced.restore hocc p (addressPageNumber a)
  obtain ⟨data, swap, stats, heq⟩ := (s.place p (addressPageNumber a) f).restore_eq p
    (addressPageNumber a) f
  refine (hs₆.mark (by rw [heq]; exact hf) (by rw [heq]; exact hocc) isWrite).bindCheckEnds
    (fun _ _ h => h.1) fun _ w₇ h₇ => ?_
  have hs₇ : w₇.Shows backdrop (s.load p (addressPageNumber a) f isWrite) tlb := h₇.2
  refine (hs₇.getPid hx).bindEnds fun pid w₈ h₈ => ?_
  obtain ⟨hpid, hs₈⟩ := h₈
  rw [hpid, Pager.load_pid]
  exact hs₈.record _ _ _ fun w' tlb' hs' => (hs'.policyStep _).mono fun _ _ h => h.2

/-! ## The trace of a call in the TLB -/

/-- All resident pages are among `pages`. -/
def Pager.PagesIn (s : Pager) (pages : Nat → Prop) : Prop :=
  ∀ f, (s.physical.frames f).occupied = true → pages (s.physical.frames f).virtualPage

/-- No process with this pid maps the page to another frame than before,
if the keys tell it and the accessed page from the resident pages. -/
def Pager.Keeps (s : Pager) (page : Nat) (s' : Pager) (pid : Int) (v : Nat) : Prop :=
  ∀ pages, KeysApart pages → pages v → pages page → s.PagesIn pages →
    ∀ q, s.pid q = pid → s'.mapped q v = s.mapped q v

/-- What an access to a page of `p` leaves in the TLB: the translation of
that page as it is now, and old translations that are still what the page
maps say if they were before. -/
def Pager.Traced (s : Pager) (tlb : Tlb) (k p page : Nat) (s' : Pager) (tlb' : Tlb) : Prop :=
  tlb.Became k (fun pid v f =>
    (pid = s.pid p ∧ v = page ∧ s'.mapped p page = some f) ∨
      (tlb.Holds pid v f ∧ s.Keeps page s' pid v)) tlb'

/-- The TLB refuses one of the insertions among the calls. -/
def Tlb.Refuses (tlb : Tlb) (calls : List TlbCall) : Prop :=
  ∃ before pid page f after, calls = before ++ .insert pid page f :: after ∧ 0 ≤ pid ∧
    tlbAccepts (tlb.perform before) pid page f = false

/-- A translation that was not taken is one that the TLB refused. -/
def Tlb.Accepts (tlb : Tlb) (calls : List TlbCall) (accepted : Bool) : Prop :=
  accepted = false → tlb.Refuses calls

theorem Tlb.accepts_true (tlb : Tlb) (calls : List TlbCall) : tlb.Accepts calls true :=
  fun h => absurd h Bool.noConfusion

theorem Tlb.accepts_insert {tlb tlb' : Tlb} (before : List TlbCall) (h : tlb' = tlb.perform before)
    {pid : Int} (hpid : 0 ≤ pid) (page f : Nat) (after : List TlbCall) :
    tlb.Accepts (before ++ .insert pid page f :: after) (tlbAccepts tlb' pid page f) :=
  fun hrefused => ⟨before, pid, page, f, after, rfl, hpid, h ▸ hrefused⟩

theorem Tlb.Accepts.append {calls : List TlbCall} {accepted : Bool}
    (h : tlb.Accepts calls accepted) (calls' : List TlbCall) :
    tlb.Accepts (calls ++ calls') accepted := by
  intro hrefused
  obtain ⟨before, pid, page, f, after, rfl, hpid, hlast⟩ := h hrefused
  exact ⟨before, pid, page, f, after ++ calls', by simp, hpid, hlast⟩

/-- The TLB takes every translation while its clock is young. -/
theorem Tlb.Accepts.fresh {calls : List TlbCall} {accepted : Bool} (h : tlb.Accepts calls accepted)
    {n : Nat} (hf : tlb.Fresh n) (hn : n + TlbCall.totalTicks calls < wordSize)
    (hcapacity : 0 < tlb.capacity) : accepted = true := by
  cases accepted with
  | true => rfl
  | false =>
    obtain ⟨before, pid, page, f, after, rfl, hpid, hrefused⟩ := h rfl
    rw [TlbCall.totalTicks_append, TlbCall.totalTicks_cons, TlbCall.ticks] at hn
    have hinserted := (hf.perform before (by omega)).insert_accepted (by omega)
      (by rw [Tlb.perform_capacity]; exact hcapacity) hpid page f
    rw [tlbAccepts, decide_eq_true hinserted] at hrefused
    cases hrefused

/-- Loading a page that the TLB did not know. -/
theorem Pager.traced_load (htlb : tlb.Wf) (hp : 0 ≤ s.pid p)
    (hmiss : ∀ g, ¬ tlb.Holds (s.pid p) page g)
    (hmapped : s'.mapped = rebind s.mapped p page (some f)) :
    s.Traced tlb 1 p page s' (tlbInsert tlb (s.pid p) page f).2 := by
  refine (htlb.became.insert hp page f).mono (Nat.le_refl 1) fun pid v g hkept => ?_
  rcases hkept with ⟨hpid, hv, hg⟩ | hold
  · exact Or.inl ⟨hpid, hv, by rw [hmapped, hg]; simp [rebind]⟩
  · refine Or.inr ⟨hold, fun pages hkeys hv hpage _ q hq => ?_⟩
    rw [hmapped, rebind, if_neg]
    rintro ⟨rfl, hk⟩
    rw [← hq, hkeys v page hv hpage hk] at hold
    exact hmiss g hold

theorem Pager.traced_same (htlb : tlb.Wf) (hmapped : s'.mapped = s.mapped) (p page : Nat) :
    s.Traced tlb 0 p page s' tlb :=
  htlb.became.mono (Nat.le_refl 0) fun pid v f hold =>
    Or.inr ⟨hold, fun _ _ _ _ _ q _ => by rw [hmapped]⟩

/-- Loading a page in place of another, whose translation was dropped. -/
theorem Pager.traced_replace (htlb : tlb.Wf)
    (hocc : (s.physical.frames f).occupied = true) {o : Nat} (hpo : 0 ≤ s.pid o)
    (hp : 0 ≤ s.pid p) (hmiss : ∀ g, ¬ tlb.Holds (s.pid p) page g)
    (hmapped : s'.mapped =
      rebind (rebind s.mapped o (s.physical.frames f).virtualPage none) p page (some f)) :
    s.Traced tlb 1 p page s' (tlbInsert
      (tlbInvalidate tlb (s.pid o) (s.physical.frames f).virtualPage).2 (s.pid p) page f).2 := by
  refine ((htlb.became.invalidate hpo _).insert hp page f).mono (Nat.le_refl 1)
    fun pid v g hkept => ?_
  rcases hkept with ⟨hpid, hv, hg⟩ | ⟨hother, hold⟩
  · exact Or.inl ⟨hpid, hv, by rw [hmapped, hg]; simp [rebind]⟩
  · refine Or.inr ⟨hold, fun pages hkeys hv hpage hin q hq => ?_⟩
    have hnot : ¬ (q = p ∧ pageKey v = pageKey page) := by
      rintro ⟨rfl, hk⟩
      rw [← hq, hkeys v page hv hpage hk] at hold
      exact hmiss g hold
    have hvictim : ¬ (q = o ∧ pageKey v = pageKey (s.physical.frames f).virtualPage) := by
      rintro ⟨rfl, hk⟩
      exact hother ⟨hq.symm, hkeys v _ hv (hin f hocc) hk⟩
    rw [hmapped, rebind, if_neg hnot, rebind, if_neg hvictim]

/-! ## Replacing a page -/

/-- The order of the updates when a victim makes room: the code frees no
frame in between and maps the new page before it unmaps the old one. -/
theorem Pager.Consistent.replaced_eq (h : s.Consistent) {o v : Nat}
    (hm : s.mapped p page = none) (husers : s.cow.frames f = [⟨o, v⟩]) :
    (s.vacate o v f).place p page f = { s with
      physical := physicalFrameAssign s.physical f p (s.pid p) page
      policy := (replacementPolicyOnLoad (replacementPolicyOnEvict s.policy f).2 f).2
      cow := cowManagerInsert (cowManagerRemoveMapping s.cow f o v).2 f p page
      mapped := rebind (rebind s.mapped p page (some f)) o v none } := by
  have hne : ¬ (o = p ∧ pageKey v = pageKey page) := by
    rintro ⟨rfl, hk⟩
    have hmap := h.mapped_frame (show ⟨o, v⟩ ∈ s.cow.frames f by simp [husers])
    rw [h.mapped_key hk, hm] at hmap
    cases hmap
  simp only [Pager.place, Pager.vacate, physicalFrameAssign, physicalFrameReset,
    PhysicalMemory.setFrame, Function.update_idem, Nat.add_sub_cancel, rebind_comm hne]

/-- `virtual_memory_replace_page` from a victim that was saved to the page
placed in its frame, and what comes after. -/
def virtualMemoryPlaceSaved (p a f o : Nat) (victim : PhysicalFrame)
    (rest : Int → Comp World Unit) : Comp World Unit := do
  let oldTable ← processGetPageTable o
  let newTable ← processGetPageTable p
  onHeap (pageTableMap newTable a f)
  let _ ← onTlb (tlbInvalidate · victim.ownerPid victim.virtualPage)
  Comp.onFailure (onHeap (pageTableUnmap oldTable (pageAddress victim.virtualPage)))
    (onHeap (pageTableUnmap newTable a))
  let code ← onCow (cowManagerRemoveMapping · f o victim.virtualPage)
  Comp.check code
  let code ← onPolicy (replacementPolicyOnEvict · f)
  Comp.check code
  let pid ← processGetPid p
  let code ← onPhysical (physicalMemoryReplaceFrame · f p pid (addressPageNumber a))
  Comp.check code
  cowAddMapping f p (addressPageNumber a)
  let code ← onPolicy (replacementPolicyOnLoad · f)
  Comp.check code
  rest pid

/-- Its end, after the page was restored. -/
def virtualMemoryFinishReplace (pid : Int) (page f : Nat) (isWrite dirty : Bool) :
    Comp World Unit := do
  let code ← onPhysical (physicalMemoryMarkAccess · f isWrite)
  Comp.check code
  let code ← onTlb (tlbInsert · pid page f)
  Comp.check code
  onStats fun stats =>
    { stats with
      replacements := increment stats.replacements
      dirtyEvictions := if dirty then increment stats.dirtyEvictions else stats.dirtyEvictions }
  onPolicy fun policy => ((), replacementPolicyTick policy)

/-- The page is placed in the frame of a victim that was saved. `rest`
need not find the swap the pager has. -/
theorem World.Shows.placeSaved (swap : Option Swap) (h : s.Consistent)
    (hs : w.Shows backdrop { s with swap := swap } tlb)
    (hx : backdrop p = some x) (hp : p ∈ s.processes)
    (hm : s.mapped p (addressPageNumber a) = none)
    (hocc : (s.physical.frames f).occupied = true) (hlen : (s.cow.frames f).length ≤ 1)
    {o : Nat} (ho : (s.physical.frames f).ownerProcess = some o) {rest : Int → Comp World Unit}
    {Q : Option Unit → World → Prop}
    (hrest : ∀ w', w'.Shows backdrop
      ((Pager.evict { s with swap := swap } f).place p (addressPageNumber a) f)
      (tlbInvalidate tlb (s.physical.frames f).ownerPid (s.physical.frames f).virtualPage).2 →
      Comp.Ends (rest (s.pid p)) w' Q) :
    Comp.Ends (virtualMemoryPlaceSaved p a f o (s.physical.frames f) rest) w Q := by
  obtain ⟨o', hmem, howner, hpid, husers, heq⟩ := h.evict_eq hocc hlen
  rw [ho] at howner
  cases howner
  have hf := h.frame_lt hocc
  have hv := (h.frame f hf).page_lt
  have hevicted' : Pager.evict { s with swap := swap } f =
      Pager.vacate { s with swap := swap } o (s.physical.frames f).virtualPage f := by
    rw [Pager.evict, show ((Pager.physical _).frames f).ownerProcess = some o from ho,
      Option.getD_some]
  rw [hevicted'] at hrest
  generalize hvictim : s.physical.frames f = victim at *
  have hcow : ⟨o, victim.virtualPage⟩ ∈ s.cow.frames f := by simp [husers]
  obtain ⟨hevicted, _, _, hfree, hcount⟩ := h.evicted (by rw [hvictim]; exact hocc) hlen hm
  have hevict := replacementPolicyOnEvict_spec h.policy
    ((h.loaded f).trans (by rw [hvictim]; exact hocc))
  have hload := replacementPolicyOnLoad_spec hevicted.policy
    (f := f) (by rw [hevicted.policy_count, hcount]; exact hf) ((hevicted.loaded f).trans hfree)
  rw [heq] at hload
  obtain ⟨y, hy⟩ := hs.process_of_pid (h.live o hmem)
  refine (hs.getTable hy).bindEnds fun oldTable w₁ h₁ => ?_
  obtain ⟨rfl, hs₁⟩ := h₁
  refine (hs₁.getTable hx).bindEnds fun newTable w₂ h₂ => ?_
  obtain ⟨rfl, hs₂⟩ := h₂
  refine (hs₂.map hx a f).bindEnds fun _ w₃ hs₃ => ?_
  refine (hs₃.tlbStep (tlbInvalidate · victim.ownerPid victim.virtualPage)).bindEnds
    fun _ w₄ h₄ => ?_
  obtain ⟨_, hs₄⟩ := h₄
  have hbound : rebind s.mapped p (addressPageNumber a) (some f) o
      (addressPageNumber (pageAddress victim.virtualPage)) ≠ none := by
    rw [addressPageNumber_pageAddress hv, rebind, h.mapped_frame hcow]
    split <;> simp
  refine (hs₄.unmap hy hbound).onFailure.bindEnds fun _ w₅ hs₅ => ?_
  rw [addressPageNumber_pageAddress hv] at hs₅
  refine (hs₅.cowStep (cowManagerRemoveMapping · f o victim.virtualPage)).bindCheckEnds
    (fun _ _ hc => hc.1.trans (congrArg Prod.fst (h.removeMapping hcow))) fun _ w₆ h₆ => ?_
  refine (h₆.2.policyStep (replacementPolicyOnEvict · f)).bindCheckEnds
    (fun _ _ hc => hc.1.trans hevict.code) fun _ w₇ h₇ => ?_
  refine (h₇.2.getPid hx).bindEnds fun pid w₈ h₈ => ?_
  obtain ⟨rfl, hs₈⟩ := h₈
  have hreplace : physicalMemoryReplaceFrame s.physical f p (s.pid p) (addressPageNumber a) =
      (0, physicalFrameAssign s.physical f p (s.pid p) (addressPageNumber a)) := by
    rw [physicalMemoryReplaceFrame, if_neg (by simpa [hf] using h.live p hp),
      if_neg (by simp [hvictim, hocc])]
  refine (hs₈.physicalStep (physicalMemoryReplaceFrame · f p (s.pid p)
    (addressPageNumber a))).bindCheckEnds
    (fun _ _ hc => hc.1.trans (congrArg Prod.fst hreplace)) fun _ w₉ h₉ => ?_
  have hs₉ := h₉.2
  simp only [hreplace] at hs₉
  refine (hs₉.cowAdd (by simp [h.removeMapping hcow, h.cow_count, hf])
    (by simp [h.removeMapping hcow, husers])).bindEnds fun _ w₁₀ hs₁₀ => ?_
  refine (hs₁₀.policyStep (replacementPolicyOnLoad · f)).bindCheckEnds
    (fun _ _ hc => hc.1.trans hload.code) fun _ w₁₁ h₁₁ => hrest w₁₁ ?_
  have hplaced : (Pager.vacate { s with swap := swap } o victim.virtualPage f).place p
      (addressPageNumber a) f = { s with
        swap := swap
        physical := physicalFrameAssign s.physical f p (s.pid p) (addressPageNumber a)
        policy := (replacementPolicyOnLoad (replacementPolicyOnEvict s.policy f).2 f).2
        cow := cowManagerInsert (cowManagerRemoveMapping s.cow f o victim.virtualPage).2 f p
          (addressPageNumber a)
        mapped := rebind (rebind s.mapped p (addressPageNumber a) (some f)) o
          victim.virtualPage none } :=
    congrArg (fun s' : Pager => { s' with swap := swap }) (h.replaced_eq hm husers)
  rw [hplaced]
  exact h₁₁.2

/-- From a victim that was saved to the page loaded in its place. -/
theorem World.Shows.replaceSaved (h : s.Consistent) (hs : w.Shows backdrop s tlb)
    (hx : backdrop p = some x) (hp : p ∈ s.processes) (ha : a < wordSize)
    (hm : s.mapped p (addressPageNumber a) = none)
    (hocc : (s.physical.frames f).occupied = true) (hlen : (s.cow.frames f).length ≤ 1)
    {o : Nat} (ho : (s.physical.frames f).ownerProcess = some o) (isWrite : Bool) :
    Comp.Ends (virtualMemoryPlaceSaved p a f o (s.physical.frames f) fun pid => do
      virtualMemoryRestorePage p (addressPageNumber a) f
      virtualMemoryFinishReplace pid (addressPageNumber a) f isWrite
        (s.physical.frames f).dirty) w fun r w' =>
        let tlb₁ := (tlbInvalidate tlb (s.physical.frames f).ownerPid
          (s.physical.frames f).virtualPage).2
        let loaded := (s.evict f).load p (addressPageNumber a) f isWrite
        if tlbAccepts tlb₁ (s.pid p) (addressPageNumber a) f then
          r = some () ∧ w'.Shows backdrop
            (loaded.countReplacement (s.physical.frames f).dirty).tick
            (tlbInsert tlb₁ (s.pid p) (addressPageNumber a) f).2
        else r = none ∧ w'.Shows backdrop loaded
            (tlbInsert tlb₁ (s.pid p) (addressPageNumber a) f).2 := by
  obtain ⟨hevicted, hprocesses, hnone, hfree, hcount⟩ := h.evicted hocc hlen hm
  have hf : f < (s.evict f).physical.frameCount := by
    rw [hcount]
    exact h.frame_lt hocc
  have hplaced : ((s.evict f).place p (addressPageNumber a) f).Consistent :=
    hevicted.place (by rw [hprocesses]; exact hp) (addressPageNumber_lt ha) hf hfree hnone
  have hin : (((s.evict f).place p (addressPageNumber a) f).physical.frames f).occupied =
      true := by
    simp [Pager.place_frames, PhysicalFrame.assigned]
  refine World.Shows.placeSaved s.swap h hs hx hp hm hocc hlen ho fun w₁ hs₁ => ?_
  refine (hs₁.restore hx hplaced.swap hf hin _).bindEnds fun _ w₂ hs₂ => ?_
  obtain ⟨data, swap, stats, hrestored⟩ := ((s.evict f).place p (addressPageNumber a) f).restore_eq
    p (addressPageNumber a) f
  refine (hs₂.mark (by rw [hrestored]; exact hf) (by rw [hrestored]; exact hin)
    isWrite).bindCheckEnds (fun _ _ hc => hc.1) fun _ w₃ h₃ => ?_
  refine h₃.2.record _ _ _ fun w' tlb' hs' => ?_
  refine Comp.Returns.bind (P := fun _ w'' => w''.Shows backdrop
    (((s.evict f).load p (addressPageNumber a) f isWrite).countReplacement
      (s.physical.frames f).dirty) tlb') hs'.statsStep fun _ w'' hs'' => ?_
  exact (hs''.policyStep _).mono fun _ _ hc => hc.2

/-- What the end of a page fault leaves behind. -/
def World.Faulted (w' : World) (backdrop : Backdrop) (s : Pager) (tlb : Tlb)
    (calls : List TlbCall) (p page : Nat) (end_ : Bool → VirtualMemoryAccessResult × Pager)
    (result : VirtualMemoryAccessResult) : Prop :=
  ∃ recorded tlb', w'.Shows backdrop (end_ recorded).2 tlb' ∧ (end_ recorded).1 = result ∧
    s.Traced tlb 1 p page (end_ recorded).2 tlb' ∧
    tlb.Accepts calls recorded ∧ tlb' = tlb.perform calls

theorem Pager.Traced.congr {k : Nat} {tlb' : Tlb} {s'' : Pager}
    (ht : s.Traced tlb k p page s' tlb') (hm : s''.mapped = s'.mapped) :
    s.Traced tlb k p page s'' tlb' := by
  unfold Pager.Traced Pager.Keeps at *
  rw [hm]
  exact ht

/-- The two ends of a page fault, put together. -/
theorem World.faulted_of_end {end_ : Bool → VirtualMemoryAccessResult × Pager} {accepted : Bool}
    {r : Option Unit} {loaded finished : Pager} {tlb' : Tlb}
    (hend : if accepted then r = some () ∧ w'.Shows backdrop finished tlb'
      else r = none ∧ w'.Shows backdrop loaded tlb')
    (hdone : end_ true = (.pageFault, finished)) (hrefused : end_ false = (s.faultError, loaded))
    (hmapped : finished.mapped = loaded.mapped)
    (htrace : s.Traced tlb 1 p page loaded tlb') {calls : List TlbCall}
    (haccepts : tlb.Accepts calls accepted)
    (hcalls : tlb' = tlb.perform calls) :
    w'.Faulted backdrop s tlb calls p page end_
      (if r.isSome then .pageFault else s.faultError) := by
  cases accepted with
  | true =>
    obtain ⟨rfl, hs⟩ := hend
    exact ⟨true, tlb', by rw [hdone]; exact hs, by rw [hdone]; rfl,
      by rw [hdone]; exact htrace.congr hmapped, haccepts, hcalls⟩
  | false =>
    obtain ⟨rfl, hs⟩ := hend
    exact ⟨false, tlb', by rw [hrefused]; exact hs, by rw [hrefused]; rfl,
      by rw [hrefused]; exact htrace, haccepts, hcalls⟩

/-- The choice of a victim that is not refused, up to the saving of its
bytes. The swap need not be the one the pager has. -/
theorem World.Shows.chooseVictim (swap : Option Swap) (h : s.Consistent)
    (hs : w.Shows backdrop { s with swap := swap } tlb) {policy : ReplacementPolicy}
    (hchoose : replacementPolicyChooseVictim s.policy = some (f, policy))
    (hvictim : f = replacementInvalidFrame ∨ (s.physical.frames f).occupied = true)
    {Q : Option Unit → World → Prop}
    (hstop : f = replacementInvalidFrame ∨ 1 < (s.cow.frames f).length → ∀ w',
      w'.Shows backdrop { s with swap := swap, policy := policy } tlb → Q none w')
    (hgo : ¬(f = replacementInvalidFrame ∨ 1 < (s.cow.frames f).length) →
      (s.physical.frames f).occupied = true → ∀ o, (s.physical.frames f).ownerProcess = some o →
      ∀ w', w'.Shows backdrop { s with swap := swap, policy := policy } tlb → Comp.Ends (do
        virtualMemorySaveVictim (s.physical.frames f) f
        virtualMemoryPlaceSaved p a f o (s.physical.frames f) fun pid => do
          virtualMemoryRestorePage p (addressPageNumber a) f
          virtualMemoryFinishReplace pid (addressPageNumber a) f isWrite
            (s.physical.frames f).dirty) w' Q) :
    Comp.Ends (virtualMemoryReplacePage p a (addressPageNumber a) isWrite) w Q := by
  unfold virtualMemoryReplacePage
  refine hs.get.bindEnds fun r w₁ hget => ?_
  obtain ⟨hs₁, rfl⟩ := hget
  have hchoose' : replacementPolicyChooseVictim
      (Pager.policy { s with swap := swap }) = some (f, policy) := hchoose
  rw [hs₁.policy, hs₁.cow, hs₁.physical, hchoose']
  refine Comp.Returns.bindEnds (P := fun r w' => r = (f, policy) ∧ w' = w₁)
    ⟨_, _, rfl, rfl, rfl⟩ fun r w₂ h₂ => ?_
  obtain ⟨rfl, rfl⟩ := h₂
  refine (hs₁.policyStep fun _ => ((), policy)).bindEnds fun _ w₃ h₃ => ?_
  obtain ⟨_, hs₃⟩ := h₃
  by_cases hinvalid : f = replacementInvalidFrame
  · exact Comp.Ends.stop (by simp [hinvalid]) (hstop (Or.inl hinvalid) w₃ hs₃)
  refine Comp.Ends.pass (by simp [hinvalid]) ?_
  have hocc : (s.physical.frames f).occupied = true := hvictim.resolve_left hinvalid
  have hf := h.frame_lt hocc
  by_cases hshared : 1 < (s.cow.frames f).length
  · exact Comp.Ends.stop (by rw [h.mappingCount, decide_eq_true hshared])
      (hstop (Or.inr hshared) w₃ hs₃)
  refine Comp.Ends.pass (by rw [h.mappingCount, decide_eq_false hshared]) ?_
  obtain ⟨o, howner, _⟩ := (h.frame f hf).owner hocc
  refine Comp.Ends.found (by rw [physicalMemoryGetFrame, if_neg (Nat.not_le.mpr hf)]) ?_
  refine Comp.Ends.pass (by simp [hocc]) ?_
  refine Comp.Ends.found howner ?_
  exact hgo (not_or.mpr ⟨hinvalid, hshared⟩) hocc o howner w₃ hs₃

/-- A replacement whose victim may be evicted. -/
theorem Pager.replace_evicting {policy : ReplacementPolicy}
    (hchoose : replacementPolicyChooseVictim s.policy = some (f, policy))
    (hcond : ¬(f = replacementInvalidFrame ∨ 1 < (s.cow.frames f).length)) (p page : Nat)
    (isWrite recorded : Bool) : s.replace p page isWrite recorded =
      match Pager.saveVictim { s with policy := policy } f with
      | none => (s.faultError, { s with policy := policy })
      | some saved =>
        if recorded then (.pageFault, (((saved.evict f).load p page f
          isWrite).countReplacement (s.physical.frames f).dirty).tick)
        else (s.faultError, (saved.evict f).load p page f isWrite) := by
  rw [Pager.replace, hchoose]
  exact if_neg hcond

theorem World.Shows.replace (h : s.Consistent) (hs : w.Shows backdrop s tlb)
    (hx : backdrop p = some x) (hp : p ∈ s.processes) (ha : a < wordSize)
    (hm : s.mapped p (addressPageNumber a) = none) (htlb : tlb.Wf)
    (hmiss : ∀ g, ¬ tlb.Holds (s.pid p) (addressPageNumber a) g) (isWrite : Bool) :
    Comp.Ends (virtualMemoryReplacePage p a (addressPageNumber a) isWrite) w fun r w' =>
      w'.Faulted backdrop s tlb (s.replaceCalls p (addressPageNumber a)) p (addressPageNumber a)
        (s.replace p (addressPageNumber a) isWrite)
        (if r.isSome then .pageFault else s.faultError) := by
  obtain ⟨f, policy, hchoose, hvictim, hchosen⟩ := h.chooseVictim
  -- a failure before anything was moved
  have hstop : ∀ w' : World, w'.Shows backdrop { s with policy := policy } tlb →
      s.replace p (addressPageNumber a) isWrite true =
        (s.faultError, { s with policy := policy }) →
      s.replaceCalls p (addressPageNumber a) = [] →
      w'.Faulted backdrop s tlb (s.replaceCalls p (addressPageNumber a)) p (addressPageNumber a)
        (s.replace p (addressPageNumber a) isWrite) s.faultError := by
    intro w' hs' heq hcalls
    refine ⟨true, tlb, by rw [heq]; exact hs', by rw [heq], ?_, tlb.accepts_true _,
      by rw [hcalls]; rfl⟩
    rw [heq]
    exact (Pager.traced_same htlb rfl p _).mono (Nat.zero_le 1) fun _ _ _ hkept => hkept
  refine World.Shows.chooseVictim s.swap h hs hchoose hvictim (fun hcond w' hs' => ?_)
    fun hcond hocc o howner w₃ hs₃ => ?_
  · refine hstop w' hs' ?_ ?_
    · simp only [Pager.replace, hchoose]
      rw [if_pos hcond]
      rfl
    · simp only [Pager.replaceCalls, hchoose]
      rw [if_pos hcond]
  have hf := h.frame_lt hocc
  have hlen : (s.cow.frames f).length ≤ 1 := Nat.le_of_not_lt (not_or.mp hcond).2
  obtain ⟨o', howner', hpid, ho, _⟩ := h.sole_user hocc hlen
  rw [howner] at howner'
  cases howner'
  have hreplace := Pager.replace_evicting hchoose hcond p (addressPageNumber a) isWrite
  have hcalls : s.replaceCalls p (addressPageNumber a) =
      if (Pager.saveVictim { s with policy := policy } f).isSome then
        [.invalidate (s.physical.frames f).ownerPid (s.physical.frames f).virtualPage,
          .insert (s.pid p) (addressPageNumber a) f]
      else [] := by
    simp only [Pager.replaceCalls, hchoose]
    rw [if_neg hcond]
  have hsave := hs₃.saveVictim hf hocc
  cases hsaved : Pager.saveVictim { s with policy := policy } f with
  | none =>
    simp only [hsaved] at hsave hreplace
    rw [hsaved] at hcalls
    refine hsave.bind (fun _ _ hc => by cases hc.1) fun w' hc =>
      hstop w' hc.2 (hreplace true) hcalls
  | some saved =>
    simp only [hsaved] at hsave hreplace
    rw [hsaved, Option.isSome_some, if_pos rfl] at hcalls
    have hconsistent := hchosen.saveVictim hocc hsaved
    obtain ⟨swap, stats, rfl⟩ := Pager.saveVictim_eq hsaved
    refine hsave.bind (fun _ w₄ hc => ?_) fun _ hc => by cases hc.1
    refine (hc.2.replaceSaved hconsistent hx hp ha hm hocc hlen howner isWrite).mono
      fun r w' hend => ?_
    have hmapped := Pager.load_eq (Pager.evict { s with
      policy := policy, swap := swap, stats := stats } f) p (addressPageNumber a) f isWrite
    have htrace := Pager.traced_replace (s := s) htlb hocc (h.live o ho) (h.live p hp) hmiss
      (hmapped.2.2.1.trans (by rw [Pager.evict, howner]; rfl))
    rw [← hpid] at htrace
    rw [hcalls]
    exact World.faulted_of_end hend ((hreplace true).trans (if_pos rfl))
      ((hreplace false).trans (if_neg Bool.false_ne_true)) rfl htrace
      (Tlb.accepts_insert [.invalidate (s.physical.frames f).ownerPid
        (s.physical.frames f).virtualPage] rfl (h.live p hp) _ f []) rfl

/-- The result code that follows an attempt to bring a page in. -/
theorem World.Shows.faultCode {w' : World} (hs : w'.Shows backdrop s' tlb)
    (hswap : s'.swap.isSome = s.swap.isSome) : virtualMemoryFaultError w' = s.faultError := by
  rw [virtualMemoryFaultError, hs.swap, hswap]
  rfl

/-! A page fault neither creates nor drops the swap. -/

theorem Pager.load_swap (s : Pager) (p page f : Nat) (isWrite : Bool) :
    (s.load p page f isWrite).swap.isSome = s.swap.isSome := by
  show ((s.place p page f).restore p page f).swap.isSome = (s.place p page f).swap.isSome
  unfold Pager.restore
  split
  · rfl
  · rename_i swap hswap
    split
    · rfl
    · rw [hswap]
      rfl

theorem Pager.saveVictim_swap (hs : s.saveVictim f = some s') :
    s'.swap.isSome = s.swap.isSome := by
  unfold Pager.saveVictim at hs
  split at hs
  · cases hs
    rfl
  · obtain ⟨swap, hswap, _, rfl⟩ := Pager.store_eq hs
    rw [hswap]
    rfl

theorem Pager.replace_swap (s : Pager) (p page : Nat) (isWrite recorded : Bool) :
    (s.replace p page isWrite recorded).2.swap.isSome = s.swap.isSome := by
  unfold Pager.replace
  split
  · rfl
  · dsimp only
    split
    · rfl
    · split
      · rfl
      · rename_i f _ _ _ _ saved hsaved
        have hloaded := (Pager.load_swap (saved.evict f) p page f isWrite).trans
          (show saved.swap.isSome = _ from Pager.saveVictim_swap hsaved)
        split <;> exact hloaded

theorem Pager.fault_swap (s : Pager) (p page : Nat) (isWrite recorded : Bool) :
    (s.fault p page isWrite recorded).2.swap.isSome = s.swap.isSome := by
  unfold Pager.fault
  split
  · rename_i f _
    have hloaded := Pager.load_swap s.countFault p page f isWrite
    dsimp only
    split <;> exact hloaded
  · exact Pager.replace_swap _ _ _ _ _

theorem World.Shows.fault (h : s.Consistent) (hs : w.Shows backdrop s tlb)
    (hx : backdrop p = some x) (hp : p ∈ s.processes) (ha : a < wordSize)
    (hm : s.mapped p (addressPageNumber a) = none) (htlb : tlb.Wf)
    (hmiss : ∀ g, ¬ tlb.Holds (s.pid p) (addressPageNumber a) g) (isWrite : Bool) :
    Comp.Returns (virtualMemoryAccessFault p (s.pid p) a (addressPageNumber a) isWrite) w
      fun result w' => w'.Faulted backdrop s tlb (s.faultCalls p (addressPageNumber a)) p
        (addressPageNumber a) (s.fault p (addressPageNumber a) isWrite) result := by
  have hcounted : s.countFault.Consistent := h.setStats _
  unfold virtualMemoryAccessFault
  refine Comp.Returns.bind (P := fun _ w' => w'.Shows backdrop s.countFault tlb) hs.statsStep
    fun _ w₁ hs₁ => ?_
  refine (hs₁.physicalStep (physicalMemoryAllocateFrame · p (s.pid p)
    (addressPageNumber a))).bind fun allocation w₂ h₂ => ?_
  obtain ⟨rfl, hs₂⟩ := h₂
  have halloc : physicalMemoryAllocateFrame s.countFault.physical p (s.pid p)
      (addressPageNumber a) = _ := physicalMemoryAllocateFrame_eq h.count_lt h.freeCount p
    (h.live p hp) (addressPageNumber a)
  rw [halloc] at hs₂ ⊢
  -- the result code of a load or a replacement that ended in `w'`
  have hresult : ∀ (r : Option Unit) (w' : World), w'.Faulted backdrop s.countFault tlb
      (s.faultCalls p (addressPageNumber a)) p (addressPageNumber a)
      (s.fault p (addressPageNumber a) isWrite)
      (if r.isSome then .pageFault else s.faultError) →
      Comp.Returns (do
        let w ← Comp.get
        return if r.isSome then .pageFault else virtualMemoryFaultError w) w'
        fun result w'' => w''.Faulted backdrop s tlb (s.faultCalls p (addressPageNumber a)) p
          (addressPageNumber a) (s.fault p (addressPageNumber a) isWrite) result := by
    intro r w' hend
    obtain ⟨recorded, tlb', hs', hcode, htrace, haccepts, hcalls⟩ := hend
    refine hs'.get.bind fun v w'' hget => ?_
    obtain ⟨hs'', rfl⟩ := hget
    rw [hs''.faultCode (s.fault_swap p _ isWrite recorded)]
    exact Comp.Returns.pure ⟨recorded, tlb', hs'', hcode, htrace, haccepts, hcalls⟩
  cases hfree : s.physical.firstFree with
  | some f =>
    obtain ⟨hf, hocc, _⟩ := h.firstFree hfree
    have hfault : ∀ recorded, s.fault p (addressPageNumber a) isWrite recorded =
        if recorded then
          (.pageFault, (s.countFault.load p (addressPageNumber a) f isWrite).tick)
        else (s.faultError, s.countFault.load p (addressPageNumber a) f isWrite) := by
      intro recorded
      simp only [Pager.fault, hfree]
    have hload := Pager.load_eq s.countFault p (addressPageNumber a) f isWrite
    simp only [hfree] at hs₂ ⊢
    refine Comp.Returns.bind (World.Shows.loadFree hcounted hx hs₂ hf hocc hp ha hm isWrite)
      fun r w₃ hend => hresult r w₃ ?_
    exact World.faulted_of_end hend ((hfault true).trans (if_pos rfl))
      ((hfault false).trans (if_neg Bool.false_ne_true)) rfl
      (Pager.traced_load htlb (h.live p hp) hmiss hload.2.2.1)
      (by simp only [Pager.faultCalls, hfree]
          exact Tlb.accepts_insert [] rfl (h.live p hp) _ f [])
      (by simp only [Pager.faultCalls, hfree]; rfl)
  | none =>
    have hfault : s.fault p (addressPageNumber a) isWrite =
        s.countFault.replace p (addressPageNumber a) isWrite := by
      funext recorded
      simp only [Pager.fault, hfree]
    have hcalls : s.faultCalls p (addressPageNumber a) =
        s.countFault.replaceCalls p (addressPageNumber a) := by
      simp only [Pager.faultCalls, hfree]
    simp only [hfree] at hs₂ ⊢
    refine Comp.Returns.bind (hs₂.replace hcounted hx hp ha hm htlb hmiss isWrite)
      fun r w₃ hend => hresult r w₃ ?_
    rw [hfault, hcalls]
    exact hend

end VmSim
