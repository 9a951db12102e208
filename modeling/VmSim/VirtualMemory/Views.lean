/-
VmSim.VirtualMemory.Views — what the operations of the pager do to the
views of the processes.

Swap slots come first: every operation on them is a rule about
`Pager.slot`. Then each operation on frames is shown to keep the view of
a page `v` of a process `q`, under the conditions that matter: the trie
key of `v` is that of no other page involved (`Apart`), and no other
process involved writes to the swap slots of the pid of `q`.
-/
import VmSim.VirtualMemory.Observation

namespace VmSim

open Lib

variable {s s' : Pager} {p q o page f g u v : Nat} {pid : Int} {data : PageData} {isWrite : Bool}

/-! ## Slots -/

theorem Pager.slot_some {swap : Swap} (h : s.swap = some swap) (pid : Int) (v : Nat) :
    s.slot pid v = swap.content pid v := by
  rw [Pager.slot, h]
  rfl

theorem Pager.slot_congr (h : s'.swap = s.swap) (pid : Int) (v : Nat) :
    s'.slot pid v = s.slot pid v := by
  rw [Pager.slot, h]
  rfl

/-- Only registered processes have pages in swap. -/
theorem Pager.Consistent.slot_owner (h : s.Consistent) (hs : s.slot pid v ≠ none) :
    ∃ p ∈ s.processes, s.pid p = pid := by
  cases hswap : s.swap with
  | none => simp [Pager.slot, hswap] at hs
  | some swap =>
    rw [Pager.slot_some hswap] at hs
    exact h.stored swap hswap pid v hs

theorem Pager.Consistent.store_slot (h : s.Consistent) (hpid : 0 ≤ pid)
    (hs : s.store pid page data = some s') (pid' : Int) (v : Nat) :
    s'.slot pid' v = if pid' = pid ∧ v = page then some data else s.slot pid' v := by
  obtain ⟨swap, hswap, hcode, rfl⟩ := Pager.store_eq hs
  obtain ⟨hwf, hworks⟩ := h.swap swap hswap
  rw [Pager.slot_some hswap]
  rcases swapWritePage_spec hwf hworks hpid page data with ⟨_, _, _, hcontent⟩ | ⟨hrefused, _⟩
  · exact hcontent pid' v
  · rw [hrefused] at hcode
    cases hcode

theorem Pager.Consistent.restore_slot (h : s.Consistent) (p page f : Nat) (pid : Int) (v : Nat) :
    (s.restore p page f).slot pid v = if pid = s.pid p ∧ v = page then none else s.slot pid v := by
  cases hc : s.slot (s.pid p) page with
  | none =>
    rw [Pager.restore_none fun swap hswap => by rw [← Pager.slot_some hswap, hc]]
    split
    · rename_i hkey
      rw [hkey.1, hkey.2, hc]
    · rfl
  | some data =>
    obtain ⟨swap, hswap, hcontent⟩ := Option.bind_eq_some_iff.mp hc
    obtain ⟨_, _, _, htaken⟩ := swapTakePage_spec (h.swap swap hswap).1
      (by rw [hcontent]; exact Option.some_ne_none data) ((swap.reads + 1) % wordSize)
    rw [Pager.restore_some hswap hcontent, Pager.slot_some hswap]
    exact htaken pid v

/-- A restored frame holds what the swap gives for its page. -/
theorem Pager.restore_data (s : Pager) (p page f : Nat) (hzero : s.physical.data f = zeroPage) :
    (s.restore p page f).physical.data =
      Function.update s.physical.data f (s.swapped (s.pid p) page) := by
  cases hc : s.slot (s.pid p) page with
  | none =>
    rw [Pager.restore_none fun swap hswap => by rw [← Pager.slot_some hswap, hc], Pager.swapped, hc,
      Option.getD_none, ← hzero, Function.update_eq_self]
  | some data =>
    obtain ⟨swap, hswap, hcontent⟩ := Option.bind_eq_some_iff.mp hc
    rw [Pager.restore_some hswap hcontent, Pager.swapped, hc, Option.getD_some]
    rfl

/-! ## Views in general -/

/-- Two states in which a process sees the same on a page. -/
theorem Pager.view_congr (hmapped : s'.mapped q v = s.mapped q v)
    (hdata : ∀ f, s.mapped q v = some f → s'.physical.data f = s.physical.data f)
    (hslot : s.mapped q v = none → s'.slot (s'.pid q) v = s.slot (s.pid q) v) :
    s'.view q v = s.view q v := by
  rw [Pager.view, Pager.view, hmapped]
  cases hm : s.mapped q v with
  | some f => exact hdata f hm
  | none => exact congrArg (Option.getD · zeroPage) (hslot hm)

/-- An operation on metadata changes no view. -/
theorem Pager.view_same (hmapped : s'.mapped = s.mapped)
    (hdata : s'.physical.data = s.physical.data) (hswap : s'.swap = s.swap)
    (hpid : s'.pid = s.pid) (q v : Nat) : s'.view q v = s.view q v :=
  Pager.view_congr (by rw [hmapped]) (fun _ _ => by rw [hdata])
    fun _ => by rw [hpid, Pager.slot_congr hswap]

theorem Pager.view_resident (hm : s.mapped q v = some f) : s.view q v = s.physical.data f := by
  rw [Pager.view, hm]

theorem Pager.view_absent (hm : s.mapped q v = none) :
    s.view q v = s.swapped (s.pid q) v := by
  rw [Pager.view, hm]

/-- The trie tells the page `v` from `page`. -/
def Apart (v page : Nat) : Prop := pageKey v = pageKey page → v = page

/-! ## Loading -/

theorem Pager.load_data (s : Pager) (p page f : Nat) (isWrite : Bool) :
    (s.load p page f isWrite).physical.data =
      Function.update s.physical.data f (s.swapped (s.pid p) page) := by
  have hzero : (s.place p page f).physical.data f = zeroPage := by
    simp [Pager.place, physicalFrameAssign, PhysicalMemory.setFrame]
  have hrest : (s.place p page f).physical.data = Function.update s.physical.data f zeroPage := rfl
  show ((s.place p page f).restore p page f).physical.data = _
  rw [Pager.restore_data _ p page f hzero, hrest, Function.update_idem]
  rfl

theorem Pager.Consistent.load_slot (h : (s.place p page f).Consistent) (isWrite : Bool)
    (pid : Int) (v : Nat) : (s.load p page f isWrite).slot pid v =
      if pid = s.pid p ∧ v = page then none else s.slot pid v :=
  h.restore_slot p page f pid v

/-- A page that is loaded keeps its bytes, and so do all others. -/
theorem Pager.Consistent.view_load (h : s.Consistent) (hp : p ∈ s.processes)
    (hpage : page < 2 ^ 52) (hf : f < s.physical.frameCount)
    (hfree : (s.physical.frames f).occupied = false) (hm : s.mapped p page = none)
    (hkey : q = p → Apart v page)
    (halone : s.pid q = s.pid p → q = p ∨ s.slot (s.pid p) page = none)
    (isWrite : Bool) : (s.load p page f isWrite).view q v = s.view q v := by
  obtain ⟨hpid, _, hmapped, _⟩ := s.load_eq p page f isWrite
  by_cases hself : q = p ∧ pageKey v = pageKey page
  · obtain ⟨rfl, hk⟩ := hself
    rw [hkey rfl hk, Pager.view_absent hm, Pager.view_resident (f := f), Pager.load_data,
      Function.update_self]
    rw [hmapped]
    simp [rebind]
  · refine Pager.view_congr (by rw [hmapped, rebind, if_neg hself]) (fun g hg => ?_) fun _ => ?_
    · have hne : g ≠ f := by
        rintro rfl
        rw [h.occupied_of_mapped hg] at hfree
        cases hfree
      rw [Pager.load_data, Function.update_of_ne hne]
    · rw [hpid, (h.place hp hpage hf hfree hm).load_slot]
      split
      · rename_i hslot
        rcases halone hslot.1 with rfl | hnone
        · exact absurd ⟨rfl, congrArg pageKey hslot.2⟩ hself
        · rw [hslot.1, hslot.2, hnone]
      · rfl

/-! ## Evicting -/

/-- What is lost when the only user of a frame gives it up. -/
theorem Pager.Consistent.view_vacate (h : s.Consistent) (husers : s.cow.frames f = [⟨o, u⟩])
    (hdata : s.swapped (s.pid o) u = s.physical.data f) (hkey : Apart v u) :
    (s.vacate o u f).view q v = s.view q v := by
  have hmem : ⟨o, u⟩ ∈ s.cow.frames f := by simp [husers]
  by_cases hself : q = o ∧ pageKey v = pageKey u
  · obtain ⟨rfl, hk⟩ := hself
    rw [hkey hk, Pager.view_resident (h.mapped_frame hmem), Pager.view_absent]
    · exact hdata
    · simp [Pager.vacate, rebind]
  · refine Pager.view_congr (by simp only [Pager.vacate, rebind, if_neg hself]) (fun g hg => ?_)
      fun _ => rfl
    have hne : g ≠ f := by
      rintro rfl
      obtain ⟨huser, hk⟩ := h.user_of_mapped hg
      rw [← h.user_page hmem] at huser hk
      rw [husers, List.mem_singleton] at huser
      exact hself ⟨congrArg CowMapping.process huser, hk.symm⟩
    show (Function.update s.physical.data f zeroPage) g = _
    rw [Function.update_of_ne hne]

/-- A victim that is saved, or that the swap holds already. -/
def Pager.Retains (s : Pager) (f : Nat) : Prop :=
  ((s.physical.frames f).dirty = true ∧ s.swap.isSome = true) ∨
    s.swapped (s.physical.frames f).ownerPid (s.physical.frames f).virtualPage =
      s.physical.data f

theorem Pager.Consistent.saved_slot (h : s.Consistent)
    (hocc : (s.physical.frames f).occupied = true) (hs : s.saveVictim f = some s') (pid : Int)
    (v : Nat) : s'.slot pid v =
      if (s.physical.frames f).dirty = true ∧ s.swap.isSome = true ∧
          pid = (s.physical.frames f).ownerPid ∧ v = (s.physical.frames f).virtualPage then
        some (s.physical.data f) else s.slot pid v := by
  unfold Pager.saveVictim at hs
  split at hs
  · rename_i hskip
    cases hs
    rw [if_neg]
    rintro ⟨hdirty, hswap, _⟩
    rcases hskip with hclean | hnone
    · simp [hdirty] at hclean
    · rw [Option.isNone_iff_eq_none] at hnone
      simp [hnone] at hswap
  · rename_i hsave
    obtain ⟨hdirty, hsome⟩ := not_or.mp hsave
    have hlive : 0 ≤ (s.physical.frames f).ownerPid := h.owner_live hocc
    rw [h.store_slot hlive hs]
    have hdirty' : (s.physical.frames f).dirty = true := by simpa using hdirty
    have hsome' : s.swap.isSome = true := by
      cases hswap : s.swap with
      | none => simp [hswap] at hsome
      | some swap => rfl
    simp only [hdirty', hsome', true_and]

/-- Saving and evicting a victim keeps all views. -/
theorem Pager.Consistent.view_evict (h : s.Consistent)
    (hocc : (s.physical.frames f).occupied = true) (hlen : (s.cow.frames f).length ≤ 1)
    (hretains : s.Retains f) (hs : s.saveVictim f = some s')
    (hkey : Apart v (s.physical.frames f).virtualPage)
    (halone : ∀ r ∈ s.processes, s.pid r = s.pid q → r = q) :
    (s'.evict f).view q v = s.view q v := by
  obtain ⟨o, ho, howner, hpid, husers, _⟩ := h.evict_eq hocc hlen
  have h' := h.saveVictim hocc hs
  have hslot := h.saved_slot hocc hs
  obtain ⟨swap, stats, rfl⟩ := Pager.saveVictim_eq hs
  have hsaved : Pager.swapped { s with swap := swap, stats := stats } (s.pid o)
      (s.physical.frames f).virtualPage = s.physical.data f := by
    rw [Pager.swapped, hslot, ← hpid]
    split
    · rfl
    · rename_i hnot
      exact hretains.resolve_left fun hboth => hnot ⟨hboth.1, hboth.2, rfl, rfl⟩
  rw [Pager.evict, show ((Pager.physical _).frames f).ownerProcess = some o from howner,
    Option.getD_some, h'.view_vacate husers hsaved hkey]
  refine Pager.view_congr rfl (fun _ _ => rfl) fun hm => ?_
  rw [hslot, if_neg]
  rintro ⟨_, _, hpid', hv⟩
  have hq : o = q := halone o ho (hpid.symm.trans hpid'.symm)
  rw [← hq, hv, h.mapped_frame (show ⟨o, _⟩ ∈ s.cow.frames f by rw [husers]; simp)] at hm
  cases hm

/-! ## Copy-on-write -/

/-- Saving the readers of a page fills slots of readers only. -/
theorem Pager.Consistent.saveReaders_slot (writer : CowMapping) (data : PageData)
    (readers : List CowMapping) : ∀ s : Pager, s.Consistent →
      (∀ r ∈ readers, r.process ∈ s.processes) → ∀ pid v,
      (Pager.saveReaders writer data readers s).2.slot pid v = s.slot pid v ∨
        ((Pager.saveReaders writer data readers s).2.slot pid v = some data ∧
          ∃ r ∈ readers, r ≠ writer ∧ s.pid r.process = pid ∧ r.virtualPage = v) := by
  induction readers with
  | nil => exact fun s _ _ pid v => Or.inl rfl
  | cons r readers ih =>
    intro s h hreg pid v
    obtain ⟨hr, hreg'⟩ := List.forall_mem_cons.mp hreg
    unfold Pager.saveReaders
    split
    · refine (ih s h hreg' pid v).imp_right ?_
      rintro ⟨hs, r', hr', hrest⟩
      exact ⟨hs, r', List.mem_cons_of_mem r hr', hrest⟩
    · rename_i hne
      split
      · exact Or.inl rfl
      · rename_i s₁ hs
        have hslot := h.store_slot (h.live _ hr) hs pid v
        have h₁ := h.store hr hs
        obtain ⟨_, _, _, rfl⟩ := Pager.store_eq hs
        rcases ih _ h₁ hreg' pid v with hrest | ⟨hrest, r', hr', hrest'⟩
        · rw [hrest, hslot]
          split
          · rename_i hkey
            exact Or.inr ⟨rfl, r, List.mem_cons_self, hne, hkey.1.symm, hkey.2.symm⟩
          · exact Or.inl rfl
        · exact Or.inr ⟨hrest, r', List.mem_cons_of_mem r hr', hrest'⟩

/-- If there was room for all, every reader has the page in swap. -/
theorem Pager.Consistent.saveReaders_saved (writer : CowMapping) (data : PageData)
    (readers : List CowMapping) : ∀ s : Pager, s.Consistent →
      (∀ r ∈ readers, r.process ∈ s.processes) →
      (Pager.saveReaders writer data readers s).1 = true → ∀ r ∈ readers, r ≠ writer →
      (Pager.saveReaders writer data readers s).2.slot (s.pid r.process) r.virtualPage =
        some data := by
  induction readers with
  | nil => exact fun s _ _ _ r hr => absurd hr List.not_mem_nil
  | cons r readers ih =>
    intro s h hreg hsaved r' hr' hne'
    obtain ⟨hr, hreg'⟩ := List.forall_mem_cons.mp hreg
    unfold Pager.saveReaders at hsaved ⊢
    split at hsaved
    · rename_i hwriter
      rw [if_pos hwriter]
      rcases List.mem_cons.mp hr' with rfl | hin
      · exact absurd hwriter hne'
      · exact ih s h hreg' hsaved r' hin hne'
    · rename_i hwriter
      rw [if_neg hwriter]
      split at hsaved
      · cases hsaved
      · rename_i s₁ hs
        have hslot := h.store_slot (h.live _ hr) hs (s.pid r.process) r.virtualPage
        have h₁ := h.store hr hs
        obtain ⟨_, _, _, rfl⟩ := Pager.store_eq hs
        rcases List.mem_cons.mp hr' with rfl | hin
        · rcases Pager.Consistent.saveReaders_slot writer data readers _ h₁ hreg'
            (s.pid r'.process) r'.virtualPage with hsame | ⟨hdata, _⟩
          · rw [hsame, hslot, if_pos ⟨rfl, rfl⟩]
          · exact hdata
        · exact ih _ h₁ hreg' hsaved r' hin hne'

/-- The copy of a shared page looks like the page. -/
theorem Pager.Consistent.view_copy (h : s.Consistent) (hm : ⟨p, page⟩ ∈ s.cow.frames f)
    (hlen : 1 < (s.cow.frames f).length) (hg : s.physical.firstFree = some g)
    (hkey : q = p → Apart v page) :
    (((s.detach p page f).place p page g).fill g (s.physical.data f)).view q v = s.view q v := by
  obtain ⟨_, hfree, husers⟩ := h.firstFree hg
  have hcopied := h.copy_spec hm hlen husers (s.physical.data f)
  generalize ((s.detach p page f).place p page g).fill g (s.physical.data f) = copied at *
  by_cases hself : q = p ∧ pageKey v = pageKey page
  · obtain ⟨rfl, hk⟩ := hself
    rw [hkey rfl hk, Pager.view_resident (h.mapped_frame hm), Pager.view_resident (f := g),
      hcopied.data, Function.update_self]
    rw [hcopied.mapped]
    simp [rebind]
  · refine Pager.view_congr (by rw [hcopied.mapped, rebind, if_neg hself]) (fun k hk => ?_)
      fun _ => ?_
    · have hne : k ≠ g := by
        rintro rfl
        rw [h.occupied_of_mapped hk] at hfree
        cases hfree
      rw [hcopied.data, Function.update_of_ne hne]
    · rw [hcopied.pid, Pager.slot_congr hcopied.swap]

/-- The readers of a page before and after they are sent to swap. -/
theorem Pager.Consistent.view_saveReaders (h : s.Consistent) (writer : CowMapping)
    (data : PageData) (halone : ∀ r ∈ s.processes, s.pid r = s.pid q → r = q) :
    (Pager.saveReaders writer data (s.cow.frames f) s).2.view q v = s.view q v := by
  have hreg : ∀ r ∈ s.cow.frames f, r.process ∈ s.processes := fun r hr => h.registered hr
  have hslot := Pager.Consistent.saveReaders_slot writer data (s.cow.frames f) s h hreg
  obtain ⟨swap, stats, heq⟩ := s.saveReaders_eq writer data (s.cow.frames f)
  rw [heq] at hslot ⊢
  refine Pager.view_congr rfl (fun _ _ => rfl) fun hm => ?_
  rcases hslot (s.pid q) v with hsame | ⟨_, r, hr, _, hpid, hv⟩
  · exact hsame
  · -- a reader with the pid of `q` is `q`, and its page is resident
    have hq := halone r.process (hreg r hr) hpid
    rw [← hq, ← hv, h.mapped_frame hr] at hm
    cases hm

theorem Pager.Consistent.view_exclude (h : s.Consistent) (hm : ⟨p, page⟩ ∈ s.cow.frames f)
    (hsaved : (Pager.saveReaders ⟨p, page⟩ (s.physical.data f) (s.cow.frames f) s).1 = true)
    (hkey : Apart v page) (halone : ∀ r ∈ s.processes, s.pid r = s.pid q → r = q) :
    ((Pager.saveReaders ⟨p, page⟩ (s.physical.data f) (s.cow.frames f) s).2.exclude p page
      f).view q v = s.view q v := by
  have hreg : ∀ r ∈ s.cow.frames f, r.process ∈ s.processes := fun r hr => h.registered hr
  have hview := h.view_saveReaders (v := v) (f := f) ⟨p, page⟩ (s.physical.data f) halone
  have hslot := Pager.Consistent.saveReaders_saved ⟨p, page⟩ (s.physical.data f)
    (s.cow.frames f) s h hreg hsaved
  obtain ⟨swap, stats, heq⟩ := s.saveReaders_eq ⟨p, page⟩ (s.physical.data f) (s.cow.frames f)
  rw [heq] at hview hslot ⊢
  by_cases hlost : q ≠ p ∧ s.mapped q v = some f
  · obtain ⟨hne, hq⟩ := hlost
    obtain ⟨huser, hk⟩ := h.user_of_mapped hq
    rw [← h.user_page hm] at huser hk
    rw [Pager.view_resident hq, Pager.view_absent, hkey hk.symm]
    · have hin := hslot ⟨q, page⟩ huser (by simp [hne])
      exact congrArg (Option.getD · zeroPage) hin
    · simp only [Pager.exclude]
      rw [if_pos ⟨hne, hq⟩]
  · rw [← hview]
    refine Pager.view_congr ?_ (fun _ _ => rfl) fun _ => rfl
    simp only [Pager.exclude]
    rw [if_neg hlost]

/-- Resolving copy-on-write changes what nobody sees. -/
theorem Pager.Consistent.view_cowWrite (h : s.Consistent) (hw : s.Writable p page f)
    (hkey : q = p ∨ s.physical.firstFree = none → Apart v page) (halone : s.physical.firstFree = none →
      ∀ r ∈ s.processes, s.pid r = s.pid q → r = q) (moved : Bool) :
    (s.cowWrite p page f moved).2.view q v = s.view q v := by
  have hm : 1 < (s.cow.frames f).length → ⟨p, page⟩ ∈ s.cow.frames f := fun hlen =>
    hw.resolve_left (Nat.not_le.mpr hlen)
  refine Pager.cowWrite_rule (P := fun s' => s'.view q v = s.view q v) moved rfl
    (fun g hlen hg => ?_) (fun swap stats _ hfull _ hs => ?_) fun swap stats hlen hfull hs => ?_
  · exact h.view_copy (hm hlen) hlen hg fun e => hkey (Or.inl e)
  · have hview := h.view_saveReaders (v := v) (f := f) ⟨p, page⟩ (s.physical.data f) (halone hfull)
    rw [hs] at hview
    exact hview
  · have hview := h.view_exclude (v := v) (hm hlen) (by rw [hs]) (hkey (Or.inr hfull)) (halone hfull)
    rw [hs] at hview
    exact hview

/-! ## Accesses -/

theorem Pager.view_notify (s : Pager) (f : Nat) (isWrite : Bool) (q v : Nat) :
    (s.notify f isWrite).view q v = s.view q v :=
  Pager.view_same rfl rfl rfl rfl q v

theorem Pager.Consistent.view_accessed (h : s.Consistent)
    (hw : isWrite = true → s.Writable p page f)
    (hkey : q = p ∨ s.physical.firstFree = none → Apart v page)
    (halone : s.physical.firstFree = none → ∀ r ∈ s.processes, s.pid r = s.pid q → r = q)
    (moved recorded : Bool) :
    (s.resident p page f isWrite moved recorded).2.view q v = s.view q v := by
  refine Pager.resident_rule (P := fun s' => s'.view q v = s.view q v) recorded (fun _ => rfl)
    (fun hwrite => ?_) fun s' g h' => (s'.view_notify g isWrite q v).trans h'
  exact h.view_cowWrite (hw hwrite) hkey halone moved

/-- The victim of a page fault, if there is one, is not lost. -/
def Pager.RetainsVictim (s : Pager) : Prop :=
  s.physical.firstFree = none → ∀ f policy,
    replacementPolicyChooseVictim s.policy = some (f, policy) → f ≠ replacementInvalidFrame →
      s.Retains f

theorem Pager.Consistent.view_replace (h : s.Consistent) (hp : p ∈ s.processes)
    (hpage : page < 2 ^ 52) (hm : s.mapped p page = none) (hkey : Apart v page)
    (hkeys : ∀ f, (s.physical.frames f).occupied = true →
      Apart v (s.physical.frames f).virtualPage)
    (hretains : s.RetainsVictim) (hfull : s.physical.firstFree = none)
    (halone : ∀ r ∈ s.processes, s.pid r = s.pid q → r = q) (recorded : Bool) :
    (s.replace p page isWrite recorded).2.view q v = s.view q v := by
  have hchosen : ∀ policy, Pager.view { s with policy := policy } q v = s.view q v :=
    fun policy => Pager.view_same rfl rfl rfl rfl q v
  refine h.replace_rule (P := fun s' => s'.view q v = s.view q v) hm isWrite recorded
    (fun policy _ => hchosen policy) (fun f policy saved hv => ?_) fun s' dirty h' => h'
  have hview := hv.chosen.view_evict hv.occupied hv.sole (hretains hfull f policy hv.choose hv.valid)
    hv.victim (hkeys f hv.occupied) halone
  have hpid : (saved.evict f).pid = s.pid := by
    obtain ⟨swap, stats, rfl⟩ := Pager.saveVictim_eq hv.victim
    rfl
  have hload := hv.evicted.view_load (q := q) (hv.processes ▸ hp) hpage hv.lt hv.free hv.unmapped
    (fun _ => hkey) (fun e => Or.inl (halone p hp (by rw [← hpid]; exact e.symm)).symm) isWrite
  exact hload.trans (hview.trans (hchosen policy))

theorem Pager.Consistent.view_fault (h : s.Consistent) (hp : p ∈ s.processes)
    (hpage : page < 2 ^ 52) (hm : s.mapped p page = none)
    (hkey : q = p ∨ s.physical.firstFree = none → Apart v page)
    (hslot : s.pid q = s.pid p → q = p ∨ s.slot (s.pid p) page = none)
    (hfull : s.physical.firstFree = none → s.RetainsVictim ∧
      (∀ f, (s.physical.frames f).occupied = true → Apart v (s.physical.frames f).virtualPage) ∧
      ∀ r ∈ s.processes, s.pid r = s.pid q → r = q) (recorded : Bool) :
    (s.fault p page isWrite recorded).2.view q v = s.view q v := by
  have hcounted : s.countFault.Consistent := h.setStats _
  have hsame : s.countFault.view q v = s.view q v := Pager.view_same rfl rfl rfl rfl q v
  refine h.fault_rule (P := fun s' => s'.view q v = s.view q v) isWrite recorded
    (fun f _ hlt hfree => ?_) (fun hnone => ?_) fun s' h' => h'
  · have hload := hcounted.view_load hp hpage hlt hfree hm (fun e => hkey (Or.inl e)) hslot
      isWrite
    exact hload.trans hsame
  · obtain ⟨hretains, hkeys, halone⟩ := hfull hnone
    exact (hcounted.view_replace hp hpage hm (hkey (Or.inr hnone)) hkeys hretains hnone halone
      recorded).trans hsame

/-- An access to a page keeps the view of `q` on `v`. In a full memory this
takes that `q` shares its pid with no process and that the victim, if one
is needed, is not lost. -/
theorem Pager.Consistent.view_access (h : s.Consistent) (hp : 0 ≤ s.pid p) (hpage : page < 2 ^ 52)
    {answers : TlbAnswers} (had : s.Admits answers p page isWrite)
    (hkey : q = p ∨ s.physical.firstFree = none → Apart v page)
    (hslot : s.pid q = s.pid p → q = p ∨ s.slot (s.pid p) page = none)
    (hfull : s.physical.firstFree = none → (s.register p).Alone q ∧
      (answers.hit = none → s.mapped p page = none → s.RetainsVictim ∧
        ∀ f, (s.physical.frames f).occupied = true →
          Apart v (s.physical.frames f).virtualPage)) :
    (s.access answers p page isWrite).2.view q v = s.view q v := by
  have hc : ((s.register p).count isWrite).Consistent := (h.register hp).setStats _
  have hmem : p ∈ ((s.register p).count isWrite).processes := s.mem_register p
  obtain ⟨processes, stats, heq⟩ := s.counted_eq p isWrite
  have hsame : ((s.register p).count isWrite).view q v = s.view q v := by
    rw [heq]
    exact Pager.view_same rfl rfl rfl rfl q v
  have halone : s.physical.firstFree = none →
      ∀ r ∈ ((s.register p).count isWrite).processes, s.pid r = s.pid q → r = q := by
    intro hnone r hr hpid
    refine (hfull hnone).1 r hr ?_
    rw [Pager.register_eq]
    exact hpid
  rw [← hsame]
  rcases s.access_cases answers p page isWrite with ⟨f, recorded, hf, haccess⟩ |
    ⟨hhit, hm, haccess⟩
  · obtain ⟨_, hw⟩ := had f hf
    rw [haccess]
    rw [heq] at hc hmem halone ⊢
    exact hc.view_accessed hw hkey halone _ recorded
  · have hrest := fun hnone => (hfull hnone).2 hhit hm
    rw [haccess]
    rw [heq] at hc hmem halone ⊢
    exact hc.view_fault hmem hpage hm hkey hslot
      (fun hnone => ⟨(hrest hnone).1, (hrest hnone).2, halone hnone⟩) _

/-! ## Ownership -/

/-- The process is the only user of the frame its page is mapped to. -/
structure Pager.Owns (s : Pager) (p page f : Nat) : Prop where
  mapped : s.mapped p page = some f
  users : s.cow.frames f = [⟨p, page⟩]

theorem Pager.load_owns (s : Pager) (p page : Nat) (husers : s.cow.frames f = [])
    (isWrite : Bool) : (s.load p page f isWrite).Owns p page f := by
  obtain ⟨_, _, hmapped, hcow, _⟩ := s.load_eq p page f isWrite
  refine ⟨by rw [hmapped]; simp [rebind], ?_⟩
  rw [hcow]
  simp [cowManagerInsert, husers]

/-- A user of a frame with one user owns it. -/
theorem Pager.Consistent.owns (h : s.Consistent) (hm : s.mapped p page = some f)
    (hlen : (s.cow.frames f).length ≤ 1) (hkey : Apart (s.physical.frames f).virtualPage page) :
    s.Owns p page f := by
  obtain ⟨o, _, _, _, husers⟩ := h.sole_user (h.occupied_of_mapped hm) hlen
  obtain ⟨huser, hk⟩ := h.user_of_mapped hm
  refine ⟨hm, ?_⟩
  rw [husers, List.mem_singleton] at huser
  rw [husers, ← huser, hkey hk]

/-- The frame that copy-on-write gives a writer is the writer's own. -/
theorem Pager.Consistent.cowWrite_owns (h : s.Consistent) (hm : s.mapped p page = some f)
    (hw : s.Writable p page f) (hkey : Apart (s.physical.frames f).virtualPage page) (moved : Bool)
    (hg : (s.cowWrite p page f moved).1 = some g) : (s.cowWrite p page f moved).2.Owns p page g := by
  refine ⟨h.cowWrite_mapped hm hw moved hg, ?_⟩
  rcases Pager.cowWrite_some hg with ⟨hlen, rfl, hend⟩ | ⟨hlen, hfree, hend⟩ |
    ⟨_, _, rfl, swap, stats, hend⟩
  · rw [hend]
    exact (h.owns hm hlen hkey).users
  · have huser := hw.resolve_left (Nat.not_le.mpr hlen)
    obtain ⟨_, _, hnone⟩ := h.firstFree hfree
    have hne : g ≠ f := by
      rintro rfl
      rw [hnone] at huser
      cases huser
    obtain ⟨_, husers⟩ := h.detach_frames huser hlen hne
    rw [hend]
    simp [Pager.fill, Pager.place, cowManagerInsert, husers, hnone]
  · rw [hend]
    simp [Pager.exclude]

theorem Pager.Consistent.resident_owns (h : s.Consistent) (hm : s.mapped p page = some f)
    (hw : s.Writable p page f) (hkey : Apart (s.physical.frames f).virtualPage page)
    (moved recorded : Bool)
    (hok : (s.resident p page f true moved recorded).1.isError = false) :
    ∃ g, (s.resident p page f true moved recorded).2.Owns p page g ∧
      ((s.resident p page f true moved recorded).2.physical.frames g).dirty = true := by
  cases hg : (s.writable p page f true moved).1 with
  | none =>
    rw [Pager.resident_none hg] at hok
    cases hok
  | some g =>
    have howns : (s.cowWrite p page f moved).2.Owns p page g := h.cowWrite_owns hm hw hkey moved hg
    rw [Pager.resident_some hg] at hok ⊢
    cases recorded with
    | true =>
      refine ⟨g, ⟨howns.mapped, howns.users⟩, ?_⟩
      show (Function.update (s.cowWrite p page f moved).2.physical.frames g _ g).dirty = true
      rw [Function.update_self]
      simp [PhysicalFrame.touch]
    | false =>
      rw [if_neg Bool.false_ne_true] at hok
      cases hok

theorem Pager.Consistent.fault_owns (h : s.Consistent) (hm : s.mapped p page = none)
    {recorded : Bool} (hok : (s.fault p page isWrite recorded).1.isError = false) :
    ∃ g, (s.fault p page isWrite recorded).2.Owns p page g ∧
      ((s.fault p page isWrite recorded).2.physical.frames g).dirty = isWrite := by
  have herror : s.faultError.isError = true := by
    unfold Pager.faultError
    split <;> rfl
  have hdirty : ∀ (s : Pager) (f : Nat),
      ((s.load p page f isWrite).physical.frames f).dirty = isWrite := by
    intro s f
    rw [Pager.load_frames, Function.update_self]
    cases isWrite <;> rfl
  unfold Pager.fault at hok ⊢
  split at hok
  · rename_i f hf
    dsimp only at hok ⊢
    cases recorded with
    | true =>
      have howns := Pager.load_owns s.countFault p page (h.firstFree hf).2.2 isWrite
      exact ⟨f, ⟨howns.mapped, howns.users⟩, hdirty s.countFault f⟩
    | false =>
      rw [if_neg Bool.false_ne_true] at hok
      exact absurd hok (by rw [herror]; decide)
  · have hc : s.countFault.Consistent := h.setStats _
    obtain ⟨f, policy, hchoose, hvictim, hchosen⟩ := hc.chooseVictim
    have hfail : ∀ r : Pager, (s.countFault.faultError, r).1.isError = false → False := by
      intro r hr
      exact absurd hr (by rw [show s.countFault.faultError = s.faultError from rfl, herror]; decide)
    simp only [Pager.replace, hchoose] at hok ⊢
    split at hok
    · exact (hfail _ hok).elim
    · rename_i hcond
      rw [if_neg hcond]
      have hocc : (s.physical.frames f).occupied = true :=
        hvictim.resolve_left fun e => hcond (Or.inl e)
      have hlen : (s.cow.frames f).length ≤ 1 := Nat.le_of_not_lt fun e => hcond (Or.inr e)
      split at hok
      · exact (hfail _ hok).elim
      · rename_i saved hsaved
        cases recorded with
        | false =>
          rw [if_neg Bool.false_ne_true] at hok
          exact (hfail _ hok).elim
        | true =>
          have hsavedc := hchosen.saveVictim hocc hsaved
          obtain ⟨swap, stats, rfl⟩ := Pager.saveVictim_eq hsaved
          obtain ⟨hevicted, _, _, hfree, hcount⟩ := hsavedc.evicted hocc hlen hm
          have husers := hevicted.no_user (by rw [hcount]; exact h.frame_lt hocc) hfree
          have howns := Pager.load_owns _ p page husers isWrite
          exact ⟨f, ⟨howns.mapped, howns.users⟩, hdirty _ f⟩

/-- After a successful write access, the writer owns the frame of its page. -/
theorem Pager.Consistent.access_owns (h : s.Consistent) (hp : 0 ≤ s.pid p)
    {answers : TlbAnswers} (had : s.Admits answers p page true)
    (hhit : ∀ f, answers.hit = some f → s.mapped p page = some f)
    (hkeys : ∀ f, s.mapped p page = some f → Apart (s.physical.frames f).virtualPage page)
    (hok : (s.access answers p page true).1.isError = false) :
    ∃ g, (s.access answers p page true).2.Owns p page g ∧
      ((s.access answers p page true).2.physical.frames g).dirty = true := by
  have hc : ((s.register p).count true).Consistent := (h.register hp).setStats _
  obtain ⟨processes, stats, heq⟩ := s.counted_eq p true
  rw [heq] at hc
  have hresident : ∀ f moved recorded, s.mapped p page = some f → s.Writable p page f →
      (((s.register p).count true).resident p page f true moved recorded).1.isError = false →
      ∃ g, (((s.register p).count true).resident p page f true moved recorded).2.Owns p page g ∧
        ((((s.register p).count true).resident p page f true moved recorded).2.physical.frames
          g).dirty = true := by
    intro f moved recorded hm hw hok
    rw [heq] at hok ⊢
    exact hc.resident_owns hm hw (hkeys f hm) moved recorded hok
  cases hfound : answers.hit with
  | some f =>
    rw [Pager.access_hit hfound] at hok ⊢
    exact hresident f _ _ (hhit f hfound) ((had f (Or.inl hfound)).2 rfl) hok
  | none =>
    cases hm : s.mapped p page with
    | some f =>
      rw [Pager.access_walked hfound hm] at hok ⊢
      exact hresident f _ _ hm ((had f (Or.inr ⟨hfound, hm⟩)).2 rfl) hok
    | none =>
      rw [Pager.access_fault hfound hm, heq] at hok ⊢
      exact hc.fault_owns hm hok

/-! ## Processes -/

/-- A child sees what its parent has resident, and what the swap has
under its own pid. -/
theorem Pager.view_child (s : Pager) (p : Nat) (childPid : Int) (v : Nat) :
    (s.spawn p childPid).view s.nextProcess v =
      match s.mapped p v with
      | some f => s.physical.data f
      | none => s.swapped childPid v := by
  have hmapped : (s.spawn p childPid).mapped s.nextProcess v = s.mapped p v := by
    show Function.update s.mapped s.nextProcess (s.mapped p) s.nextProcess v = _
    rw [Function.update_self]
  have hpid : (s.spawn p childPid).pid s.nextProcess = childPid := Function.update_self _ _ _
  rw [Pager.view, hmapped, hpid]
  rfl

theorem Pager.view_spawn (hq : q ≠ s.nextProcess) (p : Nat) (childPid : Int) (v : Nat) :
    (s.spawn p childPid).view q v = s.view q v := by
  have hpid : (s.spawn p childPid).pid q = s.pid q := Function.update_of_ne hq _ _
  exact Pager.view_congr (congrFun (Function.update_of_ne hq _ _) v) (fun _ _ => rfl)
    fun _ => by rw [hpid]; rfl

theorem Pager.Consistent.forget_slot (h : s.Consistent) (hp : 0 ≤ s.pid p) (pid : Int) (v : Nat) :
    (s.forget p).slot pid v = if pid = s.pid p then none else s.slot pid v := by
  cases hswap : s.swap with
  | none =>
    have hnone : ∀ r : Pager, r.swap = none → r.slot pid v = none := fun r hr => by
      rw [Pager.slot, hr]
      rfl
    rw [hnone s hswap, hnone (s.forget p) (by rw [Pager.forget, hswap]; rfl), ite_self]
  | some swap =>
    obtain ⟨_, _, hcontent⟩ := swapRemoveProcess_spec (h.swap swap hswap).1 hp
    rw [Pager.slot_some hswap, Pager.slot_some (s := s.forget p) (by
      rw [Pager.forget, hswap, Option.map_some])]
    exact hcontent pid v

/-- What a release leaves of the frames and of the swap. -/
theorem Pager.Consistent.released (h : s.Consistent) (hp : 0 ≤ s.pid p) :
    ∃ s₁, s.Released p (List.range s.physical.frameCount) s₁ ∧ s.release p = s₁.forget p ∧
      ∀ pid v, (s.release p).slot pid v = if pid = s.pid p then none else s.slot pid v := by
  have hr := Pager.Consistent.releaseFrames p (List.range s.physical.frameCount) s h
  refine ⟨_, hr, rfl, fun pid v => ?_⟩
  have hslot := hr.consistent.forget_slot (by rw [hr.pid]; exact hp) pid v
  rw [hr.pid, Pager.slot_congr hr.swap] at hslot
  exact hslot

end VmSim
