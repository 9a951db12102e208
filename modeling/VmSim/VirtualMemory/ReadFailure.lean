/-
VmSim.VirtualMemory.ReadFailure — page faults whose slot cannot be read.

`failing` is a swap, a pager or a whole state while the next read of the
swap file fails. A fault that was given a free frame undoes all it did; a
fault that took a victim's frame leaves the page in it, all zero
(`Pager.faultUnread`).
-/
import VmSim.VirtualMemory.Refusals

namespace VmSim

open Lib

variable {w w' : World} {backdrop : Backdrop} {s s' : Pager} {tlb tlb' : Tlb}
  {p q page f v a k : Nat} {x : Process} {isWrite : Bool} {swap : Swap}

/-! ## A file that cannot be read -/

def Swap.failing (swap : Swap) : Swap := { swap with file := { swap.file with readable := false } }

def Swap.working (swap : Swap) : Swap := { swap with file := { swap.file with readable := true } }

def Pager.failing (s : Pager) : Pager := { s with swap := s.swap.map (·.failing) }

def Pager.working (s : Pager) : Pager := { s with swap := s.swap.map (·.working) }

theorem Swap.Works.failing_working (h : swap.Works) : swap.failing.working = swap := by
  obtain ⟨⟨bytes, length, readable, writable⟩, slots, slotCount, used, reads, writes⟩ := swap
  obtain ⟨rfl, _⟩ := h
  rfl

theorem Pager.Consistent.failing_working (h : s.Consistent) : s.failing.working = s := by
  have hswap : (s.swap.map (·.failing)).map (·.working) = s.swap := by
    cases hs : s.swap with
    | none => rfl
    | some swap => exact congrArg some (h.swap swap hs).2.failing_working
  show { s with swap := (s.swap.map (·.failing)).map (·.working) } = s
  rw [hswap]

theorem Swap.failing_content (swap : Swap) (pid : Int) (v : Nat) :
    swap.failing.content pid v = swap.content pid v := rfl

/-- Writing does not depend on it. -/
theorem swapWritePage_failing (swap : Swap) (pid : Int) (v : Nat) (data : PageData) :
    swapWritePage swap.failing pid v data =
      ((swapWritePage swap pid v data).1, (swapWritePage swap pid v data).2.failing) := by
  have hfind : swapFindPageSlot swap.failing pid v = swapFindPageSlot swap pid v := rfl
  have hfree : swapFindFreeSlot swap.failing = swapFindFreeSlot swap := rfl
  unfold swapWritePage
  rw [hfind, hfree]
  dsimp only
  repeat' split
  all_goals first | rfl | simp_all [Swap.failing]

theorem swapReadPage_failing (swap : Swap) (pid : Int) (v : Nat) :
    (swapReadPage swap.failing pid v).1.toOption = none ∧
      (swapReadPage swap.failing pid v).2 = swap.failing := by
  unfold swapReadPage
  split
  · exact ⟨rfl, rfl⟩
  · split
    · exact ⟨rfl, rfl⟩
    · split
      · exact ⟨rfl, rfl⟩
      · simp [Swap.failing, Except.toOption]

theorem Pager.store_failing_eq (s : Pager) (pid : Int) (v : Nat) (data : PageData) :
    s.failing.store pid v data = match s.swap.map (·.failing) with
      | none => none
      | some swap =>
        if (swapWritePage swap pid v data).1 = 0 then
          some { s.failing with
            swap := some (swapWritePage swap pid v data).2
            stats := { s.stats with swapWrites := increment s.stats.swapWrites } }
        else none := rfl

theorem Pager.store_failing (s : Pager) (pid : Int) (v : Nat) (data : PageData) :
    s.failing.store pid v data = (s.store pid v data).map (·.failing) := by
  rw [Pager.store_failing_eq, Pager.store]
  cases s.swap with
  | none => rfl
  | some swap =>
    simp only [Option.map_some, swapWritePage_failing]
    split <;> rfl

theorem Pager.saveVictim_failing (s : Pager) (f : Nat) :
    s.failing.saveVictim f = (s.saveVictim f).map (·.failing) := by
  have hsaveVictim : s.failing.saveVictim f =
      if !(s.physical.frames f).dirty ∨ (s.swap.map (·.failing)).isNone then some s.failing
      else s.failing.store (s.physical.frames f).ownerPid (s.physical.frames f).virtualPage
        (s.physical.data f) := rfl
  rw [hsaveVictim, Pager.saveVictim, Option.isNone_map, Pager.store_failing]
  split <;> rfl

/-- A page whose slot cannot be read. -/
theorem World.Shows.restoreFails (hs : w.Shows backdrop s.failing tlb) (hx : backdrop p = some x)
    (hslot : s.slot (s.pid p) page ≠ none) (f : Nat) :
    Comp.Ends (virtualMemoryRestorePage p page f) w fun r w' =>
      r = none ∧ w'.Shows backdrop s.failing tlb := by
  unfold virtualMemoryRestorePage
  refine hs.get.bindEnds fun r w₁ hget => ?_
  obtain ⟨hs₁, rfl⟩ := hget
  cases hsw : s.swap with
  | none =>
    rw [Pager.slot, hsw] at hslot
    exact absurd rfl hslot
  | some swap =>
    have hfailing : s.failing.swap = some swap.failing := by
      rw [show s.failing.swap = s.swap.map (·.failing) from rfl, hsw]
      rfl
    rw [hs₁.swap, hfailing]
    refine (hs₁.getPid hx).bindEnds fun pid w₂ h₂ => ?_
    obtain ⟨hpid, hs₂⟩ := h₂
    rw [hpid, show s.failing.pid p = s.pid p from rfl, swapContainsPage_iff,
      Swap.failing_content, ← Pager.slot_some hsw, Option.isSome_iff_ne_none.mpr hslot]
    obtain ⟨hcode, hsame⟩ := swapReadPage_failing swap (s.pid p) page
    refine (hs₂.swapStep hfailing (swapReadPage · (s.pid p) page)).bindEnds fun r w₃ h₃ => ?_
    obtain ⟨rfl, hs₃⟩ := h₃
    rw [hsame, ← hfailing] at hs₃
    rw [hcode]
    exact Comp.Ends.fail ⟨rfl, hs₃⟩

/-! ## Page faults -/

/-- A replacement whose page cannot be restored. -/
def Pager.replaceUnread (s : Pager) (p page : Nat) : Pager :=
  match replacementPolicyChooseVictim s.policy with
  | none => s
  | some (f, policy) =>
    let s := { s with policy := policy }
    if f = replacementInvalidFrame ∨ 1 < (s.cow.frames f).length then s
    else
      match s.saveVictim f with
      | none => s
      | some saved => (saved.evict f).place p page f

/-- A page fault whose page cannot be restored. A free frame is given
back. -/
def Pager.faultUnread (s : Pager) (p page : Nat) : Pager :=
  match s.physical.firstFree with
  | some f => (s.countFault.place p page f).vacate p page f
  | none => s.countFault.replaceUnread p page

def Pager.accessUnread (s : Pager) (p page : Nat) (isWrite : Bool) : Pager :=
  ((s.register p).count isWrite).faultUnread p page

/-- What such a fault leaves behind. -/
def World.Unread (w' : World) (backdrop : Backdrop) (s : Pager) (tlb : Tlb) (k p page : Nat)
    (s' : Pager) : Prop :=
  ∃ tlb', w'.Shows backdrop s'.failing tlb' ∧ s.Traced tlb k p page s' tlb'

/-- The free frame is given back: the page is unmapped, and the frame is
free again. -/
theorem World.Shows.loadFreeFails (h : s.Consistent) (hx : backdrop p = some x)
    (hs : w.Shows backdrop (s.failing.allocated p (addressPageNumber a) f) tlb)
    (hf : f < s.physical.frameCount) (hfree : (s.physical.frames f).occupied = false)
    (hp : p ∈ s.processes) (ha : a < wordSize) (hm : s.mapped p (addressPageNumber a) = none)
    (hslot : s.slot (s.pid p) (addressPageNumber a) ≠ none) (isWrite : Bool) :
    Comp.Ends (virtualMemoryLoadFreeFrame p a (addressPageNumber a) f isWrite) w fun r w' =>
      r = none ∧ w'.Shows backdrop ((s.place p (addressPageNumber a) f).vacate p
        (addressPageNumber a) f).failing tlb := by
  have hplaced := h.place hp (addressPageNumber_lt ha) hf hfree hm
  have hocc : ((s.place p (addressPageNumber a) f).physical.frames f).occupied = true := by
    simp [Pager.place_frames, PhysicalFrame.assigned]
  unfold virtualMemoryLoadFreeFrame
  refine (hs.getTable hx).bindEnds fun table w₁ h₁ => ?_
  obtain ⟨rfl, hs₁⟩ := h₁
  refine World.Shows.placeFree s.failing.swap h hx hs₁ hf hfree fun w₂ hs₂ => ?_
  have hslot' : (s.place p (addressPageNumber a) f).slot
      ((s.place p (addressPageNumber a) f).pid p) (addressPageNumber a) ≠ none := hslot
  have hs₂' : w₂.Shows backdrop (s.place p (addressPageNumber a) f).failing tlb := hs₂
  refine Comp.Ends.bind (P := fun r w' => r = none ∧ w'.Shows backdrop
    ((s.place p (addressPageNumber a) f).vacate p (addressPageNumber a) f).failing tlb)
    (Comp.Ends.onFailure (hs₂'.restoreFails hx hslot' f) (fun _ _ hc => by cases hc.1)
      fun w₃ h₃ => ?_) (fun _ _ hc => by cases hc.1) fun _ hc => hc
  refine (h₃.2.policyStep (replacementPolicyOnEvict · f)).bindEnds fun _ w₄ h₄ => ?_
  refine (h₄.2.cowStep (cowManagerRemoveMapping · f p (addressPageNumber a))).bindEnds
    fun _ w₅ h₅ => ?_
  have hbound : rebind s.mapped p (addressPageNumber a) (some f) p (addressPageNumber a) ≠
      none := by
    simp [rebind]
  refine Comp.Returns.bindEnds (P := fun _ w' => w'.Shows backdrop
    { (s.place p (addressPageNumber a) f).failing with
      policy := (replacementPolicyOnEvict (s.place p (addressPageNumber a) f).policy f).2
      cow := (cowManagerRemoveMapping (s.place p (addressPageNumber a) f).cow f p
        (addressPageNumber a)).2
      mapped := rebind (s.place p (addressPageNumber a) f).mapped p (addressPageNumber a) none } tlb)
    ((h₅.2.unmap hx hbound).ends fun _ _ hc => hc) fun _ w₆ hs₆ => ?_
  have hrelease : physicalMemoryReleaseFrame (s.place p (addressPageNumber a) f).physical f =
      (0, ((s.place p (addressPageNumber a) f).vacate p (addressPageNumber a) f).physical) := by
    have hin : f < (s.place p (addressPageNumber a) f).physical.frameCount := hf
    rw [physicalMemoryReleaseFrame, if_neg (Nat.not_le.mpr hin), if_neg (by simp [hocc])]
    rfl
  refine (hs₆.physicalStep (physicalMemoryReleaseFrame · f)).ends fun code w₇ h₇ => ⟨rfl, ?_⟩
  have hs₇ := h₇.2
  simp only [Pager.failing, hrelease] at hs₇
  exact hs₇

/-- A trace with nothing new in it but a translation dropped. -/
theorem Pager.traced_dropped (htlb : tlb.Wf) (hocc : (s.physical.frames f).occupied = true)
    {o : Nat} (hpo : 0 ≤ s.pid o) (hmiss : ∀ g, ¬ tlb.Holds (s.pid p) page g)
    (hmapped : s'.mapped =
      rebind (rebind s.mapped o (s.physical.frames f).virtualPage none) p page (some f)) :
    s.Traced tlb 0 p page s'
      (tlbInvalidate tlb (s.pid o) (s.physical.frames f).virtualPage).2 := by
  refine (htlb.became.invalidate hpo _).mono (Nat.le_refl 0) fun pid v g hkept => ?_
  obtain ⟨hother, hold⟩ := hkept
  refine Or.inr ⟨hold, fun pages hkeys hv hpage hin q hq => ?_⟩
  have hnot : ¬ (q = p ∧ pageKey v = pageKey page) := by
    rintro ⟨rfl, hk⟩
    rw [← hq, hkeys v page hv hpage hk] at hold
    exact hmiss g hold
  have hvictim : ¬ (q = o ∧ pageKey v = pageKey (s.physical.frames f).virtualPage) := by
    rintro ⟨rfl, hk⟩
    exact hother ⟨hq.symm, hkeys v _ hv (hin f hocc) hk⟩
  rw [hmapped, rebind, if_neg hnot, rebind, if_neg hvictim]

theorem World.Shows.replaceFails (h : s.Consistent) (hs : w.Shows backdrop s.failing tlb)
    (hx : backdrop p = some x) (hp : p ∈ s.processes)
    (hm : s.mapped p (addressPageNumber a) = none) (htlb : tlb.Wf)
    (hmiss : ∀ g, ¬ tlb.Holds (s.pid p) (addressPageNumber a) g)
    (hslot : s.slot (s.pid p) (addressPageNumber a) ≠ none) (isWrite : Bool) :
    Comp.Ends (virtualMemoryReplacePage p a (addressPageNumber a) isWrite) w fun r w' =>
      r = none ∧ w'.Unread backdrop s tlb 0 p (addressPageNumber a)
        (s.replaceUnread p (addressPageNumber a)) := by
  obtain ⟨f, policy, hchoose, hvictim, hchosen⟩ := h.chooseVictim
  -- a failure before anything was moved
  have hstop : ∀ w' : World, w'.Shows backdrop (Pager.failing { s with policy := policy }) tlb →
      s.replaceUnread p (addressPageNumber a) = { s with policy := policy } →
      w'.Unread backdrop s tlb 0 p (addressPageNumber a)
        (s.replaceUnread p (addressPageNumber a)) := by
    intro w' hs' heq
    rw [heq]
    exact ⟨tlb, hs', Pager.traced_same htlb rfl p _⟩
  refine World.Shows.chooseVictim s.failing.swap h hs hchoose hvictim
    (fun hcond w' hs' => ⟨rfl, hstop w' hs' ?_⟩) fun hcond hocc o howner w₃ hs₃ => ?_
  · simp only [Pager.replaceUnread, hchoose]
    rw [if_pos hcond]
  have hf := h.frame_lt hocc
  have hlen : (s.cow.frames f).length ≤ 1 := Nat.le_of_not_lt (not_or.mp hcond).2
  obtain ⟨o', howner', hpid, ho, _⟩ := h.sole_user hocc hlen
  rw [howner] at howner'
  cases howner'
  have hreplace : s.replaceUnread p (addressPageNumber a) =
      match Pager.saveVictim { s with policy := policy } f with
      | none => { s with policy := policy }
      | some saved => (saved.evict f).place p (addressPageNumber a) f := by
    simp only [Pager.replaceUnread, hchoose]
    rw [if_neg hcond]
  have hs₃' : w₃.Shows backdrop (Pager.failing { s with policy := policy }) tlb := hs₃
  have hsave := hs₃'.saveVictim (f := f) hf hocc
  rw [Pager.saveVictim_failing] at hsave
  cases hsaved : Pager.saveVictim { s with policy := policy } f with
  | none =>
    rw [hsaved] at hsave hreplace
    exact hsave.bind (fun _ _ hc => by cases hc.1) fun w' hc => ⟨rfl, hstop w' hc.2 hreplace⟩
  | some saved =>
    rw [hsaved] at hsave hreplace
    have hconsistent := hchosen.saveVictim hocc hsaved
    have hslot' : saved.slot (s.pid p) (addressPageNumber a) ≠ none := by
      rw [hchosen.saved_slot hocc hsaved]
      split
      · exact Option.some_ne_none _
      · exact hslot
    obtain ⟨swap, stats, rfl⟩ := Pager.saveVictim_eq hsaved
    refine hsave.bind (fun _ w₄ hc => ?_) fun _ hc => by cases hc.1
    refine World.Shows.placeSaved _ hconsistent hc.2 hx hp hm hocc hlen howner fun w₅ hs₅ => ?_
    have hs₅' : w₅.Shows backdrop (Pager.failing ((Pager.evict { s with
      policy := policy, swap := swap, stats := stats } f).place p (addressPageNumber a) f))
      (tlbInvalidate tlb (s.physical.frames f).ownerPid (s.physical.frames f).virtualPage).2 := hs₅
    refine Comp.Ends.bind (hs₅'.restoreFails hx hslot' f) (fun _ _ hc => by cases hc.1)
      fun w₆ h₆ => ⟨rfl, ?_⟩
    rw [hreplace]
    refine ⟨_, h₆.2, ?_⟩
    have htrace : s.Traced tlb 0 p (addressPageNumber a) ((Pager.evict { s with
        policy := policy, swap := swap, stats := stats } f).place p (addressPageNumber a) f) _ :=
      Pager.traced_dropped htlb hocc (h.live o ho) hmiss
        (by rw [Pager.place, Pager.evict, howner]; rfl)
    rw [hpid]
    exact htrace

/-- Mapping a page that was not mapped, and unmapping it again. -/
theorem Pager.Consistent.undo_mapped (h : s.Consistent) (hm : s.mapped p page = none) (f : Nat) :
    ((s.place p page f).vacate p page f).mapped = s.mapped := by
  show rebind (rebind s.mapped p page (some f)) p page none = s.mapped
  funext q v
  unfold rebind
  split
  · rename_i hkey
    rw [hkey.1, h.mapped_key hkey.2, hm]
  · rfl

theorem Pager.replaceUnread_swap (s : Pager) (p page : Nat) :
    (s.replaceUnread p page).swap.isSome = s.swap.isSome := by
  unfold Pager.replaceUnread
  split
  · rfl
  · dsimp only
    split
    · rfl
    · split
      · rfl
      · rename_i policy _ _ _ saved hsaved
        exact (show saved.swap.isSome = _ from
          Pager.saveVictim_swap (s := { s with policy := policy }) hsaved)

theorem Pager.faultUnread_swap (s : Pager) (p page : Nat) :
    (s.faultUnread p page).swap.isSome = s.swap.isSome := by
  unfold Pager.faultUnread
  split
  · rfl
  · exact Pager.replaceUnread_swap s.countFault p page

theorem World.Shows.faultFails (h : s.Consistent) (hs : w.Shows backdrop s.failing tlb)
    (hx : backdrop p = some x) (hp : p ∈ s.processes) (ha : a < wordSize)
    (hm : s.mapped p (addressPageNumber a) = none) (htlb : tlb.Wf)
    (hmiss : ∀ g, ¬ tlb.Holds (s.pid p) (addressPageNumber a) g)
    (hslot : s.slot (s.pid p) (addressPageNumber a) ≠ none) (isWrite : Bool) :
    Comp.Returns (virtualMemoryAccessFault p (s.pid p) a (addressPageNumber a) isWrite) w
      fun result w' => result = .swapError ∧ w'.Unread backdrop s tlb 0 p (addressPageNumber a)
        (s.faultUnread p (addressPageNumber a)) := by
  have hcounted : s.countFault.Consistent := h.setStats _
  unfold virtualMemoryAccessFault
  refine Comp.Returns.bind (P := fun _ w' => w'.Shows backdrop s.countFault.failing tlb)
    hs.statsStep fun _ w₁ hs₁ => ?_
  refine (hs₁.physicalStep (physicalMemoryAllocateFrame · p (s.pid p)
    (addressPageNumber a))).bind fun allocation w₂ h₂ => ?_
  obtain ⟨rfl, hs₂⟩ := h₂
  have halloc : physicalMemoryAllocateFrame s.countFault.failing.physical p (s.pid p)
      (addressPageNumber a) = _ := physicalMemoryAllocateFrame_eq h.count_lt h.freeCount p
    (h.live p hp) (addressPageNumber a)
  rw [halloc] at hs₂ ⊢
  have hsome : s.swap.isSome = true := by
    cases hsw : s.swap with
    | none =>
      rw [Pager.slot, hsw] at hslot
      exact absurd rfl hslot
    | some swap => rfl
  -- the result code of a load or a replacement that failed
  have hresult : ∀ (w' : World), w'.Unread backdrop s tlb 0 p (addressPageNumber a)
      (s.faultUnread p (addressPageNumber a)) → Comp.Returns (do
        let w ← Comp.get
        return virtualMemoryFaultError w) w' fun result w'' => result = .swapError ∧
          w''.Unread backdrop s tlb 0 p (addressPageNumber a)
            (s.faultUnread p (addressPageNumber a)) := by
    intro w' hend
    obtain ⟨tlb', hs', htrace⟩ := hend
    refine hs'.get.bind fun v w'' hget => ?_
    obtain ⟨hs'', rfl⟩ := hget
    have hfailing : (s.faultUnread p (addressPageNumber a)).failing.swap.isSome = true := by
      show ((s.faultUnread p (addressPageNumber a)).swap.map (·.failing)).isSome = true
      rw [Option.isSome_map, s.faultUnread_swap, hsome]
    refine Comp.Returns.pure ⟨?_, tlb', hs'', htrace⟩
    rw [virtualMemoryFaultError, hs''.swap, hfailing]
    rfl
  cases hfree : s.physical.firstFree with
  | some f =>
    obtain ⟨hf, hocc, _⟩ := h.firstFree hfree
    have hfault : s.faultUnread p (addressPageNumber a) =
        (s.countFault.place p (addressPageNumber a) f).vacate p (addressPageNumber a) f := by
      simp only [Pager.faultUnread, hfree]
    simp only [hfree] at hs₂ ⊢
    refine Comp.Returns.bind (World.Shows.loadFreeFails hcounted hx hs₂ hf hocc hp ha hm hslot
      isWrite) fun r w₃ hend => ?_
    obtain ⟨rfl, hs₃⟩ := hend
    refine hresult w₃ ⟨tlb, by rw [hfault]; exact hs₃, ?_⟩
    rw [hfault]
    exact Pager.traced_same htlb (hcounted.undo_mapped hm f) p _
  | none =>
    have hfault : s.faultUnread p (addressPageNumber a) =
        s.countFault.replaceUnread p (addressPageNumber a) := by
      simp only [Pager.faultUnread, hfree]
    simp only [hfree] at hs₂ ⊢
    refine Comp.Returns.bind (World.Shows.replaceFails hcounted hs₂ hx hp hm htlb hmiss hslot
      isWrite) fun r w₃ hend => ?_
    obtain ⟨rfl, tlb', hs₃, htrace⟩ := hend
    refine hresult w₃ ?_
    rw [hfault]
    exact ⟨tlb', hs₃, htrace⟩

/-- An access to a page that is not resident, while its slot cannot be
read. -/
theorem World.Shows.accessFails (h : s.Consistent) (hs : w.Shows backdrop s.failing tlb)
    (hp : 0 ≤ s.pid p) (ha : a < wordSize) (accessType : VirtualMemoryAccessType)
    (hm : s.mapped p (addressPageNumber a) = none) (htlb : tlb.Wf)
    (hmiss : tlb.found (s.pid p) (addressPageNumber a) = none)
    (hslot : s.slot (s.pid p) (addressPageNumber a) ≠ none) :
    Comp.Returns (virtualMemoryAccess p a accessType) w fun result w' =>
      result = .swapError ∧ ∃ levels, w'.Unread (backdrop.looked none levels) s tlb 1 p
        (addressPageNumber a)
        (s.accessUnread p (addressPageNumber a) (decide (accessType = .write))) := by
  obtain ⟨x, hx⟩ := hs.process_of_pid hp
  have hlooked := htlb.became.lookup (s.pid p) (addressPageNumber a)
  refine hs.accessPaths hx accessType (fun f _ hfound => ?_) (fun f _ _ _ hf => ?_)
    fun levels w₁ _ _ _ hs₁ => ?_
  · rw [show s.failing.pid p = s.pid p from rfl, hmiss] at hfound
    cases hfound
  · rw [show s.failing.mapped p _ = s.mapped p _ from rfl, hm] at hf
    cases hf
  · generalize decide (accessType = .write) = isWrite at hs₁ ⊢
    have hcounted : (s.failing.register p).count isWrite =
        ((s.register p).count isWrite).failing := by
      unfold Pager.register
      rw [show s.failing.processes = s.processes from rfl]
      split <;> rfl
    have hc : ((s.register p).count isWrite).Consistent := (h.register hp).setStats _
    have hmem : p ∈ ((s.register p).count isWrite).processes := s.mem_register p
    rw [hcounted] at hs₁
    show Comp.Returns (virtualMemoryAccessFault p (s.pid p) a _ isWrite) w₁ fun result w' =>
      result = .swapError ∧ ∃ levels, w'.Unread (backdrop.looked none levels) s tlb 1 p _
        (((s.register p).count isWrite).faultUnread p _)
    obtain ⟨hpids, hmaps, hphysical, hswap⟩ : ((s.register p).count isWrite).pid = s.pid ∧
        ((s.register p).count isWrite).mapped = s.mapped ∧
        ((s.register p).count isWrite).physical = s.physical ∧
        ((s.register p).count isWrite).swap = s.swap := by
      rw [Pager.register_eq]
      exact ⟨rfl, rfl, rfl, rfl⟩
    generalize (s.register p).count isWrite = counted at *
    have hmiss' : ∀ g, ¬ (tlb.looked (s.pid p) (addressPageNumber a)).Holds
        (counted.pid p) (addressPageNumber a) g := fun g hh =>
      tlbLookup_none hp hmiss g (by
        rw [← hpids]
        exact (tlbLookup_holds _ _ _ _ _).mp hh)
    have hfault := World.Shows.faultFails hc hs₁ hx hmem ha (by rw [hmaps]; exact hm) hlooked.wf
      hmiss' (by rw [hpids, Pager.slot_congr hswap]; exact hslot) isWrite
    rw [hpids] at hfault
    refine hfault.mono fun result w₂ h₂ => ⟨h₂.1, levels, ?_⟩
    obtain ⟨tlb', hs₂, ht⟩ := h₂.2
    exact ⟨tlb', hs₂, (ht.of_same hpids hmaps hphysical).after_lookup htlb⟩

/-! ## What they leave -/

/-- The swap does not take the page of a victim. -/
def Pager.Unsaved (s : Pager) (f : Nat) : Prop :=
  (s.physical.frames f).dirty = true ∧ ∃ swap, s.swap = some swap ∧
    (swapWritePage swap (s.physical.frames f).ownerPid (s.physical.frames f).virtualPage
      (s.physical.data f)).1 ≠ 0

theorem Pager.saveVictim_none : s.saveVictim f = none ↔ s.Unsaved f := by
  unfold Pager.saveVictim Pager.Unsaved Pager.store
  cases (s.physical.frames f).dirty with
  | false => simp
  | true =>
    cases s.swap with
    | none => simp
    | some swap => simp

/-- A fault is refused before the slot of the page is read: no frame is
free, and no victim can be saved. -/
def Pager.Denied (s : Pager) : Prop :=
  s.physical.firstFree = none ∧ ∃ f policy,
    replacementPolicyChooseVictim s.policy = some (f, policy) ∧
      ((f = replacementInvalidFrame ∨ 1 < (s.cow.frames f).length) ∨ s.Unsaved f)

/-- The end of such a fault: nothing was moved, or a victim made room for
the page. -/
theorem Pager.Consistent.faultUnread_cases (h : s.Consistent) (hp : p ∈ s.processes)
    (hpage : page < 2 ^ 52) (hm : s.mapped p page = none) :
    (s.faultUnread p page).Consistent ∧ s.Evolves page (s.faultUnread p page) ∧
      ((s.physical.firstFree ≠ none ∨ s.Denied) ∧
          (s.faultUnread p page).mapped = s.mapped ∧ (s.faultUnread p page).swap = s.swap ∨
        ¬(s.physical.firstFree ≠ none ∨ s.Denied) ∧
          (s.faultUnread p page).mapped p page ≠ none) := by
  have hcounted : s.countFault.Consistent := h.setStats _
  have hevolved : s.Evolves page s.countFault :=
    Pager.evolves_of_frames rfl rfl rfl rfl rfl rfl
  unfold Pager.faultUnread
  cases hfree : s.physical.firstFree with
  | some f =>
    obtain ⟨hf, hocc, husers⟩ := h.firstFree hfree
    have hplaced := hcounted.place hp hpage hf hocc hm
    have hsole : (s.countFault.place p page f).cow.frames f = [⟨p, page⟩] := by
      have hnone : s.countFault.cow.frames f = [] := husers
      simp [Pager.place, cowManagerInsert, hnone]
    exact ⟨hplaced.vacate hsole, hevolved.trans ((s.countFault.evolves_place p page f).trans
      (Pager.evolves_vacate _ p page f page)),
      Or.inl ⟨Or.inl (Option.some_ne_none f), hcounted.undo_mapped hm f, rfl⟩⟩
  | none =>
    obtain ⟨f, policy, hchoose, hvictim, hchosen⟩ := hcounted.chooseVictim
    have hdenied : s.Denied ↔
        (f = replacementInvalidFrame ∨ 1 < (s.countFault.cow.frames f).length) ∨
          Pager.saveVictim { s.countFault with policy := policy } f = none := by
      rw [Pager.saveVictim_none]
      have hchoose : replacementPolicyChooseVictim s.policy = some (f, policy) := hchoose
      constructor
      · rintro ⟨_, f', policy', hchoose', hwhy⟩
        rw [hchoose] at hchoose'
        cases hchoose'
        exact hwhy
      · exact fun hwhy => ⟨hfree, f, policy, hchoose, hwhy⟩
    have hkept : s.Evolves page { s.countFault with policy := policy } :=
      hevolved.trans (Pager.evolves_of_frames rfl rfl rfl rfl rfl rfl)
    rw [hdenied]
    simp only [Pager.replaceUnread, hchoose, ne_eq, not_true_eq_false, false_or]
    by_cases hcond : f = replacementInvalidFrame ∨ 1 < (s.countFault.cow.frames f).length
    · rw [if_pos hcond]
      exact ⟨hchosen, hkept, Or.inl ⟨Or.inl hcond, rfl, rfl⟩⟩
    · rw [if_neg hcond]
      obtain ⟨hvalid, hlen⟩ := not_or.mp hcond
      have hocc := hvictim.resolve_left hvalid
      cases hsaved : Pager.saveVictim { s.countFault with policy := policy } f with
      | none => exact ⟨hchosen, hkept, Or.inl ⟨Or.inr rfl, rfl, rfl⟩⟩
      | some saved =>
        have hsavedc := hchosen.saveVictim hocc hsaved
        have hsavedE := hkept.trans (Pager.evolves_saveVictim hsaved page)
        obtain ⟨swap, stats, rfl⟩ := Pager.saveVictim_eq hsaved
        obtain ⟨hevicted, hprocesses, hnone, hfree', hcount⟩ :=
          hsavedc.evicted hocc (Nat.le_of_not_lt hlen) hm
        refine ⟨hevicted.place (by rw [hprocesses]; exact hp) hpage
          (by rw [hcount]; exact h.frame_lt hocc) hfree' hnone,
          hsavedE.trans ((Pager.evolves_evict _ f page).trans (Pager.evolves_place _ p page f)),
          Or.inr ⟨fun hwhy => hwhy.elim hcond fun e => (by cases e), ?_⟩⟩
        simp [Pager.place, rebind]

/-! ## Runs -/

def World.failing (w : World) : World :=
  { w with memory := { w.memory with swap := w.memory.swap.map (·.failing) } }

def World.working (w : World) : World :=
  { w with memory := { w.memory with swap := w.memory.swap.map (·.working) } }

/-- A call, and whether the swap file can be read during it. -/
structure Attempt where
  call : Call
  readable : Bool

def World.attempt (w : World) (attempt : Attempt) : Option (Reply × World) :=
  if attempt.readable then w.step attempt.call
  else (w.failing.step attempt.call).map fun (reply, w') => (reply, w'.working)

/-- A call has to restore a page. -/
def World.Restores (w : World) (call : Call) : Prop :=
  match call.target with
  | some (p, page) => w.pager.mapped p page = none ∧ w.pager.slot (w.pager.pid p) page ≠ none
  | none => False

instance (w : World) (call : Call) : Decidable (w.Restores call) := by
  unfold World.Restores
  split <;> infer_instance

/-- A read can fail only where a page has to be restored. -/
def World.Attempts (w : World) (attempt : Attempt) : Prop :=
  w.Allows attempt.call ∧ (attempt.readable = false → w.Restores attempt.call)

instance (w : World) (attempt : Attempt) : Decidable (w.Attempts attempt) := by
  unfold World.Attempts
  infer_instance

/-- The state shown by one whose file cannot be read, once it can. -/
theorem World.Shows.working (hs : w'.Shows backdrop s'.failing tlb') (hc : s'.Consistent) :
    w'.working.heap.Sound ∧ w'.working.pager = s' ∧ w'.working.memory.tlb = tlb' := by
  refine ⟨hs.sound, ?_, hs.tlb_eq⟩
  rw [← hc.failing_working, ← hs.pager]
  rfl

/-- A call that has to restore a page while the swap cannot be read. -/
theorem World.Coherent.unread (h : w.Coherent (· < 2 ^ 36)) {call : Call}
    (ha : w.pager.Allows (· < 2 ^ 36) call) (ht : call.target = some (p, page))
    (hm : w.pager.mapped p page = none) (hslot : w.pager.slot (w.pager.pid p) page ≠ none) :
    ∃ reply w' isWrite, w.attempt ⟨call, false⟩ = some (reply, w') ∧
      (reply = .result .swapError ∨ reply = .byte none ∨ reply = .status false) ∧
      w'.pager = w.pager.accessUnread p page isWrite ∧ w'.Coherent (· < 2 ^ 36) := by
  have hc := h.wf.consistent
  obtain ⟨hp, halone, hpage⟩ := ha.target ht
  have hshows : w.failing.Shows w.backdrop w.pager.failing w.memory.tlb :=
    ⟨h.wf.sound, rfl, rfl, rfl⟩
  have hmiss : w.memory.tlb.found (w.pager.pid p) page = none := by
    cases hfound : w.memory.tlb.found (w.pager.pid p) page with
    | none => rfl
    | some f =>
      have hhit : w.hit call = some f := by
        rw [World.hit, ht]
        exact hfound
      rw [h.hit_mapped ha ht hhit] at hm
      cases hm
  -- what the access leaves is what the call leaves
  have hend : ∀ {w₁ : World} {isWrite : Bool} {levels : Nat} {reply : Reply},
      w.failing.step call = some (reply, w₁) →
      (reply = .result .swapError ∨ reply = .byte none ∨ reply = .status false) →
      w₁.Unread (w.backdrop.looked none levels) w.pager w.memory.tlb 1 p page
        (w.pager.accessUnread p page isWrite) →
      ∃ reply w' isWrite, w.attempt ⟨call, false⟩ = some (reply, w') ∧
        (reply = .result .swapError ∨ reply = .byte none ∨ reply = .status false) ∧
        w'.pager = w.pager.accessUnread p page isWrite ∧ w'.Coherent (· < 2 ^ 36) := by
    intro w₁ isWrite levels reply hrun hreply hunread
    obtain ⟨tlb', hs, htrace⟩ := hunread
    have hc₁ : ((w.pager.register p).count isWrite).Consistent := (hc.register hp).setStats _
    have hm₁ : ((w.pager.register p).count isWrite).mapped p page = none := by
      rw [Pager.register_eq]
      exact hm
    obtain ⟨hconsistent, hevolves, _⟩ := hc₁.faultUnread_cases (w.pager.mem_register p)
      (Nat.lt_trans hpage (by decide)) hm₁
    obtain ⟨hsound, hpager, htlb⟩ := hs.working hconsistent
    refine ⟨reply, w₁.working, isWrite, ?_, hreply, hpager, h.evolves keysApart_lt
      ⟨hp, halone, hpage⟩ ⟨hsound, by rw [htlb]; exact htrace.wf, ?_⟩ ?_ fun pid v f hh => ?_⟩
    · simp only [World.attempt, Bool.false_eq_true, if_false, hrun, Option.map_some]
    · rw [hpager]
      exact hconsistent
    · rw [hpager]
      have hcounted : (w.pager.register p).Evolves page ((w.pager.register p).count isWrite) :=
        Pager.evolves_of_frames rfl rfl rfl rfl rfl rfl
      exact hcounted.trans hevolves
    · rw [htlb] at hh
      rw [hpager]
      exact htrace.holds pid v f hh
  cases call with
  | access p' a t =>
    cases ht
    obtain ⟨result, w₁, hrun, hcode, levels, hunread⟩ := (World.Shows.accessFails hc hshows hp
      ha.2.2.1 t hm h.wf.tlb hmiss hslot).reply fun r => Reply.result (r.getD .internalError)
    rw [hcode] at hrun
    exact hend hrun (Or.inl rfl) hunread
  | readByte p' a =>
    cases ht
    have hread : Comp.Ends (virtualMemoryReadByte p a) w.failing fun r w' => r = none ∧
        ∃ levels, w'.Unread (w.backdrop.looked none levels) w.pager w.memory.tlb 1 p
          (addressPageNumber a) (w.pager.accessUnread p (addressPageNumber a) false) := by
      unfold virtualMemoryReadByte
      refine (World.Shows.accessFails hc hshows hp ha.2.2.1 .read hm h.wf.tlb hmiss
        hslot).bindEnds fun result w₁ h₁ => ?_
      obtain ⟨rfl, hunread⟩ := h₁
      exact Comp.Ends.stop rfl ⟨rfl, hunread⟩
    obtain ⟨result, w₁, hrun, rfl, levels, hunread⟩ := hread.reply Reply.byte
    exact hend hrun (Or.inr (Or.inl rfl)) hunread
  | writeByte p' a value =>
    cases ht
    have hwrite : Comp.Ends (virtualMemoryWriteByte p a value) w.failing fun r w' => r = none ∧
        ∃ levels, w'.Unread (w.backdrop.looked none levels) w.pager w.memory.tlb 1 p
          (addressPageNumber a) (w.pager.accessUnread p (addressPageNumber a) true) := by
      unfold virtualMemoryWriteByte
      refine (World.Shows.accessFails hc hshows hp ha.2.2.1 .write hm h.wf.tlb hmiss
        hslot).bindEnds fun result w₁ h₁ => ?_
      obtain ⟨rfl, hunread⟩ := h₁
      exact Comp.Ends.stop rfl ⟨rfl, hunread⟩
    obtain ⟨result, w₁, hrun, rfl, levels, hunread⟩ := hwrite.reply fun r => Reply.status r.isSome
    exact hend hrun (Or.inr (Or.inr rfl)) hunread
  | _ => cases ht

/-- An attempt keeps the invariant, whether the swap can be read or not. -/
theorem World.Coherent.attempted (h : w.Coherent (· < 2 ^ 36)) {attempt : Attempt} {reply : Reply}
    (ha : w.Attempts attempt) (hrun : w.attempt attempt = some (reply, w')) :
    w'.Coherent (· < 2 ^ 36) := by
  obtain ⟨call, readable⟩ := attempt
  obtain ⟨hallows, hrestores⟩ := ha
  cases readable with
  | true =>
    obtain ⟨_, _, hc⟩ := h.stepped hallows hrun
    exact hc
  | false =>
    have hr := hrestores rfl
    unfold World.Restores at hr
    split at hr
    · rename_i p page ht
      obtain ⟨reply₁, w₁, _, hrun₁, _, _, hc⟩ := h.unread hallows.pager ht hr.1 hr.2
      rw [hrun] at hrun₁
      cases hrun₁
      exact hc
    · cases hr

/-- The states reached where reads of the swap file may fail. -/
def World.Attempted (n : Nat) (type : ReplacementPolicyType) (tlbEntries : Nat)
    (slots : Option Nat) (history : List (Attempt × Reply)) (w : World) : Prop :=
  ∃ memory, virtualMemoryCreateInternal n type tlbEntries slots = some memory ∧
    Run World.attempt World.Attempts (World.boot memory) history w

theorem World.Attempted.coherent {n tlbEntries : Nat} {type : ReplacementPolicyType}
    {slots : Option Nat} {history : List (Attempt × Reply)}
    (h : World.Attempted n type tlbEntries slots history w) (hn : n < 2 ^ 32) :
    w.Coherent (· < 2 ^ 36) := by
  obtain ⟨memory, hcreate, hrun⟩ := h
  exact Run.invariant (fun _ w => w.Coherent (· < 2 ^ 36)) (World.boot_coherent hcreate hn _)
    (fun _ w attempt reply w' hc ha hs => hc.attempted ha hs) hrun

end VmSim
