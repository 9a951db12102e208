/-
VmSim.SwapMap — the swap is a bounded map from (pid, page) to pages.

`Swap.Represents` ties the slot table and the file to such a map; the
keys are counted through the slots, which hold distinct keys. Every call
of the swap is a call of the map (`Swap.Represents.step`).
-/
import VmSim.Swap
import VmSim.Lib.BoundedMap

namespace VmSim

open Lib

variable {swap : Swap} {n : Nat} {pid : Int} {virtualPage : Nat} {page : PageData}

/-! ## Calls -/

/-- One call of the interface of the swap. -/
inductive SwapCall where
  | write (pid : Int) (virtualPage : Nat) (page : PageData)
  | read (pid : Int) (virtualPage : Nat)
  | contains (pid : Int) (virtualPage : Nat)
  | remove (pid : Int) (virtualPage : Nat)
  | removeProcess (pid : Int)

/-- A pid is not negative. -/
def SwapCall.Accepted : SwapCall → Prop
  | .write pid _ _ | .read pid _ | .contains pid _ | .remove pid _ | .removeProcess pid => 0 ≤ pid

/-- What a call returns. -/
inductive SwapReply where
  | code (code : Int)
  | page (result : Except Int PageData)
  | present (present : Bool)
  | count (removed : Nat)

def Swap.step (swap : Swap) : SwapCall → SwapReply × Swap
  | .write pid v page => (.code (swapWritePage swap pid v page).1, (swapWritePage swap pid v page).2)
  | .read pid v => (.page (swapReadPage swap pid v).1, (swapReadPage swap pid v).2)
  | .contains pid v => (.present (swapContainsPage swap pid v), swap)
  | .remove pid v => (.code (swapRemovePage swap pid v).1, (swapRemovePage swap pid v).2)
  | .removeProcess pid => (.count (swapRemoveProcess swap pid).1, (swapRemoveProcess swap pid).2)

abbrev SwapMap (n : Nat) := BoundedMap (Int × Nat) PageData n

/-- The swap as a map. -/
def SwapMap.step (m : SwapMap n) : SwapCall → SwapReply × SwapMap n
  | .write pid v page =>
    match m.put (pid, v) page with
    | some m' => (.code 0, m')
    | none => (.code (-2), m)
  | .read pid v =>
    match m.value (pid, v) with
    | some page => (.page (.ok page), m)
    | none => (.page (.error (-2)), m)
  | .contains pid v => (.present (m.value (pid, v)).isSome, m)
  | .remove pid v =>
    if (m.value (pid, v)).isSome then (.code 0, m.erase (pid, v)) else (.code (-1), m)
  | .removeProcess pid =>
    (.count (m.keys.filter fun key => key.1 = pid).card, m.keep fun key => decide (key.1 ≠ pid))

/-! ## The representation -/

structure Swap.Represents (swap : Swap) (m : SwapMap n) : Prop where
  wf : swap.Wf
  works : swap.Works
  slotCount : swap.slotCount = n
  value : ∀ pid page, swap.content pid page = m.value (pid, page)
  pids : ∀ i < swap.slotCount, (swap.slots i).used = true → 0 ≤ (swap.slots i).pid

def SwapSlot.key (slot : SwapSlot) : Int × Nat := (slot.pid, slot.virtualPage)

theorem Swap.Wf.keys_injective (h : swap.Wf) :
    Set.InjOn (fun i => (swap.slots i).key) (swap.usedSlots : Set Nat) := by
  intro i hi j hj heq
  simp only [Swap.usedSlots, Finset.coe_filter, Finset.mem_range, Set.mem_ofPred_eq] at hi hj
  simp only [SwapSlot.key, Prod.mk.injEq] at heq
  exact h.unique i hi.1 j hj.1 (swap.slots i).pid (swap.slots i).virtualPage
    (SwapSlot.holds_iff.mpr ⟨hi.2, rfl, rfl⟩)
    (SwapSlot.holds_iff.mpr ⟨hj.2, heq.1.symm, heq.2.symm⟩)

variable {m : SwapMap n}

/-- The bound keys are those of the slots in use. -/
theorem Swap.Represents.keys (h : swap.Represents m) :
    m.keys = swap.usedSlots.image fun i => (swap.slots i).key := by
  ext ⟨pid, v⟩
  rw [m.mem_keys, ← h.value, Finset.mem_image]
  constructor
  · intro hc
    obtain ⟨i, hfind⟩ := Option.isSome_iff_exists.mp
      ((Option.isSome_map (f := fun slot => swap.file.page (slot * pageSize))).symm.trans hc)
    obtain ⟨hi, hh⟩ := swapFindPageSlot_some hfind
    obtain ⟨hused, hpid, hv⟩ := SwapSlot.holds_iff.mp hh
    exact ⟨i, by simp [Swap.usedSlots, hi, hused], by simp [SwapSlot.key, hpid, hv]⟩
  · rintro ⟨i, hi, hkey⟩
    simp only [Swap.usedSlots, Finset.mem_filter, Finset.mem_range] at hi
    simp only [SwapSlot.key, Prod.mk.injEq] at hkey
    have hfind := h.wf.find_eq (hkey.1 ▸ h.pids i hi.1 hi.2) hi.1
      (SwapSlot.holds_iff.mpr ⟨hi.2, hkey.1, hkey.2⟩)
    rw [Swap.content, hfind]
    rfl

theorem Swap.Represents.card (h : swap.Represents m) : swap.usedSlotCount = m.keys.card := by
  rw [h.keys, Finset.card_image_of_injOn h.wf.keys_injective, h.wf.count]

theorem Swap.Represents.card_process (h : swap.Represents m) (hpid : 0 ≤ pid) :
    (swapRemoveProcess swap pid).1 = (m.keys.filter fun key => key.1 = pid).card := by
  unfold swapRemoveProcess
  rw [if_neg (Int.not_lt.mpr hpid), h.keys, Finset.filter_image]
  dsimp only
  have hsub : ((swap.usedSlots.filter fun i => (swap.slots i).key.1 = pid : Finset Nat) : Set Nat) ⊆
      swap.usedSlots := Finset.coe_subset.mpr (Finset.filter_subset _ _)
  rw [Finset.card_image_of_injOn (h.wf.keys_injective.mono hsub), swap.countP_belongsTo]
  rfl

/-! ## The calls -/

/-- The slots after a call belong to pids that are not negative. -/
theorem Swap.Represents.pids_of {swap' : Swap} (h : swap.Represents m)
    (hcount : swap'.slotCount = swap.slotCount)
    (hslots : ∀ i, swap'.slots i = swap.slots i ∨ (swap'.slots i).used = false ∨
      0 ≤ (swap'.slots i).pid) :
    ∀ i < swap'.slotCount, (swap'.slots i).used = true → 0 ≤ (swap'.slots i).pid := by
  intro i hi hused
  rw [hcount] at hi
  rcases hslots i with heq | hfree | hpid
  · rw [heq] at hused ⊢
    exact h.pids i hi hused
  · rw [hfree] at hused
    cases hused
  · exact hpid

theorem Swap.Represents.write (h : swap.Represents m) (hpid : 0 ≤ pid) (virtualPage : Nat)
    (page : PageData) :
    (swap.step (.write pid virtualPage page)).1 = (m.step (.write pid virtualPage page)).1 ∧
      (swap.step (.write pid virtualPage page)).2.Represents
        (m.step (.write pid virtualPage page)).2 := by
  have hfull : swap.content pid virtualPage = none →
      (swapWritePage swap pid virtualPage page = (-2, swap) ↔ m.keys.card = n) := by
    intro hnew
    rw [swapWritePage_full h.wf h.works hpid hnew, h.card, h.slotCount]
  simp only [Swap.step, SwapMap.step]
  rcases swapWritePage_spec h.wf h.works hpid virtualPage page with
    ⟨hcode, hwf, hworks, hcontent⟩ | ⟨hrefused, hnew⟩
  · cases hput : m.put (pid, virtualPage) page with
    | none =>
      obtain ⟨hnone, hcard⟩ := BoundedMap.put_eq_none.mp hput
      rw [← h.value] at hnone
      rw [(hfull hnone).mpr hcard] at hcode
      cases hcode
    | some m' =>
      obtain ⟨hcount, hslots⟩ := swapWritePage_slots swap pid virtualPage page
      refine ⟨congrArg SwapReply.code hcode, hwf, hworks, hcount.trans h.slotCount, ?_,
        h.pids_of hcount fun i => (hslots i).imp id fun hs => Or.inr ?_⟩
      · intro pid' page'
        rw [hcontent, BoundedMap.value_put hput, h.value]
        simp only [Prod.mk.injEq]
      · rw [hs]
        exact hpid
  · have hput : m.put (pid, virtualPage) page = none :=
      BoundedMap.put_eq_none.mpr ⟨(h.value _ _).symm.trans hnew, (hfull hnew).mp hrefused⟩
    rw [hput, hrefused]
    exact ⟨rfl, h⟩

theorem Swap.Represents.read (h : swap.Represents m) (hpid : 0 ≤ pid) (virtualPage : Nat) :
    (swap.step (.read pid virtualPage)).1 = (m.step (.read pid virtualPage)).1 ∧
      (swap.step (.read pid virtualPage)).2.Represents (m.step (.read pid virtualPage)).2 := by
  simp only [Swap.step, SwapMap.step, ← h.value]
  cases hc : swap.content pid virtualPage with
  | some page =>
    rw [swapReadPage_spec h.wf h.works hc]
    exact ⟨rfl, ⟨h.wf.fits, h.wf.length, h.wf.unique, h.wf.count⟩, h.works, h.slotCount, h.value,
      h.pids⟩
  | none =>
    have hfind : swapFindPageSlot swap pid virtualPage = none := Option.map_eq_none_iff.mp hc
    rw [swapReadPage, if_neg (Int.not_lt.mpr hpid), hfind]
    exact ⟨rfl, h⟩

theorem Swap.Represents.remove (h : swap.Represents m) (hpid : 0 ≤ pid) (virtualPage : Nat) :
    (swap.step (.remove pid virtualPage)).1 = (m.step (.remove pid virtualPage)).1 ∧
      (swap.step (.remove pid virtualPage)).2.Represents
        (m.step (.remove pid virtualPage)).2 := by
  simp only [Swap.step, SwapMap.step, ← h.value]
  cases hc : swap.content pid virtualPage with
  | some page =>
    obtain ⟨hcode, hwf, hfile, hcontent⟩ := swapRemovePage_spec h.wf
      (show swap.content pid virtualPage ≠ none by rw [hc]; exact Option.some_ne_none page)
    obtain ⟨hcount, hslots⟩ := swapRemovePage_slots swap pid virtualPage
    refine ⟨congrArg SwapReply.code hcode, hwf, ?_, hcount.trans h.slotCount, fun pid' page' => ?_,
      h.pids_of hcount fun i => (hslots i).imp id Or.inl⟩
    · rw [Swap.Works, hfile]
      exact h.works
    · rw [hcontent, h.value, if_pos (Option.isSome_some), BoundedMap.value_erase]
      simp only [Prod.mk.injEq]
  | none =>
    have hfind : swapFindPageSlot swap pid virtualPage = none := Option.map_eq_none_iff.mp hc
    rw [swapRemovePage, if_neg (Int.not_lt.mpr hpid), hfind]
    exact ⟨rfl, h⟩

theorem Swap.Represents.removeProcess (h : swap.Represents m) (hpid : 0 ≤ pid) :
    (swap.step (.removeProcess pid)).1 = (m.step (.removeProcess pid)).1 ∧
      (swap.step (.removeProcess pid)).2.Represents (m.step (.removeProcess pid)).2 := by
  obtain ⟨hwf, hfile, hcontent⟩ := swapRemoveProcess_spec h.wf hpid
  obtain ⟨hcount, hslots⟩ := swapRemoveProcess_slots swap pid
  refine ⟨congrArg SwapReply.count (h.card_process hpid), hwf, ?_, hcount.trans h.slotCount,
    fun pid' page' => ?_, h.pids_of hcount fun i => (hslots i).imp id Or.inl⟩
  · rw [Swap.Works, Swap.step, hfile]
    exact h.works
  · rw [Swap.step, hcontent, h.value]
    by_cases e : pid' = pid <;> simp [SwapMap.step, BoundedMap.keep, e]

/-- Every call of the swap is a call of the map. -/
theorem Swap.Represents.step (h : swap.Represents m) {call : SwapCall} (hcall : call.Accepted) :
    (swap.step call).1 = (m.step call).1 ∧ (swap.step call).2.Represents (m.step call).2 := by
  cases call with
  | write pid v page => exact h.write hcall v page
  | read pid v => exact h.read hcall v
  | contains pid v =>
    refine ⟨congrArg SwapReply.present ?_, h⟩
    rw [swapContainsPage_iff, h.value]
  | remove pid v => exact h.remove hcall v
  | removeProcess pid => exact h.removeProcess hcall

theorem swapCreate_represents (h : swapCreate n = some swap) :
    swap.Represents (.empty : SwapMap n) := by
  obtain ⟨hwf, hworks, hcontent⟩ := swapCreate_spec h
  unfold swapCreate at h
  split at h
  · cases h
  · obtain ⟨file, _, rfl⟩ := Option.map_eq_some_iff.mp h
    exact ⟨hwf, hworks, rfl, hcontent, fun i _ hused => by cases hused⟩

end VmSim
