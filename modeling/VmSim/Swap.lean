/-
VmSim.Swap — the swap file and its slot table (`src/swap.c`).

The file is a byte array. `readable` and `writable` say whether the next
`fread` and `fwrite` succeed; nothing in the program changes them, so a
run with working file I/O is one that starts with both set. The sentinel
`SIZE_MAX` of the slot searches is `none`.
-/
import VmSim.PhysicalMemory
import Mathlib.Data.Finset.Filter
import Mathlib.Tactic.ByContra

namespace VmSim

structure SwapSlot where
  used : Bool
  pid : Int
  virtualPage : Nat

structure SwapFile where
  bytes : Nat → UInt8
  length : Nat
  readable : Bool
  writable : Bool

structure Swap where
  file : SwapFile
  slots : Nat → SwapSlot
  slotCount : Nat
  usedSlotCount : Nat
  reads : Nat
  writes : Nat

/-- `LONG_MAX` -/
def longMax : Nat := 2 ^ 63 - 1

/-- The byte offset of a slot, unless it does not fit a `long`. -/
def swapSlotOffset (slotIndex : Nat) : Option Nat :=
  let offset := (slotIndex * pageSize) % wordSize
  if offset > longMax then none else some offset

/-- `swap_initialize_file` on a fresh file: its last byte is written, so
that it has one page for every slot and all bytes are zero. -/
def swapInitializeFile (slotCount : Nat) : Option SwapFile :=
  if slotCount = 0 ∨ slotCount > (wordSize - 1) / pageSize then none
  else if slotCount * pageSize > longMax then none
  else some ⟨fun _ => 0, slotCount * pageSize, true, true⟩

def swapCreate (slotCount : Nat) : Option Swap :=
  if slotCount = 0 then none
  else (swapInitializeFile slotCount).map fun file =>
    ⟨file, fun _ => ⟨false, 0, 0⟩, slotCount, 0, 0, 0⟩

/-- The slot is in use for this key. -/
def SwapSlot.holds (slot : SwapSlot) (pid : Int) (virtualPage : Nat) : Bool :=
  slot.used && slot.pid == pid && slot.virtualPage == virtualPage

def swapFindPageSlot (swap : Swap) (pid : Int) (virtualPage : Nat) : Option Nat :=
  if pid < 0 then none
  else (List.range swap.slotCount).find? fun index => (swap.slots index).holds pid virtualPage

def swapFindFreeSlot (swap : Swap) : Option Nat :=
  (List.range swap.slotCount).find? fun index => !(swap.slots index).used

/-- `fwrite` of one page at an offset. -/
def SwapFile.writePage (file : SwapFile) (offset : Nat) (page : PageData) : SwapFile :=
  { file with
    bytes := fun position =>
      if h : offset ≤ position ∧ position - offset < pageSize then
        page ⟨position - offset, h.2⟩
      else file.bytes position }

/-- `fread` of one page at an offset. -/
def SwapFile.page (file : SwapFile) (offset : Nat) : PageData :=
  fun index => file.bytes (offset + index)

def swapWritePage (swap : Swap) (pid : Int) (virtualPage : Nat) (page : PageData) : Int × Swap :=
  if pid < 0 then (-1, swap)
  else
    let existing := swapFindPageSlot swap pid virtualPage
    match existing.orElse fun _ => swapFindFreeSlot swap with
    | none => (-2, swap)
    | some slotIndex =>
      match swapSlotOffset slotIndex with
      | none => (-1, swap)
      | some offset =>
        if !swap.file.writable then (-1, swap)
        else
          let written := { swap with
            file := swap.file.writePage offset page
            writes := (swap.writes + 1) % wordSize }
          if existing.isSome then (0, written)
          else (0, { written with
            slots := Function.update swap.slots slotIndex ⟨true, pid, virtualPage⟩
            usedSlotCount := swap.usedSlotCount + 1 })

/-- `swap_read_page`: the page, or the error code. -/
def swapReadPage (swap : Swap) (pid : Int) (virtualPage : Nat) : Except Int PageData × Swap :=
  if pid < 0 then (.error (-1), swap)
  else match swapFindPageSlot swap pid virtualPage with
    | none => (.error (-2), swap)
    | some slotIndex =>
      match swapSlotOffset slotIndex with
      | none => (.error (-1), swap)
      | some offset =>
        if !swap.file.readable ∨ offset + pageSize > swap.file.length then (.error (-1), swap)
        else (.ok (swap.file.page offset), { swap with reads := (swap.reads + 1) % wordSize })

def swapContainsPage (swap : Swap) (pid : Int) (virtualPage : Nat) : Bool :=
  (swapFindPageSlot swap pid virtualPage).isSome

/-- A slot taken out of use. -/
def SwapSlot.unused : SwapSlot := ⟨false, -1, 0⟩

def swapRemovePage (swap : Swap) (pid : Int) (virtualPage : Nat) : Int × Swap :=
  if pid < 0 then (-1, swap)
  else match swapFindPageSlot swap pid virtualPage with
    | none => (-1, swap)
    | some slotIndex =>
      (0, { swap with
        slots := Function.update swap.slots slotIndex .unused
        usedSlotCount := swap.usedSlotCount - 1 })

/-- The slots `swap_remove_process` takes out of use. -/
def Swap.belongsTo (swap : Swap) (pid : Int) (index : Nat) : Bool :=
  decide (index < swap.slotCount) && (swap.slots index).used && (swap.slots index).pid == pid

def swapRemoveProcess (swap : Swap) (pid : Int) : Nat × Swap :=
  if pid < 0 then (0, swap)
  else
    let removed := (List.range swap.slotCount).countP (swap.belongsTo pid)
    (removed, { swap with
      slots := fun index => if swap.belongsTo pid index then .unused else swap.slots index
      usedSlotCount := swap.usedSlotCount - removed })

/-! ## The swap as a map from keys to pages

`content swap pid page` is what `swap_read_page` would deliver for the
key. The operations are specified by what they do to it. -/

def Swap.content (swap : Swap) (pid : Int) (virtualPage : Nat) : Option PageData :=
  (swapFindPageSlot swap pid virtualPage).map fun slot => swap.file.page (slot * pageSize)

/-- The slots in use. -/
def Swap.usedSlots (swap : Swap) : Finset Nat :=
  (Finset.range swap.slotCount).filter fun slot => (swap.slots slot).used = true

structure Swap.Wf (swap : Swap) : Prop where
  fits : swap.slotCount * pageSize ≤ longMax
  length : swap.file.length = swap.slotCount * pageSize
  unique : ∀ i < swap.slotCount, ∀ j < swap.slotCount, ∀ pid virtualPage,
    (swap.slots i).holds pid virtualPage = true →
      (swap.slots j).holds pid virtualPage = true → i = j
  count : swap.usedSlotCount = swap.usedSlots.card

/-- Reads and writes of the file succeed. -/
def Swap.Works (swap : Swap) : Prop := swap.file.readable = true ∧ swap.file.writable = true

theorem SwapSlot.holds_iff {slot : SwapSlot} {pid : Int} {virtualPage : Nat} :
    slot.holds pid virtualPage = true ↔
      slot.used = true ∧ slot.pid = pid ∧ slot.virtualPage = virtualPage := by
  simp [SwapSlot.holds, and_assoc]

theorem swapFindPageSlot_some {swap : Swap} {pid : Int} {virtualPage slot : Nat}
    (h : swapFindPageSlot swap pid virtualPage = some slot) :
    slot < swap.slotCount ∧ (swap.slots slot).holds pid virtualPage = true := by
  unfold swapFindPageSlot at h
  split at h
  · cases h
  · have hm := List.find?_some h
    exact ⟨List.mem_range.mp (List.mem_of_find?_eq_some h), hm⟩

theorem swapFindPageSlot_none {swap : Swap} {pid : Int} (hpid : 0 ≤ pid) {virtualPage : Nat}
    (h : swapFindPageSlot swap pid virtualPage = none) {slot : Nat} (hs : slot < swap.slotCount) :
    (swap.slots slot).holds pid virtualPage = false := by
  unfold swapFindPageSlot at h
  rw [if_neg (Int.not_lt.mpr hpid)] at h
  simpa using List.find?_eq_none.mp h slot (List.mem_range.mpr hs)

/-- With unique keys, the slot that holds the key is the one found. -/
theorem Swap.Wf.find_eq {swap : Swap} (h : swap.Wf) {pid : Int} (hpid : 0 ≤ pid)
    {virtualPage slot : Nat} (hs : slot < swap.slotCount)
    (hh : (swap.slots slot).holds pid virtualPage = true) :
    swapFindPageSlot swap pid virtualPage = some slot := by
  cases hfind : swapFindPageSlot swap pid virtualPage with
  | none => rw [swapFindPageSlot_none hpid hfind hs] at hh; cases hh
  | some other =>
    obtain ⟨hlt, hother⟩ := swapFindPageSlot_some hfind
    rw [h.unique other hlt slot hs pid virtualPage hother hh]

theorem swapFindPageSlot_neg {swap : Swap} {pid : Int} (hpid : pid < 0) (virtualPage : Nat) :
    swapFindPageSlot swap pid virtualPage = none := by
  simp [swapFindPageSlot, hpid]

/-- A slot holds one page. -/
theorem SwapSlot.holds_unique {slot : SwapSlot} {pid pid' : Int} {page page' : Nat}
    (h : slot.holds pid page = true) (h' : slot.holds pid' page' = true) :
    pid' = pid ∧ page' = page := by
  obtain ⟨_, hp, hv⟩ := SwapSlot.holds_iff.mp h
  obtain ⟨_, hp', hv'⟩ := SwapSlot.holds_iff.mp h'
  exact ⟨hp'.symm.trans hp, hv'.symm.trans hv⟩

/-- A page that no slot holds has no content. -/
theorem Swap.content_none_of {swap : Swap} {pid : Int} {page : Nat}
    (hlost : ∀ i, i < swap.slotCount → (swap.slots i).holds pid page = false) :
    swap.content pid page = none := by
  rw [Swap.content, Option.map_eq_none_iff]
  by_contra hne
  obtain ⟨slot, hslot⟩ := Option.ne_none_iff_exists'.mp hne
  obtain ⟨hlt, hh⟩ := swapFindPageSlot_some hslot
  rw [hlost slot hlt] at hh
  exact Bool.false_ne_true hh

/-- A page that the same slots hold has the same content, where the file
keeps it. -/
theorem Swap.Wf.content_kept (swap : Swap) {swap' : Swap} (h' : swap'.Wf)
    (hcount : swap'.slotCount = swap.slotCount) {pid : Int} {page : Nat}
    (hkept : ∀ i, i < swap.slotCount →
      (swap'.slots i).holds pid page = (swap.slots i).holds pid page)
    (hfile : ∀ i, (swap.slots i).holds pid page = true →
      swap'.file.page (i * pageSize) = swap.file.page (i * pageSize)) :
    swap'.content pid page = swap.content pid page := by
  by_cases hpid : 0 ≤ pid
  · cases hfind : swapFindPageSlot swap pid page with
    | none =>
      have hnone : swap.content pid page = none := by rw [Swap.content, hfind, Option.map_none]
      rw [hnone]
      refine Swap.content_none_of fun i hi => ?_
      rw [hcount] at hi
      rw [hkept i hi]
      exact swapFindPageSlot_none hpid hfind hi
    | some slot =>
      obtain ⟨hlt, hh⟩ := swapFindPageSlot_some hfind
      have hfind' := h'.find_eq hpid (hcount ▸ hlt) ((hkept slot hlt).trans hh)
      rw [Swap.content, Swap.content, hfind, hfind', Option.map_some, Option.map_some,
        hfile slot hh]
  · have hneg := Int.not_le.mp hpid
    rw [Swap.content, Swap.content, swapFindPageSlot_neg hneg, swapFindPageSlot_neg hneg]
    rfl

theorem swapContainsPage_iff {swap : Swap} {pid : Int} {virtualPage : Nat} :
    swapContainsPage swap pid virtualPage = (swap.content pid virtualPage).isSome := by
  simp [swapContainsPage, Swap.content]

/-- Every slot has its own page of the file, inside the file. -/
theorem Swap.Wf.offset {swap : Swap} (h : swap.Wf) {slot : Nat} (hs : slot < swap.slotCount) :
    swapSlotOffset slot = some (slot * pageSize) ∧
      slot * pageSize + pageSize ≤ swap.file.length := by
  have hfits := h.fits
  have hle : slot * pageSize + pageSize ≤ swap.slotCount * pageSize := by
    rw [← Nat.succ_mul]
    exact Nat.mul_le_mul_right _ hs
  refine ⟨?_, by rw [h.length]; exact hle⟩
  have hlt : slot * pageSize ≤ longMax :=
    (Nat.le_add_right _ _).trans (hle.trans hfits)
  have hword : slot * pageSize < wordSize := by
    simp only [longMax, wordSize] at hlt ⊢
    omega
  have hmod : (slot * pageSize) % wordSize = slot * pageSize := Nat.mod_eq_of_lt hword
  simp only [swapSlotOffset, hmod]
  rw [if_neg (Nat.not_lt.mpr hlt)]

theorem SwapFile.page_writePage_self (file : SwapFile) (offset : Nat) (page : PageData) :
    (file.writePage offset page).page offset = page := by
  funext i
  simp [SwapFile.page, SwapFile.writePage]

theorem SwapFile.page_writePage_ne (file : SwapFile) {slot other : Nat} (page : PageData)
    (h : other ≠ slot) :
    (file.writePage (slot * pageSize) page).page (other * pageSize) =
      file.page (other * pageSize) := by
  funext i
  have hi : (i : Nat) < 4096 := i.isLt
  have hout : ¬ (slot * pageSize ≤ other * pageSize + i ∧
      other * pageSize + i - slot * pageSize < pageSize) := by
    simp only [pageSize]
    omega
  simp only [SwapFile.page, SwapFile.writePage]
  rw [dif_neg hout]

/-- A free slot is missing exactly when the count says that all slots are
in use. -/
theorem Swap.Wf.findFree_none {swap : Swap} (h : swap.Wf) :
    swapFindFreeSlot swap = none ↔ swap.usedSlotCount = swap.slotCount := by
  have hsub : swap.usedSlots ⊆ Finset.range swap.slotCount := Finset.filter_subset _ _
  rw [h.count, ← Finset.card_range swap.slotCount]
  constructor
  · intro hnone
    refine congrArg Finset.card (Finset.Subset.antisymm hsub fun i hi => ?_)
    have hused := List.find?_eq_none.mp hnone i (List.mem_range.mpr (Finset.mem_range.mp hi))
    exact Finset.mem_filter.mpr ⟨hi, by simpa using hused⟩
  · intro hcard
    have hall : swap.usedSlots = Finset.range swap.slotCount :=
      Finset.eq_of_subset_of_card_le hsub (by rw [hcard])
    refine List.find?_eq_none.mpr fun i hi => ?_
    have hin : i ∈ swap.usedSlots := by
      rw [hall]
      exact Finset.mem_range.mpr (List.mem_range.mp hi)
    simpa using (Finset.mem_filter.mp hin).2

theorem Swap.Wf.used_le {swap : Swap} (h : swap.Wf) : swap.usedSlotCount ≤ swap.slotCount := by
  have hsub : swap.usedSlots ⊆ Finset.range swap.slotCount := Finset.filter_subset _ _
  rw [h.count, ← Finset.card_range swap.slotCount]
  exact Finset.card_le_card hsub

/-! ### Writing -/

/-- Writing stores the page under its key and touches no other key, or
is refused because the key is absent and every slot is in use. -/
theorem swapWritePage_spec {swap : Swap} (h : swap.Wf) (hio : swap.Works) {pid : Int}
    (hpid : 0 ≤ pid) (virtualPage : Nat) (page : PageData) :
    ((swapWritePage swap pid virtualPage page).1 = 0 ∧
      (swapWritePage swap pid virtualPage page).2.Wf ∧
      (swapWritePage swap pid virtualPage page).2.Works ∧
      ∀ pid' page', (swapWritePage swap pid virtualPage page).2.content pid' page' =
        if pid' = pid ∧ page' = virtualPage then some page else swap.content pid' page') ∨
    ((swapWritePage swap pid virtualPage page) = (-2, swap) ∧
      swap.content pid virtualPage = none) := by
  unfold swapWritePage
  rw [if_neg (Int.not_lt.mpr hpid)]
  cases hfind : swapFindPageSlot swap pid virtualPage with
  | some slot =>
    obtain ⟨hs, hh⟩ := swapFindPageSlot_some hfind
    simp only [Option.orElse_some, (h.offset hs).1, hio.2, Bool.not_true, Bool.false_eq_true,
      if_false, Option.isSome_some, if_true]
    have hwf : ({ swap with
        file := swap.file.writePage (slot * pageSize) page
        writes := (swap.writes + 1) % wordSize } : Swap).Wf :=
      ⟨h.fits, h.length, h.unique, h.count⟩
    refine Or.inl ⟨trivial, hwf, hio, fun pid' page' => ?_⟩
    split
    · rename_i e
      unfold Swap.content
      rw [e.1, e.2, hwf.find_eq hpid hs hh, Option.map_some, SwapFile.page_writePage_self]
    · rename_i e
      refine hwf.content_kept swap rfl (fun _ _ => rfl) fun i hh' => ?_
      refine SwapFile.page_writePage_ne _ _ ?_
      rintro rfl
      exact e (SwapSlot.holds_unique hh hh')
  | none =>
    simp only [Option.orElse_none]
    cases hfree : swapFindFreeSlot swap with
    | none => exact Or.inr ⟨rfl, by rw [Swap.content, hfind]; rfl⟩
    | some slot =>
      have hs : slot < swap.slotCount := List.mem_range.mp (List.mem_of_find?_eq_some hfree)
      have hunused : (swap.slots slot).used = false := by simpa using List.find?_some hfree
      simp only [(h.offset hs).1, hio.2, Bool.not_true, Bool.false_eq_true, if_false,
        Option.isSome_none]
      have hholds : ∀ i pid' page',
          (Function.update swap.slots slot ⟨true, pid, virtualPage⟩ i).holds pid' page' =
            if i = slot then decide (pid' = pid ∧ page' = virtualPage)
            else (swap.slots i).holds pid' page' := by
        intro i pid' page'
        by_cases e : i = slot
        · rw [if_pos e, e, Function.update_self]
          rw [Bool.eq_iff_iff, SwapSlot.holds_iff, decide_eq_true_iff]
          simp [eq_comm]
        · rw [if_neg e, Function.update_of_ne e]
      have hwf : ({ swap with
          file := swap.file.writePage (slot * pageSize) page
          writes := (swap.writes + 1) % wordSize
          slots := Function.update swap.slots slot ⟨true, pid, virtualPage⟩
          usedSlotCount := swap.usedSlotCount + 1 } : Swap).Wf := by
        refine ⟨h.fits, h.length, fun i hi j hj pid' page' hip hjp => ?_, ?_⟩
        · rw [hholds] at hip hjp
          by_cases ei : i = slot <;> by_cases ej : j = slot
          · rw [ei, ej]
          · rw [if_pos ei, decide_eq_true_iff] at hip
            rw [if_neg ej, hip.1, hip.2, swapFindPageSlot_none hpid hfind hj] at hjp
            cases hjp
          · rw [if_pos ej, decide_eq_true_iff] at hjp
            rw [if_neg ei, hjp.1, hjp.2, swapFindPageSlot_none hpid hfind hi] at hip
            cases hip
          · rw [if_neg ei] at hip
            rw [if_neg ej] at hjp
            exact h.unique i hi j hj pid' page' hip hjp
        · change swap.usedSlotCount + 1 = _
          rw [h.count, ← Finset.card_insert_of_notMem (a := slot)
            (by simp [Swap.usedSlots, hunused])]
          congr 1
          ext i
          simp only [Swap.usedSlots, Finset.mem_insert, Finset.mem_filter]
          by_cases e : i = slot <;> simp [e, hs]
      refine Or.inl ⟨trivial, hwf, hio, fun pid' page' => ?_⟩
      split
      · rename_i e
        unfold Swap.content
        rw [e.1, e.2, hwf.find_eq hpid hs (by rw [hholds]; simp), Option.map_some,
          SwapFile.page_writePage_self]
      · rename_i e
        have hne : ∀ i, (swap.slots i).holds pid' page' = true → i ≠ slot := by
          rintro i hh' rfl
          rw [(SwapSlot.holds_iff.mp hh').1] at hunused
          cases hunused
        refine hwf.content_kept swap rfl (fun i _ => ?_) fun i hh' =>
          SwapFile.page_writePage_ne _ _ (hne i hh')
        rw [hholds]
        split
        · rename_i ei
          rw [decide_eq_false e]
          exact (Bool.eq_false_of_not_eq_true fun hh' => hne i hh' ei).symm
        · rfl

/-- A new key is refused exactly when all slots are in use. -/
theorem swapWritePage_full {swap : Swap} (h : swap.Wf) (hio : swap.Works) {pid : Int}
    (hpid : 0 ≤ pid) {virtualPage : Nat} (hnew : swap.content pid virtualPage = none)
    (page : PageData) : swapWritePage swap pid virtualPage page = (-2, swap) ↔
      swap.usedSlotCount = swap.slotCount := by
  have hfind : swapFindPageSlot swap pid virtualPage = none := Option.map_eq_none_iff.mp hnew
  rw [← h.findFree_none]
  unfold swapWritePage
  rw [if_neg (Int.not_lt.mpr hpid), hfind]
  cases hfree : swapFindFreeSlot swap with
  | none => exact ⟨fun _ => rfl, fun _ => rfl⟩
  | some slot =>
    have hs : slot < swap.slotCount := List.mem_range.mp (List.mem_of_find?_eq_some hfree)
    simp [(h.offset hs).1, hio.2]

/-- A key that is bound is written in place; a new one takes a slot. -/
theorem swapWritePage_used {swap : Swap} {pid : Int} {virtualPage : Nat} {page : PageData}
    (hcode : (swapWritePage swap pid virtualPage page).1 = 0) :
    (swapWritePage swap pid virtualPage page).2.usedSlotCount =
      if swap.content pid virtualPage = none then swap.usedSlotCount + 1
      else swap.usedSlotCount := by
  unfold swapWritePage at hcode ⊢
  split at hcode
  · cases hcode
  · rename_i hpid
    rw [if_neg hpid]
    cases hfind : swapFindPageSlot swap pid virtualPage with
    | some slot =>
      simp only [hfind, Option.orElse_some] at hcode ⊢
      rw [if_neg (by rw [Swap.content, hfind]; exact Option.some_ne_none _)]
      split
      · rfl
      · split <;> rfl
    | none =>
      simp only [hfind, Option.orElse_none] at hcode ⊢
      rw [if_pos (by rw [Swap.content, hfind]; rfl)]
      cases hfree : swapFindFreeSlot swap with
      | none =>
        rw [hfree] at hcode
        cases hcode
      | some slot =>
        simp only [hfree] at hcode ⊢
        cases hoffset : swapSlotOffset slot with
        | none =>
          rw [hoffset] at hcode
          cases hcode
        | some offset =>
          simp only [hoffset] at hcode ⊢
          split at hcode
          · cases hcode
          · rename_i hwritable
            rw [if_neg hwritable]
            rfl

/-- A write that is refused changes nothing. -/
theorem swapWritePage_refused {swap : Swap} {pid : Int} {virtualPage : Nat} {page : PageData}
    (hcode : (swapWritePage swap pid virtualPage page).1 ≠ 0) :
    (swapWritePage swap pid virtualPage page).2 = swap := by
  have hends : (swapWritePage swap pid virtualPage page).1 = 0 ∨
      (swapWritePage swap pid virtualPage page).2 = swap := by
    unfold swapWritePage
    dsimp only
    repeat' split
    all_goals first | exact Or.inr rfl | exact Or.inl rfl
  exact hends.resolve_left hcode

/-- A write changes at most the slot of its key. -/
theorem swapWritePage_slots (swap : Swap) (pid : Int) (virtualPage : Nat) (page : PageData) :
    (swapWritePage swap pid virtualPage page).2.slotCount = swap.slotCount ∧
      ∀ i, (swapWritePage swap pid virtualPage page).2.slots i = swap.slots i ∨
        (swapWritePage swap pid virtualPage page).2.slots i = ⟨true, pid, virtualPage⟩ := by
  unfold swapWritePage
  dsimp only
  split
  · exact ⟨rfl, fun _ => Or.inl rfl⟩
  · split
    · exact ⟨rfl, fun _ => Or.inl rfl⟩
    · rename_i slot _
      split
      · exact ⟨rfl, fun _ => Or.inl rfl⟩
      · split
        · exact ⟨rfl, fun _ => Or.inl rfl⟩
        · split
          · exact ⟨rfl, fun _ => Or.inl rfl⟩
          · refine ⟨rfl, fun i => ?_⟩
            by_cases e : i = slot
            · exact Or.inr (by simp [e])
            · exact Or.inl (Function.update_of_ne e _ _)

/-! ### Reading and removing -/

theorem swapReadPage_spec {swap : Swap} (h : swap.Wf) (hio : swap.Works) {pid : Int}
    {virtualPage : Nat} {page : PageData} (hc : swap.content pid virtualPage = some page) :
    swapReadPage swap pid virtualPage =
      (.ok page, { swap with reads := (swap.reads + 1) % wordSize }) := by
  unfold Swap.content at hc
  obtain ⟨slot, hfind, hpage⟩ := Option.map_eq_some_iff.mp hc
  obtain ⟨hs, _⟩ := swapFindPageSlot_some hfind
  obtain ⟨hoff, hin⟩ := h.offset hs
  have hpid : ¬ pid < 0 := by
    intro hneg
    rw [swapFindPageSlot_neg hneg] at hfind
    cases hfind
  unfold swapReadPage
  simp only [if_neg hpid, hfind, hoff, hio.1, Bool.not_true, Bool.false_eq_true, false_or,
    if_neg (Nat.not_lt.mpr hin), hpage]

theorem swapRemovePage_spec {swap : Swap} (h : swap.Wf) {pid : Int} {virtualPage : Nat}
    (hc : swap.content pid virtualPage ≠ none) :
    (swapRemovePage swap pid virtualPage).1 = 0 ∧ (swapRemovePage swap pid virtualPage).2.Wf ∧
      (swapRemovePage swap pid virtualPage).2.file = swap.file ∧
      ∀ pid' page', (swapRemovePage swap pid virtualPage).2.content pid' page' =
        if pid' = pid ∧ page' = virtualPage then none else swap.content pid' page' := by
  obtain ⟨slot, hfind⟩ : ∃ slot, swapFindPageSlot swap pid virtualPage = some slot := by
    rw [← Option.ne_none_iff_exists']
    intro hn
    exact hc (by rw [Swap.content, hn]; rfl)
  obtain ⟨hs, hh⟩ := swapFindPageSlot_some hfind
  have hpid : ¬ pid < 0 := by
    intro hneg
    rw [swapFindPageSlot_neg hneg] at hfind
    cases hfind
  unfold swapRemovePage
  simp only [if_neg hpid, hfind]
  have hback : ∀ i pid' page', (Function.update swap.slots slot .unused i).holds pid' page' =
      (decide (i ≠ slot) && (swap.slots i).holds pid' page') := by
    intro i pid' page'
    by_cases e : i = slot <;> simp [e, SwapSlot.holds, SwapSlot.unused]
  have hwf : ({ swap with
      slots := Function.update swap.slots slot .unused
      usedSlotCount := swap.usedSlotCount - 1 } : Swap).Wf := by
    refine ⟨h.fits, h.length, fun i hi j hj pid' page' hip hjp => ?_, ?_⟩
    · rw [hback, Bool.and_eq_true] at hip hjp
      exact h.unique i hi j hj pid' page' hip.2 hjp.2
    · change swap.usedSlotCount - 1 = _
      rw [h.count, ← Finset.card_erase_of_mem (a := slot)
        (by simp [Swap.usedSlots, hs, (SwapSlot.holds_iff.mp hh).1])]
      congr 1
      ext i
      simp only [Swap.usedSlots, Finset.mem_erase, Finset.mem_filter]
      by_cases e : i = slot <;> simp [e, SwapSlot.unused]
  refine ⟨trivial, hwf, trivial, fun pid' page' => ?_⟩
  split
  · rename_i e
    refine Swap.content_none_of fun i hi => ?_
    by_contra hne
    have hh' := Bool.eq_true_of_not_eq_false hne
    rw [hback, Bool.and_eq_true, e.1, e.2, decide_eq_true_iff] at hh'
    exact hh'.1 (h.unique i hi slot hs pid virtualPage hh'.2 hh)
  · rename_i e
    refine hwf.content_kept swap rfl (fun i _ => ?_) fun _ _ => rfl
    rw [hback]
    by_cases ei : i = slot
    · subst ei
      have hnot : (swap.slots i).holds pid' page' ≠ true := fun hh' =>
        e (SwapSlot.holds_unique hh hh')
      simp [hnot]
    · simp [ei]

theorem swapRemovePage_used {swap : Swap} {pid : Int} {virtualPage : Nat}
    (hc : swap.content pid virtualPage ≠ none) :
    (swapRemovePage swap pid virtualPage).2.usedSlotCount = swap.usedSlotCount - 1 := by
  unfold swapRemovePage
  split
  · rename_i hpid
    exact absurd (by rw [Swap.content, swapFindPageSlot_neg hpid]; rfl) hc
  · split
    · rename_i hfind
      exact absurd (by rw [Swap.content, hfind]; rfl) hc
    · rfl

theorem swapRemovePage_slots (swap : Swap) (pid : Int) (virtualPage : Nat) :
    (swapRemovePage swap pid virtualPage).2.slotCount = swap.slotCount ∧
      ∀ i, (swapRemovePage swap pid virtualPage).2.slots i = swap.slots i ∨
        ((swapRemovePage swap pid virtualPage).2.slots i).used = false := by
  unfold swapRemovePage
  split
  · exact ⟨rfl, fun _ => Or.inl rfl⟩
  · split
    · exact ⟨rfl, fun _ => Or.inl rfl⟩
    · rename_i slot _
      refine ⟨rfl, fun i => ?_⟩
      by_cases e : i = slot
      · exact Or.inr (by simp [e, SwapSlot.unused])
      · exact Or.inl (Function.update_of_ne e _ _)

/-- Removing a page after it was read: the read counter is no part of what
the swap holds. -/
theorem swapTakePage_spec {swap : Swap} (h : swap.Wf) {pid : Int} {virtualPage : Nat}
    (hc : swap.content pid virtualPage ≠ none) (reads : Nat) :
    (swapRemovePage { swap with reads := reads } pid virtualPage).1 = 0 ∧
      (swapRemovePage { swap with reads := reads } pid virtualPage).2.Wf ∧
      (swapRemovePage { swap with reads := reads } pid virtualPage).2.file = swap.file ∧
      ∀ pid' page',
        (swapRemovePage { swap with reads := reads } pid virtualPage).2.content pid' page' =
          if pid' = pid ∧ page' = virtualPage then none else swap.content pid' page' := by
  have hread : ({ swap with reads := reads } : Swap).Wf := ⟨h.fits, h.length, h.unique, h.count⟩
  exact swapRemovePage_spec hread hc

theorem swapRemoveProcess_slots (swap : Swap) (pid : Int) :
    (swapRemoveProcess swap pid).2.slotCount = swap.slotCount ∧
      ∀ i, (swapRemoveProcess swap pid).2.slots i = swap.slots i ∨
        ((swapRemoveProcess swap pid).2.slots i).used = false := by
  unfold swapRemoveProcess
  split
  · exact ⟨rfl, fun _ => Or.inl rfl⟩
  · refine ⟨rfl, fun i => ?_⟩
    dsimp only
    split
    · exact Or.inr rfl
    · exact Or.inl rfl

theorem Swap.countP_belongsTo (swap : Swap) (pid : Int) :
    (List.range swap.slotCount).countP (swap.belongsTo pid) =
      (swap.usedSlots.filter fun i => (swap.slots i).pid = pid).card := by
  rw [List.countP_eq_length_filter, ← List.toFinset_card_of_nodup ((List.nodup_range).filter _)]
  congr 1
  ext i
  simp [Swap.usedSlots, Swap.belongsTo, and_assoc]

theorem swapRemoveProcess_spec {swap : Swap} (h : swap.Wf) {pid : Int} (hpid : 0 ≤ pid) :
    (swapRemoveProcess swap pid).2.Wf ∧ (swapRemoveProcess swap pid).2.file = swap.file ∧
      ∀ pid' page', (swapRemoveProcess swap pid).2.content pid' page' =
        if pid' = pid then none else swap.content pid' page' := by
  unfold swapRemoveProcess
  simp only [if_neg (Int.not_lt.mpr hpid)]
  have hback : ∀ i < swap.slotCount, ∀ pid' page',
      (if swap.belongsTo pid i then SwapSlot.unused else swap.slots i).holds pid' page' =
        (decide (pid' ≠ pid) && (swap.slots i).holds pid' page') := by
    intro i hi pid' page'
    by_cases hb : swap.belongsTo pid i = true
    · rw [if_pos hb]
      simp only [Swap.belongsTo, Bool.and_eq_true, beq_iff_eq, decide_eq_true_eq] at hb
      by_cases e : pid' = pid
      · simp [SwapSlot.holds, SwapSlot.unused, e]
      · simp [SwapSlot.holds, SwapSlot.unused, hb.2, Ne.symm e]
    · rw [if_neg hb]
      by_cases e : pid' = pid
      · simp only [Swap.belongsTo, Bool.and_eq_true, beq_iff_eq, decide_eq_true_eq] at hb
        by_contra hne
        have hh : (swap.slots i).holds pid' page' = true := by
          simpa [e] using hne
        obtain ⟨hu, hp, _⟩ := SwapSlot.holds_iff.mp hh
        exact hb ⟨⟨hi, hu⟩, hp.trans e⟩
      · simp [e]
  have hused : ∀ i, i < swap.slotCount →
      ((if swap.belongsTo pid i then SwapSlot.unused else swap.slots i).used = true ↔
        (swap.slots i).used = true ∧ (swap.slots i).pid ≠ pid) := by
    intro i hi
    by_cases hb : swap.belongsTo pid i = true
    · rw [if_pos hb]
      simp only [Swap.belongsTo, Bool.and_eq_true, beq_iff_eq, decide_eq_true_eq] at hb
      simp [SwapSlot.unused, hb.2]
    · rw [if_neg hb]
      simp only [Swap.belongsTo, Bool.and_eq_true, beq_iff_eq, decide_eq_true_eq] at hb
      exact ⟨fun hu => ⟨hu, fun hp => hb ⟨⟨hi, hu⟩, hp⟩⟩, fun hu => hu.1⟩
  have hwf : ({ swap with
      slots := fun index => if swap.belongsTo pid index then .unused else swap.slots index
      usedSlotCount := swap.usedSlotCount -
        (List.range swap.slotCount).countP (swap.belongsTo pid) } : Swap).Wf := by
    refine ⟨h.fits, h.length, fun i hi j hj pid' page' hip hjp => ?_, ?_⟩
    · have hi' : i < swap.slotCount := hi
      have hj' : j < swap.slotCount := hj
      dsimp only at hip hjp
      rw [hback i hi', Bool.and_eq_true] at hip
      rw [hback j hj', Bool.and_eq_true] at hjp
      exact h.unique i hi j hj pid' page' hip.2 hjp.2
    · change swap.usedSlotCount - _ = _
      rw [swap.countP_belongsTo, h.count, ← Finset.card_filter_add_card_filter_not
        (s := swap.usedSlots) (p := fun i => (swap.slots i).pid = pid), Nat.add_sub_cancel_left]
      congr 1
      ext i
      simp only [Swap.usedSlots, Finset.mem_filter, Finset.mem_range, and_assoc]
      exact and_congr_right fun hi => (hused i hi).symm
  refine ⟨hwf, trivial, fun pid' page' => ?_⟩
  split
  · rename_i e
    refine Swap.content_none_of fun i hi => ?_
    dsimp only at hi ⊢
    rw [hback i hi, e]
    simp
  · rename_i e
    refine hwf.content_kept swap rfl (fun i hi => ?_) fun _ _ => rfl
    rw [hback i hi]
    simp [e]

theorem swapCreate_spec {slotCount : Nat} {swap : Swap} (h : swapCreate slotCount = some swap) :
    swap.Wf ∧ swap.Works ∧ (∀ pid page, swap.content pid page = none) := by
  unfold swapCreate swapInitializeFile at h
  split at h
  · cases h
  · split at h
    · cases h
    · split at h
      · cases h
      · rename_i hfits
        cases h
        refine ⟨⟨Nat.le_of_not_lt hfits, rfl, fun i _ j _ p v hi _ => ?_, ?_⟩, ⟨rfl, rfl⟩,
          fun p v => ?_⟩
        · simp [SwapSlot.holds] at hi
        · simp [Swap.usedSlots]
        · simp [Swap.content, swapFindPageSlot, SwapSlot.holds]

end VmSim
