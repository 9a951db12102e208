/-
VmSim.VirtualMemory.Slots — how many swap slots are in use.

A page is refused exactly if it has no slot and all slots are in use; a
page that is restored gives its slot back. From this follows when the
readers of a shared page find room in swap, and when an attempt that ends
without room has left the slots as they were.
-/
import VmSim.VirtualMemory.Views

namespace VmSim

open Lib

variable {s s' : Pager} {p q page f v : Nat} {pid : Int} {data : PageData} {writer : CowMapping}
  {readers : List CowMapping}

/-! ## Counting -/

/-- `swap_used_slot_count`; 0 without a swap. -/
def Pager.used (s : Pager) : Nat := (s.swap.map (·.usedSlotCount)).getD 0

def Pager.slotCount (s : Pager) : Nat := (s.swap.map (·.slotCount)).getD 0

/-- The slots that are not in use. -/
def Pager.room (s : Pager) : Nat := s.slotCount - s.used

theorem Pager.used_some {swap : Swap} (h : s.swap = some swap) : s.used = swap.usedSlotCount := by
  rw [Pager.used, h]
  rfl

theorem Pager.slotCount_some {swap : Swap} (h : s.swap = some swap) :
    s.slotCount = swap.slotCount := by
  rw [Pager.slotCount, h]
  rfl

theorem Pager.used_congr (h : s'.swap = s.swap) :
    s'.used = s.used ∧ s'.slotCount = s.slotCount := by
  rw [Pager.used, Pager.slotCount, h]
  exact ⟨rfl, rfl⟩

theorem Pager.Consistent.used_le (h : s.Consistent) : s.used ≤ s.slotCount := by
  cases hswap : s.swap with
  | none =>
    rw [Pager.used, Pager.slotCount, hswap]
    exact Nat.le_refl 0
  | some swap =>
    rw [Pager.used_some hswap, Pager.slotCount_some hswap]
    exact (h.swap swap hswap).1.used_le

/-- A slot that is found is counted. -/
theorem Pager.Consistent.used_pos (h : s.Consistent) (hs : s.slot pid v ≠ none) : 0 < s.used := by
  cases hswap : s.swap with
  | none => simp [Pager.slot, hswap] at hs
  | some swap =>
    rw [Pager.slot_some hswap] at hs
    obtain ⟨hwf, _⟩ := h.swap swap hswap
    have hfind : swapFindPageSlot swap pid v ≠ none := fun e => hs (by rw [Swap.content, e]; rfl)
    obtain ⟨i, hi⟩ := Option.ne_none_iff_exists'.mp hfind
    obtain ⟨hlt, hh⟩ := swapFindPageSlot_some hi
    rw [Pager.used_some hswap, hwf.count, Finset.card_pos]
    exact ⟨i, Finset.mem_filter.mpr ⟨Finset.mem_range.mpr hlt, (SwapSlot.holds_iff.mp hh).1⟩⟩

/-- A page is refused exactly if it is new and no slot is left. -/
theorem Pager.Consistent.store_none (h : s.Consistent) (hpid : 0 ≤ pid) :
    s.store pid page data = none ↔ s.slot pid page = none ∧ s.used = s.slotCount := by
  unfold Pager.store
  cases hswap : s.swap with
  | none =>
    simp [Pager.slot, Pager.used, Pager.slotCount, hswap]
  | some swap =>
    obtain ⟨hwf, hworks⟩ := h.swap swap hswap
    rw [Pager.slot_some hswap, Pager.used_some hswap, Pager.slotCount_some hswap]
    rcases swapWritePage_spec hwf hworks hpid page data with ⟨hcode, _⟩ | ⟨hrefused, hnone⟩
    · dsimp only
      rw [if_pos hcode]
      constructor
      · intro hsome
        cases hsome
      · rintro ⟨hnone, hfull⟩
        rw [(swapWritePage_full hwf hworks hpid hnone data).mpr hfull] at hcode
        cases hcode
    · dsimp only
      rw [hrefused, if_neg (show ¬(-2 : Int) = 0 by decide)]
      exact ⟨fun _ => ⟨hnone, (swapWritePage_full hwf hworks hpid hnone data).mp hrefused⟩,
        fun _ => rfl⟩

theorem Pager.store_used (hs : s.store pid page data = some s') :
    s'.slotCount = s.slotCount ∧
      s'.used = if s.slot pid page = none then s.used + 1 else s.used := by
  obtain ⟨swap, hswap, hcode, rfl⟩ := Pager.store_eq hs
  rw [Pager.slot_some hswap, Pager.used_some hswap, Pager.slotCount_some hswap]
  exact ⟨(swapWritePage_slots swap pid page data).1, swapWritePage_used hcode⟩

theorem Pager.restore_used (s : Pager) (p page f : Nat) :
    (s.restore p page f).slotCount = s.slotCount ∧ (s.restore p page f).used =
      if s.slot (s.pid p) page = none then s.used else s.used - 1 := by
  cases hc : s.slot (s.pid p) page with
  | none =>
    rw [Pager.restore_none fun swap hswap => by rw [← Pager.slot_some hswap, hc]]
    exact ⟨rfl, rfl⟩
  | some data =>
    obtain ⟨swap, hswap, hcontent⟩ := Option.bind_eq_some_iff.mp hc
    rw [Pager.restore_some hswap hcontent, if_neg (Option.some_ne_none data),
      Pager.used_some hswap, Pager.slotCount_some hswap]
    have hc' : ({ swap with reads := (swap.reads + 1) % wordSize } : Swap).content (s.pid p) page ≠
        none := by
      rw [show ({ swap with reads := (swap.reads + 1) % wordSize } : Swap).content (s.pid p) page =
        some data from hcontent]
      exact Option.some_ne_none data
    exact ⟨(swapRemovePage_slots _ _ _).1, swapRemovePage_used hc'⟩

/-! ## The readers of a shared page -/

/-- The readers that need a slot and have none. -/
def Pager.unsaved (s : Pager) (writer : CowMapping) (readers : List CowMapping) : Nat :=
  readers.countP fun r => decide (r ≠ writer) && (s.slot (s.pid r.process) r.virtualPage).isNone

/-- The readers that would be saved in place, up to the first that needs a
new slot. -/
def Pager.overwritten (s : Pager) (writer : CowMapping) (readers : List CowMapping) :
    List CowMapping :=
  (readers.filter fun r => decide (r ≠ writer)).takeWhile fun r =>
    (s.slot (s.pid r.process) r.virtualPage).isSome

/-- Different mappings of a frame have different slots. -/
def Pager.KeysDiffer (s : Pager) (readers : List CowMapping) : Prop :=
  readers.Pairwise fun r r' => ¬(s.pid r'.process = s.pid r.process ∧
    r'.virtualPage = r.virtualPage)

theorem Pager.unsaved_cons (s : Pager) (writer r : CowMapping) (readers : List CowMapping) :
    s.unsaved writer (r :: readers) = s.unsaved writer readers +
      if r ≠ writer ∧ s.slot (s.pid r.process) r.virtualPage = none then 1 else 0 := by
  rw [Pager.unsaved, List.countP_cons]
  simp only [Bool.and_eq_true, decide_eq_true_eq, Option.isNone_iff_eq_none]
  rfl

/-- The readers do not all fit exactly if fewer slots are left than are
needed. -/
theorem Pager.Consistent.saveReaders_fails (writer : CowMapping) (data : PageData)
    (readers : List CowMapping) : ∀ s : Pager, s.Consistent →
      (∀ r ∈ readers, r.process ∈ s.processes) → s.KeysDiffer readers →
      ((Pager.saveReaders writer data readers s).1 = false ↔
        s.room < s.unsaved writer readers) := by
  induction readers with
  | nil => exact fun s _ _ _ => by simp [Pager.saveReaders, Pager.unsaved]
  | cons r readers ih =>
    intro s h hreg hkeys
    obtain ⟨hr, hreg'⟩ := List.forall_mem_cons.mp hreg
    obtain ⟨hdiffer, hkeys'⟩ := List.pairwise_cons.mp hkeys
    unfold Pager.saveReaders
    rw [Pager.unsaved_cons]
    by_cases hwriter : r = writer
    · rw [if_pos hwriter, if_neg fun hboth => hboth.1 hwriter]
      exact ih s h hreg' hkeys'
    · rw [if_neg hwriter]
      have hused := h.used_le
      have hrefused : s.store (s.pid r.process) r.virtualPage data = none ↔ _ :=
        h.store_none (h.live _ hr)
      cases hs : s.store (s.pid r.process) r.virtualPage data with
      | none =>
        obtain ⟨hnone, hfull⟩ := hrefused.mp hs
        have hroom : s.room = 0 := by
          rw [Pager.room, hfull, Nat.sub_self]
        rw [if_pos ⟨hwriter, hnone⟩, hroom]
        simp
      | some s₁ =>
        have h₁ := h.store hr hs
        have hslot := h.store_slot (h.live _ hr) hs
        obtain ⟨hcount, hused₁⟩ := Pager.store_used hs
        have hstays : s₁.pid = s.pid ∧ s₁.processes = s.processes := by
          obtain ⟨_, _, _, rfl⟩ := Pager.store_eq hs
          exact ⟨rfl, rfl⟩
        have hrest : s₁.unsaved writer readers = s.unsaved writer readers := by
          refine List.countP_congr fun r' hr' => ?_
          rw [hstays.1, hslot, if_neg (hdiffer r' hr')]
        dsimp only
        rw [ih s₁ h₁ (hstays.2 ▸ hreg') (by rw [Pager.KeysDiffer, hstays.1]; exact hkeys'), hrest,
          Pager.room, Pager.room, hcount, hused₁]
        cases hc : s.slot (s.pid r.process) r.virtualPage with
        | none =>
          have hne : s.used ≠ s.slotCount := fun e => by
            rw [hrefused.mpr ⟨hc, e⟩] at hs
            cases hs
          rw [if_pos rfl, if_pos ⟨hwriter, rfl⟩]
          omega
        | some d =>
          rw [if_neg (Option.some_ne_none d), if_neg fun hboth => Option.some_ne_none d hboth.2]
          rfl

/-- An attempt that fails has left the slots as they were exactly if none
was free and what was overwritten was the same. -/
theorem Pager.Consistent.saveReaders_unchanged (writer : CowMapping) (data : PageData)
    (readers : List CowMapping) : ∀ s : Pager, s.Consistent →
      (∀ r ∈ readers, r.process ∈ s.processes) →
      (Pager.saveReaders writer data readers s).1 = false →
      ((∀ pid v, (Pager.saveReaders writer data readers s).2.slot pid v = s.slot pid v) ↔
        s.room = 0 ∧ ∀ r ∈ s.overwritten writer readers,
          s.slot (s.pid r.process) r.virtualPage = some data) := by
  induction readers with
  | nil => exact fun s _ _ hfail => by cases hfail
  | cons r readers ih =>
    intro s h hreg hfail
    obtain ⟨hr, hreg'⟩ := List.forall_mem_cons.mp hreg
    unfold Pager.saveReaders at hfail ⊢
    unfold Pager.overwritten
    rw [List.filter_cons]
    by_cases hwriter : r = writer
    · rw [if_pos hwriter] at hfail
      rw [if_pos hwriter, if_neg (by simp [hwriter])]
      exact ih s h hreg' hfail
    · rw [if_neg hwriter] at hfail
      rw [if_neg hwriter, if_pos (by simp [hwriter]), List.takeWhile_cons]
      cases hs : s.store (s.pid r.process) r.virtualPage data with
      | none =>
        obtain ⟨hnone, hfull⟩ := (h.store_none (h.live _ hr)).mp hs
        rw [hnone]
        simp [Pager.room, hfull]
      | some s₁ =>
        rw [hs] at hfail
        have h₁ := h.store hr hs
        have hslot := h.store_slot (h.live _ hr) hs
        obtain ⟨hcount, hused₁⟩ := Pager.store_used hs
        have hstays : s₁.pid = s.pid ∧ s₁.processes = s.processes := by
          obtain ⟨_, _, _, rfl⟩ := Pager.store_eq hs
          exact ⟨rfl, rfl⟩
        have hreg₁ : ∀ r ∈ readers, r.process ∈ s₁.processes := hstays.2 ▸ hreg'
        -- whatever comes after it, the slot of this reader holds the page in the end
        have hsaved : (Pager.saveReaders writer data readers s₁).2.slot (s.pid r.process)
            r.virtualPage = some data := by
          rcases Pager.Consistent.saveReaders_slot writer data readers s₁ h₁ hreg₁
            (s.pid r.process) r.virtualPage with hsame | ⟨hdata, _⟩
          · rw [hsame, hslot, if_pos ⟨rfl, rfl⟩]
          · exact hdata
        dsimp only at hfail ⊢
        cases hc : s.slot (s.pid r.process) r.virtualPage with
        | none =>
          have hne : s.used ≠ s.slotCount := fun e => by
            rw [(h.store_none (h.live _ hr)).mpr ⟨hc, e⟩] at hs
            cases hs
          have hused := h.used_le
          constructor
          · intro hsame
            rw [hsame, hc] at hsaved
            cases hsaved
          · rintro ⟨hroom, _⟩
            rw [Pager.room] at hroom
            omega
        | some d =>
          rw [if_pos Option.isSome_some, List.forall_mem_cons, hc]
          by_cases hd : d = data
          · subst hd
            have hsame : ∀ pid v, s₁.slot pid v = s.slot pid v := fun pid v => by
              rw [hslot]
              split
              · rename_i hkey
                rw [hkey.1, hkey.2, hc]
              · rfl
            have hroom : s₁.room = s.room := by
              rw [Pager.room, Pager.room, hcount, hused₁, hc, if_neg (Option.some_ne_none d)]
            have hover : s₁.overwritten writer readers = s.overwritten writer readers := by
              unfold Pager.overwritten
              congr 1
              funext r'
              rw [hstays.1, hsame]
            have hih := ih s₁ h₁ hreg₁ hfail
            rw [hroom, hover, hstays.1] at hih
            simp only [hsame] at hih
            rw [hih]
            exact and_congr_right fun _ => ⟨fun hall => ⟨rfl, hall⟩, fun hall => hall.2⟩
          · constructor
            · intro hsame
              rw [hsame, hc] at hsaved
              exact absurd (Option.some.inj hsaved) hd
            · rintro ⟨_, he, _⟩
              exact absurd (Option.some.inj he) hd

/-- Saving readers gives no slot back. -/
theorem Pager.saveReaders_used (writer : CowMapping) (data : PageData)
    (readers : List CowMapping) : ∀ s : Pager,
      (Pager.saveReaders writer data readers s).2.slotCount = s.slotCount ∧
        s.used ≤ (Pager.saveReaders writer data readers s).2.used := by
  induction readers with
  | nil => exact fun s => ⟨rfl, Nat.le_refl _⟩
  | cons r readers ih =>
    intro s
    unfold Pager.saveReaders
    split
    · exact ih s
    · split
      · exact ⟨rfl, Nat.le_refl _⟩
      · rename_i s₁ hs
        obtain ⟨hcount, hused⟩ := Pager.store_used hs
        obtain ⟨hcount', hused'⟩ := ih s₁
        refine ⟨hcount'.trans hcount, Nat.le_trans ?_ hused'⟩
        rw [hused]
        split <;> omega

/-- The readers of a frame have slots of their own. -/
theorem Pager.Consistent.keysDiffer (h : s.Consistent) (hdistinct : ∀ q ∈ s.processes, s.Alone q)
    (f : Nat) : s.KeysDiffer (s.cow.frames f) := by
  by_cases hf : f < s.physical.frameCount
  · have hlinked := h.frame f hf
    refine hlinked.nodup.imp_of_mem ?_
    rintro ⟨q, u⟩ ⟨q', u'⟩ hr hr' hne ⟨hpid, hpage⟩
    have hprocess : q' = q := hdistinct q (h.registered hr) q' (h.registered hr') hpid
    exact hne (congrArg₂ CowMapping.mk hprocess.symm hpage.symm)
  · rw [h.beyond f (Nat.le_of_not_lt hf)]
    exact List.Pairwise.nil

end VmSim
