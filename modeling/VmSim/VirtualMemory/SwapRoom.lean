/-
VmSim.VirtualMemory.SwapRoom — how much swap a run without a fork needs.

When the memory is full, each frame holds a page without a slot
(`Pager.Exclusive.crowded`). So the pages with one are at most as many as
the pages that were used and find no place in the frames, and a dirty
victim finds a free slot as long as these are fewer than the slots.
-/
import VmSim.VirtualMemory.ForkFreeRuns

namespace VmSim

open Lib

variable {s s' : Pager} {p page f k : Nat} {isWrite : Bool} {call : Call} {answers : TlbAnswers}
  {slots : Option Nat} {result : VirtualMemoryAccessResult} {keys : Finset (Int × Nat)}

/-! ## Full memories -/

/-- The key of the page in a frame. -/
def PhysicalFrame.key (frame : PhysicalFrame) : Int × Nat := (frame.ownerPid, frame.virtualPage)

/-- The frames of a full memory hold different pages. -/
theorem Pager.Consistent.keys_injective (hc : s.Consistent)
    (hdistinct : ∀ q ∈ s.processes, s.Alone q) (hfull : s.physical.firstFree = none) :
    Set.InjOn (fun f => (s.physical.frames f).key) (Finset.range s.physical.frameCount) := by
  intro f hf g hg hkey
  obtain ⟨o, _, hpid, ho⟩ := hc.owner (PhysicalMemory.firstFree_none hfull (Finset.mem_range.mp hf))
  obtain ⟨o', _, hpid', ho'⟩ :=
    hc.owner (PhysicalMemory.firstFree_none hfull (Finset.mem_range.mp hg))
  simp only [PhysicalFrame.key, Prod.mk.injEq] at hkey
  have hsame : o = o' := hdistinct o' (hc.registered ho') o (hc.registered ho)
    (by rw [← hpid, ← hpid', hkey.1])
  rw [hsame] at ho
  exact hc.frame_unique ho ho' (by rw [hkey.2])

/-- The pages in the frames and those in the swap are different pages in
use. -/
theorem Pager.Exclusive.crowded (h : s.Exclusive) (hc : s.Consistent)
    (hdistinct : ∀ q ∈ s.processes, s.Alone q) (hkeyed : s.Keyed slots)
    (hfull : s.physical.firstFree = none) (hkeys : ∀ pid v, s.Uses pid v → (pid, v) ∈ keys) :
    s.used + s.physical.frameCount ≤ keys.card := by
  have hinjective := hc.keys_injective hdistinct hfull
  have huser : ∀ f ∈ Finset.range s.physical.frameCount, ∃ o,
      (s.physical.frames f).ownerPid = s.pid o ∧
        ⟨o, (s.physical.frames f).virtualPage⟩ ∈ s.cow.frames f := by
    intro f hf
    obtain ⟨o, _, hpid, ho⟩ :=
      hc.owner (PhysicalMemory.firstFree_none hfull (Finset.mem_range.mp hf))
    exact ⟨o, hpid, ho⟩
  have hsub : (Finset.range s.physical.frameCount).image (fun f => (s.physical.frames f).key) ⊆
      keys := by
    intro key hkey
    obtain ⟨f, hf, rfl⟩ := Finset.mem_image.mp hkey
    obtain ⟨o, hpid, ho⟩ := huser f hf
    exact hkeys _ _ (Or.inr ⟨f, _, ho, hpid.symm, rfl⟩)
  have hused := hkeyed.used_le
    (keys \ (Finset.range s.physical.frameCount).image fun f => (s.physical.frames f).key) ?_
  · rw [Finset.card_sdiff_of_subset hsub, Finset.card_image_of_injOn hinjective,
      Finset.card_range] at hused
    have hle := Finset.card_le_card hsub
    rw [Finset.card_image_of_injOn hinjective, Finset.card_range] at hle
    omega
  · intro pid v hslot
    refine Finset.mem_sdiff.mpr ⟨hkeys pid v (Or.inl hslot), fun hin => hslot ?_⟩
    obtain ⟨f, hf, hkey⟩ := Finset.mem_image.mp hin
    obtain ⟨o, hpid, ho⟩ := huser f hf
    simp only [PhysicalFrame.key, Prod.mk.injEq] at hkey
    obtain ⟨rfl, rfl⟩ := hkey
    rw [hpid]
    exact h f _ ho

/-! ## Victims -/

/-- Fewer pages are in use than there are frames and slots. -/
def Pager.Spacious (s : Pager) (slots : Option Nat) (keys : Finset (Int × Nat)) : Prop :=
  (∀ pid v, s.Uses pid v → (pid, v) ∈ keys) ∧
    ∀ count, slots = some count → 0 < count → keys.card < s.physical.frameCount + count

/-- A victim is saved. -/
theorem Pager.Solitary.saves (h : s.Solitary slots k) (hc : s.Consistent)
    (hdistinct : ∀ q ∈ s.processes, s.Alone q) (hspacious : s.Spacious slots keys)
    {policy : ReplacementPolicy} (hfull : s.physical.firstFree = none)
    (hocc : (s.physical.frames f).occupied = true)
    (hchosen : Pager.Consistent { s.countFault with policy := policy }) :
    Pager.saveVictim { s.countFault with policy := policy } f ≠ none := by
  intro hrefused
  have hlive : 0 ≤ (s.physical.frames f).ownerPid := hc.owner_live hocc
  unfold Pager.saveVictim at hrefused
  split at hrefused
  · cases hrefused
  · rename_i hsave
    obtain ⟨swap, hswap⟩ := Option.ne_none_iff_exists'.mp fun e : s.swap = none =>
      hsave (Or.inr (Option.isNone_iff_eq_none.mpr e))
    obtain ⟨_, hslots⟩ := (hchosen.store_none hlive).mp hrefused
    change s.used = s.slotCount at hslots
    obtain ⟨count, hpos, hcount, m, hm⟩ := h.keyed swap hswap
    have hcrowded := h.exclusive.crowded hc hdistinct h.keyed hfull hspacious.1
    have hroom := hspacious.2 count hcount hpos
    rw [hslots, Pager.slotCount_some hswap, hm.slotCount] at hcrowded
    omega

theorem Pager.Outcome.saved (hend : s.Outcome p page isWrite result s')
    (h : s.Solitary slots k) (hc : s.Consistent) (hdistinct : ∀ q ∈ s.processes, s.Alone q)
    (hspacious : s.Spacious slots keys) :
    result.isError = false ∧ s'.mapped p page ≠ none := by
  have hcounted : s.countFault.Consistent := hc.setStats _
  have hloaded : ∀ (s : Pager) (f : Nat), (s.load p page f isWrite).mapped p page ≠ none := by
    intro s f
    rw [(s.load_eq p page f isWrite).2.2.1]
    simp [rebind]
  cases hend with
  | resident hm => exact ⟨rfl, fun hnone => Option.some_ne_none _ (hm.symm.trans hnone)⟩
  | placed hm hf => exact ⟨rfl, hloaded s.countFault _⟩
  | replaced hm hfull hchoose hocc hsaved => exact ⟨rfl, hloaded (Pager.evict _ _) _⟩
  | refused hm hfull hchoose hocc hsaved =>
    exact absurd hsaved (h.saves hc hdistinct hspacious hfull hocc (hcounted.chosen hchoose))

/-- No access fails. -/
theorem Pager.Solitary.served (h : s.Solitary slots k) (hc : s.Consistent)
    (hdistinct : ∀ q ∈ s.processes, s.Alone q) (hspacious : s.Spacious slots keys)
    (hk : k + 1 < wordSize) (ha : s.Allows (· < 2 ^ 36) call) (ht : call.target ≠ none)
    (hf : s.Faithful call answers) : (s.step answers call).1.succeeded = true := by
  obtain ⟨⟨p, page⟩, ht⟩ := Option.ne_none_iff_exists'.mp ht
  have haccess : ∀ isWrite, (s.access answers p page isWrite).1.isError = false ∧
      (s.access answers p page isWrite).2.mapped p page ≠ none := by
    intro isWrite
    obtain ⟨hp, halone, _⟩ := ha.target ht
    have hend := hc.outcome h.unforked h.policy hk hp (fun f => hf.hit p page f ht) hf.recorded
      isWrite
    have hc₁ : ((s.register p).count isWrite).Consistent := (hc.register hp).setStats _
    have hdistinct₁ : ∀ q ∈ ((s.register p).count isWrite).processes,
        ((s.register p).count isWrite).Alone q := halone.register hdistinct
    obtain ⟨processes, stats, heq⟩ := s.counted_eq p isWrite
    rw [heq] at hend hc₁ hdistinct₁
    have h₁ : Pager.Solitary { s with processes := processes, stats := stats } slots k :=
      h.congr rfl rfl rfl h.policy
    have hspacious₁ : Pager.Spacious { s with processes := processes, stats := stats } slots keys :=
      ⟨fun pid v hu => hspacious.1 pid v (hu.congr rfl rfl rfl), hspacious.2⟩
    exact hend.saved h₁ hc₁ hdistinct₁ hspacious₁
  cases call with
  | access p' a t =>
    cases ht
    show (!(s.access answers p _ _).1.isError) = true
    rw [(haccess _).1]
    rfl
  | readByte p' a =>
    cases ht
    obtain ⟨hok, hm⟩ := haccess false
    show (s.readByte answers p a).1.isSome = true
    simp only [Pager.readByte, hok]
    simpa using Option.isSome_iff_ne_none.mpr hm
  | writeByte p' a value =>
    cases ht
    obtain ⟨hok, hm⟩ := haccess true
    obtain ⟨f, hf'⟩ := Option.ne_none_iff_exists'.mp hm
    show (s.writeByte answers p a value).1 = true
    simp only [Pager.writeByte, hok, hf']
    rfl
  | _ => cases ht

/-- Calls other than a fork leave the number of frames. -/
theorem Pager.Consistent.step_frameCount (hc : s.Consistent) (answers : TlbAnswers)
    (hfork : call.isFork = false) :
    (s.step answers call).2.physical.frameCount = s.physical.frameCount := by
  have haccess : ∀ p page isWrite,
      (s.access answers p page isWrite).2.physical.frameCount = s.physical.frameCount := by
    intro p page isWrite
    rw [(s.evolves_access answers p page isWrite).frameCount, Pager.register_eq]
  cases call with
  | createProcess pid =>
    show (s.create pid).2.physical.frameCount = s.physical.frameCount
    unfold Pager.create
    split <;> rfl
  | access p a t => exact haccess p _ _
  | readByte p a =>
    show (s.readByte answers p a).2.physical.frameCount = s.physical.frameCount
    rw [Pager.readByte_state, haccess]
  | writeByte p a value =>
    show (s.writeByte answers p a value).2.physical.frameCount = s.physical.frameCount
    rw [(s.evolves_writeByte answers p a value).frameCount, Pager.register_eq]
  | fork p childPid => cases hfork
  | release p =>
    exact (Pager.Consistent.releaseFrames p (List.range s.physical.frameCount) s hc).frameCount

end VmSim
