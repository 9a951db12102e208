/-
VmSim.VirtualMemory.ForkFree — the pager as long as no frame is shared.

Without a fork every frame has at most one user (`Pager.Unforked`), and an
access whose translation the TLB takes ends in one of four ways
(`Pager.Outcome`): the page is resident, a free frame or a victim is
found for it, or the victim finds no room in swap. `Pager.Solitary`
collects what such accesses keep.
-/
import VmSim.VirtualMemory.Refusals
import VmSim.VirtualMemory.Lockstep
import VmSim.Replacement.Victim
import VmSim.SwapMap

namespace VmSim

open Lib

variable {s s' : Pager} {p q page f v k : Nat} {isWrite : Bool} {answers : TlbAnswers}
  {pid : Int} {slots : Option Nat} {result : VirtualMemoryAccessResult}

/-! ## Frames with one user -/

def Pager.Unforked (s : Pager) : Prop := ∀ f, (s.cow.frames f).length ≤ 1

theorem Pager.Unforked.congr (h : s.Unforked) (hcow : s'.cow.frames = s.cow.frames) :
    s'.Unforked := fun f => by
  rw [hcow]
  exact h f

/-- Fewer users keep frames from being shared. -/
theorem Pager.Consistent.unforked_of (h : s'.Consistent) (hu : s.Unforked)
    (husers : ∀ f, ∀ m ∈ s'.cow.frames f, m ∈ s.cow.frames f) : s'.Unforked := by
  intro f
  by_cases hf : f < s'.physical.frameCount
  · exact ((h.frame f hf).nodup.subperm (husers f)).length_le.trans (hu f)
  · rw [h.beyond f (Nat.le_of_not_lt hf)]
    exact Nat.zero_le 1

theorem Pager.Unforked.load (h : s.Unforked) (hc : s.Consistent)
    (hf : f < s.physical.frameCount) (hfree : (s.physical.frames f).occupied = false)
    (p page : Nat) (isWrite : Bool) : (s.load p page f isWrite).Unforked := by
  intro g
  rw [hc.load_users hf hfree]
  by_cases e : g = f
  · rw [e, Function.update_self]
    exact Nat.le_refl 1
  · rw [Function.update_of_ne e]
    exact h g

theorem Pager.Unforked.cowWrite (h : s.Unforked) (p page f : Nat) (moved : Bool) :
    s.cowWrite p page f moved = (some f, s) := by
  rw [Pager.cowWrite, if_pos (h f)]

theorem Pager.Unforked.cowCalls (h : s.Unforked) (p page f : Nat) : s.cowCalls p page f = [] := by
  rw [Pager.cowCalls, if_pos (h f)]

theorem Pager.Unforked.resident (h : s.Unforked) (p page f : Nat) (isWrite moved recorded : Bool) :
    s.resident p page f isWrite moved recorded =
      if recorded then (.ok, s.notify f isWrite) else (.internalError, s) := by
  have hg : (s.writable p page f isWrite moved).1 = some f ∧
      (s.writable p page f isWrite moved).2 = s := by
    unfold Pager.writable
    rw [h.cowWrite]
    split <;> exact ⟨rfl, rfl⟩
  rw [Pager.resident_some hg.1, hg.2]

theorem Pager.Unforked.evict (h : s.Unforked) (hc : s.Consistent)
    (hocc : (s.physical.frames f).occupied = true) : (s.evict f).Unforked := by
  intro g
  rw [hc.evict_users hocc (h f)]
  by_cases e : g = f
  · rw [e, Function.update_self]
    exact Nat.zero_le 1
  · rw [Function.update_of_ne e]
    exact h g

theorem Pager.Unforked.replace (h : s.Unforked) (hc : s.Consistent) (hm : s.mapped p page = none)
    (isWrite recorded : Bool) : (s.replace p page isWrite recorded).2.Unforked := by
  refine hc.replace_rule hm isWrite recorded (fun _ _ => h) (fun f policy saved hv => ?_)
    fun s' dirty h' => h'
  have hevicted : (saved.evict f).Unforked := by
    have hocc := hv.occupied
    have hsaved := hv.consistent
    obtain ⟨swap, stats, rfl⟩ := Pager.saveVictim_eq hv.victim
    have h₂ : Pager.Unforked { s with policy := policy, swap := swap, stats := stats } := h
    exact h₂.evict hsaved hocc
  exact hevicted.load hv.evicted hv.lt hv.free p page isWrite

theorem Pager.Unforked.fault (h : s.Unforked) (hc : s.Consistent) (hm : s.mapped p page = none)
    (isWrite recorded : Bool) : (s.fault p page isWrite recorded).2.Unforked := by
  have hcounted : s.countFault.Consistent := hc.setStats _
  have h₁ : s.countFault.Unforked := h
  refine hc.fault_rule isWrite recorded (fun f _ hlt hfree => ?_) (fun _ => ?_) fun s' h' => h'
  · exact h₁.load hcounted hlt hfree p page isWrite
  · exact h₁.replace hcounted hm isWrite recorded

/-- No access makes a page shared. -/
theorem Pager.Unforked.access (h : s.Unforked) (hc : s.Consistent) (hp : 0 ≤ s.pid p)
    (answers : TlbAnswers) (page : Nat) (isWrite : Bool) :
    (s.access answers p page isWrite).2.Unforked := by
  have hc₁ : ((s.register p).count isWrite).Consistent := (hc.register hp).setStats _
  have hm₁ : ((s.register p).count isWrite).mapped = s.mapped := by
    rw [Pager.register_eq]
    rfl
  have h₁ : ((s.register p).count isWrite).Unforked := by
    rw [Pager.register_eq]
    exact h
  have hresident : ∀ f recorded, (((s.register p).count isWrite).resident p page f isWrite
      answers.moved recorded).2.Unforked := by
    intro f recorded
    rw [h₁.resident]
    split
    · exact h₁
    · exact h₁
  rcases s.access_cases answers p page isWrite with ⟨f, recorded, _, haccess⟩ | ⟨_, hm, haccess⟩
  · rw [haccess]
    exact hresident f recorded
  · rw [haccess]
    exact h₁.fault hc₁ (by rw [hm₁]; exact hm) isWrite _

/-! ## The ends of an access -/

/-- What an access returns and leaves, from the state that has counted
it. -/
inductive Pager.Outcome (s : Pager) (p page : Nat) (isWrite : Bool) :
    VirtualMemoryAccessResult → Pager → Prop where
  | resident {f : Nat} (hm : s.mapped p page = some f) :
    Outcome s p page isWrite .ok (s.notify f isWrite)
  | placed {f : Nat} (hm : s.mapped p page = none) (hf : s.physical.firstFree = some f) :
    Outcome s p page isWrite .pageFault (s.countFault.load p page f isWrite).tick
  | replaced {f : Nat} {policy : ReplacementPolicy} {saved : Pager}
    (hm : s.mapped p page = none) (hfull : s.physical.firstFree = none)
    (hchoose : replacementPolicyChooseVictim s.policy = some (f, policy))
    (hocc : (s.physical.frames f).occupied = true)
    (hsaved : Pager.saveVictim { s.countFault with policy := policy } f = some saved) :
    Outcome s p page isWrite .pageFault
      (((saved.evict f).load p page f isWrite).countReplacement (s.physical.frames f).dirty).tick
  | refused {f : Nat} {policy : ReplacementPolicy}
    (hm : s.mapped p page = none) (hfull : s.physical.firstFree = none)
    (hchoose : replacementPolicyChooseVictim s.policy = some (f, policy))
    (hocc : (s.physical.frames f).occupied = true)
    (hsaved : Pager.saveVictim { s.countFault with policy := policy } f = none) :
    Outcome s p page isWrite s.faultError { s.countFault with policy := policy }

theorem Pager.Consistent.chosen (h : s.Consistent) {policy : ReplacementPolicy}
    (hchoose : replacementPolicyChooseVictim s.policy = some (f, policy)) :
    Pager.Consistent { s with policy := policy } := by
  obtain ⟨f', policy', hchoose', _, hchosen⟩ := h.chooseVictim
  rw [hchoose] at hchoose'
  cases hchoose'
  exact hchosen

/-- A full memory has a victim. -/
theorem Pager.Consistent.victim (h : s.Consistent) (hfresh : s.policy.Fresh k)
    (hk : k + 1 < wordSize) (hfull : s.physical.firstFree = none) :
    ∃ f policy, replacementPolicyChooseVictim s.policy = some (f, policy) ∧
      f ≠ replacementInvalidFrame ∧ (s.physical.frames f).occupied = true := by
  obtain ⟨f, policy, hchoose, hvictim, _⟩ := h.chooseVictim
  have hloaded : s.policy.loaded 0 = true := by
    rw [h.loaded]
    unfold PhysicalMemory.firstFree at hfull
    simpa using List.find?_eq_none.mp hfull 0 (List.mem_range.mpr h.pos)
  have hvalid := h.policy.victim hfresh hk hloaded hchoose
  exact ⟨f, policy, hchoose, hvalid, hvictim.resolve_left hvalid⟩

theorem Pager.Consistent.fault_outcome (h : s.Consistent) (hu : s.Unforked)
    (hfresh : s.policy.Fresh k) (hk : k + 1 < wordSize) (hm : s.mapped p page = none)
    (isWrite : Bool) : s.Outcome p page isWrite (s.fault p page isWrite true).1
      (s.fault p page isWrite true).2 := by
  unfold Pager.fault
  cases hfree : s.physical.firstFree with
  | some f => exact .placed hm hfree
  | none =>
    obtain ⟨f, policy, hchoose, hvalid, hocc⟩ := h.victim hfresh hk hfree
    have hnot : ¬(f = replacementInvalidFrame ∨ 1 < (s.countFault.cow.frames f).length) :=
      not_or.mpr ⟨hvalid, Nat.not_lt.mpr (hu f)⟩
    have hchoose' : replacementPolicyChooseVictim s.countFault.policy = some (f, policy) := hchoose
    simp only [Pager.replace, hchoose']
    rw [if_neg hnot]
    cases hsaved : Pager.saveVictim { s.countFault with policy := policy } f with
    | none => exact .refused hm hfree hchoose hocc hsaved
    | some saved => exact .replaced hm hfree hchoose hocc hsaved

theorem Pager.Consistent.outcome (h : s.Consistent) (hu : s.Unforked)
    (hfresh : s.policy.Fresh k) (hk : k + 1 < wordSize) (hp : 0 ≤ s.pid p)
    (hhit : ∀ f, answers.hit = some f → s.mapped p page = some f)
    (hrecorded : answers.recorded = true) (isWrite : Bool) :
    ((s.register p).count isWrite).Outcome p page isWrite
      (s.access answers p page isWrite).1 (s.access answers p page isWrite).2 := by
  obtain ⟨processes, stats, heq⟩ := s.counted_eq p isWrite
  have hc₁ : ((s.register p).count isWrite).Consistent := (h.register hp).setStats _
  have hresident : ∀ f moved, s.mapped p page = some f →
      ((s.register p).count isWrite).Outcome p page isWrite
        (((s.register p).count isWrite).resident p page f isWrite moved true).1
        (((s.register p).count isWrite).resident p page f isWrite moved true).2 := by
    intro f moved hm
    have hu₁ : ((s.register p).count isWrite).Unforked := by
      rw [heq]
      exact hu
    have hm₁ : ((s.register p).count isWrite).mapped p page = some f := by
      rw [heq]
      exact hm
    rw [hu₁.resident, if_pos rfl]
    exact .resident hm₁
  cases hfound : answers.hit with
  | some f =>
    rw [Pager.access_hit hfound]
    exact hresident f _ (hhit f hfound)
  | none =>
    cases hm : s.mapped p page with
    | some f =>
      rw [Pager.access_walked hfound hm, hrecorded]
      exact hresident f _ hm
    | none =>
      rw [Pager.access_fault hfound hm, hrecorded]
      rw [heq] at hc₁ ⊢
      exact hc₁.fault_outcome hu hfresh hk hm isWrite

/-! ## The swap as a map -/

/-- The swap, if there is one, has the slots it was created with and is a
map from keys to pages. -/
def Pager.Keyed (s : Pager) (slots : Option Nat) : Prop :=
  ∀ swap, s.swap = some swap → ∃ n, 0 < n ∧ slots = some n ∧ ∃ m : SwapMap n, swap.Represents m

theorem Pager.Keyed.congr (h : s.Keyed slots) (hswap : s'.swap = s.swap) : s'.Keyed slots := by
  unfold Pager.Keyed at *
  rwa [hswap]

theorem Pager.Keyed.store (h : s.Keyed slots) (hpid : 0 ≤ pid) {data : PageData}
    (hs : s.store pid v data = some s') : s'.Keyed slots := by
  obtain ⟨swap, hswap, _, rfl⟩ := Pager.store_eq hs
  intro swap' he
  cases he
  obtain ⟨n, hpos, hslots, m, hm⟩ := h swap hswap
  exact ⟨n, hpos, hslots, _, (hm.write hpid v data).2⟩

theorem Pager.Keyed.saveVictim (h : s.Keyed slots) (hc : s.Consistent)
    (hocc : (s.physical.frames f).occupied = true) (hs : s.saveVictim f = some s') :
    s'.Keyed slots := by
  have hlive : 0 ≤ (s.physical.frames f).ownerPid := hc.owner_live hocc
  unfold Pager.saveVictim at hs
  split at hs
  · cases hs
    exact h
  · exact h.store hlive hs

theorem Pager.Keyed.restore (h : s.Keyed slots) (hp : 0 ≤ s.pid p) (page f : Nat) :
    (s.restore p page f).Keyed slots := by
  unfold Pager.restore
  split
  · exact h
  · rename_i swap hswap
    split
    · exact h
    · rename_i data hcontent
      intro swap' he
      cases he
      obtain ⟨n, hpos, hslots, m, hm⟩ := h swap hswap
      have hread := (hm.read hp page).2
      rw [Swap.step, swapReadPage_spec hm.wf hm.works hcontent] at hread
      exact ⟨n, hpos, hslots, _, (hread.remove hp page).2⟩

theorem Pager.Keyed.load (h : s.Keyed slots) (hp : 0 ≤ s.pid p) (page f : Nat) (isWrite : Bool) :
    (s.load p page f isWrite).Keyed slots := by
  have hplaced : (s.place p page f).Keyed slots := h.congr rfl
  exact (hplaced.restore hp page f).congr rfl

theorem Pager.Keyed.forget (h : s.Keyed slots) (hp : 0 ≤ s.pid p) : (s.forget p).Keyed slots := by
  intro swap' he
  obtain ⟨swap, hswap, rfl⟩ := Option.map_eq_some_iff.mp he
  obtain ⟨n, hpos, hslots, m, hm⟩ := h swap hswap
  exact ⟨n, hpos, hslots, _, (hm.removeProcess hp).2⟩

/-- As many slots are in use as there are keys with a slot. -/
theorem Pager.Keyed.used_le (h : s.Keyed slots) (keys : Finset (Int × Nat))
    (hkeys : ∀ pid v, s.slot pid v ≠ none → (pid, v) ∈ keys) : s.used ≤ keys.card := by
  cases hswap : s.swap with
  | none =>
    rw [Pager.used, hswap]
    exact Nat.zero_le _
  | some swap =>
    obtain ⟨n, _, _, m, hm⟩ := h swap hswap
    rw [Pager.used_some hswap, hm.card]
    refine Finset.card_le_card fun key hkey => hkeys key.1 key.2 ?_
    rw [Pager.slot_some hswap, hm.value]
    exact Option.isSome_iff_ne_none.mp ((m.mem_keys key).mp hkey)

/-! ## What such accesses keep -/

/-- No frame is shared, no page is resident and in swap, and the policy
has seen at most `k` accesses. -/
structure Pager.Solitary (s : Pager) (slots : Option Nat) (k : Nat) : Prop where
  unforked : s.Unforked
  exclusive : s.Exclusive
  policy : s.policy.Fresh k
  keyed : s.Keyed slots

theorem Pager.Solitary.congr {j : Nat} (h : s.Solitary slots k) (hcow : s'.cow = s.cow)
    (hswap : s'.swap = s.swap) (hpid : s'.pid = s.pid) (hpolicy : s'.policy.Fresh j) :
    s'.Solitary slots j :=
  ⟨h.unforked.congr (congrArg CowManager.frames hcow),
    h.exclusive.congr (congrArg CowManager.frames hcow) hswap hpid, hpolicy, h.keyed.congr hswap⟩

theorem Pager.Solitary.load (h : s.Solitary slots k) (hc : s.Consistent) (hk : k + 1 < wordSize)
    (hp : p ∈ s.processes) (hpage : page < 2 ^ 52) (hf : f < s.physical.frameCount)
    (hfree : (s.physical.frames f).occupied = false) (hm : s.mapped p page = none)
    (isWrite : Bool) : (s.load p page f isWrite).Solitary slots (k + 1) := by
  refine ⟨h.unforked.load hc hf hfree p page isWrite,
    h.exclusive.load hc hp hpage hf hfree hm isWrite, ?_,
    h.keyed.load (hc.live p hp) page f isWrite⟩
  rw [(s.load_eq p page f isWrite).2.2.2.2.1]
  exact h.policy.onLoad hk f

/-- A victim that was saved leaves its frame. -/
theorem Pager.Solitary.evict (h : s.Solitary slots k) (hc : s.Consistent)
    (hdistinct : ∀ q ∈ s.processes, s.Alone q) (hocc : (s.physical.frames f).occupied = true)
    (hs : s.saveVictim f = some s') : (s'.evict f).Solitary slots k := by
  have hexclusive := h.exclusive.evict hc hdistinct hocc (h.unforked f) hs
  have hkeyed := h.keyed.saveVictim hc hocc hs
  have hc' := hc.saveVictim hocc hs
  obtain ⟨swap, stats, rfl⟩ := Pager.saveVictim_eq hs
  have hunforked : Pager.Unforked { s with swap := swap, stats := stats } := h.unforked
  exact ⟨hunforked.evict hc' hocc, hexclusive, h.policy.onEvict f, hkeyed.congr rfl⟩

/-- Every end of an access. -/
theorem Pager.Solitary.outcome (h : s.Solitary slots k) (hc : s.Consistent)
    (hdistinct : ∀ q ∈ s.processes, s.Alone q) (hk : k + 1 < wordSize) (hp : p ∈ s.processes)
    (hpage : page < 2 ^ 52) (hend : s.Outcome p page isWrite result s') :
    s'.Solitary slots (k + 1) := by
  have hcounted : s.countFault.Consistent := hc.setStats _
  cases hend with
  | resident hm => exact h.congr rfl rfl rfl (h.policy.onAccess hk _).tick
  | placed hm hf =>
    obtain ⟨hlt, hfree, _⟩ := hc.firstFree hf
    have h₁ : s.countFault.Solitary slots k := h.congr rfl rfl rfl h.policy
    have h₂ := h₁.load hcounted hk hp hpage hlt hfree hm isWrite
    exact h₂.congr rfl rfl rfl h₂.policy.tick
  | replaced hm hfull hchoose hocc hsaved =>
    rename_i f policy saved
    have hchosen := hcounted.chosen hchoose
    have h₁ : Pager.Solitary { s.countFault with policy := policy } slots k :=
      h.congr rfl rfl rfl (h.policy.chooseVictim hchoose)
    have h₂ := h₁.evict hchosen hdistinct hocc hsaved
    have hc₂ := hchosen.saveVictim hocc hsaved
    obtain ⟨swap, stats, rfl⟩ := Pager.saveVictim_eq hsaved
    obtain ⟨hc₃, hprocesses, hnone, hfree, hcount⟩ := hc₂.evicted hocc (h.unforked f) hm
    have h₃ := h₂.load hc₃ hk (by rw [hprocesses]; exact hp) hpage
      (by rw [hcount]; exact hc.frame_lt hocc) hfree hnone isWrite
    exact h₃.congr rfl rfl rfl h₃.policy.tick
  | refused hm hfull hchoose hocc hsaved =>
    exact h.congr rfl rfl rfl ((h.policy.chooseVictim hchoose).mono (Nat.le_succ k))

/-! ## The keys in use -/

/-- A key has a slot, or the page is resident. -/
def Pager.Uses (s : Pager) (pid : Int) (v : Nat) : Prop :=
  s.slot pid v ≠ none ∨ ∃ f, ∃ m ∈ s.cow.frames f, s.pid m.process = pid ∧ m.virtualPage = v

theorem Pager.Uses.congr (h : s'.Uses pid v) (hcow : s'.cow = s.cow) (hswap : s'.swap = s.swap)
    (hpid : s'.pid = s.pid) : s.Uses pid v := by
  unfold Pager.Uses at *
  rwa [Pager.slot_congr hswap, hcow, hpid] at h

theorem Pager.Consistent.uses_load (hc : s.Consistent) (hp : p ∈ s.processes)
    (hpage : page < 2 ^ 52) (hf : f < s.physical.frameCount)
    (hfree : (s.physical.frames f).occupied = false) (hm : s.mapped p page = none)
    (h : (s.load p page f isWrite).Uses pid v) : s.Uses pid v ∨ (pid = s.pid p ∧ v = page) := by
  rcases h with hslot | ⟨g, m, hg, hmpid, hmpage⟩
  · rw [(hc.place hp hpage hf hfree hm).load_slot] at hslot
    split at hslot
    · exact absurd rfl hslot
    · exact Or.inl (Or.inl hslot)
  · rw [s.load_pid] at hmpid
    rw [hc.load_users hf hfree] at hg
    by_cases e : g = f
    · rw [e, Function.update_self, List.mem_singleton] at hg
      rw [hg] at hmpid hmpage
      exact Or.inr ⟨hmpid.symm, hmpage.symm⟩
    · rw [Function.update_of_ne e] at hg
      exact Or.inl (Or.inr ⟨g, m, hg, hmpid, hmpage⟩)

theorem Pager.Consistent.uses_evict (hc : s.Consistent)
    (hocc : (s.physical.frames f).occupied = true) (hlen : (s.cow.frames f).length ≤ 1)
    (hs : s.saveVictim f = some s') (h : (s'.evict f).Uses pid v) : s.Uses pid v := by
  have hsaved := hc.saved_slot hocc hs
  have hc' := hc.saveVictim hocc hs
  obtain ⟨o, _, _, howner, husers, _⟩ := hc.evict_eq hocc hlen
  obtain ⟨swap, stats, rfl⟩ := Pager.saveVictim_eq hs
  rcases h with hslot | ⟨g, m, hg, hmpid, hmpage⟩
  · have hslot' : Pager.slot { s with swap := swap, stats := stats } pid v ≠ none := hslot
    rw [hsaved] at hslot'
    split at hslot'
    · rename_i hkey
      refine Or.inr ⟨f, ⟨o, (s.physical.frames f).virtualPage⟩, by rw [husers]; simp, ?_,
        hkey.2.2.2.symm⟩
      rw [hkey.2.2.1]
      exact howner.symm
    · exact Or.inl hslot'
  · exact Or.inr ⟨g, m, (hc'.mem_evict hocc hlen hg).2, hmpid, hmpage⟩

/-- An access takes up no key but its own. -/
theorem Pager.Outcome.uses (hend : s.Outcome p page isWrite result s') (hc : s.Consistent)
    (hu : s.Unforked) (hp : p ∈ s.processes) (hpage : page < 2 ^ 52) (h : s'.Uses pid v) :
    s.Uses pid v ∨ (pid = s.pid p ∧ v = page) := by
  have hcounted : s.countFault.Consistent := hc.setStats _
  cases hend with
  | resident hm => exact Or.inl (h.congr rfl rfl rfl)
  | placed hm hf =>
    obtain ⟨hlt, hfree, _⟩ := hc.firstFree hf
    have hloaded := h.congr (s := s.countFault.load p page _ isWrite) rfl rfl rfl
    exact (hcounted.uses_load hp hpage hlt hfree hm hloaded).imp (·.congr rfl rfl rfl) id
  | replaced hm hfull hchoose hocc hsaved =>
    rename_i f policy saved
    have hchosen := hcounted.chosen hchoose
    have hc₂ := hchosen.saveVictim hocc hsaved
    have hpid : saved.pid = s.pid := by
      obtain ⟨swap, stats, rfl⟩ := Pager.saveVictim_eq hsaved
      rfl
    have hevicted : ∀ pid v, (saved.evict f).Uses pid v → s.Uses pid v := fun pid v hu' =>
      (hchosen.uses_evict hocc (hu f) hsaved hu').congr rfl rfl rfl
    obtain ⟨swap, stats, rfl⟩ := Pager.saveVictim_eq hsaved
    obtain ⟨hc₃, hprocesses, hnone, hfree, hcount⟩ := hc₂.evicted hocc (hu f) hm
    have hloaded := h.congr (s := Pager.load _ p page f isWrite) rfl rfl rfl
    exact (hc₃.uses_load (by rw [hprocesses]; exact hp) hpage
      (by rw [hcount]; exact hc.frame_lt hocc) hfree hnone hloaded).imp (hevicted pid v) id
  | refused hm hfull hchoose hocc hsaved => exact Or.inl (h.congr rfl rfl rfl)

/-- With a slot for every key ever used, no access is refused: a dirty
victim has no slot, so the keys with one are fewer. -/
theorem Pager.Solitary.not_refused (h : s.Solitary slots k) (hc : s.Consistent)
    {policy : ReplacementPolicy} (hocc : (s.physical.frames f).occupied = true)
    (keys : Finset (Int × Nat)) (hkeys : ∀ pid v, s.Uses pid v → (pid, v) ∈ keys)
    (hslots : ∀ count, slots = some count → 0 < count → keys.card ≤ count)
    (hchosen : Pager.Consistent { s.countFault with policy := policy }) :
    Pager.saveVictim { s.countFault with policy := policy } f ≠ none := by
  intro hrefused
  obtain ⟨o, _, hpid, ho⟩ := hc.owner hocc
  have hlive : 0 ≤ (s.physical.frames f).ownerPid := hc.owner_live hocc
  unfold Pager.saveVictim at hrefused
  split at hrefused
  · cases hrefused
  · rename_i hsave
    obtain ⟨swap, hswap⟩ := Option.ne_none_iff_exists'.mp fun e : s.swap = none =>
      hsave (Or.inr (Option.isNone_iff_eq_none.mpr e))
    obtain ⟨hnone, hfull⟩ := (hchosen.store_none hlive).mp hrefused
    have hfull' : s.used = s.slotCount := hfull
    obtain ⟨count, hpos, hcount, m, hm⟩ := h.keyed swap hswap
    have hvictim : ((s.physical.frames f).ownerPid, (s.physical.frames f).virtualPage) ∈ keys :=
      hkeys _ _ (Or.inr ⟨f, _, ho, hpid.symm, rfl⟩)
    have hused := h.keyed.used_le
      (keys.erase ((s.physical.frames f).ownerPid, (s.physical.frames f).virtualPage))
      fun pid v hs => Finset.mem_erase.mpr ⟨fun e => hs (by
        obtain ⟨rfl, rfl⟩ := Prod.mk.inj e
        exact hnone), hkeys pid v (Or.inl hs)⟩
    rw [Finset.card_erase_of_mem hvictim, hfull', Pager.slotCount_some hswap, hm.slotCount] at hused
    have hcard := hslots count hcount hpos
    omega

/-! ## Calls -/

def Call.isFork : Call → Bool
  | .fork _ _ => true
  | _ => false

/-- How often a call accesses a page. -/
def Call.accesses (call : Call) : Nat := if call.target.isSome then 1 else 0

theorem Call.accesses_of_target (call : Call) {target : Nat × Nat}
    (ht : call.target = some target) : call.accesses = 1 := by
  rw [Call.accesses, ht]
  rfl

theorem Call.accesses_untargeted (call : Call) (ht : call.target = none) : call.accesses = 0 := by
  rw [Call.accesses, ht]
  rfl

theorem Pager.Solitary.access (h : s.Solitary slots k) (hc : s.Consistent)
    (hdistinct : ∀ q ∈ s.processes, s.Alone q) (hk : k + 1 < wordSize) (hp : 0 ≤ s.pid p)
    (halone : s.Alone p) (hpage : page < 2 ^ 52)
    (hhit : ∀ f, answers.hit = some f → s.mapped p page = some f)
    (hrecorded : answers.recorded = true) (isWrite : Bool) :
    (s.access answers p page isWrite).2.Solitary slots (k + 1) ∧
      ∀ pid v, (s.access answers p page isWrite).2.Uses pid v →
        s.Uses pid v ∨ (pid = s.pid p ∧ v = page) := by
  have hend := hc.outcome h.unforked h.policy hk hp hhit hrecorded isWrite
  have hc₁ : ((s.register p).count isWrite).Consistent := (hc.register hp).setStats _
  have hdistinct₁ : ∀ q ∈ ((s.register p).count isWrite).processes,
      ((s.register p).count isWrite).Alone q := halone.register hdistinct
  have hmem : p ∈ ((s.register p).count isWrite).processes := s.mem_register p
  obtain ⟨processes, stats, heq⟩ := s.counted_eq p isWrite
  rw [heq] at hend hc₁ hdistinct₁ hmem
  have h₁ : Pager.Solitary { s with processes := processes, stats := stats } slots k :=
    h.congr rfl rfl rfl h.policy
  exact ⟨h₁.outcome hc₁ hdistinct₁ hk hmem hpage hend, fun pid v hu =>
    (hend.uses hc₁ h₁.unforked hmem hpage hu).imp (·.congr rfl rfl rfl) id⟩

/-- A release tells the policy of evictions only. -/
theorem Pager.releaseFrame_policy (kept : ReplacementPolicy → Prop)
    (hevict : ∀ policy f, kept policy → kept (replacementPolicyOnEvict policy f).2)
    (h : kept s.policy) (p f : Nat) : kept (s.releaseFrame p f).policy := by
  unfold Pager.releaseFrame
  split
  · split
    · exact hevict _ f h
    · unfold Pager.detach
      repeat' split
      all_goals exact h
  · exact h

theorem Pager.releaseFrames_policy (kept : ReplacementPolicy → Prop)
    (hevict : ∀ policy f, kept policy → kept (replacementPolicyOnEvict policy f).2) (p : Nat)
    (frames : List Nat) : ∀ {s : Pager}, kept s.policy → kept (s.releaseFrames p frames).policy := by
  induction frames with
  | nil => exact fun h => h
  | cons f frames ih => exact fun h => ih (Pager.releaseFrame_policy kept hevict h p f)

theorem Pager.Solitary.release (h : s.Solitary slots k) (hc : s.Consistent) (hp : 0 ≤ s.pid p) :
    (s.release p).Solitary slots k ∧ ∀ pid v, (s.release p).Uses pid v → s.Uses pid v := by
  have hr := Pager.Consistent.releaseFrames p (List.range s.physical.frameCount) s hc
  obtain ⟨_, _, _, hslot⟩ := hc.released hp
  have hswapped : (s.releaseFrames p (List.range s.physical.frameCount)).Keyed slots :=
    h.keyed.congr hr.swap
  have hfresh := Pager.releaseFrames_policy (·.Fresh k) (fun _ f hk => hk.onEvict f) p
    (List.range s.physical.frameCount) h.policy
  have hleft : ∀ f, ∀ m ∈ (s.release p).cow.frames f, m ∈ s.cow.frames f := fun f m hm =>
    ((hr.users f m).mp hm).1
  refine ⟨⟨(hc.release hp).unforked_of h.unforked hleft, h.exclusive.release hc hp, hfresh,
    hswapped.forget (by rw [hr.pid]; exact hp)⟩, fun pid v hu => ?_⟩
  rcases hu with hs | ⟨f, m, hm, hpid, hv⟩
  · rw [hslot] at hs
    split at hs
    · exact absurd rfl hs
    · exact Or.inl hs
  · refine Or.inr ⟨f, m, hleft f m hm, ?_, hv⟩
    rw [← hpid]
    exact (congrFun hr.pid m.process).symm

theorem Pager.Solitary.create (h : s.Solitary slots k) (hc : s.Consistent) (pid : Int) :
    (s.create pid).2.Solitary slots k ∧ ∀ pid' v, (s.create pid).2.Uses pid' v → s.Uses pid' v := by
  have hexclusive := h.exclusive.create hc pid
  unfold Pager.create at hexclusive ⊢
  split
  · exact ⟨h, fun _ _ hu => hu⟩
  · rename_i hpos
    rw [if_neg hpos] at hexclusive
    refine ⟨⟨h.unforked.congr rfl, hexclusive, h.policy, h.keyed.congr rfl⟩, fun pid' v hu => ?_⟩
    rcases hu with hs | ⟨f, m, hm, hpid, hv⟩
    · exact Or.inl hs
    · refine Or.inr ⟨f, m, hm, ?_, hv⟩
      rw [← hpid]
      exact (hc.pid_next (hc.registered hm)).symm

/-- A call that is not a fork. -/
theorem Pager.Solitary.step {call : Call} (h : s.Solitary slots k) (hc : s.Consistent)
    (hdistinct : ∀ q ∈ s.processes, s.Alone q) (hk : k + call.accesses < wordSize)
    (ha : s.Allows (· < 2 ^ 36) call) (hfork : call.isFork = false)
    (hf : s.Faithful call answers) :
    (s.step answers call).2.Solitary slots (k + call.accesses) ∧
      ∀ pid v, (s.step answers call).2.Uses pid v →
        s.Uses pid v ∨ ∃ p, call.target = some (p, v) ∧ pid = s.pid p := by
  have haccess : ∀ p page isWrite, call.target = some (p, page) →
      (s.access answers p page isWrite).2.Solitary slots (k + 1) ∧
        ∀ pid v, (s.access answers p page isWrite).2.Uses pid v →
          s.Uses pid v ∨ ∃ p, call.target = some (p, v) ∧ pid = s.pid p := by
    intro p page isWrite ht
    obtain ⟨hp, halone, hpage⟩ := ha.target ht
    rw [call.accesses_of_target ht] at hk
    obtain ⟨hs, hu⟩ := h.access hc hdistinct hk hp halone (Nat.lt_trans hpage (by decide))
      (fun f => hf.hit p page f ht) hf.recorded isWrite
    refine ⟨hs, fun pid v hv => (hu pid v hv).imp id fun hkey => ⟨p, ?_, hkey.1⟩⟩
    rw [ht, hkey.2]
  cases call with
  | createProcess pid =>
    obtain ⟨hs, hu⟩ := h.create hc pid
    exact ⟨hs, fun pid v hv => Or.inl (hu pid v hv)⟩
  | access p a t => exact haccess p _ _ rfl
  | readByte p a =>
    show (s.readByte answers p a).2.Solitary slots (k + 1) ∧ _
    rw [show (s.step answers (.readByte p a)).2 = (s.readByte answers p a).2 from rfl,
      Pager.readByte_state]
    exact haccess p _ _ rfl
  | writeByte p a value =>
    obtain ⟨hs, hu⟩ := haccess p (addressPageNumber a) true rfl
    show (s.writeByte answers p a value).2.Solitary slots (k + 1) ∧ _
    rw [show (s.step answers (.writeByte p a value)).2 = (s.writeByte answers p a value).2 from rfl]
    rcases s.writeByte_state answers p a value with hsame | ⟨f, _, hset⟩
    · rw [hsame]
      exact ⟨hs, hu⟩
    · rw [hset]
      exact ⟨hs.congr rfl rfl rfl hs.policy, fun pid v hv => hu pid v (hv.congr rfl rfl rfl)⟩
  | fork p childPid => cases hfork
  | release p =>
    obtain ⟨hs, hu⟩ := h.release hc ha.1
    exact ⟨hs, fun pid v hv => Or.inl (hu pid v hv)⟩

end VmSim
