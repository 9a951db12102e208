/-
VmSim.VirtualMemory.Refusals — why an access fails, and what it leaves.

`Pager.Blocked` lists why an access can be refused: the victim of a fault
is shared, or there is no room in swap for it, or for the other users of a
shared page. A refused access returns an error and leaves all but the
slots as they were (`Pager.Consistent.access_blocked`). There is no other
failure as long as the TLB takes every translation and the replacement
policy finds a victim (`Pager.Consistent.access_error`).
-/
import VmSim.VirtualMemory.Exclusion

namespace VmSim

open Lib

variable {s s' : Pager} {p q page f a v : Nat} {isWrite : Bool} {answers : TlbAnswers}

/-! ## Refused accesses -/

/-- There is no free frame, and the victim is shared or finds no slot. -/
def Pager.VictimBlocked (s : Pager) : Prop :=
  s.physical.firstFree = none ∧ ∃ f policy,
    replacementPolicyChooseVictim s.policy = some (f, policy) ∧ f ≠ replacementInvalidFrame ∧
      (1 < (s.cow.frames f).length ∨ ((s.physical.frames f).dirty = true ∧ s.swap ≠ none ∧
        s.slot (s.physical.frames f).ownerPid (s.physical.frames f).virtualPage = none ∧
        s.room = 0))

def Pager.Blocked (s : Pager) (p page : Nat) (isWrite : Bool) : Prop :=
  (s.mapped p page = none ∧ s.VictimBlocked) ∨
    ∃ f, s.mapped p page = some f ∧ isWrite = true ∧ s.CopyBlocked p page f

/-- The pager after a refused access, which may have filled slots. -/
structure Pager.Refused (s : Pager) (s' : Pager) : Prop where
  physical : s'.physical = s.physical
  cow : s'.cow = s.cow
  mapped : s'.mapped = s.mapped
  pid : s'.pid = s.pid

/-- The slots are as they were. -/
def Pager.SameSlots (s s' : Pager) : Prop :=
  (∀ pid v, s'.slot pid v = s.slot pid v) ∧ s'.used = s.used

theorem Pager.sameSlots_of_swap (h : s'.swap = s.swap) : s.SameSlots s' :=
  ⟨Pager.slot_congr h, (Pager.used_congr h).1⟩

theorem Pager.faultError_isError (s : Pager) : s.faultError.isError = true := by
  unfold Pager.faultError
  split <;> rfl

/-- A fault whose victim is blocked. -/
theorem Pager.Consistent.fault_blocked (h : s.Consistent) (hblocked : s.VictimBlocked)
    (p page : Nat) (isWrite recorded : Bool) :
    (s.fault p page isWrite recorded).1.isError = true ∧
      s.Refused (s.fault p page isWrite recorded).2 ∧
      (s.fault p page isWrite recorded).2.swap = s.swap ∧ s.faultCalls p page = [] := by
  obtain ⟨hfull, f, policy, hchoose, hvalid, hwhy⟩ := hblocked
  obtain ⟨f', policy', hchoose', hvictim, hchosen⟩ := h.chooseVictim
  rw [hchoose] at hchoose'
  cases hchoose'
  have hocc := hvictim.resolve_left hvalid
  -- a victim that is not shared is refused by the swap
  have hrefused : (s.cow.frames f).length ≤ 1 →
      Pager.saveVictim { s.countFault with policy := policy } f = none := by
    intro hlen
    obtain ⟨hdirty, hsome, hnone, hroom⟩ := hwhy.resolve_left (Nat.not_lt.mpr hlen)
    have hlive : 0 ≤ (s.physical.frames f).ownerPid := h.owner_live hocc
    have hused := h.used_le
    unfold Pager.saveVictim
    rw [if_neg (by simpa [Pager.countFault, hdirty] using hsome)]
    have hchosen' : Pager.Consistent { s.countFault with policy := policy } := hchosen.setStats _
    refine (hchosen'.store_none hlive).mpr ⟨hnone, ?_⟩
    show s.used = s.slotCount
    rw [Pager.room] at hroom
    omega
  have hchoose' : replacementPolicyChooseVictim s.countFault.policy = some (f, policy) := hchoose
  unfold Pager.fault Pager.faultCalls Pager.replaceCalls
  rw [hfull]
  simp only [Pager.replace, hchoose']
  by_cases hlen : 1 < (s.cow.frames f).length
  · have hshared : f = replacementInvalidFrame ∨ 1 < (s.countFault.cow.frames f).length :=
      Or.inr hlen
    rw [if_pos hshared, if_pos hshared]
    exact ⟨Pager.faultError_isError _, ⟨rfl, rfl, rfl, rfl⟩, rfl, rfl⟩
  · have hnot : ¬(f = replacementInvalidFrame ∨ 1 < (s.countFault.cow.frames f).length) :=
      fun hor => hor.elim hvalid hlen
    rw [if_neg hnot, if_neg hnot, hrefused (Nat.not_lt.mp hlen)]
    exact ⟨Pager.faultError_isError _, ⟨rfl, rfl, rfl, rfl⟩, rfl, rfl⟩

/-- A write that needs room in swap and finds too little. -/
theorem Pager.Consistent.cowWrite_blocked (h : s.Consistent)
    (hdistinct : ∀ q ∈ s.processes, s.Alone q) (hblocked : s.CopyBlocked p page f)
    (moved : Bool) : (s.cowWrite p page f moved).1 = none ∧
      s.Refused (s.cowWrite p page f moved).2 ∧
      (s.SameSlots (s.cowWrite p page f moved).2 ↔ s.Spares p page f) ∧
      s.cowCalls p page f = [] := by
  obtain ⟨hfull, hlen, hwhy⟩ := hblocked
  unfold Pager.cowWrite Pager.cowCalls
  rw [if_neg (Nat.not_le.mpr hlen), if_neg (Nat.not_le.mpr hlen), hfull]
  by_cases hnone : s.swap = none
  · have hisNone : s.swap.isNone = true := by rw [hnone]; rfl
    simp only [hisNone, if_true]
    exact ⟨trivial, ⟨rfl, rfl, rfl, rfl⟩,
      ⟨fun _ => Or.inl hnone, fun _ => Pager.sameSlots_of_swap rfl⟩, trivial⟩
  · have hreg : ∀ r ∈ s.cow.frames f, r.process ∈ s.processes := fun r hr => h.registered hr
    have hfail := (Pager.Consistent.saveReaders_fails ⟨p, page⟩ (s.physical.data f)
      (s.cow.frames f) s h hreg (h.keysDiffer hdistinct f)).mpr (hwhy.resolve_left hnone)
    have hunchanged := Pager.Consistent.saveReaders_unchanged ⟨p, page⟩ (s.physical.data f)
      (s.cow.frames f) s h hreg hfail
    have hsaved := Pager.Consistent.saveReaders ⟨p, page⟩ (s.physical.data f) (s.cow.frames f) s h
      hreg
    obtain ⟨hcount, hused⟩ := Pager.saveReaders_used ⟨p, page⟩ (s.physical.data f)
      (s.cow.frames f) s
    obtain ⟨swap, stats, heq⟩ := s.saveReaders_eq ⟨p, page⟩ (s.physical.data f) (s.cow.frames f)
    have hisNone : ¬ s.swap.isNone = true := by simpa using hnone
    simp only [if_neg hisNone]
    generalize Pager.saveReaders ⟨p, page⟩ (s.physical.data f) (s.cow.frames f) s = saved at *
    obtain ⟨ok, s₁⟩ := saved
    simp only at hfail hunchanged hsaved hcount hused heq ⊢
    subst hfail
    have hle := hsaved.used_le
    have hrefused : s.Refused s₁ := by
      rw [heq]
      exact ⟨rfl, rfl, rfl, rfl⟩
    refine ⟨rfl, hrefused, ⟨fun hsame => Or.inr (hunchanged.mp hsame.1), fun hspares => ?_⟩, rfl⟩
    have hspares' := hspares.resolve_left hnone
    refine ⟨hunchanged.mpr hspares', ?_⟩
    have hroom := hspares'.1
    rw [Pager.room] at hroom
    show s₁.used = s.used
    omega

/-- A refused access: nothing but the slots and counters can change, and
the TLB is only asked. -/
theorem Pager.Consistent.access_blocked (h : s.Consistent)
    (hdistinct : ∀ q ∈ s.processes, s.Alone q) (hp : 0 ≤ s.pid p) (halone : s.Alone p)
    (hhit : ∀ f, answers.hit = some f → s.mapped p page = some f)
    (hblocked : s.Blocked p page isWrite) :
    (s.access answers p page isWrite).1.isError = true ∧
      s.Refused (s.access answers p page isWrite).2 ∧
      (s.SameSlots (s.access answers p page isWrite).2 ↔
        ∀ f, s.mapped p page = some f → s.Spares p page f) ∧
      s.accessCalls answers p page isWrite = [.lookup (s.pid p) page] := by
  have hc₁ : ((s.register p).count isWrite).Consistent := (h.register hp).setStats _
  obtain ⟨processes, stats, heq⟩ := s.counted_eq p isWrite
  have hdistinct₁ : ∀ q ∈ ((s.register p).count isWrite).processes,
      ((s.register p).count isWrite).Alone q := halone.register hdistinct
  unfold Pager.accessCalls Pager.answeredCalls
  rcases hblocked with ⟨hm, hvictim⟩ | ⟨f, hm, rfl, hcopy⟩
  · have hmiss : answers.hit = none := by
      cases hfound : answers.hit with
      | none => rfl
      | some f =>
        rw [hhit f hfound] at hm
        cases hm
    rw [Pager.access_fault hmiss hm, hmiss]
    rw [heq] at hc₁ ⊢
    obtain ⟨herror, hrefused, hswap, hcalls⟩ := hc₁.fault_blocked hvictim p page isWrite
      answers.recorded
    refine ⟨herror, ⟨hrefused.physical, hrefused.cow, hrefused.mapped, hrefused.pid⟩,
      ⟨fun _ f hf => ?_, fun _ => Pager.sameSlots_of_swap hswap⟩, ?_⟩
    · rw [hm] at hf
      cases hf
    · simp only [hm, hcalls]
  · have hiff : (∀ g, s.mapped p page = some g → s.Spares p page g) ↔ s.Spares p page f := by
      rw [hm]
      exact ⟨fun hall => hall f rfl, fun hsp g hg => by cases hg; exact hsp⟩
    have hresident : ∀ moved recorded : Bool,
        (((s.register p).count true).resident p page f true moved recorded).1.isError = true ∧
          s.Refused (((s.register p).count true).resident p page f true moved recorded).2 ∧
          (s.SameSlots (((s.register p).count true).resident p page f true moved recorded).2 ↔
            s.Spares p page f) ∧
          ((s.register p).count true).writableCalls p page f true = [] ∧
          (((s.register p).count true).writable p page f true moved).1 = none := by
      intro moved recorded
      rw [heq] at hc₁ hdistinct₁ ⊢
      obtain ⟨hnone, hrefused, hsame, hcalls⟩ := hc₁.cowWrite_blocked hdistinct₁ hcopy moved
      have hnone' : (Pager.writable _ p page f true moved).1 = none := hnone
      rw [Pager.resident_none hnone']
      exact ⟨rfl, ⟨hrefused.physical, hrefused.cow, hrefused.mapped, hrefused.pid⟩, hsame, hcalls,
        hnone⟩
    rw [hiff]
    cases hfound : answers.hit with
    | some g =>
      have hg := hhit g hfound
      rw [hm] at hg
      cases hg
      rw [Pager.access_hit hfound]
      obtain ⟨herror, hrefused, hsame, hcalls, _⟩ := hresident answers.moved true
      exact ⟨herror, hrefused, hsame, by simp only [hcalls]⟩
    | none =>
      rw [Pager.access_walked hfound hm]
      obtain ⟨herror, hrefused, hsame, hcalls, hnone⟩ := hresident answers.moved answers.recorded
      refine ⟨herror, hrefused, hsame, ?_⟩
      have hm' : ((s.register p).count true).mapped p page = some f := by
        rw [Pager.register_eq]
        exact hm
      simp only [hm', Pager.walkedCalls, hcalls, hnone, List.append_nil]

/-! ## Failures -/

/-- The replacement policy has no victim to offer. -/
def Pager.NoVictim (s : Pager) : Prop :=
  ∃ policy, replacementPolicyChooseVictim s.policy = some (replacementInvalidFrame, policy)

theorem Pager.Consistent.fault_error (h : s.Consistent) {recorded : Bool}
    (herror : (s.fault p page isWrite recorded).1.isError = true) :
    recorded = false ∨ s.VictimBlocked ∨ s.NoVictim := by
  unfold Pager.fault at herror
  split at herror
  · cases recorded with
    | false => exact Or.inl rfl
    | true => cases herror
  · rename_i hfull
    have hcounted : s.countFault.Consistent := h.setStats _
    obtain ⟨f, policy, hchoose, hvictim, hchosen⟩ := hcounted.chooseVictim
    simp only [Pager.replace, hchoose] at herror
    by_cases hinvalid : f = replacementInvalidFrame
    · exact Or.inr (Or.inr ⟨policy, hinvalid ▸ hchoose⟩)
    · have hocc := hvictim.resolve_left hinvalid
      split at herror
      · rename_i hcond
        exact Or.inr (Or.inl ⟨hfull, f, policy, hchoose, hinvalid,
          Or.inl (hcond.resolve_left hinvalid)⟩)
      · split at herror
        · rename_i hrefused
          unfold Pager.saveVictim at hrefused
          split at hrefused
          · cases hrefused
          · rename_i hsave
            obtain ⟨hdirty, hsome⟩ := not_or.mp hsave
            have hlive : 0 ≤ (s.physical.frames f).ownerPid := h.owner_live hocc
            obtain ⟨hnone, hused⟩ := (hchosen.store_none hlive).mp hrefused
            have hroom : s.room = 0 := Nat.sub_eq_zero_of_le (Nat.le_of_eq hused.symm)
            exact Or.inr (Or.inl ⟨hfull, f, policy, hchoose, hinvalid, Or.inr
              ⟨by simpa [Pager.countFault] using hdirty,
                fun e => hsome (Option.isNone_iff_eq_none.mpr e), hnone, hroom⟩⟩)
        · cases recorded with
          | false => exact Or.inl rfl
          | true => cases herror

theorem Pager.Consistent.cowWrite_error (h : s.Consistent)
    (hdistinct : ∀ q ∈ s.processes, s.Alone q) {moved : Bool}
    (herror : (s.cowWrite p page f moved).1 = none) : moved = false ∨ s.CopyBlocked p page f := by
  unfold Pager.cowWrite at herror
  split at herror
  · cases herror
  · rename_i hlen
    cases moved with
    | false => exact Or.inl rfl
    | true =>
      split at herror
      · cases herror
      · rename_i hfull
        split at herror
        · rename_i hnone
          exact Or.inr ⟨hfull, Nat.lt_of_not_le hlen, Or.inl (Option.isNone_iff_eq_none.mp hnone)⟩
        · have hreg : ∀ r ∈ s.cow.frames f, r.process ∈ s.processes := fun r hr => h.registered hr
          split at herror
          · rename_i s₁ hs
            exact Or.inr ⟨hfull, Nat.lt_of_not_le hlen, Or.inr
              ((Pager.Consistent.saveReaders_fails ⟨p, page⟩ (s.physical.data f) (s.cow.frames f) s
                h hreg (h.keysDiffer hdistinct f)).mp (by rw [hs]))⟩
          · cases herror

/-- An access that fails was refused, or the TLB did not take a
translation, or there was no victim. -/
theorem Pager.Consistent.access_error (h : s.Consistent)
    (hdistinct : ∀ q ∈ s.processes, s.Alone q) (hp : 0 ≤ s.pid p) (halone : s.Alone p)
    (hhit : ∀ f, answers.hit = some f → s.mapped p page = some f)
    (hmoved : answers.moved = true) (hrecorded : answers.recorded = true)
    (herror : (s.access answers p page isWrite).1.isError = true) :
    s.Blocked p page isWrite ∨ (s.mapped p page = none ∧ s.NoVictim) := by
  have hc₁ : ((s.register p).count isWrite).Consistent := (h.register hp).setStats _
  obtain ⟨processes, stats, heq⟩ := s.counted_eq p isWrite
  have hdistinct₁ : ∀ q ∈ ((s.register p).count isWrite).processes,
      ((s.register p).count isWrite).Alone q := halone.register hdistinct
  have hresident : ∀ f, s.mapped p page = some f →
      (((s.register p).count isWrite).resident p page f isWrite true true).1.isError = true →
      s.Blocked p page isWrite := by
    intro f hm herror
    cases hg : (((s.register p).count isWrite).writable p page f isWrite true).1 with
    | some g =>
      rw [Pager.resident_some hg] at herror
      cases herror
    | none =>
      cases isWrite with
      | false => cases hg
      | true =>
        refine Or.inr ⟨f, hm, rfl, ?_⟩
        have hnone : (((s.register p).count true).cowWrite p page f true).1 = none := hg
        rw [heq] at hc₁ hdistinct₁ hnone
        exact (hc₁.cowWrite_error hdistinct₁ hnone).resolve_left (by decide)
  cases hfound : answers.hit with
  | some f =>
    rw [Pager.access_hit hfound, hmoved] at herror
    exact Or.inl (hresident f (hhit f hfound) herror)
  | none =>
    cases hm : s.mapped p page with
    | some f =>
      rw [Pager.access_walked hfound hm, hmoved, hrecorded] at herror
      exact Or.inl (hresident f hm herror)
    | none =>
      rw [Pager.access_fault hfound hm, hrecorded] at herror
      rw [heq] at hc₁ herror
      rcases hc₁.fault_error herror with hfalse | hblocked | hno
      · cases hfalse
      · exact Or.inl (Or.inl ⟨hm, hblocked⟩)
      · exact Or.inr ⟨rfl, hno⟩

end VmSim
