/-
VmSim.VirtualMemory.Touches — what an access tells the replacement
policy.

`Pager.loadFrame` is the frame that an access puts its page in, as far as
the state before it tells. `Pager.Marks` lists the ways in which an access
that succeeds ends on a frame, and what the policy has been told by then.
An access that fails has at most asked it for a victim, unless the TLB
refused the translation of a page that was loaded
(`Pager.Consistent.access_marks`).
-/
import VmSim.VirtualMemory.ForkFreeRuns
import VmSim.Replacement.AgingHistory

namespace VmSim

open Lib

variable {s s' : Pager} {p page f g : Nat} {isWrite : Bool} {answers : TlbAnswers}
  {succeeded : Bool} {touch : Touch}

/-! ## Loads -/

/-- The victim of the policy, if it can be given up: it is not shared, and
it is saved if it has to be. -/
def Pager.victim (s : Pager) : Option Nat :=
  (replacementPolicyChooseVictim s.policy).bind fun (f, _) =>
    if f = replacementInvalidFrame ∨ 1 < (s.cow.frames f).length ∨ (s.saveVictim f).isNone then none
    else some f

/-- The frame an access loads. A write to a shared page copies it to a free
frame; a page that is not resident goes to a free frame, or to that of the
victim. -/
def Pager.loadFrame (s : Pager) (p page : Nat) (isWrite : Bool) : Option Nat :=
  match s.mapped p page with
  | some f =>
    if isWrite = true ∧ 1 < (s.cow.frames f).length then s.physical.firstFree else none
  | none => s.physical.firstFree.or s.victim

/-! ## Ends of an access -/

/-- An access that ends on the frame of `touch`, and the policy after
it. -/
inductive Pager.Marks (s : Pager) (p page : Nat) : Touch → ReplacementPolicy → Prop where
  | accessed {f : Nat} (hm : s.mapped p page = some f) :
    Marks s p page ⟨f, false⟩
      (replacementPolicyTick (replacementPolicyOnAccess s.policy f).2)
  | copied {f g : Nat} (hm : s.mapped p page = some f) (hg : s.physical.firstFree = some g) :
    Marks s p page ⟨g, true⟩ (replacementPolicyTick
      (replacementPolicyOnAccess (replacementPolicyOnLoad s.policy g).2 g).2)
  | placed {f : Nat} (hm : s.mapped p page = none) (hf : s.physical.firstFree = some f) :
    Marks s p page ⟨f, true⟩ (replacementPolicyTick (replacementPolicyOnLoad s.policy f).2)
  | replaced {f : Nat} {policy : ReplacementPolicy} (hm : s.mapped p page = none)
    (hchoose : replacementPolicyChooseVictim s.policy = some (f, policy))
    (hocc : (s.physical.frames f).occupied = true) :
    Marks s p page ⟨f, true⟩ (replacementPolicyTick
      (replacementPolicyOnLoad (replacementPolicyOnEvict policy f).2 f).2)

/-- The end of an access: it has failed and at most asked for a victim, or
the page is in the frame it marked, which it loaded if the page was not
there before. -/
def Pager.EndsMarked (s : Pager) (p page : Nat) (succeeded : Bool) (s' : Pager) : Prop :=
  (succeeded = false ∧ (s'.policy = s.policy ∨
    ∃ f, replacementPolicyChooseVictim s.policy = some (f, s'.policy))) ∨
  (succeeded = true ∧ ∃ touch, s'.mapped p page = some touch.frameNumber ∧
    touch.loads = decide (s.mapped p page ≠ some touch.frameNumber) ∧
    s.Marks p page touch s'.policy)

/-- Only the page maps, the frames and the policy matter. -/
theorem Pager.Marks.of_same {s₀ : Pager} {policy : ReplacementPolicy}
    (h : s₀.Marks p page touch policy) (hmapped : s₀.mapped = s.mapped)
    (hphysical : s₀.physical = s.physical) (hpolicy : s₀.policy = s.policy) :
    s.Marks p page touch policy := by
  cases h with
  | accessed hm =>
    rw [hpolicy]
    exact .accessed (hmapped ▸ hm)
  | copied hm hg =>
    rw [hpolicy]
    exact .copied (hmapped ▸ hm) (hphysical ▸ hg)
  | placed hm hf =>
    rw [hpolicy]
    exact .placed (hmapped ▸ hm) (hphysical ▸ hf)
  | replaced hm hchoose hocc =>
    exact .replaced (hmapped ▸ hm) (hpolicy ▸ hchoose) (hphysical ▸ hocc)

theorem Pager.EndsMarked.of_same {s₀ : Pager} (h : s₀.EndsMarked p page succeeded s')
    (hmapped : s₀.mapped = s.mapped) (hphysical : s₀.physical = s.physical)
    (hpolicy : s₀.policy = s.policy) : s.EndsMarked p page succeeded s' := by
  unfold Pager.EndsMarked at h ⊢
  rw [hmapped, hpolicy] at h
  exact h.imp id fun ⟨hok, touch, hm, hloads, hmarks⟩ =>
    ⟨hok, touch, hm, hloads, hmarks.of_same hmapped hphysical hpolicy⟩

theorem Pager.EndsMarked.loaded (hm : s'.mapped p page = some f)
    (hne : s.mapped p page ≠ some f) (hmarks : s.Marks p page ⟨f, true⟩ s'.policy) :
    s.EndsMarked p page true s' :=
  Or.inr ⟨rfl, ⟨f, true⟩, hm, (decide_eq_true hne).symm, hmarks⟩

/-! ## Faults -/

/-- A page is loaded into a frame that was free. -/
theorem Pager.load_marks (s : Pager) (p page f : Nat) (isWrite : Bool) :
    (s.load p page f isWrite).mapped p page = some f ∧
      (s.load p page f isWrite).policy = (replacementPolicyOnLoad s.policy f).2 := by
  obtain ⟨_, _, hmapped, _, hpolicy, _⟩ := s.load_eq p page f isWrite
  refine ⟨?_, hpolicy⟩
  rw [hmapped]
  simp [rebind]

/-- Whether a victim can be saved is a matter of its frame and the swap. -/
theorem Pager.saveVictim_isNone (s₀ s : Pager) (f : Nat) (hphysical : s₀.physical = s.physical)
    (hswap : s₀.swap = s.swap) : (s₀.saveVictim f).isNone = (s.saveVictim f).isNone := by
  unfold Pager.saveVictim Pager.store
  rw [hphysical, hswap]
  split
  · rfl
  · cases s.swap with
    | none => rfl
    | some swap =>
      dsimp only
      split <;> rfl

theorem Pager.victim_of_same {s₀ : Pager} (hphysical : s₀.physical = s.physical)
    (hcow : s₀.cow = s.cow) (hswap : s₀.swap = s.swap) (hpolicy : s₀.policy = s.policy) :
    s₀.victim = s.victim := by
  unfold Pager.victim
  simp only [Pager.saveVictim_isNone s₀ s _ hphysical hswap, hcow, hpolicy]

/-- The counters and the registered processes do not matter. -/
theorem Pager.loadFrame_counted (s : Pager) (p page : Nat) (isWrite : Bool) :
    ((s.register p).count isWrite).loadFrame p page isWrite = s.loadFrame p page isWrite := by
  obtain ⟨processes, stats, heq⟩ := s.counted_eq p isWrite
  have hvictim : ((s.register p).count isWrite).victim = s.victim := by
    rw [heq]
    exact Pager.victim_of_same rfl rfl rfl rfl
  rw [Pager.loadFrame, Pager.loadFrame, hvictim, heq]

/-- A page fault with no free frame. -/
theorem Pager.Consistent.replace_marks (h : s.Consistent) (hm : s.mapped p page = none)
    {recorded : Bool} (hrecorded : s.victim.isSome = true → recorded = true) :
    s.EndsMarked p page (!(s.replace p page isWrite recorded).1.isError)
      (s.replace p page isWrite recorded).2 := by
  obtain ⟨f, policy, hchoose, hvictim, hchosen⟩ := h.chooseVictim
  have herror : (!s.faultError.isError) = false := by rw [s.faultError_isError]; rfl
  simp only [Pager.replace, hchoose]
  split
  · exact Or.inl ⟨herror, Or.inr ⟨f, hchoose⟩⟩
  · rename_i hcond
    split
    · exact Or.inl ⟨herror, Or.inr ⟨f, hchoose⟩⟩
    · rename_i saved hsaved
      have hocc : (s.physical.frames f).occupied = true :=
        hvictim.resolve_left fun e => hcond (Or.inl e)
      have hgiven : s.victim = some f := by
        have hroom : (s.saveVictim f).isNone = false := by
          rw [← Pager.saveVictim_isNone { s with policy := policy } s f rfl rfl, hsaved]
          rfl
        have hkept : ¬ (f = replacementInvalidFrame ∨ 1 < (s.cow.frames f).length ∨
            (s.saveVictim f).isNone = true) := by
          rw [hroom]
          simpa using hcond
        rw [Pager.victim, hchoose]
        exact if_neg hkept
      rw [if_pos (hrecorded (by rw [hgiven]; rfl))]
      obtain ⟨swap, stats, rfl⟩ := Pager.saveVictim_eq hsaved
      obtain ⟨hmapped, hpolicy⟩ := Pager.load_marks (Pager.evict { s with
        policy := policy, swap := swap, stats := stats } f) p page f isWrite
      refine Pager.EndsMarked.loaded hmapped (by simp [hm]) ?_
      show s.Marks p page ⟨f, true⟩ (replacementPolicyTick (Pager.load _ p page f isWrite).policy)
      rw [hpolicy]
      exact .replaced hm hchoose hocc

theorem Pager.Consistent.fault_marks (h : s.Consistent) (hm : s.mapped p page = none)
    {recorded : Bool} (hrecorded : (s.loadFrame p page isWrite).isSome = true → recorded = true) :
    s.EndsMarked p page (!(s.fault p page isWrite recorded).1.isError)
      (s.fault p page isWrite recorded).2 := by
  have hcounted : s.countFault.Consistent := h.setStats _
  unfold Pager.loadFrame at hrecorded
  rw [hm] at hrecorded
  unfold Pager.fault
  cases hfree : s.physical.firstFree with
  | none =>
    rw [hfree] at hrecorded
    have hvictim : s.countFault.victim = s.victim := Pager.victim_of_same rfl rfl rfl rfl
    exact (hcounted.replace_marks hm fun hs => hrecorded (hvictim ▸ hs)).of_same rfl rfl rfl
  | some f =>
    rw [hfree] at hrecorded
    rw [hrecorded rfl]
    obtain ⟨hmapped, hpolicy⟩ := Pager.load_marks s.countFault p page f isWrite
    refine Pager.EndsMarked.loaded hmapped (by simp [hm]) ?_
    show s.Marks p page ⟨f, true⟩
      (replacementPolicyTick (s.countFault.load p page f isWrite).policy)
    rw [hpolicy]
    exact .placed hm hfree

/-! ## Resident pages -/

/-- A write finds its frame as it is, or copies the page to a free one, if
it succeeds. -/
theorem Pager.Consistent.writable_marks (h : s.Consistent) (hm : s.mapped p page = some f)
    (hw : isWrite = true → s.Writable p page f) {moved : Bool}
    (hmoved : (s.loadFrame p page isWrite).isSome = true → moved = true) :
    ((s.writable p page f isWrite moved).1 = none ∧
      (s.writable p page f isWrite moved).2.policy = s.policy) ∨
    ∃ g, (s.writable p page f isWrite moved).1 = some g ∧
      (s.writable p page f isWrite moved).2.mapped p page = some g ∧
      ((g = f ∧ (s.writable p page f isWrite moved).2.policy = s.policy) ∨
        (s.loadFrame p page isWrite = some g ∧ s.physical.firstFree = some g ∧
          (s.writable p page f isWrite moved).2.policy =
            (replacementPolicyOnLoad s.policy g).2)) := by
  cases isWrite with
  | false => exact Or.inr ⟨f, rfl, hm, Or.inl ⟨rfl, rfl⟩⟩
  | true =>
    have hmapped := fun g => h.cowWrite_mapped hm (hw rfl) moved (g := g)
    have huser := hw rfl
    simp only [Pager.writable, if_true]
    generalize hresult : s.cowWrite p page f moved = r at hmapped ⊢
    unfold Pager.cowWrite at hresult
    split at hresult
    · subst hresult
      exact Or.inr ⟨f, rfl, hm, Or.inl ⟨rfl, rfl⟩⟩
    · rename_i hlen
      split at hresult
      · rename_i g hg
        have hloads : s.loadFrame p page true = some g := by
          rw [Pager.loadFrame, hm]
          exact (if_pos ⟨rfl, Nat.lt_of_not_le hlen⟩).trans hg
        rw [hmoved (by rw [hloads]; rfl), if_pos rfl] at hresult
        subst hresult
        refine Or.inr ⟨g, rfl, hmapped g rfl, Or.inr ⟨hloads, hg, ?_⟩⟩
        exact (h.copy_spec (huser.resolve_left hlen) (Nat.lt_of_not_le hlen) (h.firstFree hg).2.2
          _).policy
      · obtain ⟨swap, stats, heq⟩ :=
          s.saveReaders_eq ⟨p, page⟩ (s.physical.data f) (s.cow.frames f)
        split at hresult
        · subst hresult
          exact Or.inl ⟨rfl, rfl⟩
        · split at hresult
          · rename_i s₁ hsave
            rw [hsave] at heq
            subst hresult
            refine Or.inl ⟨rfl, ?_⟩
            rw [show s₁ = _ from heq]
          · rename_i s₁ hsave
            rw [hsave] at heq
            have hpolicy : (s₁.exclude p page f).policy = s.policy := by
              rw [show s₁ = _ from heq]
              rfl
            subst hresult
            -- the frame stays, whether its translation is taken back or not
            cases moved with
            | false => exact Or.inl ⟨rfl, hpolicy⟩
            | true => exact Or.inr ⟨f, rfl, hmapped f rfl, Or.inl ⟨rfl, hpolicy⟩⟩

theorem Pager.Consistent.resident_marks (h : s.Consistent) (hm : s.mapped p page = some f)
    (hw : isWrite = true → s.Writable p page f) {moved recorded : Bool}
    (htaken : (s.loadFrame p page isWrite).isSome = true → moved = true ∧ recorded = true) :
    s.EndsMarked p page (!(s.resident p page f isWrite moved recorded).1.isError)
      (s.resident p page f isWrite moved recorded).2 := by
  rcases h.writable_marks hm hw fun hloads => (htaken hloads).1 with
    ⟨hnone, hpolicy⟩ | ⟨g, hg, hmapped, hend⟩
  · rw [Pager.resident_none hnone]
    exact Or.inl ⟨rfl, Or.inl hpolicy⟩
  · rw [Pager.resident_some hg]
    have hpolicy : ((s.writable p page f isWrite moved).2.notify g isWrite).policy =
        replacementPolicyTick (replacementPolicyOnAccess
          (s.writable p page f isWrite moved).2.policy g).2 := rfl
    rcases hend with ⟨rfl, hsame⟩ | ⟨hloads, hfree, hloaded⟩
    · cases recorded with
      | false => exact Or.inl ⟨rfl, Or.inl hsame⟩
      | true =>
        refine Or.inr ⟨rfl, ⟨g, false⟩, hmapped, by simp [hm], ?_⟩
        rw [if_pos rfl, hpolicy, hsame]
        exact .accessed hm
    · obtain ⟨_, hunused, _⟩ := h.firstFree hfree
      rw [if_pos (htaken (by rw [hloads]; rfl)).2]
      refine Pager.EndsMarked.loaded hmapped (fun he => ?_) ?_
      · rw [hm] at he
        cases he
        rw [h.occupied_of_mapped hm] at hunused
        cases hunused
      · rw [hpolicy, hloaded]
        exact .copied hm hfree

/-! ## Accesses -/

/-- What an access tells the policy, if the TLB takes the translation of a
page that it loads. -/
theorem Pager.Consistent.access_marks (h : s.Consistent) (hp : 0 ≤ s.pid p)
    (hadmits : s.Admits answers p page isWrite)
    (hhit : ∀ f, answers.hit = some f → s.mapped p page = some f)
    (htaken : (s.loadFrame p page isWrite).isSome = true →
      answers.moved = true ∧ answers.recorded = true) :
    s.EndsMarked p page (!(s.access answers p page isWrite).1.isError)
      (s.access answers p page isWrite).2 := by
  have hc : ((s.register p).count isWrite).Consistent := (h.register hp).setStats _
  obtain ⟨processes, stats, heq⟩ := s.counted_eq p isWrite
  have hcounted : ∀ {succeeded : Bool} {s' : Pager},
      ((s.register p).count isWrite).EndsMarked p page succeeded s' →
        s.EndsMarked p page succeeded s' := by
    intro succeeded s' hend
    rw [heq] at hend
    exact hend.of_same rfl rfl rfl
  have hresident : ∀ f recorded, s.mapped p page = some f →
      (isWrite = true → s.Writable p page f) →
      ((s.loadFrame p page isWrite).isSome = true → recorded = true) →
      s.EndsMarked p page
        (!(((s.register p).count isWrite).resident p page f isWrite answers.moved
          recorded).1.isError)
        (((s.register p).count isWrite).resident p page f isWrite answers.moved recorded).2 := by
    intro f recorded hm hw hrecorded
    refine hcounted (hc.resident_marks ?_ ?_ ?_)
    · rw [heq]
      exact hm
    · rw [heq]
      exact hw
    · rw [s.loadFrame_counted]
      exact fun hs => ⟨(htaken hs).1, hrecorded hs⟩
  cases hfound : answers.hit with
  | some f =>
    rw [Pager.access_hit hfound]
    exact hresident f true (hhit f hfound) (hadmits f (Or.inl hfound)).2 fun _ => rfl
  | none =>
    cases hm : s.mapped p page with
    | some f =>
      rw [Pager.access_walked hfound hm]
      exact hresident f _ hm (hadmits f (Or.inr ⟨hfound, hm⟩)).2 fun hs => (htaken hs).2
    | none =>
      rw [Pager.access_fault hfound hm]
      refine hcounted (hc.fault_marks ?_ ?_)
      · rw [heq]
        exact hm
      · rw [s.loadFrame_counted]
        exact fun hs => (htaken hs).2

/-- The same for the three calls that access a page. -/
theorem Pager.Consistent.step_marks (h : s.Consistent) {call : Call}
    (ht : call.target = some (p, page)) (hp : 0 ≤ s.pid p)
    (hadmits : ∀ isWrite, s.Admits answers p page isWrite)
    (hhit : ∀ f, answers.hit = some f → s.mapped p page = some f)
    (htaken : (s.loadFrame p page call.writes).isSome = true →
      answers.moved = true ∧ answers.recorded = true) :
    s.EndsMarked p page (s.step answers call).1.succeeded (s.step answers call).2 := by
  have haccess := h.access_marks hp (hadmits call.writes) hhit htaken
  cases call with
  | access p' a t =>
    cases ht
    exact haccess
  | readByte p' a =>
    cases ht
    have hend : s.EndsMarked p (addressPageNumber a) (!(s.access answers p (addressPageNumber a)
      false).1.isError) (s.access answers p (addressPageNumber a) false).2 := haccess
    show s.EndsMarked _ _ (s.readByte answers p a).1.isSome (s.readByte answers p a).2
    rw [Pager.readByte_state]
    rcases hend with ⟨herror, hpolicy⟩ | ⟨hok, touch, hm, hmarks⟩
    · refine Or.inl ⟨?_, hpolicy⟩
      simp only [Bool.not_eq_false'] at herror
      simp [Pager.readByte, herror]
    · refine Or.inr ⟨?_, touch, hm, hmarks⟩
      simp only [Bool.not_eq_true'] at hok
      simp [Pager.readByte, hok, hm]
  | writeByte p' a value =>
    cases ht
    have hend : s.EndsMarked p (addressPageNumber a) (!(s.access answers p (addressPageNumber a)
      true).1.isError) (s.access answers p (addressPageNumber a) true).2 := haccess
    show s.EndsMarked _ _ (s.writeByte answers p a value).1 (s.writeByte answers p a value).2
    rcases hend with ⟨herror, hpolicy⟩ | ⟨hok, touch, hm, hmarks⟩
    · simp only [Bool.not_eq_false'] at herror
      refine Or.inl ?_
      simp only [Pager.writeByte, herror, if_true]
      exact ⟨trivial, hpolicy⟩
    · simp only [Bool.not_eq_true'] at hok
      refine Or.inr ?_
      simp only [Pager.writeByte, hok, hm]
      exact ⟨rfl, touch, hm, hmarks⟩
  | _ => cases ht

end VmSim
