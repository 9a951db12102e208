/-
VmSim.Contract.Replacement — which frame the Clock and the FIFO policy
give up, in every state that calls of the replacement interface lead to.
-/
import VmSim.Replacement.FifoArray

namespace VmSim

open Lib

/-! ## Clock -/

/-- **Clock gives referenced frames a second chance and always ends**:
after any calls, the search for a victim ends within two rounds. The
victim is the first loaded frame without its bit that comes after the
hand, or else the first loaded frame; the loaded frames passed over lose
their bits, and the hand stops after the victim. -/
theorem clock_secondChance {frameCount : Nat} (hn : frameCount < 2 ^ 32)
    {start policy : ReplacementPolicy}
    (hcreate : replacementPolicyCreate .clock frameCount = some start)
    {history : List (PolicyCall × PolicyReply)}
    (hrun : Run ReplacementPolicy.step (fun _ _ => True) start history policy) :
    ∃ state, policy = ⟨frameCount, .clock state⟩ ∧ state.hand < frameCount ∧
      ((∀ f < frameCount, state.loaded f = false) →
        replacementPolicyChooseVictim policy = some (replacementInvalidFrame, policy)) ∧
      ((∃ f < frameCount, state.loaded f = true) →
        ∃ iterations ≤ 2 * frameCount, ∃ victim state',
          (∀ fuel ≥ iterations, clockSweep frameCount fuel state = some (victim, state')) ∧
          replacementPolicyChooseVictim policy = some (victim, ⟨frameCount, .clock state'⟩) ∧
          state'.hand < frameCount ∧
          ((∃ f < frameCount, state.loaded f = true ∧ state.referenced f = false) →
            ∃ d, state.FirstAhead frameCount
                (fun f => state.loaded f = true ∧ state.referenced f = false) d victim ∧
              state.Swept frameCount victim
                (fun f => state.loaded f = true ∧ ∃ k < d, state.Ahead frameCount k f) state') ∧
          ((∀ f < frameCount, state.loaded f = true → state.referenced f = true) →
            ∃ d, state.FirstAhead frameCount (fun f => state.loaded f = true) d victim ∧
              state.Swept frameCount victim (fun f => state.loaded f = true) state')) := by
  obtain ⟨state, rfl, h⟩ := clock_run hn.le hcreate hrun
  have hpos : 0 < frameCount := Nat.zero_lt_of_lt h.hand_lt
  refine ⟨state, rfl, h.hand_lt, fun hnone => ?_, ?_⟩
  · simp only [replacementPolicyChooseVictim, clockChooseVictim_none hnone, Option.map_some]
  rintro ⟨f, hf, hl⟩
  have hchoose : ∀ {victim state'},
      clockSweep frameCount (2 * frameCount) state = some (victim, state') →
      replacementPolicyChooseVictim ⟨frameCount, .clock state⟩ =
        some (victim, ⟨frameCount, .clock state'⟩) := by
    intro victim state' hsweep
    simp only [replacementPolicyChooseVictim, clockChooseVictim_some hf hl, hsweep,
      Option.map_some]
  have hhand : ∀ {victim cleared state'}, state.Swept frameCount victim cleared state' →
      state'.hand < frameCount := by
    intro victim cleared state' hswept
    rw [hswept.hand]
    exact Nat.mod_lt _ hpos
  have hnumber : ∀ {victim}, state.loaded victim = true → toUint32 victim = victim :=
    fun hvictim => toUint32_of_lt (Nat.lt_trans (h.lt _ hvictim) hn)
  by_cases hall : ∀ g < frameCount, state.loaded g = true → state.referenced g = true
  · obtain ⟨d, victim, hfirst⟩ := ClockState.exists_firstAhead h.hand_lt hf
      (p := fun g => state.loaded g = true) hl
    have hd : d < frameCount := hfirst.ahead.1
    obtain ⟨state', hsweep, hswept⟩ :=
      h.sweep_referenced (fun g hg => hall g (h.lt g hg) hg) hfirst
    rw [hnumber hfirst.holds] at hsweep
    refine ⟨frameCount + d + 1, by omega, victim, state', hsweep, hchoose (hsweep _ (by omega)),
      hhand hswept, ?_, fun _ => ⟨d, hfirst, hswept⟩⟩
    rintro ⟨g, hg, hlg, hbit⟩
    rw [hall g hg hlg] at hbit
    cases hbit
  · obtain ⟨g, hg, hlg, hbit⟩ :
        ∃ g < frameCount, state.loaded g = true ∧ state.referenced g = false := by
      simpa using hall
    obtain ⟨d, victim, hfirst⟩ := ClockState.exists_firstAhead h.hand_lt hg
      (p := fun g => state.loaded g = true ∧ state.referenced g = false) ⟨hlg, hbit⟩
    have hd : d < frameCount := hfirst.ahead.1
    obtain ⟨state', hsweep, hswept⟩ := h.sweep_unreferenced hfirst
    rw [hnumber hfirst.holds.1] at hsweep
    exact ⟨d + 1, by omega, victim, state', hsweep, hchoose (hsweep _ (by omega)), hhand hswept,
      fun _ => ⟨d, hfirst, hswept⟩, fun hcontra => absurd hcontra hall⟩

/-- The first search has cleared all bits and given up frame 0, frame 1
has been used since: the next victim is frame 2. -/
theorem clock_secondChance_three :
    ∃ history state victim state',
      Run ReplacementPolicy.step (fun _ _ => True) ⟨3, .clock clockCreate⟩ history
        ⟨3, .clock state⟩ ∧
      replacementPolicyChooseVictim ⟨3, .clock state⟩ = some (victim, ⟨3, .clock state'⟩) ∧
      victim = 2 ∧ state.referenced 1 = true ∧ state'.referenced 1 = false ∧ state'.hand = 0 := by
  have hrun : Run ReplacementPolicy.step (fun _ _ => True) ⟨3, .clock clockCreate⟩ _ _ :=
    Run.of_runChecked [.onLoad 0, .onLoad 1, .onLoad 2, .chooseVictim, .onEvict 0, .onAccess 1,
      .onAccess 7] .start rfl
  obtain ⟨state, hpolicy, _, _, hloaded⟩ :=
    clock_secondChance (show 3 < 2 ^ 32 by decide) rfl hrun
  cases hpolicy
  obtain ⟨_, _, victim, state', _, hchoose, _⟩ := hloaded ⟨1, by decide, rfl⟩
  refine ⟨_, _, victim, state', hrun, hchoose, ?_⟩
  cases hchoose
  exact ⟨rfl, rfl, rfl, rfl⟩

/-! ## FIFO -/

/-- **FIFO keeps the order of arrival**: after any calls on valid frames,
the queue holds each loaded frame once and nothing else, in the order in
which they came into memory. No load of a valid frame fails, an eviction
fails only for a frame that is not loaded, and the victim is the frame
that has been loaded for the longest time. -/
theorem fifo_order {frameCount : Nat} (hn : frameCount < 2 ^ 32)
    {history : List (PolicyCall × PolicyReply)} {state : FifoArray}
    (hrun : Run (FifoArray.step frameCount) (fun _ call => call.Valid frameCount) .create history
      state) :
    (∀ f, state.loaded f = (loadedAt f history).isSome) ∧
      state.size ≤ frameCount ∧
      (∀ i < state.size, state.loaded (state.queue i) = true) ∧
      (∀ f, state.loaded f = true → ∃! i, i < state.size ∧ state.queue i = f) ∧
      (∀ i j, i < j → j < state.size → Earlier history (state.queue i) (state.queue j)) ∧
      (∀ f, state.loaded f = true → state.onLoad frameCount f = (0, state)) ∧
      (∀ f < frameCount, state.loaded f = false →
        (state.onLoad frameCount f).1 = 0 ∧ state.size < frameCount) ∧
      (∀ f, (state.onAccess f).2 = state) ∧
      (∀ f, state.loaded f = true → (state.onEvict f).1 = 0) ∧
      (∀ f, state.loaded f = false → state.onEvict f = (-1, state)) ∧
      state.chooseVictim.2 = state ∧
      (state.chooseVictim.1 = replacementInvalidFrame ↔ ∀ f, state.loaded f = false) ∧
      (∀ f, state.loaded f = true → state.loaded state.chooseVictim.1 = true ∧
        (state.chooseVictim.1 = f ∨ Earlier history state.chooseVictim.1 f)) := by
  have h := fifoArray_run hrun
  refine ⟨h.loaded, h.size_le, fun i hi => (h.loaded_iff _).mpr ⟨i, hi, rfl⟩, fun f hl => ?_,
    fun i j => h.earlier, fun f => FifoArray.onLoad_loaded, fun f hf hl => ?_, fun _ => rfl,
    fun f => h.onEvict_code, fun f => FifoArray.onEvict_unloaded, FifoArray.chooseVictim_same,
    h.chooseVictim_invalid hn, fun f => h.chooseVictim_first⟩
  · obtain ⟨i, hi, hslot⟩ := (h.loaded_iff f).mp hl
    refine ⟨i, ⟨hi, hslot⟩, fun j hj => ?_⟩
    exact h.injective hj.1 hi (hj.2.trans hslot.symm)
  · have hroom := h.size_lt hf hl
    refine ⟨?_, hroom⟩
    simp [FifoArray.onLoad, hl, Nat.not_le.mpr hroom]

/-- Frame 1 leaves from the middle of the queue and comes back at its end. -/
theorem fifo_order_three :
    ∃ history state,
      Run (FifoArray.step 3) (fun _ call => call.Valid 3) .create history state ∧
      (∀ i j, i < j → j < state.size → Earlier history (state.queue i) (state.queue j)) ∧
      (List.range state.size).map state.queue = [2, 1] := by
  have hrun : Run (FifoArray.step 3) (fun _ call => call.Valid 3) .create _ _ :=
    Run.of_runChecked [.onLoad 0, .onLoad 1, .onLoad 2, .onEvict 1, .onAccess 0, .onLoad 1,
      .onLoad 2, .chooseVictim, .onEvict 0] .start rfl
  obtain ⟨_, _, _, _, hearlier, _⟩ := fifo_order (show 3 < 2 ^ 32 by decide) hrun
  exact ⟨_, _, hrun, hearlier, rfl⟩

end VmSim
