/-
VmSim.Replacement.Aging — the Aging policy: eight-bit shift histories
(`src/replacement/aging.c`).
-/
import VmSim.PhysicalMemory
import VmSim.Replacement.Fifo

namespace VmSim

structure AgingState where
  loaded : Nat → Bool
  referenced : Nat → Bool
  ages : Nat → BitVec 8

def agingCreate : AgingState := ⟨fun _ => false, fun _ => false, fun _ => 0⟩

def agingOnLoad (state : AgingState) (frameNumber : Nat) : Int × AgingState :=
  (0, ⟨Function.update state.loaded frameNumber true,
    Function.update state.referenced frameNumber true, Function.update state.ages frameNumber 0⟩)

def agingOnAccess (state : AgingState) (frameNumber : Nat) : Int × AgingState :=
  if !state.loaded frameNumber then (-1, state)
  else (0, { state with referenced := Function.update state.referenced frameNumber true })

def agingOnEvict (state : AgingState) (frameNumber : Nat) : Int × AgingState :=
  if !state.loaded frameNumber then (-1, state)
  else (0, ⟨Function.update state.loaded frameNumber false,
    Function.update state.referenced frameNumber false, Function.update state.ages frameNumber 0⟩)

/-- The loop body of `aging_choose_victim`: the victim so far and the
smallest age seen. -/
def agingVictimStep (state : AgingState) (best : Nat × BitVec 8) (index : Nat) :
    Nat × BitVec 8 :=
  if state.loaded index ∧ (best.1 = replacementInvalidFrame ∨ state.ages index < best.2) then
    (toUint32 index, state.ages index)
  else best

def agingChooseVictim (frameCount : Nat) (state : AgingState) : Nat × AgingState :=
  (((List.range frameCount).foldl (agingVictimStep state)
    (replacementInvalidFrame, BitVec.allOnes 8)).1, state)

/-- One tick on the age of a loaded frame. -/
def agingShift (age : BitVec 8) (referenced : Bool) : BitVec 8 :=
  if referenced then (age >>> 1) ||| 0x80 else age >>> 1

def agingTick (frameCount : Nat) (state : AgingState) : AgingState :=
  { state with
    ages := fun index =>
      if index < frameCount ∧ state.loaded index then
        agingShift (state.ages index) (state.referenced index)
      else state.ages index
    referenced := fun index =>
      if index < frameCount ∧ state.loaded index then false else state.referenced index }

/-! ## The victim -/

theorem agingChooseVictim_loaded {frameCount : Nat} (hn : frameCount ≤ 2 ^ 32)
    (state : AgingState) :
    (agingChooseVictim frameCount state).1 = replacementInvalidFrame ∨
      state.loaded (agingChooseVictim frameCount state).1 = true := by
  unfold agingChooseVictim
  refine List.foldlRecOn
    (motive := fun best => best.1 = replacementInvalidFrame ∨ state.loaded best.1 = true)
    (List.range frameCount) (agingVictimStep state) ?_ fun best hbest index hindex => ?_
  · exact Or.inl rfl
  · unfold agingVictimStep
    split
    · rename_i h
      have hlt : index < 2 ^ 32 := Nat.lt_of_lt_of_le (List.mem_range.mp hindex) hn
      exact Or.inr (by rw [toUint32_of_lt hlt]; exact h.1)
    · exact hbest

end VmSim
