/-
VmSim.Replacement.Lru — the LRU policy by logical timestamps
(`src/replacement/lru.c`). The clock is a `uint64_t` and wraps.
-/
import VmSim.PhysicalMemory
import VmSim.Replacement.Fifo

namespace VmSim

structure LruState where
  loaded : Nat → Bool
  lastAccess : Nat → Nat
  logicalClock : Nat

def lruCreate : LruState := ⟨fun _ => false, fun _ => 0, 0⟩

def lruUpdateAccess (state : LruState) (frameNumber : Nat) : LruState :=
  let clock := (state.logicalClock + 1) % wordSize
  { state with
    lastAccess := Function.update state.lastAccess frameNumber clock
    logicalClock := clock }

def lruOnLoad (state : LruState) (frameNumber : Nat) : Int × LruState :=
  (0, lruUpdateAccess { state with loaded := Function.update state.loaded frameNumber true }
    frameNumber)

def lruOnAccess (state : LruState) (frameNumber : Nat) : Int × LruState :=
  if !state.loaded frameNumber then (-1, state) else (0, lruUpdateAccess state frameNumber)

def lruOnEvict (state : LruState) (frameNumber : Nat) : Int × LruState :=
  if !state.loaded frameNumber then (-1, state)
  else (0, { state with
    loaded := Function.update state.loaded frameNumber false
    lastAccess := Function.update state.lastAccess frameNumber 0 })

/-- The loop body of `lru_choose_victim`: the victim so far and the
oldest timestamp seen. -/
def lruVictimStep (state : LruState) (best : Nat × Nat) (index : Nat) : Nat × Nat :=
  if state.loaded index ∧ state.lastAccess index < best.2 then
    (toUint32 index, state.lastAccess index)
  else best

def lruChooseVictim (frameCount : Nat) (state : LruState) : Nat × LruState :=
  (((List.range frameCount).foldl (lruVictimStep state)
    (replacementInvalidFrame, wordSize - 1)).1, state)

/-! ## The victim -/

theorem lruChooseVictim_loaded {frameCount : Nat} (hn : frameCount ≤ 2 ^ 32) (state : LruState) :
    (lruChooseVictim frameCount state).1 = replacementInvalidFrame ∨
      state.loaded (lruChooseVictim frameCount state).1 = true := by
  unfold lruChooseVictim
  refine List.foldlRecOn
    (motive := fun best => best.1 = replacementInvalidFrame ∨ state.loaded best.1 = true)
    (List.range frameCount) (lruVictimStep state) ?_ fun best hbest index hindex => ?_
  · exact Or.inl rfl
  · unfold lruVictimStep
    split
    · rename_i h
      have hlt : index < 2 ^ 32 := Nat.lt_of_lt_of_le (List.mem_range.mp hindex) hn
      exact Or.inr (by rw [toUint32_of_lt hlt]; exact h.1)
    · exact hbest

end VmSim
