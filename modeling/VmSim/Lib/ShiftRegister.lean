/-
VmSim.Lib.ShiftRegister — a shift register as the history of a bit.

A bit that is shifted in becomes the most significant one, and moves the
others down; bit `k` from above is the one shifted in `k` steps ago. As
numbers, two registers are ordered by the step at which the last of their
bits was set (`lt_of_later`).
-/
import Mathlib.Data.Nat.Bitwise

namespace VmSim.Lib

variable {w : Nat} {x y : BitVec (w + 1)} {b : Bool} {k : Nat}

def shiftIn (x : BitVec (w + 1)) (b : Bool) : BitVec (w + 1) :=
  if b then (x >>> 1) ||| BitVec.twoPow (w + 1) w else x >>> 1

theorem shiftIn_zero (x : BitVec (w + 1)) (b : Bool) : (shiftIn x b).getMsbD 0 = b := by
  cases b with
  | true => simp [shiftIn]
  | false => simp [shiftIn]

/-- The bits shifted in before move down, and the last one falls out. -/
theorem shiftIn_succ (hk : k < w) (x : BitVec (w + 1)) (b : Bool) :
    (shiftIn x b).getMsbD (k + 1) = x.getMsbD k := by
  cases b with
  | true => simp [shiftIn, hk]
  | false => simp [shiftIn, hk]

theorem two_pow_le_of_getMsbD (h : x.getMsbD k = true) : 2 ^ (w - k) ≤ x.toNat := by
  simp only [BitVec.getMsbD, Bool.and_eq_true, Nat.add_sub_cancel] at h
  exact Nat.ge_two_pow_of_testBit h.2

/-- A register into which nothing was shifted for `k + 1` steps. -/
theorem lt_two_pow_of_getMsbD (hk : k ≤ w) (h : ∀ j ≤ k, x.getMsbD j = false) :
    x.toNat < 2 ^ (w - k) := by
  refine Nat.lt_pow_two_of_testBit _ fun i hi => ?_
  rcases Nat.lt_or_ge i (w + 1) with hlt | hge
  · have hbit := h (w - i) (by omega)
    rw [BitVec.getMsbD, decide_eq_true (by omega), Bool.true_and,
      show w + 1 - 1 - (w - i) = i by omega] at hbit
    exact hbit
  · exact BitVec.getLsbD_of_ge x i hge

/-- The register with the later last bit is the greater one. -/
theorem lt_of_later (hk : k ≤ w) (hy : y.getMsbD k = true)
    (hx : ∀ j ≤ k, x.getMsbD j = false) : x < y :=
  BitVec.lt_def.mpr (Nat.lt_of_lt_of_le (lt_two_pow_of_getMsbD hk hx) (two_pow_le_of_getMsbD hy))

end VmSim.Lib
