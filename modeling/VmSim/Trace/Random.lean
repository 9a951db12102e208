/-
VmSim.Trace.Random — the random numbers of the trace generator.

Every access draws two of them: one for the page and one for the
operation. All numbers are drawn at some time (`traceRandomNext_reaches`),
but the lowest bit changes with each draw, so the pages are all chosen
with numbers of one parity (`traceChoices_random`).
-/
import Mathlib.Data.UInt
import VmSim.Lib.Congruential
import VmSim.Trace.Generator

namespace VmSim

open Lib

/-! ## The numbers that are drawn -/

theorem traceRandomNext_toNat (state : UInt64) : (traceRandomNext state).toNat ≡
    affine 6364136223846793005 1442695040888963407 state.toNat [MOD 2 ^ 64] := by
  rw [Nat.ModEq, traceRandomNext, affine, UInt64.toNat_add, UInt64.toNat_mul]
  simp only [UInt64.reduceToNat]
  omega

theorem traceRandomNext_iterate (n : Nat) (state : UInt64) : (traceRandomNext^[n] state).toNat ≡
    (affine 6364136223846793005 1442695040888963407)^[n] state.toNat [MOD 2 ^ 64] := by
  induction n with
  | zero => rfl
  | succ n ih =>
    rw [Function.iterate_succ_apply', Function.iterate_succ_apply']
    exact (traceRandomNext_toNat _).trans ((ih.mul_left _).add_right _)

/-- Every number is drawn after some number of draws. -/
theorem traceRandomNext_reaches (state value : UInt64) :
    ∃ n < 2 ^ 64, traceRandomNext^[n] state = value := by
  obtain ⟨n, hn, hreached⟩ := affine_reaches (show 6364136223846793005 % 4 = 1 by decide)
    (show 1442695040888963407 % 2 = 1 by decide) state.toNat value.toNat 64
  refine ⟨n, hn, UInt64.toNat.inj ?_⟩
  have heq := (traceRandomNext_iterate n state).trans hreached
  rwa [Nat.ModEq, Nat.mod_eq_of_lt (UInt64.toNat_lt _), Nat.mod_eq_of_lt (UInt64.toNat_lt _)] at heq

/-- The lowest bit changes with each draw. -/
theorem traceRandomNext_parity (n : Nat) (state : UInt64) :
    (traceRandomNext^[n] state).toNat % 2 = (state.toNat + n) % 2 := by
  induction n with
  | zero => rfl
  | succ n ih =>
    have hnext := (traceRandomNext_toNat (traceRandomNext^[n] state)).of_dvd
      (dvd_pow_self 2 (show 64 ≠ 0 by decide))
    have hflip := affine_parity (show 6364136223846793005 % 2 = 1 by decide)
      (show 1442695040888963407 % 2 = 1 by decide) (traceRandomNext^[n] state).toNat
    have hsum := (hnext.trans hflip).trans (Nat.ModEq.add_right 1 ih)
    rw [Function.iterate_succ_apply', ← Nat.add_assoc]
    exact hsum

/-! ## The pages that are chosen -/

variable {options : TraceGeneratorOptions}

theorem traceChoosePage_random (hpattern : options.pattern = .random)
    (random accessIndex : UInt64) : traceChoosePage options random accessIndex =
      (traceRandomNext random % options.pageCount, traceRandomNext random) := by
  rw [traceChoosePage, hpattern]

/-- A random page is the remainder of an odd number of draws. -/
theorem traceChoices_random (hpattern : options.pattern = .random) (n : Nat) :
    ∀ (accessIndex random : UInt64) (i : Nat), i < n →
      ((traceChoices options n accessIndex random)[i]?).map Prod.fst =
        some (traceRandomNext^[2 * i + 1] random % options.pageCount) := by
  induction n with
  | zero => exact fun _ _ i hi => absurd hi (Nat.not_lt_zero i)
  | succ n ih =>
    intro accessIndex random i hi
    rw [traceChoices, traceChoosePage_random hpattern]
    cases i with
    | zero => rw [List.getElem?_cons_zero, Option.map_some, Nat.mul_zero, Nat.zero_add,
        Function.iterate_one]
    | succ i =>
      have hsteps : 2 * (i + 1) + 1 = 2 * i + 1 + 2 := by omega
      have htwo : traceRandomNext^[2] random = traceRandomNext (traceRandomNext random) := rfl
      rw [List.getElem?_cons_succ, ih _ _ i (Nat.lt_of_succ_lt_succ hi), hsteps,
        Function.iterate_add_apply traceRandomNext (2 * i + 1) 2, htwo]
      rfl

end VmSim
