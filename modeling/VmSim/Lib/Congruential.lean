/-
VmSim.Lib.Congruential — linear congruential generators with a power of
two as modulus.

The modulus stays outside the map: `affine a c` is a map of the natural
numbers, and its iterates are looked at modulo `2 ^ k`. With `a` of the
form `4n + 1` and `c` odd, `2 ^ k` steps flip the bit `k` and keep the
bits below it (`affine_two_pow`), which bit by bit reaches every number
(`affine_reaches`).
-/
import Mathlib.Data.Int.ModEq
import Mathlib.Algebra.Ring.Parity
import Mathlib.Tactic.Ring

namespace VmSim.Lib

def affine (a c x : Nat) : Nat := a * x + c

section
variable {a c : Nat}

/-- A step changes the lowest bit. -/
theorem affine_parity (ha : a % 2 = 1) (hc : c % 2 = 1) (x : Nat) :
    affine a c x ≡ x + 1 [MOD 2] := by
  have ha' : a ≡ 1 [MOD 2] := ha
  have hc' : c ≡ 1 [MOD 2] := hc
  have hstep := (ha'.mul_right x).add hc'
  rwa [Nat.one_mul] at hstep

/-- A number of steps that is a power of two, as one step. -/
theorem affine_iterate_two_pow (ha : a % 4 = 1) (hc : c % 2 = 1) (k : Nat) :
    ∃ u v, ∀ x, (affine a c)^[2 ^ k] x = (1 + 2 ^ (k + 2) * u) * x + 2 ^ k * (2 * v + 1) := by
  induction k with
  | zero =>
    refine ⟨a / 4, c / 2, fun x => ?_⟩
    have ha' : 1 + 2 ^ (0 + 2) * (a / 4) = a := by omega
    have hc' : 2 ^ 0 * (2 * (c / 2) + 1) = c := by omega
    rw [ha', hc']
    rfl
  | succ k ih =>
    obtain ⟨u, v, hsteps⟩ := ih
    refine ⟨u + 2 ^ (k + 1) * (u * u), v + 2 ^ k * u * (2 * v + 1), fun x => ?_⟩
    rw [pow_succ, Nat.mul_two, Function.iterate_add_apply, hsteps, hsteps]
    ring

theorem affine_two_pow (ha : a % 4 = 1) (hc : c % 2 = 1) (k x : Nat) :
    (affine a c)^[2 ^ k] x ≡ x + 2 ^ k [MOD 2 ^ (k + 1)] := by
  obtain ⟨u, v, hsteps⟩ := affine_iterate_two_pow ha hc k
  have hsum : (affine a c)^[2 ^ k] x = x + 2 ^ k + 2 ^ (k + 1) * (2 * (u * x) + v) := by
    rw [hsteps]
    ring
  rw [hsum]
  exact Nat.add_mul_mod_self_left _ _ _

/-- A number is known modulo `m` up to one bit modulo `2m`. -/
theorem modEq_double {m x y : Nat} (h : x ≡ y [MOD m]) :
    x ≡ y [MOD 2 * m] ∨ x + m ≡ y [MOD 2 * m] := by
  obtain ⟨t, ht⟩ := Nat.modEq_iff_dvd.mp h
  rcases Int.even_or_odd' t with ⟨s, hs | hs⟩
  · left
    refine Nat.modEq_iff_dvd.mpr ⟨s, ?_⟩
    rw [ht, hs]
    push_cast
    ring
  · right
    refine Nat.modEq_iff_dvd.mpr ⟨s, ?_⟩
    push_cast
    rw [← sub_sub, ht, hs]
    ring

/-- From every number every other is reached. -/
theorem affine_reaches (ha : a % 4 = 1) (hc : c % 2 = 1) (x y : Nat) (k : Nat) :
    ∃ n < 2 ^ k, (affine a c)^[n] x ≡ y [MOD 2 ^ k] := by
  induction k with
  | zero => exact ⟨0, Nat.one_pos, Nat.modEq_one⟩
  | succ k ih =>
    obtain ⟨n, hn, hreached⟩ := ih
    have hdouble : 2 ^ (k + 1) = 2 * 2 ^ k := by ring
    rcases modEq_double hreached with hbit | hbit
    · exact ⟨n, by omega, by rw [hdouble]; exact hbit⟩
    · refine ⟨2 ^ k + n, by omega, ?_⟩
      rw [Function.iterate_add_apply]
      refine (affine_two_pow ha hc k _).trans ?_
      rw [hdouble]
      exact hbit

end

end VmSim.Lib
