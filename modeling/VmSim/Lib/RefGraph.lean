/-
VmSim.Lib.RefGraph — counting the references in a graph of cells.

Every vertex is a number and carries a cell: a family of slots, each of
which may point to a vertex. `outCount cell p` counts the slots of one
cell that point to `p`, `inCount slots bound p` those of all cells below
`bound`. `inCount_update` and `inCount_succ` say how the counts move when
one cell is overwritten and when one is added; with them the exactness of
a stored reference count is linear arithmetic. `inCount_unique` is what a
count of one is worth: the slot that points to the vertex is the only one.
-/
import Mathlib.Algebra.BigOperators.Group.Finset.Basic
import Mathlib.Algebra.Order.BigOperators.Group.Finset
import Mathlib.Data.Fintype.BigOperators
import Mathlib.Data.Set.Card
import Mathlib.Tactic.Ring

namespace VmSim.Lib

variable {ι : Type} [Fintype ι] {slots slots' : Nat → ι → Option Nat} {cell : ι → Option Nat}
  {bound p q q' : Nat} {i j : ι}

/-- 1 for a pointer to `p`, else 0. -/
def pointsTo (slot : Option Nat) (p : Nat) : Nat := if slot = some p then 1 else 0

def outCount (cell : ι → Option Nat) (p : Nat) : Nat := ∑ i, pointsTo (cell i) p

def inCount (slots : Nat → ι → Option Nat) (bound p : Nat) : Nat :=
  ∑ q ∈ Finset.range bound, outCount (slots q) p

@[simp] theorem pointsTo_none : pointsTo none p = 0 := by simp [pointsTo]

@[simp] theorem pointsTo_self : pointsTo (some p) p = 1 := by simp [pointsTo]

theorem pointsTo_of_ne {slot : Option Nat} (h : slot ≠ some p) : pointsTo slot p = 0 := if_neg h

@[simp] theorem outCount_none : outCount (fun _ : ι => none) p = 0 := by simp [outCount]

/-! ## One cell -/

theorem outCount_update [DecidableEq ι] (cell : ι → Option Nat) (i : ι) (slot : Option Nat)
    (p : Nat) :
    outCount (Function.update cell i slot) p + pointsTo (cell i) p =
      outCount cell p + pointsTo slot p := by
  unfold outCount
  rw [← Finset.add_sum_erase _ _ (Finset.mem_univ i), ← Finset.add_sum_erase _ (fun j =>
    pointsTo (cell j) p) (Finset.mem_univ i), Function.update_self]
  have hrest : ∑ j ∈ Finset.univ.erase i, pointsTo (Function.update cell i slot j) p =
      ∑ j ∈ Finset.univ.erase i, pointsTo (cell j) p := by
    refine Finset.sum_congr rfl fun j hj => ?_
    rw [Function.update_of_ne (Finset.ne_of_mem_erase hj)]
  rw [hrest]
  ring

theorem pointsTo_le_outCount (cell : ι → Option Nat) (i : ι) (p : Nat) :
    pointsTo (cell i) p ≤ outCount cell p :=
  Finset.single_le_sum (f := fun j => pointsTo (cell j) p) (fun _ _ => Nat.zero_le _)
    (Finset.mem_univ i)

theorem outCount_eq_zero (h : ∀ i, cell i ≠ some p) : outCount cell p = 0 :=
  Finset.sum_eq_zero fun i _ => pointsTo_of_ne (h i)

theorem outCount_pos (h : cell i = some p) : 1 ≤ outCount cell p := by
  have hle := pointsTo_le_outCount cell i p
  rwa [h, pointsTo_self] at hle

theorem outCount_unique (hone : outCount cell p ≤ 1) (hi : cell i = some p)
    (hj : cell j = some p) : i = j := by
  classical
  by_contra hne
  have hupdate := outCount_update cell i none p
  have hpos : 1 ≤ outCount (Function.update cell i none) p :=
    outCount_pos (i := j) (by rw [Function.update_of_ne (Ne.symm hne), hj])
  rw [hi, pointsTo_self, pointsTo_none] at hupdate
  omega

/-! ## All cells -/

theorem inCount_congr (h : ∀ q < bound, slots q = slots' q) :
    inCount slots bound p = inCount slots' bound p :=
  Finset.sum_congr rfl fun q hq => by rw [h q (Finset.mem_range.mp hq)]

/-- Overwriting one cell. -/
theorem inCount_update (slots : Nat → ι → Option Nat) (cell : ι → Option Nat) (p : Nat)
    (h : q < bound) :
    inCount (Function.update slots q cell) bound p + outCount (slots q) p =
      inCount slots bound p + outCount cell p := by
  unfold inCount
  rw [← Finset.add_sum_erase _ _ (Finset.mem_range.mpr h), ← Finset.add_sum_erase _ (fun x =>
    outCount (slots x) p) (Finset.mem_range.mpr h), Function.update_self]
  have hrest : ∑ x ∈ (Finset.range bound).erase q, outCount (Function.update slots q cell x) p =
      ∑ x ∈ (Finset.range bound).erase q, outCount (slots x) p := by
    refine Finset.sum_congr rfl fun x hx => ?_
    rw [Function.update_of_ne (Finset.ne_of_mem_erase hx)]
  rw [hrest]
  ring

/-- Adding one cell. -/
theorem inCount_succ (slots : Nat → ι → Option Nat) (bound p : Nat) :
    inCount slots (bound + 1) p = inCount slots bound p + outCount (slots bound) p :=
  Finset.sum_range_succ _ _

theorem outCount_le_inCount (slots : Nat → ι → Option Nat) (p : Nat) (h : q < bound) :
    outCount (slots q) p ≤ inCount slots bound p :=
  Finset.single_le_sum (f := fun x => outCount (slots x) p) (fun _ _ => Nat.zero_le _)
    (Finset.mem_range.mpr h)

theorem inCount_eq_zero (h : ∀ q < bound, ∀ i, slots q i ≠ some p) :
    inCount slots bound p = 0 :=
  Finset.sum_eq_zero fun q hq => outCount_eq_zero (h q (Finset.mem_range.mp hq))

theorem inCount_pos (slots : Nat → ι → Option Nat) (h : q < bound) (hi : slots q i = some p) :
    1 ≤ inCount slots bound p :=
  (outCount_pos hi).trans (outCount_le_inCount slots p h)

/-- A single reference comes from a single slot of a single cell. -/
theorem inCount_unique (slots : Nat → ι → Option Nat) (hone : inCount slots bound p ≤ 1)
    (hq : q < bound) (hq' : q' < bound) (hi : slots q i = some p) (hj : slots q' j = some p) :
    q = q' ∧ i = j := by
  have heq : q = q' := by
    by_contra hne
    have hupdate := inCount_update slots (fun _ => none) p hq
    have hpos : 1 ≤ inCount (Function.update slots q fun _ => none) bound p :=
      inCount_pos _ hq' (i := j) (by rw [Function.update_of_ne (Ne.symm hne), hj])
    have hout := outCount_pos hi
    rw [outCount_none] at hupdate
    omega
  refine ⟨heq, outCount_unique ((outCount_le_inCount slots p hq).trans hone) hi ?_⟩
  rw [heq, hj]

/-- Where something is counted, some slot points there. -/
theorem exists_of_inCount_pos (h : 1 ≤ inCount slots bound p) : ∃ q i, slots q i = some p := by
  by_contra hnone
  rw [inCount_eq_zero fun q _ i hi => hnone ⟨q, i, hi⟩] at h
  exact absurd h (by decide)

/-- When no slot beyond the bound points to `p`, every slot that does is
counted, and once. -/
theorem inCount_eq_encard (slots : Nat → ι → Option Nat) (bound p : Nat)
    (h : ∀ q i, slots q i = some p → q < bound) :
    (inCount slots bound p : ℕ∞) = {x : Nat × ι | slots x.1 x.2 = some p}.encard := by
  classical
  have hsum : inCount slots bound p =
      ((Finset.range bound ×ˢ Finset.univ).filter fun x : Nat × ι =>
        slots x.1 x.2 = some p).card := by
    rw [Finset.card_filter, Finset.sum_product]
    rfl
  rw [hsum, ← Set.encard_coe_eq_coe_finsetCard]
  congr 1
  ext x
  simp only [Finset.coe_filter, Finset.mem_product, Finset.mem_range, Finset.mem_univ, and_true,
    Set.mem_ofPred_eq, and_iff_right_iff_imp]
  exact h x.1 x.2

end VmSim.Lib
