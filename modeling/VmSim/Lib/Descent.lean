/-
VmSim.Lib.Descent — descents through a graph with labelled edges.

Every vertex has at most one successor for each label. A word of labels
is followed as far as it goes: `descend` is the vertex it leads to,
`descentDepth` the number of vertices that are visited on the way, the
first one included. `wordsFrom k p` are the words of length `k` that lead
somewhere, and `treeSize d p` counts the vertices of the tree that hangs
from `p`, `d` edges deep, once for each word (`treeSize_eq`).

Where the vertices have labels, `labelAt` is the label at the end of a
word. Vertices that a bisimulation relates cannot be told apart by it
(`labelAt_congr`), and depths and sizes depend on the words only.
-/
import Mathlib.Algebra.BigOperators.Group.Finset.Basic
import Mathlib.Algebra.BigOperators.Fin
import Mathlib.Data.Fintype.BigOperators
import Mathlib.Data.Finset.Union

namespace VmSim.Lib

variable {P Q L ι : Type} {next : P → ι → Option P} {next' : Q → ι → Option Q} {p q : P} {q' : Q}
  {i : ι} {word rest : List ι} {k d : Nat}

/-! ## One word -/

def descend (next : P → ι → Option P) : P → List ι → Option P
  | p, [] => some p
  | p, i :: word => (next p i).bind fun q => descend next q word

/-- The number of vertices visited when the word is followed as far as it
goes. -/
def descentDepth (next : P → ι → Option P) : P → List ι → Nat
  | _, [] => 1
  | p, i :: word => 1 + (next p i).elim 0 fun q => descentDepth next q word

theorem descend_append (p : P) (word rest : List ι) :
    descend next p (word ++ rest) = (descend next p word).bind fun q => descend next q rest := by
  induction word generalizing p with
  | nil => rfl
  | cons i word ih =>
    simp only [List.cons_append, descend]
    cases next p i with
    | none => rfl
    | some q => exact ih q

/-- More than `k` vertices are visited if the first `k` labels lead
somewhere. -/
theorem lt_descentDepth (hk : k ≤ word.length) :
    k < descentDepth next p word ↔ (descend next p (word.take k)).isSome := by
  induction word generalizing p k with
  | nil =>
    cases Nat.le_zero.mp hk
    exact iff_of_true Nat.zero_lt_one rfl
  | cons i word ih =>
    cases k with
    | zero => exact iff_of_true (Nat.lt_of_lt_of_le Nat.zero_lt_one (Nat.le_add_right _ _)) rfl
    | succ k =>
      rw [List.take_succ_cons, descend, descentDepth]
      cases hnext : next p i with
      | none => simp
      | some q =>
        have hrest := ih (p := q) (Nat.le_of_succ_le_succ hk)
        simp only [Option.elim_some, Option.bind_some, ← hrest]
        omega

theorem descentDepth_le (p : P) (word : List ι) :
    descentDepth next p word ≤ word.length + 1 := by
  induction word generalizing p with
  | nil => exact Nat.le_refl 1
  | cons i word ih =>
    rw [descentDepth, List.length_cons]
    cases next p i with
    | none => simp
    | some q =>
      have hrest := ih q
      simp only [Option.elim_some]
      omega

/-! ## Labels -/

/-- The label that a word leads to. -/
def labelAt (next : P → ι → Option P) (label : P → Option L) (p : P) (word : List ι) : Option L :=
  (descend next p word).bind label

theorem labelAt_cons (next : P → ι → Option P) (label : P → Option L) (p : P) (i : ι)
    (word : List ι) :
    labelAt next label p (i :: word) = (next p i).bind fun q => labelAt next label q word := by
  rw [labelAt, descend, Option.bind_assoc]
  rfl

/-- The bisimulation rule: related vertices have the same label, and what
one can do the other can do, to related vertices. -/
theorem labelAt_congr {label : P → Option L} {label' : Q → Option L} (R : P → Q → Prop)
    (hlabel : ∀ p q, R p q → label' q = label p)
    (hnext : ∀ p q i, R p q → Option.Rel R (next p i) (next' q i)) (hR : R p q')
    (word : List ι) : labelAt next' label' q' word = labelAt next label p word := by
  induction word generalizing p q' with
  | nil => exact hlabel p q' hR
  | cons i word ih =>
    rw [labelAt_cons, labelAt_cons]
    have hrel := hnext p q' i hR
    cases hp : next p i with
    | none =>
      rw [hp] at hrel
      cases hq : next' q' i with
      | none => rfl
      | some c' =>
        rw [hq] at hrel
        cases hrel
    | some c =>
      rw [hp] at hrel
      cases hq : next' q' i with
      | none =>
        rw [hq] at hrel
        cases hrel
      | some c' =>
        rw [hq] at hrel
        cases hrel with
        | some hc => exact ih hc

/-- The depth depends on the words that lead somewhere. -/
theorem descentDepth_congr
    (hwords : ∀ word, (descend next' q' word).isSome = (descend next p word).isSome)
    (word : List ι) : descentDepth next' q' word = descentDepth next p word := by
  refine eq_of_forall_lt_iff fun k => ?_
  by_cases hk : k ≤ word.length
  · rw [lt_descentDepth hk, lt_descentDepth hk, hwords]
  · have hle : descentDepth next p word ≤ word.length + 1 := descentDepth_le p word
    have hle' : descentDepth next' q' word ≤ word.length + 1 := descentDepth_le q' word
    omega

/-! ## All words -/

variable [Fintype ι] [DecidableEq ι]

def wordsFrom (next : P → ι → Option P) : Nat → P → Finset (List ι)
  | 0, _ => {[]}
  | k + 1, p => Finset.univ.biUnion fun i =>
      (next p i).elim ∅ fun q => (wordsFrom next k q).image (List.cons i)

def treeSize (next : P → ι → Option P) : Nat → P → Nat
  | 0, _ => 1
  | d + 1, p => 1 + ∑ i, (next p i).elim 0 (treeSize next d)

theorem mem_wordsFrom (k : Nat) (p : P) (word : List ι) :
    word ∈ wordsFrom next k p ↔ word.length = k ∧ (descend next p word).isSome := by
  induction k generalizing p word with
  | zero =>
    rw [wordsFrom, Finset.mem_singleton, List.length_eq_zero_iff]
    refine ⟨fun h => ⟨h, ?_⟩, And.left⟩
    rw [h]
    rfl
  | succ k ih =>
    rw [wordsFrom, Finset.mem_biUnion]
    constructor
    · rintro ⟨i, _, hi⟩
      cases hnext : next p i with
      | none =>
        rw [hnext] at hi
        exact absurd hi (Finset.notMem_empty _)
      | some q =>
        rw [hnext, Option.elim_some, Finset.mem_image] at hi
        obtain ⟨rest, hrest, rfl⟩ := hi
        obtain ⟨hlen, hsome⟩ := (ih q rest).mp hrest
        refine ⟨by rw [List.length_cons, hlen], ?_⟩
        rw [descend, hnext]
        exact hsome
    · rintro ⟨hlen, hsome⟩
      cases word with
      | nil => cases hlen
      | cons i rest =>
        rw [descend] at hsome
        cases hnext : next p i with
        | none =>
          rw [hnext] at hsome
          cases hsome
        | some q =>
          rw [hnext] at hsome
          refine ⟨i, Finset.mem_univ i, ?_⟩
          rw [hnext, Option.elim_some, Finset.mem_image]
          exact ⟨rest, (ih q rest).mpr ⟨Nat.succ.inj hlen, hsome⟩, rfl⟩

theorem card_wordsFrom_succ (k : Nat) (p : P) :
    (wordsFrom next (k + 1) p).card =
      ∑ i, (next p i).elim 0 fun q => (wordsFrom next k q).card := by
  rw [wordsFrom, Finset.card_biUnion]
  · refine Finset.sum_congr rfl fun i _ => ?_
    cases next p i with
    | none => rfl
    | some q => exact Finset.card_image_of_injective _ fun _ _ h => (List.cons.inj h).2
  · -- words with different first labels differ
    intro i _ j _ hij
    refine Finset.disjoint_left.mpr fun word hi hj => hij ?_
    have hhead : ∀ l, word ∈ ((next p l).elim ∅ fun q => (wordsFrom next k q).image (List.cons l)) →
        word.head? = some l := by
      intro l hl
      cases hnext : next p l with
      | none =>
        rw [hnext] at hl
        exact absurd hl (Finset.notMem_empty _)
      | some q =>
        rw [hnext, Option.elim_some, Finset.mem_image] at hl
        obtain ⟨rest, _, rfl⟩ := hl
        rfl
    exact Option.some.inj ((hhead i hi).symm.trans (hhead j hj))

/-- The tree has one vertex for each word that leads to one. -/
theorem treeSize_eq (d : Nat) (p : P) :
    treeSize next d p = ∑ k ∈ Finset.range (d + 1), (wordsFrom next k p).card := by
  induction d generalizing p with
  | zero => rfl
  | succ d ih =>
    rw [Finset.sum_range_succ', treeSize, Nat.add_comm]
    have hzero : (wordsFrom next 0 p).card = 1 := rfl
    rw [hzero]
    congr 1
    simp only [card_wordsFrom_succ]
    rw [Finset.sum_comm]
    refine Finset.sum_congr rfl fun i _ => ?_
    cases next p i with
    | none => simp
    | some q => exact ih q

theorem treeSize_congr
    (hwords : ∀ word, (descend next' q' word).isSome = (descend next p word).isSome) (d : Nat) :
    treeSize next' d q' = treeSize next d p := by
  rw [treeSize_eq, treeSize_eq]
  refine Finset.sum_congr rfl fun k _ => congrArg Finset.card ?_
  ext word
  rw [mem_wordsFrom, mem_wordsFrom, hwords]

end VmSim.Lib
