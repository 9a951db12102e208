/-
VmSim.PageTable.References — what exact reference counts are worth.

`Heap.Wf` counts references up to the bounds of the heap. Here the count
of a node is the number of tables and of parent slots that hold it, as
sets, and the count of an entry that of the leaf slots. Since every live
object has a reference, and a slot's node is one level higher, a climb
from any object ends at the root of a table (`Heap.Wf.reachable`): nothing
leaks.
-/
import VmSim.PageTable.Sharing
import VmSim.Lib.Descent

namespace VmSim

open Lib

/-- The tables whose root is `p`. -/
def Heap.holders (h : Heap) (p : Nat) : Set Nat := {t | ∃ r, h.tables t = some r ∧ r.root = p}

/-- The slots of live nodes that point to `p`. -/
def Heap.parentSlots (h : Heap) (p : Nat) : Set (Nat × Fin pageTableEntries) :=
  {x | ∃ n, h.objects x.1 = some (.node n) ∧ n.entries x.2 = some p}

/-- The slots of live nodes of the last level that point to `p`. -/
def Heap.leafSlots (h : Heap) (p : Nat) : Set (Nat × Fin pageTableEntries) :=
  {x | ∃ n, h.objects x.1 = some (.node n) ∧ n.level = pageTableLevels - 1 ∧
    n.entries x.2 = some p}

/-- The reference counts are exact, the levels are right, and every object
is reached from a table. -/
structure Heap.Exact (h : Heap) : Prop where
  node : ∀ p n, h.objects p = some (.node n) →
    (n.referenceCount : ℕ∞) = (h.holders p).encard + (h.parentSlots p).encard
  entry : ∀ p e, h.objects p = some (.entry e) →
    (e.referenceCount : ℕ∞) = (h.leafSlots p).encard
  root : ∀ t r, h.tables t = some r → ∃ n, h.objects r.root = some (.node n) ∧ n.level = 0
  child : ∀ p n i c, h.objects p = some (.node n) → n.entries i = some c →
    n.level < pageTableLevels ∧
      (n.level < pageTableLevels - 1 → ∃ m, h.objects c = some (.node m) ∧ m.level = n.level + 1) ∧
      (n.level = pageTableLevels - 1 → ∃ e, h.objects c = some (.entry e))
  reachable : ∀ p o, h.objects p = some o →
    ∃ t r word, h.tables t = some r ∧ descend h.slots r.root word = some p

variable {h : Heap} {p c q t : Nat} {o : Object} {n : PageTableNode} {e : PageTableEntry}
  {i : Fin pageTableEntries}

/-! ## Holders and slots -/

theorem Heap.roots_eq_some : h.roots t () = some p ↔ t ∈ h.holders p := by
  rw [Heap.roots, Option.map_eq_some_iff]
  rfl

theorem Heap.slots_eq_some : h.slots q i = some p ↔ (q, i) ∈ h.parentSlots p := by
  constructor
  · intro hs
    obtain ⟨o, ho, hi⟩ := Heap.live_of_slot hs
    cases o with
    | node n => exact ⟨n, ho, hi⟩
    | entry e => cases hi
  · rintro ⟨n, hn, hi⟩
    rw [Heap.slots_of_some hn]
    exact hi

theorem Heap.Wf.count_eq (hw : h.Wf noPending) (p : Nat) :
    (h.count p : ℕ∞) = (h.holders p).encard + (h.parentSlots p).encard := by
  have hroots := inCount_eq_encard h.roots h.nextTable p fun t u ht => by
    obtain ⟨r, hr, _⟩ := Heap.roots_eq_some.mp ht
    exact hw.tables_lt t r hr
  have hslots := inCount_eq_encard h.slots h.next p fun q i hs => hw.lt_of_slot hs
  have hholders : {x : Nat × Unit | h.roots x.1 x.2 = some p}.encard = (h.holders p).encard := by
    have himage : {x : Nat × Unit | h.roots x.1 x.2 = some p} =
        (fun t => (t, ())) '' h.holders p := by
      ext ⟨t, ⟨⟩⟩
      rw [Set.mem_ofPred_eq, Heap.roots_eq_some]
      simp
    rw [himage]
    exact (Function.Injective.encard_image (fun t t' ht => congrArg Prod.fst ht) _)
  have hparents : {x : Nat × Fin pageTableEntries | h.slots x.1 x.2 = some p} =
      h.parentSlots p := by
    ext x
    exact Heap.slots_eq_some
  have hcount := hw.counted p
  simp only [noPending, Int.add_zero, Nat.cast_inj] at hcount
  rw [hcount, Heap.references, Nat.cast_add, hroots, hslots, hholders, hparents, add_comm]

/-! ## Levels -/

theorem Heap.Wf.child_kind (hw : h.Wf noPending) (hn : h.objects p = some (.node n))
    (hc : n.entries i = some c) :
    n.level < pageTableLevels ∧
      (n.level < pageTableLevels - 1 → ∃ m, h.objects c = some (.node m) ∧ m.level = n.level + 1) ∧
      (n.level = pageTableLevels - 1 → ∃ e, h.objects c = some (.entry e)) := by
  have hlevel := ((hw.object p _ hn).node n rfl).1
  exact ⟨hlevel, hw.childNode hn hc, hw.childEntry hn hc⟩

/-- An entry hangs from leaf nodes and from nothing else. -/
theorem Heap.Wf.entry_held (hw : h.Wf noPending) (he : h.objects p = some (.entry e)) :
    h.holders p = ∅ ∧ h.parentSlots p = h.leafSlots p := by
  constructor
  · refine Set.eq_empty_of_forall_notMem ?_
    rintro t ⟨r, hr, rfl⟩
    obtain ⟨n, hn, _⟩ := hw.root_node hr
    rw [he] at hn
    cases hn
  · ext x
    constructor
    · rintro ⟨n, hn, hs⟩
      have hrank := hw.rank x.1 _ x.2 p _ hn hs he
      have hlevel : pageTableLevels = n.level + 1 := hrank
      exact ⟨n, hn, by omega, hs⟩
    · rintro ⟨n, hn, _, hs⟩
      exact ⟨n, hn, hs⟩

/-! ## Reachability -/

/-- Every live object has a reference. -/
theorem Heap.Wf.referred (hw : h.Wf noPending) (ho : h.objects p = some o) :
    (∃ t r, h.tables t = some r ∧ r.root = p) ∨ ∃ q i, h.slots q i = some p := by
  have hpositive := (hw.object p o ho).positive
  have hcount := hw.counted p
  rw [Heap.count_of_some ho] at hcount
  simp only [Heap.references, noPending] at hcount
  by_cases hslots : 1 ≤ inCount h.slots h.next p
  · exact .inr (exists_of_inCount_pos hslots)
  · left
    have hroots : 1 ≤ inCount h.roots h.nextTable p := by omega
    obtain ⟨t, u, ht⟩ := exists_of_inCount_pos hroots
    obtain ⟨r, hr, hroot⟩ := Heap.roots_eq_some.mp ht
    exact ⟨t, r, hr, hroot⟩

/-- The climb from an object: whatever refers to it is a table or a node
one level higher. -/
theorem Heap.Wf.reachable (hw : h.Wf noPending) (ho : h.objects p = some o) :
    ∃ t r word, h.tables t = some r ∧ descend h.slots r.root word = some p := by
  induction hk : o.rank generalizing p o with
  | zero =>
    rcases hw.referred ho with ⟨t, r, hr, rfl⟩ | ⟨q, i, hs⟩
    · exact ⟨t, r, [], hr, rfl⟩
    · obtain ⟨oq, hoq, hi⟩ := Heap.live_of_slot hs
      have hrank := hw.rank q oq i p o hoq hi ho
      omega
  | succ k ih =>
    rcases hw.referred ho with ⟨t, r, hr, rfl⟩ | ⟨q, i, hs⟩
    · exact ⟨t, r, [], hr, rfl⟩
    · obtain ⟨oq, hoq, hi⟩ := Heap.live_of_slot hs
      have hrank := hw.rank q oq i p o hoq hi ho
      obtain ⟨t, r, word, hr, hword⟩ := ih hoq (by omega)
      exact ⟨t, r, word ++ [i], hr, by simp [descend_append, hword, descend, hs]⟩

/-! ## The whole heap -/

theorem Heap.Wf.exact (hw : h.Wf noPending) : h.Exact := by
  refine ⟨fun p n hn => ?_, fun p e he => ?_, fun t r hr => hw.root_node hr,
    fun p n i c hn hc => hw.child_kind hn hc, fun p o ho => hw.reachable ho⟩
  · rw [← hw.count_eq, Heap.count_of_some hn]
    rfl
  · obtain ⟨hholders, hparents⟩ := hw.entry_held he
    have hcount := hw.count_eq p
    rw [Heap.count_of_some he, hholders, hparents, Set.encard_empty, zero_add] at hcount
    exact hcount

/-- Without tables there is nothing. -/
theorem Heap.Exact.empty (hx : h.Exact) (hnone : ∀ t, h.tables t = none) (p : Nat) :
    h.objects p = none := by
  cases ho : h.objects p with
  | none => rfl
  | some o =>
    obtain ⟨t, r, word, hr, _⟩ := hx.reachable p o ho
    rw [hnone t] at hr
    cases hr

end VmSim
