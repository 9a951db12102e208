/-
VmSim.PageTable.Invariant — what holds of the heap of trie objects.

`Heap.Wf pend` says that every reference count is exact: it is the number
of slots and table roots that point to the object, plus `pend`, the
references held by the function that is running (a positive number for a
pointer not yet stored, a negative one for a slot that is about to be
overwritten). Between two operations `pend` is zero. The rules `write`,
`newObject` and `setTable` give the new `pend` of each kind of update, so
that a function is verified by adding up what its updates do.

`frameAt h p path` is the frame that a descent from `p` finds. It looks at
the bodies of the objects only, never at their counts
(`Heap.frameAt_congr`), which is why sharing is invisible.
-/
import VmSim.PageTable.Trie
import VmSim.Lib.RefGraph

namespace VmSim

open Lib

/-! ## Objects -/

/-- An entry has no slots. -/
def Object.slots : Object → Fin pageTableEntries → Option Nat
  | .node n => n.entries
  | .entry _ => fun _ => none

def Object.referenceCount : Object → Nat
  | .node n => n.referenceCount
  | .entry e => e.referenceCount

/-- The level of a node; entries are below the last level. -/
def Object.rank : Object → Nat
  | .node n => n.level
  | .entry _ => pageTableLevels

def Object.setCount (count : Nat) : Object → Object
  | .node n => .node { n with referenceCount := count }
  | .entry e => .entry { e with referenceCount := count }

/-- The number of slots in use. -/
def filled (cell : Fin pageTableEntries → Option Nat) : Nat :=
  (Finset.univ.filter fun i => (cell i).isSome).card

/-- A node knows how many of its slots are in use, and an entry of the
trie is present. -/
structure Object.Wf (object : Object) : Prop where
  positive : 1 ≤ object.referenceCount
  node : ∀ n, object = .node n → n.level < pageTableLevels ∧ n.activeEntries = filled n.entries
  entry : ∀ e, object = .entry e → e.present = true

@[simp] theorem Object.slots_setCount (object : Object) (count : Nat) :
    (object.setCount count).slots = object.slots := by cases object <;> rfl

@[simp] theorem Object.rank_setCount (object : Object) (count : Nat) :
    (object.setCount count).rank = object.rank := by cases object <;> rfl

@[simp] theorem Object.referenceCount_setCount (object : Object) (count : Nat) :
    (object.setCount count).referenceCount = count := by cases object <;> rfl

@[simp] theorem Object.setCount_setCount (object : Object) (count count' : Nat) :
    (object.setCount count).setCount count' = object.setCount count' := by cases object <;> rfl

theorem Object.setCount_self (object : Object) :
    object.setCount object.referenceCount = object := by cases object <;> rfl

theorem Object.Wf.setCount {object : Object} (h : object.Wf) {count : Nat} (hc : 1 ≤ count) :
    (object.setCount count).Wf := by
  refine ⟨by simpa using hc, fun n hn => ?_, fun e he => ?_⟩
  · cases object with
    | node m => cases hn; exact h.node m rfl
    | entry m => cases hn
  · cases object with
    | node m => cases he
    | entry m => cases he; exact h.entry m rfl

theorem filled_update (cell : Fin pageTableEntries → Option Nat) (i : Fin pageTableEntries)
    (slot : Option Nat) :
    filled (Function.update cell i slot) + (if (cell i).isSome then 1 else 0) =
      filled cell + if slot.isSome then 1 else 0 := by
  simp only [filled, Finset.card_filter]
  rw [← Finset.add_sum_erase _ _ (Finset.mem_univ i), ← Finset.add_sum_erase _ (fun j =>
    if (cell j).isSome then 1 else 0) (Finset.mem_univ i), Function.update_self]
  have hrest : ∑ j ∈ Finset.univ.erase i, (if (Function.update cell i slot j).isSome then 1 else 0) =
      ∑ j ∈ Finset.univ.erase i, if (cell j).isSome then 1 else 0 := by
    refine Finset.sum_congr rfl fun j hj => ?_
    rw [Function.update_of_ne (Finset.ne_of_mem_erase hj)]
  rw [hrest]
  omega

theorem filled_eq_zero {cell : Fin pageTableEntries → Option Nat} :
    filled cell = 0 ↔ ∀ i, cell i = none := by
  simp [filled, Finset.filter_eq_empty_iff]

/-! ## The heap -/

def Heap.slots (h : Heap) (p : Nat) : Fin pageTableEntries → Option Nat :=
  (h.objects p).elim (fun _ => none) Object.slots

def Heap.count (h : Heap) (p : Nat) : Nat := (h.objects p).elim 0 Object.referenceCount

/-- The root pointer of a table, as the only slot of a cell. -/
def Heap.roots (h : Heap) (t : Nat) (_ : Unit) : Option Nat := (h.tables t).map (·.root)

/-- The references to `p` that are stored somewhere. -/
def Heap.references (h : Heap) (p : Nat) : Nat :=
  inCount h.slots h.next p + inCount h.roots h.nextTable p

structure Heap.Wf (pend : Nat → Int) (h : Heap) : Prop where
  objects_lt : ∀ p o, h.objects p = some o → p < h.next
  tables_lt : ∀ t r, h.tables t = some r → t < h.nextTable
  object : ∀ p o, h.objects p = some o → o.Wf
  counted : ∀ p, (h.count p : Int) = h.references p + pend p
  slots_lt : ∀ q i c, h.slots q i = some c → c < h.next
  rank : ∀ q o i c o', h.objects q = some o → o.slots i = some c → h.objects c = some o' →
    o'.rank = o.rank + 1
  same_rank : ∀ q o i q' o' i' c, h.objects q = some o → o.slots i = some c →
    h.objects q' = some o' → o'.slots i' = some c → o'.rank = o.rank
  root_lt : ∀ t r, h.tables t = some r → r.root < h.next
  root_rank : ∀ t r o, h.tables t = some r → h.objects r.root = some o → o.rank = 0

/-- No references are pending. -/
def noPending : Nat → Int := fun _ => 0

variable {h h' : Heap} {pend : Nat → Int} {p q c t : Nat} {o : Object}
  {i : Fin pageTableEntries}

theorem Heap.slots_of_some (ho : h.objects p = some o) : h.slots p = o.slots := by
  simp [Heap.slots, ho]

theorem Heap.count_of_some (ho : h.objects p = some o) : h.count p = o.referenceCount := by
  simp [Heap.count, ho]

theorem Heap.live_of_slot (hs : h.slots q i = some c) : ∃ o, h.objects q = some o ∧
    o.slots i = some c := by
  cases ho : h.objects q with
  | none => simp [Heap.slots, ho] at hs
  | some o => exact ⟨o, rfl, by rwa [Heap.slots_of_some ho] at hs⟩

theorem Heap.Wf.lt_of_slot (hw : h.Wf pend) (hs : h.slots q i = some c) : q < h.next := by
  obtain ⟨o, ho, _⟩ := Heap.live_of_slot hs
  exact hw.objects_lt q o ho

theorem Heap.live_of_count (hc : 1 ≤ h.count p) : ∃ o, h.objects p = some o := by
  cases ho : h.objects p with
  | none => simp [Heap.count, ho] at hc
  | some o => exact ⟨o, rfl⟩

/-- A slot does not dangle unless a negative number is pending for its
target. -/
theorem Heap.Wf.target (hw : h.Wf pend) (hs : h.slots q i = some c) (hp : 0 ≤ pend c) :
    ∃ o, h.objects c = some o := by
  have hin := inCount_pos h.slots (hw.lt_of_slot hs) hs
  have hcount := hw.counted c
  simp only [Heap.references] at hcount
  exact Heap.live_of_count (by omega)

theorem Heap.Wf.rootTarget {r : PageTable} (hw : h.Wf pend) (hr : h.tables t = some r)
    (hp : 0 ≤ pend r.root) : ∃ o, h.objects r.root = some o ∧ o.rank = 0 := by
  have hin := inCount_pos h.roots (p := r.root) (i := ()) (hw.tables_lt t r hr)
    (by simp [Heap.roots, hr])
  have hcount := hw.counted r.root
  simp only [Heap.references] at hcount
  obtain ⟨o, ho⟩ := Heap.live_of_count (h := h) (p := r.root) (by omega)
  exact ⟨o, ho, hw.root_rank t r o hr ho⟩

/-- A table's root is a node of level 0. -/
theorem Heap.Wf.root_node (hw : h.Wf noPending) {r : PageTable} (hr : h.tables t = some r) :
    ∃ n, h.objects r.root = some (.node n) ∧ n.level = 0 := by
  obtain ⟨o, ho, hrank⟩ := hw.rootTarget hr (Int.le_refl 0)
  cases o with
  | node n => exact ⟨n, ho, hrank⟩
  | entry e => cases hrank

/-- The only reference to an object with count 1 is the one in hand. -/
theorem Heap.Wf.sole (hw : h.Wf noPending) (hone : h.count c = 1) (hs : h.slots q i = some c) :
    (∀ q' i', h.slots q' i' = some c → q' = q ∧ i' = i) ∧
      ∀ t r, h.tables t = some r → r.root ≠ c := by
  have hcount := hw.counted c
  simp only [Heap.references, noPending, hone] at hcount
  have hin := inCount_pos h.slots (hw.lt_of_slot hs) hs
  refine ⟨fun q' i' hs' => inCount_unique h.slots (by omega) (hw.lt_of_slot hs')
    (hw.lt_of_slot hs) hs' hs, fun t r hr he => ?_⟩
  have hroot := inCount_pos h.roots (p := c) (i := ()) (hw.tables_lt t r hr)
    (by simp [Heap.roots, hr, he])
  omega

theorem Heap.Wf.soleRoot {r : PageTable} (hw : h.Wf noPending) (hone : h.count r.root = 1)
    (hr : h.tables t = some r) :
    (∀ q i, h.slots q i ≠ some r.root) ∧
      ∀ t' r', h.tables t' = some r' → r'.root = r.root → t' = t := by
  have hcount := hw.counted r.root
  simp only [Heap.references, noPending, hone] at hcount
  have hself : h.roots t () = some r.root := by simp [Heap.roots, hr]
  have hin := inCount_pos h.roots (hw.tables_lt t r hr) hself
  refine ⟨fun q i hs => ?_, fun t' r' hr' he => ?_⟩
  · have hslot := inCount_pos h.slots (hw.lt_of_slot hs) hs
    omega
  · exact (inCount_unique h.roots (p := r.root) (i := ()) (j := ()) (by omega)
      (hw.tables_lt t' r' hr') (hw.tables_lt t r hr) (by simp [Heap.roots, hr', he]) hself).1

/-! ## Updates -/

/-- Overwrite or free an object. -/
def Heap.setObject (h : Heap) (p : Nat) (object : Option Object) : Heap :=
  { h with objects := Function.update h.objects p object }

def Heap.addObject (h : Heap) (object : Object) : Heap :=
  { h with objects := Function.update h.objects h.next (some object), next := h.next + 1 }

def Heap.setTable (h : Heap) (t : Nat) (table : Option PageTable) : Heap :=
  { h with tables := Function.update h.tables t table }

theorem Heap.slots_setObject (h : Heap) (p : Nat) (object : Option Object) :
    (h.setObject p object).slots =
      Function.update h.slots p (object.elim (fun _ => none) Object.slots) := by
  funext q
  by_cases e : q = p <;> simp [Heap.slots, Heap.setObject, e]

/-- The rule for overwriting a live object: what the slots drop is still
referenced, what they gain must be there. -/
theorem Heap.Wf.setObject (hw : h.Wf pend) {object : Option Object} {pend' : Nat → Int}
    (ho : h.objects p = some o) (hwf : ∀ o', object = some o' → o'.Wf ∧ o'.rank = o.rank)
    (hslots : ∀ o' i c, object = some o' → o'.slots i = some c →
      o.slots i = some c ∨ ∃ oc, h.objects c = some oc ∧ oc.rank = o.rank + 1)
    (hpend : ∀ q, pend' q = pend q
      + (if q = p then (object.elim 0 Object.referenceCount : Nat) - (o.referenceCount : Int) else 0)
      + outCount o.slots q - outCount (object.elim (fun _ => none) Object.slots) q) :
    (h.setObject p object).Wf pend' := by
  have hlt := hw.objects_lt p o ho
  have hobj : ∀ q o', (h.setObject p object).objects q = some o' →
      (q = p ∧ object = some o') ∨ (q ≠ p ∧ h.objects q = some o') := by
    intro q o' hq
    by_cases e : q = p
    · exact Or.inl ⟨e, by simpa [Heap.setObject, e] using hq⟩
    · exact Or.inr ⟨e, by simpa [Heap.setObject, e] using hq⟩
  -- a slot of the new heap was there before or points to a live object one rank below
  have hsrc : ∀ q o' i c, (h.setObject p object).objects q = some o' → o'.slots i = some c →
      ∃ oq, h.objects q = some oq ∧ oq.rank = o'.rank ∧
        (oq.slots i = some c ∨ ∃ oc, h.objects c = some oc ∧ oc.rank = oq.rank + 1) := by
    intro q o' i c hq hs
    rcases hobj q o' hq with ⟨rfl, e⟩ | ⟨_, hq'⟩
    · exact ⟨o, ho, (hwf o' e).2.symm, hslots o' i c e hs⟩
    · exact ⟨o', hq', rfl, Or.inl hs⟩
  have htgt : ∀ q o', (h.setObject p object).objects q = some o' →
      ∃ oq, h.objects q = some oq ∧ oq.rank = o'.rank := by
    intro q o' hq
    rcases hobj q o' hq with ⟨rfl, e⟩ | ⟨_, hq'⟩
    · exact ⟨o, ho, (hwf o' e).2.symm⟩
    · exact ⟨o', hq', rfl⟩
  refine ⟨fun q o' hq => ?_, hw.tables_lt, fun q o' hq => ?_, fun q => ?_, fun q i c hs => ?_,
    fun q o' i c oc hq hs hc => ?_, fun q o₁ i q' o₂ i' c hq hs hq' hs' => ?_, hw.root_lt,
    fun t r o' hr hroot => ?_⟩
  · obtain ⟨oq, hq', _⟩ := htgt q o' hq
    exact hw.objects_lt q oq hq'
  · rcases hobj q o' hq with ⟨_, e⟩ | ⟨_, hq'⟩
    · exact (hwf o' e).1
    · exact hw.object q o' hq'
  · have hin := inCount_update h.slots (object.elim (fun _ => none) Object.slots) q hlt
    have hcount := hw.counted q
    rw [Heap.slots_of_some ho] at hin
    have hrefs : (h.setObject p object).references q =
        inCount (Function.update h.slots p (object.elim (fun _ => none) Object.slots)) h.next q
          + inCount h.roots h.nextTable q := by
      rw [← Heap.slots_setObject]
      rfl
    rw [hrefs, hpend q]
    simp only [Heap.references] at hcount
    by_cases e : q = p
    · have hc : (h.setObject p object).count q = object.elim 0 Object.referenceCount := by
        simp [Heap.count, Heap.setObject, e]
      have hold := Heap.count_of_some (e ▸ ho : h.objects q = some o)
      rw [hc, if_pos e]
      omega
    · have hc : (h.setObject p object).count q = h.count q := by
        simp [Heap.count, Heap.setObject, e]
      rw [hc, if_neg e]
      omega
  · obtain ⟨o', hq, hs'⟩ := Heap.live_of_slot hs
    obtain ⟨oq, hq', _, hold | ⟨oc, hoc, _⟩⟩ := hsrc q o' i c hq hs'
    · exact hw.slots_lt q i c (by rw [Heap.slots_of_some hq', hold])
    · exact hw.objects_lt c oc hoc
  · obtain ⟨oq, hq', hrank, hold⟩ := hsrc q o' i c hq hs
    obtain ⟨oc', hc', hrank'⟩ := htgt c oc hc
    rw [← hrank', ← hrank]
    rcases hold with hold | ⟨oc'', hc'', hr⟩
    · exact hw.rank q oq i c oc' hq' hold hc'
    · rw [hc'] at hc''
      cases hc''
      exact hr
  · obtain ⟨oq, hoq, hrank, hold⟩ := hsrc q o₁ i c hq hs
    obtain ⟨oq', hoq', hrank', hold'⟩ := hsrc q' o₂ i' c hq' hs'
    rw [← hrank, ← hrank']
    rcases hold with hold | ⟨oc, hoc, hr⟩ <;> rcases hold' with hold' | ⟨oc', hoc', hr'⟩
    · exact hw.same_rank q oq i q' oq' i' c hoq hold hoq' hold'
    · have := hw.rank q oq i c oc' hoq hold hoc'
      omega
    · have := hw.rank q' oq' i' c oc hoq' hold' hoc
      omega
    · rw [hoc] at hoc'
      cases hoc'
      omega
  · obtain ⟨oq, hq', hrank⟩ := htgt r.root o' hroot
    rw [← hrank]
    exact hw.root_rank t r oq hr hq'

/-- The rule for a new object. -/
theorem Heap.Wf.addObject (hw : h.Wf pend) {pend' : Nat → Int} (hwf : o.Wf)
    (hslots : ∀ i c, o.slots i = some c → ∃ oc, h.objects c = some oc ∧ oc.rank = o.rank + 1)
    (hpend : ∀ q, pend' q = pend q + (if q = h.next then (o.referenceCount : Int) else 0)
      - outCount o.slots q) :
    (h.addObject o).Wf pend' := by
  have hfresh : h.objects h.next = none := by
    cases hn : h.objects h.next with
    | none => rfl
    | some o' => exact absurd (hw.objects_lt _ o' hn) (Nat.lt_irrefl _)
  have hobj : ∀ q o', (h.addObject o).objects q = some o' →
      (q = h.next ∧ o = o') ∨ (q ≠ h.next ∧ h.objects q = some o') := by
    intro q o' hq
    by_cases e : q = h.next
    · exact Or.inl ⟨e, by simpa [Heap.addObject, e] using hq⟩
    · exact Or.inr ⟨e, by simpa [Heap.addObject, e] using hq⟩
  have hsrc : ∀ q o' i c, (h.addObject o).objects q = some o' → o'.slots i = some c →
      c < h.next ∧ ((h.objects q = some o') ∨
        ∃ oc, h.objects c = some oc ∧ oc.rank = o'.rank + 1) := by
    intro q o' i c hq hs
    rcases hobj q o' hq with ⟨_, rfl⟩ | ⟨_, hq'⟩
    · obtain ⟨oc, hoc, hr⟩ := hslots i c hs
      exact ⟨hw.objects_lt c oc hoc, Or.inr ⟨oc, hoc, hr⟩⟩
    · exact ⟨hw.slots_lt q i c (by rw [Heap.slots_of_some hq', hs]), Or.inl hq'⟩
  have hback : ∀ c oc, c < h.next → (h.addObject o).objects c = some oc → h.objects c = some oc := by
    intro c oc hc hoc
    rcases hobj c oc hoc with ⟨e, _⟩ | ⟨_, hoc'⟩
    · exact absurd e (Nat.ne_of_lt hc)
    · exact hoc'
  have hslotsEq : (h.addObject o).slots = Function.update h.slots h.next o.slots := by
    funext q
    by_cases e : q = h.next <;> simp [Heap.slots, Heap.addObject, e]
  refine ⟨fun q o' hq => ?_, hw.tables_lt, fun q o' hq => ?_, fun q => ?_, fun q i c hs => ?_,
    fun q o' i c oc hq hs hc => ?_, fun q o₁ i q' o₂ i' c hq hs hq' hs' => ?_, fun t r hr => ?_,
    fun t r o' hr hroot => ?_⟩
  · rcases hobj q o' hq with ⟨e, _⟩ | ⟨_, hq'⟩
    · exact e ▸ Nat.lt_succ_self _
    · exact Nat.lt_succ_of_lt (hw.objects_lt q o' hq')
  · rcases hobj q o' hq with ⟨_, rfl⟩ | ⟨_, hq'⟩
    · exact hwf
    · exact hw.object q o' hq'
  · have hin : inCount (Function.update h.slots h.next o.slots) (h.next + 1) q =
        inCount h.slots h.next q + outCount o.slots q := by
      have hold : inCount (Function.update h.slots h.next o.slots) h.next q =
          inCount h.slots h.next q :=
        inCount_congr fun x hx => Function.update_of_ne (Nat.ne_of_lt hx) _ _
      rw [inCount_succ, Function.update_self, hold]
    have hrefs : (h.addObject o).references q =
        inCount (Function.update h.slots h.next o.slots) (h.next + 1) q
          + inCount h.roots h.nextTable q := by
      rw [← hslotsEq]
      rfl
    have hcount := hw.counted q
    simp only [Heap.references] at hcount
    rw [hrefs, hin, hpend q]
    by_cases e : q = h.next
    · have hc : (h.addObject o).count q = o.referenceCount := by
        simp [Heap.count, Heap.addObject, e]
      have hold : h.count q = 0 := by simp [Heap.count, e, hfresh]
      rw [hc, if_pos e]
      omega
    · have hc : (h.addObject o).count q = h.count q := by
        simp [Heap.count, Heap.addObject, e]
      rw [hc, if_neg e]
      omega
  · obtain ⟨o', hq, hs'⟩ := Heap.live_of_slot hs
    exact Nat.lt_succ_of_lt (hsrc q o' i c hq hs').1
  · obtain ⟨hlt, hold⟩ := hsrc q o' i c hq hs
    have hc' := hback c oc hlt hc
    rcases hold with hq' | ⟨oc', hoc', hr⟩
    · exact hw.rank q o' i c oc hq' hs hc'
    · rw [hc'] at hoc'
      cases hoc'
      exact hr
  · rcases hsrc q o₁ i c hq hs with ⟨_, hold | ⟨oc, hoc, hr⟩⟩ <;>
      rcases hsrc q' o₂ i' c hq' hs' with ⟨_, hold' | ⟨oc', hoc', hr'⟩⟩
    · exact hw.same_rank q o₁ i q' o₂ i' c hold hs hold' hs'
    · have := hw.rank q o₁ i c oc' hold hs hoc'
      omega
    · have := hw.rank q' o₂ i' c oc hold' hs' hoc
      omega
    · rw [hoc] at hoc'
      cases hoc'
      omega
  · exact Nat.lt_succ_of_lt (hw.root_lt t r hr)
  · exact hw.root_rank t r o' hr (hback r.root o' (hw.root_lt t r hr) hroot)

/-- The rule for redirecting or dropping a table's root pointer. -/
theorem Heap.Wf.setTable (hw : h.Wf pend) {table : Option PageTable} {pend' : Nat → Int}
    (ht : t < h.nextTable)
    (hroot : ∀ r, table = some r → ∃ o, h.objects r.root = some o ∧ o.rank = 0)
    (hpend : ∀ q, pend' q = pend q + pointsTo (h.roots t ()) q
      - pointsTo (table.map (·.root)) q) :
    (h.setTable t table).Wf pend' := by
  have htab : ∀ t' r, (h.setTable t table).tables t' = some r →
      (t' = t ∧ table = some r) ∨ (t' ≠ t ∧ h.tables t' = some r) := by
    intro t' r hr
    by_cases e : t' = t
    · exact Or.inl ⟨e, by simpa [Heap.setTable, e] using hr⟩
    · exact Or.inr ⟨e, by simpa [Heap.setTable, e] using hr⟩
  refine ⟨hw.objects_lt, fun t' r hr => ?_, hw.object, fun q => ?_, hw.slots_lt, hw.rank,
    hw.same_rank, fun t' r hr => ?_, fun t' r o' hr ho' => ?_⟩
  · rcases htab t' r hr with ⟨rfl, _⟩ | ⟨_, hr'⟩
    · exact ht
    · exact hw.tables_lt t' r hr'
  · have hroots : (h.setTable t table).roots =
        Function.update h.roots t fun _ => table.map (·.root) := by
      funext t' u
      by_cases e : t' = t <;> simp [Heap.roots, Heap.setTable, e]
    have hin := inCount_update h.roots (fun _ => table.map (·.root)) q ht
    have hout : ∀ cell : Unit → Option Nat, outCount cell q = pointsTo (cell ()) q := fun cell => by
      simp [outCount]
    rw [← hroots, hout, hout] at hin
    have hcount := hw.counted q
    have hc : (h.setTable t table).count q = h.count q := rfl
    have hslots : inCount (h.setTable t table).slots (h.setTable t table).next q =
        inCount h.slots h.next q := rfl
    have hnext : (h.setTable t table).nextTable = h.nextTable := rfl
    simp only [Heap.references] at hcount ⊢
    rw [hc, hslots, hnext, hpend q]
    omega
  · rcases htab t' r hr with ⟨_, e⟩ | ⟨_, hr'⟩
    · obtain ⟨o', ho', _⟩ := hroot r e
      exact hw.objects_lt r.root o' ho'
    · exact hw.root_lt t' r hr'
  · rcases htab t' r hr with ⟨_, e⟩ | ⟨_, hr'⟩
    · obtain ⟨o'', ho'', hrank⟩ := hroot r e
      change h.objects r.root = some o' at ho'
      rw [ho'] at ho''
      cases ho''
      exact hrank
    · exact hw.root_rank t' r o' hr' ho'

/-- A table is added as one more root pointer. -/
def Heap.addTable (h : Heap) (table : PageTable) : Heap :=
  { h with
    tables := Function.update h.tables h.nextTable (some table)
    nextTable := h.nextTable + 1 }

/-- A table that is not there yet counts for nothing. -/
theorem Heap.Wf.nextTable_none (hw : h.Wf pend) : h.tables h.nextTable = none := by
  cases hn : h.tables h.nextTable with
  | none => rfl
  | some r => exact absurd (hw.tables_lt _ r hn) (Nat.lt_irrefl _)

theorem Heap.Wf.skipTable (hw : h.Wf pend) :
    ({ h with nextTable := h.nextTable + 1 } : Heap).Wf pend := by
  refine ⟨hw.objects_lt, fun t r hr => Nat.lt_succ_of_lt (hw.tables_lt t r hr), hw.object,
    fun q => ?_, hw.slots_lt, hw.rank, hw.same_rank, hw.root_lt, hw.root_rank⟩
  have hin := inCount_succ h.roots h.nextTable q
  have hout : outCount (h.roots h.nextTable) q = 0 :=
    outCount_eq_zero fun _ => by simp [Heap.roots, hw.nextTable_none]
  have hcount := hw.counted q
  simp only [Heap.references] at hcount ⊢
  change (h.count q : Int) = (inCount h.slots h.next q + inCount h.roots (h.nextTable + 1) q :) + _
  rw [hin, hout]
  omega

theorem Heap.Wf.addTable (hw : h.Wf pend) {table : PageTable} {pend' : Nat → Int}
    (hroot : ∃ o, h.objects table.root = some o ∧ o.rank = 0)
    (hpend : ∀ q, pend' q = pend q - pointsTo (some table.root) q) :
    (h.addTable table).Wf pend' := by
  refine hw.skipTable.setTable (t := h.nextTable) (Nat.lt_succ_self _) (fun r e => ?_) fun q => ?_
  · cases e
    exact hroot
  · have hold : ({ h with nextTable := h.nextTable + 1 } : Heap).roots h.nextTable () = none := by
      simp [Heap.roots, hw.nextTable_none]
    rw [hold, pointsTo_none, hpend q]
    simp

/-! ## The frame a descent finds -/

def Object.frame : Object → Option Nat
  | .node _ => none
  | .entry e => if e.present then some e.frameNumber else none

def Heap.frameAt (h : Heap) : Nat → List (Fin pageTableEntries) → Option Nat
  | p, [] => (h.objects p).bind Object.frame
  | p, i :: path => (h.slots p i).bind fun c => h.frameAt c path

/-- The frame that a table maps a page to; only the 36 key bits of the
page number matter. -/
def Heap.frameOf (h : Heap) (t page : Nat) : Option Nat :=
  (h.tables t).bind fun r => h.frameAt r.root (keyPath page)

theorem Heap.frame_of_body (hb : (h'.objects p).map (Object.setCount 0) =
    (h.objects p).map (Object.setCount 0)) : h'.frameAt p [] = h.frameAt p [] := by
  cases ho : h.objects p <;> cases ho' : h'.objects p <;>
    simp only [ho, ho', Option.map_none, Option.map_some, Option.some.injEq, reduceCtorEq] at hb
  · simp [Heap.frameAt, ho, ho']
  · rename_i o o'
    cases o <;> cases o' <;> simp [Object.setCount] at hb
    · simp [Heap.frameAt, ho, ho', Object.frame]
    · simp [Heap.frameAt, ho, ho', Object.frame, hb]

theorem Heap.slots_of_body (hb : (h'.objects p).map (Object.setCount 0) =
    (h.objects p).map (Object.setCount 0)) : h'.slots p = h.slots p := by
  cases ho : h.objects p <;> cases ho' : h'.objects p <;>
    simp only [ho, ho', Option.map_none, Option.map_some, Option.some.injEq, reduceCtorEq] at hb
  · simp [Heap.slots, ho, ho']
  · have hs := congrArg Object.slots hb
    simp only [Object.slots_setCount] at hs
    simp [Heap.slots, ho, ho', hs]

/-- Equal bodies on a set that no slot leaves give equal descents. -/
theorem Heap.frameAt_congr (S : Nat → Prop)
    (hbody : ∀ p, S p → (h'.objects p).map (Object.setCount 0) =
      (h.objects p).map (Object.setCount 0))
    (hclosed : ∀ p i c, S p → h.slots p i = some c → S c) :
    ∀ (path : List (Fin pageTableEntries)) (p : Nat), S p →
      h'.frameAt p path = h.frameAt p path := by
  intro path
  induction path with
  | nil =>
    intro p hp
    exact Heap.frame_of_body (hbody p hp)
  | cons i path ih =>
    intro p hp
    simp only [Heap.frameAt, Heap.slots_of_body (hbody p hp)]
    cases hs : h.slots p i with
    | none => rfl
    | some c => exact ih c (hclosed p i c hp hs)

end VmSim
