/-
VmSim.PageTable.Sharing — the operations that create and undo sharing:
shallow clones, privatisation of a root or a child, and releases.

None of them is visible through `Heap.frameAt`. A clone has the slots of
its source (`Heap.Wf.cloned`), so redirecting a slot or a root to it
changes no descent (`Heap.frameAt_setSlot`); a release only takes away
what nothing points to any more (`pageTableNodeRelease_spec`).
-/
import VmSim.PageTable.Invariant
import Mathlib.Algebra.BigOperators.Fin

namespace VmSim

open Lib

variable {h h' : Heap} {pend : Nat → Int} {p q c t : Nat} {o : Object} {n : PageTableNode}
  {e : PageTableEntry} {i : Fin pageTableEntries}

/-! ## Heap primitives -/

/-- Every draw of the allocator succeeds. -/
def Heap.Plenty (h : Heap) : Prop := ∀ k, h.allocator.plan k = true

/-- One more draw of the allocator. -/
def Heap.drawn (h : Heap) : Heap :=
  { h with allocator := { h.allocator with calls := h.allocator.calls + 1 } }

/-- The next `k` draws of the allocator succeed. -/
def Heap.Grants (h : Heap) (k : Nat) : Prop :=
  ∀ j < k, h.allocator.plan (h.allocator.calls + j) = true

theorem Heap.Plenty.grants (hp : h.Plenty) (k : Nat) : h.Grants k := fun _ _ => hp _

theorem Heap.Grants.mono {k k' : Nat} (hg : h.Grants k) (hle : k' ≤ k) : h.Grants k' :=
  fun j hj => hg j (Nat.lt_of_lt_of_le hj hle)

theorem Heap.grants_succ {k : Nat} :
    h.Grants (k + 1) ↔ h.allocator.plan h.allocator.calls = true ∧ h.drawn.Grants k := by
  constructor
  · intro hg
    refine ⟨hg 0 (Nat.succ_pos k), fun j hj => ?_⟩
    have hnext := hg (j + 1) (Nat.succ_lt_succ hj)
    rwa [← Nat.add_assoc, Nat.add_right_comm] at hnext
  · rintro ⟨hfirst, hrest⟩ j hj
    cases j with
    | zero => exact hfirst
    | succ j =>
      have hnext := hrest j (Nat.lt_of_succ_lt_succ hj)
      rwa [← Nat.add_assoc, Nat.add_right_comm]

theorem allocate_granted {k : Nat} (hg : h.Grants (k + 1)) : allocate h = .ok () h.drawn := by
  simp only [allocate, (Heap.grants_succ.mp hg).1, if_true]
  rfl

theorem allocate_run (hp : h.Plenty) : allocate h = .ok () h.drawn := allocate_granted (hp.grants 1)

theorem readNode_run (ho : h.objects p = some (.node n)) : readNode p h = .ok n h := by
  simp only [readNode, ho]

theorem readEntry_run (ho : h.objects p = some (.entry e)) : readEntry p h = .ok e h := by
  simp only [readEntry, ho]

theorem readTable_run {r : PageTable} (ht : h.tables t = some r) : readTable t h = .ok r h := by
  simp only [readTable, ht]

theorem setObject_run (object : Option Object) :
    setObject p object h = .ok () (h.setObject p object) := rfl

theorem freeObject_run (ho : h.objects p = some o) :
    freeObject p h = .ok () (h.setObject p none) := by
  simp only [freeObject, ho]
  rfl

theorem modifyNode_run (f : PageTableNode → PageTableNode) (ho : h.objects p = some (.node n)) :
    modifyNode p f h = .ok () (h.setObject p (some (.node (f n)))) := by
  rw [modifyNode, Comp.bind_ok (readNode_run ho), setObject_run]

theorem modifyEntry_run (f : PageTableEntry → PageTableEntry)
    (ho : h.objects p = some (.entry e)) :
    modifyEntry p f h = .ok () (h.setObject p (some (.entry (f e)))) := by
  rw [modifyEntry, Comp.bind_ok (readEntry_run ho), setObject_run]

theorem Heap.Wf.drawn (hw : h.Wf pend) : h.drawn.Wf pend :=
  ⟨hw.objects_lt, hw.tables_lt, hw.object, hw.counted, hw.slots_lt, hw.rank, hw.same_rank,
    hw.root_lt, hw.root_rank⟩

@[simp] theorem Heap.setObject_self (h : Heap) (p : Nat) (object : Option Object) :
    (h.setObject p object).objects p = object := by simp [Heap.setObject]

theorem Heap.setObject_ne (h : Heap) {p q : Nat} (object : Option Object) (hne : q ≠ p) :
    (h.setObject p object).objects q = h.objects q := by simp [Heap.setObject, hne]

theorem Heap.setObject_comm (h : Heap) {p q : Nat} (x y : Option Object) (hne : p ≠ q) :
    (h.setObject p x).setObject q y = (h.setObject q y).setObject p x := by
  simp only [Heap.setObject, Function.update_comm hne]

/-! ## Descents under single updates -/

theorem Heap.frameAt_of_objects (he : h'.objects = h.objects) (path : List (Fin pageTableEntries))
    (q : Nat) : h'.frameAt q path = h.frameAt q path :=
  Heap.frameAt_congr (fun _ => True) (fun x _ => by rw [he]) (fun _ _ _ _ _ => trivial) path q trivial

/-- Only bodies matter to a descent. -/
theorem Heap.frameAt_setCount (ho : h.objects p = some o) (count : Nat) (q : Nat)
    (path : List (Fin pageTableEntries)) :
    (h.setObject p (some (o.setCount count))).frameAt q path = h.frameAt q path := by
  refine Heap.frameAt_congr (fun _ => True) (fun x _ => ?_) (fun _ _ _ _ _ => trivial) path q trivial
  by_cases e : x = p
  · simp [e, ho]
  · rw [Heap.setObject_ne h _ e]

/-- Changing one slot of a node changes no descent when the old and the
new target answer alike. -/
theorem Heap.frameAt_setSlot (node : PageTableNode) (i : Fin pageTableEntries) (slot : Option Nat)
    (ho : h.objects p = some (.node n)) (hnode : node.entries = Function.update n.entries i slot)
    (hsame : ∀ path, (slot.bind fun c => h.frameAt c path) =
      (n.entries i).bind fun c => h.frameAt c path) :
    ∀ (path : List (Fin pageTableEntries)) (q : Nat),
      (h.setObject p (some (.node node))).frameAt q path = h.frameAt q path := by
  intro path
  induction path with
  | nil =>
    intro q
    by_cases e : q = p
    · simp [Heap.frameAt, e, ho, Object.frame]
    · simp [Heap.frameAt, Heap.setObject_ne h _ e]
  | cons j path ih =>
    intro q
    by_cases e : q = p
    · have hslots : (h.setObject p (some (.node node))).slots q =
          Function.update n.entries i slot := by
        rw [Heap.slots_setObject, e, Function.update_self]
        exact hnode
      have hold : h.slots q = n.entries := by rw [e, Heap.slots_of_some ho]; rfl
      simp only [Heap.frameAt, hslots, hold, ih]
      by_cases ej : j = i
      · rw [ej, Function.update_self, hsame path]
      · rw [Function.update_of_ne ej]
    · simp only [Heap.frameAt, Heap.slots_setObject, Function.update_of_ne e, ih]

/-- A new object changes no descent from an old one. -/
theorem Heap.Wf.frameAt_addObject (hw : h.Wf pend) (hq : q < h.next)
    (path : List (Fin pageTableEntries)) :
    (h.addObject o).frameAt q path = h.frameAt q path := by
  refine Heap.frameAt_congr (· < h.next) (fun x hx => ?_)
    (fun x j c _ hs => hw.slots_lt x j c hs) path q hq
  have hne : x ≠ h.next := Nat.ne_of_lt hx
  simp [Heap.addObject, hne]

/-! ## Shallow clones -/

/-- Every object gains `extra` references. -/
def Heap.retainAll (h : Heap) (extra : Nat → Nat) : Heap :=
  { h with objects := fun p => (h.objects p).map fun o => o.setCount (o.referenceCount + extra p) }

theorem Heap.slots_retainAll (h : Heap) (extra : Nat → Nat) :
    (h.retainAll extra).slots = h.slots := by
  funext p
  cases ho : h.objects p <;> simp [Heap.slots, Heap.retainAll, ho]

theorem Heap.Wf.retainAll (hw : h.Wf pend) {extra : Nat → Nat} {pend' : Nat → Int}
    (hpend : ∀ p, pend' p = pend p + extra p) (hlive : ∀ p, h.objects p = none → extra p = 0) :
    (h.retainAll extra).Wf pend' := by
  have hobj : ∀ p o', (h.retainAll extra).objects p = some o' →
      ∃ o, h.objects p = some o ∧ o' = o.setCount (o.referenceCount + extra p) := by
    intro p o' hp
    obtain ⟨o, ho, he⟩ := Option.map_eq_some_iff.mp hp
    exact ⟨o, ho, he.symm⟩
  refine ⟨fun p o' hp => ?_, hw.tables_lt, fun p o' hp => ?_, fun p => ?_, fun q i c hs => ?_,
    fun q o' i c oc hq hs hc => ?_, fun q o₁ i q' o₂ i' c hq hs hq' hs' => ?_, hw.root_lt,
    fun t r o' hr ho' => ?_⟩
  · obtain ⟨o, ho, _⟩ := hobj p o' hp
    exact hw.objects_lt p o ho
  · obtain ⟨o, ho, rfl⟩ := hobj p o' hp
    have hpos := (hw.object p o ho).positive
    exact (hw.object p o ho).setCount (by omega)
  · have hrefs : (h.retainAll extra).references p = h.references p := by
      simp only [Heap.references, Heap.slots_retainAll]
      rfl
    have hcount := hw.counted p
    rw [hrefs, hpend p]
    cases ho : h.objects p with
    | none =>
      have hc : (h.retainAll extra).count p = 0 := by simp [Heap.count, Heap.retainAll, ho]
      have hold : h.count p = 0 := by simp [Heap.count, ho]
      rw [hc, hlive p ho]
      omega
    | some o =>
      have hc : (h.retainAll extra).count p = o.referenceCount + extra p := by
        simp [Heap.count, Heap.retainAll, ho]
      have hold := Heap.count_of_some ho
      rw [hc]
      omega
  · rw [Heap.slots_retainAll] at hs
    exact hw.slots_lt q i c hs
  · obtain ⟨o, ho, rfl⟩ := hobj q o' hq
    obtain ⟨o₁, ho₁, rfl⟩ := hobj c oc hc
    rw [Object.slots_setCount] at hs
    simpa using hw.rank q o i c o₁ ho hs ho₁
  · obtain ⟨o, ho, rfl⟩ := hobj q o₁ hq
    obtain ⟨o', ho', rfl⟩ := hobj q' o₂ hq'
    rw [Object.slots_setCount] at hs hs'
    simpa using hw.same_rank q o i q' o' i' c ho hs ho' hs'
  · obtain ⟨o, ho, rfl⟩ := hobj r.root o' ho'
    simpa using hw.root_rank t r o hr ho

/-- The copy that `page_table_node_clone_shallow` makes of a node. -/
def PageTableNode.copy (node : PageTableNode) : PageTableNode := { node with referenceCount := 1 }

/-- The heap that `page_table_node_clone_shallow` leaves. -/
def Heap.cloned (h : Heap) (node : PageTableNode) : Heap :=
  (h.drawn.drawn.retainAll (outCount node.entries)).addObject (.node node.copy)

theorem Heap.Wf.cloned (hw : h.Wf pend) (ho : h.objects p = some (.node n))
    (hpos : ∀ i c, n.entries i = some c → 0 ≤ pend c) {pend' : Nat → Int}
    (hpend : ∀ q, pend' q = pend q + pointsTo (some h.next) q) : (h.cloned n).Wf pend' := by
  have htarget : ∀ i c, n.entries i = some c → ∃ oc, h.objects c = some oc ∧ oc.rank = n.level + 1 := by
    intro i c hs
    obtain ⟨oc, hoc⟩ := hw.target (by rw [Heap.slots_of_some ho]; exact hs) (hpos i c hs)
    exact ⟨oc, hoc, hw.rank p _ i c oc ho hs hoc⟩
  have hretained : (h.drawn.drawn.retainAll (outCount n.entries)).Wf
      fun q => pend q + outCount n.entries q := by
    refine hw.drawn.drawn.retainAll (fun _ => rfl) fun q hq => outCount_eq_zero fun i hs => ?_
    obtain ⟨oc, hoc, _⟩ := htarget i q hs
    rw [show h.objects q = none from hq] at hoc
    cases hoc
  have hwf := hw.object p _ ho
  refine hretained.addObject ⟨Nat.le_refl 1, fun m hm => ?_, fun m hm => (by cases hm)⟩
    (fun i c hs => ?_) fun q => ?_
  · cases hm
    exact hwf.node n rfl
  · obtain ⟨oc, hoc, hr⟩ := htarget i c hs
    exact ⟨oc.setCount (oc.referenceCount + outCount n.entries c),
      by simp [Heap.retainAll, Heap.drawn, hoc], by rw [Object.rank_setCount, hr]; rfl⟩
  · rw [hpend q]
    change _ = pend q + outCount n.entries q + (if q = h.next then ((1 : Nat) : Int) else 0)
      - outCount n.entries q
    simp only [pointsTo, Option.some.injEq, eq_comm (a := h.next)]
    split <;> omega

theorem Heap.objects_cloned (h : Heap) (n : PageTableNode) (hne : q ≠ h.next) :
    (h.cloned n).objects q =
      (h.objects q).map fun o => o.setCount (o.referenceCount + outCount n.entries q) := by
  exact Function.update_of_ne hne _ _

theorem Heap.cloned_next (h : Heap) (n : PageTableNode) :
    (h.cloned n).objects h.next = some (.node n.copy) := by
  simp [Heap.cloned, Heap.addObject, Heap.retainAll, Heap.drawn]

/-- A clone changes no descent, and itself answers like its source. -/
theorem Heap.Wf.frameAt_cloned (hw : h.Wf pend) (ho : h.objects p = some (.node n))
    (path : List (Fin pageTableEntries)) :
    (∀ q, q < h.next → (h.cloned n).frameAt q path = h.frameAt q path) ∧
      (h.cloned n).frameAt h.next path = h.frameAt p path := by
  have hold : ∀ path q, q < h.next → (h.cloned n).frameAt q path = h.frameAt q path := by
    intro path q hq
    refine Heap.frameAt_congr (· < h.next) (fun x hx => ?_)
      (fun x j c _ hs => hw.slots_lt x j c hs) path q hq
    rw [Heap.objects_cloned h n (Nat.ne_of_lt hx)]
    cases h.objects x <;> simp
  refine ⟨hold path, ?_⟩
  cases path with
  | nil => simp [Heap.frameAt, Heap.cloned_next, ho, Object.frame]
  | cons j path =>
    have hslots : (h.cloned n).slots h.next = h.slots p := by
      rw [Heap.slots_of_some (Heap.cloned_next h n), Heap.slots_of_some ho]
      rfl
    simp only [Heap.frameAt, hslots]
    cases hs : h.slots p j with
    | none => rfl
    | some c => exact hold path c (hw.slots_lt p j c hs)

theorem slotIndices_nodup : slotIndices.Nodup := List.nodup_finRange _

theorem mem_slotIndices (i : Fin pageTableEntries) : i ∈ slotIndices := List.mem_finRange i

/-- A child one rank below a node is of the kind the node's level calls
for. -/
theorem Object.Wf.kind {child : Object} (hwf : child.Wf) (hrank : child.rank = n.level + 1)
    (hlevel : n.level < pageTableLevels) :
    (n.level < pageTableLevels - 1 → ∃ m, child = .node m) ∧
      (¬ n.level < pageTableLevels - 1 → ∃ m, child = .entry m) := by
  cases child with
  | node m =>
    have hl : m.level = n.level + 1 := hrank
    have hm := (hwf.node m rfl).1
    exact ⟨fun _ => ⟨m, rfl⟩, fun hn => absurd hm (by simp only [pageTableLevels] at *; omega)⟩
  | entry m =>
    have hl : pageTableLevels = n.level + 1 := hrank
    exact ⟨fun hn => absurd hn (by simp only [pageTableLevels] at *; omega), fun _ => ⟨m, rfl⟩⟩

theorem pageTableCloneSlot_run {copy : PageTableNode} {child : Object}
    (hcopy : h.objects q = some (.node copy)) (hc : n.entries i = some c) (hne : c ≠ q)
    (hchild : h.objects c = some child) (hwf : child.Wf) (hrank : child.rank = n.level + 1)
    (hlevel : n.level < pageTableLevels) :
    pageTableCloneSlot n q i h =
      .ok () ((h.setObject q (some (.node (copy.setSlot i (some c))))).setObject c
        (some (child.setCount (child.referenceCount + 1)))) := by
  have hold : (h.setObject q (some (.node (copy.setSlot i (some c))))).objects c = some child := by
    rw [Heap.setObject_ne h _ hne, hchild]
  simp only [pageTableCloneSlot, hc]
  rw [Comp.bind_ok (modifyNode_run _ hcopy)]
  obtain ⟨hnode, hentry⟩ := hwf.kind hrank hlevel
  by_cases hl : n.level < pageTableLevels - 1
  · obtain ⟨m, rfl⟩ := hnode hl
    rw [if_pos hl, pageTableNodeRetain, modifyNode_run _ hold]
    rfl
  · obtain ⟨m, rfl⟩ := hentry hl
    rw [if_neg hl, pageTableEntryRetain, modifyEntry_run _ hold]
    rfl

/-- The heap after the clone loop has passed the slots `done`. -/
def Heap.cloning (h : Heap) (node : PageTableNode) (done : List (Fin pageTableEntries)) : Heap :=
  (h.drawn.drawn.retainAll fun p => (done.map fun i => pointsTo (node.entries i) p).sum).addObject
    (.node { node.copy with entries := fun i => if i ∈ done then node.entries i else none })

theorem pageTableCloneSlot_loop (hw : h.Wf pend) (ho : h.objects p = some (.node n))
    (hpos : ∀ i c, n.entries i = some c → 0 ≤ pend c) :
    ∀ (rest done : List (Fin pageTableEntries)), (done ++ rest).Nodup →
      Comp.forEach (pageTableCloneSlot n h.next) rest (h.cloning n done) =
        .ok () (h.cloning n (done ++ rest)) := by
  intro rest
  induction rest with
  | nil =>
    intro done _
    rw [List.append_nil, Comp.forEach_nil]
  | cons i rest ih =>
    intro done hnodup
    have happ : done ++ i :: rest = (done ++ [i]) ++ rest := by simp
    have hi : i ∉ done := fun hmem =>
      (List.nodup_append.mp hnodup).2.2 i hmem i (List.mem_cons_self ..) rfl
    have hcopy : (h.cloning n done).objects h.next =
        some (.node { n.copy with entries := fun i => if i ∈ done then n.entries i else none }) := by
      simp [Heap.cloning, Heap.addObject, Heap.retainAll, Heap.drawn]
    have hobj : ∀ done x, x ≠ h.next → (h.cloning n done).objects x = (h.objects x).map fun o =>
        o.setCount (o.referenceCount + (done.map fun i => pointsTo (n.entries i) x).sum) :=
      fun done x hx => Function.update_of_ne hx _ _
    have hstep : pageTableCloneSlot n h.next i (h.cloning n done) =
        .ok () (h.cloning n (done ++ [i])) := by
      cases hc : n.entries i with
      | none =>
        have hsame : h.cloning n (done ++ [i]) = h.cloning n done := by
          have hentries : (fun j => if j ∈ done ++ [i] then n.entries j else none) =
              fun j => if j ∈ done then n.entries j else none := by
            funext j
            by_cases e : j = i <;> simp [e, hi, hc]
          simp only [Heap.cloning, hentries]
          simp [hc]
        rw [hsame]
        simp only [pageTableCloneSlot, hc]
        rfl
      | some c =>
        obtain ⟨child, hchild⟩ := hw.target (by rw [Heap.slots_of_some ho]; exact hc) (hpos i c hc)
        have hlt := hw.objects_lt c child hchild
        have hne : c ≠ h.next := Nat.ne_of_lt hlt
        have hrank := hw.rank p _ i c child ho hc hchild
        have hlevel := (hw.object p _ ho).node n rfl
        have hmid : (h.cloning n done).objects c = some (child.setCount (child.referenceCount +
            (done.map fun i => pointsTo (n.entries i) c).sum)) := by
          rw [hobj done c hne, hchild]
          rfl
        have hpositive := (hw.object c child hchild).positive
        rw [pageTableCloneSlot_run hcopy hc hne hmid
          ((hw.object c child hchild).setCount (by omega)) (by rw [Object.rank_setCount, hrank]; rfl)
          hlevel.1]
        congr 1
        have hobjects : ∀ x, (((h.cloning n done).setObject h.next (some (.node
            (PageTableNode.setSlot { n.copy with
              entries := fun i => if i ∈ done then n.entries i else none } i (some c))))).setObject c
            (some ((child.setCount (child.referenceCount +
              (done.map fun i => pointsTo (n.entries i) c).sum)).setCount
                ((child.setCount (child.referenceCount +
                  (done.map fun i => pointsTo (n.entries i) c).sum)).referenceCount + 1)))).objects x =
            (h.cloning n (done ++ [i])).objects x := by
          intro x
          by_cases ex : x = h.next
          · have hx : x ≠ c := fun e => hne (e.symm.trans ex)
            rw [Heap.setObject_ne _ _ hx, ex, Heap.setObject_self]
            simp only [Heap.cloning, Heap.addObject, Heap.retainAll, Heap.drawn,
              Function.update_self, PageTableNode.setSlot]
            congr 3
            funext j
            by_cases e : j = i <;> simp [e, hc]
          · rw [hobj _ x ex]
            by_cases exc : x = c
            · rw [exc, Heap.setObject_self, hchild]
              simp [hc, Nat.add_assoc]
            · rw [Heap.setObject_ne _ _ exc, Heap.setObject_ne _ _ ex, hobj _ x ex]
              have hzero : pointsTo (n.entries i) x = 0 :=
                pointsTo_of_ne (by rw [hc]; exact fun e => exc (Option.some.inj e).symm)
              simp [hzero]
        simp only [Heap.cloning, Heap.addObject, Heap.setObject] at hobjects ⊢
        congr 1
        funext x
        exact hobjects x
    rw [Comp.forEach_cons hstep, ih (done ++ [i]) (happ ▸ hnodup), happ]

theorem pageTableNodeCreate_run (hg : h.Grants 2) (level : Nat) :
    pageTableNodeCreate level h =
      .ok h.next (h.drawn.drawn.addObject (.node ⟨fun _ => none, 0, level, 1⟩)) := by
  rw [pageTableNodeCreate, Comp.bind_ok (allocate_granted hg),
    Comp.bind_ok (allocate_granted (Heap.grants_succ.mp hg).2)]
  rfl

theorem pageTableNodeCloneShallow_run (hw : h.Wf pend) (hg : h.Grants 2)
    (ho : h.objects p = some (.node n)) (hpos : ∀ i c, n.entries i = some c → 0 ≤ pend c) :
    pageTableNodeCloneShallow p h = .ok h.next (h.cloned n) := by
  rw [pageTableNodeCloneShallow, Comp.bind_ok (readNode_run ho),
    Comp.bind_ok (pageTableNodeCreate_run hg n.level),
    Comp.bind_ok (modifyNode_run (n := ⟨fun _ => none, 0, n.level, 1⟩) _
      (by simp [Heap.addObject, Heap.drawn]))]
  have hstart : (h.drawn.drawn.addObject (.node ⟨fun _ => none, 0, n.level, 1⟩)).setObject h.next
      (some (.node ⟨fun _ => none, n.activeEntries, n.level, 1⟩)) = h.cloning n [] := by
    simp [Heap.cloning, Heap.addObject, Heap.setObject, Heap.retainAll, Heap.drawn,
      PageTableNode.copy, Object.setCount_self]
  have hend : h.cloning n slotIndices = h.cloned n := by
    have hsum : ∀ x, (slotIndices.map fun i => pointsTo (n.entries i) x).sum =
        outCount n.entries x := fun x => (Fin.sum_univ_def _).symm
    simp only [Heap.cloning, Heap.cloned, hsum, mem_slotIndices, if_true]
    rfl
  have hloop := pageTableCloneSlot_loop hw ho hpos slotIndices []
    (by rw [List.nil_append]; exact slotIndices_nodup)
  rw [List.nil_append, hend, ← hstart] at hloop
  rw [Comp.bind_ok hloop]
  rfl

/-! ## Privatisation

Between the root and the leaf, `page_table_map` and `page_table_unmap`
work on a node they alone refer to. `Heap.Grown` is what such a step
keeps for everyone, `Heap.Above` what it keeps above the node. -/

/-- Descents from the old objects, and everything outside the trie, are
as before. -/
structure Heap.Grown (h h' : Heap) : Prop where
  next_le : h.next ≤ h'.next
  nextTable : h'.nextTable = h.nextTable
  processes : h'.processes = h.processes
  nextProcess : h'.nextProcess = h.nextProcess
  plan : h'.allocator.plan = h.allocator.plan
  frameAt : ∀ p < h.next, ∀ path, h'.frameAt p path = h.frameAt p path

/-- The objects down to `level` are untouched, except that the node
`current` may have changed its slots. -/
structure Heap.Above (level current : Nat) (h h' : Heap) : Prop where
  same : ∀ p o, h.objects p = some o → o.rank ≤ level → p ≠ current → h'.objects p = some o
  node : ∀ n, h.objects current = some (.node n) → ∃ n', h'.objects current = some (.node n') ∧
    n'.level = n.level ∧ n'.referenceCount = n.referenceCount

theorem Heap.Grown.refl (h : Heap) : h.Grown h :=
  ⟨Nat.le_refl _, rfl, rfl, rfl, rfl, fun _ _ _ => rfl⟩

theorem Heap.Grown.trans {h'' : Heap} (h₁ : h.Grown h') (h₂ : h'.Grown h'') : h.Grown h'' :=
  ⟨h₁.next_le.trans h₂.next_le, h₂.nextTable.trans h₁.nextTable,
    h₂.processes.trans h₁.processes, h₂.nextProcess.trans h₁.nextProcess, h₂.plan.trans h₁.plan,
    fun p hp path => (h₂.frameAt p (Nat.lt_of_lt_of_le hp h₁.next_le) path).trans
      (h₁.frameAt p hp path)⟩

theorem Heap.Grown.plenty (hg : h.Grown h') (hp : h.Plenty) : h'.Plenty := by
  intro k
  rw [hg.plan]
  exact hp k

theorem Heap.Above.refl (level current : Nat) (h : Heap) : h.Above level current h :=
  ⟨fun _ _ ho _ _ => ho, fun n ho => ⟨n, ho, rfl, rfl⟩⟩

/-- A release of a node that others refer to takes one reference away. -/
theorem pageTableNodeRelease_shared {depth : Nat} (ho : h.objects p = some (.node n))
    (hc : 1 < n.referenceCount) :
    pageTableNodeRelease (depth + 1) p h = .ok () (h.setObject p
      (some (Object.setCount (n.referenceCount - 1) (.node n)))) := by
  rw [pageTableNodeRelease, Comp.bind_ok (readNode_run ho), if_pos hc]
  rfl

/-- A new object without slots starts with the one reference its creator
holds. -/
theorem Heap.Wf.addFresh (hw : h.Wf pend) (hwf : o.Wf) (hone : o.referenceCount = 1)
    (hslots : ∀ j, o.slots j = none) :
    (h.addObject o).Wf fun q => pend q + pointsTo (some h.next) q := by
  refine hw.addObject hwf (fun j d hs => by rw [hslots j] at hs; cases hs) fun q => ?_
  have hzero : outCount o.slots q = 0 := outCount_eq_zero fun j => by rw [hslots j]; simp
  rw [hzero, hone]
  simp only [pointsTo, Option.some.injEq, eq_comm (a := h.next)]
  split <;> omega

/-- Writing one slot moves a reference from the old to the new target. -/
theorem Heap.Wf.setSlot {pend' : Nat → Int} {slot : Option Nat} (hw : h.Wf pend)
    (ho : h.objects p = some (.node n)) (node : PageTableNode)
    (hentries : node.entries = Function.update n.entries i slot) (hlevel : node.level = n.level)
    (hcount : node.referenceCount = n.referenceCount)
    (hactive : node.activeEntries + (if (n.entries i).isSome then 1 else 0) =
      n.activeEntries + if slot.isSome then 1 else 0)
    (htarget : ∀ c, slot = some c → ∃ oc, h.objects c = some oc ∧ oc.rank = n.level + 1)
    (hpend : ∀ q, pend' q = pend q + pointsTo (n.entries i) q - pointsTo slot q) :
    (h.setObject p (some (.node node))).Wf pend' := by
  have hold := (hw.object p _ ho).node n rfl
  refine hw.setObject ho (fun o' ho' => ?_) (fun o' j d ho' hs => ?_) fun q => ?_
  · cases ho'
    refine ⟨⟨?_, fun n' hn' => ?_, fun _ he => (by cases he)⟩, hlevel⟩
    · change 1 ≤ node.referenceCount
      rw [hcount]
      exact (hw.object p _ ho).positive
    · cases hn'
      have hfilled := filled_update n.entries i slot
      rw [hlevel, hentries]
      exact ⟨hold.1, by omega⟩
  · cases ho'
    change node.entries j = some d at hs
    rw [hentries] at hs
    by_cases ej : j = i
    · rw [ej, Function.update_self] at hs
      exact Or.inr (htarget d hs)
    · rw [Function.update_of_ne ej] at hs
      exact Or.inl hs
  · have hout := outCount_update n.entries i slot q
    rw [hpend q]
    change _ = pend q + (if q = p then (node.referenceCount : Int) - n.referenceCount else 0)
      + outCount n.entries q - outCount node.entries q
    rw [hcount, hentries]
    split <;> omega

/-- An object with another count of references. -/
theorem Heap.Wf.recount {pend' : Nat → Int} {count : Nat} (hw : h.Wf pend)
    (ho : h.objects p = some o) (hpos : 1 ≤ count) (hpend : ∀ q, pend' q = pend q
      + if q = p then (count : Int) - o.referenceCount else 0) :
    (h.setObject p (some (o.setCount count))).Wf pend' := by
  refine hw.setObject ho (fun o' ho' => ?_) (fun o' i c ho' hs => ?_) fun q => ?_
  · cases ho'
    exact ⟨(hw.object p o ho).setCount hpos, Object.rank_setCount _ _⟩
  · cases ho'
    rw [Object.slots_setCount] at hs
    exact Or.inl hs
  · rw [hpend q, Option.elim_some, Option.elim_some, Object.referenceCount_setCount,
      Object.slots_setCount, add_sub_cancel_right]

/-- Taking one more reference. -/
theorem Heap.Wf.takeOne (hw : h.Wf pend) (ho : h.objects p = some o) :
    (h.setObject p (some (o.setCount (o.referenceCount + 1)))).Wf
      fun q => pend q + pointsTo (some p) q := by
  refine hw.recount ho (Nat.succ_pos _) fun q => ?_
  simp only [pointsTo, Option.some.injEq, eq_comm (a := p)]
  split <;> omega

/-- Dropping one of several references. -/
theorem Heap.Wf.dropOne (ho : h.objects p = some o) (hc : 1 < o.referenceCount)
    {pend' : Nat → Int} (hw : h.Wf fun q => pend' q + pointsTo (some p) q) :
    (h.setObject p (some (o.setCount (o.referenceCount - 1)))).Wf pend' := by
  refine hw.recount ho (Nat.le_sub_one_of_lt hc) fun q => ?_
  simp only [pointsTo, Option.some.injEq, eq_comm (a := p)]
  split <;> omega

/-- A clone leaves the objects at the level of its source and above
alone. -/
theorem Heap.Wf.objects_cloned_above (hw : h.Wf pend) (hn : h.objects p = some (.node n))
    (ho : h.objects q = some o) (hr : o.rank ≤ n.level) : (h.cloned n).objects q = some o := by
  have hlt := hw.objects_lt q o ho
  have hzero : outCount n.entries q = 0 := by
    refine outCount_eq_zero fun i hs => ?_
    have hrank := hw.rank p _ i q o hn hs ho
    have hlevel : (Object.node n).rank = n.level := rfl
    omega
  rw [Heap.objects_cloned h n (Nat.ne_of_lt hlt), ho, hzero]
  simp only [Option.map_some, Nat.add_zero, Object.setCount_self]

/-- The state in which a descent goes on at a child that is referred to
by `current` only. -/
structure Heap.Entered (level current : Nat) (i : Fin pageTableEntries) (child : Nat)
    (h h' : Heap) : Prop where
  wf : h'.Wf noPending
  grown : h.Grown h'
  tables : h'.tables = h.tables
  above : h.Above level current h'
  slot : h'.slots current i = some child
  count : h'.count child = 1
  object : ∃ o, h'.objects child = some o ∧ o.rank = level + 1

theorem Heap.Entered.node {level current child : Nat} (he : h.Entered level current i child h')
    (hl : level < pageTableLevels - 1) :
    ∃ m, h'.objects child = some (.node m) ∧ m.level = level + 1 := by
  obtain ⟨o, ho, hr⟩ := he.object
  cases o with
  | node m => exact ⟨m, ho, hr⟩
  | entry m =>
    have hlevel : pageTableLevels = level + 1 := hr
    exact absurd hl (by rw [hlevel]; exact Nat.lt_irrefl level)

theorem Heap.Entered.entry {level current child : Nat} (he : h.Entered level current i child h')
    (hl : level = pageTableLevels - 1) : ∃ e, h'.objects child = some (.entry e) := by
  obtain ⟨o, ho, hr⟩ := he.object
  cases o with
  | node m =>
    have hm := ((he.wf.object child _ ho).node m rfl).1
    have hlevel : m.level = level + 1 := hr
    rw [hlevel, hl] at hm
    exact absurd hm (Nat.lt_irrefl pageTableLevels)
  | entry e => exact ⟨e, ho⟩

/-! ### A child -/

/-- A child is not its parent. -/
theorem Heap.Wf.ne_of_child (hw : h.Wf noPending) (ho : h.objects p = some (.node n))
    (hc : n.entries i = some c) : p ≠ c := by
  rintro rfl
  have hrank := hw.rank p _ i p _ ho hc ho
  exact absurd hrank (Nat.ne_of_lt (Nat.lt_succ_self _))

/-- A child above the leaves is a node. -/
theorem Heap.Wf.childNode (hw : h.Wf noPending) (ho : h.objects p = some (.node n))
    (hc : n.entries i = some c) (hl : n.level < pageTableLevels - 1) :
    ∃ m, h.objects c = some (.node m) ∧ m.level = n.level + 1 := by
  obtain ⟨child, hchild⟩ := hw.target (by rw [Heap.slots_of_some ho]; exact hc) (Int.le_refl 0)
  have hrank := hw.rank p _ i c child ho hc hchild
  obtain ⟨m, rfl⟩ := ((hw.object c child hchild).kind hrank ((hw.object p _ ho).node n rfl).1).1 hl
  exact ⟨m, hchild, hrank⟩

/-- A child of a leaf is an entry. -/
theorem Heap.Wf.childEntry (hw : h.Wf noPending) (ho : h.objects p = some (.node n))
    (hc : n.entries i = some c) (hl : n.level = pageTableLevels - 1) :
    ∃ e, h.objects c = some (.entry e) := by
  obtain ⟨child, hchild⟩ := hw.target (by rw [Heap.slots_of_some ho]; exact hc) (Int.le_refl 0)
  have hrank := hw.rank p _ i c child ho hc hchild
  obtain ⟨e, rfl⟩ := ((hw.object c child hchild).kind hrank ((hw.object p _ ho).node n rfl).1).2
    (Nat.not_lt.mpr hl.ge)
  exact ⟨e, hchild⟩

theorem pageTableEnsurePrivateChild_sole {m : PageTableNode} (ho : h.objects p = some (.node n))
    (hc : n.entries i = some c) (hchild : h.objects c = some (.node m))
    (hone : m.referenceCount = 1) : pageTableEnsurePrivateChild p i h = .ok c h := by
  rw [pageTableEnsurePrivateChild, Comp.bind_ok (readNode_run ho), hc,
    Comp.bind_ok (Comp.orFail_some c h), Comp.bind_ok (readNode_run hchild), if_pos hone]
  rfl

theorem Heap.Wf.entered_sole {m : PageTableNode} (hw : h.Wf noPending)
    (ho : h.objects p = some (.node n)) (hc : n.entries i = some c)
    (hchild : h.objects c = some (.node m)) (hone : m.referenceCount = 1) :
    h.Entered n.level p i c h :=
  ⟨hw, Heap.Grown.refl h, rfl, Heap.Above.refl _ _ h, by rw [Heap.slots_of_some ho]; exact hc,
    by rw [Heap.count_of_some hchild]; exact hone, .node m, hchild, hw.rank p _ i c _ ho hc hchild⟩

/-- The node `p` points to a copy of its child `c`, the node `m`, which has
lost a reference. -/
def Heap.redirected (h : Heap) (p : Nat) (n : PageTableNode) (i : Fin pageTableEntries) (c : Nat)
    (m : PageTableNode) : Heap :=
  ((h.cloned m).setObject p (some (.node (n.setSlot i (some h.next))))).setObject c
    (some (Object.setCount (m.referenceCount - 1) (.node m)))

section Redirected

variable {m : PageTableNode} (hw : h.Wf noPending) (ho : h.objects p = some (.node n))
  (hc : n.entries i = some c) (hchild : h.objects c = some (.node m))
  (hmany : 1 < m.referenceCount)

include hw ho hc hchild

theorem Heap.Wf.cloned_parent : (h.cloned m).objects p = some (.node n) ∧
    ((h.cloned m).setObject p (some (.node (n.setSlot i (some h.next))))).objects c =
      some (.node m) := by
  have hlevel : m.level = n.level + 1 := hw.rank p _ i c _ ho hc hchild
  have hne := hw.ne_of_child ho hc
  constructor
  · exact hw.objects_cloned_above hchild ho (by change n.level ≤ m.level; omega)
  · rw [Heap.setObject_ne _ _ (Ne.symm hne)]
    exact hw.objects_cloned_above hchild hchild (Nat.le_refl m.level)

include hmany

theorem pageTableEnsurePrivateChild_copied (hg : h.Grants 2) :
    pageTableEnsurePrivateChild p i h = .ok h.next (h.redirected p n i c m) := by
  obtain ⟨ho₁, hc₂⟩ := hw.cloned_parent ho hc hchild
  rw [pageTableEnsurePrivateChild, Comp.bind_ok (readNode_run ho), hc,
    Comp.bind_ok (Comp.orFail_some c h), Comp.bind_ok (readNode_run hchild),
    if_neg (Nat.ne_of_gt hmany),
    Comp.bind_ok (pageTableNodeCloneShallow_run hw hg hchild fun _ _ _ => Int.le_refl 0),
    Comp.bind_ok (modifyNode_run _ ho₁), Comp.bind_ok (pageTableNodeRelease_shared hc₂ hmany)]
  rfl

theorem Heap.Wf.redirected : (h.redirected p n i c m).Wf noPending := by
  obtain ⟨ho₁, hc₂⟩ := hw.cloned_parent ho hc hchild
  have hlevel : m.level = n.level + 1 := hw.rank p _ i c _ ho hc hchild
  have hw₁ : (h.cloned m).Wf fun q => noPending q + pointsTo (some h.next) q :=
    hw.cloned hchild (fun _ _ _ => Int.le_refl 0) fun _ => rfl
  have hw₂ : ((h.cloned m).setObject p (some (.node (n.setSlot i (some h.next))))).Wf
      fun q => noPending q + pointsTo (some c) q := by
    refine hw₁.setSlot ho₁ _ rfl rfl rfl (by simp [hc, PageTableNode.setSlot]) (fun d hd => ?_)
      fun q => ?_
    · cases hd
      exact ⟨.node m.copy, Heap.cloned_next h m, hlevel⟩
    · rw [hc]
      ring
  exact Heap.Wf.dropOne hc₂ hmany hw₂

omit hmany

theorem Heap.Wf.redirected_objects : (h.redirected p n i c m).objects h.next = some (.node m.copy) ∧
    (h.redirected p n i c m).objects p = some (.node (n.setSlot i (some h.next))) := by
  have hne := hw.ne_of_child ho hc
  have hnext : h.next ≠ p := Ne.symm (Nat.ne_of_lt (hw.objects_lt p _ ho))
  have hcnext : h.next ≠ c := Ne.symm (Nat.ne_of_lt (hw.objects_lt c _ hchild))
  constructor
  · rw [Heap.redirected, Heap.setObject_ne _ _ hcnext, Heap.setObject_ne _ _ hnext,
      Heap.cloned_next]
  · rw [Heap.redirected, Heap.setObject_ne _ _ hne, Heap.setObject_self]

include hmany

theorem Heap.Wf.entered_redirected :
    h.Entered n.level p i h.next (h.redirected p n i c m) := by
  obtain ⟨ho₁, hc₂⟩ := hw.cloned_parent ho hc hchild
  obtain ⟨hcopy, hparent⟩ := hw.redirected_objects ho hc hchild
  have hlevel : m.level = n.level + 1 := hw.rank p _ i c _ ho hc hchild
  have hlt := hw.objects_lt c _ hchild
  refine ⟨hw.redirected ho hc hchild hmany, ⟨Nat.le_succ _, rfl, rfl, rfl, rfl,
    fun q hq path => ?_⟩, rfl, ⟨fun q o hq hr hqp => ?_, fun n' hn' => ?_⟩, ?_, ?_, .node m.copy,
    hcopy, hlevel⟩
  · have hredirect := Heap.frameAt_setSlot (n.setSlot i (some h.next)) i (some h.next)
      ho₁ rfl (fun path => by
        rw [hc, Option.bind_some, Option.bind_some, (hw.frameAt_cloned hchild path).2,
          (hw.frameAt_cloned hchild path).1 c hlt]) path q
    rw [← (hw.frameAt_cloned hchild path).1 q hq, ← hredirect]
    exact Heap.frameAt_setCount hc₂ _ q path
  · have hqc : q ≠ c := by
      rintro rfl
      rw [hchild] at hq
      cases hq
      exact absurd hr (by change ¬ m.level ≤ n.level; omega)
    rw [Heap.redirected, Heap.setObject_ne _ _ hqc, Heap.setObject_ne _ _ hqp]
    exact hw.objects_cloned_above hchild hq (by omega)
  · rw [ho] at hn'
    cases hn'
    exact ⟨n.setSlot i (some h.next), hparent, rfl, rfl⟩
  · rw [Heap.slots_of_some hparent]
    simp [Object.slots, PageTableNode.setSlot]
  · rw [Heap.count_of_some hcopy]
    rfl

end Redirected

/-- The other way down: a child that is missing is created, and answers
nothing. -/
theorem pageTableNodeCreate_spec (hw : h.Wf noPending) (hg : h.Grants 2)
    (ho : h.objects p = some (.node n)) (hc : n.entries i = none)
    (hl : n.level < pageTableLevels - 1) :
    Comp.Returns (do
        let child ← pageTableNodeCreate (n.level + 1)
        modifyNode p fun n =>
          { n.setSlot i (some child) with activeEntries := n.activeEntries + 1 }
        return child) h (h.Entered n.level p i · ·) := by
  let fresh : PageTableNode := ⟨fun _ => none, 0, n.level + 1, 1⟩
  let grown : PageTableNode := { n.setSlot i (some h.next) with activeEntries := n.activeEntries + 1 }
  have hplt := hw.objects_lt p _ ho
  have hnext : p ≠ h.next := Nat.ne_of_lt hplt
  have hw₀ : h.drawn.drawn.Wf noPending := hw.drawn.drawn
  have hw₁ : (h.drawn.drawn.addObject (.node fresh)).Wf
      fun q => noPending q + pointsTo (some h.next) q := by
    refine hw₀.addFresh ⟨Nat.le_refl 1, fun m hm => ?_, fun m hm => (by cases hm)⟩ rfl fun _ => rfl
    cases hm
    exact ⟨by simp only [fresh, pageTableLevels] at *; omega, (filled_eq_zero.mpr fun _ => rfl).symm⟩
  have ho₁ : (h.drawn.drawn.addObject (.node fresh)).objects p = some (.node n) := by
    simpa [Heap.addObject, Heap.drawn, hnext] using ho
  have hn₁ : (h.drawn.drawn.addObject (.node fresh)).objects h.next = some (.node fresh) := by
    simp [Heap.addObject, Heap.drawn]
  have hw₂ : ((h.drawn.drawn.addObject (.node fresh)).setObject p (some (.node grown))).Wf
      noPending := by
    refine hw₁.setSlot ho₁ grown rfl rfl rfl (by simp [hc, grown]) (fun d hd => ?_) fun q => ?_
    · cases hd
      exact ⟨.node fresh, hn₁, rfl⟩
    · rw [hc, pointsTo_none, noPending]
      omega
  refine Comp.Returns.of_eq (a := h.next)
    (t := (h.drawn.drawn.addObject (.node fresh)).setObject p (some (.node grown))) ?_ ?_
  · rw [Comp.bind_ok (pageTableNodeCreate_run hg _), Comp.bind_ok (modifyNode_run _ ho₁)]
    rfl
  · have hempty : ∀ path, (h.drawn.drawn.addObject (.node fresh)).frameAt h.next path = none := by
      intro path
      cases path with
      | nil => simp [Heap.frameAt, hn₁, Object.frame]
      | cons j path => simp [Heap.frameAt, Heap.slots_of_some hn₁, Object.slots, fresh]
    refine ⟨hw₂, ⟨Nat.le_succ _, rfl, rfl, rfl, rfl, fun q hq path => ?_⟩, rfl,
      ⟨fun q o hq hr hqp => ?_, fun n' hn' => ?_⟩, ?_, ?_, .node fresh, ?_, rfl⟩
    · have hlink := Heap.frameAt_setSlot grown i (some h.next) ho₁ rfl
        (fun path => by rw [hc, Option.bind_some, Option.bind_none, hempty]) path q
      rw [hlink, hw₀.frameAt_addObject hq path]
      exact Heap.frameAt_of_objects (by rfl) path q
    · have hqn : q ≠ h.next := Nat.ne_of_lt (hw.objects_lt q o hq)
      rw [Heap.setObject_ne _ _ hqp]
      simpa [Heap.addObject, Heap.drawn, hqn] using hq
    · rw [ho] at hn'
      cases hn'
      exact ⟨grown, by rw [Heap.setObject_self], rfl, rfl⟩
    · rw [Heap.slots_of_some (Heap.setObject_self _ p _)]
      simp [Object.slots, grown, PageTableNode.setSlot]
    · rw [Heap.count, Heap.setObject_ne _ _ (Ne.symm hnext), hn₁]
      rfl
    · rw [Heap.setObject_ne _ _ (Ne.symm hnext), hn₁]

/-- The root of a table made private. -/
structure Heap.Opened (t : Nat) (r : PageTable) (h h' : Heap) : Prop where
  wf : h'.Wf noPending
  grown : h.Grown h'
  root : ∃ r', h'.tables = Function.update h.tables t (some r') ∧ h'.count r'.root = 1 ∧
    (∃ m, h'.objects r'.root = some (.node m) ∧ m.level = 0) ∧
    ∀ path, h'.frameAt r'.root path = h.frameAt r.root path

theorem pageTableEnsurePrivateRoot_sole {r : PageTable} {m : PageTableNode}
    (ht : h.tables t = some r) (hroot : h.objects r.root = some (.node m))
    (hone : m.referenceCount = 1) : pageTableEnsurePrivateRoot t h = .ok () h := by
  rw [pageTableEnsurePrivateRoot, Comp.bind_ok (readTable_run ht),
    Comp.bind_ok (readNode_run hroot), if_pos hone]
  rfl

theorem Heap.Wf.opened_sole {r : PageTable} {m : PageTableNode} (hw : h.Wf noPending)
    (ht : h.tables t = some r) (hroot : h.objects r.root = some (.node m))
    (hone : m.referenceCount = 1) : h.Opened t r h :=
  ⟨hw, Heap.Grown.refl h, r, (Function.update_eq_self_iff.mpr ht.symm).symm,
    by rw [Heap.count_of_some hroot]; exact hone, ⟨m, hroot, hw.root_rank t r _ ht hroot⟩,
    fun _ => rfl⟩

/-- The table `t` has a copy of its root, the node `m`, which has lost a
reference. -/
def Heap.reopened (h : Heap) (t root : Nat) (m : PageTableNode) : Heap :=
  ((h.cloned m).setTable t (some ⟨h.next⟩)).setObject root
    (some (Object.setCount (m.referenceCount - 1) (.node m)))

section Reopened

variable {r : PageTable} {m : PageTableNode} (hw : h.Wf noPending) (ht : h.tables t = some r)
  (hroot : h.objects r.root = some (.node m)) (hmany : 1 < m.referenceCount)

include hw hroot

theorem Heap.Wf.cloned_root :
    ((h.cloned m).setTable t (some ⟨h.next⟩)).objects r.root = some (.node m) :=
  hw.objects_cloned_above hroot hroot (Nat.le_refl m.level)

include ht hmany

theorem pageTableEnsurePrivateRoot_copied (hg : h.Grants 2) :
    pageTableEnsurePrivateRoot t h = .ok () (h.reopened t r.root m) := by
  rw [pageTableEnsurePrivateRoot, Comp.bind_ok (readTable_run ht),
    Comp.bind_ok (readNode_run hroot), if_neg (Nat.ne_of_gt hmany),
    Comp.bind_ok (pageTableNodeCloneShallow_run hw hg hroot fun _ _ _ => Int.le_refl 0)]
  exact pageTableNodeRelease_shared (hw.cloned_root hroot) hmany

theorem Heap.Wf.reopened : (h.reopened t r.root m).Wf noPending := by
  have hw₁ : (h.cloned m).Wf fun q => noPending q + pointsTo (some h.next) q :=
    hw.cloned hroot (fun _ _ _ => Int.le_refl 0) fun _ => rfl
  have hw₂ : ((h.cloned m).setTable t (some ⟨h.next⟩)).Wf
      fun q => noPending q + pointsTo (some r.root) q := by
    have hlevel : m.level = 0 := hw.root_rank t r _ ht hroot
    refine hw₁.setTable (hw.tables_lt t r ht) (fun r' hr' => ?_) fun q => ?_
    · cases hr'
      exact ⟨.node m.copy, Heap.cloned_next h m, hlevel⟩
    · have hold : (h.cloned m).roots t () = some r.root := by
        change (h.tables t).map (·.root) = _
        rw [ht]
        rfl
      rw [hold, Option.map_some]
      ring
  exact Heap.Wf.dropOne (hw.cloned_root hroot) hmany hw₂

omit hmany hroot

theorem Heap.Wf.reopened_next :
    (h.reopened t r.root m).objects h.next = some (.node m.copy) := by
  have hne : h.next ≠ r.root := Ne.symm (Nat.ne_of_lt (hw.root_lt t r ht))
  rw [Heap.reopened, Heap.setObject_ne _ _ hne]
  exact Heap.cloned_next h m

include hroot hmany

theorem Heap.Wf.opened_reopened : h.Opened t r (h.reopened t r.root m) := by
  have hcopy := hw.reopened_next ht (m := m)
  have hlevel : m.level = 0 := hw.root_rank t r _ ht hroot
  have hsame : ∀ path q, (h.reopened t r.root m).frameAt q path = (h.cloned m).frameAt q path := by
    intro path q
    rw [Heap.reopened, Heap.frameAt_setCount (hw.cloned_root hroot)]
    exact Heap.frameAt_of_objects (by rfl) path q
  refine ⟨hw.reopened ht hroot hmany, ⟨Nat.le_succ _, rfl, rfl, rfl, rfl, fun q hq path => ?_⟩,
    ⟨h.next⟩, rfl, ?_, ⟨m.copy, hcopy, hlevel⟩, fun path => ?_⟩
  · rw [hsame]
    exact (hw.frameAt_cloned hroot path).1 q hq
  · rw [Heap.count_of_some hcopy]
    rfl
  · rw [hsame]
    exact (hw.frameAt_cloned hroot path).2

end Reopened

end VmSim
