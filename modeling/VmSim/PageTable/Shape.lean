/-
VmSim.PageTable.Shape — no node below a root is empty
(the pruning of `page_table_unmap`).

`Heap.Occupied` says that every node below a root has a slot in use. Each
function is shown to keep it, one rule of partial correctness after the
other; only the node in hand may be empty for a while, which is what
`spare` is for.
-/
import VmSim.PageTable.Tables
import VmSim.Lib.Invariant

namespace VmSim

open Lib

/-! ## Occupied nodes -/

structure Heap.Occupied (tables : Nat → Option PageTable) (spare : Nat → PageTableNode → Prop)
    (h : Heap) : Prop where
  tables : h.tables = tables
  node : ∀ p n, h.objects p = some (.node n) → 0 < n.level → n.activeEntries ≠ 0 ∨ spare p n

def noSpare (_ : Nat) (_ : PageTableNode) : Prop := False

/-- The node in hand, while nothing hangs from it. -/
def freshNode (current : Nat) (p : Nat) (n : PageTableNode) : Prop :=
  p = current ∧ ∀ i, n.entries i = none

variable {h : Heap} {T : Nat → Option PageTable} {S S' : Nat → PageTableNode → Prop} {p c t : Nat}
  {n : PageTableNode} {i : Fin pageTableEntries}

theorem Heap.Occupied.setObject (ho : h.Occupied T S) {object : Option Object}
    (hobject : ∀ n, object = some (.node n) → 0 < n.level → n.activeEntries ≠ 0 ∨ S' p n)
    (hspare : ∀ q n, q ≠ p → S q n → S' q n) : (h.setObject p object).Occupied T S' := by
  refine ⟨ho.tables, fun q n hq hlevel => ?_⟩
  by_cases e : q = p
  · rw [e, Heap.setObject_self] at hq
    rw [e]
    exact hobject n hq hlevel
  · rw [Heap.setObject_ne _ _ e] at hq
    exact (ho.node q n hq hlevel).imp_right (hspare q n e)

theorem Heap.Occupied.mono (ho : h.Occupied T S) (hspare : ∀ q n, S q n → S' q n) :
    h.Occupied T S' :=
  ⟨ho.tables, fun q n hq hlevel => (ho.node q n hq hlevel).imp_right (hspare q n)⟩

/-- A spare node with a slot in use is not spare. -/
theorem Heap.Occupied.of_fresh (ho : h.Occupied T (freshNode p)) (hp : h.objects p = some (.node n))
    (hi : n.entries i = some c) : h.Occupied T noSpare := by
  refine ⟨ho.tables, fun q m hq hlevel => (ho.node q m hq hlevel).imp_right ?_⟩
  rintro ⟨rfl, hnone⟩
  rw [hp] at hq
  cases hq
  rw [hnone i] at hi
  cases hi

/-! ## The rules of the heap operations -/

theorem allocate_occupied : Comp.Leads (Heap.Occupied T S) allocate fun _ => Heap.Occupied T S := by
  intro h a h' ho hrun
  unfold allocate at hrun
  dsimp only at hrun
  split at hrun
  · cases hrun
    exact ⟨ho.tables, ho.node⟩
  · cases hrun

theorem readNode_leads {P : Heap → Prop} :
    Comp.Leads P (readNode p) fun n h => h.objects p = some (.node n) ∧ P h := by
  intro h n h' hP hrun
  unfold readNode at hrun
  split at hrun
  · rename_i hn
    cases hrun
    exact ⟨hn, hP⟩
  · cases hrun

theorem readEntry_leads {P : Heap → Prop} : Comp.Leads P (readEntry p) fun _ => P := by
  intro h e h' hP hrun
  unfold readEntry at hrun
  split at hrun
  · cases hrun
    exact hP
  · cases hrun

theorem readTable_leads {P : Heap → Prop} :
    Comp.Leads P (readTable t) fun r h => h.tables t = some r ∧ P h := by
  intro h r h' hP hrun
  unfold readTable at hrun
  split at hrun
  · rename_i ht
    cases hrun
    exact ⟨ht, hP⟩
  · cases hrun

theorem setObject_occupied {object : Option Object}
    (hobject : ∀ n, object = some (.node n) → 0 < n.level → n.activeEntries ≠ 0 ∨ S' p n)
    (hspare : ∀ q n, q ≠ p → S q n → S' q n) :
    Comp.Leads (Heap.Occupied T S) (VmSim.setObject p object) fun _ => Heap.Occupied T S' := by
  intro h a h' ho hrun
  cases hrun
  exact ho.setObject hobject hspare

theorem freeObject_occupied (hspare : ∀ q n, q ≠ p → S q n → S' q n) :
    Comp.Leads (Heap.Occupied T S) (freeObject p) fun _ => Heap.Occupied T S' := by
  intro h a h' ho hrun
  unfold freeObject at hrun
  split at hrun
  · cases hrun
    exact ho.setObject (fun n hn => by cases hn) hspare
  · cases hrun

/-- A write through a node pointer. -/
theorem modifyNode_occupied {P : Heap → Prop} {f : PageTableNode → PageTableNode}
    (hP : ∀ h, P h → h.Occupied T S)
    (hf : ∀ h n, P h → h.objects p = some (.node n) → 0 < (f n).level →
      (f n).activeEntries ≠ 0 ∨ S' p (f n))
    (hspare : ∀ q n, q ≠ p → S q n → S' q n) :
    Comp.Leads P (modifyNode p f) fun _ => Heap.Occupied T S' := by
  refine readNode_leads.bind fun n => ?_
  intro h a h' hn hrun
  cases hrun
  refine (hP h hn.2).setObject (fun m hm hlevel => ?_) hspare
  cases hm
  exact hf h n hn.2 hn.1 hlevel

/-- One that leaves the number of slots in use. -/
theorem modifyNode_occupied_same {f : PageTableNode → PageTableNode}
    (hlevel : ∀ n, (f n).level = n.level)
    (hactive : ∀ n, (f n).activeEntries = n.activeEntries) :
    Comp.Leads (Heap.Occupied T noSpare) (modifyNode p f) fun _ => Heap.Occupied T noSpare := by
  refine modifyNode_occupied (fun _ ho => ho) (fun h n ho hn hpos => ?_) fun _ _ _ hs => hs
  rw [hlevel] at hpos
  rw [hactive]
  exact Or.inl ((ho.node p n hn hpos).resolve_right id)

theorem setSlot_occupied {slot : Option Nat} :
    Comp.Leads (Heap.Occupied T noSpare) (modifyNode p fun n => n.setSlot i slot)
      fun _ => Heap.Occupied T noSpare := modifyNode_occupied_same (fun _ => rfl) fun _ => rfl

theorem modifyEntry_occupied {f : PageTableEntry → PageTableEntry} :
    Comp.Leads (Heap.Occupied T S) (modifyEntry p f) fun _ => Heap.Occupied T S := by
  refine readEntry_leads.bind fun e => ?_
  exact setObject_occupied (fun n hn => by cases hn) fun _ _ _ hs => hs

/-! ## Every function keeps the nodes occupied -/

theorem pageTableNodeCreate_leads {level : Nat} :
    Comp.Leads (Heap.Occupied T S) (pageTableNodeCreate level) fun a h =>
      h.objects a = some (.node ⟨fun _ => none, 0, level, 1⟩) ∧
        h.Occupied T fun q n => S q n ∨ freshNode a q n := by
  refine allocate_occupied.bind fun _ => allocate_occupied.bind fun _ => ?_
  intro h a h' ho hrun
  cases hrun
  refine ⟨Function.update_self .., ho.tables, fun q n hq hlevel => ?_⟩
  by_cases e : q = h.next
  · rw [e] at hq
    have hn := (Function.update_self ..).symm.trans hq
    cases hn
    exact Or.inr (Or.inr ⟨e, fun _ => rfl⟩)
  · have hq' := (Function.update_of_ne e ..).symm.trans hq
    exact (ho.node q n hq' hlevel).imp_right Or.inl

theorem newEntry_occupied {e : PageTableEntry} :
    Comp.Leads (Heap.Occupied T S) (newObject (.entry e)) fun _ => Heap.Occupied T S := by
  intro h a h' ho hrun
  cases hrun
  refine ⟨ho.tables, fun q n hq hlevel => ?_⟩
  by_cases e : q = h.next
  · rw [e] at hq
    have hn := (Function.update_self ..).symm.trans hq
    cases hn
  · exact ho.node q n ((Function.update_of_ne e ..).symm.trans hq) hlevel

theorem pageTableEntryCreate_occupied {frame : Nat} :
    Comp.Leads (Heap.Occupied T S) (pageTableEntryCreate frame) fun _ => Heap.Occupied T S :=
  allocate_occupied.bind fun _ => newEntry_occupied

theorem pageTableEntryRelease_occupied :
    Comp.Leads (Heap.Occupied T S) (pageTableEntryRelease p) fun _ => Heap.Occupied T S := by
  refine readEntry_leads.bind fun e => ?_
  split
  · exact setObject_occupied (fun n hn => by cases hn) fun _ _ _ hs => hs
  · exact freeObject_occupied fun _ _ _ hs => hs

theorem pageTableNodeRelease_occupied (depth : Nat) : ∀ p,
    Comp.Leads (Heap.Occupied T noSpare) (pageTableNodeRelease depth p)
      fun _ => Heap.Occupied T noSpare := by
  induction depth with
  | zero => exact fun p => Comp.Leads.fault
  | succ depth ih =>
    intro p
    refine readNode_leads.bind fun n => ?_
    split
    · intro h a h' hn hrun
      cases hrun
      refine hn.2.setObject (fun m hm hlevel => ?_) fun _ _ _ hs => hs
      cases hm
      exact hn.2.node p n hn.1 hlevel
    · refine Comp.Leads.of_pre (P := Heap.Occupied T noSpare) ?_ fun _ hn => hn.2
      refine (Comp.Leads.forEach (fun index => ?_) slotIndices).bind fun _ =>
        freeObject_occupied fun _ _ _ hs => hs
      cases n.entries index with
      | none => exact Comp.Leads.pure fun _ ho => ho
      | some child =>
        dsimp only
        split
        · exact ih child
        · exact pageTableEntryRelease_occupied

theorem pageTableCloneSlot_occupied (source : PageTableNode) (copy : Nat) (index : Fin pageTableEntries) :
    Comp.Leads (Heap.Occupied T noSpare) (pageTableCloneSlot source copy index)
      fun _ => Heap.Occupied T noSpare := by
  unfold pageTableCloneSlot
  cases source.entries index with
  | none => exact Comp.Leads.pure fun _ ho => ho
  | some child =>
    refine setSlot_occupied.bind fun _ => ?_
    split
    · exact modifyNode_occupied_same (fun _ => rfl) fun _ => rfl
    · exact modifyEntry_occupied

/-- A copy has as many slots in use as its source. -/
theorem pageTableNodeCloneShallow_occupied :
    Comp.Leads (Heap.Occupied T noSpare) (pageTableNodeCloneShallow p)
      fun _ => Heap.Occupied T noSpare := by
  refine readNode_leads.bind fun node => ?_
  refine Comp.Leads.of_pre (P := fun h => (0 < node.level → node.activeEntries ≠ 0) ∧
    h.Occupied T noSpare) (Comp.Leads.given fun hnode => ?_) fun h hn =>
      ⟨fun hlevel => (hn.2.node p node hn.1 hlevel).resolve_right id, hn.2⟩
  refine pageTableNodeCreate_leads.bind fun copy => ?_
  have hcopied : Comp.Leads (fun h : Heap =>
      h.objects copy = some (.node ⟨fun _ => none, 0, node.level, 1⟩) ∧
        h.Occupied T fun q n => noSpare q n ∨ freshNode copy q n)
      (modifyNode copy fun c => { c with activeEntries := node.activeEntries })
      fun _ => Heap.Occupied T noSpare := by
    refine modifyNode_occupied (fun _ ho => ho.2) (fun h n ho hn hlevel => ?_) fun q n hq hs => ?_
    · rw [ho.1] at hn
      cases hn
      exact Or.inl (hnode hlevel)
    · exact hs.elim id fun hfresh => hq hfresh.1
  refine hcopied.bind fun _ => ?_
  exact (Comp.Leads.forEach (pageTableCloneSlot_occupied node copy) slotIndices).bind fun _ =>
    Comp.Leads.pure fun _ ho => ho

/-- The table may point to another root afterwards. -/
theorem pageTableEnsurePrivateRoot_occupied :
    Comp.Leads (Heap.Occupied T noSpare) (pageTableEnsurePrivateRoot t)
      fun _ h => ∃ T', h.Occupied T' noSpare := by
  refine readTable_leads.bind fun old => readNode_leads.bind fun root => ?_
  refine Comp.Leads.of_pre (P := Heap.Occupied T noSpare) ?_ fun _ hn => hn.2.2
  split
  · exact Comp.Leads.pure fun _ ho => ⟨T, ho⟩
  · refine pageTableNodeCloneShallow_occupied.bind fun newRoot => ?_
    have hset : Comp.Leads (Heap.Occupied T noSpare) (VmSim.setTable t (some ⟨newRoot⟩))
        fun _ => Heap.Occupied (Function.update T t (some ⟨newRoot⟩)) noSpare := by
      intro h a h' ho hrun
      cases hrun
      exact ⟨by rw [← ho.tables], ho.node⟩
    exact hset.bind fun _ => (pageTableNodeRelease_occupied _ _).mono fun _ h ho => ⟨_, ho⟩

theorem pageTableEnsurePrivateChild_occupied :
    Comp.Leads (Heap.Occupied T noSpare) (pageTableEnsurePrivateChild p i)
      fun _ => Heap.Occupied T noSpare := by
  refine readNode_leads.bind fun node => (Comp.Leads.orFail _).bind fun child =>
    readNode_leads.bind fun childNode => ?_
  refine Comp.Leads.of_pre (P := Heap.Occupied T noSpare) ?_ fun _ hn => hn.2.2.2
  split
  · exact Comp.Leads.pure fun _ ho => ho
  · refine pageTableNodeCloneShallow_occupied.bind fun copy => ?_
    refine setSlot_occupied.bind fun _ => ?_
    exact (pageTableNodeRelease_occupied _ _).bind fun _ => Comp.Leads.pure fun _ ho => ho

theorem pageTablePrivateEntry_occupied {leaf : Nat} :
    Comp.Leads (Heap.Occupied T noSpare) (pageTablePrivateEntry leaf i p)
      fun _ => Heap.Occupied T noSpare := by
  refine readEntry_leads.bind fun entry => ?_
  split
  · have hclone : Comp.Leads (Heap.Occupied T noSpare) (pageTableEntryClone p)
        fun _ => Heap.Occupied T noSpare :=
      readEntry_leads.bind fun e => allocate_occupied.bind fun _ => newEntry_occupied
    refine hclone.bind fun copy => pageTableEntryRelease_occupied.bind fun _ => ?_
    exact setSlot_occupied.bind fun _ => Comp.Leads.pure fun _ ho => ho
  · exact Comp.Leads.pure fun _ ho => ho

/-- A node that is created on the way down is the one in hand next. -/
theorem pageTableMapDescend_occupied (address : Nat) (levels : List Nat) : ∀ current,
    Comp.Leads (Heap.Occupied T (freshNode current)) (pageTableMapDescend address levels current)
      fun leaf => Heap.Occupied T (freshNode leaf) := by
  induction levels with
  | nil => exact fun current => Comp.Leads.pure fun _ ho => ho
  | cons level levels ih =>
    intro current
    refine readNode_leads.bind fun node => ?_
    cases hi : node.entries (addressLevelIndex address level) with
    | none =>
      refine Comp.Leads.of_pre (P := Heap.Occupied T (freshNode current)) ?_ fun _ hn => hn.2
      refine pageTableNodeCreate_leads.bind fun child => ?_
      refine Comp.Leads.bind (modifyNode_occupied (fun _ ho => ho.2) (fun h n _ _ _ => ?_)
        fun q n hq hs => ?_) fun _ => ih child
      · exact Or.inl (Nat.succ_ne_zero _)
      · exact hs.elim (fun hcurrent => absurd hcurrent.1 hq) id
    | some child =>
      refine Comp.Leads.of_pre (P := Heap.Occupied T noSpare) ?_ fun h hn => hn.2.of_fresh hn.1 hi
      refine pageTableEnsurePrivateChild_occupied.bind fun child => ?_
      exact Comp.Leads.of_pre (ih child) fun h ho => ho.mono fun _ _ hs => hs.elim

theorem Heap.Occupied.of_table {root : PageTable}
    (ho : h.tables t = some root ∧ ∃ T', h.Occupied T' noSpare) :
    ∃ T', T' t = some root ∧ h.Occupied T' noSpare := by
  obtain ⟨ht, T', ho⟩ := ho
  exact ⟨T', by rw [← ho.tables, ht], ho⟩

/-- The leaf gets an entry, if it has none yet. -/
theorem pageTableMap_occupied {a frame : Nat} :
    Comp.Leads (Heap.Occupied T noSpare) (pageTableMap t a frame)
      fun _ h => ∃ T', h.Occupied T' noSpare := by
  refine pageTableEnsurePrivateRoot_occupied.bind fun _ => readTable_leads.bind fun root =>
    Comp.Leads.of_pre (Comp.Leads.choose fun T' => Comp.Leads.given fun _ => ?_)
      fun _ => Heap.Occupied.of_table
  refine Comp.Leads.of_pre (P := Heap.Occupied T' (freshNode root.root)) ?_
    fun h ho => ho.mono fun _ _ hs => hs.elim
  refine (pageTableMapDescend_occupied a innerLevels root.root).bind fun leaf =>
    readNode_leads.bind fun leafNode => ?_
  cases hi : leafNode.entries (addressLevelIndex a (pageTableLevels - 1)) with
  | none =>
    refine Comp.Leads.of_pre (P := Heap.Occupied T' (freshNode leaf)) ?_ fun _ hn => hn.2
    refine pageTableEntryCreate_occupied.bind fun entry => ?_
    refine (modifyNode_occupied (fun _ ho => ho) (fun h n _ _ _ => ?_) fun q n hq hs => ?_).mono
      fun _ _ ho => ⟨T', ho⟩
    · exact Or.inl (Nat.succ_ne_zero _)
    · exact absurd hs.1 hq
  | some old =>
    refine Comp.Leads.of_pre (P := Heap.Occupied T' noSpare) ?_
      fun _ hn => hn.2.of_fresh hn.1 hi
    exact pageTablePrivateEntry_occupied.bind fun entry => modifyEntry_occupied.mono
      fun _ _ ho => ⟨T', ho⟩

/-! ## Pruning -/

/-- A node that loses a slot may be left empty. -/
theorem unlink_occupied :
    Comp.Leads (Heap.Occupied T noSpare) (modifyNode p fun n =>
        { n.setSlot i none with activeEntries := n.activeEntries - 1 })
      fun _ => Heap.Occupied T fun q _ => q = p :=
  modifyNode_occupied (fun _ ho => ho) (fun _ _ _ _ _ => Or.inr rfl) fun _ _ _ hs => hs.elim

/-- The node where the pruning loop may stop at the latest. -/
def topOf (current : Nat) : List (Nat × Fin pageTableEntries) → Nat
  | [] => current
  | (parent, _) :: ancestors => topOf parent ancestors

theorem pageTableUnmapDescend_occupied (address : Nat) (levels : List Nat) :
    ∀ current ancestors, Comp.Leads (Heap.Occupied T noSpare)
      (pageTableUnmapDescend address levels current ancestors) fun result h =>
        h.Occupied T noSpare ∧ topOf result.1 result.2 = topOf current ancestors := by
  induction levels with
  | nil => exact fun current ancestors => Comp.Leads.pure fun _ ho => ⟨ho, rfl⟩
  | cons level levels ih =>
    intro current ancestors
    exact pageTableEnsurePrivateChild_occupied.bind fun child => ih child _

/-- Only the topmost node can be left empty. -/
theorem pageTablePrune_leads (ancestors : List (Nat × Fin pageTableEntries)) : ∀ current,
    Comp.Leads (Heap.Occupied T fun q _ => q = current) (pageTablePrune current ancestors)
      fun _ => Heap.Occupied T fun q _ => q = topOf current ancestors := by
  induction ancestors with
  | nil => exact fun current => Comp.Leads.pure fun _ ho => ho
  | cons link ancestors ih =>
    obtain ⟨parent, index⟩ := link
    intro current
    refine readNode_leads.bind fun node => ?_
    split
    · rename_i hactive
      refine Comp.Leads.pure fun h hn => ⟨hn.2.tables, fun q n hq hlevel => Or.inl ?_⟩
      rcases hn.2.node q n hq hlevel with hne | rfl
      · exact hne
      · rw [hn.1] at hq
        cases hq
        exact hactive
    · refine Comp.Leads.of_pre (P := Heap.Occupied T fun q _ => q = current) ?_ fun _ hn => hn.2
      exact (freeObject_occupied fun _ _ hq hs => hq hs).bind fun _ =>
        unlink_occupied.bind fun _ => ih parent

theorem pageTableWalk_leads {P : Heap → Prop} (address : Nat) (levels : List Nat) :
    ∀ current visited, Comp.Leads P (pageTableWalk address levels current visited)
      fun _ => P := by
  induction levels with
  | nil =>
    intro current visited
    refine readNode_leads.bind fun node => Comp.Leads.of_pre (P := P) ?_ fun _ hn => hn.2
    cases node.entries (addressLevelIndex address (pageTableLevels - 1)) with
    | none => exact Comp.Leads.pure fun _ hP => hP
    | some pointer => exact readEntry_leads.bind fun entry => Comp.Leads.pure fun _ hP => hP
  | cons level levels ih =>
    intro current visited
    refine readNode_leads.bind fun node => Comp.Leads.of_pre (P := P) ?_ fun _ hn => hn.2
    cases node.entries (addressLevelIndex address level) with
    | none => exact Comp.Leads.pure fun _ hP => hP
    | some child => exact ih child (visited + 1)

theorem pageTableLookup_leads {P : Heap → Prop} {a : Nat} :
    Comp.Leads P (pageTableLookup t a) fun _ => P := by
  have hlevels : Comp.Leads P (pageTableLookupWithLevels t a) fun _ => P :=
    readTable_leads.bind fun root => Comp.Leads.of_pre (pageTableWalk_leads a _ _ _) fun _ hn => hn.2
  exact hlevels.bind fun _ => Comp.Leads.pure fun _ hP => hP

theorem pageTableUnmap_leads {a : Nat} :
    Comp.Leads (Heap.Occupied T noSpare) (pageTableUnmap t a)
      fun _ h => ∃ T' r, T' t = some r ∧ h.Occupied T' fun q _ => q = r.root := by
  refine pageTableLookup_leads.bind fun found => (Comp.Leads.failIf _).bind fun _ => ?_
  refine pageTableEnsurePrivateRoot_occupied.bind fun _ => readTable_leads.bind fun root =>
    Comp.Leads.of_pre (Comp.Leads.choose fun T' => Comp.Leads.given fun hroot => ?_)
      fun _ => Heap.Occupied.of_table
  refine (pageTableUnmapDescend_occupied a innerLevels root.root []).bind fun result => ?_
  obtain ⟨leaf, ancestors⟩ := result
  refine Comp.Leads.of_pre (Comp.Leads.given (P := Heap.Occupied T' noSpare)
    fun (htop : topOf leaf ancestors = root.root) => ?_) fun h hn => ⟨hn.2, hn.1⟩
  refine readNode_leads.bind fun leafNode => (Comp.Leads.orFail _).bind fun entry => ?_
  refine Comp.Leads.of_pre (P := Heap.Occupied T' noSpare) ?_ fun _ hn => hn.2.2
  refine pageTableEntryRelease_occupied.bind fun _ => unlink_occupied.bind fun _ => ?_
  refine (pageTablePrune_leads ancestors leaf).mono fun _ h ho => ⟨T', root, hroot, ?_⟩
  rw [← htop]
  exact ho

/-! ## Whole calls -/

/-- No node below a root is empty. -/
def Heap.Full (h : Heap) : Prop := h.Occupied h.tables noSpare

theorem Heap.Occupied.full (ho : h.Occupied T noSpare) : h.Full := ⟨rfl, ho.node⟩

/-- A root may be empty. -/
theorem Heap.Occupied.full_of_root {r : PageTable} (ho : h.Occupied T fun q _ => q = r.root)
    (ht : T t = some r) (hw : h.Wf noPending) : h.Full := by
  refine ⟨rfl, fun q n hq hlevel => Or.inl ?_⟩
  rcases ho.node q n hq hlevel with hne | rfl
  · exact hne
  · have hroot := hw.root_rank t r _ (by rw [ho.tables, ht]) hq
    exact absurd hroot (Nat.ne_of_gt hlevel)

theorem pageTableCreate_occupied :
    Comp.Leads (Heap.Occupied T noSpare) pageTableCreate fun _ => Heap.Full := by
  refine allocate_occupied.bind fun _ => pageTableNodeCreate_leads.bind fun root => ?_
  intro h t h' hroot hrun
  cases hrun
  refine ⟨rfl, fun q n hq hlevel => ?_⟩
  have hq' : h.objects q = some (.node n) := hq
  rcases hroot.2.node q n hq' hlevel with hne | hspare | hfresh
  · exact Or.inl hne
  · exact hspare.elim
  · rw [hfresh.1, hroot.1] at hq'
    cases hq'
    exact absurd hlevel (Nat.lt_irrefl 0)

theorem pageTableCloneShared_occupied :
    Comp.Leads (Heap.Occupied T noSpare) (pageTableCloneShared t) fun _ => Heap.Full := by
  refine readTable_leads.bind fun table =>
    Comp.Leads.of_pre (P := Heap.Occupied T noSpare) ?_ fun _ hn => hn.2
  refine allocate_occupied.bind fun _ => ?_
  refine Comp.Leads.bind (modifyNode_occupied_same (fun _ => rfl) fun _ => rfl) fun _ => ?_
  intro h t h' ho hrun
  cases hrun
  exact ⟨rfl, ho.node⟩

theorem pageTableDestroy_occupied :
    Comp.Leads (Heap.Occupied T noSpare) (pageTableDestroy t) fun _ => Heap.Full := by
  refine readTable_leads.bind fun table =>
    Comp.Leads.of_pre (P := Heap.Occupied T noSpare) ?_ fun _ hn => hn.2
  refine (pageTableNodeRelease_occupied _ _).bind fun _ => ?_
  intro h u h' ho hrun
  cases hrun
  exact ⟨rfl, ho.node⟩

/-- Every call on live tables leaves no empty node. -/
theorem tableStep_full {m m' : TableMaps} {h' : Heap} {call : TableCall} {reply : TableReply}
    (hm : m.Held h) (hfull : h.Full) (hstep : m.step call = some (reply, m'))
    (hrun : h.tableStep call = some (reply, h')) (hw' : h'.Wf noPending) : h'.Full := by
  cases call with
  | create =>
    obtain ⟨t, h'', hok, _⟩ := pageTableCreate_spec hm.wf (hm.plenty.grants 3)
    rw [Heap.tableStep, hok] at hrun
    cases hrun
    exact pageTableCreate_occupied h t h' hfull hok
  | cloneShared source =>
    obtain ⟨frames, hframes, _⟩ := Option.map_eq_some_iff.mp hstep
    obtain ⟨r, hr⟩ := hm.table hframes
    obtain ⟨t, h'', hok, _⟩ := pageTableCloneShared_spec hm.wf hm.plenty hr
    rw [Heap.tableStep, hok] at hrun
    cases hrun
    exact pageTableCloneShared_occupied h t h' hfull hok
  | map t a f =>
    obtain ⟨frames, hframes, _⟩ := Option.map_eq_some_iff.mp hstep
    obtain ⟨r, hr⟩ := hm.table hframes
    obtain ⟨u, h'', hok, _⟩ := pageTableMap_spec hm.wf hm.plenty hr a f
    rw [Heap.tableStep, hok] at hrun
    cases hrun
    obtain ⟨T', ho⟩ := pageTableMap_occupied h u h' hfull hok
    exact ho.full
  | unmap t a =>
    obtain ⟨frames, hframes, _⟩ := Option.map_eq_some_iff.mp hstep
    obtain ⟨r, hr⟩ := hm.table hframes
    by_cases hbound : h.frameOf t (addressPageNumber a) = none
    · rw [Heap.tableStep, pageTableUnmap_unbound hm.wf hr hbound] at hrun
      cases hrun
      exact hfull
    · obtain ⟨u, h'', hok, _⟩ := pageTableUnmap_spec hm.wf hm.plenty hr hbound
      rw [Heap.tableStep, hok] at hrun
      cases hrun
      obtain ⟨T', root, hroot, ho⟩ := pageTableUnmap_leads h u h' hfull hok
      exact ho.full_of_root hroot hw'
  | lookup t a =>
    obtain ⟨frames, hframes, _⟩ := Option.map_eq_some_iff.mp hstep
    obtain ⟨r, hr⟩ := hm.table hframes
    obtain ⟨entry, hok, _⟩ := pageTableLookup_run hm.wf hr a
    rw [Heap.tableStep, hok] at hrun
    cases hrun
    exact hfull
  | destroy t =>
    obtain ⟨frames, hframes, _⟩ := Option.map_eq_some_iff.mp hstep
    obtain ⟨r, hr⟩ := hm.table hframes
    obtain ⟨u, h'', hok, _⟩ := pageTableDestroy_spec hm.wf hr
    rw [Heap.tableStep, hok] at hrun
    cases hrun
    exact pageTableDestroy_occupied h u h' hfull hok

/-- In every state that a run leads to, the tables hold the maps and no
node is empty. -/
theorem tableRun_full {calls : List TableCall} {replies : List TableReply} {m : TableMaps}
    (hrun : run TableMaps.step TableMaps.empty calls = some (replies, m)) :
    ∃ h, run Heap.tableStep (Heap.empty fun _ => true) calls = some (replies, h) ∧
      m.Held h ∧ h.Full := by
  refine run_simulation (fun m h => m.Held h ∧ h.Full) (fun m h call reply m' hmh hstep => ?_)
    calls _ _ _ _ ⟨TableMaps.held_empty, rfl, fun p n hn => by cases hn⟩ hrun
  obtain ⟨h', hrun', hm'⟩ := tableStep_refines m h call reply m' hmh.1 hstep
  exact ⟨h', hrun', hm', tableStep_full hmh.1 hmh.2 hstep hrun' hm'.wf⟩

end VmSim
