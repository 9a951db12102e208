/-
VmSim.PageTable.FailedMap — `page_table_map` on a heap whose allocations
may fail.

On its way down the function copies shared nodes, which nobody can see, and
creates missing ones, which stay empty until the entry hangs from the last
of them. So a failure is invisible as long as no node has been created. The
nodes to be copied come first on the path (`Heap.copies`): a copied node
shares its children, so everything below the first shared node is copied as
well. Whether the first missing node is created is then a matter of the
next allocations, two for each node (`Heap.NothingHung`).
-/
import VmSim.PageTable.Allocation
import VmSim.PageTable.Views

namespace VmSim

open Lib

variable {h h' : Heap} {p c t : Nat} {n m : PageTableNode} {e : PageTableEntry}
  {i : Fin pageTableEntries} {r : PageTable} {word : List (Fin pageTableEntries)}

/-! ## Allocations -/

theorem Heap.grants_add_two {k : Nat} :
    h.Grants (k + 2) ↔ h.Grants 2 ∧ h.drawn.drawn.Grants k := by
  have hzero : h.drawn.drawn.Grants 0 := fun j hj => absurd hj (Nat.not_lt_zero j)
  simp only [Heap.grants_succ, hzero, and_true, and_assoc]

/-! ## The nodes to be copied -/

/-- The nodes below `p` on the path `word` that are copied: those from the
first shared one on. -/
def Heap.copiesBelow (h : Heap) : Nat → List (Fin pageTableEntries) → Nat
  | _, [] => 0
  | p, i :: word => (h.slots p i).elim 0 fun c =>
    if h.count c = 1 then h.copiesBelow c word else descentDepth h.slots c word

/-- The same, `p` included. -/
def Heap.copies (h : Heap) (p : Nat) (word : List (Fin pageTableEntries)) : Nat :=
  if h.count p = 1 then h.copiesBelow p word else descentDepth h.slots p word

/-- No node is hung below `p` before an allocation fails: either none is
missing on the path, or the allocations do not last for the copies and the
first node that is missing. -/
def Heap.NothingHung (h : Heap) (p : Nat) (copies : Nat) (word : List (Fin pageTableEntries)) :
    Prop :=
  descentDepth h.slots p word = word.length + 1 ∨ ¬ h.Grants (2 * copies + 2)

/-- Below a node whose children are all shared, everything is copied. -/
theorem Heap.copiesBelow_of_shared (hshared : ∀ j d, h.slots p j = some d → h.count d ≠ 1)
    (word : List (Fin pageTableEntries)) :
    h.copiesBelow p word + 1 = descentDepth h.slots p word := by
  cases word with
  | nil => rfl
  | cons j word =>
    rw [Heap.copiesBelow, descentDepth, Nat.add_comm]
    cases hd : h.slots p j with
    | none => rfl
    | some d => rw [Option.elim_some, Option.elim_some, if_neg (hshared j d hd)]

/-- A node and its copy point to the same children, so none of them has
one reference only. -/
theorem Heap.Wf.shared_of_copy {q : Nat} (hw : h.Wf noPending) (hne : c ≠ q)
    (hsame : h.slots q = h.slots c) (j : Fin pageTableEntries) (d : Nat)
    (hd : h.slots q j = some d) : h.count d ≠ 1 := by
  intro hone
  have hsole := (hw.sole hone hd).1 c j (by rw [← hsame]; exact hd)
  exact hne hsole.1

/-- The two allocations of a copy come off the allocations that are left. -/
theorem Heap.nothingHung_copied {q copies : Nat} (hg : h.Grants 2)
    (halloc : h'.allocator = h.drawn.drawn.allocator)
    (hdepth : descentDepth h'.slots q word = descentDepth h.slots c word)
    (hcopies : copies = h'.copiesBelow q word + 1) :
    h.NothingHung c copies word ↔ h'.NothingHung q (h'.copiesBelow q word) word := by
  have hgrants : h.Grants (2 * copies + 2) ↔ h'.Grants (2 * h'.copiesBelow q word + 2) := by
    have hsame : h'.Grants (2 * h'.copiesBelow q word + 2) ↔
        h.drawn.drawn.Grants (2 * h'.copiesBelow q word + 2) := by
      simp only [Heap.Grants, halloc]
    have htwo : 2 * copies + 2 = (2 * h'.copiesBelow q word + 2) + 2 := by omega
    rw [hsame, htwo, Heap.grants_add_two]
    exact and_iff_right hg
  rw [Heap.NothingHung, Heap.NothingHung, hdepth, hgrants]

theorem Heap.nothingHung_cons (hs : h.slots p i = some c) (copies : Nat) :
    h.NothingHung p copies (i :: word) ↔ h.NothingHung c copies word := by
  rw [Heap.NothingHung, Heap.NothingHung, descentDepth, hs, Option.elim_some, List.length_cons,
    Nat.add_comm 1, Nat.add_right_cancel_iff]

theorem Heap.nothingHung_refused (hg : ¬ h.Grants 2) (p copies : Nat)
    (word : List (Fin pageTableEntries)) : h.NothingHung p copies word :=
  Or.inr fun hmore => hg (hmore.mono (Nat.le_add_left 2 _))

/-! ## The descent -/

/-- What a descent from the private node `p` leaves, whether it arrived at
a leaf node or failed on the way. -/
structure Heap.Tried (level p : Nat) (word : List (Fin pageTableEntries)) (result : Option Nat)
    (h h' : Heap) : Prop where
  wf : h'.Wf noPending
  tables : h'.tables = h.tables
  above : h.Above level p h'
  early : h.NothingHung p (h.copiesBelow p word) word → h.Kept h'
  late : ¬ h.NothingHung p (h.copiesBelow p word) word →
    descentDepth h.slots p word < descentDepth h'.slots p word
  leaf : ∀ q, result = some q → ∃ m, h'.objects q = some (.node m) ∧ m.level = pageTableLevels - 1

theorem Heap.Wf.tried_arrived (hw : h.Wf noPending) (ho : h.objects p = some (.node n))
    (hl : innerLevels.drop n.level = []) : h.Tried n.level p [] (some p) h := by
  refine ⟨hw, rfl, Heap.Above.refl n.level p h, fun _ => Heap.Kept.refl h,
    fun hlate => absurd (Or.inl rfl) hlate, fun q hq => ?_⟩
  cases hq
  have hlevel := ((hw.object _ _ ho).node n rfl).1
  have hge := innerLevels_drop_nil hl
  refine ⟨n, ho, ?_⟩
  simp only [pageTableLevels] at *
  omega

theorem Heap.Wf.tried_refused (hw : h.Wf noPending) (hg : ¬ h.Grants 2) (level p : Nat)
    (word : List (Fin pageTableEntries)) (allocator : Allocator) :
    h.Tried level p word none (h.supplied allocator) :=
  ⟨hw.supplied allocator, rfl, ⟨fun _ _ ho _ _ => ho, fun n ho => ⟨n, ho, rfl, rfl⟩⟩,
    fun _ _ _ _ _ => rfl, fun hlate => absurd (Heap.nothingHung_refused hg p _ word) hlate,
    fun q hq => by cases hq⟩

section Entered

variable {child : Nat} {result : Option Nat} {h₁ : Heap} (ho : h.objects p = some (.node n))
  (hl : n.level < pageTableLevels - 1) (he : h.Entered n.level p i child h₁)
  (ht : h₁.Tried (n.level + 1) child word result h')

include ho hl he ht

/-- One level down and the rest of the way: the path from `p` goes on at
`child`. -/
theorem Heap.Entered.depth_eq :
    descentDepth h'.slots p (i :: word) = 1 + descentDepth h'.slots child word := by
  rw [descentDepth, (he.link ho hl ht.above).2.1, Option.elim_some]

/-- A child that was created stays, whatever happens below it. -/
theorem Heap.Entered.tried_created (hc : n.entries i = none) (hg : h.Grants 2) :
    h.Tried n.level p (i :: word) result h' := by
  have hslot : h.slots p i = none := by rw [Heap.slots_of_some ho]; exact hc
  have hdepth : descentDepth h.slots p (i :: word) = 1 := by
    rw [descentDepth, hslot, Option.elim_none]
  have hlate : ¬ h.NothingHung p (h.copiesBelow p (i :: word)) (i :: word) := by
    rw [Heap.NothingHung, hdepth, Heap.copiesBelow, hslot, List.length_cons]
    rintro (hcomplete | hrefused)
    · omega
    · exact hrefused hg
  refine ⟨ht.wf, ht.tables.trans he.tables, (he.link ho hl ht.above).1,
    fun hearly => absurd hearly hlate, fun _ => ?_, ht.leaf⟩
  have hpos : 0 < descentDepth h'.slots child word := by
    cases word <;> simp [descentDepth]
  rw [he.depth_eq ho hl ht, hdepth]
  omega

/-- Below a child that was there, the descent is that from the child. -/
theorem Heap.Entered.tried_below (hslot : h.slots p i = some c) (hkept : h.Kept h₁)
    (hdepth : descentDepth h₁.slots child word = descentDepth h.slots c word)
    (hhung : h.NothingHung p (h.copiesBelow p (i :: word)) (i :: word) ↔
      h₁.NothingHung child (h₁.copiesBelow child word) word) :
    h.Tried n.level p (i :: word) result h' := by
  refine ⟨ht.wf, ht.tables.trans he.tables, (he.link ho hl ht.above).1,
    fun hearly => hkept.trans (ht.early (hhung.mp hearly)), fun hlate => ?_, ht.leaf⟩
  have hdeeper := ht.late fun hearly => hlate (hhung.mpr hearly)
  rw [he.depth_eq ho hl ht, descentDepth, hslot, Option.elim_some, ← hdepth]
  omega

end Entered

/-- A copied node and the nodes that are copied below it. -/
theorem Heap.Wf.nothingHung_copy {o : Object} (hw : h.Wf noPending) (hw' : h'.Wf noPending)
    (hcopies : h.Copies c h.next h') (ho : h.objects c = some o)
    (hsame : h'.slots h.next = h'.slots c) (hg : h.Grants 2)
    (halloc : h'.allocator = h.drawn.drawn.allocator) (word : List (Fin pageTableEntries)) :
    descentDepth h'.slots h.next word = descentDepth h.slots c word ∧
      (h.NothingHung c (descentDepth h.slots c word) word ↔
        h'.NothingHung h.next (h'.copiesBelow h.next word) word) := by
  have hne : c ≠ h.next := Nat.ne_of_lt (hw.objects_lt c o ho)
  obtain ⟨o', ho', _⟩ := hcopies c h.next o ho (Or.inr ⟨rfl, rfl⟩)
  have hdepth := descentDepth_congr (hw.words_eq hw' ho ho'
    (hw.viewAt_copy hcopies ho (Or.inr ⟨rfl, rfl⟩))) word
  refine ⟨hdepth, Heap.nothingHung_copied hg halloc hdepth ?_⟩
  rw [Heap.copiesBelow_of_shared (hw'.shared_of_copy hne hsame), hdepth]

theorem pageTableMapDescend_tried (a : Nat) (levels : List Nat) : ∀ (current : Nat) (h : Heap)
    (n : PageTableNode), h.Wf noPending → h.objects current = some (.node n) →
    innerLevels.drop n.level = levels →
    Comp.Ends (pageTableMapDescend a levels current) h
      (h.Tried n.level current (levels.map (addressLevelIndex a)) · ·) := by
  induction levels with
  | nil => exact fun current h n hw ho hl => Comp.Ends.pure (hw.tried_arrived ho hl)
  | cons level levels ih =>
    intro current h n hw ho hl
    obtain ⟨rfl, hlt, hrest⟩ := innerLevels_drop hl
    let i := addressLevelIndex a n.level
    let word := levels.map (addressLevelIndex a)
    -- however the child is entered, the descent goes on below it
    have hgo : ∀ child h₁, h.Entered n.level current i child h₁ →
        (∀ result h', h₁.Tried (n.level + 1) child word result h' →
          h.Tried n.level current (i :: word) result h') →
        Comp.Ends (pageTableMapDescend a levels child) h₁
          (h.Tried n.level current (i :: word) · ·) := by
      intro child h₁ he hback
      obtain ⟨m, hm, hml⟩ := he.node hlt
      exact (ih child h₁ m he.wf hm (by rw [hml]; exact hrest)).mono
        fun result h' ht => hback result h' (hml ▸ ht)
    have hrefused : ∀ {α : Type} {c : Comp Heap α} {f : α → Comp Heap Nat}, ¬ h.Grants 2 →
        h.Refuses c → Comp.Ends (c >>= f) h (h.Tried n.level current (i :: word) · ·) := by
      intro α c f hg hrefuses
      obtain ⟨allocator, hfailed⟩ := hrefuses.supplied
      exact Comp.Ends.of_failed (Comp.bind_failed hfailed) (hw.tried_refused hg _ _ _ allocator)
    rw [pageTableMapDescend, List.map_cons]
    refine Comp.Ends.next (readNode_run ho) ?_
    cases hc : n.entries (addressLevelIndex a n.level) with
    | none =>
      by_cases hg : h.Grants 2
      · have hbind := (pageTableNodeCreate_spec hw hg ho hc hlt).bindEnds fun child h₁ he =>
          hgo child h₁ he fun _ _ ht => he.tried_created ho hlt ht hc hg
        simpa only [Comp.bind_assoc, Comp.pure_bind] using hbind
      · exact hrefused hg (pageTableNodeCreate_refused hg _)
    | some c =>
      obtain ⟨m, hchild, _⟩ := hw.childNode ho hc hlt
      have hslot : h.slots current i = some c := by
        rw [Heap.slots_of_some ho]
        exact hc
      have hcount : h.count c = m.referenceCount := Heap.count_of_some hchild
      by_cases hone : m.referenceCount = 1
      · refine Comp.Ends.next (pageTableEnsurePrivateChild_sole ho hc hchild hone) ?_
        have he := hw.entered_sole ho hc hchild hone
        refine hgo c h he fun _ _ ht => ?_
        refine he.tried_below ho hlt ht hslot (Heap.Kept.refl h) rfl ?_
        rw [Heap.nothingHung_cons hslot, Heap.copiesBelow, hslot, Option.elim_some,
          if_pos (hcount.trans hone)]
      · by_cases hg : h.Grants 2
        · have hpos : 1 ≤ m.referenceCount := (hw.object c _ hchild).positive
          have hmany : 1 < m.referenceCount := by omega
          refine Comp.Ends.next (pageTableEnsurePrivateChild_copied hw ho hc hchild hmany hg) ?_
          have he := hw.entered_redirected ho hc hchild hmany
          have hcopies := hw.redirected_copies ho hc hchild
          obtain ⟨hdepth, hhung⟩ := hw.nothingHung_copy he.wf hcopies hchild
            (hw.redirected_slots ho hc hchild) hg rfl word
          refine hgo h.next _ he fun _ _ ht => ?_
          refine he.tried_below ho hlt ht hslot (hw.kept_copy hcopies) hdepth ?_
          rw [Heap.nothingHung_cons hslot, Heap.copiesBelow, hslot, Option.elim_some,
            if_neg (fun hc1 => hone (hcount.symm.trans hc1))]
          exact hhung
        · exact hrefused hg (pageTableEnsurePrivateChild_refused hg ho hc hchild hone)

/-! ## The root -/

/-- The table `t` has a private root that looks like the old one, and the
allocations for the copies are those that are left. -/
structure Heap.OpenedAlike (t : Nat) (r r' : PageTable) (h h' : Heap) : Prop where
  wf : h'.Wf noPending
  tables : h'.tables = Function.update h.tables t (some r')
  kept : h.Kept h'
  view : ∀ word, h'.viewAt r'.root word = h.viewAt r.root word
  root : ∃ m, h'.objects r'.root = some (.node m) ∧ m.level = 0
  hung : ∀ word, h.NothingHung r.root (h.copies r.root word) word ↔
    h'.NothingHung r'.root (h'.copiesBelow r'.root word) word

theorem pageTableEnsurePrivateRoot_alike (hw : h.Wf noPending) (ht : h.tables t = some r) :
    (∃ r' h', pageTableEnsurePrivateRoot t h = .ok () h' ∧ h.OpenedAlike t r r' h') ∨
      ¬ h.Grants 2 ∧ ∃ allocator, pageTableEnsurePrivateRoot t h =
        .failed (h.supplied allocator) := by
  obtain ⟨m, hroot, hlevel⟩ := hw.root_node ht
  have hcount : h.count r.root = m.referenceCount := Heap.count_of_some hroot
  by_cases hone : m.referenceCount = 1
  · refine Or.inl ⟨r, h, pageTableEnsurePrivateRoot_sole ht hroot hone, hw,
      (Function.update_eq_self_iff.mpr ht.symm).symm, Heap.Kept.refl h, fun _ => rfl,
      ⟨m, hroot, hlevel⟩, fun word => ?_⟩
    rw [Heap.copies, if_pos (hcount.trans hone)]
  · by_cases hg : h.Grants 2
    · have hpos : 1 ≤ m.referenceCount := (hw.object _ _ hroot).positive
      have hmany : 1 < m.referenceCount := by omega
      have hw' := hw.reopened ht hroot hmany
      have hcopies := hw.reopened_copies ht hroot
      refine Or.inl ⟨⟨h.next⟩, _, pageTableEnsurePrivateRoot_copied hw ht hroot hmany hg, hw', rfl,
        hw.kept_copy hcopies, hw.viewAt_copy hcopies hroot (Or.inr ⟨rfl, rfl⟩),
        ⟨m.copy, hw.reopened_next ht, hlevel⟩, fun word => ?_⟩
      rw [Heap.copies, if_neg fun hc1 => hone (hcount.symm.trans hc1)]
      exact (hw.nothingHung_copy hw' hcopies hroot (hw.reopened_slots ht) hg rfl word).2
    · exact Or.inr ⟨hg, (pageTableEnsurePrivateRoot_refused hg ht hroot hone).supplied⟩

/-! ## The whole call -/

/-- What a call that fails leaves. -/
structure Heap.MapFailed (t : Nat) (r : PageTable) (word : List (Fin pageTableEntries))
    (h h' : Heap) : Prop where
  wf : h'.Wf noPending
  early : h.NothingHung r.root (h.copies r.root word) word → h.SameTrees h'
  late : ¬ h.NothingHung r.root (h.copies r.root word) word → ∃ r', h'.tables t = some r' ∧
    descentDepth h.slots r.root word < descentDepth h'.slots r'.root word

theorem Heap.SameTrees.refl (h : Heap) : h.SameTrees h := by
  refine ⟨fun _ => rfl, fun t r r' hr hr' word => ?_⟩
  rw [hr] at hr'
  cases hr'
  rfl

theorem Heap.MapFailed.supplied (hf : h.MapFailed t r word h') (allocator : Allocator) :
    h.MapFailed t r word (h'.supplied allocator) :=
  ⟨hf.wf.supplied allocator, fun hearly => ⟨(hf.early hearly).live, (hf.early hearly).view⟩, hf.late⟩

theorem Heap.OpenedAlike.failed {r' : PageTable} {h₁ : Heap} {result : Option Nat}
    (hw : h.Wf noPending) (ht : h.tables t = some r) (hopen : h.OpenedAlike t r r' h₁)
    (htried : h₁.Tried 0 r'.root word result h') : h.MapFailed t r word h' := by
  have htables : h'.tables = Function.update h.tables t (some r') :=
    htried.tables.trans hopen.tables
  have ht' : h'.tables t = some r' := by rw [htables, Function.update_self]
  obtain ⟨m', hm', _⟩ := hopen.root
  obtain ⟨m, hm, _⟩ := hw.root_node ht
  refine ⟨htried.wf, fun hearly => ?_, fun hlate => ⟨r', ht', ?_⟩⟩
  · have hkept := htried.early ((hopen.hung word).mp hearly)
    refine ⟨fun t₁ => ?_, fun t₁ r₁ r₂ hr₁ hr₂ w => ?_⟩
    · rw [htables]
      by_cases heq : t₁ = t
      · simp [heq, ht]
      · rw [Function.update_of_ne heq]
    · rw [htables] at hr₂
      by_cases heq : t₁ = t
      · subst heq
        rw [Function.update_self] at hr₂
        rw [ht] at hr₁
        cases hr₁
        cases hr₂
        rw [hkept _ _ hm' w, hopen.view]
      · rw [Function.update_of_ne heq, hr₁] at hr₂
        cases hr₂
        obtain ⟨m₁, hm₁, _⟩ := hw.root_node hr₁
        exact (hopen.kept.trans hkept) _ _ hm₁ w
  · have hdeeper := htried.late fun hearly => hlate ((hopen.hung word).mpr hearly)
    rwa [descentDepth_congr (hw.words_eq hopen.wf hm hm' hopen.view)] at hdeeper

theorem pageTableEntryCreate_ends (frame : Nat) :
    Comp.Ends (pageTableEntryCreate frame) h fun result h' =>
      (∀ entry, result = some entry → ∀ q o, h.objects q = some o → q < h.next →
        h'.objects q = some o) ∧
      (result = none → ∃ allocator, h' = h.supplied allocator) := by
  rw [pageTableEntryCreate]
  by_cases hg : h.Grants 1
  · refine Comp.Ends.next (allocate_granted hg) (Comp.Ends.of_ok rfl
      ⟨fun entry _ q o ho hq => ?_, fun hnone => by cases hnone⟩)
    exact (Function.update_of_ne (Nat.ne_of_lt hq) _ _).trans ho
  · exact Comp.Ends.of_failed (Comp.bind_failed (allocate_refused hg))
      ⟨fun entry hentry => (by cases hentry), fun _ => ⟨_, rfl⟩⟩

theorem pageTablePrivateEntry_ends (hw : h.Wf noPending) (ho : h.objects p = some (.node n))
    (hc : n.entries i = some c) (hl : n.level = pageTableLevels - 1) :
    Comp.Ends (pageTablePrivateEntry p i c) h fun result h' =>
      (∀ entry, result = some entry → ∃ e, h'.objects entry = some (.entry e)) ∧
      (result = none → ∃ allocator, h' = h.supplied allocator) := by
  rcases pageTablePrivateEntry_cases hw ho hc hl with ⟨_, hrefused⟩ | hreturns
  · obtain ⟨allocator, hrun⟩ := hrefused.supplied
    exact Comp.Ends.of_failed hrun
      ⟨fun entry hentry => (by cases hentry), fun _ => ⟨allocator, rfl⟩⟩
  · refine hreturns.ends fun entry h' he => ⟨fun q hq => ?_, fun hnone => by cases hnone⟩
    cases hq
    exact he.entry hl

/-- A call on a live table returns; and if it fails, it has failed as said. -/
theorem pageTableMap_ends (hw : h.Wf noPending) (ht : h.tables t = some r) (a frame : Nat) :
    Comp.Ends (pageTableMap t a frame) h fun result h' =>
      result = none → h.MapFailed t r (innerIndices a) h' := by
  rw [pageTableMap]
  rcases pageTableEnsurePrivateRoot_alike hw ht with ⟨r', h₁, hrun, hopen⟩ | ⟨hg, allocator, hrun⟩
  · have ht' : h₁.tables t = some r' := by rw [hopen.tables, Function.update_self]
    obtain ⟨m, hm, hlevel⟩ := hopen.root
    refine Comp.Ends.next hrun (Comp.Ends.next (readTable_run ht') ?_)
    have hdescend := pageTableMapDescend_tried a innerLevels r'.root h₁ m hopen.wf hm
      (by rw [hlevel]; rfl)
    rw [hlevel] at hdescend
    refine hdescend.bind (fun leaf h₂ htried => ?_) fun h₂ htried _ => hopen.failed hw ht htried
    have hfailed := hopen.failed hw ht htried
    obtain ⟨k, hk, hkl⟩ := htried.leaf leaf rfl
    refine Comp.Ends.next (readNode_run hk) ?_
    cases hc : k.entries (addressLevelIndex a (pageTableLevels - 1)) with
    | none =>
      refine (pageTableEntryCreate_ends frame).bind (fun entry h₃ hend => ?_) fun h₃ hend _ => ?_
      · have hk₃ := hend.1 entry rfl leaf _ hk (htried.wf.objects_lt leaf _ hk)
        exact Comp.Ends.of_ok (modifyNode_run _ hk₃) fun hnone => by cases hnone
      · obtain ⟨allocator, rfl⟩ := hend.2 rfl
        exact hfailed.supplied allocator
    | some old =>
      refine (pageTablePrivateEntry_ends htried.wf hk hc hkl).bind (fun entry h₃ hend => ?_)
        fun h₃ hend _ => ?_
      · obtain ⟨e, he⟩ := hend.1 entry rfl
        exact Comp.Ends.of_ok (modifyEntry_run _ he) fun hnone => by cases hnone
      · obtain ⟨allocator, rfl⟩ := hend.2 rfl
        exact hfailed.supplied allocator
  · refine Comp.Ends.of_failed (Comp.bind_failed hrun) fun _ => ⟨hw.supplied allocator, fun _ => ?_,
      fun hlate => absurd (Heap.nothingHung_refused hg _ _ _) hlate⟩
    exact ⟨(Heap.SameTrees.refl h).live, (Heap.SameTrees.refl h).view⟩

end VmSim
