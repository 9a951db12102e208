/-
VmSim.PageTable.Unmapping — `page_table_unmap`: the descent with the
record of the nodes passed, the release of the entry, and the pruning of
the nodes that become empty.

`Heap.Climb leaf ancestors top` reads that record back: going up from the
leaf, every node is the only child pointer's target of the next one.
Pruning takes away nodes that answer nothing (`pageTablePrune_spec`), so
it is as invisible as sharing is.
-/
import VmSim.PageTable.Mapping

namespace VmSim

open Lib

variable {h h' : Heap} {pend : Nat → Int} {p q c t : Nat} {o : Object} {n : PageTableNode}
  {e : PageTableEntry} {i : Fin pageTableEntries} {r : PageTable}

/-! ## The descent -/

def Heap.Climb (h : Heap) : Nat → List (Nat × Fin pageTableEntries) → Nat → Prop
  | c, [], top => c = top
  | c, (p, i) :: ancestors, top => h.slots p i = some c ∧ h.count c = 1 ∧ h.Climb p ancestors top

theorem Heap.Climb.snoc (hs : h.slots p i = some q) (hc : h.count q = 1) :
    ∀ (ancestors : List (Nat × Fin pageTableEntries)) (c : Nat), h.Climb c ancestors q →
      h.Climb c (ancestors ++ [(p, i)]) p
  | [], c, hclimb => by
      cases hclimb
      exact ⟨hs, hc, rfl⟩
  | (_, _) :: ancestors, _, ⟨hs', hc', hclimb⟩ => ⟨hs', hc', Climb.snoc hs hc ancestors _ hclimb⟩

/-- The slots on a path that answers are there. -/
theorem Heap.slot_of_frameAt {path : List (Fin pageTableEntries)}
    (hf : h.frameAt p (i :: path) ≠ none) :
    ∃ c, h.slots p i = some c ∧ h.frameAt c path ≠ none := by
  simp only [Heap.frameAt] at hf
  cases hs : h.slots p i with
  | none => rw [hs] at hf; exact absurd rfl hf
  | some c => rw [hs] at hf; exact ⟨c, rfl, hf⟩

theorem pageTableUnmapDescend_manages (a : Nat) : ∀ (levels : List Nat) (current : Nat)
    (ancestors : List (Nat × Fin pageTableEntries)) (h : Heap) (n : PageTableNode),
    h.Wf noPending → h.objects current = some (.node n) →
    innerLevels.drop n.level = levels →
    h.frameAt current (levels.map (addressLevelIndex a) ++ [addressLevelIndex a 3]) ≠ none →
    h.Manages (pageTableUnmapDescend a levels current ancestors) fun result h' =>
      h.Descended n.level current (levels.map (addressLevelIndex a)) result.1 h' ∧
        ∃ climbed, result.2 = climbed ++ ancestors ∧ h'.Climb result.1 climbed current := by
  intro levels
  induction levels with
  | nil =>
    intro current ancestors h n hw ho hl _
    have hlevel := ((hw.object _ _ ho).node n rfl).1
    have hlast : n.level = pageTableLevels - 1 := by
      have := innerLevels_drop_nil hl
      simp only [pageTableLevels] at *
      omega
    exact .of_returns (Comp.Returns.of_eq rfl
      ⟨Heap.Descended.arrived hw ho hlast, [], rfl, rfl⟩)
  | cons level levels ih =>
    intro current ancestors h n hw ho hl hf
    obtain ⟨rfl, hlt, hrest⟩ := innerLevels_drop hl
    obtain ⟨c, hs, hfc⟩ := Heap.slot_of_frameAt hf
    have hc : n.entries (addressLevelIndex a n.level) = some c := by
      rwa [Heap.slots_of_some ho] at hs
    rw [pageTableUnmapDescend]
    refine (pageTableEnsurePrivateChild_manages hw ho hc hlt).bind fun child h₁ he =>
      ⟨he.framed, ?_⟩
    obtain ⟨m, hm, hml⟩ := he.node hlt
    have hf₁ : h₁.frameAt child (levels.map (addressLevelIndex a) ++ [addressLevelIndex a 3]) ≠
        none := by
      have hsame := he.grown.frameAt current (hw.objects_lt _ _ ho)
        (addressLevelIndex a n.level :: (levels.map (addressLevelIndex a) ++ [addressLevelIndex a 3]))
      simp only [Heap.frameAt, he.slot, hs, Option.bind_some] at hsame
      rw [hsame]
      exact hfc
    refine (ih child _ h₁ m he.wf hm (by rw [hml]; exact hrest) hf₁).mono
      fun result h₂ hpost => ?_
    obtain ⟨hd, climbed, hres, hclimb⟩ := hpost
    obtain ⟨_, hslot, hcount⟩ := he.link ho hlt (hml ▸ hd.above)
    exact ⟨he.descended ho hlt (hml ▸ hd), climbed ++ [(current, addressLevelIndex a n.level)],
      by rw [hres, List.append_assoc]; rfl, Heap.Climb.snoc hslot hcount climbed _ hclimb⟩

/-! ## Pruning -/

/-- Nodes were taken away that no descent misses. -/
structure Heap.Pruned (h h' : Heap) : Prop where
  wf : h'.Wf noPending
  tables : h'.tables = h.tables
  nextTable : h'.nextTable = h.nextTable
  processes : h'.processes = h.processes
  nextProcess : h'.nextProcess = h.nextProcess
  allocator : h'.allocator = h.allocator
  frameAt : ∀ x o, h'.objects x = some o → ∀ path, h'.frameAt x path = h.frameAt x path
  live : ∀ x o', h'.objects x = some o' → ∃ o, h.objects x = some o

theorem Heap.Pruned.refl (hw : h.Wf noPending) : h.Pruned h :=
  ⟨hw, rfl, rfl, rfl, rfl, rfl, fun _ _ _ _ => rfl, fun _ o ho => ⟨o, ho⟩⟩

theorem Heap.Pruned.trans {h'' : Heap} (h₁ : h.Pruned h') (h₂ : h'.Pruned h'') : h.Pruned h'' := by
  refine ⟨h₂.wf, h₂.tables.trans h₁.tables, h₂.nextTable.trans h₁.nextTable,
    h₂.processes.trans h₁.processes, h₂.nextProcess.trans h₁.nextProcess,
    h₂.allocator.trans h₁.allocator, fun x o hx path => ?_, fun x o hx => ?_⟩
  · obtain ⟨o', ho'⟩ := h₂.live x o hx
    exact (h₂.frameAt x o hx path).trans (h₁.frameAt x o' ho' path)
  · obtain ⟨o', ho'⟩ := h₂.live x o hx
    exact h₁.live x o' ho'

theorem Heap.Pruned.frameOf (hp : h.Pruned h') (t page : Nat) :
    h'.frameOf t page = h.frameOf t page := by
  simp only [Heap.frameOf, hp.tables]
  cases ht : h.tables t with
  | none => rfl
  | some r =>
    obtain ⟨o, ho, _⟩ := hp.wf.rootTarget (by rw [hp.tables, ht]) (Int.le_refl 0)
    exact hp.frameAt r.root o ho _

/-- The slot of a parent after its child went. -/
def PageTableNode.unlink (node : PageTableNode) (index : Fin pageTableEntries) : PageTableNode :=
  { node.setSlot index none with activeEntries := node.activeEntries - 1 }

/-- A node whose slot is cleared leaves one reference to its child over. -/
theorem Heap.Wf.unlink (hw : h.Wf noPending) (ho : h.objects p = some (.node n))
    (hs : n.entries i = some c) : (h.setObject p (some (.node (n.unlink i)))).Wf
      fun q => noPending q + pointsTo (some c) q := by
  have hactive : n.activeEntries - 1 + 1 = n.activeEntries := by
    have hfilled := filled_update n.entries i none
    have hold := ((hw.object p _ ho).node n rfl).2
    simp only [hs, Option.isSome_some, Option.isSome_none, if_true, Bool.false_eq_true,
      if_false] at hfilled
    omega
  refine hw.setSlot ho (n.unlink i) rfl rfl rfl ?_ (fun d hd => by cases hd) fun q => ?_
  · simp only [hs, Option.isSome_some, Option.isSome_none, if_true, Bool.false_eq_true,
      if_false, PageTableNode.unlink]
    omega
  · rw [hs, pointsTo_none]
    omega

/-- Taking an empty node away from its parent. -/
theorem Heap.pruned_child {m : PageTableNode} (hw : h.Wf noPending)
    (ho : h.objects p = some (.node n)) (hs : h.slots p i = some c) (hone : h.count c = 1)
    (hc : h.objects c = some (.node m)) (hempty : m.activeEntries = 0) :
    h.Pruned ((h.setObject c none).setObject p (some (.node (n.unlink i)))) := by
  have hslot : n.entries i = some c := by rwa [Heap.slots_of_some ho] at hs
  have hrank := hw.rank p _ i c _ ho hslot hc
  have hne : p ≠ c := by
    rintro rfl
    rw [ho] at hc
    cases hc
    omega
  have hnone : ∀ j, m.entries j = none :=
    filled_eq_zero.mp (((hw.object c _ hc).node m rfl).2.symm.trans hempty)
  have hanswer : ∀ path, h.frameAt c path = none := by
    intro path
    cases path with
    | nil => simp [Heap.frameAt, hc, Object.frame]
    | cons j path => simp [Heap.frameAt, Heap.slots_of_some hc, Object.slots, hnone]
  have hw₁ := hw.unlink ho hslot
  have hc₁ : (h.setObject p (some (.node (n.unlink i)))).objects c = some (.node m) := by
    rw [Heap.setObject_ne _ _ (Ne.symm hne), hc]
  have hw₂ : ((h.setObject p (some (.node (n.unlink i)))).setObject c none).Wf noPending := by
    refine hw₁.free hc₁ ?_ fun q => ?_
    · rw [Heap.count_of_some hc] at hone
      exact hone
    · have hzero : outCount (Object.node m).slots q = 0 :=
        outCount_eq_zero fun j => by simp [Object.slots, hnone]
      rw [hzero, noPending]
      omega
  rw [Heap.setObject_comm _ _ _ (Ne.symm hne)]
  have hshrunk := Heap.shrunk_setObject none hc₁ fun o' ho' => by cases ho'
  refine ⟨hw₂, rfl, rfl, rfl, rfl, rfl, fun x o hx path => ?_, fun x o hx => ?_⟩
  · rw [hw₂.frameAt_of_body hshrunk.body hx path]
    exact Heap.frameAt_setSlot (n.unlink i) i none ho rfl
      (fun path => by rw [hslot, Option.bind_none, Option.bind_some, hanswer]) path x
  · obtain ⟨o', ho', _⟩ := hshrunk.body x o hx
    by_cases e : x = p
    · exact ⟨_, e ▸ ho⟩
    · rw [Heap.setObject_ne _ _ e] at ho'
      exact ⟨o', ho'⟩

theorem Heap.Climb.rank_lt (hw : h.Wf noPending) {top : Nat} :
    ∀ (ancestors : List (Nat × Fin pageTableEntries)) (c : Nat) (oc : Object),
      h.objects c = some oc → h.Climb c ancestors top →
      ∀ a ∈ ancestors, ∃ o, h.objects a.1 = some o ∧ o.rank < oc.rank
  | [], _, _, _, _, a, ha => absurd ha List.not_mem_nil
  | (p, i) :: ancestors, c, oc, hoc, ⟨hs, _, hclimb⟩, a, ha => by
      obtain ⟨op, hop, hs'⟩ := Heap.live_of_slot hs
      have hrank := hw.rank p op i c oc hop hs' hoc
      rcases List.mem_cons.mp ha with rfl | ha
      · exact ⟨op, hop, by omega⟩
      · obtain ⟨o, ho, hlt⟩ := Climb.rank_lt hw ancestors p op hop hclimb a ha
        exact ⟨o, ho, by omega⟩

theorem Heap.Climb.congr {top : Nat} :
    ∀ (ancestors : List (Nat × Fin pageTableEntries)) (c : Nat), h.Climb c ancestors top →
      h'.count c = h.count c → (∀ a ∈ ancestors, h'.objects a.1 = h.objects a.1) →
      h'.Climb c ancestors top
  | [], _, hclimb, _, _ => hclimb
  | (p, i) :: ancestors, c, ⟨hs, hc, hclimb⟩, hcount, hsame => by
      have hp := hsame (p, i) (List.mem_cons_self ..)
      refine ⟨?_, hcount.trans hc, Climb.congr ancestors p hclimb ?_
        fun a ha => hsame a (List.mem_cons_of_mem _ ha)⟩
      · simp only [Heap.slots, hp] at hs ⊢
        exact hs
      · simp only [Heap.count, hp]

theorem pageTablePrune_spec (top : Nat) : ∀ (ancestors : List (Nat × Fin pageTableEntries)) (c : Nat)
    (h : Heap) (m : PageTableNode), h.Wf noPending → h.objects c = some (.node m) →
    h.Climb c ancestors top →
    Comp.Returns (pageTablePrune c ancestors) h fun _ h' => h.Pruned h' := by
  intro ancestors
  induction ancestors with
  | nil =>
    intro c h m hw _ _
    exact Comp.Returns.of_eq rfl (Heap.Pruned.refl hw)
  | cons link ancestors ih =>
    obtain ⟨p, i⟩ := link
    intro c h m hw hc hclimb
    have hrank_lt := Heap.Climb.rank_lt hw _ c _ hc hclimb
    obtain ⟨hs, hone, hclimb⟩ := hclimb
    obtain ⟨op, hop, hs'⟩ := Heap.live_of_slot hs
    obtain ⟨n, rfl⟩ : ∃ n, op = .node n := by
      cases op with
      | node n => exact ⟨n, rfl⟩
      | entry e => cases hs'
    have hrank := hw.rank p _ i c _ hop hs' hc
    rw [pageTablePrune, Comp.Returns, Comp.bind_ok (readNode_run hc)]
    by_cases hempty : m.activeEntries = 0
    · rw [if_neg (not_not.mpr hempty)]
      have hne : p ≠ c := by
        rintro rfl
        rw [hc] at hop
        cases hop
        omega
      have hpruned := Heap.pruned_child hw hop hs hone hc hempty
      have hp₁ : (h.setObject c none).objects p = some (.node n) := by
        rw [Heap.setObject_ne _ _ hne, hop]
      rw [Comp.bind_ok (freeObject_run hc), Comp.bind_ok (modifyNode_run _ hp₁)]
      refine Comp.Returns.mono (ih p _ (n.unlink i) hpruned.wf (Heap.setObject_self _ p _) ?_)
        fun _ h' hp' => hpruned.trans hp'
      refine Heap.Climb.congr ancestors p hclimb ?_ fun a ha => ?_
      · rw [Heap.count_of_some (Heap.setObject_self _ p _), Heap.count_of_some hop]
        rfl
      · obtain ⟨oa, hoa, hlt⟩ := Heap.Climb.rank_lt hw ancestors p _ hop hclimb a ha
        have hap : a.1 ≠ p := by
          intro e
          rw [e, hop] at hoa
          cases hoa
          exact Nat.lt_irrefl _ hlt
        have hac : a.1 ≠ c := by
          intro e
          rw [e, hc] at hoa
          cases hoa
          omega
        rw [Heap.setObject_ne _ _ hap, Heap.setObject_ne _ _ hac]
    · rw [if_pos hempty]
      exact Comp.Returns.of_eq rfl (Heap.Pruned.refl hw)

/-! ## Unmap -/

/-- The entry released and its slot cleared. -/
theorem Heap.rebound_unlinked {path : List (Fin pageTableEntries)} {page : Nat}
    (hw : h.Wf noPending) (ht : h.tables t = some r) (hone : h.count r.root = 1)
    (hchain : h.Chain r.root path p) (hpath : path ++ [i] = keyPath page)
    (ho : h.objects p = some (.node n)) (hs : n.entries i = some c)
    (hc : h.objects c = some (.entry e)) :
    h.Rebound t page none
      ((h.setObject c e.dropped).setObject p (some (.node (n.unlink i)))) := by
  have hne : p ≠ c := by
    rintro rfl
    rw [ho] at hc
    cases hc
  rw [Heap.setObject_comm _ _ _ (Ne.symm hne)]
  have hw₁ := hw.unlink ho hs
  have hc₁ : (h.setObject p (some (.node (n.unlink i)))).objects c = some (.entry e) := by
    rw [Heap.setObject_ne _ _ (Ne.symm hne), hc]
  obtain ⟨hw₂, hshrunk⟩ := Heap.Wf.dropEntry hc₁ hw₁
  refine ⟨hw₂, rfl, rfl, rfl, rfl, fun _ => rfl, fun t' page' => ?_⟩
  have hframe : ((h.setObject p (some (.node (n.unlink i)))).setObject c e.dropped).frameOf t' page' =
      (h.setObject p (some (.node (n.unlink i)))).frameOf t' page' := by
    simp only [Heap.frameOf, hshrunk.tables]
    cases ht' : (h.setObject p (some (.node (n.unlink i)))).tables t' with
    | none => rfl
    | some r' =>
      obtain ⟨o', ho', _⟩ := hw₂.rootTarget (by rw [hshrunk.tables, ht']) (Int.le_refl 0)
      exact hw₂.frameAt_of_body hshrunk.body ho' _
  rw [hframe]
  refine (Heap.frameOf_leaf hw ht hone hchain hpath ho (by rfl)
    (fun x hx _ => by rw [Heap.setObject_ne _ _ hx])
    (Heap.slots_of_some (Heap.setObject_self _ p _)) t' page').trans ?_
  rfl

theorem Heap.Rebound.pruned {page : Nat} {frame : Option Nat} {h'' : Heap}
    (hr : h.Rebound t page frame h') (hp : h'.Pruned h'') : h.Rebound t page frame h'' :=
  ⟨hp.wf, hp.nextTable.trans hr.nextTable, hp.processes.trans hr.processes,
    hp.nextProcess.trans hr.nextProcess, by rw [hp.allocator, hr.plan],
    fun t' => by rw [hp.tables, hr.live], fun t' page' => by rw [hp.frameOf, hr.frameOf]⟩

/-- Unmapping an unbound page fails and changes nothing. -/
theorem pageTableUnmap_unbound (hw : h.Wf noPending) (ht : h.tables t = some r) {a : Nat}
    (hf : h.frameOf t (addressPageNumber a) = none) : pageTableUnmap t a h = .failed h := by
  obtain ⟨entry, hrun, hframe, _⟩ := pageTableLookup_run hw ht a
  rw [hf, Option.map_eq_none_iff] at hframe
  subst hframe
  rw [pageTableUnmap, Comp.bind_ok hrun]
  exact Comp.bind_failed (Comp.failIf_true h)

theorem pageTableUnmap_manages (hw : h.Wf noPending) (ht : h.tables t = some r)
    {a : Nat} (hf : h.frameOf t (addressPageNumber a) ≠ none) :
    h.Manages (pageTableUnmap t a) fun _ h' => h.Rebound t (addressPageNumber a) none h' := by
  obtain ⟨entry, hrun, hframe, _⟩ := pageTableLookup_run hw ht a
  have hsome : entry.isNone = false := by
    cases entry with
    | none => exact absurd hframe.symm hf
    | some e => rfl
  rw [pageTableUnmap]
  refine .read hrun ?_
  rw [hsome]
  refine .read (Comp.failIf_false h) ?_
  refine (pageTableEnsurePrivateRoot_manages hw ht).bind fun _ h₁ hopen => ⟨hopen.framed ht, ?_⟩
  obtain ⟨r', htables, hcount, ⟨m, hm, hml⟩, hroot⟩ := hopen.root
  have ht₁ : h₁.tables t = some r' := by rw [htables, Function.update_self]
  refine .read (readTable_run ht₁) ?_
  have hpath := levelIndices_eq a
  have hf₁ : h₁.frameAt r'.root (innerLevels.map (addressLevelIndex a) ++ [addressLevelIndex a 3]) ≠
      none := by
    rw [hroot]
    intro hnone
    refine hf ?_
    rw [Heap.frameOf, ht, Option.bind_some, ← hpath]
    exact hnone
  refine (pageTableUnmapDescend_manages a innerLevels r'.root [] h₁ m hopen.wf hm
    (by rw [hml]; rfl) hf₁).bind fun result h₂ hpost => ?_
  obtain ⟨leaf, ancestors⟩ := result
  obtain ⟨hd, climbed, hres, hclimb⟩ := hpost
  refine ⟨hd.grown.framed hd.tables, .of_returns ?_⟩
  have hres' : ancestors = climbed := by simpa using hres
  subst hres'
  have hat := hopen.atLeaf hw ht htables hcount hm hd
  obtain ⟨r₂, ht₂, hcount₂, hchain⟩ := hat.root
  obtain ⟨k, hk, hkl⟩ := hat.leaf
  obtain ⟨c, hs, e, hc⟩ : ∃ c, k.entries (addressLevelIndex a 3) = some c ∧
      ∃ e, h₂.objects c = some (.entry e) := by
    have hf₂ : h₂.frameAt leaf [addressLevelIndex a 3] ≠ none := by
      intro hnone
      refine hf ?_
      rw [← hat.frameOf, Heap.frameOf, ht₂, Option.bind_some, ← hpath, ← hnone,
        ← hchain.frameAt_append]
      rfl
    obtain ⟨c, hs, _⟩ := Heap.slot_of_frameAt hf₂
    rw [Heap.slots_of_some hk] at hs
    exact ⟨c, hs, hat.wf.childEntry hk hs hkl⟩
  have hne : leaf ≠ c := by
    rintro rfl
    rw [hk] at hc
    cases hc
  have hrebound := Heap.rebound_unlinked hat.wf ht₂ hcount₂ hchain hpath hk hs hc
  have hk₁ : (h₂.setObject c e.dropped).objects leaf = some (.node k) := by
    rw [Heap.setObject_ne _ _ hne, hk]
  have hs' : k.entries (addressLevelIndex a (pageTableLevels - 1)) = some c := hs
  dsimp only
  rw [Comp.Returns, Comp.bind_ok (readNode_run hk), hs', Comp.bind_ok (Comp.orFail_some c h₂),
    Comp.bind_ok (pageTableEntryRelease_run hc), Comp.bind_ok (modifyNode_run _ hk₁)]
  refine Comp.Returns.mono (pageTablePrune_spec r'.root ancestors leaf _
    (k.unlink (addressLevelIndex a 3)) hrebound.wf (Heap.setObject_self _ leaf _) ?_)
    fun _ h' hpruned => (Heap.Rebound.of_same hat.grown hat.live hat.frameOf hrebound).pruned hpruned
  refine Heap.Climb.congr ancestors leaf hclimb ?_ fun b hb => ?_
  · rw [Heap.count_of_some (Heap.setObject_self _ leaf _), Heap.count_of_some hk]
    rfl
  · obtain ⟨ob, hob, hlt⟩ := Heap.Climb.rank_lt hat.wf ancestors leaf _ hk hclimb b hb
    have hbl : b.1 ≠ leaf := by
      intro he
      rw [he, hk] at hob
      cases hob
      exact Nat.lt_irrefl _ hlt
    have hbc : b.1 ≠ c := by
      intro he
      rw [he, hc] at hob
      cases hob
      have hle : k.level < 4 := (hat.wf.object leaf _ hk).node k rfl |>.1
      have hlt' : (4 : Nat) < k.level := hlt
      omega
    rw [Heap.setObject_ne _ _ hbl, Heap.setObject_ne _ _ hbc]

theorem pageTableUnmap_spec (hw : h.Wf noPending) (hp : h.Plenty) (ht : h.tables t = some r)
    {a : Nat} (hf : h.frameOf t (addressPageNumber a) ≠ none) :
    Comp.Returns (pageTableUnmap t a) h fun _ h' => h.Rebound t (addressPageNumber a) none h' :=
  (pageTableUnmap_manages hw ht hf).returns hp

end VmSim
