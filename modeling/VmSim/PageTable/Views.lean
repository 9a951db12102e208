/-
VmSim.PageTable.Views — what the walks through a table can see.

A walk sees which slots are in use and what the entries say, but neither
the names of the objects nor their reference counts. `Heap.viewAt h p word`
is what the slots `word` lead to from `p`. Lookups, their levels, the node
count and the absence of empty nodes depend on the views from the roots
only (`Heap.SameTrees.undisturbed`, `Heap.SameTrees.full`), and no view
changes when an object is copied (`Heap.Wf.viewAt_copy`).
-/
import VmSim.PageTable.Prefixes
import VmSim.PageTable.References

namespace VmSim

open Lib

/-! ## Views -/

/-- An entry without its reference count. -/
def PageTableEntry.erased (entry : PageTableEntry) : PageTableEntry :=
  { entry with referenceCount := 0 }

/-- What a walk sees of an object: that it is a node, or what the entry
says. -/
def Object.face : Object → Option PageTableEntry
  | .node _ => none
  | .entry e => some e.erased

def Heap.face (h : Heap) (p : Nat) : Option (Option PageTableEntry) :=
  (h.objects p).map Object.face

def Heap.viewAt (h : Heap) (p : Nat) (word : List (Fin pageTableEntries)) :
    Option (Option PageTableEntry) :=
  labelAt h.slots h.face p word

variable {h h' : Heap} {p q c t : Nat} {o : Object} {n : PageTableNode} {e : PageTableEntry}
  {i : Fin pageTableEntries} {r : PageTable} {word : List (Fin pageTableEntries)}

@[simp] theorem Object.face_setCount (object : Object) (count : Nat) :
    (object.setCount count).face = object.face := by cases object <;> rfl

theorem Heap.face_of_some (ho : h.objects p = some o) : h.face p = some o.face := by
  simp [Heap.face, ho]

theorem Heap.viewAt_nil (h : Heap) (p : Nat) : h.viewAt p [] = h.face p := rfl

theorem Heap.viewAt_cons (h : Heap) (p : Nat) (i : Fin pageTableEntries)
    (word : List (Fin pageTableEntries)) :
    h.viewAt p (i :: word) = (h.slots p i).bind fun c => h.viewAt c word :=
  labelAt_cons _ _ p i word

/-- A view shows something where a descent leads. -/
theorem Heap.Wf.viewAt_isSome (hw : h.Wf noPending) (ho : h.objects p = some o)
    (word : List (Fin pageTableEntries)) :
    (h.viewAt p word).isSome = (descend h.slots p word).isSome := by
  rw [Heap.viewAt, labelAt]
  cases hd : descend h.slots p word with
  | none => rfl
  | some q =>
    obtain ⟨oq, hoq, _⟩ := hw.descend_rank ho hd
    rw [Option.bind_some, Heap.face_of_some hoq]
    rfl

/-- Objects that look alike have the same words. -/
theorem Heap.Wf.words_eq {o' : Object} (hw : h.Wf noPending) (hw' : h'.Wf noPending)
    (ho : h.objects p = some o) (ho' : h'.objects q = some o')
    (hview : ∀ word, h'.viewAt q word = h.viewAt p word) (word : List (Fin pageTableEntries)) :
    (descend h'.slots q word).isSome = (descend h.slots p word).isSome := by
  rw [← hw.viewAt_isSome ho, ← hw'.viewAt_isSome ho', hview]

/-! ## Copies -/

/-- The live objects are still there, and look the same from above. -/
def Heap.Kept (h h' : Heap) : Prop :=
  ∀ p o, h.objects p = some o → ∀ word, h'.viewAt p word = h.viewAt p word

theorem Heap.Kept.refl (h : Heap) : h.Kept h := fun _ _ _ _ => rfl

theorem Heap.Kept.live (hk : h.Kept h') (ho : h.objects p = some o) :
    ∃ o', h'.objects p = some o' := by
  have hface := hk p o ho []
  rw [Heap.viewAt_nil, Heap.viewAt_nil, Heap.face_of_some ho] at hface
  cases ho' : h'.objects p with
  | none => simp [Heap.face, ho'] at hface
  | some o' => exact ⟨o', rfl⟩

theorem Heap.Kept.trans {h'' : Heap} (hk : h.Kept h') (hk' : h'.Kept h'') : h.Kept h'' := by
  intro p o ho word
  obtain ⟨o', ho'⟩ := hk.live ho
  rw [hk' p o' ho' word, hk p o ho word]

/-- Every live object still looks the same, except that slots that held
`c` may hold its copy `q`. -/
def Heap.Copies (h : Heap) (c q : Nat) (h' : Heap) : Prop :=
  ∀ x y o, h.objects x = some o → (y = x ∨ x = c ∧ y = q) → ∃ o', h'.objects y = some o' ∧
    o'.face = o.face ∧
    ∀ j, o'.slots j = o.slots j ∨ (o.slots j = some c ∧ o'.slots j = some q)

/-- An object and its copy look alike, and everything else looks as
before. -/
theorem Heap.Wf.viewAt_copy (hw : h.Wf noPending) (hcopies : h.Copies c q h') {x y : Nat}
    (ho : h.objects x = some o) (hxy : y = x ∨ x = c ∧ y = q)
    (word : List (Fin pageTableEntries)) : h'.viewAt y word = h.viewAt x word := by
  refine labelAt_congr (fun x y => (∃ o, h.objects x = some o) ∧ (y = x ∨ x = c ∧ y = q))
    (fun x y hR => ?_) (fun x y j hR => ?_) ⟨⟨o, ho⟩, hxy⟩ word
  · obtain ⟨⟨o, ho⟩, hxy⟩ := hR
    obtain ⟨o', ho', hface, _⟩ := hcopies x y o ho hxy
    rw [Heap.face_of_some ho, Heap.face_of_some ho', hface]
  · obtain ⟨⟨o, ho⟩, hxy⟩ := hR
    obtain ⟨o', ho', _, hslots⟩ := hcopies x y o ho hxy
    have hlive : ∀ d, o.slots j = some d → ∃ od, h.objects d = some od := fun d hd =>
      hw.target (by rw [Heap.slots_of_some ho]; exact hd) (Int.le_refl 0)
    rw [Heap.slots_of_some ho, Heap.slots_of_some ho']
    rcases hslots j with hsame | ⟨hc, hq⟩
    · rw [hsame]
      cases hd : o.slots j with
      | none => exact .none
      | some d => exact .some ⟨hlive d hd, Or.inl rfl⟩
    · rw [hc, hq]
      exact .some ⟨hlive c hc, Or.inr ⟨rfl, rfl⟩⟩

theorem Heap.Wf.kept_copy (hw : h.Wf noPending) (hcopies : h.Copies c q h') : h.Kept h' :=
  fun _ _ ho => hw.viewAt_copy hcopies ho (Or.inl rfl)

/-! ## Privatisation -/

/-- A clone leaves every object as it was, up to its count. -/
theorem Heap.Wf.cloned_live (hw : h.Wf noPending) (n : PageTableNode) {x : Nat}
    (ho : h.objects x = some o) : ∃ k, (h.cloned n).objects x = some (o.setCount k) := by
  refine ⟨o.referenceCount + outCount n.entries x, ?_⟩
  rw [Heap.objects_cloned h n (Nat.ne_of_lt (hw.objects_lt x o ho)), ho]
  rfl

section Privatised

variable {m : PageTableNode} (hw : h.Wf noPending)

include hw

theorem Heap.Wf.redirected_copies (ho : h.objects p = some (.node n)) (hc : n.entries i = some c)
    (hchild : h.objects c = some (.node m)) : h.Copies c h.next (h.redirected p n i c m) := by
  obtain ⟨hcopy, hparent⟩ := hw.redirected_objects ho hc hchild
  have hne := hw.ne_of_child ho hc
  intro x y o hx hxy
  rcases hxy with rfl | ⟨rfl, rfl⟩
  · by_cases hyp : y = p
    · subst hyp
      rw [ho] at hx
      cases hx
      refine ⟨_, hparent, rfl, fun j => ?_⟩
      by_cases hji : j = i
      · subst hji
        exact Or.inr ⟨hc, by simp [Object.slots, PageTableNode.setSlot]⟩
      · exact Or.inl (by simp [Object.slots, PageTableNode.setSlot, hji])
    · by_cases hyc : y = c
      · subst hyc
        rw [hchild] at hx
        cases hx
        exact ⟨_, Heap.setObject_self _ _ _, Object.face_setCount _ _, fun j => Or.inl rfl⟩
      · obtain ⟨k, hk⟩ := hw.cloned_live m hx
        refine ⟨o.setCount k, ?_, Object.face_setCount _ _, fun j => Or.inl (by simp)⟩
        rw [Heap.redirected, Heap.setObject_ne _ _ hyc, Heap.setObject_ne _ _ hyp, hk]
  · rw [hchild] at hx
    cases hx
    exact ⟨_, hcopy, rfl, fun j => Or.inl rfl⟩

theorem Heap.Wf.redirected_slots (ho : h.objects p = some (.node n)) (hc : n.entries i = some c)
    (hchild : h.objects c = some (.node m)) :
    (h.redirected p n i c m).slots h.next = (h.redirected p n i c m).slots c := by
  have hsource : (h.redirected p n i c m).objects c =
      some (Object.setCount (m.referenceCount - 1) (.node m)) := Heap.setObject_self _ _ _
  rw [Heap.slots_of_some (hw.redirected_objects ho hc hchild).1, Heap.slots_of_some hsource]
  rfl

theorem Heap.Wf.reopened_slots (ht : h.tables t = some r) :
    (h.reopened t r.root m).slots h.next = (h.reopened t r.root m).slots r.root := by
  have hsource : (h.reopened t r.root m).objects r.root =
      some (Object.setCount (m.referenceCount - 1) (.node m)) := Heap.setObject_self _ _ _
  rw [Heap.slots_of_some (hw.reopened_next ht), Heap.slots_of_some hsource]
  rfl

theorem Heap.Wf.reopened_copies (ht : h.tables t = some r)
    (hroot : h.objects r.root = some (.node m)) :
    h.Copies r.root h.next (h.reopened t r.root m) := by
  intro x y o hx hxy
  rcases hxy with rfl | ⟨rfl, rfl⟩
  · by_cases hyr : y = r.root
    · subst hyr
      rw [hroot] at hx
      cases hx
      exact ⟨_, Heap.setObject_self _ _ _, Object.face_setCount _ _, fun j => Or.inl rfl⟩
    · obtain ⟨k, hk⟩ := hw.cloned_live m hx
      refine ⟨o.setCount k, ?_, Object.face_setCount _ _, fun j => Or.inl (by simp)⟩
      rw [Heap.reopened, Heap.setObject_ne _ _ hyr]
      exact hk
  · rw [hroot] at hx
    cases hx
    exact ⟨_, hw.reopened_next ht, rfl, fun j => Or.inl rfl⟩

end Privatised

/-! ## Tables that look alike -/

/-- The same tables are live, and every one looks the same from its root. -/
structure Heap.SameTrees (h h' : Heap) : Prop where
  live : ∀ t, (h'.tables t).isSome = (h.tables t).isSome
  view : ∀ t r r', h.tables t = some r → h'.tables t = some r' →
    ∀ word, h'.viewAt r'.root word = h.viewAt r.root word

theorem Heap.SameTrees.symm (hs : h.SameTrees h') : h'.SameTrees h :=
  ⟨fun t => (hs.live t).symm, fun t r r' hr hr' word => (hs.view t r' r hr' hr word).symm⟩

/-- What the functions that read the tables can tell of a heap is the same
in another: the tables themselves, and for every table the entry and the
levels that a lookup of any address finds, and the number of nodes. -/
structure Heap.Undisturbed (h h' : Heap) : Prop where
  live : ∀ t, (h'.tables t).isSome = (h.tables t).isSome
  lookup : ∀ t r, h.tables t = some r → ∀ a, ∃ entry entry' levels,
    pageTableLookupWithLevels t a h = .ok (entry, levels) h ∧
    pageTableLookupWithLevels t a h' = .ok (entry', levels) h' ∧
    entry'.map PageTableEntry.erased = entry.map PageTableEntry.erased
  nodeCount : ∀ t r, h.tables t = some r → ∃ count,
    pageTableNodeCount t h = .ok count h ∧ pageTableNodeCount t h' = .ok count h'

/-- The indices that a walk takes before the leaf node. -/
def innerIndices (address : Nat) : List (Fin pageTableEntries) :=
  innerLevels.map (addressLevelIndex address)

/-- A walk finds the entry that is in view. -/
theorem pageTableWalk_view (a : Nat) (hw : h.Wf noPending) (levels : List Nat) :
    ∀ current visited n, h.objects current = some (.node n) → innerLevels.drop n.level = levels →
      ∃ entry, pageTableWalk a levels current visited h =
          .ok (entry, visited + descentDepth h.slots current (levels.map (addressLevelIndex a))) h ∧
        entry.map PageTableEntry.erased =
          (h.viewAt current (levels.map (addressLevelIndex a) ++
            [addressLevelIndex a (pageTableLevels - 1)])).join := by
  induction levels with
  | nil =>
    intro current visited n ho hl
    have hslots := Heap.slots_of_some ho
    rw [pageTableWalk, Comp.bind_ok (readNode_run ho), List.map_nil, List.nil_append,
      Heap.viewAt_cons, hslots, Object.slots]
    cases hc : n.entries (addressLevelIndex a (pageTableLevels - 1)) with
    | none => exact ⟨none, rfl, rfl⟩
    | some c =>
      have hlast : n.level = pageTableLevels - 1 := by
        have hlevel := ((hw.object _ _ ho).node n rfl).1
        have hge := innerLevels_drop_nil hl
        simp only [pageTableLevels] at *
        omega
      obtain ⟨e, he⟩ := (hw.child_kind ho hc).2.2 hlast
      have hpresent := (hw.object c _ he).entry e rfl
      refine ⟨some e, ?_, ?_⟩
      · simp only [Comp.bind_ok (readEntry_run he), hpresent]
        rfl
      · rw [Option.bind_some, Heap.viewAt_nil, Heap.face_of_some he]
        rfl
  | cons level levels ih =>
    intro current visited n ho hl
    obtain ⟨rfl, hlt, hrest⟩ := innerLevels_drop hl
    have hslots := Heap.slots_of_some ho
    rw [pageTableWalk, Comp.bind_ok (readNode_run ho), List.map_cons, List.cons_append,
      Heap.viewAt_cons, descentDepth, hslots, Object.slots]
    cases hc : n.entries (addressLevelIndex a n.level) with
    | none => exact ⟨none, rfl, rfl⟩
    | some c =>
      obtain ⟨m, hm, hml⟩ := (hw.child_kind ho hc).2.1 hlt
      obtain ⟨entry, hrun, hentry⟩ := ih c (visited + 1) m hm (by rw [hml]; exact hrest)
      refine ⟨entry, ?_, hentry⟩
      simp only [hrun, Option.elim_some, Nat.add_assoc]

theorem Heap.Wf.lookup_view (hw : h.Wf noPending) (ht : h.tables t = some r) (a : Nat) :
    ∃ entry, pageTableLookupWithLevels t a h =
        .ok (entry, descentDepth h.slots r.root (innerIndices a)) h ∧
      entry.map PageTableEntry.erased =
        (h.viewAt r.root (innerIndices a ++ [addressLevelIndex a (pageTableLevels - 1)])).join := by
  obtain ⟨n, hn, hlevel⟩ := hw.root_node ht
  obtain ⟨entry, hrun, hentry⟩ := pageTableWalk_view a hw innerLevels r.root 0 n hn
    (by rw [hlevel]; rfl)
  refine ⟨entry, ?_, hentry⟩
  rw [pageTableLookupWithLevels, Comp.bind_ok (readTable_run ht), hrun, Nat.zero_add]
  rfl

theorem Heap.Wf.nodeCount_run (hw : h.Wf noPending) (ht : h.tables t = some r) :
    pageTableNodeCount t h = .ok (treeSize h.slots (pageTableLevels - 1) r.root) h := by
  obtain ⟨n, hn, hlevel⟩ := hw.root_node ht
  rw [pageTableNodeCount, Comp.bind_ok (readTable_run ht),
    pageTableNodeCountRecursive_run hw pageTableLevels hn (Nat.le_add_left _ _), hlevel]
  rfl

theorem Heap.SameTrees.words (hs : h.SameTrees h') (hw : h.Wf noPending) (hw' : h'.Wf noPending)
    (ht : h.tables t = some r) : ∃ r', h'.tables t = some r' ∧
      (∀ word, h'.viewAt r'.root word = h.viewAt r.root word) ∧
      ∀ word, (descend h'.slots r'.root word).isSome = (descend h.slots r.root word).isSome := by
  have hlive := hs.live t
  rw [ht] at hlive
  obtain ⟨r', ht'⟩ := Option.isSome_iff_exists.mp hlive
  have hview := hs.view t r r' ht ht'
  obtain ⟨n, hn, _⟩ := hw.root_node ht
  obtain ⟨n', hn', _⟩ := hw'.root_node ht'
  exact ⟨r', ht', hview, hw.words_eq hw' hn hn' hview⟩

theorem Heap.SameTrees.undisturbed (hs : h.SameTrees h') (hw : h.Wf noPending)
    (hw' : h'.Wf noPending) : h.Undisturbed h' := by
  refine ⟨hs.live, fun t r ht a => ?_, fun t r ht => ?_⟩
  · obtain ⟨r', ht', hview, hwords⟩ := hs.words hw hw' ht
    obtain ⟨entry, hrun, hentry⟩ := hw.lookup_view ht a
    obtain ⟨entry', hrun', hentry'⟩ := hw'.lookup_view ht' a
    rw [descentDepth_congr hwords] at hrun'
    exact ⟨entry, entry', _, hrun, hrun', by rw [hentry', hview, hentry]⟩
  · obtain ⟨r', ht', _, hwords⟩ := hs.words hw hw' ht
    refine ⟨_, hw.nodeCount_run ht, ?_⟩
    rw [hw'.nodeCount_run ht', treeSize_congr hwords]

/-- An empty node below a root would be in view: a word that leads to it
cannot be continued. -/
theorem Heap.SameTrees.full (hs : h.SameTrees h') (hw : h.Wf noPending) (hw' : h'.Wf noPending)
    (hfull : h.Full) : h'.Full := by
  refine ⟨rfl, fun p n hn hpos => Or.inl ?_⟩
  obtain ⟨t, r', word, ht', hword⟩ := hw'.reachable hn
  obtain ⟨r, ht, _, hwords⟩ := hs.symm.words hw' hw ht'
  obtain ⟨root, hroot, hroot0⟩ := hw.root_node ht
  obtain ⟨root', hroot', hroot0'⟩ := hw'.root_node ht'
  -- the same word leads to a node of the same level in the other heap
  have hold := hwords word
  rw [hword] at hold
  obtain ⟨q, hq⟩ := Option.isSome_iff_exists.mp hold
  obtain ⟨oq, hoq, hrank⟩ := hw.descend_rank hroot hq
  obtain ⟨op, hop, hrank'⟩ := hw'.descend_rank hroot' hword
  rw [hn] at hop
  cases hop
  have hlt := ((hw'.object p _ hn).node n rfl).1
  have hlevels : oq.rank = n.level := by
    have hn' : (Object.node n).rank = n.level := rfl
    have h0 : (Object.node root).rank = 0 := hroot0
    have h0' : (Object.node root').rank = 0 := hroot0'
    omega
  obtain ⟨rest, hlen, hframe⟩ := hfull.continued hw hoq (by omega)
  cases rest with
  | nil =>
    rw [List.length_nil] at hlen
    omega
  | cons i rest =>
    have hmore : (descend h.slots r.root (word ++ [i])).isSome := by
      rw [descend_append, hq, Option.bind_some, descend]
      cases hc : h.slots q i with
      | some c => rfl
      | none =>
        rw [Heap.frameAt, hc] at hframe
        exact absurd rfl hframe
    rw [hwords, descend_append, hword, Option.bind_some, descend, Heap.slots_of_some hn] at hmore
    rw [((hw'.object p _ hn).node n rfl).2]
    intro hzero
    rw [Object.slots, filled_eq_zero.mp hzero i] at hmore
    cases hmore

end VmSim
