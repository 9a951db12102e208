/-
VmSim.PageTable.Mapping — `page_table_map`, `page_table_unmap`,
`page_table_lookup` and the operations on whole tables, specified by what
they do to `Heap.frameOf`.

`Heap.Chain p path q` is a descent from `p` to `q` on which every object
below `p` has one reference only. An update at the end of such a chain is
seen from its start along this very path, and from nowhere else
(`Heap.frameAt_chain`); this is the whole point of privatisation.
-/
import VmSim.PageTable.Scarcity

namespace VmSim

open Lib

variable {h h' : Heap} {pend : Nat → Int} {p q c t : Nat} {o : Object} {n : PageTableNode}
  {e : PageTableEntry} {i : Fin pageTableEntries} {r : PageTable}

/-! ## Private chains -/

inductive Heap.Chain (h : Heap) : Nat → List (Fin pageTableEntries) → Nat → Prop where
  | refl (p : Nat) : Heap.Chain h p [] p
  | step {p c q : Nat} {i : Fin pageTableEntries} {path : List (Fin pageTableEntries)} :
      h.slots p i = some c → h.count c = 1 → Heap.Chain h c path q → Heap.Chain h p (i :: path) q

theorem Heap.Chain.snoc {path : List (Fin pageTableEntries)} (hchain : h.Chain p path q)
    (hs : h.slots q i = some c) (hc : h.count c = 1) : h.Chain p (path ++ [i]) c := by
  induction hchain with
  | refl p => exact .step hs hc (.refl c)
  | step hs' hc' _ ih => exact .step hs' hc' (ih hs)

/-- Below the start of a chain the ranks grow. -/
theorem Heap.Chain.rank_lt {path : List (Fin pageTableEntries)} (hw : h.Wf noPending)
    (hchain : h.Chain p path q) {op oq : Object} (hp : h.objects p = some op)
    (hq : h.objects q = some oq) : oq.rank = op.rank + path.length := by
  induction hchain generalizing op with
  | refl p =>
    rw [hp] at hq
    cases hq
    rfl
  | step hs _ _ ih =>
    obtain ⟨oc, hoc⟩ := hw.target hs (Int.le_refl 0)
    obtain ⟨op', hop', hs'⟩ := Heap.live_of_slot hs
    rw [hp] at hop'
    cases hop'
    have hr := hw.rank _ _ _ _ oc hp hs' hoc
    have hrest := ih hoc hq
    simp only [List.length_cons]
    omega

theorem Heap.frameAt_chain {path : List (Fin pageTableEntries)} (hw : h.Wf noPending)
    (hbody : ∀ x, x ≠ q → x < h.next →
      (h'.objects x).map (Object.setCount 0) = (h.objects x).map (Object.setCount 0))
    (hchain : h.Chain p path q) {op : Object} (hp : h.objects p = some op) :
    (∀ path' x ox, h.objects x = some ox → ox.rank = op.rank → x ≠ p →
      h'.frameAt x path' = h.frameAt x path') ∧
    ∀ path', h'.frameAt p path' =
      if path <+: path' then h'.frameAt q (path'.drop path.length) else h.frameAt p path' := by
  induction hchain generalizing op with
  | refl q =>
    refine ⟨fun path' x ox hx hr hne => ?_, fun path' => by simp⟩
    -- the objects at this rank and below, except the end of the chain, are closed under slots
    refine Heap.frameAt_congr (fun x => ∃ ox, h.objects x = some ox ∧ op.rank ≤ ox.rank ∧ x ≠ q)
      (fun y ⟨oy, hy, _, hyq⟩ => hbody y hyq (hw.objects_lt y oy hy)) (fun y j d hy hs => ?_)
      path' x ⟨ox, hx, hr.ge, hne⟩
    obtain ⟨oy, hoy, hry, _⟩ := hy
    obtain ⟨od, hod⟩ := hw.target hs (Int.le_refl 0)
    have hrank := hw.rank y oy j d od hoy (by rw [← Heap.slots_of_some hoy]; exact hs) hod
    refine ⟨od, hod, by omega, ?_⟩
    rintro rfl
    rw [hp] at hod
    cases hod
    omega
  | step hs hc hrest ih =>
    rename_i p c q i path
    obtain ⟨oc, hoc⟩ := hw.target hs (Int.le_refl 0)
    obtain ⟨op', hop', hs'⟩ := Heap.live_of_slot hs
    rw [hp] at hop'
    cases hop'
    have hrank := hw.rank p op i c oc hp hs' hoc
    obtain ⟨hside, hdown⟩ := ih hbody hoc
    have hsole := (hw.sole hc hs).1
    have hqrank : ∀ oq, h.objects q = some oq → op.rank < oq.rank := fun oq hoq => by
      have hr := hrest.rank_lt hw hoc hoq
      omega
    -- a node of this rank keeps its body, and its children other than `c` keep their descents
    have hnode : ∀ x ox, h.objects x = some ox → ox.rank = op.rank →
        (h'.objects x).map (Object.setCount 0) = (h.objects x).map (Object.setCount 0) := by
      intro x ox hx hr
      refine hbody x ?_ (hw.objects_lt x ox hx)
      rintro rfl
      have := hqrank ox hx
      omega
    have hchild : ∀ x ox j path', h.objects x = some ox → ox.rank = op.rank → (x, j) ≠ (p, i) →
        ((h'.slots x j).bind fun d => h'.frameAt d path') =
          (h.slots x j).bind fun d => h.frameAt d path' := by
      intro x ox j path' hx hr hne
      rw [Heap.slots_of_body (hnode x ox hx hr)]
      cases hd : h.slots x j with
      | none => rfl
      | some d =>
        obtain ⟨od, hod⟩ := hw.target hd (Int.le_refl 0)
        have hrd := hw.rank x ox j d od hx (by rw [← Heap.slots_of_some hx]; exact hd) hod
        refine hside path' d od hod (by omega) ?_
        rintro rfl
        obtain ⟨hxp, hji⟩ := hsole x j hd
        exact hne (by rw [hxp, hji])
    refine ⟨fun path' x ox hx hr hne => ?_, fun path' => ?_⟩
    · cases path' with
      | nil => exact Heap.frame_of_body (hnode x ox hx hr)
      | cons j path' =>
        exact hchild x ox j path' hx hr fun he => hne (congrArg Prod.fst he)
    · cases path' with
      | nil =>
        rw [if_neg (by simp)]
        exact Heap.frame_of_body (hnode p op hp rfl)
      | cons j path' =>
        by_cases hji : j = i
        · have hstep : h'.frameAt p (j :: path') = h'.frameAt c path' := by
            simp only [Heap.frameAt]
            rw [Heap.slots_of_body (hnode p op hp rfl), hji, hs]
            rfl
          have hold : h.frameAt p (j :: path') = h.frameAt c path' := by
            simp only [Heap.frameAt]
            rw [hji, hs]
            rfl
          rw [hstep, hold, hdown path', hji]
          simp only [List.cons_prefix_cons, true_and, List.length_cons, List.drop_succ_cons]
        · rw [if_neg fun hpre => hji (List.cons_prefix_cons.mp hpre).1.symm]
          exact hchild p op j path' hp rfl fun he => hji (congrArg Prod.snd he)

/-- An update at the end of a private chain from the root of `t` is seen
through `t` only, and only by the pages whose path starts that way. -/
theorem Heap.frameOf_chain {path : List (Fin pageTableEntries)} (hw : h.Wf noPending)
    (ht : h.tables t = some r) (hone : h.count r.root = 1) (hchain : h.Chain r.root path q)
    (htables : h'.tables = h.tables)
    (hbody : ∀ x, x ≠ q → x < h.next →
      (h'.objects x).map (Object.setCount 0) = (h.objects x).map (Object.setCount 0))
    (t' page : Nat) :
    h'.frameOf t' page =
      if t' = t ∧ path <+: keyPath page then h'.frameAt q ((keyPath page).drop path.length)
      else h.frameOf t' page := by
  obtain ⟨or, hor, hrank⟩ := hw.rootTarget ht (Int.le_refl 0)
  obtain ⟨hside, hdown⟩ := Heap.frameAt_chain hw hbody hchain hor
  simp only [Heap.frameOf, htables]
  by_cases e : t' = t
  · simp only [e, ht, Option.bind_some, true_and, hdown]
  · rw [if_neg fun he => e he.1]
    cases ht' : h.tables t' with
    | none => rfl
    | some r' =>
      obtain ⟨or', hor', hrank'⟩ := hw.rootTarget ht' (Int.le_refl 0)
      exact hside _ r'.root or' hor' (hrank'.trans hrank.symm)
        fun he => e ((hw.soleRoot hone ht).2 t' r' ht' he)

/-! ## Descents that privatise -/

theorem innerLevels_drop {l level : Nat} {levels : List Nat}
    (hl : innerLevels.drop l = level :: levels) :
    level = l ∧ l < pageTableLevels - 1 ∧ innerLevels.drop (l + 1) = levels := by
  match l, hl with
  | 0, hl => cases hl; exact ⟨rfl, by decide, rfl⟩
  | 1, hl => cases hl; exact ⟨rfl, by decide, rfl⟩
  | 2, hl => cases hl; exact ⟨rfl, by decide, rfl⟩
  | l + 3, hl => simp [innerLevels] at hl

theorem innerLevels_drop_nil {l : Nat} (hl : innerLevels.drop l = []) : 3 ≤ l := by
  simpa [innerLevels] using hl

/-- The state in which a descent has arrived at a private leaf node. -/
structure Heap.Descended (level current : Nat) (path : List (Fin pageTableEntries)) (leaf : Nat)
    (h h' : Heap) : Prop where
  wf : h'.Wf noPending
  grown : h.Grown h'
  tables : h'.tables = h.tables
  above : h.Above level current h'
  chain : h'.Chain current path leaf
  leaf : ∃ m, h'.objects leaf = some (.node m) ∧ m.level = pageTableLevels - 1

theorem Heap.Descended.arrived (hw : h.Wf noPending) (ho : h.objects p = some (.node n))
    (hl : n.level = pageTableLevels - 1) : h.Descended n.level p [] p h :=
  ⟨hw, Heap.Grown.refl h, rfl, Heap.Above.refl _ _ h, .refl p, n, ho, hl⟩

/-- What happens below a child does not touch the link to it. -/
theorem Heap.Entered.link {h'' : Heap} {child : Nat} (ho : h.objects p = some (.node n))
    (hl : n.level < pageTableLevels - 1) (he : h.Entered n.level p i child h')
    (ha : h'.Above (n.level + 1) child h'') :
    h.Above n.level p h'' ∧ h''.slots p i = some child ∧ h''.count child = 1 := by
  obtain ⟨m, hm, hml⟩ := he.node hl
  obtain ⟨n', hn', hnl, hnc⟩ := he.above.node n ho
  have hne : ∀ x o, h'.objects x = some o → o.rank ≤ n.level → x ≠ child := by
    rintro x o hx hr rfl
    rw [hm] at hx
    cases hx
    exact absurd hr (by change ¬ m.level ≤ n.level; omega)
  have hp' : h''.objects p = some (.node n') :=
    ha.same p _ hn' (by change n'.level ≤ n.level + 1; omega)
      (hne p _ hn' (by change n'.level ≤ n.level; omega))
  obtain ⟨m', hm', _, hmc⟩ := ha.node m hm
  refine ⟨⟨fun x o hx hr hxp => ?_, fun k hk => ?_⟩, ?_, ?_⟩
  · have hx' := he.above.same x o hx hr hxp
    exact ha.same x o hx' (by omega) (hne x o hx' hr)
  · rw [ho] at hk
    cases hk
    exact ⟨n', hp', hnl, hnc⟩
  · have hslot := he.slot
    rw [Heap.slots_of_some hn'] at hslot
    rw [Heap.slots_of_some hp']
    exact hslot
  · have hcount := he.count
    rw [Heap.count_of_some hm] at hcount
    rw [Heap.count_of_some hm']
    exact hmc.trans hcount

/-- One level down, then the rest of the way. -/
theorem Heap.Entered.descended {h'' : Heap} {child leaf : Nat}
    {path : List (Fin pageTableEntries)} (ho : h.objects p = some (.node n))
    (hl : n.level < pageTableLevels - 1)
    (he : h.Entered n.level p i child h') (hd : h'.Descended (n.level + 1) child path leaf h'') :
    h.Descended n.level p (i :: path) leaf h'' := by
  obtain ⟨habove, hslot, hcount⟩ := he.link ho hl hd.above
  exact ⟨hd.wf, he.grown.trans hd.grown, hd.tables.trans he.tables, habove,
    .step hslot hcount hd.chain, hd.leaf⟩

theorem pageTableMapDescend_manages (a : Nat) : ∀ (levels : List Nat) (current : Nat) (h : Heap)
    (n : PageTableNode), h.Wf noPending → h.objects current = some (.node n) →
    innerLevels.drop n.level = levels →
    h.Manages (pageTableMapDescend a levels current) fun leaf h' =>
      h.Descended n.level current (levels.map (addressLevelIndex a)) leaf h' := by
  intro levels
  induction levels with
  | nil =>
    intro current h n hw ho hl
    have hlevel := ((hw.object _ _ ho).node n rfl).1
    have hlast : n.level = pageTableLevels - 1 := by
      have := innerLevels_drop_nil hl
      simp only [pageTableLevels] at *
      omega
    exact .of_returns (Comp.Returns.of_eq rfl (Heap.Descended.arrived hw ho hlast))
  | cons level levels ih =>
    intro current h n hw ho hl
    obtain ⟨rfl, hlt, hrest⟩ := innerLevels_drop hl
    have hgo : ∀ child h₁, h.Entered n.level current (addressLevelIndex a n.level) child h₁ →
        h.Framed h₁ ∧ h₁.Manages (pageTableMapDescend a levels child) fun leaf h' =>
          h.Descended n.level current ((n.level :: levels).map (addressLevelIndex a)) leaf h' := by
      intro child h₁ he
      obtain ⟨m, hm, hml⟩ := he.node hlt
      exact ⟨he.framed, (ih child h₁ m he.wf hm (by rw [hml]; exact hrest)).mono
        fun leaf h' hd => he.descended ho hlt (hml ▸ hd)⟩
    rw [pageTableMapDescend]
    refine .read (readNode_run ho) ?_
    cases hc : n.entries (addressLevelIndex a n.level) with
    | none =>
      by_cases hg : h.Grants 2
      · have hbind := (Heap.Manages.of_returns (pageTableNodeCreate_spec hw hg ho hc hlt)).bind hgo
        simpa only [Comp.bind_assoc, Comp.pure_bind] using hbind
      · exact .of_refused ((pageTableNodeCreate_refused hg _).bind _) hw hg
    | some c => exact (pageTableEnsurePrivateChild_manages hw ho hc hlt).bind hgo

/-! ## Lookup -/

theorem pageTableWalk_run (a : Nat) (hw : h.Wf noPending) : ∀ (levels : List Nat)
    (current visited : Nat) (n : PageTableNode), h.objects current = some (.node n) →
    innerLevels.drop n.level = levels →
    ∃ entry visited', pageTableWalk a levels current visited h = .ok (entry, visited') h ∧
      entry.map (·.frameNumber) =
        h.frameAt current (levels.map (addressLevelIndex a) ++ [addressLevelIndex a 3]) ∧
      (∀ e, entry = some e → e.present = true) ∧
      visited < visited' ∧ visited' ≤ visited + 1 + levels.length := by
  intro levels
  induction levels with
  | nil =>
    intro current visited n ho hl
    have hslots := Heap.slots_of_some ho
    rw [pageTableWalk, Comp.bind_ok (readNode_run ho)]
    cases hc : n.entries (addressLevelIndex a (pageTableLevels - 1)) with
    | none =>
      refine ⟨none, visited + 1, rfl, ?_, (fun e he => by cases he), by omega, by omega⟩
      have hc' : h.slots current (addressLevelIndex a 3) = none := by rw [hslots]; exact hc
      simp [Heap.frameAt, hc']
    | some c =>
      have hc' : h.slots current (addressLevelIndex a 3) = some c := by rw [hslots]; exact hc
      have hlevel := ((hw.object _ _ ho).node n rfl).1
      obtain ⟨e, hoc⟩ := hw.childEntry ho hc
        (Nat.le_antisymm (Nat.le_of_lt_succ hlevel) (innerLevels_drop_nil hl))
      have hpresent := (hw.object c _ hoc).entry e rfl
      refine ⟨some e, visited + 1, ?_, ?_, fun e' he' => by cases he'; exact hpresent, by omega,
        by omega⟩
      · simp only
        rw [Comp.bind_ok (readEntry_run hoc), hpresent]
        rfl
      · simp [Heap.frameAt, hc', hoc, Object.frame, hpresent]
  | cons level levels ih =>
    intro current visited n ho hl
    obtain ⟨rfl, hlt, hrest⟩ := innerLevels_drop hl
    have hslots := Heap.slots_of_some ho
    rw [pageTableWalk, Comp.bind_ok (readNode_run ho)]
    cases hc : n.entries (addressLevelIndex a n.level) with
    | none =>
      refine ⟨none, visited + 1, rfl, ?_, (fun e he => by cases he), by omega, by omega⟩
      have hc' : h.slots current (addressLevelIndex a n.level) = none := by rw [hslots]; exact hc
      simp [Heap.frameAt, hc']
    | some c =>
      have hc' : h.slots current (addressLevelIndex a n.level) = some c := by rw [hslots]; exact hc
      obtain ⟨m, hoc, hml⟩ := hw.childNode ho hc hlt
      obtain ⟨entry, visited', hrun, hframe, hpresent, hlo, hhi⟩ :=
        ih c (visited + 1) m hoc (by rw [hml]; exact hrest)
      refine ⟨entry, visited', hrun, ?_, hpresent, by omega, by simp only [List.length_cons]; omega⟩
      rw [hframe]
      simp [Heap.frameAt, hc']

/-- A lookup finds the frame of the page, visits one to four nodes and
changes nothing. -/
theorem pageTableLookupWithLevels_run (hw : h.Wf noPending) (ht : h.tables t = some r) (a : Nat) :
    ∃ entry visited, pageTableLookupWithLevels t a h = .ok (entry, visited) h ∧
      entry.map (·.frameNumber) = h.frameOf t (addressPageNumber a) ∧
      (∀ e, entry = some e → e.present = true) ∧ 1 ≤ visited ∧ visited ≤ pageTableLevels := by
  obtain ⟨n, hroot, hlevel⟩ := hw.root_node ht
  obtain ⟨entry, visited, hrun, hframe, hpresent, hlo, hhi⟩ :=
    pageTableWalk_run a hw innerLevels r.root 0 n hroot (by rw [hlevel]; rfl)
  refine ⟨entry, visited, ?_, ?_, hpresent, hlo, hhi⟩
  · rw [pageTableLookupWithLevels, Comp.bind_ok (readTable_run ht)]
    exact hrun
  · rw [hframe, Heap.frameOf, ht, Option.bind_some, ← levelIndices_eq]
    rfl

theorem pageTableLookup_run (hw : h.Wf noPending) (ht : h.tables t = some r) (a : Nat) :
    ∃ entry, pageTableLookup t a h = .ok entry h ∧
      entry.map (·.frameNumber) = h.frameOf t (addressPageNumber a) ∧
      ∀ e, entry = some e → e.present = true := by
  obtain ⟨entry, visited, hrun, hframe, hpresent, _⟩ := pageTableLookupWithLevels_run hw ht a
  exact ⟨entry, by rw [pageTableLookup, Comp.bind_ok hrun]; rfl, hframe, hpresent⟩

/-! ## Map -/

/-- One table answers `frame` at one page from now on, and everything else
as before. -/
structure Heap.Rebound (t page : Nat) (frame : Option Nat) (h h' : Heap) : Prop where
  wf : h'.Wf noPending
  nextTable : h'.nextTable = h.nextTable
  processes : h'.processes = h.processes
  nextProcess : h'.nextProcess = h.nextProcess
  plan : h'.allocator.plan = h.allocator.plan
  live : ∀ t', (h'.tables t').isSome = (h.tables t').isSome
  frameOf : ∀ t' page', h'.frameOf t' page' =
    if t' = t ∧ pageKey page' = pageKey page then frame else h.frameOf t' page'

theorem Heap.Rebound.framed {page : Nat} {frame : Option Nat} (hr : h.Rebound t page frame h') :
    h.Framed h' :=
  ⟨hr.processes, hr.nextProcess, hr.plan, hr.live⟩

theorem Heap.Opened.frameOf (hw : h.Wf noPending) (ht : h.tables t = some r)
    (ho : h.Opened t r h') (t' page : Nat) : h'.frameOf t' page = h.frameOf t' page := by
  obtain ⟨r', htables, _, _, hroot⟩ := ho.root
  by_cases e : t' = t
  · simp [Heap.frameOf, htables, e, ht, hroot]
  · simp only [Heap.frameOf, htables, Function.update_of_ne e]
    cases ht' : h.tables t' with
    | none => rfl
    | some r'' => exact ho.grown.frameAt r''.root (hw.root_lt t' r'' ht') _

theorem Heap.Grown.frameOf (hw : h.Wf noPending) (hg : h.Grown h') (htables : h'.tables = h.tables)
    (t page : Nat) : h'.frameOf t page = h.frameOf t page := by
  simp only [Heap.frameOf, htables]
  cases ht : h.tables t with
  | none => rfl
  | some r => exact hg.frameAt r.root (hw.root_lt t r ht) _

/-- A chain survives what happens at its end and below. -/
theorem Heap.Chain.above {path : List (Fin pageTableEntries)} (hw : h.Wf noPending)
    (hchain : h.Chain p path q) (hq : h.objects q = some (.node n))
    (ha : h.Above n.level q h') : h'.Chain p path q := by
  induction hchain with
  | refl p => exact .refl p
  | step hs hc hrest ih =>
    rename_i p c q i path
    obtain ⟨op, hop, _⟩ := Heap.live_of_slot hs
    have hr := (Heap.Chain.step hs hc hrest).rank_lt hw hop hq
    have hrq : (Object.node n).rank = n.level := rfl
    simp only [List.length_cons] at hr
    have hpq : p ≠ q := by
      rintro rfl
      rw [hq] at hop
      cases hop
      omega
    have hp' := ha.same p op hop (by omega) hpq
    refine .step ?_ ?_ (ih hq ha)
    · rw [Heap.slots_of_some hp', ← Heap.slots_of_some hop, hs]
    · obtain ⟨oc, hoc⟩ := hw.target hs (Int.le_refl 0)
      have hrc := hrest.rank_lt hw hoc hq
      by_cases hcq : c = q
      · subst hcq
        obtain ⟨n', hn', _, hcount⟩ := ha.node n hq
        rw [Heap.count_of_some hq] at hc
        rw [Heap.count_of_some hn']
        exact hcount.trans hc
      · rw [Heap.count_of_some (ha.same c oc hoc (by omega) hcq), ← Heap.count_of_some hoc, hc]

/-- Following a chain first. -/
theorem Heap.Chain.frameAt_append {path : List (Fin pageTableEntries)} (hchain : h.Chain p path q)
    (rest : List (Fin pageTableEntries)) : h.frameAt p (path ++ rest) = h.frameAt q rest := by
  induction hchain with
  | refl p => rfl
  | step hs _ _ ih => simp only [List.cons_append, Heap.frameAt, hs, Option.bind_some, ih]

/-- A private entry below a private leaf. -/
theorem pageTablePrivateEntry_spec (hw : h.Wf noPending) (ho : h.objects p = some (.node n))
    (hc : n.entries i = some c) (hchild : h.objects c = some (.entry e))
    (hg : 1 < e.referenceCount → h.Grants 1) :
    Comp.Returns (pageTablePrivateEntry p i c) h (h.Entered n.level p i · ·) := by
  have hslot : h.slots p i = some c := by rw [Heap.slots_of_some ho]; exact hc
  have hrank := hw.rank p _ i c _ ho hc hchild
  have hpos : 1 ≤ e.referenceCount := (hw.object c _ hchild).positive
  have hne : p ≠ c := by
    rintro rfl
    rw [ho] at hchild
    cases hchild
  by_cases hc' : e.referenceCount > 1
  · let copy : PageTableEntry := { e with referenceCount := 1, copyOnWrite := false }
    let node : PageTableNode := n.setSlot i (some h.next)
    have hnext : p ≠ h.next := Nat.ne_of_lt (hw.objects_lt p _ ho)
    have hcnext : c ≠ h.next := Nat.ne_of_lt (hw.objects_lt c _ hchild)
    have hw₀ : h.drawn.Wf noPending := hw.drawn
    have hw₁ : (h.drawn.addObject (.entry copy)).Wf
        fun q => noPending q + pointsTo (some h.next) q := by
      refine hw₀.addFresh ⟨Nat.le_refl 1, fun m hm => (by cases hm), fun m hm => ?_⟩ rfl fun _ => rfl
      cases hm
      exact (hw.object c _ hchild).entry e rfl
    have ho₁ : (h.drawn.addObject (.entry copy)).objects p = some (.node n) := by
      simpa [Heap.addObject, Heap.drawn, hnext] using ho
    have hc₁ : (h.drawn.addObject (.entry copy)).objects c = some (.entry e) := by
      simpa [Heap.addObject, Heap.drawn, hcnext] using hchild
    have hn₁ : (h.drawn.addObject (.entry copy)).objects h.next = some (.entry copy) := by
      simp [Heap.addObject, Heap.drawn]
    have hw₂ : ((h.drawn.addObject (.entry copy)).setObject p (some (.node node))).Wf
        fun q => noPending q + pointsTo (some c) q := by
      refine hw₁.setSlot ho₁ node rfl rfl rfl (by simp [hc, node, PageTableNode.setSlot])
        (fun d hd => ?_) fun q => ?_
      · cases hd
        exact ⟨.entry copy, hn₁, hrank⟩
      · rw [hc]
        ring
    have hc₂ : ((h.drawn.addObject (.entry copy)).setObject p (some (.node node))).objects c =
        some (.entry e) := by rw [Heap.setObject_ne _ _ (Ne.symm hne), hc₁]
    have hw₃ := Heap.Wf.dropOne hc₂ hc' hw₂
    have hdropped : e.dropped = some (Object.setCount (e.referenceCount - 1) (.entry e)) := by
      rw [PageTableEntry.dropped, if_pos hc']
    refine Comp.Returns.of_eq (a := h.next)
      (t := ((h.drawn.addObject (.entry copy)).setObject p (some (.node node))).setObject c
        (some (Object.setCount (e.referenceCount - 1) (.entry e)))) ?_
      ⟨hw₃, ⟨Nat.le_succ _, rfl, rfl, rfl, rfl, fun q hq path => ?_⟩, rfl,
        ⟨fun q o hq hr hqp => ?_, fun n' hn' => ?_⟩, ?_, ?_, .entry copy, ?_, hrank⟩
    · have hclone : pageTableEntryClone c h = .ok h.next (h.drawn.addObject (.entry copy)) := by
        rw [pageTableEntryClone, Comp.bind_ok (readEntry_run hchild),
          Comp.bind_ok (allocate_granted (hg hc'))]
        rfl
      have hmid : ((h.drawn.addObject (.entry copy)).setObject c e.dropped).objects p =
          some (.node n) := by rw [Heap.setObject_ne _ _ hne, ho₁]
      rw [pageTablePrivateEntry, Comp.bind_ok (readEntry_run hchild), if_pos hc',
        Comp.bind_ok hclone, Comp.bind_ok (pageTableEntryRelease_run hc₁),
        Comp.bind_ok (modifyNode_run _ hmid), hdropped, Heap.setObject_comm _ _ _ (Ne.symm hne)]
      rfl
    · have hcopy : ∀ path, (h.drawn.addObject (.entry copy)).frameAt h.next path =
          (h.drawn.addObject (.entry copy)).frameAt c path := by
        intro path
        cases path with
        | nil => simp [Heap.frameAt, hn₁, hc₁, Object.frame, copy]
        | cons j path =>
          simp [Heap.frameAt, Heap.slots_of_some hn₁, Heap.slots_of_some hc₁, Object.slots]
      have hredirect := Heap.frameAt_setSlot node i (some h.next) ho₁ rfl
        (fun path => by rw [hc, Option.bind_some, Option.bind_some, hcopy]) path q
      rw [Heap.frameAt_setCount hc₂, hredirect, hw₀.frameAt_addObject hq path]
      exact Heap.frameAt_of_objects (by rfl) path q
    · have hqc : q ≠ c := by
        rintro rfl
        rw [hchild] at hq
        cases hq
        exact absurd hr (by rw [hrank]; exact Nat.not_succ_le_self n.level)
      have hqn : q ≠ h.next := Nat.ne_of_lt (hw.objects_lt q o hq)
      rw [Heap.setObject_ne _ _ hqc, Heap.setObject_ne _ _ hqp]
      simpa [Heap.addObject, Heap.drawn, hqn] using hq
    · rw [ho] at hn'
      cases hn'
      exact ⟨node, by rw [Heap.setObject_ne _ _ hne, Heap.setObject_self], rfl, rfl⟩
    · have hp₃ : (((h.drawn.addObject (.entry copy)).setObject p (some (.node node))).setObject c
          (some (Object.setCount (e.referenceCount - 1) (.entry e)))).objects p =
          some (.node node) := by rw [Heap.setObject_ne _ _ hne, Heap.setObject_self]
      rw [Heap.slots_of_some hp₃]
      simp [Object.slots, node, PageTableNode.setSlot]
    · rw [Heap.count, Heap.setObject_ne _ _ (Ne.symm hcnext), Heap.setObject_ne _ _ (Ne.symm hnext),
        hn₁]
      rfl
    · rw [Heap.setObject_ne _ _ (Ne.symm hcnext), Heap.setObject_ne _ _ (Ne.symm hnext), hn₁]
  · refine Comp.Returns.of_eq (a := c) (t := h) ?_ ⟨hw, Heap.Grown.refl h, rfl,
      Heap.Above.refl _ _ h, hslot, ?_, .entry e, hchild, hrank⟩
    · rw [pageTablePrivateEntry, Comp.bind_ok (readEntry_run hchild), if_neg hc']
      rfl
    · rw [Heap.count_of_some hchild]
      change e.referenceCount = 1
      omega

/-- There is no storage for the copy, or the entry is private. -/
theorem pageTablePrivateEntry_cases (hw : h.Wf noPending) (ho : h.objects p = some (.node n))
    (hc : n.entries i = some c) (hl : n.level = pageTableLevels - 1) :
    (¬ h.Grants 1 ∧ h.Refuses (pageTablePrivateEntry p i c)) ∨
      Comp.Returns (pageTablePrivateEntry p i c) h (h.Entered n.level p i · ·) := by
  obtain ⟨e, hchild⟩ := hw.childEntry ho hc hl
  by_cases hg : h.Grants 1
  · exact Or.inr (pageTablePrivateEntry_spec hw ho hc hchild fun _ => hg)
  · by_cases hmany : 1 < e.referenceCount
    · exact Or.inl ⟨hg, pageTablePrivateEntry_refused hg hchild hmany⟩
    · exact Or.inr (pageTablePrivateEntry_spec hw ho hc hchild fun h => absurd h hmany)

theorem pageTablePrivateEntry_manages (hw : h.Wf noPending) (ho : h.objects p = some (.node n))
    (hc : n.entries i = some c) (hl : n.level = pageTableLevels - 1) :
    h.Manages (pageTablePrivateEntry p i c) (h.Entered n.level p i · ·) := by
  rcases pageTablePrivateEntry_cases hw ho hc hl with ⟨hg, hrefused⟩ | hreturns
  · exact .of_refused hrefused hw hg
  · exact .of_returns hreturns

/-- The pages that take a given path of four slots. -/
theorem keyPath_prefix {path : List (Fin pageTableEntries)} {page page' : Nat}
    (hpath : path = keyPath page) :
    path <+: keyPath page' ↔ pageKey page' = pageKey page := by
  rw [hpath, ← keyPath_eq_iff]
  refine ⟨fun hpre => (hpre.eq_of_length rfl).symm, fun he => he ▸ List.prefix_refl _⟩

/-- Writing a new frame number into a private entry. -/
theorem Heap.rebound_entry {path : List (Fin pageTableEntries)} {page : Nat}
    (entry : PageTableEntry) (hw : h.Wf noPending) (ht : h.tables t = some r)
    (hone : h.count r.root = 1)
    (hchain : h.Chain r.root path c) (hpath : path = keyPath page)
    (hc : h.objects c = some (.entry e)) (hcount : entry.referenceCount = e.referenceCount)
    (hpresent : entry.present = true) :
    h.Rebound t page (some entry.frameNumber) (h.setObject c (some (.entry entry))) := by
  have hw' : (h.setObject c (some (.entry entry))).Wf noPending := by
    refine hw.setObject hc (fun o' ho' => ?_) (fun o' j d ho' hs => ?_) fun q => ?_
    · cases ho'
      refine ⟨⟨?_, fun m hm => (by cases hm), fun m hm => ?_⟩, rfl⟩
      · change 1 ≤ entry.referenceCount
        rw [hcount]
        exact (hw.object c _ hc).positive
      · cases hm
        exact hpresent
    · cases ho'
      exact Or.inl hs
    · simp [noPending, Object.referenceCount, Object.slots, hcount]
  refine ⟨hw', rfl, rfl, rfl, rfl, fun _ => rfl, fun t' page' => ?_⟩
  refine (Heap.frameOf_chain hw ht hone hchain (by rfl)
    (fun x hx _ => by rw [Heap.setObject_ne _ _ hx]) t' page').trans ?_
  refine if_congr (and_congr_right fun _ => keyPath_prefix hpath) ?_ rfl
  rw [hpath, List.drop_of_length_le (Nat.le_refl 4)]
  simp [Heap.frameAt, Object.frame, hpresent]

/-- A write to one slot of a private leaf is seen at one page of one table. -/
theorem Heap.frameOf_leaf {path : List (Fin pageTableEntries)} {page : Nat} {slot : Option Nat}
    (hw : h.Wf noPending) (ht : h.tables t = some r) (hone : h.count r.root = 1)
    (hchain : h.Chain r.root path p) (hpath : path ++ [i] = keyPath page)
    (ho : h.objects p = some (.node n)) (htables : h'.tables = h.tables)
    (hbody : ∀ x, x ≠ p → x < h.next →
      (h'.objects x).map (Object.setCount 0) = (h.objects x).map (Object.setCount 0))
    (hslots : h'.slots p = Function.update n.entries i slot) (t' page' : Nat) :
    h'.frameOf t' page' =
      if t' = t ∧ pageKey page' = pageKey page then slot.bind fun c => h'.frameAt c []
      else h.frameOf t' page' := by
  have hlen : path.length = 3 := by
    have := congrArg List.length hpath
    simpa [keyPath] using this
  have hsplit : path <+: keyPath page' → ∃ j, keyPath page' = path ++ [j] := by
    rintro ⟨rest, hrest⟩
    have hlen' : (path ++ rest).length = 4 := congrArg List.length hrest
    rw [List.length_append, hlen] at hlen'
    obtain ⟨j, rfl⟩ := List.length_eq_one_iff.mp (show rest.length = 1 by omega)
    exact ⟨j, hrest.symm⟩
  rw [Heap.frameOf_chain hw ht hone hchain htables hbody]
  by_cases hpre : t' = t ∧ path <+: keyPath page'
  · obtain ⟨rfl, hpre'⟩ := hpre
    obtain ⟨j, hj⟩ := hsplit hpre'
    rw [if_pos ⟨rfl, hpre'⟩, hj, List.drop_left]
    have hkey : pageKey page' = pageKey page ↔ j = i := by
      rw [← keyPath_eq_iff, hj, ← hpath, List.append_cancel_left_eq, List.cons.injEq]
      exact and_iff_left rfl
    simp only [Heap.frameAt, hslots]
    by_cases hji : j = i
    · rw [if_pos ⟨trivial, hkey.mpr hji⟩, hji, Function.update_self]
    · rw [if_neg fun hk => hji (hkey.mp hk.2), Function.update_of_ne hji]
      have hold : h.frameOf t' page' = h.frameAt p [j] := by
        rw [Heap.frameOf, ht, Option.bind_some, hj, hchain.frameAt_append]
      rw [hold]
      simp only [Heap.frameAt, Heap.slots_of_some ho, Object.slots]
      cases hd : n.entries j with
      | none => rfl
      | some d =>
        have hs : h.slots p j = some d := by rw [Heap.slots_of_some ho]; exact hd
        have hdp : d ≠ p := by
          rintro rfl
          have := hw.rank d _ j d _ ho hd ho
          omega
        exact Heap.frame_of_body (hbody d hdp (hw.slots_lt p j d hs))
  · rw [if_neg hpre, if_neg]
    rintro ⟨rfl, hkey⟩
    refine hpre ⟨rfl, ?_⟩
    rw [keyPath_eq_iff.mpr hkey, ← hpath]
    exact List.prefix_append _ _

/-- A leaf slot that was empty gets a fresh entry. -/
theorem Heap.rebound_leaf {path : List (Fin pageTableEntries)} {page frame : Nat}
    (hw : h.Wf noPending) (ht : h.tables t = some r) (hone : h.count r.root = 1)
    (hchain : h.Chain r.root path p) (hpath : path ++ [i] = keyPath page)
    (ho : h.objects p = some (.node n)) (hl : n.level = pageTableLevels - 1)
    (hc : n.entries i = none) :
    h.Rebound t page (some frame)
      ((h.drawn.addObject (.entry ⟨frame, true, true, false, false, false, 1⟩)).setObject p
        (some (.node { n.setSlot i (some h.next) with activeEntries := n.activeEntries + 1 }))) := by
  let entry : PageTableEntry := ⟨frame, true, true, false, false, false, 1⟩
  let node : PageTableNode := { n.setSlot i (some h.next) with activeEntries := n.activeEntries + 1 }
  change h.Rebound t page (some frame)
    ((h.drawn.addObject (.entry entry)).setObject p (some (.node node)))
  have hnext : p ≠ h.next := Nat.ne_of_lt (hw.objects_lt p _ ho)
  have hw₁ : (h.drawn.addObject (.entry entry)).Wf
      fun q => noPending q + pointsTo (some h.next) q := by
    refine hw.drawn.addFresh ⟨Nat.le_refl 1, fun m hm => (by cases hm), fun m hm => ?_⟩ rfl
      fun _ => rfl
    cases hm
    rfl
  have ho₁ : (h.drawn.addObject (.entry entry)).objects p = some (.node n) := by
    simpa [Heap.addObject, Heap.drawn, hnext] using ho
  have hn₁ : (h.drawn.addObject (.entry entry)).objects h.next = some (.entry entry) := by
    simp [Heap.addObject, Heap.drawn]
  have hw₂ : ((h.drawn.addObject (.entry entry)).setObject p (some (.node node))).Wf
      noPending := by
    refine hw₁.setSlot ho₁ node rfl rfl rfl (by simp [hc, node]) (fun d hd => ?_) fun q => ?_
    · cases hd
      refine ⟨.entry entry, hn₁, ?_⟩
      rw [hl]
      rfl
    · rw [hc, pointsTo_none, noPending]
      omega
  refine ⟨hw₂, rfl, rfl, rfl, rfl, fun _ => rfl, fun t' page' => ?_⟩
  refine (Heap.frameOf_leaf hw ht hone hchain hpath ho (by rfl) (fun x hx hlt => ?_)
    (Heap.slots_of_some (Heap.setObject_self _ p _)) t' page').trans ?_
  · have hxn : x ≠ h.next := Nat.ne_of_lt hlt
    rw [Heap.setObject_ne _ _ hx]
    simp [Heap.addObject, Heap.drawn, hxn]
  · simp only [Option.bind_some, Heap.frameAt, Heap.setObject_ne _ _ (Ne.symm hnext), hn₁]
    rfl

theorem Heap.Rebound.of_same {h₁ h₂ : Heap} {page : Nat} {frame : Option Nat}
    (hg : h.Grown h₁) (hlive : ∀ t', (h₁.tables t').isSome = (h.tables t').isSome)
    (hframe : ∀ t' page', h₁.frameOf t' page' = h.frameOf t' page')
    (hr : h₁.Rebound t page frame h₂) : h.Rebound t page frame h₂ :=
  ⟨hr.wf, hr.nextTable.trans hg.nextTable, hr.processes.trans hg.processes,
    hr.nextProcess.trans hg.nextProcess, hr.plan.trans hg.plan,
    fun t' => (hr.live t').trans (hlive t'),
    fun t' page' => by rw [hr.frameOf, hframe]⟩

/-- The table opened and the descent made: what `page_table_map` and
`page_table_unmap` have in hand when they reach the leaf. -/
structure Heap.AtLeaf (t : Nat) (path : List (Fin pageTableEntries)) (leaf : Nat) (h h' : Heap) :
    Prop where
  wf : h'.Wf noPending
  grown : h.Grown h'
  live : ∀ t', (h'.tables t').isSome = (h.tables t').isSome
  frameOf : ∀ t' page, h'.frameOf t' page = h.frameOf t' page
  root : ∃ r, h'.tables t = some r ∧ h'.count r.root = 1 ∧ h'.Chain r.root path leaf
  leaf : ∃ m, h'.objects leaf = some (.node m) ∧ m.level = pageTableLevels - 1

theorem Heap.Opened.atLeaf {h'' : Heap} {r' : PageTable} {m : PageTableNode}
    {path : List (Fin pageTableEntries)} {leaf : Nat} (hw : h.Wf noPending)
    (ht : h.tables t = some r) (hopen : h.Opened t r h')
    (htables : h'.tables = Function.update h.tables t (some r')) (hcount : h'.count r'.root = 1)
    (hm : h'.objects r'.root = some (.node m)) (hd : h'.Descended m.level r'.root path leaf h'') :
    h.AtLeaf t path leaf h'' := by
  obtain ⟨m', hm', _, hrc⟩ := hd.above.node m hm
  refine ⟨hd.wf, hopen.grown.trans hd.grown, fun t' => ?_, fun t' page => ?_,
    ⟨r', ?_, ?_, hd.chain⟩, hd.leaf⟩
  · rw [hd.tables, htables]
    by_cases e : t' = t
    · simp [e, ht]
    · rw [Function.update_of_ne e]
  · rw [hd.grown.frameOf hopen.wf hd.tables, hopen.frameOf hw ht]
  · rw [hd.tables, htables, Function.update_self]
  · rw [Heap.count_of_some hm']
    rw [Heap.count_of_some hm] at hcount
    exact hrc.trans hcount

theorem pageTableMap_manages (hw : h.Wf noPending) (ht : h.tables t = some r) (a frame : Nat) :
    h.Manages (pageTableMap t a frame) fun _ h' =>
      h.Rebound t (addressPageNumber a) (some frame) h' := by
  rw [pageTableMap]
  refine (pageTableEnsurePrivateRoot_manages hw ht).bind fun _ h₁ hopen => ⟨hopen.framed ht, ?_⟩
  obtain ⟨r', htables, hcount, ⟨m, hm, hml⟩, _⟩ := hopen.root
  have ht₁ : h₁.tables t = some r' := by rw [htables, Function.update_self]
  refine .read (readTable_run ht₁) ?_
  refine (pageTableMapDescend_manages a innerLevels r'.root h₁ m hopen.wf hm
    (by rw [hml]; rfl)).bind fun leaf h₂ hd => ⟨hd.grown.framed hd.tables, ?_⟩
  have hat := hopen.atLeaf hw ht htables hcount hm hd
  obtain ⟨r₂, ht₂, hcount₂, hchain⟩ := hat.root
  obtain ⟨k, hk, hkl⟩ := hat.leaf
  have hpath := levelIndices_eq a
  refine Heap.Manages.mono (.read (readNode_run hk) ?_)
    fun _ h₃ => Heap.Rebound.of_same hat.grown hat.live hat.frameOf
  cases hc : k.entries (addressLevelIndex a (pageTableLevels - 1)) with
  | none =>
    by_cases hg : h₂.Grants 1
    · refine .of_returns (Comp.Returns.of_eq (a := ()) ?_
        (Heap.rebound_leaf hat.wf ht₂ hcount₂ hchain hpath hk hkl hc))
      have hnext : leaf ≠ h₂.next := Nat.ne_of_lt (hat.wf.objects_lt leaf _ hk)
      have hleaf : (h₂.drawn.addObject (.entry ⟨frame, true, true, false, false, false, 1⟩)).objects
          leaf = some (.node k) := by simpa [Heap.addObject, Heap.drawn, hnext] using hk
      have hcreate : pageTableEntryCreate frame h₂ = .ok h₂.next
          (h₂.drawn.addObject (.entry ⟨frame, true, true, false, false, false, 1⟩)) := by
        rw [pageTableEntryCreate, Comp.bind_ok (allocate_granted hg)]
        rfl
      simp only
      rw [Comp.bind_ok hcreate, modifyNode_run _ hleaf]
      rfl
    · exact .of_refused ((pageTableEntryCreate_refused hg frame).bind _) hat.wf hg
  | some old =>
    refine (pageTablePrivateEntry_manages hat.wf hk hc hkl).bind fun entry h₃ he => ⟨he.framed, ?_⟩
    obtain ⟨e, ho⟩ := he.entry hkl
    obtain ⟨root, hor, hrank⟩ := hat.wf.root_node ht₂
    have hne : r₂.root ≠ leaf := by
      intro heq
      rw [heq, hk] at hor
      cases hor
      rw [hkl] at hrank
      exact absurd hrank (by decide)
    have hroot₃ := he.above.same r₂.root _ hor (hrank.le.trans (Nat.zero_le _)) hne
    have hcount₃ : h₃.count r₂.root = 1 := by
      rw [Heap.count_of_some hroot₃, ← Heap.count_of_some hor, hcount₂]
    have hrebound := Heap.rebound_entry { e with frameNumber := frame, present := true } he.wf
      (by rw [he.tables, ht₂]) hcount₃
      ((hchain.above hat.wf hk he.above).snoc he.slot he.count) hpath ho rfl rfl
    exact .of_returns (Comp.Returns.of_eq (modifyEntry_run _ ho) (Heap.Rebound.of_same he.grown
      (fun t' => by rw [he.tables]) (he.grown.frameOf hat.wf he.tables) hrebound))

theorem pageTableMap_spec (hw : h.Wf noPending) (hp : h.Plenty) (ht : h.tables t = some r)
    (a frame : Nat) :
    Comp.Returns (pageTableMap t a frame) h fun _ h' =>
      h.Rebound t (addressPageNumber a) (some frame) h' :=
  (pageTableMap_manages hw ht a frame).returns hp

end VmSim
