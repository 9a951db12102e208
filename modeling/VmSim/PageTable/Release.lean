/-
VmSim.PageTable.Release — the recursive release of a subtree, and
`page_table_destroy`.

A release is handed one reference, so it starts with one more pending on
its object than it leaves. The loop over the children of a node about to
be freed leaves slots that dangle; they count as pending, one less for
every slot passed, until the node itself goes and takes its slots with
it. `Heap.Shrunk` is what a release does to everything else: objects
disappear or lose references, and nothing above the released level
changes.
-/
import VmSim.PageTable.Sharing

namespace VmSim

open Lib

variable {h h' : Heap} {pend : Nat → Int} {p q c t : Nat} {o : Object} {n : PageTableNode}
  {e : PageTableEntry} {i : Fin pageTableEntries}

structure Heap.Shrunk (level : Nat) (h h' : Heap) : Prop where
  next : h'.next = h.next
  tables : h'.tables = h.tables
  nextTable : h'.nextTable = h.nextTable
  processes : h'.processes = h.processes
  nextProcess : h'.nextProcess = h.nextProcess
  allocator : h'.allocator = h.allocator
  body : ∀ x o', h'.objects x = some o' → ∃ o, h.objects x = some o ∧ o'.setCount 0 = o.setCount 0
  above : ∀ x o, h.objects x = some o → o.rank < level → h'.objects x = some o

theorem Heap.Shrunk.refl (level : Nat) (h : Heap) : h.Shrunk level h :=
  ⟨rfl, rfl, rfl, rfl, rfl, rfl, fun _ o ho => ⟨o, ho, rfl⟩, fun _ _ ho _ => ho⟩

theorem Heap.Shrunk.trans {level : Nat} {h'' : Heap} (h₁ : h.Shrunk level h')
    (h₂ : h'.Shrunk level h'') : h.Shrunk level h'' := by
  refine ⟨h₂.next.trans h₁.next, h₂.tables.trans h₁.tables, h₂.nextTable.trans h₁.nextTable,
    h₂.processes.trans h₁.processes, h₂.nextProcess.trans h₁.nextProcess,
    h₂.allocator.trans h₁.allocator, fun x o'' hx => ?_, fun x o hx hr => ?_⟩
  · obtain ⟨o', ho', hb'⟩ := h₂.body x o'' hx
    obtain ⟨o, ho, hb⟩ := h₁.body x o' ho'
    exact ⟨o, ho, hb'.trans hb⟩
  · exact h₂.above x o (h₁.above x o hx hr) hr

theorem Heap.Shrunk.mono {level level' : Nat} (hs : h.Shrunk level h') (hl : level' ≤ level) :
    h.Shrunk level' h' :=
  { hs with above := fun x o hx hr => hs.above x o hx (by omega) }

theorem Object.slots_eq_of_body {o o' : Object} (hb : o'.setCount 0 = o.setCount 0) :
    o'.slots = o.slots ∧ o'.rank = o.rank := by
  have hs := congrArg Object.slots hb
  have hr := congrArg Object.rank hb
  rw [Object.slots_setCount, Object.slots_setCount] at hs
  rw [Object.rank_setCount, Object.rank_setCount] at hr
  exact ⟨hs, hr⟩

/-- Descents from what is left are as before. -/
theorem Heap.Wf.frameAt_of_body (hw : h'.Wf noPending)
    (hbody : ∀ x o', h'.objects x = some o' →
      ∃ o, h.objects x = some o ∧ o'.setCount 0 = o.setCount 0)
    (ho : h'.objects p = some o) (path : List (Fin pageTableEntries)) :
    h'.frameAt p path = h.frameAt p path := by
  refine (Heap.frameAt_congr (fun x => ∃ o, h'.objects x = some o) (fun x hx => ?_)
    (fun x i c _ hc => hw.target hc (Int.le_refl 0)) path p ⟨o, ho⟩).symm
  obtain ⟨o', ho'⟩ := hx
  obtain ⟨o'', ho'', hb⟩ := hbody x o' ho'
  rw [ho', ho'', Option.map_some, Option.map_some, hb]

/-- Overwriting an object with a lower count, or freeing it. -/
theorem Heap.shrunk_setObject (object : Option Object) (ho : h.objects p = some o)
    (hobj : ∀ o', object = some o' → o'.setCount 0 = o.setCount 0) :
    h.Shrunk o.rank (h.setObject p object) := by
  refine ⟨rfl, rfl, rfl, rfl, rfl, rfl, fun x o' hx => ?_, fun x o' hx hr => ?_⟩
  · by_cases e : x = p
    · rw [e, Heap.setObject_self] at hx
      exact ⟨o, e ▸ ho, hobj o' hx⟩
    · rw [Heap.setObject_ne _ _ e] at hx
      exact ⟨o', hx, rfl⟩
  · have hne : x ≠ p := by
      rintro rfl
      rw [ho] at hx
      cases hx
      exact Nat.lt_irrefl _ hr
    rw [Heap.setObject_ne _ _ hne, hx]

/-- Freeing an object takes its slots away. -/
theorem Heap.Wf.free {pend' : Nat → Int} (hw : h.Wf pend) (ho : h.objects p = some o)
    (hone : o.referenceCount = 1)
    (hpend : ∀ q, pend' q = pend q - pointsTo (some p) q + outCount o.slots q) :
    (h.setObject p none).Wf pend' := by
  refine hw.setObject ho (fun o' ho' => by cases ho') (fun o' j d ho' => by cases ho') fun q => ?_
  have hnone : outCount (fun _ : Fin pageTableEntries => none) q = 0 := outCount_none
  rw [hpend q]
  simp only [Option.elim_none, hnone, hone, pointsTo, Option.some.injEq, eq_comm (a := p)]
  split <;> omega

/-- What `page_table_entry_release` leaves of an entry. -/
def PageTableEntry.dropped (entry : PageTableEntry) : Option Object :=
  if entry.referenceCount > 1 then
    some (Object.setCount (entry.referenceCount - 1) (.entry entry))
  else none

theorem pageTableEntryRelease_run (ho : h.objects p = some (.entry e)) :
    pageTableEntryRelease p h = .ok () (h.setObject p e.dropped) := by
  rw [pageTableEntryRelease, Comp.bind_ok (readEntry_run ho), PageTableEntry.dropped]
  split
  · rfl
  · exact freeObject_run ho

theorem Heap.Wf.dropEntry (ho : h.objects p = some (.entry e))
    (hw : h.Wf fun q => pend q + pointsTo (some p) q) :
    (h.setObject p e.dropped).Wf pend ∧ h.Shrunk pageTableLevels (h.setObject p e.dropped) := by
  unfold PageTableEntry.dropped
  by_cases hc : e.referenceCount > 1
  · rw [if_pos hc]
    exact ⟨Heap.Wf.dropOne ho hc hw, Heap.shrunk_setObject _ ho fun o' ho' => by cases ho'; rfl⟩
  · have hpos : 1 ≤ e.referenceCount := (hw.object p _ ho).positive
    rw [if_neg hc]
    refine ⟨hw.free ho (by change e.referenceCount = 1; omega) fun q => ?_,
      Heap.shrunk_setObject _ ho fun o' ho' => by cases ho'⟩
    have hzero : outCount (Object.entry e).slots q = 0 := outCount_none
    rw [hzero]
    omega

/-- The slots that the release loop has passed, by target. -/
def passed (entries : Fin pageTableEntries → Option Nat) (rest : List (Fin pageTableEntries))
    (q : Nat) : Int :=
  outCount entries q - (rest.map fun i => pointsTo (entries i) q).sum

/-- The loop body of `page_table_node_release`. -/
def pageTableReleaseSlot (depth : Nat) (node : PageTableNode) (index : Fin pageTableEntries) :
    Comp Heap Unit :=
  match node.entries index with
  | none => pure ()
  | some child =>
    if node.level < pageTableLevels - 1 then pageTableNodeRelease depth child
    else pageTableEntryRelease child

/-- The release loop of the node `p` of `h` before it passes `rest`: the
slots passed so far are pending, and the node itself is untouched. -/
structure Heap.Releasing (h : Heap) (p : Nat) (n : PageTableNode) (pend : Nat → Int)
    (rest : List (Fin pageTableEntries)) (h₁ : Heap) : Prop where
  wf : h₁.Wf fun q => pend q + pointsTo (some p) q - passed n.entries rest q
  shrunk : h.Shrunk (n.level + 1) h₁

/-- A slot in use that is still to be passed leads to a live object. -/
theorem Heap.Releasing.child {i : Fin pageTableEntries} {rest : List (Fin pageTableEntries)}
    {h₁ : Heap} (hI : h.Releasing p n pend (i :: rest) h₁) (ho : h.objects p = some (.node n))
    (hc : n.entries i = some c) (hpos : 0 ≤ pend c) :
    (∃ child, h₁.objects c = some child) ∧ h₁.Wf fun q =>
      (pend q + pointsTo (some p) q - passed n.entries rest q) + pointsTo (some c) q := by
  have ho₁ := hI.shrunk.above p _ ho (Nat.lt_succ_self n.level)
  constructor
  · have hcount := hI.wf.counted c
    have hle := outCount_le_inCount h₁.slots c (hI.wf.objects_lt p _ ho₁)
    rw [Heap.slots_of_some ho₁] at hle
    have hle' : outCount n.entries c ≤ inCount h₁.slots h₁.next c := hle
    simp only [Heap.references, passed, List.map_cons, List.sum_cons, hc, pointsTo_self] at hcount
    exact Heap.live_of_count (by omega)
  · have hfun : (fun q => pend q + pointsTo (some p) q - passed n.entries (i :: rest) q) =
        fun q => (pend q + pointsTo (some p) q - passed n.entries rest q)
          + pointsTo (some c) q := by
      funext q
      simp only [passed, List.map_cons, List.sum_cons, hc]
      omega
    rw [← hfun]
    exact hI.wf

/-- One slot, if the nodes below are released as they should. -/
theorem Heap.Releasing.slot {depth : Nat} {i : Fin pageTableEntries}
    {rest : List (Fin pageTableEntries)} {h₁ : Heap}
    (hI : h.Releasing p n pend (i :: rest) h₁) (ho : h.objects p = some (.node n))
    (hlevel : n.level < pageTableLevels) (hdepth : pageTableLevels ≤ n.level + (depth + 1))
    (hpend : ∀ q o i c, h.objects q = some o → n.level ≤ o.rank → o.slots i = some c → 0 ≤ pend c)
    (hbelow : ∀ (c : Nat) (h : Heap) (pend : Nat → Int) (k : PageTableNode),
      h.objects c = some (.node k) → pageTableLevels ≤ k.level + depth →
      (∀ q o i d, h.objects q = some o → k.level ≤ o.rank → o.slots i = some d → 0 ≤ pend d) →
      h.Wf (fun q => pend q + pointsTo (some c) q) →
      Comp.Returns (pageTableNodeRelease depth c) h fun _ h' => h'.Wf pend ∧ h.Shrunk k.level h') :
    Comp.Returns (pageTableReleaseSlot depth n i) h₁ fun _ h₂ => h.Releasing p n pend rest h₂ := by
  unfold pageTableReleaseSlot
  have ho₁ := hI.shrunk.above p _ ho (Nat.lt_succ_self n.level)
  cases hc : n.entries i with
  | none =>
    refine Comp.Returns.of_eq rfl ⟨?_, hI.shrunk⟩
    have hpassed : passed n.entries (i :: rest) = passed n.entries rest := by
      funext q
      simp only [passed, List.map_cons, List.sum_cons, hc, pointsTo_none, Nat.zero_add]
    rw [← hpassed]
    exact hI.wf
  | some c =>
    obtain ⟨⟨child, hchild⟩, hw⟩ := hI.child ho hc (hpend p _ i c ho (Nat.le_refl n.level) hc)
    have hrank : child.rank = n.level + 1 := hI.wf.rank p _ i c child ho₁ hc hchild
    obtain ⟨hnode, hentry⟩ := (hI.wf.object c child hchild).kind hrank hlevel
    by_cases hl : n.level < pageTableLevels - 1
    · obtain ⟨k, rfl⟩ := hnode hl
      have hk : k.level = n.level + 1 := hrank
      simp only [if_pos hl]
      refine (hbelow c h₁ _ k hchild (by omega) (fun q o j d ho' hr hd => ?_) hw).mono
        fun _ h₂ hpost => ⟨hpost.1, hI.shrunk.trans (hpost.2.mono (by omega))⟩
      -- no slot of `p` leads as deep as the child's
      obtain ⟨o₀, ho₀, hb⟩ := hI.shrunk.body q o ho'
      obtain ⟨hslots, hr₀⟩ := Object.slots_eq_of_body hb
      have hpos := hpend q o₀ j d ho₀ (by omega) (by rw [← hslots]; exact hd)
      have hzero : outCount n.entries d = 0 := outCount_eq_zero fun j' hd' => by
        have hsame := hI.wf.same_rank p _ j' q o j d ho₁ hd' ho' hd
        have hm : (Object.node n).rank = n.level := rfl
        omega
      simp only [passed, hzero]
      omega
    · obtain ⟨k, rfl⟩ := hentry hl
      simp only [if_neg hl]
      have hdrop := Heap.Wf.dropEntry hchild hw
      exact Comp.Returns.of_eq (pageTableEntryRelease_run hchild)
        ⟨hdrop.1, hI.shrunk.trans (hdrop.2.mono hlevel)⟩

/-- The node and the bound on the recursion fit each other. -/
theorem pageTableNodeRelease_spec : ∀ (depth p : Nat) (h : Heap) (pend : Nat → Int)
    (n : PageTableNode), h.objects p = some (.node n) → pageTableLevels ≤ n.level + depth →
    (∀ q o i c, h.objects q = some o → n.level ≤ o.rank → o.slots i = some c → 0 ≤ pend c) →
    h.Wf (fun q => pend q + pointsTo (some p) q) →
    Comp.Returns (pageTableNodeRelease depth p) h fun _ h' => h'.Wf pend ∧ h.Shrunk n.level h' := by
  intro depth
  induction depth with
  | zero =>
    intro p h pend n ho hdepth _ hw
    exact absurd ((hw.object p _ ho).node n rfl).1 (Nat.not_lt.mpr hdepth)
  | succ depth ih =>
    intro p h pend n ho hdepth hpend hw
    have hlevel := ((hw.object p _ ho).node n rfl).1
    by_cases hc : n.referenceCount > 1
    · exact Comp.Returns.of_eq (pageTableNodeRelease_shared ho hc)
        ⟨Heap.Wf.dropOne ho hc hw, Heap.shrunk_setObject _ ho fun o' ho' => by cases ho'; rfl⟩
    · have hone : n.referenceCount = 1 := by
        have hpos : 1 ≤ n.referenceCount := (hw.object p _ ho).positive
        omega
      rw [pageTableNodeRelease]
      refine Comp.Returns.bind (P := fun m s => m = n ∧ s = h)
        (Comp.Returns.of_eq (readNode_run ho) ⟨rfl, rfl⟩) fun m s hms => ?_
      obtain ⟨rfl, rfl⟩ := hms
      rw [if_neg hc]
      have hstart : s.Releasing p m pend slotIndices s := by
        refine ⟨?_, Heap.Shrunk.refl _ _⟩
        have hsum : ∀ q, (slotIndices.map fun i => pointsTo (m.entries i) q).sum =
            outCount m.entries q := fun q => (Fin.sum_univ_def _).symm
        have hnone : ∀ q, passed m.entries slotIndices q = 0 := fun q => by
          rw [passed, hsum, Int.sub_self]
        simpa only [hnone, Int.sub_zero] using hw
      refine Comp.Returns.bind (Comp.Returns.forEach (s.Releasing p m pend)
        (fun i rest h₁ hI => hI.slot ho hlevel hdepth hpend ih) slotIndices s hstart)
        fun _ h₁ hI => ?_
      have ho₁ := hI.shrunk.above p _ ho (Nat.lt_succ_self m.level)
      refine Comp.Returns.of_eq (freeObject_run ho₁) ⟨hI.wf.free ho₁ hone fun q => ?_,
        (hI.shrunk.mono (Nat.le_succ _)).trans
          (Heap.shrunk_setObject _ ho₁ fun o' ho' => by cases ho')⟩
      simp only [passed, List.map_nil, List.sum_nil, Object.slots]
      omega

end VmSim
