/-
VmSim.PageTable.Scarcity — page-table functions on a heap that may refuse
storage.

`Heap.Manages h c P`: run in the heap `h`, `c` does what `P` says, or it
finds no storage and fails; then the heap is well formed and has the
processes and the tables it had. Where every allocation succeeds, it is
total correctness (`Heap.Manages.returns`).
-/
import VmSim.PageTable.Release

namespace VmSim

open Lib

variable {α β : Type} {h h' h₁ : Heap} {p c t : Nat} {n m : PageTableNode}
  {i : Fin pageTableEntries} {r : PageTable} {P : α → Heap → Prop} {Q : β → Heap → Prop}

/-! ## Allocations that fail -/

def Heap.supplied (h : Heap) (allocator : Allocator) : Heap := { h with allocator := allocator }

theorem Heap.Wf.supplied {pend : Nat → Int} (hw : h.Wf pend) (allocator : Allocator) :
    (h.supplied allocator).Wf pend :=
  ⟨hw.objects_lt, hw.tables_lt, hw.object, hw.counted, hw.slots_lt, hw.rank, hw.same_rank,
    hw.root_lt, hw.root_rank⟩

/-- `c` fails for want of storage: only the allocator has gone on. -/
def Heap.Refuses (h : Heap) (c : Comp Heap α) : Prop :=
  ∃ calls, c h = .failed (h.supplied ⟨h.allocator.plan, calls⟩)

theorem Heap.Refuses.bind {c : Comp Heap α} (hr : h.Refuses c) (f : α → Comp Heap β) :
    h.Refuses (c >>= f) := by
  obtain ⟨calls, hrun⟩ := hr
  exact ⟨calls, Comp.bind_failed hrun⟩

theorem Heap.Refuses.read {c : Comp Heap α} {f : α → Comp Heap β} {a : α}
    (hrun : c h = .ok a h) (hr : h.Refuses (f a)) : h.Refuses (c >>= f) := by
  rw [Heap.Refuses, Comp.bind_ok hrun]
  exact hr

theorem Heap.Refuses.supplied {c : Comp Heap α} (hr : h.Refuses c) :
    ∃ allocator, c h = .failed (h.supplied allocator) := by
  obtain ⟨calls, hrun⟩ := hr
  exact ⟨_, hrun⟩

theorem allocate_refused (hg : ¬ h.Grants 1) : allocate h = .failed h.drawn := by
  have hplan : ¬ h.allocator.plan h.allocator.calls = true := fun hp =>
    hg (Heap.grants_succ.mpr ⟨hp, fun j hj => absurd hj (Nat.not_lt_zero j)⟩)
  simp only [allocate, if_neg hplan]
  rfl

theorem allocate_ends (h : Heap) : Comp.Ends allocate h fun _ h' => h' = h.drawn := by
  by_cases hg : h.Grants 1
  · exact Comp.Ends.of_ok (allocate_granted hg) rfl
  · exact Comp.Ends.of_failed (allocate_refused hg) rfl

theorem pageTableNodeCreate_refused (hg : ¬ h.Grants 2) (level : Nat) :
    h.Refuses (pageTableNodeCreate level) := by
  rw [Heap.Refuses, pageTableNodeCreate]
  by_cases hfirst : h.Grants 1
  · have hsecond : ¬ h.drawn.Grants 1 := fun hs =>
      hg (Heap.grants_succ.mpr ⟨(Heap.grants_succ.mp hfirst).1, hs⟩)
    rw [Comp.bind_ok (allocate_granted hfirst), Comp.bind_failed (allocate_refused hsecond)]
    exact ⟨_, rfl⟩
  · rw [Comp.bind_failed (allocate_refused hfirst)]
    exact ⟨_, rfl⟩

theorem pageTableNodeCloneShallow_refused (hg : ¬ h.Grants 2)
    (ho : h.objects p = some (.node n)) : h.Refuses (pageTableNodeCloneShallow p) :=
  .read (readNode_run ho) ((pageTableNodeCreate_refused hg n.level).bind _)

theorem pageTableEnsurePrivateChild_refused (hg : ¬ h.Grants 2)
    (ho : h.objects p = some (.node n)) (hc : n.entries i = some c)
    (hchild : h.objects c = some (.node m)) (hmany : m.referenceCount ≠ 1) :
    h.Refuses (pageTableEnsurePrivateChild p i) := by
  rw [pageTableEnsurePrivateChild]
  refine .read (readNode_run ho) ?_
  rw [hc]
  refine .read (Comp.orFail_some c h) (.read (readNode_run hchild) ?_)
  rw [if_neg hmany]
  exact (pageTableNodeCloneShallow_refused hg hchild).bind _

theorem pageTableEnsurePrivateRoot_refused (hg : ¬ h.Grants 2) (ht : h.tables t = some r)
    (hroot : h.objects r.root = some (.node m)) (hmany : m.referenceCount ≠ 1) :
    h.Refuses (pageTableEnsurePrivateRoot t) := by
  rw [pageTableEnsurePrivateRoot]
  refine .read (readTable_run ht) (.read (readNode_run hroot) ?_)
  rw [if_neg hmany]
  exact (pageTableNodeCloneShallow_refused hg hroot).bind _

theorem pageTableEntryCreate_refused (hg : ¬ h.Grants 1) (frame : Nat) :
    h.Refuses (pageTableEntryCreate frame) :=
  ⟨_, Comp.bind_failed (allocate_refused hg)⟩

theorem pageTablePrivateEntry_refused {e : PageTableEntry} (hg : ¬ h.Grants 1)
    (ho : h.objects c = some (.entry e)) (hmany : 1 < e.referenceCount) :
    h.Refuses (pageTablePrivateEntry p i c) := by
  have hclone : h.Refuses (pageTableEntryClone c) :=
    .read (readEntry_run ho) ⟨_, Comp.bind_failed (allocate_refused hg)⟩
  rw [pageTablePrivateEntry]
  refine .read (readEntry_run ho) ?_
  rw [if_pos hmany]
  exact hclone.bind _

theorem pageTableCreate_refused (hg : ¬ h.Grants 3) : h.Refuses pageTableCreate := by
  rw [Heap.Refuses, pageTableCreate]
  by_cases hfirst : h.Grants 1
  · have hrest : ¬ h.drawn.Grants 2 := fun hs =>
      hg (Heap.grants_succ.mpr ⟨(Heap.grants_succ.mp hfirst).1, hs⟩)
    obtain ⟨calls, hnode⟩ := pageTableNodeCreate_refused hrest 0
    rw [Comp.bind_ok (allocate_granted hfirst), Comp.bind_failed hnode]
    exact ⟨calls, rfl⟩
  · rw [Comp.bind_failed (allocate_refused hfirst)]
    exact ⟨_, rfl⟩

/-! ## What stays -/

/-- The processes and the tables are those there were. -/
structure Heap.Framed (h h' : Heap) : Prop where
  processes : h'.processes = h.processes
  nextProcess : h'.nextProcess = h.nextProcess
  plan : h'.allocator.plan = h.allocator.plan
  live : ∀ t, (h'.tables t).isSome = (h.tables t).isSome

theorem Heap.Framed.refl (h : Heap) : h.Framed h := ⟨rfl, rfl, rfl, fun _ => rfl⟩

theorem Heap.Framed.trans (hf : h.Framed h₁) (hf' : h₁.Framed h') : h.Framed h' :=
  ⟨hf'.processes.trans hf.processes, hf'.nextProcess.trans hf.nextProcess, hf'.plan.trans hf.plan,
    fun t => (hf'.live t).trans (hf.live t)⟩

theorem Heap.Framed.plenty (hf : h.Framed h') (hp : h.Plenty) : h'.Plenty := by
  intro k
  rw [hf.plan]
  exact hp k

theorem Heap.framed_drawn (h : Heap) : h.Framed h.drawn := ⟨rfl, rfl, rfl, fun _ => rfl⟩

theorem Heap.Grown.framed (hg : h.Grown h') (htables : h'.tables = h.tables) : h.Framed h' :=
  ⟨hg.processes, hg.nextProcess, hg.plan, fun t => by rw [htables]⟩

theorem Heap.Entered.framed {level current child : Nat}
    (he : h.Entered level current i child h') : h.Framed h' := he.grown.framed he.tables

theorem Heap.Opened.framed (ho : h.Opened t r h') (ht : h.tables t = some r) : h.Framed h' := by
  obtain ⟨r', htables, _⟩ := ho.root
  refine ⟨ho.grown.processes, ho.grown.nextProcess, ho.grown.plan, fun t' => ?_⟩
  rw [htables]
  by_cases e : t' = t
  · simp [e, ht]
  · rw [Function.update_of_ne e]

/-! ## Doing without -/

/-- What is left where storage was refused. -/
structure Heap.Starved (h h' : Heap) : Prop extends Heap.Framed h h' where
  scarce : ¬ h.Plenty
  wf : h'.Wf noPending

theorem Heap.Starved.after (hf : h.Framed h₁) (hs : h₁.Starved h') : h.Starved h' :=
  ⟨hf.trans hs.toFramed, fun hp => hs.scarce (hf.plenty hp), hs.wf⟩

def Heap.Manages (h : Heap) (c : Comp Heap α) (P : α → Heap → Prop) : Prop :=
  Comp.Ends c h fun result h' =>
    match result with
    | some a => P a h'
    | none => h.Starved h'

theorem Heap.Manages.returns {c : Comp Heap α} (hm : h.Manages c P) (hp : h.Plenty) :
    Comp.Returns c h P := by
  rcases hm.outcome with ⟨a, h', hrun, ha⟩ | ⟨h', _, hstarved⟩
  · exact ⟨a, h', hrun, ha⟩
  · exact absurd hp hstarved.scarce

theorem Heap.Manages.of_returns {c : Comp Heap α} (hr : Comp.Returns c h P) : h.Manages c P :=
  hr.ends fun _ _ ha => ha

theorem Heap.Manages.of_refused {c : Comp Heap α} {k : Nat} (hr : h.Refuses c)
    (hw : h.Wf noPending) (hg : ¬ h.Grants k) : h.Manages c P := by
  obtain ⟨calls, hrun⟩ := hr
  exact Comp.Ends.of_failed hrun
    ⟨⟨rfl, rfl, rfl, fun _ => rfl⟩, fun hp => hg (hp.grants k), hw.supplied _⟩

theorem Heap.Manages.mono {c : Comp Heap α} {R : α → Heap → Prop} (hm : h.Manages c P)
    (hpr : ∀ a h', P a h' → R a h') : h.Manages c R := by
  refine Comp.Ends.mono hm fun result h' hend => ?_
  cases result with
  | some a => exact hpr a h' hend
  | none => exact hend

theorem Heap.Manages.bind {c : Comp Heap α} {f : α → Comp Heap β} (hc : h.Manages c P)
    (hf : ∀ a h₁, P a h₁ → h.Framed h₁ ∧ h₁.Manages (f a) Q) : h.Manages (c >>= f) Q := by
  refine Comp.Ends.bind hc (fun a h₁ ha => ?_) fun _ hstarved => hstarved
  obtain ⟨hframed, hrest⟩ := hf a h₁ ha
  refine Comp.Ends.mono hrest fun result h' hend => ?_
  cases result with
  | some b => exact hend
  | none => exact Heap.Starved.after hframed hend

/-- The first part is known, and changes nothing. -/
theorem Heap.Manages.read {c : Comp Heap α} {f : α → Comp Heap β} {a : α} (hrun : c h = .ok a h)
    (hf : h.Manages (f a) Q) : h.Manages (c >>= f) Q := Comp.Ends.next hrun hf

/-! ## Privatisation -/

theorem pageTableEnsurePrivateChild_manages (hw : h.Wf noPending)
    (ho : h.objects p = some (.node n)) (hc : n.entries i = some c)
    (hl : n.level < pageTableLevels - 1) :
    h.Manages (pageTableEnsurePrivateChild p i) (h.Entered n.level p i · ·) := by
  obtain ⟨m, hchild, _⟩ := hw.childNode ho hc hl
  by_cases hone : m.referenceCount = 1
  · exact .of_returns (Comp.Returns.of_eq (pageTableEnsurePrivateChild_sole ho hc hchild hone)
      (hw.entered_sole ho hc hchild hone))
  · have hpos : 1 ≤ m.referenceCount := (hw.object c _ hchild).positive
    have hmany : 1 < m.referenceCount := by omega
    by_cases hg : h.Grants 2
    · exact .of_returns (Comp.Returns.of_eq
        (pageTableEnsurePrivateChild_copied hw ho hc hchild hmany hg)
        (hw.entered_redirected ho hc hchild hmany))
    · exact .of_refused (pageTableEnsurePrivateChild_refused hg ho hc hchild hone) hw hg

theorem pageTableEnsurePrivateRoot_manages (hw : h.Wf noPending) (ht : h.tables t = some r) :
    h.Manages (pageTableEnsurePrivateRoot t) fun _ h' => h.Opened t r h' := by
  obtain ⟨m, hroot, _⟩ := hw.root_node ht
  by_cases hone : m.referenceCount = 1
  · exact .of_returns (Comp.Returns.of_eq (pageTableEnsurePrivateRoot_sole ht hroot hone)
      (hw.opened_sole ht hroot hone))
  · have hpos : 1 ≤ m.referenceCount := (hw.object _ _ hroot).positive
    have hmany : 1 < m.referenceCount := by omega
    by_cases hg : h.Grants 2
    · exact .of_returns (Comp.Returns.of_eq
        (pageTableEnsurePrivateRoot_copied hw ht hroot hmany hg)
        (hw.opened_reopened ht hroot hmany))
    · exact .of_refused (pageTableEnsurePrivateRoot_refused hg ht hroot hone) hw hg

end VmSim
