/-
VmSim.PageTable.Allocation — a fork on a heap whose allocations may fail.

`process_fork` draws from the allocator twice. `Heap.forked` is the heap
once both draws have succeeded, and `Heap.unforked` the heap after the
child has been destroyed again: only the names that were handed out differ
from before.
-/
import VmSim.PageTable.Processes

namespace VmSim

open Lib

variable {h h' : Heap} {p : Nat} {x : Process} {r : PageTable} {n : PageTableNode} {pid : Int}
  {allocator : Allocator}

/-! ## Allocators -/

def Allocator.draw (allocator : Allocator) : Allocator :=
  { allocator with calls := allocator.calls + 1 }

def Allocator.Plenty (allocator : Allocator) : Prop := ∀ k, allocator.plan k = true

theorem allocate_supplied (h : Heap) (allocator : Allocator) :
    allocate (h.supplied allocator) =
      if allocator.plan allocator.calls then .ok () (h.supplied allocator.draw)
      else .failed (h.supplied allocator.draw) := rfl

theorem Heap.Sound.supplied (hs : h.Sound) (ha : allocator.Plenty) :
    (h.supplied allocator).Sound :=
  ⟨⟨hs.wf.supplied allocator, hs.process_lt, hs.pid, hs.table, hs.owned⟩, ha⟩

/-! ## A fork -/

/-- The heap after `process_fork`, where the root of the parent's table is
the node `n`. -/
def Heap.forked (h : Heap) (root : Nat) (n : PageTableNode) (pid : Int) : Heap :=
  { (h.setObject root (some (.node { n with referenceCount := n.referenceCount + 1 }))).addTable
      ⟨root⟩ with
    processes := Function.update h.processes h.nextProcess (some ⟨pid, h.nextTable⟩)
    nextProcess := h.nextProcess + 1 }

def Heap.unforked (h : Heap) : Heap :=
  { h with nextTable := h.nextTable + 1, nextProcess := h.nextProcess + 1 }

/-- The root node of a process's table. -/
theorem Heap.Sound.root (hs : h.Sound) (hx : h.processes p = some x) :
    ∃ r n, h.tables x.pageTable = some r ∧ h.objects r.root = some (.node n) := by
  obtain ⟨r, hr⟩ := hs.table p x hx
  obtain ⟨n, hn, _⟩ := hs.wf.root_node hr
  exact ⟨r, n, hr, hn⟩

theorem processFork_supplied (hx : h.processes p = some x) (hr : h.tables x.pageTable = some r)
    (hn : h.objects r.root = some (.node n)) (hpid : 0 ≤ pid) (allocator : Allocator) :
    processFork p pid (h.supplied allocator) =
      if allocator.plan allocator.calls then
        if allocator.plan (allocator.calls + 1) then
          .ok h.nextProcess ((h.forked r.root n pid).supplied allocator.draw.draw)
        else .failed (h.supplied allocator.draw.draw)
      else .failed (h.supplied allocator.draw) := by
  have hread : readProcess p (h.supplied allocator.draw) = .ok x (h.supplied allocator.draw) := by
    have hx' : (h.supplied allocator.draw).processes p = some x := hx
    simp only [readProcess, hx']
  have htable : (h.supplied allocator.draw).tables x.pageTable = some r := hr
  have hnode : (h.supplied allocator.draw.draw).objects r.root = some (.node n) := hn
  rw [processFork, Comp.bind_ok (failIf_pid hpid _)]
  by_cases hfirst : allocator.plan allocator.calls = true
  · rw [if_pos hfirst, Comp.bind_ok ((allocate_supplied h allocator).trans (if_pos hfirst)),
      Comp.bind_ok hread, pageTableCloneShared, Comp.bind_assoc,
      Comp.bind_ok (readTable_run htable), Comp.bind_assoc]
    by_cases hsecond : allocator.plan (allocator.calls + 1) = true
    · rw [if_pos hsecond,
        Comp.bind_ok ((allocate_supplied h allocator.draw).trans (if_pos hsecond)),
        pageTableNodeRetain, Comp.bind_assoc, Comp.bind_ok (modifyNode_run _ hnode)]
      rfl
    · rw [if_neg hsecond,
        Comp.bind_failed ((allocate_supplied h allocator.draw).trans (if_neg hsecond))]
  · rw [if_neg hfirst, Comp.bind_failed ((allocate_supplied h allocator).trans (if_neg hfirst))]

theorem Heap.Sound.nextProcess_none (hs : h.Sound) : h.processes h.nextProcess = none := by
  cases hx : h.processes h.nextProcess with
  | none => rfl
  | some x => exact absurd (hs.process_lt _ x hx) (Nat.lt_irrefl _)

/-- The child holds the second reference to the root, so destroying it
takes that reference back. -/
theorem processDestroy_forked (hs : h.Sound) (hn : h.objects r.root = some (.node n))
    (pid : Int) (allocator : Allocator) :
    processDestroy h.nextProcess ((h.forked r.root n pid).supplied allocator) =
      .ok () (h.unforked.supplied allocator) := by
  have hpositive : 1 ≤ n.referenceCount := (hs.wf.object r.root _ hn).positive
  have hread : readProcess h.nextProcess ((h.forked r.root n pid).supplied allocator) =
      .ok ⟨pid, h.nextTable⟩ ((h.forked r.root n pid).supplied allocator) := by
    simp [readProcess, Heap.supplied, Heap.forked]
  have htable : ((h.forked r.root n pid).supplied allocator).tables h.nextTable =
      some ⟨r.root⟩ := by
    simp [Heap.supplied, Heap.forked, Heap.addTable, Heap.setObject]
  have hnode : ((h.forked r.root n pid).supplied allocator).objects r.root =
      some (.node { n with referenceCount := n.referenceCount + 1 }) := by
    simp [Heap.supplied, Heap.forked, Heap.addTable, Heap.setObject]
  have hrelease : pageTableNodeRelease pageTableLevels r.root
      ((h.forked r.root n pid).supplied allocator) =
      .ok () (((h.forked r.root n pid).supplied allocator).setObject r.root (some (.node n))) := by
    rw [pageTableLevels, pageTableNodeRelease, Comp.bind_ok (readNode_run hnode),
      if_pos (Nat.lt_succ_of_le hpositive)]
    rfl
  rw [processDestroy, Comp.bind_ok hread, pageTableDestroy, Comp.bind_assoc,
    Comp.bind_ok (readTable_run htable), Comp.bind_assoc, Comp.bind_ok hrelease]
  -- every update is undone
  have hobjects : Function.update (Function.update h.objects r.root
      (some (Object.node { n with referenceCount := n.referenceCount + 1 }))) r.root
      (some (.node n)) = h.objects := by
    rw [Function.update_idem, ← hn, Function.update_eq_self]
  have htables : Function.update (Function.update h.tables h.nextTable (some ⟨r.root⟩))
      h.nextTable none = h.tables := by
    rw [Function.update_idem, ← hs.wf.nextTable_none, Function.update_eq_self]
  have hprocesses : Function.update (Function.update h.processes h.nextProcess
      (some ⟨pid, h.nextTable⟩)) h.nextProcess none = h.processes := by
    rw [Function.update_idem, ← hs.nextProcess_none, Function.update_eq_self]
  show Outcome.ok () ({ h with
    objects := Function.update (Function.update h.objects r.root
      (some (Object.node { n with referenceCount := n.referenceCount + 1 }))) r.root
      (some (.node n))
    tables := Function.update (Function.update h.tables h.nextTable (some ⟨r.root⟩))
      h.nextTable none
    nextTable := h.nextTable + 1
    processes := Function.update (Function.update h.processes h.nextProcess
      (some ⟨pid, h.nextTable⟩)) h.nextProcess none
    nextProcess := h.nextProcess + 1
    allocator := allocator } : Heap) = _
  rw [hobjects, htables, hprocesses]
  rfl

/-- A name that is skipped changes nothing. -/
theorem Heap.Sound.unforked (hs : h.Sound) (ha : allocator.Plenty) :
    (h.unforked.supplied allocator).Sound := by
  have hw := hs.wf.skipTable
  exact ⟨⟨⟨hw.objects_lt, hw.tables_lt, hw.object, hw.counted, hw.slots_lt, hw.rank, hw.same_rank,
    hw.root_lt, hw.root_rank⟩, fun p x hx => Nat.lt_succ_of_lt (hs.process_lt p x hx), hs.pid,
    hs.table, hs.owned⟩, ha⟩

theorem Heap.Sound.forked (hs : h.Sound) (hx : h.processes p = some x)
    (hr : h.tables x.pageTable = some r) (hn : h.objects r.root = some (.node n)) (hpid : 0 ≤ pid)
    (ha : allocator.Plenty) : ((h.forked r.root n pid).supplied allocator).Sound := by
  have hs₀ := hs.supplied ha
  obtain ⟨child, h₁, hrun, _, hspawned⟩ := processFork_spec hs₀
    (show (h.supplied allocator).processes p = some x from hx) hpid
  rw [processFork_supplied hx hr hn hpid, if_pos (ha _), if_pos (ha _)] at hrun
  cases hrun
  exact (hspawned.sound hs₀).supplied ha

/-! ## Lookups -/

theorem readNode_alike (ho : h'.objects = h.objects) (pointer : Nat) :
    Comp.Alike (readNode pointer) h h' := by
  unfold Comp.Alike readNode
  rw [ho]
  cases h.objects pointer with
  | none => exact Or.inr ⟨rfl, rfl⟩
  | some o =>
    cases o with
    | node n => exact Or.inl ⟨n, rfl, rfl⟩
    | entry e => exact Or.inr ⟨rfl, rfl⟩

theorem readEntry_alike (ho : h'.objects = h.objects) (pointer : Nat) :
    Comp.Alike (readEntry pointer) h h' := by
  unfold Comp.Alike readEntry
  rw [ho]
  cases h.objects pointer with
  | none => exact Or.inr ⟨rfl, rfl⟩
  | some o =>
    cases o with
    | node n => exact Or.inr ⟨rfl, rfl⟩
    | entry e => exact Or.inl ⟨e, rfl, rfl⟩

/-- A descent reads nothing but the objects. -/
theorem pageTableWalk_alike (ho : h'.objects = h.objects) (a : Nat) (levels : List Nat) :
    ∀ current visited, Comp.Alike (pageTableWalk a levels current visited) h h' := by
  induction levels with
  | nil =>
    intro current visited
    unfold pageTableWalk
    refine (readNode_alike ho current).bind fun node => ?_
    split
    · exact Comp.Alike.pure _ h h'
    · exact (readEntry_alike ho _).bind fun _ => Comp.Alike.pure _ h h'
  | cons level levels ih =>
    intro current visited
    unfold pageTableWalk
    refine (readNode_alike ho current).bind fun node => ?_
    split
    · exact Comp.Alike.pure _ h h'
    · exact ih _ _

theorem pageTableLookup_alike (ho : h'.objects = h.objects) (ht : h'.tables = h.tables)
    (t a : Nat) : Comp.Alike (pageTableLookup t a) h h' := by
  have hread : Comp.Alike (readTable t) h h' := by
    unfold Comp.Alike readTable
    rw [ht]
    cases h.tables t with
    | none => exact Or.inr ⟨rfl, rfl⟩
    | some r => exact Or.inl ⟨r, rfl, rfl⟩
  exact (hread.bind fun r => pageTableWalk_alike ho a _ _ _).bind fun _ =>
    Comp.Alike.pure _ h h'

end VmSim
