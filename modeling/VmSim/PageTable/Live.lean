/-
VmSim.PageTable.Live — which page tables there are.

Mapping, unmapping and looking up change tables, but make and destroy
none, in whatever heap they run. So a heap whose tables are those of its
processes (`Heap.Owned`) stays one, and such a heap is empty when the last
process is destroyed.
-/
import VmSim.Lib.Invariant
import VmSim.PageTable.Processes
import VmSim.PageTable.References

namespace VmSim

open Lib Lib.Comp

variable {h h' : Heap} {live : Nat → Bool} {p t : Nat} {x : Process}

/-! ## The invariant -/

/-- The live tables. -/
def Heap.TablesAre (live : Nat → Bool) (h : Heap) : Prop := ∀ t, (h.tables t).isSome = live t

/-- The heap in which a part of a function leaves the tables as they are. -/
theorem Keeps.sameTables {α : Type} {c : Comp Heap α}
    (hc : ∀ h, match c h with
      | .ok _ h' => h'.tables = h.tables
      | .failed h' => h'.tables = h.tables
      | .fault => True) : Keeps (Heap.TablesAre live) anyValue c := by
  intro h hlive
  have hend := hc h
  revert hend
  cases c h with
  | ok a h' => exact fun hsame => ⟨fun t => by rw [hsame]; exact hlive t, trivial⟩
  | failed h' => exact fun hsame t => by rw [hsame]; exact hlive t
  | fault => exact id

theorem allocate_live : Keeps (Heap.TablesAre live) anyValue allocate := by
  refine Keeps.sameTables fun h => ?_
  unfold allocate
  dsimp only
  cases h.allocator.plan h.allocator.calls <;> rfl

theorem newObject_live (object : Object) :
    Keeps (Heap.TablesAre live) anyValue (newObject object) := Keeps.sameTables fun _ => rfl

theorem setObject_live (q : Nat) (object : Option Object) :
    Keeps (Heap.TablesAre live) anyValue (setObject q object) := Keeps.sameTables fun _ => rfl

theorem freeObject_live (q : Nat) : Keeps (Heap.TablesAre live) anyValue (freeObject q) := by
  refine Keeps.sameTables fun h => ?_
  unfold freeObject
  cases h.objects q with
  | none => trivial
  | some object => rfl

theorem readNode_live (q : Nat) : Keeps (Heap.TablesAre live) anyValue (readNode q) := by
  refine Keeps.sameTables fun h => ?_
  unfold readNode
  cases h.objects q with
  | none => trivial
  | some object => cases object <;> trivial

theorem readEntry_live (q : Nat) : Keeps (Heap.TablesAre live) anyValue (readEntry q) := by
  refine Keeps.sameTables fun h => ?_
  unfold readEntry
  cases h.objects q with
  | none => trivial
  | some object => cases object <;> trivial

/-- Whoever reads a table knows that it is live. -/
theorem readTable_live (t : Nat) :
    Keeps (Heap.TablesAre live) (fun _ => live t = true) (readTable t) := by
  intro h hlive
  unfold readTable
  cases ht : h.tables t with
  | none => trivial
  | some table => exact ⟨hlive, by rw [← hlive t, ht]; rfl⟩

theorem setTable_live (ht : live t = true) (table : PageTable) :
    Keeps (Heap.TablesAre live) anyValue (setTable t (some table)) := by
  refine Keeps.modify fun h hlive t' => ?_
  by_cases e : t' = t
  · rw [e, ht]
    simp
  · rw [← hlive t']
    simp [e]

theorem modifyNode_live (q : Nat) (f : PageTableNode → PageTableNode) :
    Keeps (Heap.TablesAre live) anyValue (modifyNode q f) :=
  (readNode_live q).andThen fun _ => setObject_live q _

theorem modifyEntry_live (q : Nat) (f : PageTableEntry → PageTableEntry) :
    Keeps (Heap.TablesAre live) anyValue (modifyEntry q f) :=
  (readEntry_live q).andThen fun _ => setObject_live q _

/-! ## Nodes and entries -/

theorem pageTableNodeCreate_live (level : Nat) :
    Keeps (Heap.TablesAre live) anyValue (pageTableNodeCreate level) :=
  allocate_live.andThen fun _ => allocate_live.andThen fun _ => newObject_live _

theorem pageTableEntryCreate_live (f : Nat) :
    Keeps (Heap.TablesAre live) anyValue (pageTableEntryCreate f) :=
  allocate_live.andThen fun _ => newObject_live _

theorem pageTableEntryRelease_live (q : Nat) :
    Keeps (Heap.TablesAre live) anyValue (pageTableEntryRelease q) := by
  refine (readEntry_live q).andThen fun entry => ?_
  split
  · exact setObject_live q _
  · exact freeObject_live q

theorem pageTableNodeRelease_live (depth : Nat) :
    ∀ q, Keeps (Heap.TablesAre live) anyValue (pageTableNodeRelease depth q) := by
  induction depth with
  | zero => exact fun _ => Keeps.fault
  | succ depth ih =>
    intro q
    refine (readNode_live q).andThen fun node => ?_
    split
    · exact setObject_live q _
    · generalize slotIndices = indices
      refine Keeps.andThen (Keeps.forEach (fun index =>
        (?_ : Keeps (Heap.TablesAre live) anyValue _)) indices) fun _ => freeObject_live q
      cases node.entries index with
      | none => exact Keeps.done
      | some child =>
        dsimp only
        split
        · exact ih child
        · exact pageTableEntryRelease_live child

theorem pageTableCloneSlot_live (source : PageTableNode) (copy : Nat)
    (index : Fin pageTableEntries) :
    Keeps (Heap.TablesAre live) anyValue (pageTableCloneSlot source copy index) := by
  unfold pageTableCloneSlot
  cases source.entries index with
  | none => exact Keeps.done
  | some child =>
    refine (modifyNode_live copy _).andThen fun _ => ?_
    split
    · exact modifyNode_live child _
    · exact modifyEntry_live child _

theorem pageTableNodeCloneShallow_live (q : Nat) :
    Keeps (Heap.TablesAre live) anyValue (pageTableNodeCloneShallow q) := by
  unfold pageTableNodeCloneShallow
  generalize slotIndices = indices
  exact (readNode_live q).andThen fun node => (pageTableNodeCreate_live _).andThen fun copy =>
    (modifyNode_live copy _).andThen fun _ =>
    (Keeps.forEach (pageTableCloneSlot_live node copy) indices).andThen fun _ => Keeps.done

theorem pageTableEntryClone_live (q : Nat) :
    Keeps (Heap.TablesAre live) anyValue (pageTableEntryClone q) :=
  (readEntry_live q).andThen fun _ => allocate_live.andThen fun _ => newObject_live _

/-! ## Page tables -/

theorem pageTableEnsurePrivateRoot_live (t : Nat) :
    Keeps (Heap.TablesAre live) anyValue (pageTableEnsurePrivateRoot t) := by
  refine (readTable_live t).bind fun old ht => (readNode_live _).andThen fun root => ?_
  split
  · exact Keeps.done
  · exact (pageTableNodeCloneShallow_live _).andThen fun _ => (setTable_live ht _).andThen
      fun _ => pageTableNodeRelease_live _ _

theorem pageTableEnsurePrivateChild_live (parent : Nat) (index : Fin pageTableEntries) :
    Keeps (Heap.TablesAre live) anyValue (pageTableEnsurePrivateChild parent index) := by
  refine (readNode_live parent).andThen fun node => (Keeps.orFail _).andThen fun child =>
    (readNode_live child).andThen fun childNode => ?_
  split
  · exact Keeps.done
  · exact (pageTableNodeCloneShallow_live child).andThen fun _ =>
      (modifyNode_live parent _).andThen fun _ => (pageTableNodeRelease_live _ _).andThen
      fun _ => Keeps.done

theorem pageTableMapDescend_live (address : Nat) (levels : List Nat) :
    ∀ current, Keeps (Heap.TablesAre live) anyValue
      (pageTableMapDescend address levels current) := by
  induction levels with
  | nil => exact fun _ => Keeps.done
  | cons level levels ih =>
    intro current
    refine (readNode_live current).andThen fun node => ?_
    dsimp only
    split
    · exact (pageTableNodeCreate_live _).andThen fun child =>
        (modifyNode_live current _).andThen fun _ => ih child
    · exact (pageTableEnsurePrivateChild_live current _).andThen ih

theorem pageTablePrivateEntry_live (leaf : Nat) (index : Fin pageTableEntries) (old : Nat) :
    Keeps (Heap.TablesAre live) anyValue (pageTablePrivateEntry leaf index old) := by
  refine (readEntry_live old).andThen fun entry => ?_
  split
  · exact (pageTableEntryClone_live old).andThen fun _ =>
      (pageTableEntryRelease_live old).andThen fun _ =>
      (modifyNode_live leaf _).andThen fun _ => Keeps.done
  · exact Keeps.done

theorem pageTableMap_live (t a f : Nat) :
    Keeps (Heap.TablesAre live) anyValue (pageTableMap t a f) := by
  refine (pageTableEnsurePrivateRoot_live t).andThen fun _ => (readTable_live t).andThen
    fun root => (pageTableMapDescend_live a _ _).andThen fun leaf =>
    (readNode_live leaf).andThen fun leafNode => ?_
  dsimp only
  split
  · exact (pageTableEntryCreate_live f).andThen fun _ => modifyNode_live leaf _
  · exact (pageTablePrivateEntry_live leaf _ _).andThen fun _ => modifyEntry_live _ _

theorem pageTableWalk_live (address : Nat) (levels : List Nat) :
    ∀ current visited, Keeps (Heap.TablesAre live) anyValue
      (pageTableWalk address levels current visited) := by
  induction levels with
  | nil =>
    intro current visited
    refine (readNode_live current).andThen fun node => ?_
    split
    · exact Keeps.done
    · exact (readEntry_live _).andThen fun _ => Keeps.done
  | cons level levels ih =>
    intro current visited
    refine (readNode_live current).andThen fun node => ?_
    split
    · exact Keeps.done
    · exact ih _ _

theorem pageTableLookupWithLevels_live (t a : Nat) :
    Keeps (Heap.TablesAre live) anyValue (pageTableLookupWithLevels t a) :=
  (readTable_live t).andThen fun _ => pageTableWalk_live a _ _ _

theorem pageTableLookup_live (t a : Nat) :
    Keeps (Heap.TablesAre live) anyValue (pageTableLookup t a) :=
  (pageTableLookupWithLevels_live t a).andThen fun _ => Keeps.done

theorem pageTableUnmapDescend_live (address : Nat) (levels : List Nat) :
    ∀ current ancestors, Keeps (Heap.TablesAre live) anyValue
      (pageTableUnmapDescend address levels current ancestors) := by
  induction levels with
  | nil => exact fun _ _ => Keeps.done
  | cons level levels ih =>
    intro current ancestors
    exact (pageTableEnsurePrivateChild_live current _).andThen fun child => ih child _

theorem pageTablePrune_live (ancestors : List (Nat × Fin pageTableEntries)) :
    ∀ current, Keeps (Heap.TablesAre live) anyValue (pageTablePrune current ancestors) := by
  induction ancestors with
  | nil => exact fun _ => Keeps.done
  | cons ancestor ancestors ih =>
    intro current
    refine (readNode_live current).andThen fun node => ?_
    split
    · exact Keeps.done
    · exact (freeObject_live current).andThen fun _ => (modifyNode_live _ _).andThen
        fun _ => ih _

theorem pageTableUnmap_live (t a : Nat) :
    Keeps (Heap.TablesAre live) anyValue (pageTableUnmap t a) :=
  (pageTableLookup_live t a).andThen fun _ => (Keeps.failIf _).andThen fun _ =>
    (pageTableEnsurePrivateRoot_live t).andThen fun _ => (readTable_live t).andThen fun _ =>
    (pageTableUnmapDescend_live a _ _ _).andThen fun _ => (readNode_live _).andThen fun _ =>
    (Keeps.orFail _).andThen fun _ => (pageTableEntryRelease_live _).andThen fun _ =>
    (modifyNode_live _ _).andThen fun _ => pageTablePrune_live _ _

/-! ## Creation and cloning -/

theorem newTable_leads (table : PageTable) : Leads (Heap.TablesAre live) (newTable table)
    fun t h => h.TablesAre (Function.update live t true) := by
  intro h t h' hlive hrun
  cases hrun
  intro t'
  by_cases e : t' = h.nextTable
  · simp [e]
  · simpa [e] using hlive t'

theorem pageTableCreate_leads : Leads (Heap.TablesAre live) pageTableCreate
    fun t h => h.TablesAre (Function.update live t true) :=
  allocate_live.leads.bind fun _ => Leads.given fun _ =>
    (pageTableNodeCreate_live 0).leads.bind fun _ => Leads.given fun _ => newTable_leads _

theorem pageTableCloneShared_leads (source : Nat) :
    Leads (Heap.TablesAre live) (pageTableCloneShared source)
      fun t h => h.TablesAre (Function.update live t true) :=
  (readTable_live source).leads.bind fun _ => Leads.given fun _ =>
    allocate_live.leads.bind fun _ => Leads.given fun _ =>
    (modifyNode_live _ _).leads.bind fun _ => Leads.given fun _ => newTable_leads _

/-! ## Processes -/

theorem readProcess_live (p : Nat) : Keeps (Heap.TablesAre live) anyValue (readProcess p) := by
  refine Keeps.sameTables fun h => ?_
  unfold readProcess
  cases h.processes p with
  | none => trivial
  | some x => rfl

theorem newProcess_live (x : Process) : Keeps (Heap.TablesAre live) anyValue (newProcess x) :=
  Keeps.sameTables fun _ => rfl

/-- One more table. -/
def Heap.TablesAdd (live : Nat → Bool) (h : Heap) : Prop :=
  ∃ t, h.TablesAre (Function.update live t true)

theorem processCreate_leads (pid : Int) :
    Leads (Heap.TablesAre live) (processCreate pid) fun _ => Heap.TablesAdd live :=
  (Leads.failIf _).bind fun _ => allocate_live.leads.bind fun _ => Leads.given fun _ =>
    pageTableCreate_leads.bind fun t => (newProcess_live _).leads.mono
      fun _ _ hlive => ⟨t, hlive.2⟩

theorem processFork_leads (parent : Nat) (childPid : Int) :
    Leads (Heap.TablesAre live) (processFork parent childPid) fun _ => Heap.TablesAdd live :=
  (Leads.failIf _).bind fun _ => allocate_live.leads.bind fun _ => Leads.given fun _ =>
    (readProcess_live parent).leads.bind fun _ => Leads.given fun _ =>
    (pageTableCloneShared_leads _).bind fun t => (newProcess_live _).leads.mono
      fun _ _ hlive => ⟨t, hlive.2⟩

/-- Every live table belongs to a process. -/
def Heap.Owned (h : Heap) : Prop :=
  ∀ t, (h.tables t).isSome = true → ∃ p x, h.processes p = some x ∧ x.pageTable = t

theorem Heap.Owned.congr (ho : h.Owned) (hlive : h'.TablesAre fun t => (h.tables t).isSome)
    (hprocesses : h'.processes = h.processes) : h'.Owned := by
  intro t ht
  rw [hlive t] at ht
  rw [hprocesses]
  exact ho t ht

/-- The table of a new process is the new table. -/
theorem Heap.Owned.spawned {pid : Int} {frames : Nat → Option Nat} (ho : h.Owned) (hs : h.Tame)
    (hpid : 0 ≤ pid) (hspawned : h.Spawned pid frames h')
    (hadd : h'.TablesAdd fun t => (h.tables t).isSome) : h'.Owned := by
  obtain ⟨fresh, hlive⟩ := hadd
  have hnew : 0 ≤ h'.pid h.nextProcess := by
    rw [hspawned.pid_eq, Function.update_self]
    exact hpid
  obtain ⟨x, hx⟩ := Heap.process_of_pid hnew
  have hold : ∀ t, (h.tables t).isSome = true →
      ∃ p y, p < h.nextProcess ∧ h'.processes p = some y ∧ y.pageTable = t := by
    intro t ht
    obtain ⟨p, y, hy, htable⟩ := ho t ht
    exact ⟨p, y, hs.process_lt p y hy, hspawned.live p y hy, htable⟩
  intro t ht
  rw [hlive t] at ht
  by_cases e : t = fresh
  · refine ⟨h.nextProcess, x, hx, ?_⟩
    rw [e]
    by_contra hne
    -- the table would be an old one, and that has an owner
    obtain ⟨r, hr⟩ := hspawned.tame.table _ x hx
    have hlive' := hlive x.pageTable
    rw [hr, Function.update_of_ne hne] at hlive'
    obtain ⟨p, y, hlt, hy, htable⟩ := hold _ hlive'.symm
    exact absurd (hspawned.tame.owned p _ y x hy hx htable) (Nat.ne_of_lt hlt)
  · rw [Function.update_of_ne e] at ht
    obtain ⟨p, y, _, hy, htable⟩ := hold t ht
    exact ⟨p, y, hy, htable⟩

/-! ## The end of processes -/

/-- The heap without a process. -/
structure Heap.Bereft (h : Heap) (p : Nat) (h' : Heap) : Prop where
  tame : h'.Tame
  processes : h'.processes = Function.update h.processes p none
  owned : h.Owned → h'.Owned

/-- The processes are no part of the trie. -/
theorem Heap.Wf.withProcesses (hw : h.Wf noPending) (processes : Nat → Option Process) :
    ({ h with processes := processes } : Heap).Wf noPending :=
  ⟨hw.objects_lt, hw.tables_lt, hw.object, hw.counted, hw.slots_lt, hw.rank, hw.same_rank,
    hw.root_lt, hw.root_rank⟩

theorem processDestroy_spec (hs : h.Tame) (hx : h.processes p = some x) :
    Returns (processDestroy p) h fun _ h' => h.Bereft p h' := by
  obtain ⟨r, hr⟩ := hs.table p x hx
  obtain ⟨u, h₁, hrun, hgone⟩ := pageTableDestroy_spec hs.wf hr
  have hread : readProcess p h = .ok x h := by simp only [readProcess, hx]
  have hother : ∀ q y, Function.update h₁.processes p none q = some y →
      q ≠ p ∧ h.processes q = some y := by
    intro q y hy
    by_cases e : q = p
    · rw [e, Function.update_self] at hy
      cases hy
    · rw [Function.update_of_ne e, hgone.processes] at hy
      exact ⟨e, hy⟩
  have hne : ∀ q y, q ≠ p → h.processes q = some y → y.pageTable ≠ x.pageTable :=
    fun q y hq hy e => hq (hs.owned q p y x hy hx e)
  refine Returns.of_eq (a := ())
    (t := { h₁ with processes := Function.update h₁.processes p none }) ?_
    ⟨⟨hgone.wf.withProcesses _, fun q y hy => ?_, fun q y hy => ?_, fun q y hy => ?_,
      fun q q' y y' hy hy' => ?_⟩, ?_, fun ho t ht => ?_⟩
  · rw [processDestroy, bind_ok hread, bind_ok hrun]
    rfl
  · obtain ⟨_, hy'⟩ := hother q y hy
    show q < h₁.nextProcess
    rw [hgone.nextProcess]
    exact hs.process_lt q y hy'
  · exact hs.pid q y (hother q y hy).2
  · obtain ⟨hq, hy'⟩ := hother q y hy
    obtain ⟨r', hr'⟩ := hs.table q y hy'
    refine Option.isSome_iff_exists.mp ((hgone.tables _).trans ?_)
    rw [hr', decide_eq_false (hne q y hq hy')]
    rfl
  · exact hs.owned q q' y y' (hother q y hy).2 (hother q' y' hy').2
  · show Function.update h₁.processes p none = _
    rw [hgone.processes]
  · have hlive : (h₁.tables t).isSome = true := ht
    rw [hgone.tables t, Bool.and_eq_true, Bool.not_eq_true', decide_eq_false_iff_not] at hlive
    obtain ⟨q, y, hy, htable⟩ := ho t hlive.2
    refine ⟨q, y, ?_, htable⟩
    have hq : q ≠ p := by
      rintro rfl
      rw [hx] at hy
      cases hy
      exact hlive.1 htable.symm
    show Function.update h₁.processes p none q = some y
    rw [Function.update_of_ne hq, hgone.processes]
    exact hy

/-- No table, node or entry is left where no process is. -/
theorem Heap.Owned.empty (ho : h.Owned) (hw : h.Wf noPending) (hnone : ∀ p, h.processes p = none) :
    (∀ t, h.tables t = none) ∧ ∀ q, h.objects q = none := by
  have htables : ∀ t, h.tables t = none := by
    intro t
    refine Option.not_isSome_iff_eq_none.mp fun ht => ?_
    obtain ⟨p, x, hx, _⟩ := ho t ht
    rw [hnone p] at hx
    cases hx
  exact ⟨htables, hw.exact.empty htables⟩

/-- The processes are destroyed in any order. -/
theorem destroyAll_spec (processes : List Nat) : ∀ h : Heap, h.Tame → h.Owned →
    processes.Nodup → (∀ p ∈ processes, ∃ x, h.processes p = some x) →
    Returns (forEach processDestroy processes) h fun _ h' => h'.Tame ∧ h'.Owned ∧
      ∀ p, h'.processes p = if p ∈ processes then none else h.processes p := by
  induction processes with
  | nil => exact fun h hs ho _ _ => Returns.pure ⟨hs, ho, fun p => by simp⟩
  | cons p processes ih =>
    intro h hs ho hnodup hlive
    obtain ⟨hp, hrest⟩ := List.nodup_cons.mp hnodup
    obtain ⟨⟨x, hx⟩, hlater⟩ := List.forall_mem_cons.mp hlive
    refine (processDestroy_spec hs hx).bind fun _ h₁ hgone => ?_
    have hstill : ∀ q ∈ processes, ∃ y, h₁.processes q = some y := by
      intro q hq
      obtain ⟨y, hy⟩ := hlater q hq
      have hne : q ≠ p := by
        rintro rfl
        exact hp hq
      exact ⟨y, by rw [hgone.processes, Function.update_of_ne hne, hy]⟩
    refine (ih h₁ hgone.tame (hgone.owned ho) hrest hstill).mono
      fun _ h' ⟨hs', ho', hend⟩ => ⟨hs', ho', fun q => ?_⟩
    rw [hend q, hgone.processes]
    by_cases hq : q ∈ processes
    · simp [hq]
    · by_cases e : q = p
      · simp [e]
      · simp [hq, e]

/-! ## Shared roots -/

/-- `page_table_shares_root` on tables that are not NULL. -/
def pageTableSharesRoot (first second : Nat) : Comp Heap Bool := do
  let first ← readTable first
  let second ← readTable second
  return first.root == second.root

def pageTableRootReferenceCount (table : Nat) : Comp Heap Nat := do
  let t ← readTable table
  let root ← readNode t.root
  return root.referenceCount

/-- The processes whose tables have the root of the table of `p`. -/
def Heap.rootSharers (h : Heap) (p : Nat) : Set Nat :=
  {q | ∃ x y, h.processes p = some x ∧ h.processes q = some y ∧
    pageTableSharesRoot x.pageTable y.pageTable h = .ok true h}

theorem pageTableSharesRoot_run {s : Nat} {r r' : PageTable} (hr : h.tables t = some r)
    (hr' : h.tables s = some r') : pageTableSharesRoot t s h = .ok (r.root == r'.root) h := by
  have hread : readTable t h = .ok r h := by simp only [readTable, hr]
  have hread' : readTable s h = .ok r' h := by simp only [readTable, hr']
  rw [pageTableSharesRoot, bind_ok hread, bind_ok hread']
  rfl

/-- No slot points to a root. -/
theorem Heap.Exact.parentSlots_root (hx : h.Exact) {q : Nat} {n : PageTableNode}
    (hn : h.objects q = some (.node n)) (hlevel : n.level = 0) : h.parentSlots q = ∅ := by
  refine Set.eq_empty_iff_forall_notMem.mpr fun slot hslot => ?_
  obtain ⟨m, hm, hi⟩ := hslot
  obtain ⟨hbound, hnode, hentry⟩ := hx.child _ _ _ _ hm hi
  by_cases hinner : m.level < pageTableLevels - 1
  · obtain ⟨n', hn', hlevel'⟩ := hnode hinner
    rw [hn] at hn'
    cases hn'
    omega
  · obtain ⟨e, he⟩ := hentry (by omega)
    rw [hn] at he
    cases he

/-- The tables with a root are those of the processes that share it. -/
theorem Heap.Owned.holders (ho : h.Owned) (hs : h.Tame) {r : PageTable}
    (hx : h.processes p = some x) (hr : h.tables x.pageTable = some r) :
    (h.holders r.root).encard = (h.rootSharers p).encard := by
  -- the table of a process, and 0 for what is no process
  let tableOf : Nat → Nat := fun q => (h.processes q).elim 0 (·.pageTable)
  have hshares : ∀ q y, h.processes q = some y →
      (q ∈ h.rootSharers p ↔ y.pageTable ∈ h.holders r.root) := by
    intro q y hy
    obtain ⟨r', hr'⟩ := hs.table q y hy
    have hrun := pageTableSharesRoot_run hr hr'
    constructor
    · rintro ⟨x', y', hx', hy', hsame⟩
      rw [hx] at hx'
      rw [hy] at hy'
      cases hx'
      cases hy'
      rw [hrun] at hsame
      have hroot : (r.root == r'.root) = true := by injection hsame
      exact ⟨r', hr', (beq_iff_eq.mp hroot).symm⟩
    · rintro ⟨r'', hr'', hroot⟩
      rw [hr'] at hr''
      cases hr''
      refine ⟨x, y, hx, hy, ?_⟩
      rw [hrun, hroot, beq_self_eq_true]
  have himage : h.holders r.root = tableOf '' h.rootSharers p := by
    ext t'
    constructor
    · intro ht'
      obtain ⟨r', hr', _⟩ := id ht'
      obtain ⟨q, y, hy, rfl⟩ := ho t' (by rw [hr']; rfl)
      exact ⟨q, (hshares q y hy).mpr ht', by simp [tableOf, hy]⟩
    · rintro ⟨q, hq, rfl⟩
      obtain ⟨_, y, _, hy, _⟩ := id hq
      have htable : tableOf q = y.pageTable := by simp [tableOf, hy]
      rw [htable]
      exact (hshares q y hy).mp hq
  rw [himage]
  refine Set.InjOn.encard_image fun q hq q' hq' hsame => ?_
  obtain ⟨_, y, _, hy, _⟩ := hq
  obtain ⟨_, y', _, hy', _⟩ := hq'
  refine hs.owned q q' y y' hy hy' ?_
  simpa [tableOf, hy, hy'] using hsame

/-- The count of a root is the number of processes that share it. -/
theorem pageTableRootReferenceCount_run (ho : h.Owned) (hs : h.Tame)
    (hx : h.processes p = some x) : ∃ count : Nat,
      pageTableRootReferenceCount x.pageTable h = .ok count h ∧
        (count : ℕ∞) = (h.rootSharers p).encard := by
  obtain ⟨r, hr⟩ := hs.table p x hx
  have hexact := hs.wf.exact
  obtain ⟨n, hn, hlevel⟩ := hexact.root _ _ hr
  have hread : readTable x.pageTable h = .ok r h := by simp only [readTable, hr]
  have hroot : readNode r.root h = .ok n h := by simp only [readNode, hn]
  refine ⟨n.referenceCount, ?_, ?_⟩
  · rw [pageTableRootReferenceCount, bind_ok hread, bind_ok hroot]
    rfl
  · rw [hexact.node _ _ hn, hexact.parentSlots_root hn hlevel, ho.holders hs hx hr,
      Set.encard_empty, add_zero]

end VmSim
