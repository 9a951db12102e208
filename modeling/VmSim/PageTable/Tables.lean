/-
VmSim.PageTable.Tables — whole page tables: creation, shared cloning and
destruction, and the trie as a family of independent maps.

`TableMaps` is what the component is for: every live table is a map of
its own from page keys to frame numbers. `Heap.tableStep` runs a call on
the heap. `tableMaps_refined` says that the replies of the heap are those
of the maps, for every sequence of calls on live tables, and that the
heap never faults on the way.
-/
import VmSim.PageTable.Unmapping
import VmSim.Lib.Transition

namespace VmSim

open Lib

variable {h h' : Heap} {t : Nat} {r : PageTable}

/-! ## Creation, cloning, destruction -/

/-- A new table that answers `frames`. -/
structure Heap.Tabled (frames : Nat → Option Nat) (h h' : Heap) : Prop where
  wf : h'.Wf noPending
  nextTable : h'.nextTable = h.nextTable + 1
  processes : h'.processes = h.processes
  nextProcess : h'.nextProcess = h.nextProcess
  plan : h'.allocator.plan = h.allocator.plan
  live : ∀ t, (h'.tables t).isSome = (decide (t = h.nextTable) || (h.tables t).isSome)
  frameOf : ∀ t page, h'.frameOf t page = if t = h.nextTable then frames page else h.frameOf t page

theorem Heap.addTable_live (h : Heap) (table : PageTable) (t : Nat) :
    ((h.addTable table).tables t).isSome = (decide (t = h.nextTable) || (h.tables t).isSome) := by
  by_cases e : t = h.nextTable <;> simp [Heap.addTable, e]

theorem pageTableCreate_spec (hw : h.Wf noPending) (hg : h.Grants 3) :
    Comp.Returns pageTableCreate h fun table h' =>
      table = h.nextTable ∧ h.Tabled (fun _ => none) h' := by
  let root : PageTableNode := ⟨fun _ => none, 0, 0, 1⟩
  have hw₁ : (h.drawn.drawn.drawn.addObject (.node root)).Wf
      fun q => noPending q + pointsTo (some h.next) q := by
    refine hw.drawn.drawn.drawn.addFresh ⟨Nat.le_refl 1, fun m hm => ?_, fun m hm => (by cases hm)⟩
      rfl fun _ => rfl
    cases hm
    exact ⟨by decide, (filled_eq_zero.mpr fun _ => rfl).symm⟩
  have hroot : (h.drawn.drawn.drawn.addObject (.node root)).objects h.next = some (.node root) := by
    simp [Heap.addObject, Heap.drawn]
  have hw₂ : ((h.drawn.drawn.drawn.addObject (.node root)).addTable ⟨h.next⟩).Wf noPending :=
    hw₁.addTable ⟨_, hroot, rfl⟩ fun q => by simp [noPending]
  refine Comp.Returns.of_eq (a := h.nextTable)
    (t := (h.drawn.drawn.drawn.addObject (.node root)).addTable ⟨h.next⟩) ?_
    ⟨rfl, hw₂, rfl, rfl, rfl, rfl, Heap.addTable_live _ _, fun t page => ?_⟩
  · rw [pageTableCreate, Comp.bind_ok (allocate_granted hg),
      Comp.bind_ok (pageTableNodeCreate_run (Heap.grants_succ.mp hg).2 0)]
    rfl
  · have hold : ∀ path q, ((h.drawn.drawn.drawn.addObject (.node root)).addTable ⟨h.next⟩).frameAt q
        path = (h.drawn.drawn.drawn.addObject (.node root)).frameAt q path :=
      fun path q => Heap.frameAt_of_objects (by rfl) path q
    by_cases e : t = h.nextTable
    · have ht : ((h.drawn.drawn.drawn.addObject (.node root)).addTable ⟨h.next⟩).tables t =
          some ⟨h.next⟩ := by simp [Heap.addTable, Heap.addObject, Heap.drawn, e]
      rw [if_pos e, Heap.frameOf, ht, Option.bind_some, hold]
      simp [keyPath, Heap.frameAt, Heap.slots_of_some hroot, Object.slots, root]
    · have ht : ((h.drawn.drawn.drawn.addObject (.node root)).addTable ⟨h.next⟩).tables t =
          h.tables t := by simp [Heap.addTable, Heap.addObject, Heap.drawn, e]
      rw [if_neg e, Heap.frameOf, Heap.frameOf, ht]
      cases ht' : h.tables t with
      | none => rfl
      | some r =>
        rw [Option.bind_some, Option.bind_some, hold]
        have hnew := hw.drawn.drawn.drawn.frameAt_addObject (o := .node root) (hw.root_lt t r ht')
          (keyPath page)
        rw [hnew]
        exact Heap.frameAt_of_objects (by rfl) _ _

theorem pageTableCloneShared_spec (hw : h.Wf noPending) (hp : h.Plenty) (ht : h.tables t = some r) :
    Comp.Returns (pageTableCloneShared t) h fun table h' =>
      table = h.nextTable ∧ h.Tabled (h.frameOf t) h' := by
  obtain ⟨n, hroot, hrank⟩ := hw.root_node ht
  have hroot₀ : h.drawn.objects r.root = some (.node n) := hroot
  have hw₀ : h.drawn.Wf noPending := hw.drawn
  have hw₁ : (h.drawn.setObject r.root (some (Object.setCount (n.referenceCount + 1) (.node n)))).Wf
      fun q => noPending q + pointsTo (some r.root) q := hw₀.takeOne hroot₀
  have hw₂ : ((h.drawn.setObject r.root
      (some (Object.setCount (n.referenceCount + 1) (.node n)))).addTable ⟨r.root⟩).Wf noPending :=
    hw₁.addTable ⟨_, Heap.setObject_self _ _ _, hrank⟩ fun q => by simp [noPending]
  refine Comp.Returns.of_eq (a := h.nextTable) (t := (h.drawn.setObject r.root
      (some (Object.setCount (n.referenceCount + 1) (.node n)))).addTable ⟨r.root⟩) ?_
    ⟨rfl, hw₂, rfl, rfl, rfl, rfl, Heap.addTable_live _ _, fun t' page => ?_⟩
  · rw [pageTableCloneShared, Comp.bind_ok (readTable_run ht), Comp.bind_ok (allocate_run hp),
      pageTableNodeRetain, Comp.bind_ok (modifyNode_run _ hroot₀)]
    rfl
  · have hold : ∀ path q, ((h.drawn.setObject r.root (some (Object.setCount (n.referenceCount + 1)
        (.node n)))).addTable ⟨r.root⟩).frameAt q path = h.frameAt q path := by
      intro path q
      have hcount := Heap.frameAt_setCount hroot₀ (n.referenceCount + 1) q path
      have hdrawn : h.drawn.frameAt q path = h.frameAt q path :=
        Heap.frameAt_of_objects (by rfl) path q
      rw [← hdrawn, ← hcount]
      exact Heap.frameAt_of_objects (by rfl) path q
    by_cases e : t' = h.nextTable
    · have ht' : ((h.drawn.setObject r.root (some (Object.setCount (n.referenceCount + 1)
          (.node n)))).addTable ⟨r.root⟩).tables t' = some ⟨r.root⟩ := by
        simp [Heap.addTable, Heap.setObject, Heap.drawn, e]
      rw [if_pos e, Heap.frameOf, ht', Option.bind_some, hold, Heap.frameOf, ht, Option.bind_some]
    · have ht' : ((h.drawn.setObject r.root (some (Object.setCount (n.referenceCount + 1)
          (.node n)))).addTable ⟨r.root⟩).tables t' = h.tables t' := by
        simp [Heap.addTable, Heap.setObject, Heap.drawn, e]
      rw [if_neg e, Heap.frameOf, ht', Heap.frameOf]
      cases h.tables t' with
      | none => rfl
      | some r' => exact hold _ _

/-- One table gone. -/
structure Heap.Untabled (t : Nat) (h h' : Heap) : Prop where
  wf : h'.Wf noPending
  nextTable : h'.nextTable = h.nextTable
  processes : h'.processes = h.processes
  nextProcess : h'.nextProcess = h.nextProcess
  plan : h'.allocator.plan = h.allocator.plan
  tables : ∀ t', (h'.tables t').isSome = (!decide (t' = t) && (h.tables t').isSome)
  frameOf : ∀ t' page, t' ≠ t → h'.frameOf t' page = h.frameOf t' page

theorem pageTableDestroy_spec (hw : h.Wf noPending) (ht : h.tables t = some r) :
    Comp.Returns (pageTableDestroy t) h fun _ h' => h.Untabled t h' := by
  obtain ⟨n, hroot, hlevel⟩ := hw.root_node ht
  have hw₀ : h.Wf fun q => (noPending q - pointsTo (some r.root) q) + pointsTo (some r.root) q := by
    have hfun : (fun q => (noPending q - pointsTo (some r.root) q) + pointsTo (some r.root) q) =
        noPending := by
      funext q
      ring
    rw [hfun]
    exact hw
  rw [pageTableDestroy, Comp.Returns, Comp.bind_ok (readTable_run ht)]
  refine Comp.Returns.bind (pageTableNodeRelease_spec pageTableLevels r.root h
    (fun q => noPending q - pointsTo (some r.root) q) n hroot (Nat.le_add_left _ _)
    (fun q o i c ho _ hs => ?_) hw₀) fun _ h₁ hpost => ?_
  · have hne : some r.root ≠ some c := by
      intro he
      cases he
      have hr : n.level = o.rank + 1 := hw.rank q o i r.root _ ho hs hroot
      omega
    rw [pointsTo_of_ne hne]
    exact Int.le_refl 0
  · obtain ⟨hw₁, hs₁⟩ := hpost
    have ht₁ : h₁.tables t = some r := by rw [hs₁.tables, ht]
    have hroots : h₁.roots t () = some r.root := by simp [Heap.roots, ht₁]
    have hw₂ : (h₁.setTable t none).Wf noPending := by
      refine hw₁.setTable (hw₁.tables_lt t r ht₁) (fun r' hr' => by cases hr') fun q => ?_
      rw [hroots, Option.map_none, pointsTo_none]
      ring
    refine Comp.Returns.of_eq (a := ()) (t := h₁.setTable t none) rfl ⟨hw₂, hs₁.nextTable,
      hs₁.processes, hs₁.nextProcess, congrArg Allocator.plan hs₁.allocator, fun t' => ?_,
      fun t' page hne => ?_⟩
    · by_cases e : t' = t
      · simp [Heap.setTable, e]
      · simp [Heap.setTable, e, hs₁.tables]
    · have hsame : (h₁.setTable t none).tables t' = h.tables t' := by
        simp [Heap.setTable, hne, hs₁.tables]
      rw [Heap.frameOf, Heap.frameOf, hsame]
      cases ht' : h.tables t' with
      | none => rfl
      | some r' =>
        obtain ⟨o, ho, _⟩ := hw₂.rootTarget (by rw [hsame, ht']) (Int.le_refl 0)
        exact hw₂.frameAt_of_body hs₁.body ho _

/-! ## A family of independent maps -/

/-- One call of the page-table interface. -/
inductive TableCall where
  | create
  | cloneShared (source : Nat)
  | map (table address frameNumber : Nat)
  | unmap (table address : Nat)
  | lookup (table address : Nat)
  | destroy (table : Nat)

/-- What it returns: a table pointer, whether the return code was 0, or
the frame number of the entry found. -/
inductive TableReply where
  | table (pointer : Option Nat)
  | status (succeeded : Bool)
  | entry (frameNumber : Option Nat)
  | done
  deriving DecidableEq

def Heap.tableStep (h : Heap) : TableCall → Option (TableReply × Heap)
  | .create => (pageTableCreate h).reply .table
  | .cloneShared source => (pageTableCloneShared source h).reply .table
  | .map t a f => (pageTableMap t a f h).reply fun r => .status r.isSome
  | .unmap t a => (pageTableUnmap t a h).reply fun r => .status r.isSome
  | .lookup t a => (pageTableLookup t a h).reply fun r => .entry (r.join.map (·.frameNumber))
  | .destroy t => (pageTableDestroy t h).reply fun _ => .done

/-- The live tables, each a map from page keys to frame numbers, and the
name the next one gets. -/
structure TableMaps where
  map : Nat → Option (Nat → Option Nat)
  next : Nat

def TableMaps.empty : TableMaps := ⟨fun _ => none, 0⟩

/-- The key of an address: its bits 12 to 47. -/
def addressKey (address : Nat) : Nat := pageKey (addressPageNumber address)

/-- What the calls mean; there is no step for a table that is not live. -/
def TableMaps.step (m : TableMaps) : TableCall → Option (TableReply × TableMaps)
  | .create => some (.table (some m.next),
      ⟨Function.update m.map m.next (some fun _ => none), m.next + 1⟩)
  | .cloneShared source => (m.map source).map fun frames =>
      (.table (some m.next), ⟨Function.update m.map m.next (some frames), m.next + 1⟩)
  | .map t a f => (m.map t).map fun frames =>
      (.status true, { m with
        map := Function.update m.map t (some (Function.update frames (addressKey a) (some f))) })
  | .unmap t a => (m.map t).map fun frames =>
      if (frames (addressKey a)).isSome then
        (.status true, { m with
          map := Function.update m.map t (some (Function.update frames (addressKey a) none)) })
      else (.status false, m)
  | .lookup t a => (m.map t).map fun frames => (.entry (frames (addressKey a)), m)
  | .destroy t => (m.map t).map fun _ => (.done, { m with map := Function.update m.map t none })

/-- The heap holds these maps. -/
structure TableMaps.Held (m : TableMaps) (h : Heap) : Prop where
  wf : h.Wf noPending
  plenty : h.Plenty
  next : h.nextTable = m.next
  live : ∀ t, (h.tables t).isSome = (m.map t).isSome
  frames : ∀ t frames, m.map t = some frames → ∀ page, h.frameOf t page = frames (pageKey page)

theorem Heap.empty_wf (plan : Nat → Bool) : (Heap.empty plan).Wf noPending := by
  have hnone : ∀ p i, (Heap.empty plan).slots p i = none := fun p i => rfl
  have hobject : ∀ p, (Heap.empty plan).objects p = none := fun p => rfl
  have htable : ∀ t, (Heap.empty plan).tables t = none := fun t => rfl
  constructor <;> intros <;>
    simp_all [Heap.count, Heap.references, Heap.empty, noPending, inCount]

theorem TableMaps.held_empty : TableMaps.empty.Held (Heap.empty fun _ => true) :=
  ⟨Heap.empty_wf _, fun _ => rfl, rfl, fun _ => rfl, fun t frames ht => by cases ht⟩

theorem TableMaps.Held.table {m : TableMaps} {frames : Nat → Option Nat} (hm : m.Held h)
    (ht : m.map t = some frames) : ∃ r, h.tables t = some r := by
  rw [← Option.isSome_iff_exists, hm.live, ht]
  rfl

theorem TableMaps.Held.tabled {m : TableMaps} {frames : Nat → Option Nat} (hm : m.Held h)
    (hframes : ∀ page, frames page = frames (pageKey page)) (ht : h.Tabled frames h') :
    TableMaps.Held ⟨Function.update m.map m.next (some frames), m.next + 1⟩ h' := by
  refine ⟨ht.wf, fun k => by rw [ht.plan]; exact hm.plenty k, by rw [ht.nextTable, hm.next],
    fun t => ?_, fun t g hg page => ?_⟩
  · rw [ht.live, hm.next, hm.live]
    by_cases e : t = m.next <;> simp [e]
  · rw [ht.frameOf, hm.next]
    by_cases e : t = m.next
    · rw [if_pos e, hframes]
      simp only [e, Function.update_self, Option.some.injEq] at hg
      rw [hg]
    · rw [if_neg e]
      simp only [Function.update_of_ne e] at hg
      exact hm.frames t g hg page

theorem TableMaps.Held.rebound {m : TableMaps} {frames : Nat → Option Nat} {page : Nat}
    {frame : Option Nat} (hm : m.Held h) (ht : m.map t = some frames)
    (hr : h.Rebound t page frame h') :
    TableMaps.Held { m with
      map := Function.update m.map t (some (Function.update frames (pageKey page) frame)) } h' := by
  refine ⟨hr.wf, fun k => by rw [hr.plan]; exact hm.plenty k, hr.nextTable.trans hm.next,
    fun t' => ?_, fun t' g hg page' => ?_⟩
  · rw [hr.live, hm.live]
    by_cases e : t' = t <;> simp [e, ht]
  · rw [hr.frameOf]
    by_cases e : t' = t
    · simp only [e, Function.update_self, Option.some.injEq] at hg
      subst hg
      by_cases ek : pageKey page' = pageKey page
      · rw [if_pos ⟨e, ek⟩, ek, Function.update_self]
      · rw [if_neg fun hk => ek hk.2, Function.update_of_ne ek, e]
        exact hm.frames t frames ht page'
    · rw [if_neg fun hk => e hk.1]
      simp only [Function.update_of_ne e] at hg
      exact hm.frames t' g hg page'

/-- Every call of the heap answers as the maps do. -/
theorem tableStep_refines (m : TableMaps) (h : Heap) (call : TableCall) (reply : TableReply)
    (m' : TableMaps) (hm : m.Held h) (hstep : m.step call = some (reply, m')) :
    ∃ h', h.tableStep call = some (reply, h') ∧ m'.Held h' := by
  cases call with
  | create =>
    cases hstep
    obtain ⟨t, h', hrun, rfl, ht⟩ :=
      (pageTableCreate_spec hm.wf (hm.plenty.grants 3)).reply TableReply.table
    exact ⟨h', by rw [Heap.tableStep, hrun, hm.next], hm.tabled (fun _ => rfl) ht⟩
  | cloneShared source =>
    obtain ⟨frames, hframes, he⟩ := Option.map_eq_some_iff.mp hstep
    cases he
    obtain ⟨r, hr⟩ := hm.table hframes
    obtain ⟨t, h', hrun, rfl, ht⟩ := (pageTableCloneShared_spec hm.wf hm.plenty hr).reply
      TableReply.table
    have hkey : h.frameOf source = fun page => frames (pageKey page) :=
      funext (hm.frames source frames hframes)
    rw [hkey] at ht
    have hheld := hm.tabled (fun page => by rw [pageKey_pageKey]) ht
    refine ⟨h', by rw [Heap.tableStep, hrun, hm.next], hheld.wf, hheld.plenty, hheld.next,
      fun t => ?_, fun t g hg page => ?_⟩
    · rw [hheld.live]
      by_cases e : t = m.next <;> simp [e]
    · by_cases e : t = m.next
      · simp only [e, Function.update_self, Option.some.injEq] at hg
        subst hg
        have hnew := hheld.frames t (fun page => frames (pageKey page))
          (by simp only [e, Function.update_self]) page
        rw [hnew, pageKey_pageKey]
      · exact hheld.frames t g (by simpa [Function.update_of_ne e] using hg) page
  | map t a f =>
    obtain ⟨frames, hframes, he⟩ := Option.map_eq_some_iff.mp hstep
    cases he
    obtain ⟨r, hr⟩ := hm.table hframes
    obtain ⟨_, h', hrun, hrebound⟩ := (pageTableMap_spec hm.wf hm.plenty hr a f).reply
      fun r => TableReply.status r.isSome
    exact ⟨h', hrun, hm.rebound hframes hrebound⟩
  | unmap t a =>
    obtain ⟨frames, hframes, he⟩ := Option.map_eq_some_iff.mp hstep
    obtain ⟨r, hr⟩ := hm.table hframes
    have hframe : h.frameOf t (addressPageNumber a) = frames (addressKey a) :=
      hm.frames t frames hframes _
    by_cases hbound : (frames (addressKey a)).isSome = true
    · rw [if_pos hbound] at he
      cases he
      obtain ⟨_, h', hrun, hrebound⟩ := (pageTableUnmap_spec hm.wf hm.plenty hr
        (by rw [hframe]; exact Option.isSome_iff_ne_none.mp hbound)).reply
          fun r => TableReply.status r.isSome
      exact ⟨h', hrun, hm.rebound hframes hrebound⟩
    · rw [if_neg hbound] at he
      cases he
      refine ⟨h, ?_, hm⟩
      rw [Heap.tableStep, pageTableUnmap_unbound hm.wf hr
        (by rw [hframe]; simpa using hbound)]
      rfl
  | lookup t a =>
    obtain ⟨frames, hframes, he⟩ := Option.map_eq_some_iff.mp hstep
    cases he
    obtain ⟨r, hr⟩ := hm.table hframes
    obtain ⟨entry, hrun, hframe, _⟩ := pageTableLookup_run hm.wf hr a
    refine ⟨h, ?_, hm⟩
    rw [Heap.tableStep, hrun]
    simp only [Outcome.reply, Option.join_some, hframe, hm.frames t frames hframes]
    rfl
  | destroy t =>
    obtain ⟨frames, hframes, he⟩ := Option.map_eq_some_iff.mp hstep
    cases he
    obtain ⟨r, hr⟩ := hm.table hframes
    obtain ⟨_, h', hrun, hgone⟩ := (pageTableDestroy_spec hm.wf hr).reply fun _ => TableReply.done
    refine ⟨h', hrun, hgone.wf, fun k => by rw [hgone.plan]; exact hm.plenty k,
      hgone.nextTable.trans hm.next, fun t' => ?_, fun t' g hg page => ?_⟩
    · rw [hgone.tables, hm.live]
      by_cases e : t' = t <;> simp [e]
    · by_cases e : t' = t
      · simp [e] at hg
      · rw [hgone.frameOf t' page e]
        exact hm.frames t' g (by simpa [Function.update_of_ne e] using hg) page

/-- **The trie is a family of independent maps.** A sequence of calls on
live tables runs on the heap without a fault and with the replies of the
maps; afterwards the same tables are live, and a lookup finds an entry
exactly for the bound keys, with the bound frame number. -/
theorem pageTable_refines_maps (calls : List TableCall) (replies : List TableReply) (m : TableMaps)
    (hrun : run TableMaps.step TableMaps.empty calls = some (replies, m)) :
    ∃ h, run Heap.tableStep (Heap.empty fun _ => true) calls = some (replies, h) ∧
      (∀ t, (h.tables t).isSome = (m.map t).isSome) ∧
      ∀ t frames, m.map t = some frames → ∀ a, ∃ entry, pageTableLookup t a h = .ok entry h ∧
        entry.map (·.frameNumber) = frames (addressKey a) := by
  obtain ⟨h, hrun', hm⟩ := run_simulation TableMaps.Held
    (fun m h call reply m' => tableStep_refines m h call reply m') calls _ _ _ _
    TableMaps.held_empty hrun
  refine ⟨h, hrun', hm.live, fun t frames ht a => ?_⟩
  obtain ⟨r, hr⟩ := hm.table ht
  obtain ⟨entry, hlookup, hframe, _⟩ := pageTableLookup_run hm.wf hr a
  exact ⟨entry, hlookup, by rw [hframe]; exact hm.frames t frames ht _⟩

/-- A clone that is remapped leaves its source alone, also after the
source goes. -/
theorem pageTable_refines_maps_clone :
    ∃ h, run Heap.tableStep (Heap.empty fun _ => true)
      [.create, .map 0 0x1000 7, .cloneShared 0, .map 1 0x1000 9, .unmap 0 0x2000,
        .lookup 0 0x1000, .destroy 0, .lookup 1 0x1000] =
      some ([.table (some 0), .status true, .table (some 1), .status true, .status false,
        .entry (some 7), .done, .entry (some 9)], h) := by
  obtain ⟨h, hrun, _⟩ := pageTable_refines_maps
    [.create, .map 0 0x1000 7, .cloneShared 0, .map 1 0x1000 9, .unmap 0 0x2000,
      .lookup 0 0x1000, .destroy 0, .lookup 1 0x1000] _ _ rfl
  exact ⟨h, hrun⟩

end VmSim
