/-
VmSim.PageTable.Trie — the structurally shared page-table trie over an
explicit heap (`src/page_table.c`).

Nodes and leaf entries are heap objects named by pointers and carry the
reference counts of the source. A pointer that was freed names nothing
any more, and reading or freeing it faults, so "no operation touches
freed storage or frees it again" is the statement that an operation never
faults. Pointers are not reused: `next` only grows.

Every `calloc`/`malloc` of the source is one draw from the allocator,
whose plan says which draws succeed. A failed draw makes the function
return its error result at the point where the source does.
-/
import VmSim.Address
import VmSim.Lib.Computation
import Mathlib.Data.List.FinRange

namespace VmSim

open Lib

/-! ## The heap -/

/-- `PageTableNode`. A slot holds a child node, or at the last level a
leaf entry. -/
structure PageTableNode where
  entries : Fin pageTableEntries → Option Nat
  activeEntries : Nat
  level : Nat
  referenceCount : Nat

/-- `PageTableEntry`. -/
structure PageTableEntry where
  frameNumber : Nat
  present : Bool
  writable : Bool
  dirty : Bool
  referenced : Bool
  copyOnWrite : Bool
  referenceCount : Nat

/-- What a pointer of the trie can point to. -/
inductive Object where
  | node (node : PageTableNode)
  | entry (entry : PageTableEntry)

/-- `PageTable`. -/
structure PageTable where
  root : Nat

/-- `Process`. -/
structure Process where
  pid : Int
  pageTable : Nat

/-- Which draws of the C allocator succeed, and how many there were. -/
structure Allocator where
  plan : Nat → Bool
  calls : Nat

/-- The C heap: trie objects, page tables and processes. -/
structure Heap where
  objects : Nat → Option Object
  next : Nat
  tables : Nat → Option PageTable
  nextTable : Nat
  processes : Nat → Option Process
  nextProcess : Nat
  allocator : Allocator

def Heap.empty (plan : Nat → Bool) : Heap where
  objects := fun _ => none
  next := 0
  tables := fun _ => none
  nextTable := 0
  processes := fun _ => none
  nextProcess := 0
  allocator := ⟨plan, 0⟩

/-! ## Primitive heap operations -/

/-- One `calloc` or `malloc`; a NULL result is a failure. -/
def allocate : Comp Heap Unit := fun h =>
  let h' := { h with allocator := { h.allocator with calls := h.allocator.calls + 1 } }
  if h.allocator.plan h.allocator.calls then .ok () h' else .failed h'

def newObject (object : Object) : Comp Heap Nat := fun h =>
  .ok h.next
    { h with objects := Function.update h.objects h.next (some object), next := h.next + 1 }

def setObject (pointer : Nat) (object : Option Object) : Comp Heap Unit :=
  Comp.modify fun h => { h with objects := Function.update h.objects pointer object }

/-- `free`. To free what was freed already is a fault. -/
def freeObject (pointer : Nat) : Comp Heap Unit := fun h =>
  match h.objects pointer with
  | some _ => .ok () { h with objects := Function.update h.objects pointer none }
  | none => .fault

def readNode (pointer : Nat) : Comp Heap PageTableNode := fun h =>
  match h.objects pointer with
  | some (.node node) => .ok node h
  | _ => .fault

def readEntry (pointer : Nat) : Comp Heap PageTableEntry := fun h =>
  match h.objects pointer with
  | some (.entry entry) => .ok entry h
  | _ => .fault

def readTable (table : Nat) : Comp Heap PageTable := fun h =>
  match h.tables table with
  | some t => .ok t h
  | none => .fault

def setTable (table : Nat) (value : Option PageTable) : Comp Heap Unit :=
  Comp.modify fun h => { h with tables := Function.update h.tables table value }

/-- Write through a node pointer. -/
def modifyNode (pointer : Nat) (f : PageTableNode → PageTableNode) : Comp Heap Unit := do
  let node ← readNode pointer
  setObject pointer (some (.node (f node)))

/-- Write through an entry pointer. -/
def modifyEntry (pointer : Nat) (f : PageTableEntry → PageTableEntry) : Comp Heap Unit := do
  let entry ← readEntry pointer
  setObject pointer (some (.entry (f entry)))

def PageTableNode.setSlot (node : PageTableNode) (index : Fin pageTableEntries)
    (slot : Option Nat) : PageTableNode :=
  { node with entries := Function.update node.entries index slot }

/-- Every slot index of a node, in order. -/
def slotIndices : List (Fin pageTableEntries) := List.finRange pageTableEntries

/-! ## Nodes and entries -/

def pageTableNodeCreate (level : Nat) : Comp Heap Nat := do
  allocate
  allocate
  newObject (.node ⟨fun _ => none, 0, level, 1⟩)

def pageTableEntryCreate (frameNumber : Nat) : Comp Heap Nat := do
  allocate
  newObject (.entry ⟨frameNumber, true, true, false, false, false, 1⟩)

def pageTableEntryRetain (entry : Nat) : Comp Heap Unit :=
  modifyEntry entry fun e => { e with referenceCount := e.referenceCount + 1 }

def pageTableEntryRelease (pointer : Nat) : Comp Heap Unit := do
  let entry ← readEntry pointer
  if entry.referenceCount > 1 then
    setObject pointer (some (.entry { entry with referenceCount := entry.referenceCount - 1 }))
  else freeObject pointer

def pageTableNodeRetain (node : Nat) : Comp Heap Unit :=
  modifyNode node fun n => { n with referenceCount := n.referenceCount + 1 }

/-- `page_table_node_release`. The first argument bounds the recursion
depth; running out of it is a fault, and no trie is that deep. -/
def pageTableNodeRelease : Nat → Nat → Comp Heap Unit
  | 0, _ => Comp.fault
  | depth + 1, pointer => do
    let node ← readNode pointer
    if node.referenceCount > 1 then
      setObject pointer (some (.node { node with referenceCount := node.referenceCount - 1 }))
    else do
      Comp.forEach (fun index =>
        match node.entries index with
        | none => pure ()
        | some child =>
          if node.level < pageTableLevels - 1 then pageTableNodeRelease depth child
          else pageTableEntryRelease child) slotIndices
      freeObject pointer

/-- The loop body of `page_table_node_clone_shallow`. -/
def pageTableCloneSlot (source : PageTableNode) (copy : Nat) (index : Fin pageTableEntries) :
    Comp Heap Unit :=
  match source.entries index with
  | none => pure ()
  | some child => do
    modifyNode copy fun c => c.setSlot index (some child)
    if source.level < pageTableLevels - 1 then pageTableNodeRetain child
    else pageTableEntryRetain child

/-- `page_table_node_clone_shallow`: a copy that points to the same
children, each of which gains a reference. -/
def pageTableNodeCloneShallow (source : Nat) : Comp Heap Nat := do
  let node ← readNode source
  let copy ← pageTableNodeCreate node.level
  modifyNode copy fun c => { c with activeEntries := node.activeEntries }
  Comp.forEach (pageTableCloneSlot node copy) slotIndices
  return copy

def pageTableEntryClone (source : Nat) : Comp Heap Nat := do
  let entry ← readEntry source
  allocate
  newObject (.entry { entry with referenceCount := 1, copyOnWrite := false })

/-! ## Page tables -/

def newTable (table : PageTable) : Comp Heap Nat := fun h =>
  .ok h.nextTable
    { h with
      tables := Function.update h.tables h.nextTable (some table)
      nextTable := h.nextTable + 1 }

def pageTableCreate : Comp Heap Nat := do
  allocate
  let root ← pageTableNodeCreate 0
  newTable ⟨root⟩

def pageTableCloneShared (source : Nat) : Comp Heap Nat := do
  let table ← readTable source
  allocate
  pageTableNodeRetain table.root
  newTable ⟨table.root⟩

def pageTableEnsurePrivateRoot (table : Nat) : Comp Heap Unit := do
  let old ← readTable table
  let root ← readNode old.root
  if root.referenceCount = 1 then pure ()
  else do
    let newRoot ← pageTableNodeCloneShallow old.root
    setTable table (some ⟨newRoot⟩)
    pageTableNodeRelease pageTableLevels old.root

/-- `page_table_ensure_private_child`. A missing child is a failure. -/
def pageTableEnsurePrivateChild (parent : Nat) (index : Fin pageTableEntries) :
    Comp Heap Nat := do
  let node ← readNode parent
  let child ← Comp.orFail (node.entries index)
  let childNode ← readNode child
  if childNode.referenceCount = 1 then return child
  else do
    let copy ← pageTableNodeCloneShallow child
    modifyNode parent fun n => n.setSlot index (some copy)
    pageTableNodeRelease pageTableLevels child
    return copy

/-- The levels the descent of `page_table_map` and `page_table_unmap`
goes through before the leaf node. -/
def innerLevels : List Nat := [0, 1, 2]

/-- The loop of `page_table_map`: below every level the child is made
private, or created where it is missing. -/
def pageTableMapDescend (address : Nat) : List Nat → Nat → Comp Heap Nat
  | [], current => pure current
  | level :: levels, current => do
    let index := addressLevelIndex address level
    let node ← readNode current
    match node.entries index with
    | none => do
      let child ← pageTableNodeCreate (level + 1)
      modifyNode current fun n =>
        { n.setSlot index (some child) with activeEntries := n.activeEntries + 1 }
      pageTableMapDescend address levels child
    | some _ => do
      let child ← pageTableEnsurePrivateChild current index
      pageTableMapDescend address levels child

/-- The entry that `page_table_map` overwrites: a shared one is copied
first. -/
def pageTablePrivateEntry (leaf : Nat) (index : Fin pageTableEntries) (old : Nat) :
    Comp Heap Nat := do
  let entry ← readEntry old
  if entry.referenceCount > 1 then do
    let copy ← pageTableEntryClone old
    pageTableEntryRelease old
    modifyNode leaf fun n => n.setSlot index (some copy)
    return copy
  else return old

def pageTableMap (table address frameNumber : Nat) : Comp Heap Unit := do
  pageTableEnsurePrivateRoot table
  let root ← readTable table
  let leaf ← pageTableMapDescend address innerLevels root.root
  let leafIndex := addressLevelIndex address (pageTableLevels - 1)
  let leafNode ← readNode leaf
  match leafNode.entries leafIndex with
  | none => do
    let entry ← pageTableEntryCreate frameNumber
    modifyNode leaf fun n =>
      { n.setSlot leafIndex (some entry) with activeEntries := n.activeEntries + 1 }
  | some old => do
    let entry ← pageTablePrivateEntry leaf leafIndex old
    modifyEntry entry fun e => { e with frameNumber := frameNumber, present := true }

/-- The descent of `page_table_lookup_with_levels` from a node, with the
number of nodes visited. -/
def pageTableWalk (address : Nat) : List Nat → Nat → Nat → Comp Heap (Option PageTableEntry × Nat)
  | [], current, visited => do
    let node ← readNode current
    match node.entries (addressLevelIndex address (pageTableLevels - 1)) with
    | none => return (none, visited + 1)
    | some pointer => do
      let entry ← readEntry pointer
      return (if entry.present then some entry else none, visited + 1)
  | level :: levels, current, visited => do
    let node ← readNode current
    match node.entries (addressLevelIndex address level) with
    | none => return (none, visited + 1)
    | some child => pageTableWalk address levels child (visited + 1)

def pageTableLookupWithLevels (table address : Nat) :
    Comp Heap (Option PageTableEntry × Nat) := do
  let root ← readTable table
  pageTableWalk address innerLevels root.root 0

def pageTableLookup (table address : Nat) : Comp Heap (Option PageTableEntry) := do
  let result ← pageTableLookupWithLevels table address
  return result.1

/-- The descent of `page_table_unmap`: the private leaf node, and the
ancestors with the slots taken, nearest first. -/
def pageTableUnmapDescend (address : Nat) :
    List Nat → Nat → List (Nat × Fin pageTableEntries) →
      Comp Heap (Nat × List (Nat × Fin pageTableEntries))
  | [], current, ancestors => pure (current, ancestors)
  | level :: levels, current, ancestors => do
    let index := addressLevelIndex address level
    let child ← pageTableEnsurePrivateChild current index
    pageTableUnmapDescend address levels child ((current, index) :: ancestors)

/-- The pruning loop of `page_table_unmap`, from the leaf node up. -/
def pageTablePrune : Nat → List (Nat × Fin pageTableEntries) → Comp Heap Unit
  | _, [] => pure ()
  | current, (parent, index) :: ancestors => do
    let node ← readNode current
    if node.activeEntries ≠ 0 then pure ()
    else do
      freeObject current
      modifyNode parent fun n =>
        { n.setSlot index none with activeEntries := n.activeEntries - 1 }
      pageTablePrune parent ancestors

def pageTableUnmap (table address : Nat) : Comp Heap Unit := do
  let found ← pageTableLookup table address
  Comp.failIf found.isNone
  pageTableEnsurePrivateRoot table
  let root ← readTable table
  let (leaf, ancestors) ← pageTableUnmapDescend address innerLevels root.root []
  let leafIndex := addressLevelIndex address (pageTableLevels - 1)
  let leafNode ← readNode leaf
  let entry ← Comp.orFail (leafNode.entries leafIndex)
  pageTableEntryRelease entry
  modifyNode leaf fun n =>
    { n.setSlot leafIndex none with activeEntries := n.activeEntries - 1 }
  pageTablePrune leaf ancestors

def pageTableDestroy (table : Nat) : Comp Heap Unit := do
  let t ← readTable table
  pageTableNodeRelease pageTableLevels t.root
  setTable table none

/-! ## Processes (`src/process.c`) -/

def readProcess (process : Nat) : Comp Heap Process := fun h =>
  match h.processes process with
  | some p => .ok p h
  | none => .fault

def newProcess (value : Process) : Comp Heap Nat := fun h =>
  .ok h.nextProcess
    { h with
      processes := Function.update h.processes h.nextProcess (some value)
      nextProcess := h.nextProcess + 1 }

def processCreate (pid : Int) : Comp Heap Nat := do
  Comp.failIf (pid < 0)
  allocate
  let table ← pageTableCreate
  newProcess ⟨pid, table⟩

def processFork (parent : Nat) (childPid : Int) : Comp Heap Nat := do
  Comp.failIf (childPid < 0)
  allocate
  let p ← readProcess parent
  let table ← pageTableCloneShared p.pageTable
  newProcess ⟨childPid, table⟩

def processDestroy (process : Nat) : Comp Heap Unit := do
  let p ← readProcess process
  pageTableDestroy p.pageTable
  Comp.modify fun h => { h with processes := Function.update h.processes process none }

end VmSim
