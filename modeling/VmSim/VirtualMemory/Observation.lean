/-
VmSim.VirtualMemory.Observation — what a process sees.

`World.translate` is `page_table_lookup` on the page table of a process,
`World.view` the byte a process has at an address: that of its frame if
the page is resident, else that of its swap slot, else 0. `Pager.view`
says the same of whole pages.
-/
import VmSim.VirtualMemory.Coherence

namespace VmSim

open Lib

variable {w : World} {p a : Nat}

/-! ## Page tables -/

/-- `page_table_lookup` on the page table of a process. -/
def World.lookup (w : World) (p address : Nat) : Option PageTableEntry :=
  let run : Comp World (Option PageTableEntry) := do
    let table ← processGetPageTable p
    onHeap (pageTableLookup table address)
  match run w with
  | .ok entry _ => entry
  | _ => none

def World.translate (w : World) (p address : Nat) : Option Nat :=
  (w.lookup p address).map (·.frameNumber)

theorem World.Wf.translate_eq (h : w.Wf) (p a : Nat) :
    w.translate p a = w.pager.mapped p (addressPageNumber a) := by
  cases hx : w.heap.processes p with
  | none =>
    have hread : readProcess p w.heap = .fault := by simp only [readProcess, hx]
    have hnone : w.pager.mapped p (addressPageNumber a) = none := by
      simp [World.pager, Heap.mapped, hx]
    rw [hnone]
    simp [World.translate, World.lookup, processGetPageTable, onHeap, Comp.zoom, Comp.bind_run,
      hread]
  | some x =>
    have hlookup : Comp.Returns (do
        let table ← processGetPageTable p
        onHeap (pageTableLookup table a)) w fun entry _ =>
          entry.map (·.frameNumber) = w.pager.mapped p (addressPageNumber a) := by
      refine (h.shows.getTable hx).bind fun table w₁ h₁ => ?_
      obtain ⟨rfl, hs₁⟩ := h₁
      exact (hs₁.lookup hx a).mono fun _ _ h => h.1
    obtain ⟨entry, _, hrun, hframe⟩ := hlookup
    rw [World.translate, World.lookup, hrun]
    exact hframe

/-! ## Views -/

/-- The page in the swap slot of a key. -/
def Pager.slot (s : Pager) (pid : Int) (v : Nat) : Option PageData :=
  s.swap.bind (·.content pid v)

/-- What the swap gives for a key; a page that was never stored is zero. -/
def Pager.swapped (s : Pager) (pid : Int) (v : Nat) : PageData := (s.slot pid v).getD zeroPage

/-- The bytes a process has on a page. -/
def Pager.view (s : Pager) (p v : Nat) : PageData :=
  match s.mapped p v with
  | some f => s.physical.data f
  | none => s.swapped (s.pid p) v

/-- The byte a process has at an address. -/
def World.view (w : World) (p address : Nat) : UInt8 :=
  match w.translate p address with
  | some f => w.memory.physicalMemory.data f (pageOffset address)
  | none =>
    match w.memory.swap.bind (·.content (w.heap.pid p) (addressPageNumber address)) with
    | some page => page (pageOffset address)
    | none => 0

theorem World.Wf.view_eq (h : w.Wf) (p a : Nat) :
    w.view p a = w.pager.view p (addressPageNumber a) (pageOffset a) := by
  rw [World.view, h.translate_eq, Pager.view]
  cases w.pager.mapped p (addressPageNumber a) with
  | some f => rfl
  | none =>
    show (match w.memory.swap.bind (·.content (w.heap.pid p) (addressPageNumber a)) with
      | some page => page (pageOffset a)
      | none => 0) = ((w.memory.swap.bind
        (·.content (w.heap.pid p) (addressPageNumber a))).getD zeroPage) (pageOffset a)
    cases w.memory.swap.bind (·.content (w.heap.pid p) (addressPageNumber a)) <;> rfl

end VmSim
