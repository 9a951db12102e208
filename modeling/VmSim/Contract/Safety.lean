/-
VmSim.Contract.Safety — no call goes wrong.

The runs make any calls, as long as the process pointers are valid: pids
may be taken twice, addresses may lie beyond the 48 bits of the page
table, and calls may fail. A step that is `none` would touch storage that
is not allocated, or go round a loop without end.
-/
import VmSim.VirtualMemory.Safety

namespace VmSim

open Lib

variable {w w' : World} {n tlbEntries : Nat} {type : ReplacementPolicyType} {slots : Option Nat}
  {history : List (Call × Reply)} {call : Call}

/-- Every process pointer that the memory keeps is valid, and so is the page
table of every process. -/
structure World.Undangling (w : World) : Prop where
  registry : ∀ q ∈ w.memory.processes, w.heap.processes q ≠ none
  sharers : ∀ f, ∀ m ∈ w.memory.cowManager.frames f, w.heap.processes m.process ≠ none
  owners : ∀ f q, (w.memory.physicalMemory.frames f).ownerProcess = some q →
    w.heap.processes q ≠ none
  tables : ∀ p x, w.heap.processes p = some x → w.heap.tables x.pageTable ≠ none

theorem World.Guarded.undangling (h : w.Guarded) : w.Undangling := by
  have halive : ∀ q, w.Alive q → w.heap.processes q ≠ none := by
    intro q hq
    obtain ⟨x, hx⟩ := Heap.process_of_pid hq
    simp [hx]
  refine ⟨fun q hq => halive q (h.registry q hq), fun f m hm => halive _ (h.sharers f m hm),
    fun f q hq => halive q (h.owners f q hq), fun p x hx => ?_⟩
  obtain ⟨r, hr⟩ := h.tame.table p x hx
  simp [hr]

/-- **Every call is answered.** After any calls with valid process pointers,
a call with a valid process pointer and a 64-bit address returns, and all
pointers that the memory keeps are still valid. -/
theorem virtualMemory_answers (h : World.Served n type tlbEntries slots history w)
    (hvalid : w.pager.Valid call) :
    ∃ reply w', w.step call = some (reply, w') ∧
      World.Served n type tlbEntries slots ((call, reply) :: history) w' ∧ w'.Undangling := by
  obtain ⟨reply, w', hstep, hguarded⟩ := h.guarded.step hvalid
  obtain ⟨memory, hcreate, hrun⟩ := h
  exact ⟨reply, w', hstep, ⟨memory, hcreate, .next hrun hvalid hstep⟩, hguarded.undangling⟩

/-- Two processes with one pid, one frame, no swap, and an address of 49
bits. -/
theorem virtualMemory_answers_pid : ∃ history w reply w',
    World.Served 1 .aging 1 none history w ∧
      (w.heap.pid 1 = w.heap.pid 0 ∧
        (history.map Prod.snd).head? = some (.status false)) ∧
      w.step (.writeByte 1 0x1000000001000 7) = some (reply, w') ∧ w'.Undangling := by
  have hafter : ((virtualMemoryCreateInternal 1 .aging 1 none).bind fun memory =>
      runChecked World.step (fun w call => w.pager.Valid call) [] (World.boot memory)
        [.createProcess 1, .writeByte 0 0x1000 5, .fork 0 1, .writeByte 1 0x1000 6]).any
      (fun r => decide ((r.2.heap.pid 1 = r.2.heap.pid 0 ∧
        (r.1.map Prod.snd).head? = some (.status false)) ∧ 0 ≤ r.2.heap.pid 1)) = true := by
    decide +kernel
  obtain ⟨⟨history, w⟩, hafter, hcheck⟩ := (Option.any_eq_true _ _).mp hafter
  obtain ⟨memory, hcreate, hchecked⟩ := Option.bind_eq_some_iff.mp hafter
  obtain ⟨hsame, hlive⟩ := of_decide_eq_true hcheck
  have hserved : World.Served 1 .aging 1 none history w :=
    ⟨memory, hcreate, Run.of_runChecked _ .start hchecked⟩
  obtain ⟨reply, w', hstep, _, hend⟩ := virtualMemory_answers hserved
    (show w.pager.Valid (.writeByte 1 0x1000000001000 7) from ⟨hlive, by decide⟩)
  exact ⟨history, w, reply, w', hserved, hsame, hstep, hend⟩

end VmSim
