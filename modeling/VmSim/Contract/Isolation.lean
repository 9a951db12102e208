/-
VmSim.Contract.Isolation — when processes are isolated, whatever pids a
fork gives them.

Page tables belong to processes, but the TLB knows only their pids. Two
processes with one pid share its translations, and a write that finds the
frame of the other process there may skip a copy it owes, or copy the
wrong page. In a run without such a write, with frames for all pages, each
process has a memory of its own.
-/
import VmSim.VirtualMemory.ForkFreeRuns
import VmSim.VirtualMemory.RoomyRuns

namespace VmSim

open Lib

variable {w : World} {n tlbEntries : Nat} {type : ReplacementPolicyType} {slots : Option Nat}
  {memory : VirtualMemory} {history : List (Call × Reply)}

/-- Addresses below 2^48 have pages below 2^36. -/
theorem footprint_lt {calls : World → Call → Prop} {start : World}
    (hcalls : ∀ w call, calls w call → w.Accepts (2 ^ 48) call)
    (hrun : Run World.step calls start history w) : ∀ q v, (q, v) ∈ footprint history → v < 2 ^ 36 := by
  refine Run.invariant (fun history _ => ∀ q v, (q, v) ∈ footprint history → v < 2 ^ 36)
    (fun q v hv => absurd hv (Finset.notMem_empty _)) ?_ hrun
  intro history w call reply w' ih ha _ q v hv
  have haccepts := hcalls w call ha
  have htouched : ∀ p a, a < 2 ^ 48 → (q, v) ∈ insert (p, addressPageNumber a) (footprint history) →
      v < 2 ^ 36 := by
    intro p a hlt hin
    rcases Finset.mem_insert.mp hin with hnew | hold
    · rw [(Prod.mk.inj hnew).2]
      exact addressPageNumber_lt_key hlt
    · exact ih q v hold
  cases call with
  | createProcess pid => exact ih q v hv
  | access p a t => exact haccepts.elim
  | readByte p a => exact htouched p a haccepts.2 hv
  | writeByte p a value => exact htouched p a haccepts.2 hv
  | fork p childPid =>
    cases reply with
    | process pointer =>
      cases pointer with
      | some child => exact (mem_footprint_fork.mp hv).elim (ih q v) fun hin => ih p v hin.2
      | none => exact ih q v hv
    | _ => exact ih q v hv
  | release p => exact haccepts.elim

/-- **Processes are isolated** under any pids, as long as no write finds
the frame of another process in the TLB where one of the frames is shared:
each reads what it wrote last, or else what its parent had when it was
forked, and sees just this after every call of any process. -/
theorem virtualMemory_isolated (hn : n < 2 ^ 32)
    (h : virtualMemoryCreateInternal n type tlbEntries slots = some memory)
    (hrun : Run World.step (·.AllowsOwn (2 ^ 48)) (World.boot memory) history w)
    (hroom : (footprint history).card ≤ n) :
    Remembered history ∧ ∀ q, ∀ a < 2 ^ 48, w.view q a = recalled history q a := by
  have hlt := footprint_lt (fun _ _ ha => ha.1) hrun
  obtain ⟨hroomy, hr⟩ := World.Roomy.run h hn (by decide) hrun hroom
    fun p u v hu hv => keysApart_lt u v (hlt p u hu) (hlt p v hv)
  exact ⟨hr, fun q a ha => hroomy.view_eq fun u hu =>
    keysApart_lt _ u (addressPageNumber_lt_key ha) (hlt q u hu)⟩

/-- Parent and child share the pid 1, and a page until the parent writes.
The child then finds the parent's copy in the TLB. -/
theorem virtualMemory_isolated_samePid : ∃ history, ∃ w : World, history.map Prod.snd =
    [.byte (some 5), .status true, .process (some 1), .status true, .process (some 0)] ∧
      Remembered history ∧ ∀ q, ∀ a < 2 ^ 48, w.view q a = recalled history q a := by
  have hrun : ((virtualMemoryCreateInternal 2 .fifo 1 none).bind fun memory =>
      runChecked World.step (·.AllowsOwn (2 ^ 48)) [] (World.boot memory) [.createProcess 1,
        .writeByte 0 0x1000 5, .fork 0 1, .writeByte 0 0x1000 6, .readByte 1 0x1000]).any (fun r =>
          decide (r.1.map Prod.snd = [.byte (some 5), .status true, .process (some 1),
            .status true, .process (some 0)] ∧ (footprint r.1).card ≤ 2)) = true := by
    decide +kernel
  obtain ⟨⟨history, w⟩, hafter, hcheck⟩ := (Option.any_eq_true _ _).mp hrun
  obtain ⟨memory, hcreate, hchecked⟩ := Option.bind_eq_some_iff.mp hafter
  obtain ⟨hreplies, hroom⟩ := of_decide_eq_true hcheck
  exact ⟨history, w, hreplies, virtualMemory_isolated (by decide) hcreate
    (Run.of_runChecked _ .start hchecked) hroom⟩

/-- The child with the pid of its parent finds the parent's copy in the
TLB, and writes to the page it shares with its sibling. -/
theorem virtualMemory_mixes : ∃ memory history w,
    virtualMemoryCreateInternal 4 .fifo 1 none = some memory ∧
      Run World.step (·.Accepts (2 ^ 48)) (World.boot memory) history w ∧
      (∀ event ∈ history, event.2.succeeded = true) ∧ (footprint history).card ≤ 4 ∧
      history.head? = some (.readByte 2 0x1000, .byte (some 7)) ∧ ¬Remembered history := by
  have hrun : ((virtualMemoryCreateInternal 4 .fifo 1 none).bind fun memory =>
      runChecked World.step (·.Accepts (2 ^ 48)) [] (World.boot memory) [.createProcess 1,
        .writeByte 0 0x1000 5, .fork 0 1, .fork 0 2, .writeByte 0 0x1000 6,
        .writeByte 1 0x1000 7, .readByte 2 0x1000]).any (fun r =>
          decide ((∀ event ∈ r.1, event.2.succeeded = true) ∧ (footprint r.1).card ≤ 4 ∧
            r.1.head? = some (.readByte 2 0x1000, .byte (some 7)) ∧
            recalled r.1.tail 2 0x1000 = 5)) = true := by
    decide +kernel
  obtain ⟨⟨history, w⟩, hafter, hcheck⟩ := (Option.any_eq_true _ _).mp hrun
  obtain ⟨memory, hcreate, hchecked⟩ := Option.bind_eq_some_iff.mp hafter
  obtain ⟨hevents, hroom, hlast, hrecall⟩ := of_decide_eq_true hcheck
  refine ⟨memory, history, w, hcreate, Run.of_runChecked _ .start hchecked, hevents, hroom, hlast,
    fun hr => ?_⟩
  obtain ⟨earlier, rfl⟩ := List.head?_eq_some_iff.mp hlast
  have hseven : 7 = recalled earlier 2 0x1000 := hr.1
  have hfive : recalled earlier 2 0x1000 = 5 := hrecall
  rw [hfive] at hseven
  cases hseven

end VmSim
