/-
VmSim.Contract.ForkFailure — what a failed fork leaves of its child.

The mappings a fork has added for its child are not taken back when a later
one fails, although the child is destroyed. A failed fork leaves no trace
exactly if nothing had been added yet.
-/
import VmSim.VirtualMemory.ForkFailure
import VmSim.VirtualMemory.Observation

namespace VmSim

open Lib Lib.Comp

variable {w w' : World} {p n tlbEntries : Nat} {type : ReplacementPolicyType}
  {slots : Option Nat} {history : List (Trial × Reply)} {childPid : Int} {plan : Nat → Bool}

/-- Nothing names the child, which would have been the next process, and
nothing but counters and the registration of the parent changed. -/
structure World.Traceless (w w' : World) : Prop where
  sharers : ∀ f, ∀ m ∈ w'.memory.cowManager.frames f, m.process ≠ w.heap.nextProcess
  registry : w.heap.nextProcess ∉ w'.memory.processes
  counts : ∀ f, cowManagerMappingCount w'.memory.cowManager f =
    cowManagerMappingCount w.memory.cowManager f
  lookup : ∀ q a, w'.lookup q a = w.lookup q a
  physicalMemory : w'.memory.physicalMemory = w.memory.physicalMemory
  swap : w'.memory.swap = w.memory.swap

/-- `page_table_lookup` depends on the trie objects, the tables and the
processes only. -/
theorem World.lookup_congr (ho : w'.heap.objects = w.heap.objects)
    (ht : w'.heap.tables = w.heap.tables) (hp : w'.heap.processes = w.heap.processes)
    (q a : Nat) : w'.lookup q a = w.lookup q a := by
  unfold World.lookup
  cases hx : w.heap.processes q with
  | none =>
    have hread : readProcess q w.heap = .fault := by simp only [readProcess, hx]
    have hread' : readProcess q w'.heap = .fault := by simp only [readProcess, hp, hx]
    simp [processGetPageTable, onHeap, zoom, bind_run, hread, hread']
  | some x =>
    have hread : readProcess q w.heap = .ok x w.heap := by simp only [readProcess, hx]
    have hread' : readProcess q w'.heap = .ok x w'.heap := by simp only [readProcess, hp, hx]
    rcases pageTableLookup_alike ho ht x.pageTable a with ⟨entry, hrun, hrun'⟩ | ⟨hrun, hrun'⟩
    · simp [processGetPageTable, onHeap, zoom, bind_run, hread, hread', hrun, hrun']
    · simp [processGetPageTable, onHeap, zoom, bind_run, hread, hread', hrun, hrun']

/-- **A failed fork leaves no trace of its child** exactly if it fails no
later than at the allocation of the child's first mapping. -/
theorem virtualMemory_forkFailure (h : World.Tried n type tlbEntries slots history w)
    (hp : 0 ≤ w.heap.pid p) : ∃ result w', w.trial (.fork p childPid plan) =
      some (.process result, w') ∧
      (result = none → (w.Traceless w' ↔ w.FailsEarly p childPid plan)) := by
  have hnamed := h.named
  obtain ⟨result, w₁, hfork, _, hends⟩ := (hnamed.fork hp childPid plan).reply Reply.process
  refine ⟨result, w₁.supplied ⟨fun _ => true, 0⟩, ?_, fun hnone => ?_⟩
  · have hstep : (w.supplied ⟨plan, 0⟩).step (.fork p childPid) =
        some (.process result, w₁) := hfork
    rw [World.trial, hstep]
    rfl
  have hfailed := hends hnone
  constructor
  · intro htrace
    rcases hfailed.sharers with ⟨_, hearly⟩ | ⟨⟨f, m, hm, hchild⟩, _⟩
    · exact hearly
    · exact absurd hchild (htrace.sharers f m hm)
  · intro hearly
    rcases hfailed.sharers with ⟨hcow, _⟩ | ⟨_, hlate⟩
    · have hcow' : (w₁.supplied ⟨fun _ => true, 0⟩).memory.cowManager =
          w.memory.cowManager := hcow
      refine ⟨fun f m hm => ?_, fun hin => ?_, fun f => by rw [hcow'],
        World.lookup_congr hfailed.objects hfailed.tables hfailed.processes,
        hfailed.physicalMemory, hfailed.swap⟩
      · rw [hcow'] at hm
        exact Nat.ne_of_lt (hnamed.sharers f m hm)
      · rcases hfailed.registry _ hin with heq | hold
        · exact Nat.lt_irrefl _ (heq ▸ hnamed.sound.pid_lt hp)
        · exact Nat.lt_irrefl _ (hnamed.registry _ hold)
    · exact absurd hearly hlate

/-- Storage runs out at the first of two mappings. -/
theorem virtualMemory_forkFailure_first : ∃ history w,
    World.Tried 2 .fifo 1 none history w ∧ ∃ w',
      w.trial (.fork 0 2 fun k => decide (k ≠ 3)) = some (.process none, w') ∧
        w.Traceless w' := by
  have hafter : ((virtualMemoryCreateInternal 2 .fifo 1 none).bind fun memory =>
      runChecked World.trial World.Tries [] (World.boot memory)
        [.call (.createProcess 1), .call (.writeByte 0 0x1000 5),
          .call (.writeByte 0 0x2000 6)]).any (fun r =>
      decide (0 ≤ r.2.heap.pid 0 ∧ 0 ∈ r.2.memory.processes) &&
      (r.2.trial (.fork 0 2 fun k => decide (k ≠ 3))).any fun e =>
        decide (e.1 = .process none)) = true := by
    decide +kernel
  obtain ⟨⟨history, w⟩, hafter, hcheck⟩ := (Option.any_eq_true _ _).mp hafter
  obtain ⟨hstate, hfork⟩ := (Bool.and_eq_true _ _).mp hcheck
  obtain ⟨hp, hin⟩ := of_decide_eq_true hstate
  obtain ⟨memory, hcreate, hchecked⟩ := Option.bind_eq_some_iff.mp hafter
  have hreach : World.Tried 2 .fifo 1 none history w :=
    ⟨memory, hcreate, Run.of_runChecked _ .start hchecked⟩
  obtain ⟨result, w', hrun, hiff⟩ : ∃ result w', w.trial (.fork 0 2 fun k => decide (k ≠ 3)) =
      some (.process result, w') ∧ (result = none → (w.Traceless w' ↔
        w.FailsEarly 0 2 fun k => decide (k ≠ 3))) := virtualMemory_forkFailure hreach hp
  rw [hrun] at hfork
  obtain rfl : result = none := Reply.process.inj (of_decide_eq_true hfork)
  refine ⟨history, w, hreach, w', hrun, (hiff rfl).mpr (Or.inr ⟨3, ?_, by decide⟩)⟩
  rw [World.draws, if_pos hin]

/-- Storage runs out at the second of two mappings: the first frame keeps
a mapping of the destroyed child. -/
theorem virtualMemory_fork_leavesMapping : ∃ history w w',
    World.Tried 2 .fifo 1 none history w ∧ 0 ≤ w.heap.pid 0 ∧
      w.trial (.fork 0 2 fun k => decide (k ≠ 4)) = some (.process none, w') ∧
      w'.heap.pid w.heap.nextProcess = -1 ∧
      ⟨w.heap.nextProcess, 1⟩ ∈ w'.memory.cowManager.frames 0 ∧
      cowManagerMappingCount w.memory.cowManager 0 = 1 ∧
      cowManagerMappingCount w'.memory.cowManager 0 = 2 := by
  have hafter : ((virtualMemoryCreateInternal 2 .fifo 1 none).bind fun memory =>
      runChecked World.trial World.Tries [] (World.boot memory)
        [.call (.createProcess 1), .call (.writeByte 0 0x1000 5),
          .call (.writeByte 0 0x2000 6)]).any (fun r =>
      decide (0 ≤ r.2.heap.pid 0 ∧ cowManagerMappingCount r.2.memory.cowManager 0 = 1) &&
      (r.2.trial (.fork 0 2 fun k => decide (k ≠ 4))).any fun e =>
        decide (e.1 = .process none ∧ e.2.heap.pid r.2.heap.nextProcess = -1 ∧
          ⟨r.2.heap.nextProcess, 1⟩ ∈ e.2.memory.cowManager.frames 0 ∧
          cowManagerMappingCount e.2.memory.cowManager 0 = 2)) = true := by
    decide +kernel
  obtain ⟨⟨history, w⟩, hafter, hcheck⟩ := (Option.any_eq_true _ _).mp hafter
  obtain ⟨hstate, hfork⟩ := (Bool.and_eq_true _ _).mp hcheck
  obtain ⟨hp, hone⟩ := of_decide_eq_true hstate
  obtain ⟨⟨reply, w'⟩, hfork, hend⟩ := (Option.any_eq_true _ _).mp hfork
  obtain ⟨rfl, hdead, hmapping, htwo⟩ := of_decide_eq_true hend
  obtain ⟨memory, hcreate, hchecked⟩ := Option.bind_eq_some_iff.mp hafter
  exact ⟨history, w, w', ⟨memory, hcreate, Run.of_runChecked _ .start hchecked⟩, hp, hfork, hdead,
    hmapping, hone, htwo⟩

end VmSim
