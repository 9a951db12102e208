/-
VmSim.Contract.LeastSwap — how small the swap can be.

In a run without a fork the pages that are not in a frame are at most as
many as the pages accessed beyond the number of frames, so this many
slots, and one to save a victim in, are enough.
-/
import VmSim.Contract.ForkFree
import VmSim.VirtualMemory.SwapRoom

namespace VmSim

open Lib

variable {w w' : World} {n tlbEntries : Nat} {type : ReplacementPolicyType} {slots : Option Nat}
  {history : List (Call × Reply)} {call : Call} {reply : Reply}

theorem World.Reachable.frames (h : World.Reachable n type tlbEntries slots history w)
    (hn : n < 2 ^ 32) (hfree : ∀ event ∈ history, event.1.isFork = false) :
    w.memory.physicalMemory.frameCount = n := by
  obtain ⟨memory, hcreate, hrun⟩ := h
  refine (Run.invariant (fun history w => w.Coherent (· < 2 ^ 36) ∧
    ((∀ event ∈ history, event.1.isFork = false) →
      w.memory.physicalMemory.frameCount = n)) ?_
    (fun history w call reply w' ih ha hs => ?_) hrun).2 hfree
  · obtain ⟨hphysical, _⟩ := virtualMemoryCreateInternal_some hcreate
    obtain ⟨_, _, _, _, hcount, _⟩ := physicalMemoryCreate_spec hphysical hn
    exact ⟨World.boot_coherent hcreate hn _, fun _ => hcount⟩
  · obtain ⟨hcoherent, hframes⟩ := ih
    obtain ⟨answers, hstepped, hcoherent'⟩ := hcoherent.stepped ha hs
    refine ⟨hcoherent', fun hfree => ?_⟩
    obtain ⟨hcall, hrest⟩ := List.forall_mem_cons.mp hfree
    have hkept := hcoherent.wf.consistent.step_frameCount answers hcall
    rw [hstepped.pager] at hkept
    exact hkept.trans (hframes hrest)

/-- An access succeeds if fewer pages were accessed before than there are
frames and slots. -/
theorem World.Unshared.served (h : w.Unshared slots history) (ha : w.Allows call)
    (htarget : call.target ≠ none) (hsteps : accesses history + 1 < wordSize)
    (hslots : ∀ count, slots = some count → 0 < count → (w.touched (history.map Prod.fst)).card <
      w.memory.physicalMemory.frameCount + count)
    (hstep : w.step call = some (reply, w')) : reply.succeeded = true := by
  obtain ⟨target, ht⟩ := Option.ne_none_iff_exists'.mp htarget
  have haccesses := call.accesses_of_target ht
  have hfork : call.isFork = false := by
    cases call with
    | fork p childPid => cases ht
    | _ => rfl
  obtain ⟨answers, _, _, hs, hf, _⟩ := h.forkFree.stepped (by omega) ha hfork
  obtain ⟨rfl, rfl⟩ := hs.unique hstep
  have hserved := h.forkFree.solitary.served h.forkFree.coherent.wf.consistent
    h.forkFree.coherent.distinct ⟨h.uses, hslots⟩ hsteps ha.pager htarget hf
  rwa [hs.pager] at hserved

/-- **A swap for the pages that have no frame is enough.** In a run without
a fork, an access or a byte read or written succeeds as long as fewer pages
were accessed before it than there are frames and slots together. -/
theorem virtualMemory_leastSwap (hn : n < 2 ^ 32)
    (h : World.Reachable n type tlbEntries slots history w)
    (hfree : ∀ event ∈ history, event.1.isFork = false) (ha : w.Allows call)
    (htarget : call.target ≠ none) (hsteps : accesses history + 1 < 2 ^ 64 - 1)
    (hslots : ∀ count, slots = some count → 0 < count →
      (w.touched (history.map Prod.fst)).card < n + count) :
    ∃ reply w', w.step call = some (reply, w') ∧ reply.succeeded = true := by
  have hunshared := h.unshared hn hfree (by omega)
  have hword : wordSize = 2 ^ 64 := rfl
  obtain ⟨_, reply, w', hs, _⟩ := hunshared.forkFree.coherent.step keysApart_lt ha.pager
  refine ⟨reply, w', hs.run, hunshared.served ha htarget (by omega) (fun count hcount hpos => ?_)
    hs.run⟩
  rw [h.frames hn hfree]
  exact hslots count hcount hpos

/-- Two frames and two slots; three pages were written, and the swap is in
use. -/
theorem virtualMemory_leastSwap_three : ∃ history w,
    World.Reachable 2 .clock 1 (some 2) history w ∧ (w.touched (history.map Prod.fst)).card = 3 ∧
      0 < w.memory.stats.swapWrites ∧
      ∃ reply w', w.step (.writeByte 0 0x4000 1) = some (reply, w') ∧ reply.succeeded = true := by
  have hafter : (World.after 2 .clock 1 (some 2) [.createProcess 1, .writeByte 0 0x1000 5,
      .writeByte 0 0x2000 6, .writeByte 0 0x3000 7]).any (fun r => decide (
        (∀ event ∈ r.1, event.1.isFork = false) ∧ accesses r.1 = 3 ∧
        r.2.Allows (.writeByte 0 0x4000 1) ∧ (r.2.touched (r.1.map Prod.fst)).card = 3 ∧
        0 < r.2.memory.stats.swapWrites)) = true := by
    decide +kernel
  obtain ⟨⟨history, w⟩, hafter, hcheck⟩ := (Option.any_eq_true _ _).mp hafter
  obtain ⟨hfree, hsteps, hallows, hcard, hwrites⟩ := of_decide_eq_true hcheck
  have hreach := World.reachable_of_after hafter
  have hthree : accesses history = 3 := hsteps
  have hpages : (w.touched (history.map Prod.fst)).card = 3 := hcard
  refine ⟨history, w, hreach, hpages, hwrites, virtualMemory_leastSwap (by decide) hreach hfree
    hallows (by decide) (by rw [hthree]; decide) fun count hcount _ => ?_⟩
  cases hcount
  rw [hpages]
  decide

end VmSim
