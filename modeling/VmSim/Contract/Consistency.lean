/-
VmSim.Contract.Consistency — the structures of a virtual memory agree.

`World.Agreement` lists what ties the frame table, the COW lists, the
replacement policy, the page tables, the registry and the TLB together,
in the terms of the code. It holds in every reachable state, also after
calls that failed half-way.
-/
import VmSim.VirtualMemory.Observation

namespace VmSim

open Lib

structure World.Agreement (w : World) : Prop where
  occupied : ∀ f, (f < w.memory.physicalMemory.frameCount ∧
      (w.memory.physicalMemory.frames f).occupied = true) ↔ w.memory.cowManager.frames f ≠ []
  loaded : ∀ f, w.memory.replacementPolicy.loaded f = true ↔ w.memory.cowManager.frames f ≠ []
  mapped : ∀ p v f, ⟨p, v⟩ ∈ w.memory.cowManager.frames f ↔
    v < 2 ^ 36 ∧ w.translate p (pageAddress v) = some f
  once : ∀ f, (w.memory.cowManager.frames f).Nodup
  page : ∀ f, ∀ m ∈ w.memory.cowManager.frames f,
    m.virtualPage = (w.memory.physicalMemory.frames f).virtualPage
  owner : ∀ f, w.memory.cowManager.frames f ≠ [] → ∃ m ∈ w.memory.cowManager.frames f,
    (w.memory.physicalMemory.frames f).ownerProcess = some m.process ∧
      (w.memory.physicalMemory.frames f).ownerPid = w.heap.pid m.process
  registered : ∀ f, ∀ m ∈ w.memory.cowManager.frames f, m.process ∈ w.memory.processes
  freeCount : w.memory.physicalMemory.freeFrameCount =
    ((Finset.range w.memory.physicalMemory.frameCount).filter fun f =>
      (w.memory.physicalMemory.frames f).occupied = false).card
  free : ∀ f < w.memory.physicalMemory.frameCount,
    (w.memory.physicalMemory.frames f).occupied = false →
      (w.memory.physicalMemory.frames f).dirty = false ∧
        (w.memory.physicalMemory.frames f).referenced = false ∧
        (w.memory.physicalMemory.frames f).ownerProcess = none ∧
        w.memory.physicalMemory.data f = zeroPage
  translated : ∀ i < w.memory.tlb.capacity, (w.memory.tlb.entries i).valid = true →
    ∃ p ∈ w.memory.processes, w.heap.pid p = (w.memory.tlb.entries i).pid ∧
      w.translate p (pageAddress (w.memory.tlb.entries i).virtualPage) =
        some (w.memory.tlb.entries i).frameNumber

/-- The address of a page below 2^36 leads back to the page. -/
theorem World.Wf.translate_page {w : World} (h : w.Wf) {v : Nat} (hv : v < 2 ^ 36) (p : Nat) :
    w.translate p (pageAddress v) = w.pager.mapped p v := by
  rw [h.translate_eq, addressPageNumber_pageAddress (Nat.lt_trans hv (by decide))]

theorem World.Coherent.agreement {w : World} (h : w.Coherent (· < 2 ^ 36)) : w.Agreement := by
  have hc := h.wf.consistent
  have hfreeFrame : ∀ f < w.memory.physicalMemory.frameCount,
      (w.memory.physicalMemory.frames f).occupied = false →
        w.memory.physicalMemory.frames f = .free ∧ w.memory.physicalMemory.data f = zeroPage :=
    fun f hf hocc => (hc.frame f hf).free hocc
  have hoccupied : ∀ f, (w.memory.physicalMemory.frames f).occupied = true ↔
      w.memory.cowManager.frames f ≠ [] := by
    intro f
    constructor
    · exact fun hocc => (hc.frame f (hc.frame_lt hocc)).occupied.mp hocc
    · intro hne
      obtain ⟨m, hm⟩ := List.exists_mem_of_ne_nil _ hne
      exact hc.occupied_of_user hm
  refine ⟨fun f => ⟨fun hf => (hoccupied f).mp hf.2, fun hne => ?_⟩, fun f => ?_, fun p v f => ?_,
    fun f => ?_, fun f m hm => hc.user_page hm, fun f hne => ?_, fun f m hm => ?_, hc.freeCount,
    fun f hf hocc => ?_, fun i hi hvalid => ?_⟩
  · exact ⟨hc.frame_lt ((hoccupied f).mpr hne), (hoccupied f).mpr hne⟩
  · rw [← hoccupied f]
    exact iff_of_eq (congrArg (· = true) (hc.loaded f))
  · constructor
    · intro hm
      have hv : v < 2 ^ 36 := by
        rw [show v = _ from hc.user_page hm]
        exact h.resident f (hc.occupied_of_user hm)
      exact ⟨hv, (h.wf.translate_page hv p).trans (hc.mapped_frame hm)⟩
    · rintro ⟨hv, hm⟩
      rw [h.wf.translate_page hv] at hm
      obtain ⟨huser, hk⟩ := hc.user_of_mapped hm
      have hpage := keysApart_lt _ v (h.resident f (hc.occupied_of_mapped hm)) hv hk
      rw [hpage] at huser
      exact huser
  · by_cases hf : f < w.memory.physicalMemory.frameCount
    · exact (hc.frame f hf).nodup
    · rw [show w.memory.cowManager.frames f = [] from hc.beyond f (Nat.le_of_not_lt hf)]
      exact List.nodup_nil
  · have hocc := (hoccupied f).mpr hne
    obtain ⟨o, howner, hpid, ho⟩ := hc.owner hocc
    exact ⟨_, ho, howner, hpid⟩
  · exact hc.registered hm
  · obtain ⟨hframe, hdata⟩ := hfreeFrame f hf hocc
    rw [hframe]
    exact ⟨rfl, rfl, rfl, hdata⟩
  · have hholds : w.memory.tlb.Holds (w.memory.tlb.entries i).pid
        (w.memory.tlb.entries i).virtualPage (w.memory.tlb.entries i).frameNumber :=
      ⟨i, hi, TlbEntry.matches_iff.mpr ⟨hvalid, rfl, rfl⟩, rfl⟩
    obtain ⟨hv, p, hp, hpid, hm⟩ := h.translated _ _ _ hholds
    exact ⟨p, hp, hpid, (h.wf.translate_page hv p).trans hm⟩

/-- In every reachable state, the structures agree. -/
theorem virtualMemory_agreement {n tlbEntries : Nat} {type : ReplacementPolicyType}
    {slots : Option Nat} {history : List (Call × Reply)} {w : World} (hn : n < 2 ^ 32)
    (h : World.Reachable n type tlbEntries slots history w) : w.Agreement :=
  (h.coherent hn).agreement

theorem virtualMemory_agreement_fork : ∃ history w,
    World.Reachable 2 .clock 1 (some 1) history w ∧ history.length = 4 ∧ w.Agreement := by
  have hrun : (World.after 2 .clock 1 (some 1) [.createProcess 1, .writeByte 0 0x1000 5,
      .fork 0 2, .writeByte 1 0x1000 6]).any (·.1.length = 4) = true := by decide +kernel
  obtain ⟨⟨history, w⟩, hafter, hlength⟩ := (Option.any_eq_true _ _).mp hrun
  have hreach := World.reachable_of_after hafter
  exact ⟨history, w, hreach, of_decide_eq_true hlength, virtualMemory_agreement (by decide) hreach⟩

end VmSim
