/-
VmSim.Contract.ProcessRelease — a release is complete, and nobody else
notices.

`World.Relinquished` lists what holds after a process was released: what
was its alone is gone or free, what it shared is as it was, and the views
and TLB entries of all others are untouched.
-/
import VmSim.VirtualMemory.Views

namespace VmSim

open Lib

variable {w w' : World} {s s' : Pager} {p q f v a : Nat} {n tlbEntries : Nat}
  {type : ReplacementPolicyType} {slots : Option Nat} {history : List (Call × Reply)}

/-- `w'` is `w` after the release of `p`. -/
structure World.Relinquished (w : World) (p : Nat) (w' : World) : Prop where
  unmapped : ∀ a, w'.translate p a = none
  unshared : ∀ f, ∀ m ∈ w'.memory.cowManager.frames f, m.process ≠ p
  unowned : ∀ f < w'.memory.physicalMemory.frameCount,
    (w'.memory.physicalMemory.frames f).ownerProcess ≠ some p ∧
      (w'.memory.physicalMemory.frames f).ownerPid ≠ w.heap.pid p
  unregistered : p ∉ w'.memory.processes
  untranslated : ∀ i < w'.memory.tlb.capacity, (w'.memory.tlb.entries i).valid = true →
    (w'.memory.tlb.entries i).pid ≠ w.heap.pid p
  unstored : ∀ swap, w'.memory.swap = some swap → ∀ i < swap.slotCount,
    (swap.slots i).used = true → (swap.slots i).pid ≠ w.heap.pid p
  freed : ∀ f < w.memory.physicalMemory.frameCount,
    (w'.memory.physicalMemory.frames f).occupied = false ↔
      ∀ m ∈ w.memory.cowManager.frames f, m.process = p
  kept : ∀ f, (∃ m ∈ w.memory.cowManager.frames f, m.process ≠ p) →
    (w'.memory.physicalMemory.frames f).occupied = true ∧
      w'.memory.physicalMemory.data f = w.memory.physicalMemory.data f ∧
      (w'.memory.physicalMemory.frames f).dirty = (w.memory.physicalMemory.frames f).dirty ∧
      (w'.memory.physicalMemory.frames f).referenced =
        (w.memory.physicalMemory.frames f).referenced ∧
      ∃ o, (w'.memory.physicalMemory.frames f).ownerProcess = some o ∧
        w'.translate o (pageAddress (w'.memory.physicalMemory.frames f).virtualPage) = some f
  views : ∀ q ≠ p, w.Live q → ∀ a, w'.view q a = w.view q a
  entries : ∀ i, (w.memory.tlb.entries i).pid ≠ w.heap.pid p →
    w'.memory.tlb.entries i = w.memory.tlb.entries i

/-! ## The pager after a release -/

theorem Pager.Released.view {frames : List Nat} (h : s.Consistent) (hr : s.Released p frames s')
    (hq : q ≠ p) (v : Nat) : s'.view q v = s.view q v := by
  refine Pager.view_congr (hr.mapped_of_ne h hq v) (fun f hf => ?_) fun _ => ?_
  · have hf' : s'.mapped q v = some f := (hr.mapped_of_ne h hq v).trans hf
    exact (hr.kept f (hr.consistent.occupied_of_mapped hf')).1
  · rw [hr.pid, Pager.slot_congr hr.swap]

/-- A slot in use is found under its key. -/
theorem Swap.content_of_used {swap : Swap} {i : Nat} (h : swap.Wf) (hi : i < swap.slotCount)
    (hused : (swap.slots i).used = true) (hpid : 0 ≤ (swap.slots i).pid) :
    swap.content (swap.slots i).pid (swap.slots i).virtualPage ≠ none := by
  rw [Swap.content, h.find_eq hpid hi (SwapSlot.holds_iff.mpr ⟨hused, rfl, rfl⟩)]
  exact Option.some_ne_none _

/-- Everybody but the released process sees what it saw. -/
theorem Pager.Released.view_forget {frames : List Nat} (h : s.Consistent)
    (hr : s.Released p frames s') (hp : 0 ≤ s.pid p) (hq : q ≠ p) (hpid : s.pid q ≠ s.pid p)
    (v : Nat) : (s'.forget p).view q v = s.view q v := by
  rw [← hr.view h hq v]
  refine Pager.view_congr rfl (fun _ _ => rfl) fun _ => ?_
  rw [hr.consistent.forget_slot (by rw [hr.pid]; exact hp), if_neg]
  · rfl
  · show s'.pid q ≠ s'.pid p
    rw [hr.pid]
    exact hpid

/-- A frame that a release leaves in use has an owner other than `p`. -/
theorem Pager.Released.owner (h : s.Consistent)
    (hr : s.Released p (List.range s.physical.frameCount) s')
    (hocc : (s'.physical.frames f).occupied = true) : ∃ o ∈ s.processes, o ≠ p ∧
      (s'.physical.frames f).ownerProcess = some o ∧
      (s'.physical.frames f).ownerPid = s.pid o ∧
      s'.mapped o (s'.physical.frames f).virtualPage = some f := by
  obtain ⟨o, howner, hpid, ho⟩ := hr.consistent.owner hocc
  exact ⟨o, hr.processes ▸ hr.consistent.registered ho, hr.no_user h ho, howner, hr.pid ▸ hpid,
    hr.consistent.mapped_frame ho⟩

/-- A frame is in use after a release exactly if another process used it. -/
theorem Pager.Released.occupied_iff (h : s.Consistent)
    (hr : s.Released p (List.range s.physical.frameCount) s')
    (hf : f < s.physical.frameCount) : (s'.physical.frames f).occupied = true ↔
      ∃ m ∈ s.cow.frames f, m.process ≠ p := by
  rw [(hr.consistent.frame f (hr.frameCount ▸ hf)).occupied]
  constructor
  · intro hne
    obtain ⟨m, hm⟩ := List.exists_mem_of_ne_nil _ hne
    exact ⟨m, ((hr.users f m).mp hm).1, hr.no_user h hm⟩
  · rintro ⟨m, hm, hne⟩
    exact List.ne_nil_of_mem ((hr.users f m).mpr ⟨hm, fun _ => hne⟩)

/-! ## The release -/

/-- Every registered process can be released, and the release is complete
and invisible to the others. -/
theorem virtualMemory_release (hn : n < 2 ^ 32)
    (h : World.Reachable n type tlbEntries slots history w) (hp : p ∈ w.memory.processes) :
    ∃ w', w.step (.release p) = some (.status true, w') ∧ w.Relinquished p w' := by
  have hc := h.coherent hn
  have hcs := hc.wf.consistent
  have hlive : 0 ≤ w.pager.pid p := hcs.live p hp
  have halone := hc.distinct p hp
  obtain ⟨_, w', hrun, hs⟩ := (World.Shows.release hcs hc.wf.shows hlive).reply
    fun r => Reply.status r.isSome
  obtain ⟨hbecame, hspares⟩ := hcs.releaseTlb hlive hc.wf.tlb
  rw [← hs.tlb_eq] at hbecame hspares
  have hwf : w'.Wf := ⟨hs.sound, hbecame.wf, by rw [hs.pager]; exact hcs.release hlive⟩
  obtain ⟨s₁, hr, hrelease, hslot⟩ := hcs.released hlive
  have hstate : w'.pager = s₁.forget p := hs.pager.trans hrelease
  have hcs' := hr.consistent
  have hphysical : w'.memory.physicalMemory = s₁.physical := congrArg Pager.physical hstate
  have hcow : w'.memory.cowManager = s₁.cow := congrArg Pager.cow hstate
  have hprocesses : w'.memory.processes = w.memory.processes.erase p :=
    (congrArg Pager.processes hstate).trans (congrArg (List.erase · p) hr.processes)
  have htranslate : ∀ q a, w'.translate q a = s₁.mapped q (addressPageNumber a) := by
    intro q a
    rw [hwf.translate_eq, hstate]
    rfl
  refine ⟨w', hrun, fun a => ?_, fun f m hm => ?_, fun f hf => ?_, ?_, fun i hi hvalid he => ?_,
    fun swap hswap i hi hused he => ?_, fun f hf => ?_, fun f hshared => ?_, fun q hq hlive' a => ?_,
    fun i hi => ?_⟩
  · rw [htranslate]
    cases hm : s₁.mapped p (addressPageNumber a) with
    | none => rfl
    | some f => exact absurd rfl (hr.no_user hcs (hcs'.user_of_mapped hm).1)
  · rw [hcow] at hm
    exact hr.no_user hcs hm
  · rw [hphysical] at hf ⊢
    cases hocc : (s₁.physical.frames f).occupied with
    | true =>
      obtain ⟨o, ho, hne, howner, hopid, _⟩ := hr.owner hcs hocc
      rw [howner, hopid]
      exact ⟨fun e => hne (Option.some.inj e), fun e => hne (halone o ho e)⟩
    | false =>
      rw [((hcs'.frame f hf).free hocc).1]
      refine ⟨fun e => Option.some_ne_none p e.symm, fun e => ?_⟩
      have hneg : w.pager.pid p = -1 := e.symm
      omega
  · rw [hprocesses]
    exact fun hin => ((hcs.registry.mem_erase_iff).mp hin).1 rfl
  · exact (hbecame.holds _ _ _ ⟨i, hi, TlbEntry.matches_iff.mpr ⟨hvalid, rfl, rfl⟩, rfl⟩).1 he
  · have hpos : 0 ≤ (swap.slots i).pid := by
      rw [he]
      exact hlive
    refine Swap.content_of_used (hwf.consistent.swap swap hswap).1 hi hused hpos ?_
    rw [← Pager.slot_some (show w'.pager.swap = some swap from hswap), hs.pager, hslot]
    exact if_pos he
  · rw [hphysical, ← Bool.not_eq_true, hr.occupied_iff hcs hf]
    simp only [not_exists, not_and, not_not]
    rfl
  · obtain ⟨m, hm, hne⟩ := hshared
    have hocc := (hr.occupied_iff hcs (hcs.lt_of_user hm)).mpr ⟨m, hm, hne⟩
    obtain ⟨hdata, hdirty, hreferenced, _⟩ := hr.kept f hocc
    obtain ⟨o, _, _, howner, _, hmapped⟩ := hr.owner hcs hocc
    rw [hphysical]
    refine ⟨hocc, hdata, hdirty, hreferenced, o, howner, ?_⟩
    rw [htranslate, addressPageNumber_pageAddress (hcs'.frame f (hcs'.frame_lt hocc)).page_lt]
    exact hmapped
  · have hne : w.pager.pid q ≠ w.pager.pid p := fun e => hq (hlive'.2 p hp e.symm).symm
    rw [hwf.view_eq, hc.wf.view_eq, hstate, hr.view_forget hcs hlive hq hne]
  · exact (hspares i).resolve_right fun hspared => hi hspared.1

/-- A release of a parent that shares one page with its child and has
written to another. -/
theorem virtualMemory_release_parent : ∃ history w,
    World.Reachable 3 .lru 2 (some 2) history w ∧ history.length = 4 ∧
      ∃ w', w.step (.release 0) = some (.status true, w') ∧ w.Relinquished 0 w' := by
  have hafter : (World.after 3 .lru 2 (some 2) [.createProcess 1, .writeByte 0 0x1000 5,
      .fork 0 2, .writeByte 0 0x2000 6]).any (fun r =>
        decide (r.1.length = 4 ∧ 0 ∈ r.2.memory.processes)) = true := by decide +kernel
  obtain ⟨⟨history, w⟩, hafter, hcheck⟩ := (Option.any_eq_true _ _).mp hafter
  obtain ⟨hlength, hp⟩ := of_decide_eq_true hcheck
  have hreach := World.reachable_of_after hafter
  exact ⟨history, w, hreach, hlength, virtualMemory_release (by decide) hreach hp⟩

end VmSim
