/-
VmSim.VirtualMemory.Correspondence — running the code and watching the
pager.

`w.Shows backdrop s tlb` says that the world `w` looks like the pager `s`
with the TLB `tlb`, on a sound heap; what the pager leaves out besides is
its `backdrop`. Each primitive of the code, and each helper function, is specified by what it
does to `s` and `tlb`; the functions built from them are then run by
chaining these specifications, without looking at the heap again.
-/
import VmSim.VirtualMemory.Consistency

namespace VmSim

open Lib

/-! ## What the pager leaves out -/

/-- The counters of the translations. -/
structure TranslationStats where
  tlbHits : Nat
  tlbMisses : Nat
  pageWalks : Nat
  pageWalkLevels : Nat

def VirtualMemoryStats.translation (stats : VirtualMemoryStats) : TranslationStats :=
  ⟨stats.tlbHits, stats.tlbMisses, stats.pageWalks, stats.pageWalkLevels⟩

/-- The counters after a lookup in the TLB, and after a page walk of some
levels if it missed. -/
def TranslationStats.looked (stats : TranslationStats) (hit : Option Nat) (levels : Nat) :
    TranslationStats :=
  match hit with
  | some _ => { stats with tlbHits := increment stats.tlbHits }
  | none =>
    { stats with
      tlbMisses := increment stats.tlbMisses
      pageWalks := increment stats.pageWalks
      pageWalkLevels := (stats.pageWalkLevels + levels) % wordSize }

/-- The processes on the heap, and the counters of the translations. -/
structure Backdrop where
  processes : Nat → Option Process
  translations : TranslationStats

instance : CoeFun Backdrop fun _ => Nat → Option Process := ⟨Backdrop.processes⟩

def World.backdrop (w : World) : Backdrop := ⟨w.heap.processes, w.memory.stats.translation⟩

def Backdrop.looked (backdrop : Backdrop) (hit : Option Nat) (levels : Nat) : Backdrop :=
  { backdrop with translations := backdrop.translations.looked hit levels }

structure World.Shows (w : World) (backdrop : Backdrop) (s : Pager) (tlb : Tlb) : Prop where
  sound : w.heap.Sound
  backdrop_eq : w.backdrop = backdrop
  pager : w.pager = s
  tlb_eq : w.memory.tlb = tlb

variable {w w' : World} {backdrop : Backdrop} {s s' : Pager} {tlb : Tlb}
  {p q page f : Nat} {x : Process}

/-! ## Components -/

theorem World.Shows.physicalStep {α : Type} (hs : w.Shows backdrop s tlb)
    (update : PhysicalMemory → α × PhysicalMemory) :
    Comp.Returns (onPhysical update) w fun r w' => r = (update s.physical).1 ∧
      w'.Shows backdrop { s with physical := (update s.physical).2 } tlb := by
  obtain ⟨hsound, hbackdrop, rfl, rfl⟩ := hs
  exact ⟨_, _, rfl, rfl, hsound, hbackdrop, rfl, rfl⟩

theorem World.Shows.policyStep {α : Type} (hs : w.Shows backdrop s tlb)
    (update : ReplacementPolicy → α × ReplacementPolicy) :
    Comp.Returns (onPolicy update) w fun r w' => r = (update s.policy).1 ∧
      w'.Shows backdrop { s with policy := (update s.policy).2 } tlb := by
  obtain ⟨hsound, hbackdrop, rfl, rfl⟩ := hs
  exact ⟨_, _, rfl, rfl, hsound, hbackdrop, rfl, rfl⟩

theorem World.Shows.tlbStep {α : Type} (hs : w.Shows backdrop s tlb) (update : Tlb → α × Tlb) :
    Comp.Returns (onTlb update) w fun r w' => r = (update tlb).1 ∧
      w'.Shows backdrop s (update tlb).2 := by
  obtain ⟨hsound, hbackdrop, rfl, rfl⟩ := hs
  exact ⟨_, _, rfl, rfl, hsound, hbackdrop, rfl, rfl⟩

theorem World.Shows.cowStep {α : Type} (hs : w.Shows backdrop s tlb)
    (update : CowManager → α × CowManager) :
    Comp.Returns (onCow update) w fun r w' => r = (update s.cow).1 ∧
      w'.Shows backdrop { s with cow := (update s.cow).2 } tlb := by
  obtain ⟨hsound, hbackdrop, rfl, rfl⟩ := hs
  exact ⟨_, _, rfl, rfl, hsound, hbackdrop, rfl, rfl⟩

theorem World.Shows.swapStep {α : Type} (hs : w.Shows backdrop s tlb) {swap : Swap}
    (hswap : s.swap = some swap) (update : Swap → α × Swap) :
    Comp.Returns (onSwap update) w fun r w' => r = (update swap).1 ∧
      w'.Shows backdrop { s with swap := some (update swap).2 } tlb := by
  obtain ⟨hsound, hbackdrop, rfl, rfl⟩ := hs
  have hswap' : w.memory.swap = some swap := hswap
  refine Comp.Returns.of_eq (a := (update swap).1) (t := ⟨{ w.memory with
    swap := some (update swap).2 }, w.heap⟩) ?_ ⟨rfl, hsound, hbackdrop, rfl, rfl⟩
  simp only [onSwap, hswap']

/-- A counter that the pager keeps. -/
theorem World.Shows.statsStep (hs : w.Shows backdrop s tlb)
    {update : VirtualMemoryStats → VirtualMemoryStats}
    (hupdate : ∀ stats, (update stats).untranslated = update stats.untranslated := by intro; rfl)
    (hsame : ∀ stats, (update stats).translation = stats.translation := by intro; rfl) :
    Comp.Returns (onStats update) w fun _ w' =>
      w'.Shows backdrop { s with stats := update s.stats } tlb := by
  obtain ⟨hsound, hbackdrop, rfl, rfl⟩ := hs
  refine ⟨_, _, rfl, hsound, ?_, ?_, rfl⟩
  · rw [← hbackdrop]
    exact congrArg (Backdrop.mk w.heap.processes) (hsame _)
  show World.pager _ = { w.pager with stats := update w.memory.stats.untranslated }
  rw [← hupdate]
  rfl

/-- The counters of the translations. -/
theorem World.Shows.tlbStatsStep (hs : w.Shows backdrop s tlb) {hit : Option Nat} {levels : Nat}
    {update : VirtualMemoryStats → VirtualMemoryStats}
    (hlooked : ∀ stats, (update stats).translation = stats.translation.looked hit levels := by
      intro; rfl)
    (hupdate : ∀ stats, (update stats).untranslated = stats.untranslated := by intro; rfl) :
    Comp.Returns (onStats update) w fun _ w' =>
      w'.Shows (backdrop.looked hit levels) s tlb := by
  obtain ⟨hsound, hbackdrop, rfl, rfl⟩ := hs
  refine ⟨_, _, rfl, hsound, ?_, ?_, rfl⟩
  · rw [← hbackdrop]
    exact congrArg (Backdrop.mk w.heap.processes) (hlooked _)
  show { w.pager with stats := (update w.memory.stats).untranslated } = w.pager
  rw [hupdate]
  rfl

theorem World.Shows.registryStep (hs : w.Shows backdrop s tlb) (registry : List Nat) :
    Comp.Returns (setProcesses registry) w fun _ w' =>
      w'.Shows backdrop { s with processes := registry } tlb := by
  obtain ⟨hsound, hbackdrop, rfl, rfl⟩ := hs
  exact ⟨_, _, rfl, hsound, hbackdrop, rfl, rfl⟩

/-- Reading the state. -/
theorem World.Shows.get (hs : w.Shows backdrop s tlb) :
    Comp.Returns Comp.get w fun r w' => w'.Shows backdrop s tlb ∧ w' = r :=
  Comp.Returns.get ⟨hs, rfl⟩

theorem World.Shows.physical (hs : w.Shows backdrop s tlb) :
    w.memory.physicalMemory = s.physical := congrArg Pager.physical hs.pager

theorem World.Shows.policy (hs : w.Shows backdrop s tlb) :
    w.memory.replacementPolicy = s.policy := congrArg Pager.policy hs.pager

theorem World.Shows.cow (hs : w.Shows backdrop s tlb) : w.memory.cowManager = s.cow :=
  congrArg Pager.cow hs.pager

theorem World.Shows.swap (hs : w.Shows backdrop s tlb) : w.memory.swap = s.swap :=
  congrArg Pager.swap hs.pager

theorem World.Shows.registry (hs : w.Shows backdrop s tlb) : w.memory.processes = s.processes :=
  congrArg Pager.processes hs.pager

/-! ## The heap -/

theorem onHeap_returns {α : Type} {c : Comp Heap α} {Q : α → World → Prop}
    (h : Comp.Returns c w.heap fun a heap => Q a { w with heap := heap }) :
    Comp.Returns (onHeap c) w Q := by
  obtain ⟨a, heap, hc, hq⟩ := h
  exact ⟨a, _, Comp.zoom_ok hc, hq⟩

theorem World.Shows.moved (hs : w.Shows backdrop s tlb) {heap : Heap}
    {mapped : Nat → Nat → Option Nat} (hm : w.heap.Moved mapped heap) :
    World.Shows { w with heap := heap } backdrop { s with mapped := mapped } tlb := by
  obtain ⟨hsound, hbackdrop, rfl, rfl⟩ := hs
  refine ⟨hm.sound, ?_, ?_, rfl⟩
  · rw [← hbackdrop, World.backdrop, World.backdrop, hm.processes]
  have hpid : heap.pid = w.heap.pid := funext hm.pid
  simp only [World.pager, hpid, hm.nextProcess, hm.mapped_eq]

theorem World.Shows.heap_mapped (hs : w.Shows backdrop s tlb) : w.heap.mapped = s.mapped :=
  congrArg Pager.mapped hs.pager

theorem World.Shows.process (hs : w.Shows backdrop s tlb) (hx : backdrop p = some x) :
    w.heap.processes p = some x := by
  rw [← hs.backdrop_eq] at hx
  exact hx

theorem World.Shows.pid (hs : w.Shows backdrop s tlb) (hx : backdrop p = some x) :
    s.pid p = x.pid := by
  rw [← hs.pager]
  exact Heap.pid_of_some (hs.process hx)

theorem World.Shows.process_of_pid (hs : w.Shows backdrop s tlb) (hp : 0 ≤ s.pid p) :
    ∃ x, backdrop p = some x := by
  rw [← hs.pager] at hp
  rw [← hs.backdrop_eq]
  exact Heap.process_of_pid hp

theorem World.Shows.getProcess {α : Type} (hs : w.Shows backdrop s tlb)
    (hx : backdrop p = some x) (field : Process → α) :
    Comp.Returns (do let y ← onHeap (readProcess p); return field y) w fun r w' =>
      r = field x ∧ w' = w := by
  have hread : readProcess p w.heap = .ok x w.heap := by
    simp only [readProcess, hs.process hx]
  exact ⟨field x, w, by rw [onHeap, Comp.bind_ok (Comp.zoom_ok hread)]; rfl, rfl, rfl⟩

theorem World.Shows.getPid (hs : w.Shows backdrop s tlb) (hx : backdrop p = some x) :
    Comp.Returns (processGetPid p) w fun r w' => r = s.pid p ∧ w'.Shows backdrop s tlb :=
  (hs.getProcess hx Process.pid).mono fun _ _ h => ⟨h.1.trans (hs.pid hx).symm, h.2 ▸ hs⟩

theorem World.Shows.getTable (hs : w.Shows backdrop s tlb) (hx : backdrop p = some x) :
    Comp.Returns (processGetPageTable p) w fun r w' =>
      r = x.pageTable ∧ w'.Shows backdrop s tlb :=
  (hs.getProcess hx Process.pageTable).mono fun _ _ h => ⟨h.1, h.2 ▸ hs⟩

theorem World.Shows.allocate (hs : w.Shows backdrop s tlb) :
    Comp.Returns (onHeap allocate) w fun _ w' => w'.Shows backdrop s tlb := by
  refine onHeap_returns (Comp.Returns.of_eq (allocate_run hs.sound.plenty) ?_)
  have hmoved := hs.moved hs.sound.drawn
  rwa [hs.heap_mapped] at hmoved

theorem World.Shows.map (hs : w.Shows backdrop s tlb) (hx : backdrop p = some x)
    (a frame : Nat) : Comp.Returns (onHeap (pageTableMap x.pageTable a frame)) w fun _ w' =>
      w'.Shows backdrop
        { s with mapped := rebind s.mapped p (addressPageNumber a) (some frame) } tlb := by
  obtain ⟨heap, hrun, hm⟩ := hs.sound.map_run (hs.process hx) a frame
  rw [hs.heap_mapped] at hm
  exact onHeap_returns (Comp.Returns.of_eq hrun (hs.moved hm))

theorem World.Shows.unmap (hs : w.Shows backdrop s tlb) (hx : backdrop p = some x) {a : Nat}
    (hm : s.mapped p (addressPageNumber a) ≠ none) :
    Comp.Returns (onHeap (pageTableUnmap x.pageTable a)) w fun _ w' =>
      w'.Shows backdrop
        { s with mapped := rebind s.mapped p (addressPageNumber a) none } tlb := by
  rw [← hs.heap_mapped] at hm
  obtain ⟨heap, hrun, hmoved⟩ := hs.sound.unmap_run (hs.process hx) hm
  rw [hs.heap_mapped] at hmoved
  exact onHeap_returns (Comp.Returns.of_eq hrun (hs.moved hmoved))

theorem World.Shows.lookup (hs : w.Shows backdrop s tlb) (hx : backdrop p = some x) (a : Nat) :
    Comp.Returns (onHeap (pageTableLookup x.pageTable a)) w fun entry w' =>
      entry.map (·.frameNumber) = s.mapped p (addressPageNumber a) ∧
        (∀ e, entry = some e → e.present = true) ∧ w'.Shows backdrop s tlb := by
  obtain ⟨entry, hrun, hframe, hpresent⟩ := hs.sound.lookup_run (hs.process hx) a
  rw [hs.heap_mapped] at hframe
  exact onHeap_returns (Comp.Returns.of_eq hrun ⟨hframe, hpresent, hs⟩)

theorem World.Shows.walk (hs : w.Shows backdrop s tlb) (hx : backdrop p = some x) (a : Nat) :
    Comp.Returns (onHeap (pageTableLookupWithLevels x.pageTable a)) w fun r w' =>
      r.1.map (·.frameNumber) = s.mapped p (addressPageNumber a) ∧
        (1 ≤ r.2 ∧ r.2 ≤ pageTableLevels) ∧ w'.Shows backdrop s tlb := by
  obtain ⟨entry, visited, hrun, hframe, hvisited⟩ := hs.sound.walk_run (hs.process hx) a
  rw [hs.heap_mapped] at hframe
  exact onHeap_returns (Comp.Returns.of_eq hrun ⟨hframe, hvisited, hs⟩)

/-! ## Helper functions -/

theorem World.Shows.cowAdd (hs : w.Shows backdrop s tlb) (hf : f < s.cow.frameCount)
    (hnew : ⟨p, page⟩ ∉ s.cow.frames f) :
    Comp.Returns (cowAddMapping f p page) w fun _ w' =>
      w'.Shows backdrop { s with cow := cowManagerInsert s.cow f p page } tlb := by
  unfold cowAddMapping
  refine hs.get.bind fun r w₁ hget => ?_
  obtain ⟨hs₁, rfl⟩ := hget
  refine Comp.Returns.bind (P := fun _ w' => w'.Shows backdrop s tlb) (Comp.Returns.failIf
    (by rw [hs₁.cow, decide_eq_false (Nat.not_le.mpr hf)]) hs₁) fun _ w₂ hs₂ => ?_
  have hhas : cowManagerHasMapping w₁.memory.cowManager f p page = false := by
    rw [hs₁.cow, cowManagerHasMapping]
    simp [hnew]
  rw [hhas]
  refine hs₂.allocate.bind fun _ w₃ hs₃ => ?_
  exact (hs₃.cowStep _).mono fun _ _ h => h.2

theorem World.Shows.register (hs : w.Shows backdrop s tlb) (p : Nat) :
    Comp.Returns (virtualMemoryRegisterProcess p) w fun _ w' =>
      w'.Shows backdrop (s.register p) tlb := by
  unfold virtualMemoryRegisterProcess Pager.register
  refine hs.get.bind fun r w₁ hget => ?_
  obtain ⟨hs₁, rfl⟩ := hget
  rw [hs₁.registry]
  split
  · exact Comp.Returns.pure hs₁
  · exact hs₁.allocate.bind fun _ w₂ hs₂ => hs₂.registryStep _

theorem World.Shows.unregister (hs : w.Shows backdrop s tlb) (p : Nat) :
    Comp.Returns (virtualMemoryUnregisterProcess p) w fun _ w' =>
      w'.Shows backdrop { s with processes := s.processes.erase p } tlb := by
  unfold virtualMemoryUnregisterProcess
  refine hs.get.bind fun r w₁ hget => ?_
  obtain ⟨hs₁, rfl⟩ := hget
  rw [hs₁.registry]
  exact hs₁.registryStep _

/-- Frames that can be marked: in range and in use. -/
theorem markAccess_eq {memory : PhysicalMemory} (hf : f < memory.frameCount)
    (hocc : (memory.frames f).occupied = true) (isWrite : Bool) :
    physicalMemoryMarkAccess memory f isWrite = (0, { memory with
      frames := Function.update memory.frames f ((memory.frames f).touch isWrite) }) := by
  rw [physicalMemoryMarkAccess, if_neg (by simp [hocc, hf])]

theorem writePage_eq {memory : PhysicalMemory} (hf : f < memory.frameCount)
    (hocc : (memory.frames f).occupied = true) (data : PageData) :
    physicalMemoryWritePage memory f data =
      (0, { memory with data := Function.update memory.data f data }) := by
  rw [physicalMemoryWritePage, if_neg (by simp [hocc, hf])]

theorem World.Shows.mark (hs : w.Shows backdrop s tlb) (hf : f < s.physical.frameCount)
    (hocc : (s.physical.frames f).occupied = true) (isWrite : Bool) :
    Comp.Returns (onPhysical (physicalMemoryMarkAccess · f isWrite)) w fun code w' =>
      code = 0 ∧ w'.Shows backdrop (s.touch f isWrite) tlb := by
  have hmark := hs.physicalStep (physicalMemoryMarkAccess · f isWrite)
  rw [markAccess_eq hf hocc] at hmark
  exact hmark

theorem World.Shows.fill (hs : w.Shows backdrop s tlb) (hf : f < s.physical.frameCount)
    (hocc : (s.physical.frames f).occupied = true) (data : PageData) :
    Comp.Returns (onPhysical (physicalMemoryWritePage · f data)) w fun code w' =>
      code = 0 ∧ w'.Shows backdrop (s.fill f data) tlb := by
  have hwrite := hs.physicalStep (physicalMemoryWritePage · f data)
  rw [writePage_eq hf hocc] at hwrite
  exact hwrite

theorem World.Shows.notify (hs : w.Shows backdrop s tlb) (hf : f < s.physical.frameCount)
    (hocc : (s.physical.frames f).occupied = true)
    (hpolicy : (replacementPolicyOnAccess s.policy f).1 = 0) (isWrite : Bool) :
    Comp.Returns (virtualMemoryNotifyAccess f isWrite) w fun _ w' =>
      w'.Shows backdrop (s.notify f isWrite) tlb := by
  unfold virtualMemoryNotifyAccess
  refine (hs.mark hf hocc isWrite).bindCheck (fun _ _ h => h.1) fun _ w₁ h₁ => ?_
  refine (h₁.2.policyStep (replacementPolicyOnAccess · f)).bindCheck
    (fun _ _ h => h.1.trans hpolicy) fun _ w₂ h₂ => ?_
  exact (h₂.2.policyStep _).mono fun _ _ h => h.2

end VmSim
