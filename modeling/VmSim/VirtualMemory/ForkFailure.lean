/-
VmSim.VirtualMemory.ForkFailure — forks whose allocations may fail.

A fork draws from the allocator once for each registry node it adds, twice
for the child, and once for each frame it shares. A draw that fails ends
it; the child is unregistered and destroyed, but the mappings that were
added for it before stay in their lists.
-/
import VmSim.VirtualMemory.Handles

namespace VmSim

open Lib Lib.Comp

variable {w w' : World} {p : Nat} {x : Process} {r : PageTable} {n : PageTableNode} {pid : Int}
  {processes : List Nat}

/-! ## States of a fork -/

def World.supplied (w : World) (allocator : Allocator) : World :=
  { w with heap := w.heap.supplied allocator }

/-- The state `w` with other values of what a fork changes. -/
def World.forking (w : World) (heap : Heap) (cow : CowManager) (processes : List Nat) : World :=
  { memory := { w.memory with cowManager := cow, processes := processes }, heap := heap }

/-- The number of draws before that of the first mapping of the child. -/
def World.draws (w : World) (p : Nat) : Nat := if p ∈ w.memory.processes then 3 else 4

theorem onHeap_allocate_supplied (w : World) (heap : Heap) (cow : CowManager)
    (processes : List Nat) (allocator : Allocator) :
    onHeap allocate (w.forking (heap.supplied allocator) cow processes) =
      if allocator.plan allocator.calls then
        .ok () (w.forking (heap.supplied allocator.draw) cow processes)
      else .failed (w.forking (heap.supplied allocator.draw) cow processes) := by
  have hrun := allocate_supplied heap allocator
  unfold onHeap Comp.zoom
  rw [show (w.forking (heap.supplied allocator) cow processes).heap = heap.supplied allocator from
    rfl, hrun]
  cases allocator.plan allocator.calls <;> rfl

/-- Registering a process draws once, unless it is registered. -/
theorem virtualMemoryRegisterProcess_supplied (w : World) (heap : Heap) (cow : CowManager)
    (processes : List Nat) (q : Nat) (allocator : Allocator) :
    virtualMemoryRegisterProcess q (w.forking (heap.supplied allocator) cow processes) =
      if q ∈ processes then .ok () (w.forking (heap.supplied allocator) cow processes)
      else if allocator.plan allocator.calls then
        .ok () (w.forking (heap.supplied allocator.draw) cow (q :: processes))
      else .failed (w.forking (heap.supplied allocator.draw) cow processes) := by
  rw [virtualMemoryRegisterProcess, bind_ok (get_run _)]
  by_cases hq : q ∈ processes
  · rw [if_pos hq, if_pos (by simpa [World.forking] using hq)]
    rfl
  · rw [if_neg hq, if_neg (by simpa [World.forking] using hq)]
    have hrun := onHeap_allocate_supplied w heap cow processes allocator
    by_cases hplan : allocator.plan allocator.calls = true
    · rw [if_pos hplan] at hrun
      rw [if_pos hplan, bind_ok hrun]
      rfl
    · rw [if_neg hplan] at hrun
      rw [if_neg hplan, bind_failed hrun]

theorem cowAddMapping_supplied (w : World) (heap : Heap) {cow : CowManager} (processes : List Nat)
    {f : Nat} (hf : f < cow.frameCount) (q v : Nat) (allocator : Allocator) :
    cowAddMapping f q v (w.forking (heap.supplied allocator) cow processes) =
      if cowManagerHasMapping cow f q v then
        .ok () (w.forking (heap.supplied allocator) cow processes)
      else if allocator.plan allocator.calls then
        .ok () (w.forking (heap.supplied allocator.draw) (cowManagerInsert cow f q v) processes)
      else .failed (w.forking (heap.supplied allocator.draw) cow processes) := by
  have hin : failIf (decide (f ≥ cow.frameCount))
      (w.forking (heap.supplied allocator) cow processes) =
      .ok () (w.forking (heap.supplied allocator) cow processes) := by
    rw [decide_eq_false (Nat.not_le.mpr hf), failIf_false]
  rw [cowAddMapping, bind_ok (get_run _), show (w.forking (heap.supplied allocator) cow
    processes).memory.cowManager = cow from rfl, bind_ok hin]
  by_cases hmapped : cowManagerHasMapping cow f q v = true
  · rw [if_pos hmapped, if_pos hmapped]
    rfl
  · rw [if_neg hmapped, if_neg hmapped]
    have hrun := onHeap_allocate_supplied w heap cow processes allocator
    by_cases hplan : allocator.plan allocator.calls = true
    · rw [if_pos hplan] at hrun
      rw [if_pos hplan, bind_ok hrun]
      rfl
    · rw [if_neg hplan] at hrun
      rw [if_neg hplan, bind_failed hrun]

/-- The child is unregistered and destroyed. -/
theorem destroyChild_run (hs : w.heap.Sound) (hn : w.heap.objects r.root = some (.node n))
    (pid : Int) (cow : CowManager) (processes : List Nat) (allocator : Allocator) :
    (do virtualMemoryUnregisterProcess w.heap.nextProcess
        onHeap (processDestroy w.heap.nextProcess)) (w.forking
      ((w.heap.forked r.root n pid).supplied allocator) cow (w.heap.nextProcess :: processes)) =
      .ok () (w.forking (w.heap.unforked.supplied allocator) cow processes) := by
  have hrun : virtualMemoryUnregisterProcess w.heap.nextProcess (w.forking
      ((w.heap.forked r.root n pid).supplied allocator) cow (w.heap.nextProcess :: processes)) =
      .ok () (w.forking ((w.heap.forked r.root n pid).supplied allocator) cow processes) := by
    rw [virtualMemoryUnregisterProcess, bind_ok (get_run _), show (w.forking _ cow
      (w.heap.nextProcess :: processes)).memory.processes = w.heap.nextProcess :: processes from rfl,
      List.erase_cons_head]
    rfl
  rw [bind_ok hrun]
  exact zoom_ok (processDestroy_forked hs hn pid allocator)

/-! ## The frames -/

/-- One frame: nothing is shared, or a mapping is added, or there is no
storage for it. -/
theorem virtualMemoryShareFrame_ends (hs : w.heap.Sound)
    (hn : w.heap.objects r.root = some (.node n)) (p : Nat) (pid : Int) (cow : CowManager)
    (processes : List Nat) (allocator : Allocator) (index : Nat) :
    Ends (virtualMemoryShareFrame p w.heap.nextProcess index) (w.forking
      ((w.heap.forked r.root n pid).supplied allocator) cow (w.heap.nextProcess :: processes))
      fun result w' =>
        (result = some () ∧ w' = w.forking ((w.heap.forked r.root n pid).supplied allocator) cow
          (w.heap.nextProcess :: processes)) ∨
        (allocator.plan allocator.calls = true ∧ result = some () ∧ ∃ f v,
          w' = w.forking ((w.heap.forked r.root n pid).supplied allocator.draw)
            (cowManagerInsert cow f w.heap.nextProcess v) (w.heap.nextProcess :: processes)) ∨
        (allocator.plan allocator.calls = false ∧ result = none ∧
          w' = w.forking (w.heap.unforked.supplied allocator.draw) cow processes) := by
  unfold virtualMemoryShareFrame
  refine Returns.bindEnds (Returns.get (Q := fun s s' => s = s' ∧ s' = _) ⟨rfl, rfl⟩)
    fun s s' h => ?_
  obtain ⟨rfl, rfl⟩ := h
  split
  · exact Ends.pure (Or.inl ⟨rfl, rfl⟩)
  · rename_i frame _
    split
    · exact Ends.pure (Or.inl ⟨rfl, rfl⟩)
    · rename_i hshared
      have hmapped : cowManagerHasMapping cow (toUint32 index) p frame.virtualPage = true := by
        simpa [World.forking] using (not_or.mp hshared).2
      have hlt : toUint32 index < cow.frameCount := by
        unfold cowManagerHasMapping at hmapped
        exact of_decide_eq_true ((Bool.and_eq_true _ _).mp hmapped).1
      have hadd := cowAddMapping_supplied w (w.heap.forked r.root n pid)
        (w.heap.nextProcess :: processes) hlt w.heap.nextProcess frame.virtualPage allocator
      by_cases hagain : cowManagerHasMapping cow (toUint32 index) w.heap.nextProcess
          frame.virtualPage = true
      · rw [if_pos hagain] at hadd
        exact Ends.of_ok (onFailure_ok hadd) (Or.inl ⟨rfl, rfl⟩)
      · rw [if_neg hagain] at hadd
        by_cases hplan : allocator.plan allocator.calls = true
        · rw [if_pos hplan] at hadd
          exact Ends.of_ok (onFailure_ok hadd) (Or.inr (Or.inl ⟨hplan, rfl, _, _, rfl⟩))
        · rw [if_neg hplan] at hadd
          exact Ends.of_failed (onFailure_failed hadd (destroyChild_run hs hn pid cow processes _))
            (Or.inr (Or.inr ⟨Bool.not_eq_true _ ▸ hplan, rfl, rfl⟩))

/-- The mappings of `cow`, and perhaps some of a process. -/
def CowManager.Extended (cow : CowManager) (process : Nat) (cow' : CowManager) : Prop :=
  (∀ f, ∀ m ∈ cow.frames f, m ∈ cow'.frames f) ∧
    ∀ f, ∀ m ∈ cow'.frames f, m ∈ cow.frames f ∨ m.process = process

theorem CowManager.extended_insert {cow cow' : CowManager} {f q v : Nat}
    (h : (cowManagerInsert cow f q v).Extended q cow') : cow.Extended q cow' := by
  refine ⟨fun g m hm => h.1 g m (mem_cowManagerInsert.mpr (Or.inr hm)), fun g m hm => ?_⟩
  rcases h.2 g m hm with hin | hq
  · rcases mem_cowManagerInsert.mp hin with ⟨_, rfl⟩ | hold
    · exact Or.inr rfl
    · exact Or.inl hold
  · exact Or.inr hq

/-- All frames. Where storage runs out at the first mapping, the lists are
what they were; where it runs out later, they name the child. -/
theorem virtualMemoryShareFrames_ends (hs : w.heap.Sound)
    (hn : w.heap.objects r.root = some (.node n)) (p : Nat) (pid : Int) (processes : List Nat)
    (indices : List Nat) : ∀ (cow : CowManager) (allocator : Allocator),
    Ends (Comp.forEach (virtualMemoryShareFrame p w.heap.nextProcess) indices) (w.forking
      ((w.heap.forked r.root n pid).supplied allocator) cow (w.heap.nextProcess :: processes))
      fun result w' => ∃ allocator' cow', cow.Extended w.heap.nextProcess cow' ∧
        ((result = some () ∧ w' = w.forking ((w.heap.forked r.root n pid).supplied allocator') cow'
          (w.heap.nextProcess :: processes)) ∨
        (result = none ∧ w' = w.forking (w.heap.unforked.supplied allocator') cow' processes ∧
          (cow' = cow ∧ allocator.plan allocator.calls = false ∨
            (∃ f, ∃ m ∈ cow'.frames f, m.process = w.heap.nextProcess) ∧
              allocator.plan allocator.calls = true))) := by
  have hsame : ∀ cow : CowManager, cow.Extended w.heap.nextProcess cow :=
    fun cow => ⟨fun _ _ hm => hm, fun _ _ hm => Or.inl hm⟩
  induction indices with
  | nil =>
    intro cow allocator
    exact Ends.pure ⟨allocator, cow, hsame cow, Or.inl ⟨rfl, rfl⟩⟩
  | cons index indices ih =>
    intro cow allocator
    refine Ends.bind (virtualMemoryShareFrame_ends hs hn p pid cow processes allocator index)
      (fun _ w₁ h₁ => ?_) fun w₁ h₁ => ?_
    · rcases h₁ with ⟨_, rfl⟩ | ⟨hplan, _, f, v, rfl⟩ | ⟨_, hnone, _⟩
      · exact ih cow allocator
      · refine (ih _ allocator.draw).mono fun result w₂ h₂ => ?_
        obtain ⟨allocator', cow', hextended, hend⟩ := h₂
        refine ⟨allocator', cow', CowManager.extended_insert hextended, hend.imp id ?_⟩
        rintro ⟨hresult, hw₂, _⟩
        exact ⟨hresult, hw₂, Or.inr ⟨⟨f, _, hextended.1 f _
          (mem_cowManagerInsert.mpr (Or.inl ⟨rfl, rfl⟩)), rfl⟩, hplan⟩⟩
      · cases hnone
    · rcases h₁ with ⟨hsome, _⟩ | ⟨_, hsome, _⟩ | ⟨hplan, _, rfl⟩
      · cases hsome
      · cases hsome
      · exact ⟨allocator.draw, cow, hsame cow, Or.inr ⟨rfl, rfl, Or.inl ⟨rfl, hplan⟩⟩⟩

/-! ## The whole fork -/

/-- A fork fails for its pid, or no later than at the draw for the first
mapping of the child. -/
def World.FailsEarly (w : World) (p : Nat) (childPid : Int) (plan : Nat → Bool) : Prop :=
  childPid < 0 ∨ ∃ k ≤ w.draws p, plan k = false

/-- What a failed fork leaves behind. -/
structure World.ForkFailed (w : World) (p : Nat) (early : Prop) (w' : World) : Prop where
  objects : w'.heap.objects = w.heap.objects
  tables : w'.heap.tables = w.heap.tables
  processes : w'.heap.processes = w.heap.processes
  physicalMemory : w'.memory.physicalMemory = w.memory.physicalMemory
  swap : w'.memory.swap = w.memory.swap
  registry : ∀ q ∈ w'.memory.processes, q = p ∨ q ∈ w.memory.processes
  sharers : w'.memory.cowManager = w.memory.cowManager ∧ early ∨
    (∃ f, ∃ m ∈ w'.memory.cowManager.frames f, m.process = w.heap.nextProcess) ∧ ¬early

/-- How a fork ends: the pointers to processes are right as soon as storage
is there again, and if it failed, it leaves what `ForkFailed` says. -/
def World.ForkEnds (w : World) (p : Nat) (early : Prop) (result : Option Nat) (w' : World) : Prop :=
  (∀ allocator : Allocator, allocator.Plenty → (w'.supplied allocator).Named) ∧
    (result = none → w.ForkFailed p early w')

theorem World.Named.forking (h : w.Named) {heap : Heap} {cow : CowManager} (hs : heap.Sound)
    (hnext : heap.nextProcess = w.heap.nextProcess + 1)
    (hcow : w.memory.cowManager.Extended w.heap.nextProcess cow)
    (hprocesses : ∀ q ∈ processes, q ≤ w.heap.nextProcess) :
    (w.forking heap cow processes).Named := by
  refine ⟨hs, fun f m hm => ?_, fun q hq => ?_⟩
  · show m.process < heap.nextProcess
    rw [hnext]
    rcases hcow.2 f m hm with hold | hchild
    · exact Nat.lt_succ_of_lt (h.sharers f m hold)
    · exact hchild ▸ Nat.lt_succ_self _
  · show q < heap.nextProcess
    rw [hnext]
    exact Nat.lt_succ_of_le (hprocesses q hq)

theorem World.Named.registered (h : w.Named) (hp : p < w.heap.nextProcess)
    (hprocesses : ∀ q ∈ processes, q = p ∨ q ∈ w.memory.processes) (q : Nat) (hq : q ∈ processes) :
    q < w.heap.nextProcess := by
  rcases hprocesses q hq with rfl | hold
  · exact hp
  · exact h.registry q hold

/-- A fork that ends before it has a child. -/
theorem World.Named.forkEnds_before (h : w.Named) (hp : p < w.heap.nextProcess)
    (hprocesses : ∀ q ∈ processes, q = p ∨ q ∈ w.memory.processes) {early : Prop} (he : early)
    (allocator : Allocator) : w.ForkEnds p early none
      (w.forking (w.heap.supplied allocator) w.memory.cowManager processes) :=
  ⟨fun _ ha => ⟨h.sound.supplied ha, h.sharers, h.registered hp hprocesses⟩,
    fun _ => ⟨rfl, rfl, rfl, rfl, rfl, hprocesses, Or.inl ⟨rfl, he⟩⟩⟩

/-- A fork that ends after its child has been destroyed again. -/
theorem World.Named.forkEnds_after (h : w.Named) (hp : p < w.heap.nextProcess)
    (hprocesses : ∀ q ∈ processes, q = p ∨ q ∈ w.memory.processes) {early : Prop} {cow : CowManager}
    (hcow : w.memory.cowManager.Extended w.heap.nextProcess cow)
    (hsharers : cow = w.memory.cowManager ∧ early ∨
      (∃ f, ∃ m ∈ cow.frames f, m.process = w.heap.nextProcess) ∧ ¬early)
    (allocator : Allocator) : w.ForkEnds p early none
      (w.forking (w.heap.unforked.supplied allocator) cow processes) :=
  ⟨fun _ ha => h.forking (h.sound.unforked ha) rfl hcow
      fun q hq => Nat.le_of_lt (h.registered hp hprocesses q hq),
    fun _ => ⟨rfl, rfl, rfl, rfl, rfl, hprocesses, hsharers⟩⟩

/-- The part of a fork after its child has been registered: the last of
the `d` draws it can make is for the first mapping that is shared. -/
theorem World.Named.forkSharing (h : w.Named) (hx : w.heap.processes p = some x)
    (hr : w.heap.tables x.pageTable = some r) (hn : w.heap.objects r.root = some (.node n))
    {childPid : Int} (hpid : 0 ≤ childPid) {plan : Nat → Bool} {d : Nat} (hdraws : w.draws p = d)
    (hall : ∀ k < d, plan k = true)
    (hprocesses : ∀ q ∈ processes, q = p ∨ q ∈ w.memory.processes) (frames : List Nat) :
    Ends (do
      Comp.forEach (virtualMemoryShareFrame p w.heap.nextProcess) frames
      let pid ← processGetPid p
      let _ ← onTlb (tlbInvalidateProcess · pid)
      return w.heap.nextProcess) (w.forking ((w.heap.forked r.root n childPid).supplied ⟨plan, d⟩)
        w.memory.cowManager (w.heap.nextProcess :: processes))
      (w.ForkEnds p (w.FailsEarly p childPid plan)) := by
  have hp := h.sound.process_lt p x hx
  refine Ends.bind (virtualMemoryShareFrames_ends h.sound hn p childPid processes frames
    w.memory.cowManager ⟨plan, d⟩) (fun _ w₁ h₁ => ?_) fun w₁ h₁ => ?_
  · obtain ⟨allocator, cow, hextended, ⟨_, rfl⟩ | ⟨hnone, _⟩⟩ := h₁
    swap
    · cases hnone
    have hne : p ≠ w.heap.nextProcess := Nat.ne_of_lt hp
    have hread : processGetPid p (w.forking ((w.heap.forked r.root n childPid).supplied allocator)
        cow (w.heap.nextProcess :: processes)) = .ok x.pid (w.forking
          ((w.heap.forked r.root n childPid).supplied allocator) cow
          (w.heap.nextProcess :: processes)) := by
      have hx' : ((w.heap.forked r.root n childPid).supplied allocator).processes p = some x := by
        rw [← hx]
        exact Function.update_of_ne hne _ _
      have hrun : readProcess p ((w.heap.forked r.root n childPid).supplied allocator) =
          .ok x ((w.heap.forked r.root n childPid).supplied allocator) := by
        simp only [readProcess, hx']
      exact bind_ok (zoom_ok hrun)
    refine Ends.next hread (Ends.next (update_run ..) (Ends.pure ⟨fun B hB => ?_,
      fun hnone => by cases hnone⟩))
    have hnamed : (w.forking ((w.heap.forked r.root n childPid).supplied B) cow
        (w.heap.nextProcess :: processes)).Named := by
      refine h.forking (h.sound.forked hx hr hn hpid hB) rfl hextended fun q hq => ?_
      rcases List.mem_cons.mp hq with rfl | hin
      · exact Nat.le_refl _
      · exact Nat.le_of_lt (h.registered hp hprocesses q hin)
    exact ⟨hnamed.sound, hnamed.sharers, hnamed.registry⟩
  · obtain ⟨allocator, cow, hextended, ⟨hsome, _⟩ | ⟨_, rfl, hsharers⟩⟩ := h₁
    · cases hsome
    refine h.forkEnds_after hp hprocesses hextended ?_ allocator
    rcases hsharers with ⟨hcow, hplan⟩ | ⟨hchild, hplan⟩
    · exact Or.inl ⟨hcow, Or.inr ⟨d, hdraws.ge, hplan⟩⟩
    · refine Or.inr ⟨hchild, ?_⟩
      rintro (hneg | ⟨k, hk, hfails⟩)
      · exact absurd hpid (Int.not_le.mpr hneg)
      · rw [hdraws] at hk
        rcases Nat.lt_or_ge k d with hlt | hge
        · rw [hall k hlt] at hfails
          cases hfails
        · have hlate : plan d = true := hplan
          rw [Nat.le_antisymm hk hge, hlate] at hfails
          cases hfails

/-- The part of a fork after its parent has been registered, `e` draws
having been made. -/
theorem World.Named.forkRegistered (h : w.Named) (hx : w.heap.processes p = some x)
    {childPid : Int} (hpid : 0 ≤ childPid) {plan : Nat → Bool} {e : Nat}
    (hdraws : w.draws p = e + 3) (hbefore : ∀ k < e, plan k = true)
    (hprocesses : ∀ q ∈ processes, q = p ∨ q ∈ w.memory.processes) :
    Ends (do
      let child ← onHeap (processFork p childPid)
      Comp.onFailure (virtualMemoryRegisterProcess child) (onHeap (processDestroy child))
      let w ← Comp.get
      Comp.forEach (virtualMemoryShareFrame p child)
        (List.range w.memory.physicalMemory.frameCount)
      let pid ← processGetPid p
      let _ ← onTlb (tlbInvalidateProcess · pid)
      return child) (w.forking (w.heap.supplied ⟨plan, e⟩) w.memory.cowManager processes)
      (w.ForkEnds p (w.FailsEarly p childPid plan)) := by
  have hp := h.sound.process_lt p x hx
  obtain ⟨r, n, hr, hn⟩ := h.sound.root hx
  have hearly : ∀ k ≤ e + 3, plan k = false → w.FailsEarly p childPid plan :=
    fun k hk hplan => Or.inr ⟨k, by rw [hdraws]; exact hk, hplan⟩
  have hfork := processFork_supplied hx hr hn hpid ⟨plan, e⟩
  by_cases hfirst : plan e = true
  swap
  · rw [if_neg hfirst] at hfork
    have hrun : onHeap (processFork p childPid) (w.forking (w.heap.supplied ⟨plan, e⟩)
        w.memory.cowManager processes) = .failed (w.forking (w.heap.supplied ⟨plan, e + 1⟩)
        w.memory.cowManager processes) := zoom_failed hfork
    exact Ends.of_failed (bind_failed hrun) (h.forkEnds_before hp hprocesses
      (hearly e (by omega) (Bool.not_eq_true _ ▸ hfirst)) _)
  by_cases hsecond : plan (e + 1) = true
  swap
  · rw [if_pos hfirst, if_neg hsecond] at hfork
    have hrun : onHeap (processFork p childPid) (w.forking (w.heap.supplied ⟨plan, e⟩)
        w.memory.cowManager processes) = .failed (w.forking (w.heap.supplied ⟨plan, e + 2⟩)
        w.memory.cowManager processes) := zoom_failed hfork
    exact Ends.of_failed (bind_failed hrun) (h.forkEnds_before hp hprocesses
      (hearly (e + 1) (by omega) (Bool.not_eq_true _ ▸ hsecond)) _)
  rw [if_pos hfirst, if_pos hsecond] at hfork
  have hrun : onHeap (processFork p childPid) (w.forking (w.heap.supplied ⟨plan, e⟩)
      w.memory.cowManager processes) = .ok w.heap.nextProcess
      (w.forking ((w.heap.forked r.root n childPid).supplied ⟨plan, e + 2⟩)
        w.memory.cowManager processes) := zoom_ok hfork
  refine Ends.next hrun ?_
  have hnew : w.heap.nextProcess ∉ processes :=
    fun hin => Nat.lt_irrefl _ (h.registered hp hprocesses _ hin)
  have hregister := virtualMemoryRegisterProcess_supplied w (w.heap.forked r.root n childPid)
    w.memory.cowManager processes w.heap.nextProcess ⟨plan, e + 2⟩
  rw [if_neg hnew] at hregister
  have hunchanged : w.memory.cowManager.Extended w.heap.nextProcess w.memory.cowManager :=
    ⟨fun _ _ hm => hm, fun _ _ hm => Or.inl hm⟩
  by_cases hthird : plan (e + 2) = true
  swap
  · rw [if_neg hthird] at hregister
    have hdestroy : onHeap (processDestroy w.heap.nextProcess) (w.forking
        ((w.heap.forked r.root n childPid).supplied ⟨plan, e + 3⟩) w.memory.cowManager processes) =
        .ok () (w.forking (w.heap.unforked.supplied ⟨plan, e + 3⟩) w.memory.cowManager
          processes) := zoom_ok (processDestroy_forked h.sound hn childPid _)
    exact Ends.of_failed (bind_failed (onFailure_failed hregister hdestroy))
      (h.forkEnds_after hp hprocesses hunchanged
        (Or.inl ⟨rfl, hearly (e + 2) (by omega) (Bool.not_eq_true _ ▸ hthird)⟩) _)
  rw [if_pos hthird] at hregister
  refine Ends.next (onFailure_ok hregister) (Ends.next (get_run _) ?_)
  refine h.forkSharing hx hr hn hpid hdraws ?_ hprocesses _
  -- the draws before the one for the first mapping
  intro k hk
  rcases Nat.lt_or_ge k e with hlt | hge
  · exact hbefore k hlt
  · have hcases : k = e ∨ k = e + 1 ∨ k = e + 2 := by omega
    rcases hcases with rfl | rfl | rfl
    · exact hfirst
    · exact hsecond
    · exact hthird

/-- A fork whose allocations may fail does not fault. -/
theorem World.Named.fork (h : w.Named) (hp : 0 ≤ w.heap.pid p) (childPid : Int)
    (plan : Nat → Bool) :
    Ends (virtualMemoryForkProcess p childPid) (w.supplied ⟨plan, 0⟩)
      (w.ForkEnds p (w.FailsEarly p childPid plan)) := by
  obtain ⟨x, hx⟩ := Heap.process_of_pid hp
  have hlt := h.sound.process_lt p x hx
  by_cases hneg : childPid < 0
  · exact Ends.stop (decide_eq_true hneg)
      (h.forkEnds_before hlt (fun _ => Or.inr) (Or.inl hneg) ⟨plan, 0⟩)
  refine Ends.pass (decide_eq_false hneg) ?_
  have hpid := Int.not_lt.mp hneg
  have hregister := virtualMemoryRegisterProcess_supplied w w.heap w.memory.cowManager
    w.memory.processes p ⟨plan, 0⟩
  by_cases hin : p ∈ w.memory.processes
  · rw [if_pos hin] at hregister
    exact Ends.next hregister (h.forkRegistered hx hpid (e := 0) (by rw [World.draws, if_pos hin])
      (fun k hk => absurd hk (Nat.not_lt_zero k)) fun _ => Or.inr)
  rw [if_neg hin] at hregister
  have hcons : ∀ q ∈ p :: w.memory.processes, q = p ∨ q ∈ w.memory.processes :=
    fun _ => List.mem_cons.mp
  by_cases hplan : plan 0 = true
  · rw [if_pos hplan] at hregister
    exact Ends.next hregister (h.forkRegistered hx hpid (e := 1) (by rw [World.draws, if_neg hin])
      (fun k hk => (Nat.lt_one_iff.mp hk).symm ▸ hplan) hcons)
  · rw [if_neg hplan] at hregister
    exact Ends.of_failed (bind_failed hregister) (h.forkEnds_before hlt (fun _ => Or.inr)
      (Or.inr ⟨0, Nat.zero_le _, Bool.not_eq_true _ ▸ hplan⟩) _)

/-! ## Runs -/

/-- A call other than a fork, whose allocations all succeed, or a fork with
a plan that says which of its allocations do. -/
inductive Trial where
  | call (call : Call)
  | fork (process : Nat) (childPid : Int) (plan : Nat → Bool)

def World.trial (w : World) : Trial → Option (Reply × World)
  | .call call => w.step call
  | .fork p childPid plan =>
    ((w.supplied ⟨plan, 0⟩).step (.fork p childPid)).map fun (reply, w') =>
      (reply, w'.supplied ⟨fun _ => true, 0⟩)

/-- The process exists, and the address has 64 bits. -/
def World.Tries (w : World) : Trial → Prop
  | .call (.fork _ _) => False
  | .call call => w.pager.Valid call
  | .fork p _ _ => 0 ≤ w.heap.pid p

instance (s : Pager) : (call : Call) → Decidable (s.Valid call)
  | .createProcess _ => .isTrue trivial
  | .access p a _ | .readByte p a | .writeByte p a _ =>
    inferInstanceAs (Decidable (0 ≤ s.pid p ∧ a < wordSize))
  | .fork p _ | .release p => inferInstanceAs (Decidable (0 ≤ s.pid p))

instance (w : World) : (trial : Trial) → Decidable (w.Tries trial)
  | .call (.fork _ _) => .isFalse id
  | .call (.createProcess pid) => inferInstanceAs (Decidable (w.pager.Valid (.createProcess pid)))
  | .call (.access p a t) => inferInstanceAs (Decidable (w.pager.Valid (.access p a t)))
  | .call (.readByte p a) => inferInstanceAs (Decidable (w.pager.Valid (.readByte p a)))
  | .call (.writeByte p a value) =>
    inferInstanceAs (Decidable (w.pager.Valid (.writeByte p a value)))
  | .call (.release p) => inferInstanceAs (Decidable (w.pager.Valid (.release p)))
  | .fork p _ _ => inferInstanceAs (Decidable (0 ≤ w.heap.pid p))

theorem World.Named.within (h : w.Named) : w.Within w.heap := ⟨h, rfl, rfl⟩

theorem World.Named.created (h : w.Named) {reply : Reply}
    (hrun : w.step (.createProcess pid) = some (reply, w')) : w'.Named := by
  have hrun' : (onHeap (processCreate pid) w).reply Reply.process = some (reply, w') := hrun
  by_cases hneg : pid < 0
  · have hfailed : onHeap (processCreate pid) w = .failed w := by
      refine zoom_failed (bind_failed ?_)
      rw [decide_eq_true hneg]
      rfl
    rw [hfailed] at hrun'
    cases hrun'
    exact h
  · obtain ⟨q, heap, hcreate, _, hspawned⟩ := processCreate_spec h.sound (Int.not_lt.mp hneg)
    rw [show onHeap (processCreate pid) w = .ok q { w with heap := heap } from
      zoom_ok hcreate] at hrun'
    cases hrun'
    refine ⟨hspawned.sound h.sound, fun f m hm => ?_, fun r hr => ?_⟩
    · show m.process < heap.nextProcess
      rw [hspawned.nextProcess]
      exact Nat.lt_succ_of_lt (h.sharers f m hm)
    · show r < heap.nextProcess
      rw [hspawned.nextProcess]
      exact Nat.lt_succ_of_lt (h.registry r hr)

theorem World.Named.trial (h : w.Named) {trial : Trial} (ht : w.Tries trial) {reply : Reply}
    (hrun : w.trial trial = some (reply, w')) : w'.Named := by
  have hlt : ∀ {q : Nat}, 0 ≤ w.pager.pid q → q < w.heap.nextProcess := h.sound.pid_lt
  have hkept : ∀ {α : Type} {c : Comp World α} (f : Option α → Reply),
      Keeps (World.Within w.heap) anyValue c → (c w).reply f = some (reply, w') → w'.Named :=
    fun _ hc hr => (hc.reply h.within hr).toNamed
  cases trial with
  | call call =>
    cases call with
    | createProcess pid => exact h.created hrun
    | access p a t =>
      exact hkept (fun r => .result (r.getD .internalError))
        (virtualMemoryAccess_keeps (hlt ht.1) a t) hrun
    | readByte p a => exact hkept .byte (virtualMemoryReadByte_keeps (hlt ht.1) a) hrun
    | writeByte p a value =>
      exact hkept (fun r => .status r.isSome)
        (virtualMemoryWriteByte_keeps (hlt ht.1) a value) hrun
    | fork p childPid => exact absurd ht id
    | release p => exact hkept (fun r => .status r.isSome) (virtualMemoryReleaseProcess_keeps p) hrun
  | fork p childPid plan =>
    obtain ⟨⟨reply₁, w₁⟩, hstep, hend⟩ := Option.map_eq_some_iff.mp hrun
    obtain ⟨_, rfl⟩ := Prod.mk.inj hend
    obtain ⟨result, w₂, hfork, hends⟩ := (h.fork ht childPid plan).reply Reply.process
    have hsame : some (Reply.process result, w₂) = some (reply₁, w₁) := hfork.symm.trans hstep
    cases hsame
    exact hends.1 _ fun _ => rfl

/-- The states reached by calls with valid pointers, in which the
allocations of a fork may fail. -/
def World.Tried (n : Nat) (type : ReplacementPolicyType) (tlbEntries : Nat)
    (slots : Option Nat) (history : List (Trial × Reply)) (w : World) : Prop :=
  ∃ memory, virtualMemoryCreateInternal n type tlbEntries slots = some memory ∧
    Run World.trial World.Tries (World.boot memory) history w

theorem World.Tried.named {n tlbEntries : Nat} {type : ReplacementPolicyType}
    {slots : Option Nat} {history : List (Trial × Reply)}
    (h : World.Tried n type tlbEntries slots history w) : w.Named := by
  obtain ⟨memory, hcreate, hrun⟩ := h
  obtain ⟨_, _, _, _, _, hprocesses, _⟩ := virtualMemoryCreateInternal_some hcreate
  refine Run.invariant (fun _ w => w.Named) ⟨World.boot_sound memory, fun f m hm => ?_,
    fun q hq => ?_⟩ (fun _ w trial reply w' h ht hs => h.trial ht hs) hrun
  · have hnil : (World.boot memory).memory.cowManager.frames f = [] := World.boot_users hcreate f
    rw [hnil] at hm
    cases hm
  · have hnil : (World.boot memory).memory.processes = [] := hprocesses
    rw [hnil] at hq
    cases hq

end VmSim
