/-
VmSim.VirtualMemory.Coherence — the invariant of a virtual memory whose
processes have distinct pids.

`Pager.Allows pages` is the condition on a call: its process exists and
shares its pid with no registered process, a child gets an unused pid,
and the address lies in one of `pages`. If the keys of the trie tell
these pages apart, every call keeps `World.Coherent`: the TLB translates
only what the page tables map, for registered processes only.
-/
import VmSim.VirtualMemory.Effects

namespace VmSim

open Lib

variable {w w' : World} {s s' : Pager} {p q page f a : Nat} {pages : Nat → Prop} {call : Call}
  {answers : TlbAnswers} {reply : Reply}

/-! ## The condition on calls -/

/-- No other registered process has the pid of `p`. -/
def Pager.Alone (s : Pager) (p : Nat) : Prop := ∀ q ∈ s.processes, s.pid q = s.pid p → q = p

def Pager.Allows (s : Pager) (pages : Nat → Prop) : Call → Prop
  | .createProcess _ => True
  | .access p a _ => 0 ≤ s.pid p ∧ s.Alone p ∧ a < wordSize ∧ pages (addressPageNumber a)
  | .readByte p a => 0 ≤ s.pid p ∧ s.Alone p ∧ a < wordSize ∧ pages (addressPageNumber a)
  | .writeByte p a _ => 0 ≤ s.pid p ∧ s.Alone p ∧ a < wordSize ∧ pages (addressPageNumber a)
  | .fork p childPid =>
    0 ≤ s.pid p ∧ s.Alone p ∧ childPid ≠ s.pid p ∧ ∀ q ∈ s.processes, s.pid q ≠ childPid
  | .release p => 0 ≤ s.pid p ∧ s.Alone p

theorem Pager.Allows.valid (h : s.Allows pages call) : s.Valid call := by
  cases call with
  | createProcess pid => trivial
  | access p a t => exact ⟨h.1, h.2.2.1⟩
  | readByte p a => exact ⟨h.1, h.2.2.1⟩
  | writeByte p a value => exact ⟨h.1, h.2.2.1⟩
  | fork p childPid => exact h.1
  | release p => exact h.1

/-- The process of a call that accesses a page. -/
theorem Pager.Allows.target (h : s.Allows pages call) (ht : call.target = some (p, page)) :
    0 ≤ s.pid p ∧ s.Alone p ∧ pages page := by
  cases call with
  | access p' a t => cases ht; exact ⟨h.1, h.2.1, h.2.2.2⟩
  | readByte p' a => cases ht; exact ⟨h.1, h.2.1, h.2.2.2⟩
  | writeByte p' a value => cases ht; exact ⟨h.1, h.2.1, h.2.2.2⟩
  | _ => cases ht

/-! ## The invariant -/

structure World.Coherent (w : World) (pages : Nat → Prop) : Prop where
  wf : w.Wf
  distinct : ∀ p ∈ w.pager.processes, w.pager.Alone p
  resident : w.pager.PagesIn pages
  translated : ∀ pid v f, w.memory.tlb.Holds pid v f → pages v ∧
    ∃ p ∈ w.pager.processes, w.pager.pid p = pid ∧ w.pager.mapped p v = some f

/-- A hit in the TLB is what the page table says. -/
theorem World.Coherent.hit_mapped (h : w.Coherent pages) (ha : w.pager.Allows pages call)
    (ht : call.target = some (p, page)) (hhit : w.hit call = some f) :
    w.pager.mapped p page = some f := by
  rw [World.hit, ht] at hhit
  obtain ⟨_, q, hq, hpid, hm⟩ := h.translated _ _ _ (Tlb.found_some hhit)
  rwa [(ha.target ht).2.1 q hq hpid] at hm

/-- A process can write to the frames it maps. -/
theorem Pager.Consistent.admits (h : s.Consistent) (hkeys : KeysApart pages)
    (hin : s.PagesIn pages) (hpage : pages page)
    (hhit : ∀ f, answers.hit = some f → s.mapped p page = some f) (isWrite : Bool) :
    s.Admits answers p page isWrite := by
  intro f hf
  have hm : s.mapped p page = some f := hf.elim (hhit f) And.right
  have hocc := h.occupied_of_mapped hm
  obtain ⟨huser, hk⟩ := h.user_of_mapped hm
  rw [hkeys _ page (hin f hocc) hpage hk] at huser
  exact ⟨hocc, fun _ => Or.inr huser⟩

theorem World.Coherent.expects (h : w.Coherent pages) (hkeys : KeysApart pages)
    (ha : w.pager.Allows pages call) :
    w.pager.Expects ⟨w.hit call, true, true⟩ call := by
  cases call with
  | access p a t =>
    exact h.wf.consistent.admits hkeys h.resident (ha.target rfl).2.2
      (fun f => h.hit_mapped ha rfl) _
  | readByte p a =>
    exact h.wf.consistent.admits hkeys h.resident (ha.target rfl).2.2
      (fun f => h.hit_mapped ha rfl) _
  | writeByte p a value =>
    exact h.wf.consistent.admits hkeys h.resident (ha.target rfl).2.2
      (fun f => h.hit_mapped ha rfl) _
  | _ => trivial

/-! ## Steps keep it -/

theorem Pager.mem_register_iff : q ∈ (s.register p).processes ↔ q = p ∨ q ∈ s.processes := by
  unfold Pager.register
  split
  · rename_i hmem
    exact ⟨Or.inr, fun h => h.elim (fun e => e ▸ (by simpa using hmem)) id⟩
  · exact List.mem_cons

theorem Pager.Alone.register (hp : s.Alone p) (h : ∀ q ∈ s.processes, s.Alone q) :
    ∀ q ∈ (s.register p).processes, (s.register p).Alone q := by
  intro q hq r hr hpid
  have hpids : (s.register p).pid = s.pid := by rw [Pager.register_eq]
  rw [hpids] at hpid
  rcases Pager.mem_register_iff.mp hq with e | hq' <;>
    rcases Pager.mem_register_iff.mp hr with e' | hr'
  · rw [e, e']
  · rw [e] at hpid ⊢
    exact hp r hr' hpid
  · rw [e'] at hpid ⊢
    exact (hp q hq' hpid.symm).symm
  · exact h q hq' r hr' hpid

/-- What an access keeps, given how the pager and the TLB evolved. -/
theorem World.Coherent.evolves (h : w.Coherent pages) (hkeys : KeysApart pages)
    (hp : 0 ≤ w.pager.pid p ∧ w.pager.Alone p ∧ pages page) (hwf : w'.Wf)
    (he : (w.pager.register p).Evolves page w'.pager)
    (htlb : ∀ pid v f, w'.memory.tlb.Holds pid v f →
      (pid = w.pager.pid p ∧ v = page ∧ w'.pager.mapped p page = some f) ∨
        (w.memory.tlb.Holds pid v f ∧ w.pager.Keeps page w'.pager pid v)) :
    w'.Coherent pages := by
  have hpids : (w.pager.register p).pid = w.pager.pid := by rw [Pager.register_eq]
  have hphysical : (w.pager.register p).physical = w.pager.physical := by rw [Pager.register_eq]
  have hpids' : w'.pager.pid = w.pager.pid := he.pid.trans hpids
  refine ⟨hwf, ?_, fun f hf => ?_, fun pid v f hh => ?_⟩
  · rw [he.processes]
    unfold Pager.Alone
    rw [he.processes, he.pid]
    exact hp.2.1.register h.distinct
  · rcases he.pages f hf with hv | ⟨hocc, hv⟩
    · rw [hv]
      exact hp.2.2
    · rw [hv, hphysical]
      exact h.resident f (hphysical ▸ hocc)
  · rw [he.processes, hpids']
    rcases htlb pid v f hh with ⟨rfl, rfl, hm⟩ | ⟨hold, hkeeps⟩
    · exact ⟨hp.2.2, p, w.pager.mem_register p, rfl, hm⟩
    · obtain ⟨hv, q, hq, hpid, hm⟩ := h.translated pid v f hold
      refine ⟨hv, q, Pager.mem_register_iff.mpr (Or.inr hq), hpid, ?_⟩
      rw [hkeeps pages hkeys hv hp.2.2 h.resident q hpid]
      exact hm

theorem World.Coherent.forked (h : w.Coherent pages) {childPid : Int}
    (ha : w.pager.Allows pages (.fork p childPid)) (hwf : w'.Wf)
    (hs : w'.pager = (w.pager.register p).spawn p childPid)
    (htlb : ∀ pid v f, w'.memory.tlb.Holds pid v f → w.memory.tlb.Holds pid v f) :
    w'.Coherent pages := by
  obtain ⟨hp, halone, hne, hfresh⟩ := ha
  have hc := h.wf.consistent.register hp
  have hdistinct := halone.register h.distinct
  have hfresh' : ∀ q ∈ (w.pager.register p).processes, (w.pager.register p).pid q ≠ childPid := by
    intro q hq
    have hpids : (w.pager.register p).pid = w.pager.pid := by rw [Pager.register_eq]
    rw [hpids]
    rcases Pager.mem_register_iff.mp hq with rfl | hq
    · exact Ne.symm hne
    · exact hfresh q hq
  have hold : ∀ q ∈ w.pager.processes, q ∈ (w.pager.register p).processes := fun q hq =>
    Pager.mem_register_iff.mpr (Or.inr hq)
  have hresident : (w.pager.register p).PagesIn pages := by
    rw [Pager.register_eq]
    exact h.resident
  have htranslated : ∀ q v f, w.pager.mapped q v = some f →
      (w.pager.register p).mapped q v = some f := by
    rw [Pager.register_eq]
    exact fun q v f hm => hm
  have hpids : ∀ q, (w.pager.register p).pid q = w.pager.pid q := by
    rw [Pager.register_eq]
    exact fun q => rfl
  generalize w.pager.register p = s at *
  refine ⟨hwf, fun q hq r hr hpid => ?_, by rw [hs]; exact hresident, fun pid v f hh => ?_⟩
  · rw [hs] at hq hr hpid
    have hchild : ∀ q ∈ s.processes, (s.spawn p childPid).pid q = s.pid q := fun q hq =>
      hc.pid_next hq
    have hself : (s.spawn p childPid).pid s.nextProcess = childPid := Function.update_self _ _ _
    rcases List.mem_cons.mp hq with rfl | hq <;> rcases List.mem_cons.mp hr with rfl | hr
    · rfl
    · rw [hself, hchild r hr] at hpid
      exact absurd hpid (hfresh' r hr)
    · rw [hself, hchild q hq] at hpid
      exact absurd hpid.symm (hfresh' q hq)
    · rw [hchild q hq, hchild r hr] at hpid
      exact hdistinct q hq r hr hpid
  · obtain ⟨hv, q, hq, hpid, hm⟩ := h.translated pid v f (htlb pid v f hh)
    have hne : q ≠ s.nextProcess := fun e => hc.next_notMem (e ▸ hold q hq)
    rw [hs]
    refine ⟨hv, q, List.mem_cons_of_mem _ (hold q hq), ?_, ?_⟩
    · exact (hc.pid_next (hold q hq)).trans ((hpids q).trans hpid)
    · exact (congrFun (Function.update_of_ne hne _ _) v).trans (htranslated q v f hm)

theorem World.Coherent.created (h : w.Coherent pages) (pid : Int) (hwf : w'.Wf)
    (hs : w'.pager = (w.pager.create pid).2)
    (htlb : ∀ pid v f, w'.memory.tlb.Holds pid v f → w.memory.tlb.Holds pid v f) :
    w'.Coherent pages := by
  have hc := h.wf.consistent
  unfold Pager.create at hs
  split at hs
  · refine ⟨hwf, by rw [hs]; exact h.distinct, by rw [hs]; exact h.resident, fun pid v f hh => ?_⟩
    rw [hs]
    exact h.translated pid v f (htlb pid v f hh)
  · have hpid : ∀ q ∈ w.pager.processes, w'.pager.pid q = w.pager.pid q := fun q hq => by
      rw [hs]
      exact hc.pid_next hq
    have hprocesses : w'.pager.processes = w.pager.processes := by rw [hs]
    refine ⟨hwf, fun q hq r hr he => ?_, by rw [hs]; exact h.resident, fun pid v f hh => ?_⟩
    · rw [hprocesses] at hq hr
      rw [hpid q hq, hpid r hr] at he
      exact h.distinct q hq r hr he
    · obtain ⟨hv, q, hq, hpid', hm⟩ := h.translated pid v f (htlb pid v f hh)
      have hne : q ≠ w.pager.nextProcess := fun e => hc.next_notMem (e ▸ hq)
      refine ⟨hv, q, by rw [hprocesses]; exact hq, (hpid q hq).trans hpid', ?_⟩
      rw [hs]
      exact (congrFun (Function.update_of_ne hne _ _) v).trans hm

/-- A release leaves the page maps of the others alone. -/
theorem Pager.Released.mapped_of_ne {frames : List Nat} (h : s.Consistent)
    (hr : s.Released p frames s') (hq : q ≠ p) (v : Nat) : s'.mapped q v = s.mapped q v := by
  apply Option.ext
  intro f
  rw [hr.consistent.mapped, h.mapped]
  refine exists_congr fun u => and_congr_left fun _ => ?_
  rw [hr.users]
  exact and_iff_left fun _ => hq

theorem Pager.Released.pagesIn {frames : List Nat} (h : s.Consistent)
    (hr : s.Released p frames s') (hin : s.PagesIn pages) : s'.PagesIn pages := by
  intro f hf
  obtain ⟨o, _, _, ho⟩ := hr.consistent.owner hf
  rw [(hr.kept f hf).2.2.2]
  exact hin f (h.occupied_of_user ((hr.users f _).mp ho).1)

theorem World.Coherent.released (h : w.Coherent pages) (hwf : w'.Wf)
    (hs : w'.pager = w.pager.release p)
    (htlb : ∀ pid v f, w'.memory.tlb.Holds pid v f →
      w.memory.tlb.Holds pid v f ∧ pid ≠ w.pager.pid p) : w'.Coherent pages := by
  have hc := h.wf.consistent
  have hr := Pager.Consistent.releaseFrames p (List.range w.pager.physical.frameCount) w.pager hc
  have hprocesses : w'.pager.processes = w.pager.processes.erase p := by
    rw [hs, Pager.release, Pager.forget, hr.processes]
  have hpid : w'.pager.pid = w.pager.pid := by
    rw [hs, Pager.release, Pager.forget, hr.pid]
  have hmem : ∀ q, q ∈ w'.pager.processes ↔ q ≠ p ∧ q ∈ w.pager.processes := fun q => by
    rw [hprocesses, hc.registry.mem_erase_iff]
  refine ⟨hwf, fun q hq r hr he => ?_, ?_, fun pid v f hh => ?_⟩
  · rw [hpid] at he
    exact h.distinct q ((hmem q).mp hq).2 r ((hmem r).mp hr).2 he
  · have hresident := hr.pagesIn hc h.resident
    rw [hs]
    exact hresident
  · obtain ⟨hold, hne⟩ := htlb pid v f hh
    obtain ⟨hv, q, hq, hqpid, hm⟩ := h.translated pid v f hold
    have hqp : q ≠ p := fun e => hne (by rw [← hqpid, e])
    refine ⟨hv, q, (hmem q).mpr ⟨hqp, hq⟩, by rw [hpid]; exact hqpid, ?_⟩
    rw [hs]
    exact (hr.mapped_of_ne hc hqp v).trans hm

theorem World.Coherent.next (h : w.Coherent pages) (hkeys : KeysApart pages)
    (ha : w.pager.Allows pages call) (hs : w.Stepped call answers reply w') :
    w'.Coherent pages := by
  have hstate : (w.pager.step answers call).2 = w'.pager := by rw [hs.pager]
  have htlb := hs.tlb.holds
  cases call with
  | createProcess pid =>
    exact h.created pid hs.wf hstate.symm htlb
  | access p a t =>
    refine h.evolves hkeys (ha.target rfl) hs.wf ?_ htlb
    rw [← hstate]
    exact w.pager.evolves_access answers p _ _
  | readByte p a =>
    refine h.evolves hkeys (ha.target rfl) hs.wf ?_ htlb
    rw [← hstate]
    show (w.pager.register p).Evolves _ (w.pager.readByte answers p a).2
    rw [Pager.readByte_state]
    exact w.pager.evolves_access answers p _ _
  | writeByte p a value =>
    refine h.evolves hkeys (ha.target rfl) hs.wf ?_ htlb
    rw [← hstate]
    exact w.pager.evolves_writeByte answers p a value
  | fork p childPid =>
    by_cases hneg : childPid < 0
    · have hsame : w'.pager = w.pager := by
        rw [← hstate]
        simp only [Pager.step, Pager.fork, if_pos hneg]
      refine ⟨hs.wf, by rw [hsame]; exact h.distinct, by rw [hsame]; exact h.resident,
        fun pid v f hh => ?_⟩
      rw [hsame]
      exact h.translated pid v f (htlb pid v f hh).1
    · refine h.forked ha hs.wf ?_ fun pid v f hh => (htlb pid v f hh).1
      rw [← hstate]
      simp only [Pager.step, Pager.fork, if_neg hneg]
  | release p => exact h.released hs.wf hstate.symm htlb

/-- A call that is allowed runs, and the invariant holds afterwards. -/
theorem World.Coherent.step (h : w.Coherent pages) (hkeys : KeysApart pages)
    (ha : w.pager.Allows pages call) :
    ∃ answers reply w', w.Stepped call answers reply w' ∧ w'.Coherent pages := by
  obtain ⟨answers, reply, w', hs⟩ := h.wf.step ha.valid (h.expects hkeys ha)
  exact ⟨answers, reply, w', hs, h.next hkeys ha hs⟩

/-! ## The beginning -/

theorem virtualMemoryCreateInternal_some {n tlbEntries : Nat} {type : ReplacementPolicyType}
    {slots : Option Nat} {memory : VirtualMemory}
    (h : virtualMemoryCreateInternal n type tlbEntries slots = some memory) :
    physicalMemoryCreate n = some memory.physicalMemory ∧
      replacementPolicyCreate type n = some memory.replacementPolicy ∧
      tlbCreate tlbEntries = some memory.tlb ∧ cowManagerCreate n = some memory.cowManager ∧
      (∀ swap, memory.swap = some swap →
        ∃ count, 0 < count ∧ slots = some count ∧ swapCreate count = some swap) ∧
      memory.processes = [] ∧ memory.stats = .zero := by
  simp only [virtualMemoryCreateInternal, Option.bind_eq_bind, Option.bind_eq_some_iff] at h
  obtain ⟨physical, hphysical, policy, hpolicy, tlb, htlb, cow, hcow, h⟩ := h
  have hdone : ∃ swap : Option Swap, (∀ s, swap = some s →
      ∃ count, 0 < count ∧ slots = some count ∧ swapCreate count = some s) ∧
      some (⟨physical, policy, tlb, swap, cow, [], .zero⟩ : VirtualMemory) = some memory := by
    cases slots with
    | none => exact ⟨none, fun s hs => (by cases hs), h⟩
    | some count =>
      dsimp only at h
      split at h
      · rename_i hpos
        cases hcreate : swapCreate count with
        | none => simp [hcreate] at h
        | some swap =>
          rw [hcreate] at h
          exact ⟨some swap, fun s hs => ⟨count, hpos, rfl, by rw [hcreate, hs]⟩, h⟩
      · exact ⟨none, fun s hs => (by cases hs), h⟩
  obtain ⟨swap, hswap, he⟩ := hdone
  cases he
  exact ⟨hphysical, hpolicy, htlb, hcow, hswap, rfl, rfl⟩

theorem World.boot_sound (memory : VirtualMemory) : (World.boot memory).heap.Sound :=
  ⟨Heap.tame_empty _, fun _ => rfl⟩

theorem World.boot_consistent {n tlbEntries : Nat} {type : ReplacementPolicyType}
    {slots : Option Nat} {memory : VirtualMemory}
    (h : virtualMemoryCreateInternal n type tlbEntries slots = some memory) (hn : n < 2 ^ 32) :
    (World.boot memory).pager.Consistent := by
  obtain ⟨hphysical, hpolicy, _, hcow, hswap, hprocesses, _⟩ :=
    virtualMemoryCreateInternal_some h
  obtain ⟨hframes, hocc, _, hdata, hcount, hfree, hpos⟩ := physicalMemoryCreate_spec hphysical hn
  obtain ⟨hpwf, hpcount, hploaded⟩ := replacementPolicyCreate_spec hpolicy hn
  have hcow' : memory.cowManager = ⟨fun _ => [], n⟩ := by
    rw [cowManagerCreate, if_neg (by omega)] at hcow
    exact (Option.some.inj hcow).symm
  have hnone : ∀ p page, (World.boot memory).pager.mapped p page = none := fun p page => rfl
  have hcontent : ∀ swap, memory.swap = some swap →
      swap.Wf ∧ swap.Works ∧ ∀ pid page, swap.content pid page = none := fun swap hs => by
    obtain ⟨count, _, _, hc⟩ := hswap swap hs
    exact swapCreate_spec hc
  have hloaded : ∀ f, memory.replacementPolicy.loaded f =
      (memory.physicalMemory.frames f).occupied := fun f => by rw [hploaded, hocc]
  have hframe : ∀ f, f < memory.physicalMemory.frameCount →
      FrameLinked memory.processes (World.boot memory).pager.pid (memory.physicalMemory.frames f)
        (memory.physicalMemory.data f) (memory.cowManager.frames f) := fun f hf => by
    rw [hframes f (hcount ▸ hf), hdata, hcow']
    exact ⟨by simp [PhysicalFrame.free], by simp, by simp, by decide, by simp,
      fun hn => by simp [PhysicalFrame.free] at hn, fun _ => ⟨rfl, rfl⟩,
      fun hn => by simp [PhysicalFrame.free] at hn⟩
  have hfreeCount : memory.physicalMemory.freeFrameCount =
      (freeFrames memory.physicalMemory.frames memory.physicalMemory.frameCount).card := by
    have hall : freeFrames memory.physicalMemory.frames memory.physicalMemory.frameCount =
        Finset.range memory.physicalMemory.frameCount := by
      ext f
      simp [mem_freeFrames, hocc]
    rw [hall, Finset.card_range, hfree, hcount]
  have hmapped : ∀ p v f, (World.boot memory).pager.mapped p v = some f ↔
      ∃ u, ⟨p, u⟩ ∈ memory.cowManager.frames f ∧ pageKey u = pageKey v := by
    intro p v f
    rw [hnone, hcow']
    simp
  have hdead : ∀ p, ¬ 0 ≤ (World.boot memory).pager.pid p := fun p hp => by
    have hpid : (World.boot memory).pager.pid p = -1 := rfl
    omega
  have hregistry : (World.boot memory).pager.processes = [] := hprocesses
  exact ⟨hcount ▸ hpos, hcount ▸ hn, hpwf, hpcount.trans hcount.symm,
    (congrArg CowManager.frameCount hcow').trans hcount.symm, hloaded, hframe,
    fun f _ => congrArg (CowManager.frames · f) hcow', hmapped, by rw [hregistry]; exact List.nodup_nil,
    fun p hp => absurd (hregistry ▸ hp) List.not_mem_nil, fun p hp => absurd hp (hdead p),
    hfreeCount, fun swap hs => ⟨(hcontent swap hs).1, (hcontent swap hs).2.1⟩,
    fun swap hs pid page hc => absurd ((hcontent swap hs).2.2 pid page) hc⟩

theorem World.boot_users {n tlbEntries : Nat} {type : ReplacementPolicyType}
    {slots : Option Nat} {memory : VirtualMemory}
    (h : virtualMemoryCreateInternal n type tlbEntries slots = some memory) (f : Nat) :
    (World.boot memory).pager.cow.frames f = [] := by
  obtain ⟨_, _, _, hcow, _⟩ := virtualMemoryCreateInternal_some h
  show memory.cowManager.frames f = []
  unfold cowManagerCreate at hcow
  split at hcow
  · cases hcow
  · rw [← Option.some.inj hcow]

theorem World.boot_coherent {n tlbEntries : Nat} {type : ReplacementPolicyType}
    {slots : Option Nat} {memory : VirtualMemory}
    (h : virtualMemoryCreateInternal n type tlbEntries slots = some memory) (hn : n < 2 ^ 32)
    (pages : Nat → Prop) : (World.boot memory).Coherent pages := by
  obtain ⟨hphysical, _, htlb, _, _, hprocesses, _⟩ := virtualMemoryCreateInternal_some h
  obtain ⟨_, hocc, _⟩ := physicalMemoryCreate_spec hphysical hn
  obtain ⟨hwf, hempty, _⟩ := tlbCreate_spec htlb
  have hregistry : (World.boot memory).pager.processes = [] := hprocesses
  refine ⟨⟨World.boot_sound memory, hwf, World.boot_consistent h hn⟩, ?_, fun f hf => ?_,
    fun pid v f hh => absurd hh (hempty pid v f)⟩
  · rw [hregistry]
    exact fun p hp => absurd hp List.not_mem_nil
  · have hfree : ((World.boot memory).pager.physical.frames f).occupied = false := hocc f
    rw [hfree] at hf
    cases hf

/-! ## Runs -/

/-- A process exists, and no other registered process has its pid. -/
def World.Live (w : World) (p : Nat) : Prop :=
  0 ≤ w.heap.pid p ∧ ∀ q ∈ w.memory.processes, w.heap.pid q = w.heap.pid p → q = p

/-- Calls that keep the pids of the registered processes distinct, on
addresses below 2^48. -/
def World.Allows (w : World) : Call → Prop
  | .createProcess _ => True
  | .access p a _ => w.Live p ∧ a < 2 ^ 48
  | .readByte p a => w.Live p ∧ a < 2 ^ 48
  | .writeByte p a _ => w.Live p ∧ a < 2 ^ 48
  | .fork p childPid =>
    w.Live p ∧ childPid ≠ w.heap.pid p ∧ ∀ q ∈ w.memory.processes, w.heap.pid q ≠ childPid
  | .release p => w.Live p

instance (w : World) (p : Nat) : Decidable (w.Live p) := by
  unfold World.Live
  infer_instance

instance (w : World) (call : Call) : Decidable (w.Allows call) := by
  cases call <;> unfold World.Allows <;> infer_instance

theorem World.Allows.pager (h : w.Allows call) : w.pager.Allows (· < 2 ^ 36) call := by
  have haddress : ∀ {a : Nat}, a < 2 ^ 48 → a < wordSize ∧ addressPageNumber a < 2 ^ 36 :=
    fun ha => ⟨Nat.lt_trans ha (by decide), addressPageNumber_lt_key ha⟩
  cases call with
  | createProcess pid => trivial
  | access p a t => exact ⟨h.1.1, h.1.2, haddress h.2⟩
  | readByte p a => exact ⟨h.1.1, h.1.2, haddress h.2⟩
  | writeByte p a value => exact ⟨h.1.1, h.1.2, haddress h.2⟩
  | fork p childPid => exact ⟨h.1.1, h.1.2, h.2⟩
  | release p => exact h

/-- The reachable states of a virtual memory. -/
def World.Reachable (n : Nat) (type : ReplacementPolicyType) (tlbEntries : Nat)
    (slots : Option Nat) (history : List (Call × Reply)) (w : World) : Prop :=
  ∃ memory, virtualMemoryCreateInternal n type tlbEntries slots = some memory ∧
    Run World.step World.Allows (World.boot memory) history w

/-- Feeds calls to a virtual memory just created, as long as they are
allowed. -/
def World.after (n : Nat) (type : ReplacementPolicyType) (tlbEntries : Nat) (slots : Option Nat)
    (calls : List Call) : Option (List (Call × Reply) × World) :=
  (virtualMemoryCreateInternal n type tlbEntries slots).bind fun memory =>
    runChecked World.step World.Allows [] (World.boot memory) calls

theorem World.reachable_of_after {n tlbEntries : Nat} {type : ReplacementPolicyType}
    {slots : Option Nat} {calls : List Call} {history : List (Call × Reply)}
    (h : World.after n type tlbEntries slots calls = some (history, w)) :
    World.Reachable n type tlbEntries slots history w := by
  obtain ⟨memory, hcreate, hrun⟩ := Option.bind_eq_some_iff.mp h
  exact ⟨memory, hcreate, Run.of_runChecked calls .start hrun⟩

/-- A step is what the simulation says it is. -/
theorem World.Stepped.unique (h : w.Stepped call answers reply w') {reply₁ : Reply} {w₁ : World}
    (hrun : w.step call = some (reply₁, w₁)) : reply₁ = reply ∧ w₁ = w' := by
  rw [h.run] at hrun
  cases hrun
  exact ⟨rfl, rfl⟩

theorem World.Coherent.stepped (h : w.Coherent (· < 2 ^ 36)) (ha : w.Allows call)
    (hrun : w.step call = some (reply, w')) :
    ∃ answers, w.Stepped call answers reply w' ∧ w'.Coherent (· < 2 ^ 36) := by
  obtain ⟨answers, reply₁, w₁, hs, hc⟩ := h.step keysApart_lt ha.pager
  obtain ⟨rfl, rfl⟩ := hs.unique hrun
  exact ⟨answers, hs, hc⟩

theorem World.Reachable.coherent {n tlbEntries : Nat} {type : ReplacementPolicyType}
    {slots : Option Nat} {history : List (Call × Reply)}
    (h : World.Reachable n type tlbEntries slots history w) (hn : n < 2 ^ 32) :
    w.Coherent (· < 2 ^ 36) := by
  obtain ⟨memory, hcreate, hrun⟩ := h
  refine Run.invariant (fun _ w => w.Coherent (· < 2 ^ 36)) (World.boot_coherent hcreate hn _)
    (fun _ w call reply w' hc ha hs => ?_) hrun
  obtain ⟨_, _, hc'⟩ := hc.stepped ha hs
  exact hc'

end VmSim
