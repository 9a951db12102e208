/-
VmSim.Contract.FlatMemory — when memory is flat across eviction and swap.

A page that is evicted clean is not written to swap, and its slot was
given up when it was loaded. So what it held is lost unless it held only
zeros (`World.Loses`). A run without such an eviction reads what was
written; `World.Flat` is its invariant.
-/
import VmSim.VirtualMemory.Memory
import VmSim.VirtualMemory.Recency

namespace VmSim

open Lib

variable {w w' : World} {p q page v n tlbEntries count : Nat} {type : ReplacementPolicyType}
  {memory : VirtualMemory} {history : List (Call × Reply)} {call : Call} {reply : Reply}
  {answers : TlbAnswers}

/-! ## Losses -/

/-- The call faults in a full memory, and the victim is clean but holds a
byte other than 0. -/
def World.Loses (w : World) (call : Call) : Prop :=
  ∃ target ∈ call.target, w.translate target.1 (pageAddress target.2) = none ∧
    w.memory.physicalMemory.firstFree = none ∧
    ∃ victim ∈ replacementPolicyChooseVictim w.memory.replacementPolicy,
      victim.1 ≠ replacementInvalidFrame ∧
      (w.memory.physicalMemory.frames victim.1).dirty = false ∧
      w.memory.physicalMemory.data victim.1 ≠ zeroPage

instance (w : World) (call : Call) : Decidable (w.Loses call) := by
  unfold World.Loses
  infer_instance

/-- No fork, no release, and nothing is lost. -/
def World.AllowsSafely (w : World) (call : Call) : Prop :=
  w.Allows call ∧ call.refers = true ∧ ¬w.Loses call

instance (w : World) (call : Call) : Decidable (w.AllowsSafely call) := by
  unfold World.AllowsSafely
  infer_instance

/-! ## The invariant -/

structure World.Flat (w : World) (history : List (Call × Reply)) : Prop where
  coherent : w.Coherent (· < 2 ^ 36)
  unforked : w.pager.Unforked
  exclusive : w.pager.Exclusive
  swap : w.pager.swap.isSome = true
  recalls : ∀ q v, 0 ≤ w.pager.pid q → w.pager.Alone q → v < 2 ^ 36 →
    w.pager.Recalls history q v
  unborn : ∀ q a, w.pager.nextProcess ≤ q → recalled history q a = 0

/-- A clean victim of zeros has no slot, so the swap gives its page back. -/
theorem World.Flat.retains (h : w.Flat history) (hloses : ¬w.Loses call)
    (ht : call.target = some (p, page)) (hpage : page < 2 ^ 36)
    (hm : w.pager.mapped p page = none) : w.pager.RetainsVictim := by
  have hc := h.coherent.wf.consistent
  intro hfull f policy hchoose hvalid
  obtain ⟨f', policy', hchoose', hvictim, _⟩ := hc.chooseVictim
  rw [hchoose] at hchoose'
  cases hchoose'
  have hocc := hvictim.resolve_left hvalid
  cases hdirty : (w.pager.physical.frames f).dirty with
  | true => exact Or.inl ⟨hdirty, h.swap⟩
  | false =>
    obtain ⟨o, _, hpid, ho⟩ := hc.owner hocc
    have hslot := h.exclusive f _ ho
    have hzero : w.pager.physical.data f = zeroPage := by
      by_contra hdata
      refine hloses ⟨_, ht, ?_, hfull, _, hchoose, hvalid, hdirty, hdata⟩
      rw [h.coherent.wf.translate_eq,
        addressPageNumber_pageAddress (Nat.lt_trans hpage (by decide))]
      exact hm
    refine Or.inr ?_
    rw [hpid, Pager.swapped, hslot, hzero]
    rfl

/-! ## Steps -/

theorem World.Flat.create (h : w.Flat history) (pid : Int) {s' : Pager}
    (hs : (w.pager.create pid).2 = s') (hq : 0 ≤ s'.pid q) (halone : s'.Alone q)
    (hv : v < 2 ^ 36) :
    s'.Recalls ((.createProcess pid, .process (w.pager.create pid).1) :: history) q v := by
  have hc := h.coherent.wf.consistent
  unfold Pager.create at hs
  split at hs
  · rw [← hs] at hq halone ⊢
    exact (h.recalls q v hq halone hv).of_view rfl fun _ => rfl
  · have hmapped : s'.mapped =
        Function.update w.pager.mapped w.pager.nextProcess fun _ => none := by rw [← hs]
    have hpids : s'.pid = Function.update w.pager.pid w.pager.nextProcess pid := by rw [← hs]
    have hprocesses : s'.processes = w.pager.processes := by rw [← hs]
    have hslots : ∀ pid v, s'.slot pid v = w.pager.slot pid v := by
      rw [← hs]
      exact fun _ _ => rfl
    have hold : ∀ r ∈ w.pager.processes, s'.pid r = w.pager.pid r := by
      intro r hr
      rw [hpids]
      exact hc.pid_next hr
    by_cases e : q = w.pager.nextProcess
    · -- a new process has nothing resident, and nobody else has its pid
      have hnone : s'.slot (s'.pid q) v = none := by
        by_contra hsome
        rw [hslots] at hsome
        obtain ⟨r, hr, hpid⟩ := hc.slot_owner hsome
        have hrq : r = q := halone r (hprocesses ▸ hr) ((hold r hr).trans hpid)
        exact hc.next_notMem (e ▸ hrq ▸ hr)
      have hview : s'.view q v = zeroPage := by
        rw [Pager.view_absent (by rw [hmapped, e, Function.update_self]), Pager.swapped, hnone]
        rfl
      intro a _
      rw [hview]
      exact (h.unborn q a (Nat.le_of_eq e.symm)).symm
    · have hpid : s'.pid q = w.pager.pid q := by rw [hpids, Function.update_of_ne e]
      have halone' : w.pager.Alone q := by
        intro r hr hrq
        exact halone r (hprocesses ▸ hr) (by rw [hold r hr, hpid, hrq])
      refine (h.recalls q v (hpid ▸ hq) halone' hv).of_view ?_ fun _ => rfl
      refine Pager.view_congr (by rw [hmapped, Function.update_of_ne e]) (fun f _ => ?_) fun _ => ?_
      · rw [← hs]
      · rw [hslots, hpid]

/-- An access as such changes no view. -/
theorem World.Flat.view_access (h : w.Flat history) (ha : w.Allows call) (hloses : ¬w.Loses call)
    (ht : call.target = some (p, page)) (hhit : answers.hit = w.hit call)
    (halone : (w.pager.register p).Alone q) (hv : v < 2 ^ 36) :
    (w.pager.access answers p page call.writes).2.view q v = w.pager.view q v := by
  have hc := h.coherent.wf.consistent
  obtain ⟨hp, _, hpage⟩ := ha.pager.target ht
  have hmapped : ∀ f, answers.hit = some f → w.pager.mapped p page = some f :=
    fun f hf => h.coherent.hit_mapped ha.pager ht (hhit ▸ hf)
  have had := hc.admits keysApart_lt h.coherent.resident hpage hmapped call.writes
  have hpid : (w.pager.register p).pid = w.pager.pid := by rw [Pager.register_eq]
  refine hc.view_access hp (Nat.lt_trans hpage (by decide)) had
    (fun _ => keysApart_lt v page hv hpage) (fun hpids => Or.inl ?_)
    fun _ => ⟨halone, fun _ hm => ⟨h.retains hloses ht hpage hm, fun f hf => ?_⟩⟩
  · exact (halone p (w.pager.mem_register p) (by rw [hpid, hpids])).symm
  · exact keysApart_lt v _ hv (h.coherent.resident f hf)

theorem World.Flat.access (h : w.Flat history) (ha : w.Allows call) (hloses : ¬w.Loses call)
    (ht : call.target = some (p, page)) (hs : w.Stepped call answers reply w')
    (hq : 0 ≤ w'.pager.pid q) (halone : w'.pager.Alone q) (hv : v < 2 ^ 36) :
    w'.pager.Recalls ((call, reply) :: history) q v := by
  have hc := h.coherent.wf.consistent
  obtain ⟨hp, _, hpage⟩ := ha.pager.target ht
  have hhit : ∀ f, answers.hit = some f → w.pager.mapped p page = some f :=
    fun f hf => h.coherent.hit_mapped ha.pager ht (hs.hit ▸ hf)
  have had := hc.admits keysApart_lt h.coherent.resident hpage hhit call.writes
  have hevolves := w.pager.evolves_step answers ht
  rw [hs.pager] at hevolves
  have halone' : (w.pager.register p).Alone q := by
    rw [Pager.Alone, hevolves.processes, hevolves.pid] at halone
    exact halone
  have hpid : (w.pager.register p).pid = w.pager.pid := by rw [Pager.register_eq]
  rw [hevolves.pid, hpid] at hq
  have hrecalls : w.pager.Recalls history q v := by
    refine h.recalls q v hq (fun r hr hrq => ?_) hv
    exact halone' r (Pager.mem_register_iff.mpr (Or.inr hr)) (by rw [hpid, hrq])
  have hstep := hrecalls.step ht (h.view_access ha hloses ht hs.hit halone' hv)
    (hc.access hp (Nat.lt_trans hpage (by decide)) had) (fun _ => keysApart_lt v page hv hpage)
    fun hwrites hok f hf => ?_
  · rw [hs.pager] at hstep
    exact hstep
  · -- a frame that was written has one user
    rw [hwrites] at had hok hf ⊢
    obtain ⟨g, howns, _⟩ := hc.access_owns hp had hhit (fun f hf =>
      keysApart_lt _ page (h.coherent.resident f (hc.occupied_of_mapped hf)) hpage) hok
    rw [howns.mapped] at hf
    cases hf
    exact howns

theorem World.Flat.step (h : w.Flat history) (ha : w.AllowsSafely call)
    (hrun : w.step call = some (reply, w')) : w'.Flat ((call, reply) :: history) := by
  obtain ⟨hallows, hrefers, hloses⟩ := ha
  obtain ⟨answers, hs, hc'⟩ := h.coherent.stepped hallows hrun
  have hc := h.coherent.wf.consistent
  have hstate : (w.pager.step answers call).2 = w'.pager := by rw [hs.pager]
  cases ht : call.target with
  | none =>
    cases call with
    | createProcess pid =>
      obtain ⟨hreply, hend⟩ := Prod.mk.inj hs.pager
      have hkept : w'.pager.cow = w.pager.cow ∧ w'.pager.swap = w.pager.swap ∧
          w.pager.nextProcess ≤ w'.pager.nextProcess := by
        rw [← hstate]
        simp only [Pager.step, Pager.create]
        split
        · exact ⟨rfl, rfl, Nat.le_refl _⟩
        · exact ⟨rfl, rfl, Nat.le_succ _⟩
      obtain ⟨hcow, hswap, hnext⟩ := hkept
      refine ⟨hc', h.unforked.congr (congrArg CowManager.frames hcow), ?_,
        by rw [hswap]; exact h.swap, fun q v hq halone hv => ?_, fun q a hq => ?_⟩
      · rw [← hend]
        exact h.exclusive.create hc pid
      · rw [← hreply]
        exact h.create pid hend hq halone hv
      · exact h.unborn q a (Nat.le_trans hnext hq)
    | fork p childPid => cases hrefers
    | release p => cases hrefers
    | _ => cases ht
  | some target =>
    obtain ⟨p, page⟩ := target
    obtain ⟨hp, hpalone, hpage⟩ := hallows.pager.target ht
    have hhit : ∀ f, answers.hit = some f → w.pager.mapped p page = some f :=
      fun f hf => h.coherent.hit_mapped hallows.pager ht (hs.hit ▸ hf)
    have had := hc.admits keysApart_lt h.coherent.resident hpage hhit call.writes
    have hunforked := h.unforked.access hc hp answers page call.writes
    have hexclusive := h.exclusive.access hc h.coherent.distinct hp hpalone
      (Nat.lt_trans hpage (by decide)) had hhit fun f _ _ hblocked =>
        absurd hblocked.2.1 (Nat.not_lt.mpr (h.unforked f))
    have hevolves := w.pager.evolves_step answers ht
    rw [hstate] at hevolves
    have hends : w'.pager.Unforked ∧ w'.pager.Exclusive := by
      rw [← hstate]
      exact w.pager.step_rule (P := fun s => s.Unforked ∧ s.Exclusive) answers ht
        ⟨hunforked, hexclusive⟩ fun _ _ _ _ h' => h'
    refine ⟨hc', hends.1, hends.2, ?_, fun q v hq halone hv => ?_, fun q a hq => ?_⟩
    · rw [hevolves.swap, Pager.register_eq]
      exact h.swap
    · exact h.access hallows hloses ht hs hq halone hv
    · rw [hevolves.nextProcess, Pager.register_eq] at hq
      have hlt := hc.pid_lt p hp
      rw [recalled_of_ne ht (Nat.ne_of_gt (Nat.lt_of_lt_of_le hlt hq))]
      exact h.unborn q a hq

/-- A byte that is read is remembered. -/
theorem World.Flat.read (h : w.Flat history) (ha : w.AllowsSafely call)
    (hrun : w.step call = some (reply, w')) (hr : Remembered history) :
    Remembered ((call, reply) :: history) := by
  obtain ⟨hallows, _, hloses⟩ := ha
  obtain ⟨answers, hs, _⟩ := h.coherent.stepped hallows hrun
  refine hr.cons fun p a value hcall hreply => ?_
  subst hcall
  have hread : (w.pager.readByte answers p a).1 = some value := by
    have hend : Reply.byte (w.pager.readByte answers p a).1 = reply :=
      congrArg Prod.fst hs.pager
    rw [hreply] at hend
    exact Reply.byte.inj hend
  obtain ⟨hp, halone, hpage⟩ := hallows.pager.target rfl
  have hregistered : (w.pager.register p).Alone p :=
    halone.register h.coherent.distinct p (w.pager.mem_register p)
  exact (h.recalls p _ hp halone hpage).read
    (h.view_access hallows hloses rfl hs.hit hregistered hpage) hread

/-! ## Runs -/

theorem World.boot_flat
    (h : virtualMemoryCreateInternal n type tlbEntries (some count) = some memory)
    (hn : n < 2 ^ 32) (hcount : 0 < count) : (World.boot memory).Flat [] := by
  have hcoherent := World.boot_coherent h hn (· < 2 ^ 36)
  have hswap : memory.swap.isSome = true := by
    simp only [virtualMemoryCreateInternal, gt_iff_lt, hcount, if_true, Option.bind_eq_bind,
      Option.bind_eq_some_iff, Option.map_eq_some_iff] at h
    obtain ⟨_, _, _, _, _, _, _, _, _, ⟨swap, _, rfl⟩, h⟩ := h
    cases h
    rfl
  refine ⟨hcoherent, fun f => ?_, World.boot_exclusive h, hswap, fun q v hq => ?_, fun _ _ _ => rfl⟩
  · rw [World.boot_users h]
    exact Nat.zero_le 1
  · have hpid : (World.boot memory).pager.pid q = -1 := rfl
    omega

theorem World.Flat.run (h : virtualMemoryCreateInternal n type tlbEntries (some count) = some memory)
    (hn : n < 2 ^ 32) (hcount : 0 < count)
    (hrun : Run World.step World.AllowsSafely (World.boot memory) history w) :
    w.Flat history ∧ Remembered history :=
  Run.invariant (fun history w => w.Flat history ∧ Remembered history)
    ⟨World.boot_flat h hn hcount, trivial⟩
    (fun _ _ _ _ _ ih ha hs => ⟨ih.1.step ha hs, ih.1.read ha hs ih.2⟩) hrun

/-- **Memory is flat** as long as no clean page is evicted that holds a
byte other than 0: whatever is evicted, saved and restored meanwhile, each
byte that is read is the last one its process wrote there, or 0. -/
theorem virtualMemory_flat (hn : n < 2 ^ 32) (hcount : 0 < count)
    (h : virtualMemoryCreateInternal n type tlbEntries (some count) = some memory)
    (hrun : Run World.step World.AllowsSafely (World.boot memory) history w) :
    Remembered history := (World.Flat.run h hn hcount hrun).2

/-- Two pages take turns in one frame, and both are written. -/
theorem virtualMemory_flat_two : ∃ history,
    history.map Prod.snd = [.byte (some 5), .status true, .status true, .process (some 0)] ∧
      Remembered history := by
  have hrun : ((virtualMemoryCreateInternal 1 .fifo 1 (some 2)).bind fun memory =>
      runChecked World.step World.AllowsSafely [] (World.boot memory) [.createProcess 1,
        .writeByte 0 0x1000 5, .writeByte 0 0x2000 6, .readByte 0 0x1000]).any (fun r =>
          decide (r.1.map Prod.snd =
            [.byte (some 5), .status true, .status true, .process (some 0)])) = true := by
    decide +kernel
  obtain ⟨⟨history, w⟩, hafter, hcheck⟩ := (Option.any_eq_true _ _).mp hrun
  obtain ⟨memory, hcreate, hchecked⟩ := Option.bind_eq_some_iff.mp hafter
  exact ⟨history, of_decide_eq_true hcheck, virtualMemory_flat (by decide) (by decide) hcreate
    (Run.of_runChecked _ .start hchecked)⟩

/-- A page that was written, saved, restored and evicted again is gone. -/
theorem virtualMemory_forgets : ∃ history w, World.Reachable 1 .fifo 1 (some 2) history w ∧
    (∀ event ∈ history, event.1.refers = true ∧ event.2.succeeded = true) ∧
      history.head? = some (.readByte 0 0x1000, .byte (some 0)) ∧ ¬Remembered history := by
  have hafter : (World.after 1 .fifo 1 (some 2) [.createProcess 1, .writeByte 0 0x1000 5,
      .readByte 0 0x2000, .readByte 0 0x1000, .readByte 0 0x2000, .readByte 0 0x1000]).any
      (fun r => decide ((∀ event ∈ r.1, event.1.refers = true ∧ event.2.succeeded = true) ∧
        r.1.head? = some (.readByte 0 0x1000, .byte (some 0)) ∧
        recalled r.1.tail 0 0x1000 = 5)) = true := by decide +kernel
  obtain ⟨⟨history, w⟩, hafter, hcheck⟩ := (Option.any_eq_true _ _).mp hafter
  obtain ⟨hevents, hlast, hrecall⟩ := of_decide_eq_true hcheck
  refine ⟨history, w, World.reachable_of_after hafter, hevents, hlast, fun hr => ?_⟩
  obtain ⟨earlier, rfl⟩ := List.head?_eq_some_iff.mp hlast
  have hzero : 0 = recalled earlier 0 0x1000 := hr.1
  have hfive : recalled earlier 0 0x1000 = 5 := hrecall
  rw [hfive] at hzero
  cases hzero

end VmSim
