/-
VmSim.Contract.FailedAccess — what a failed access leaves behind.

A refused access (`World.Blocked`) changes nothing but counters, with one
exception: where several readers have to be saved, those that came before
the first one without room keep their slots, although they stay resident.
`World.Spares` says when that changes nothing.
-/
import VmSim.VirtualMemory.Refusals

namespace VmSim

open Lib

variable {w w' : World} {p a n tlbEntries : Nat} {type : ReplacementPolicyType}
  {slots : Option Nat} {call : Call} {reply : Reply} {answers : TlbAnswers}

/-! ## One access -/

/-- Nothing changed but counters and the state of the replacement policy. -/
structure World.Undisturbed (w w' : World) : Prop where
  translate : ∀ p a, w'.translate p a = w.translate p a
  physicalMemory : w'.memory.physicalMemory = w.memory.physicalMemory
  cowManager : w'.memory.cowManager = w.memory.cowManager
  translations : ∀ pid v f, w'.memory.tlb.Holds pid v f ↔ w.memory.tlb.Holds pid v f
  content : ∀ pid v, w'.pager.slot pid v = w.pager.slot pid v
  used : w'.pager.used = w.pager.used

/-- The access is refused for the victim, for the lack of a swap or for a
full swap. -/
def World.Blocked (w : World) (p a : Nat) (t : VirtualMemoryAccessType) : Prop :=
  w.pager.Blocked p (addressPageNumber a) (decide (t = .write))

/-- A refused write to a shared page changes no slot. -/
def World.Spares (w : World) (p a : Nat) : Prop :=
  ∀ f, w.translate p a = some f → w.pager.Spares p (addressPageNumber a) f

theorem World.Coherent.blocked (h : w.Coherent (· < 2 ^ 36)) {t : VirtualMemoryAccessType}
    (ha : w.Allows (.access p a t)) (hblocked : w.Blocked p a t) :
    ∃ code w', w.step (.access p a t) = some (.result code, w') ∧ code.isError = true ∧
      (w.Undisturbed w' ↔ w.Spares p a) := by
  obtain ⟨answers, reply, w', hs, hc'⟩ := h.step keysApart_lt ha.pager
  obtain ⟨hp, halone, _⟩ := ha.pager.target rfl
  obtain ⟨herror, hrefused, hsame, hcalls⟩ := h.wf.consistent.access_blocked h.distinct hp halone
    (fun f hf => h.hit_mapped ha.pager rfl (hs.hit ▸ hf)) hblocked
  have hend : (Reply.result (w.pager.access answers p (addressPageNumber a)
      (decide (t = .write))).1, (w.pager.access answers p (addressPageNumber a)
      (decide (t = .write))).2) = (reply, w'.pager) := hs.pager
  obtain ⟨hreply, hstate⟩ := Prod.mk.inj hend
  have htlb : w'.memory.tlb = (tlbLookup w.memory.tlb (w.pager.pid p) (addressPageNumber a)).2 := by
    rw [hs.performed, Pager.tlbCalls, hcalls]
    rfl
  rw [hstate] at hrefused hsame
  refine ⟨_, w', hreply ▸ hs.run, herror, ⟨fun hund f hf => ?_, fun hspares => ?_⟩⟩
  · rw [h.wf.translate_eq] at hf
    exact hsame.mp ⟨hund.content, hund.used⟩ f hf
  · obtain ⟨hcontent, hused⟩ := hsame.mpr fun f hf => hspares f ((h.wf.translate_eq p a).trans hf)
    refine ⟨fun q b => ?_, hrefused.physical, hrefused.cow, fun pid v f => ?_, hcontent, hused⟩
    · rw [hc'.wf.translate_eq, h.wf.translate_eq, hrefused.mapped]
    · rw [htlb]
      exact tlbLookup_holds _ _ _ _ _

/-! ## Runs -/

/-- No page is resident and in swap. -/
def World.Exclusive (w : World) : Prop :=
  ∀ p a, a < 2 ^ 48 → w.translate p a ≠ none →
    w.pager.slot (w.pager.pid p) (addressPageNumber a) = none

/-- A call that is allowed, and that changes no slot if it is refused. -/
def World.AllowsSparing (w : World) (call : Call) : Prop :=
  w.Allows call ∧ ∀ p page f, call.target = some (p, page) → call.writes = true →
    w.pager.mapped p page = some f → w.pager.CopyBlocked p page f → w.pager.Spares p page f

theorem World.Coherent.exclusive (h : w.Coherent (· < 2 ^ 36)) (he : w.pager.Exclusive)
    (ha : w.AllowsSparing call) (hs : w.Stepped call answers reply w') : w'.pager.Exclusive := by
  obtain ⟨ha, hspares⟩ := ha
  have hc := h.wf.consistent
  have haccess : ∀ p page isWrite, call.target = some (p, page) →
      (isWrite = true → call.writes = true) →
      (w.pager.access answers p page isWrite).2.Exclusive := by
    intro p page isWrite ht hwrite
    obtain ⟨hp, halone, hpage⟩ := ha.pager.target ht
    have hhit : ∀ f, answers.hit = some f → w.pager.mapped p page = some f :=
      fun f hf => h.hit_mapped ha.pager ht (hs.hit ▸ hf)
    exact he.access hc h.distinct hp halone (Nat.lt_trans hpage (by decide))
      (hc.admits keysApart_lt h.resident hpage hhit isWrite) hhit
      fun f hw => hspares p page f ht (hwrite hw)
  have hstate : (w.pager.step answers call).2 = w'.pager := by rw [hs.pager]
  rw [← hstate]
  cases call with
  | createProcess pid => exact he.create hc pid
  | access p a t => exact haccess p _ _ rfl id
  | readByte p a =>
    show (w.pager.readByte answers p a).2.Exclusive
    rw [Pager.readByte_state]
    exact haccess p _ _ rfl id
  | writeByte p a value =>
    have hdone := haccess p (addressPageNumber a) true rfl fun _ => rfl
    show (w.pager.writeByte answers p a value).2.Exclusive
    rcases w.pager.writeByte_state answers p a value with hsame | ⟨f, _, hset⟩
    · rw [hsame]
      exact hdone
    · rw [hset]
      exact hdone.congr rfl rfl rfl
  | fork p childPid =>
    obtain ⟨hp, halone, hne, hfresh⟩ := ha.pager
    show (w.pager.fork p childPid).2.Exclusive
    unfold Pager.fork
    split
    · exact he
    · refine (he.register p).spawn (hc.register hp) p fun q hq => ?_
      rw [show (w.pager.register p).pid = w.pager.pid by rw [Pager.register_eq]]
      rcases Pager.mem_register_iff.mp hq with rfl | hold
      · exact Ne.symm hne
      · exact hfresh q hold
  | release p => exact he.release hc ha.1

/-- What `Pager.Exclusive` says of page tables. -/
theorem World.Coherent.exclusive_iff (h : w.Coherent (· < 2 ^ 36)) (he : w.pager.Exclusive) :
    w.Exclusive := by
  intro p a ha hmapped
  rw [h.wf.translate_eq] at hmapped
  obtain ⟨f, hf⟩ := Option.ne_none_iff_exists'.mp hmapped
  obtain ⟨huser, hk⟩ := h.wf.consistent.user_of_mapped hf
  rw [keysApart_lt _ _ (h.resident f (h.wf.consistent.occupied_of_mapped hf))
    (addressPageNumber_lt_key ha) hk] at huser
  exact he f _ huser

/-- **A refused access changes nothing but counters** exactly if no slot is
free (or there is no swap) and the readers that would be saved before the
one that finds no slot have the page in their slots already. In runs in
which this holds of every refused write, no page is ever resident and in
swap. -/
theorem virtualMemory_failedAccess (hn : n < 2 ^ 32) :
    (∀ history w, World.Reachable n type tlbEntries slots history w →
      ∀ p a t, w.Allows (.access p a t) → w.Blocked p a t →
        ∃ code w', w.step (.access p a t) = some (.result code, w') ∧ code.isError = true ∧
          (w.Undisturbed w' ↔ w.Spares p a)) ∧
    ∀ memory history w, virtualMemoryCreateInternal n type tlbEntries slots = some memory →
      Run World.step World.AllowsSparing (World.boot memory) history w → w.Exclusive := by
  refine ⟨fun history w h p a t ha hblocked => (h.coherent hn).blocked ha hblocked,
    fun memory history w hcreate hrun => ?_⟩
  have hinv : w.Coherent (· < 2 ^ 36) ∧ w.pager.Exclusive :=
    Run.invariant (fun _ w => w.Coherent (· < 2 ^ 36) ∧ w.pager.Exclusive)
      ⟨World.boot_coherent hcreate hn _, World.boot_exclusive hcreate⟩
      (fun history w call reply w' ⟨hc, he⟩ ha hs => by
        obtain ⟨answers, hstepped, hc'⟩ := hc.stepped ha.1 hs
        exact ⟨hc', hc.exclusive he ha hstepped⟩) hrun
  exact hinv.1.exclusive_iff hinv.2

/-- A write to a shared page with a full swap: nothing is saved. -/
theorem virtualMemory_failedAccess_full : ∃ history w,
    World.Reachable 1 .fifo 1 (some 1) history w ∧ history.length = 4 ∧
      ∃ code w', w.step (.access 0 0x2000 .write) = some (.result code, w') ∧
        code.isError = true ∧ w.Undisturbed w' := by
  have hafter : (World.after 1 .fifo 1 (some 1) [.createProcess 1, .writeByte 0 0x1000 5,
      .readByte 0 0x2000, .fork 0 2]).any (fun r => decide (r.1.length = 4 ∧
        r.2.Allows (.access 0 0x2000 .write) ∧ r.2.pager.mapped 0 2 = some 0 ∧
        r.2.pager.physical.firstFree = none ∧ 1 < (r.2.pager.cow.frames 0).length ∧
        r.2.pager.room = 0 ∧ r.2.pager.unsaved ⟨0, 2⟩ (r.2.pager.cow.frames 0) = 1 ∧
        r.2.pager.overwritten ⟨0, 2⟩ (r.2.pager.cow.frames 0) = [])) = true := by decide +kernel
  obtain ⟨⟨history, w⟩, hafter, hcheck⟩ := (Option.any_eq_true _ _).mp hafter
  obtain ⟨hlength, hallows, hm, hfull, hlen, hroom, hunsaved, hover⟩ := of_decide_eq_true hcheck
  have hreach := World.reachable_of_after hafter
  have hblocked : w.Blocked 0 0x2000 .write := Or.inr ⟨0, hm, rfl, hfull, hlen, Or.inr (by
    rw [show addressPageNumber 0x2000 = 2 from rfl, hroom, hunsaved]
    decide)⟩
  obtain ⟨code, w', hstep, herror, hiff⟩ :=
    (virtualMemory_failedAccess (by decide)).1 history w hreach 0 0x2000 .write hallows hblocked
  refine ⟨history, w, hreach, hlength, code, w', hstep, herror, hiff.mpr fun f hf => ?_⟩
  have hf' : w.pager.mapped 0 2 = some f :=
    ((hreach.coherent (by decide)).wf.translate_eq 0 0x2000).symm.trans hf
  rw [hm] at hf'
  cases hf'
  refine Or.inr ⟨hroom, fun r hr => ?_⟩
  rw [show w.pager.overwritten ⟨0, addressPageNumber 0x2000⟩ (w.pager.cow.frames 0) = [] from hover]
    at hr
  cases hr

/-- Two readers and one slot: the first is saved, stays resident, and the
write fails all the same. -/
theorem virtualMemory_access_leavesSlot : ∃ history w code w',
    World.Reachable 1 .fifo 1 (some 1) history w ∧ w.Allows (.access 0 0x1000 .write) ∧
      w.Blocked 0 0x1000 .write ∧
      w.step (.access 0 0x1000 .write) = some (.result code, w') ∧ code.isError = true ∧
      ¬ w.Undisturbed w' ∧ ¬ w'.Exclusive := by
  have hafter : (World.after 1 .fifo 1 (some 1) [.createProcess 1, .readByte 0 0x1000, .fork 0 2,
      .fork 0 3]).any (fun r => decide (r.2.Allows (.access 0 0x1000 .write) ∧
        r.2.pager.mapped 0 1 = some 0 ∧ r.2.pager.physical.firstFree = none ∧
        1 < (r.2.pager.cow.frames 0).length ∧
        r.2.pager.room < r.2.pager.unsaved ⟨0, 1⟩ (r.2.pager.cow.frames 0)) &&
        (r.2.step (.access 0 0x1000 .write)).any fun e => decide (
          e.1 = .result .internalError ∧ r.2.pager.used = 0 ∧ e.2.pager.used = 1 ∧
          e.2.translate 2 0x1000 ≠ none) &&
            (e.2.pager.slot (e.2.pager.pid 2) 1).isSome) = true := by decide +kernel
  obtain ⟨⟨history, w⟩, hafter, hcheck⟩ := (Option.any_eq_true _ _).mp hafter
  obtain ⟨hstate, hstep⟩ := (Bool.and_eq_true _ _).mp hcheck
  obtain ⟨hallows, hm, hfull, hlen, hroom⟩ := of_decide_eq_true hstate
  obtain ⟨⟨reply, w'⟩, hstep, hend⟩ := (Option.any_eq_true _ _).mp hstep
  obtain ⟨hend, hslot⟩ := (Bool.and_eq_true _ _).mp hend
  obtain ⟨rfl, hused, hused', hresident⟩ := of_decide_eq_true hend
  refine ⟨history, w, _, w', World.reachable_of_after hafter, hallows,
    Or.inr ⟨0, hm, rfl, hfull, hlen, Or.inr hroom⟩, hstep, rfl, fun hund => ?_, fun he => ?_⟩
  · have hsame := hund.used
    rw [hused] at hsame
    rw [hsame] at hused'
    cases hused'
  · have hnone := he 2 0x1000 (by decide) hresident
    rw [show addressPageNumber 0x1000 = 1 from rfl] at hnone
    rw [hnone] at hslot
    cases hslot

end VmSim
