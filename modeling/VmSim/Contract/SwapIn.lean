/-
VmSim.Contract.SwapIn — what becomes of a page that cannot be read back.

An access that has to restore a page from its slot, and cannot read it,
fails. `World.Kept` says that the page is not lost: it is not mapped, its
slot holds what it held, and whoever reads the page later finds that. This
holds if a free frame was at hand, or if nothing was moved; a page that was
given the frame of a victim stays in it, all zero.
-/
import VmSim.VirtualMemory.Stored

namespace VmSim

open Lib

variable {w w' : World} {p a n tlbEntries : Nat} {type : ReplacementPolicyType}
  {slots : Option Nat} {history : List (Attempt × Reply)} {data : PageData}
  {t : VirtualMemoryAccessType}

/-! ## Pages in swap -/

/-- The page of an address is not resident, and `data` is in its slot. -/
structure World.InSwap (w : World) (p a : Nat) (data : PageData) : Prop where
  unmapped : w.translate p a = none
  slot : w.memory.swap.bind (·.content (w.heap.pid p) (addressPageNumber a)) = some data

/-- A successful access to the page of `a` finds `data`. -/
structure World.Finds (w : World) (p a : Nat) (data : PageData) : Prop where
  access : ∀ b t code w', addressPageNumber b = addressPageNumber a → w.Allows (.access p b t) →
    w.step (.access p b t) = some (.result code, w') → code.isError = false →
      w'.view p b = data (pageOffset b)
  readByte : ∀ b value w', addressPageNumber b = addressPageNumber a →
    w.Allows (.readByte p b) → w.step (.readByte p b) = some (.byte (some value), w') →
      value = data (pageOffset b)

/-- The page stays in swap until it is accessed: whatever is called in
between, with or without failing reads, a successful access finds `data`. -/
structure World.Kept (w : World) (p a : Nat) (data : PageData) : Prop
    extends w.InSwap p a data where
  later : ∀ (history : List (Attempt × Reply)) (w' : World),
    Run World.attempt World.Attempts w history w' →
    (∀ e ∈ history, e.1.call.Spares p (addressPageNumber a)) → w'.Finds p a data

/-- A replacement is refused before anything is moved. -/
def World.Denied (w : World) : Prop := w.pager.Denied

theorem World.inSwap_iff (h : w.Wf) :
    w.InSwap p a data ↔ w.pager.Stored p (addressPageNumber a) data := by
  constructor
  · intro hin
    exact ⟨(h.translate_eq p a).symm.trans hin.unmapped, hin.slot⟩
  · intro hstored
    exact ⟨(h.translate_eq p a).trans hstored.unmapped, hstored.slot⟩

/-! ## What keeps them -/

/-- A page of a registered process stays in swap. -/
theorem World.Coherent.attempt_stored (h : w.Coherent (· < 2 ^ 36)) {page : Nat}
    (hpage : page < 2 ^ 36) (hp : p ∈ w.pager.processes) (hs : w.pager.Stored p page data)
    {attempt : Attempt} {reply : Reply} (ha : w.Attempts attempt)
    (hspares : attempt.call.Spares p page) (hrun : w.attempt attempt = some (reply, w')) :
    p ∈ w'.pager.processes ∧ w'.pager.Stored p page data := by
  have hc := h.wf.consistent
  obtain ⟨call, readable⟩ := attempt
  obtain ⟨hallows, hrestores⟩ := ha
  cases readable with
  | true =>
    obtain ⟨answers, hstepped, _⟩ := h.stepped hallows hrun
    have hstate : (w.pager.step answers call).2 = w'.pager := by rw [hstepped.pager]
    rw [← hstate]
    refine ⟨hc.step_registered hp hspares.2, hs.step hc (h.distinct p hp) hp hpage hallows.pager
      (fun q v isWrite ht => ?_) hspares⟩
    exact hc.admits keysApart_lt h.resident (hallows.pager.target ht).2.2
      (fun f hf => h.hit_mapped hallows.pager ht (hstepped.hit ▸ hf)) isWrite
  | false =>
    have hr := hrestores rfl
    unfold World.Restores at hr
    split at hr
    · rename_i q v ht
      obtain ⟨reply₁, w₁, isWrite, hrun₁, _, hpager, _⟩ :=
        h.unread hallows.pager ht hr.1 hr.2
      rw [hrun] at hrun₁
      cases hrun₁
      obtain ⟨hq, hqalone, hv⟩ := hallows.pager.target ht
      have hne : q = p → pageKey page ≠ pageKey v := by
        rintro rfl hkey
        exact hspares.1 (by rw [ht, keysApart_lt page v hpage hv hkey])
      obtain ⟨processes, stats, heq⟩ := w.pager.counted_eq q isWrite
      rw [hpager, Pager.accessUnread]
      have hcounted : ((w.pager.register q).count isWrite).Consistent :=
        (hc.register hq).setStats _
      have hmem : p ∈ ((w.pager.register q).count isWrite).processes :=
        Pager.mem_register_iff.mpr (Or.inr hp)
      have halone : ((w.pager.register q).count isWrite).Alone p := by
        rintro r hr hpid
        rw [heq] at hpid
        rcases Pager.mem_register_iff.mp hr with rfl | hold
        · exact (hqalone p hp hpid.symm).symm
        · exact h.distinct p hp r hold hpid
      have helse : ((w.pager.register q).count isWrite).Elsewhere p page q v := by
        rw [heq]
        exact ⟨fun e => (hqalone p hp e.symm).symm, hne⟩
      have hstored : ((w.pager.register q).count isWrite).Stored p page data := by
        rw [heq]
        exact hs.congr rfl rfl rfl
      have hm : ((w.pager.register q).count isWrite).mapped q v = none := by
        rw [heq]
        exact hr.1
      obtain ⟨_, hevolves, _⟩ := hcounted.faultUnread_cases (w.pager.mem_register q)
        (Nat.lt_trans hv (by decide)) hm
      exact ⟨by rw [hevolves.processes]; exact hmem,
        hstored.faultUnread hcounted halone helse⟩
    · cases hr

theorem World.Coherent.finds (h : w.Coherent (· < 2 ^ 36)) (hp : p ∈ w.pager.processes)
    (hs : w.pager.Stored p (addressPageNumber a) data) : w.Finds p a data := by
  have hc := h.wf.consistent
  -- the TLB does not know the page
  have hmiss : ∀ {call : Call} {answers : TlbAnswers} {reply : Reply} {w' : World},
      w.Allows call → call.target = some (p, addressPageNumber a) →
      w.Stepped call answers reply w' → answers.hit = none := by
    intro call answers reply w' hallows ht hstepped
    cases hhit : answers.hit with
    | none => rfl
    | some f =>
      have hmapped := h.hit_mapped hallows.pager ht (hstepped.hit ▸ hhit)
      rw [hs.unmapped] at hmapped
      cases hmapped
  refine ⟨fun b t code w' hb hallows hrun hok => ?_, fun b value w' hb hallows hrun => ?_⟩
  · obtain ⟨answers, hstepped, hc'⟩ := h.stepped hallows hrun
    have hnone := hmiss hallows (by rw [← hb]; rfl) hstepped
    have hend : (Reply.result (w.pager.access answers p (addressPageNumber b)
        (decide (t = .write))).1, (w.pager.access answers p (addressPageNumber b)
        (decide (t = .write))).2) = (Reply.result code, w'.pager) := hstepped.pager
    obtain ⟨hcode, hstate⟩ := Prod.mk.inj hend
    rw [hb] at hcode hstate
    obtain ⟨f, hm, hdata⟩ := hs.accessed hc (h.distinct p hp) hp hnone (decide (t = .write))
      (by rw [Reply.result.inj hcode]; exact hok)
    rw [hstate] at hm hdata
    rw [hc'.wf.view_eq, Pager.view, hb, hm]
    exact congrFun hdata _
  · obtain ⟨answers, hstepped, _⟩ := h.stepped hallows hrun
    have hnone := hmiss hallows (by rw [← hb]; rfl) hstepped
    have hend : (Reply.byte (w.pager.readByte answers p b).1, (w.pager.readByte answers p b).2) =
        (Reply.byte (some value), w'.pager) := hstepped.pager
    rw [← hb] at hs
    exact hs.readByte hc (h.distinct p hp) hp hnone (Reply.byte.inj (Prod.mk.inj hend).1)

theorem World.Coherent.kept_iff (h : w.Coherent (· < 2 ^ 36)) (hp : p ∈ w.pager.processes)
    (ha : a < 2 ^ 48) : w.Kept p a data ↔ w.InSwap p a data := by
  refine ⟨fun hkept => hkept.toInSwap, fun hin => ⟨hin, fun history w' hrun hspares => ?_⟩⟩
  have hstored := (World.inSwap_iff h.wf).mp hin
  have hinv : (∀ e ∈ history, e.1.call.Spares p (addressPageNumber a)) →
      w'.Coherent (· < 2 ^ 36) ∧ p ∈ w'.pager.processes ∧
        w'.pager.Stored p (addressPageNumber a) data := by
    refine Run.invariant (fun history w' =>
      (∀ e ∈ history, e.1.call.Spares p (addressPageNumber a)) → w'.Coherent (· < 2 ^ 36) ∧
        p ∈ w'.pager.processes ∧ w'.pager.Stored p (addressPageNumber a) data)
      (fun _ => ⟨h, hp, hstored⟩) (fun history w attempt reply w' ih hok hs hall => ?_) hrun
    obtain ⟨hspared, hrest⟩ := List.forall_mem_cons.mp hall
    obtain ⟨hc, hmem, hkept⟩ := ih hrest
    exact ⟨hc.attempted hok hs,
      hc.attempt_stored (addressPageNumber_lt_key ha) hmem hkept hok hspared hs⟩
  obtain ⟨hc, hmem, hkept⟩ := hinv hspares
  exact hc.finds hmem hkept

/-- **An access that cannot read the slot of its page** fails, and the page
is kept exactly if a frame was free or the replacement was refused. -/
theorem virtualMemory_swapIn (hn : n < 2 ^ 32)
    (h : World.Attempted n type tlbEntries slots history w) (ha : w.Allows (.access p a t))
    (hin : w.InSwap p a data) :
    ∃ w', w.attempt ⟨.access p a t, false⟩ = some (.result .swapError, w') ∧
      (w'.Kept p a data ↔ w.memory.physicalMemory.firstFree ≠ none ∨ w.Denied) := by
  have hc := h.coherent hn
  have hcs := hc.wf.consistent
  have hstored := (World.inSwap_iff hc.wf).mp hin
  obtain ⟨hp, halone, hpage⟩ := ha.pager.target rfl
  obtain ⟨reply, w', isWrite, hrun, hreply, hpager, hc'⟩ :=
    hc.unread ha.pager rfl hstored.unmapped (by rw [hstored.slot]; exact Option.some_ne_none _)
  -- a slot belongs to a registered process
  have hmem : p ∈ w.pager.processes := by
    obtain ⟨q, hq, hpid⟩ := hcs.slot_owner (by
      rw [hstored.slot]
      exact Option.some_ne_none data)
    exact halone q hq hpid ▸ hq
  have hcode : reply = .result .swapError := by
    have hstep := hrun
    simp only [World.attempt, Bool.false_eq_true, if_false, Option.map_eq_some_iff] at hstep
    obtain ⟨⟨code, w₁⟩, hstep, hend⟩ := hstep
    obtain ⟨result, hresult⟩ : ∃ result : Option VirtualMemoryAccessResult,
        code = .result (result.getD .internalError) := Outcome.reply_eq hstep
    obtain ⟨rfl, _⟩ := Prod.mk.inj hend
    subst hresult
    rcases hreply with hcode | hbyte | hstatus
    · exact hcode
    · cases hbyte
    · cases hstatus
  subst hcode
  refine ⟨w', hrun, ?_⟩
  obtain ⟨processes, stats, heq⟩ := w.pager.counted_eq p isWrite
  have hcounted : ((w.pager.register p).count isWrite).Consistent := (hcs.register hp).setStats _
  have hm : ((w.pager.register p).count isWrite).mapped p (addressPageNumber a) = none := by
    rw [heq]
    exact hstored.unmapped
  obtain ⟨_, hevolves, hcases⟩ := hcounted.faultUnread_cases (w.pager.mem_register p)
    (Nat.lt_trans hpage (by decide)) hm
  have hmem' : p ∈ w'.pager.processes := by
    rw [hpager, Pager.accessUnread, hevolves.processes]
    exact w.pager.mem_register p
  rw [hc'.kept_iff hmem' ha.2, World.inSwap_iff hc'.wf, hpager, Pager.accessUnread]
  have hcond : (((w.pager.register p).count isWrite).physical.firstFree ≠ none ∨
      ((w.pager.register p).count isWrite).Denied) ↔
      (w.memory.physicalMemory.firstFree ≠ none ∨ w.Denied) := by
    rw [heq]
    exact Iff.rfl
  rw [hcond] at hcases
  rcases hcases with ⟨hkeeps, hmapped, hswap⟩ | ⟨hloses, hresident⟩
  · refine ⟨fun _ => hkeeps, fun _ => ⟨?_, ?_⟩⟩
    · rw [hmapped]
      exact hm
    · rw [hevolves.pid, Pager.slot_congr hswap, heq]
      exact hstored.slot
  · exact ⟨fun hkept => absurd hkept.unmapped hresident, fun hkeeps => absurd hkeeps hloses⟩

/-- Page 1 is in swap, and a frame is free again after a release: the
failed read is undone. -/
theorem virtualMemory_swapIn_free : ∃ history w data,
    World.Attempted 1 .fifo 1 (some 4) history w ∧ w.InSwap 0 0x1000 data ∧ data 0 = 5 ∧
      ∃ w', w.attempt ⟨.access 0 0x1000 .read, false⟩ = some (.result .swapError, w') ∧
        w'.Kept 0 0x1000 data := by
  have hafter : ((virtualMemoryCreateInternal 1 .fifo 1 (some 4)).bind fun memory =>
      runChecked World.attempt World.Attempts [] (World.boot memory)
        [⟨.createProcess 1, true⟩, ⟨.createProcess 2, true⟩, ⟨.writeByte 0 0x1000 5, true⟩,
          ⟨.readByte 1 0x1000, true⟩, ⟨.release 1, true⟩]).any (fun r =>
      decide (r.2.Allows (.access 0 0x1000 .read) ∧ r.2.translate 0 0x1000 = none ∧
        r.2.memory.physicalMemory.firstFree ≠ none ∧
        (r.2.memory.swap.bind (·.content (r.2.heap.pid 0) 1)).map (· 0) = some 5)) = true := by
    decide +kernel
  obtain ⟨⟨history, w⟩, hafter, hcheck⟩ := (Option.any_eq_true _ _).mp hafter
  obtain ⟨hallows, hunmapped, hfree, hslot⟩ := of_decide_eq_true hcheck
  obtain ⟨memory, hcreate, hchecked⟩ := Option.bind_eq_some_iff.mp hafter
  obtain ⟨data, hdata, hfive⟩ := Option.map_eq_some_iff.mp hslot
  have hreach : World.Attempted 1 .fifo 1 (some 4) history w :=
    ⟨memory, hcreate, Run.of_runChecked _ .start hchecked⟩
  have hin : w.InSwap 0 0x1000 data := ⟨hunmapped, hdata⟩
  obtain ⟨w', hrun, hiff⟩ := virtualMemory_swapIn (by decide) hreach hallows hin
  exact ⟨history, w, data, hreach, hin, hfive, w', hrun, hiff.mpr (Or.inl hfree)⟩

/-- One frame: the victim's frame is given to page 1, which then reads 0
although 5 was in its slot. -/
theorem virtualMemory_swapIn_loses : ∃ history w data w' w'',
    World.Attempted 1 .fifo 1 (some 4) history w ∧ w.Allows (.access 0 0x1000 .read) ∧
      w.InSwap 0 0x1000 data ∧ data 0 = 5 ∧
      w.attempt ⟨.access 0 0x1000 .read, false⟩ = some (.result .swapError, w') ∧
      w'.translate 0 0x1000 = some 0 ∧ w'.Allows (.readByte 0 0x1000) ∧
      w'.step (.readByte 0 0x1000) = some (.byte (some 0), w'') := by
  have hafter : ((virtualMemoryCreateInternal 1 .fifo 1 (some 4)).bind fun memory =>
      runChecked World.attempt World.Attempts [] (World.boot memory)
        [⟨.createProcess 1, true⟩, ⟨.writeByte 0 0x1000 5, true⟩,
          ⟨.readByte 0 0x2000, true⟩]).any (fun r =>
      decide (r.2.Allows (.access 0 0x1000 .read) ∧ r.2.translate 0 0x1000 = none ∧
        (r.2.memory.swap.bind (·.content (r.2.heap.pid 0) 1)).map (· 0) = some 5) &&
      (r.2.attempt ⟨.access 0 0x1000 .read, false⟩).any fun e =>
        decide (e.1 = .result .swapError ∧ e.2.translate 0 0x1000 = some 0 ∧
          e.2.Allows (.readByte 0 0x1000)) &&
        (e.2.step (.readByte 0 0x1000)).any fun e' => decide (e'.1 = .byte (some 0))) = true := by
    decide +kernel
  obtain ⟨⟨history, w⟩, hafter, hcheck⟩ := (Option.any_eq_true _ _).mp hafter
  obtain ⟨hstate, hattempt⟩ := (Bool.and_eq_true _ _).mp hcheck
  obtain ⟨hallows, hunmapped, hslot⟩ := of_decide_eq_true hstate
  obtain ⟨⟨reply, w'⟩, hattempt, hcheck'⟩ := (Option.any_eq_true _ _).mp hattempt
  obtain ⟨hfailed, hread⟩ := (Bool.and_eq_true _ _).mp hcheck'
  obtain ⟨rfl, hmapped, hallows'⟩ := of_decide_eq_true hfailed
  obtain ⟨⟨reply', w''⟩, hread, hend⟩ := (Option.any_eq_true _ _).mp hread
  obtain rfl : reply' = .byte (some 0) := of_decide_eq_true hend
  obtain ⟨memory, hcreate, hchecked⟩ := Option.bind_eq_some_iff.mp hafter
  obtain ⟨data, hdata, hfive⟩ := Option.map_eq_some_iff.mp hslot
  exact ⟨history, w, data, w', w'', ⟨memory, hcreate, Run.of_runChecked _ .start hchecked⟩,
    hallows, ⟨hunmapped, hdata⟩, hfive, hattempt, hmapped, hallows', hread⟩

end VmSim
