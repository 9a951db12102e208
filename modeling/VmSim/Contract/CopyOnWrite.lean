/-
VmSim.Contract.CopyOnWrite — a write access to a resident page changes no
address space, and makes the writer the only user of its frame.

Three outcomes are covered: the frame is exclusive already, the page is
copied to a free frame, or all readers are sent to swap; the first and
the last may also fail half-way.
-/
import VmSim.VirtualMemory.Views

namespace VmSim

open Lib

variable {w w' : World} {p q a : Nat} {n tlbEntries : Nat} {type : ReplacementPolicyType}
  {slots : Option Nat} {history : List (Call × Reply)}

/-- The keys of the trie tell pages below 2^36 apart. -/
theorem apart_of_lt {u v : Nat} (hu : u < 2 ^ 36) (hv : v < 2 ^ 36) : Apart u v :=
  keysApart_lt u v hu hv

/-- An access to a page that is resident changes no view. -/
theorem World.Coherent.view_accessed (h : w.Coherent (· < 2 ^ 36)) (hp : w.Live p)
    (ha : a < 2 ^ 48) (hresident : w.pager.mapped p (addressPageNumber a) ≠ none)
    {answers : TlbAnswers} {isWrite : Bool}
    (had : w.pager.Admits answers p (addressPageNumber a) isWrite) (hq : w.Live q) {b : Nat}
    (hb : b < 2 ^ 48) :
    (w.pager.access answers p (addressPageNumber a) isWrite).2.view q (addressPageNumber b) =
      w.pager.view q (addressPageNumber b) := by
  have hc := h.wf.consistent
  have hregistered : p ∈ w.pager.processes := by
    obtain ⟨f, hf⟩ := Option.ne_none_iff_exists'.mp hresident
    exact hc.process_of_mapped hf
  have hregister : w.pager.register p = w.pager := Pager.register_of_mem hregistered
  refine hc.view_access hp.1 (addressPageNumber_lt (Nat.lt_trans ha (by decide))) had
    (fun _ => apart_of_lt (addressPageNumber_lt_key hb) (addressPageNumber_lt_key ha))
    (fun hpid => Or.inl (hq.2 p hregistered hpid.symm).symm) fun _ =>
    ⟨?_, fun _ hm => absurd hm hresident⟩
  rw [hregister]
  exact hq.2

/-- A write access to a resident page leaves every address space as it
was. If it succeeds, the writer is the only user and the owner of the
frame of its page, and the frame is dirty. -/
theorem virtualMemory_writeAccess (hn : n < 2 ^ 32)
    (h : World.Reachable n type tlbEntries slots history w) (hp : w.Live p) (ha : a < 2 ^ 48)
    (hresident : w.translate p a ≠ none) :
    ∃ code w', w.step (.access p a .write) = some (.result code, w') ∧
      (∀ q, w.Live q → ∀ b < 2 ^ 48, w'.view q b = w.view q b) ∧
      (code.isError = false → ∃ f, w'.translate p a = some f ∧
        w'.memory.cowManager.frames f = [⟨p, addressPageNumber a⟩] ∧
        (w'.memory.physicalMemory.frames f).ownerProcess = some p ∧
        (w'.memory.physicalMemory.frames f).dirty = true) := by
  have hc := h.coherent hn
  have hallows : w.Allows (.access p a .write) := ⟨hp, ha⟩
  obtain ⟨answers, reply, w', hs, hc'⟩ := hc.step keysApart_lt hallows.pager
  have hmapped := hc.wf.translate_eq p a
  rw [hmapped] at hresident
  have hhit : ∀ f, answers.hit = some f → w.pager.mapped p (addressPageNumber a) = some f :=
    fun f hf => hc.hit_mapped hallows.pager rfl (hs.hit ▸ hf)
  have had := hc.wf.consistent.admits keysApart_lt hc.resident (addressPageNumber_lt_key ha) hhit
    true
  have hend : (Reply.result (w.pager.access answers p (addressPageNumber a) true).1,
      (w.pager.access answers p (addressPageNumber a) true).2) = (reply, w'.pager) := hs.pager
  obtain ⟨hreply, hstate⟩ := Prod.mk.inj hend
  refine ⟨_, w', hreply ▸ hs.run, fun q hq b hb => ?_, fun hok => ?_⟩
  · rw [hc'.wf.view_eq, hc.wf.view_eq, ← hstate, hc.view_accessed hp ha hresident had hq hb]
  · obtain ⟨f, howns, hdirty⟩ := hc.wf.consistent.access_owns hp.1 had hhit
      (fun f hf => apart_of_lt (hc.resident f (hc.wf.consistent.occupied_of_mapped hf))
        (addressPageNumber_lt_key ha)) hok
    rw [hstate] at howns hdirty
    refine ⟨f, (hc'.wf.translate_eq p a).trans howns.mapped, howns.users, ?_, hdirty⟩
    have hocc := hc'.wf.consistent.occupied_of_mapped howns.mapped
    obtain ⟨o, howner, _, ho⟩ :=
      (hc'.wf.consistent.frame f (hc'.wf.consistent.frame_lt hocc)).owner hocc
    rw [howns.users, List.mem_singleton] at ho
    exact howner.trans (congrArg some (congrArg CowMapping.process ho))

/-- A write to a shared page with no free frame: the reader goes to swap. -/
theorem virtualMemory_writeAccess_shared : ∃ history w,
    World.Reachable 1 .fifo 1 (some 2) history w ∧ history.length = 3 ∧
      ∃ code w', w.step (.access 1 0x1000 .write) = some (.result code, w') ∧
        (∀ q, w.Live q → ∀ b < 2 ^ 48, w'.view q b = w.view q b) ∧
        (code.isError = false → ∃ f, w'.translate 1 0x1000 = some f ∧
          w'.memory.cowManager.frames f = [⟨1, addressPageNumber 0x1000⟩] ∧
          (w'.memory.physicalMemory.frames f).ownerProcess = some 1 ∧
          (w'.memory.physicalMemory.frames f).dirty = true) := by
  have hafter : (World.after 1 .fifo 1 (some 2) [.createProcess 1, .writeByte 0 0x1000 5,
      .fork 0 2]).any (fun r => decide (r.1.length = 3 ∧ r.2.Live 1 ∧
        r.2.translate 1 0x1000 ≠ none)) = true := by decide +kernel
  obtain ⟨⟨history, w⟩, hafter, hcheck⟩ := (Option.any_eq_true _ _).mp hafter
  obtain ⟨hlength, hlive, hresident⟩ := of_decide_eq_true hcheck
  have hreach := World.reachable_of_after hafter
  exact ⟨history, w, hreach, hlength,
    virtualMemory_writeAccess (by decide) hreach hlive (by decide) hresident⟩

end VmSim
