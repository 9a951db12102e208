/-
VmSim.Contract.ForkSnapshot — when a fork is a snapshot of the address
space.

The child maps what its parent has resident, but it is given no copies
of the parent's swap slots. It sees the same bytes exactly if no page of
the parent that is only in swap holds a byte other than 0.
-/
import VmSim.VirtualMemory.Views

namespace VmSim

open Lib

variable {w w' : World} {p q child a : Nat} {childPid : Int} {n tlbEntries : Nat}
  {type : ReplacementPolicyType} {slots : Option Nat} {history : List (Call × Reply)}

/-- The child sees what the parent saw, and all others see what they saw. -/
def World.Snapshot (w w' : World) (p child : Nat) : Prop :=
  (∀ a < 2 ^ 48, w'.view child a = w.view p a) ∧
    ∀ q, w.Live q → ∀ a < 2 ^ 48, w'.view q a = w.view q a

/-- No page of the process that is only in swap holds a byte other than 0. -/
def World.NothingSwapped (w : World) (p : Nat) : Prop :=
  ∀ v < 2 ^ 36, w.translate p (pageAddress v) = none →
    ∀ swap, w.memory.swap = some swap → ∀ page, swap.content (w.heap.pid p) v = some page →
      page = zeroPage

theorem World.nothingSwapped_iff (h : w.Wf) : w.NothingSwapped p ↔
    ∀ v < 2 ^ 36, w.pager.mapped p v = none → w.pager.swapped (w.pager.pid p) v = zeroPage := by
  refine forall₂_congr fun v hv => ?_
  rw [h.translate_eq, addressPageNumber_pageAddress (Nat.lt_trans hv (by decide))]
  refine forall_congr' fun _ => ?_
  constructor
  · intro hzero
    cases hslot : w.pager.slot (w.pager.pid p) v with
    | none => rw [Pager.swapped, hslot, Option.getD_none]
    | some page =>
      obtain ⟨swap, hswap, hcontent⟩ := Option.bind_eq_some_iff.mp hslot
      rw [Pager.swapped, hslot, Option.getD_some]
      exact hzero swap hswap page hcontent
  · intro hzero swap hswap page hcontent
    have hslot : w.pager.slot (w.pager.pid p) v = some page := by
      rw [Pager.slot_some (show w.pager.swap = some swap from hswap)]
      exact hcontent
    rwa [Pager.swapped, hslot, Option.getD_some] at hzero

/-- Equal bytes at all addresses below 2^48 are equal pages. -/
theorem World.Wf.views_eq_iff (h : w.Wf) (h' : w'.Wf) : (∀ a < 2 ^ 48, w'.view q a = w.view p a) ↔
    ∀ v < 2 ^ 36, w'.pager.view q v = w.pager.view p v := by
  constructor
  · intro hbytes v hv
    funext i
    have hi : (i : Nat) < pageSize := i.isLt
    have hlt : v * pageSize + i < 2 ^ 48 := by
      simp only [pageSize] at hi ⊢
      omega
    have hoffset : pageOffset (v * pageSize + i) = i := Fin.ext (addressOffset_add v hi)
    have hbyte := hbytes _ hlt
    rwa [h.view_eq, h'.view_eq, addressPageNumber_add v hi, hoffset] at hbyte
  · intro hpages a ha
    rw [h.view_eq, h'.view_eq, hpages _ (addressPageNumber_lt_key ha)]

/-- A fork with a fresh pid succeeds, and it is a snapshot exactly if the
parent has no page in swap only that is not zero. -/
theorem virtualMemory_forkSnapshot (hn : n < 2 ^ 32)
    (h : World.Reachable n type tlbEntries slots history w) (hp : p ∈ w.memory.processes)
    (hpid : 0 ≤ childPid) (hfresh : ∀ q ∈ w.memory.processes, w.heap.pid q ≠ childPid) :
    ∃ child w', w.step (.fork p childPid) = some (.process (some child), w') ∧
      (w.Snapshot w' p child ↔ w.NothingSwapped p) := by
  have hc := h.coherent hn
  have hcs := hc.wf.consistent
  have hallows : w.Allows (.fork p childPid) :=
    ⟨⟨hcs.live p hp, hc.distinct p hp⟩, fun e => hfresh p hp e.symm, hfresh⟩
  obtain ⟨answers, reply, w', hs, hc'⟩ := hc.step keysApart_lt hallows.pager
  have hregister : w.pager.register p = w.pager := Pager.register_of_mem hp
  have hend : (reply, w'.pager) =
      (Reply.process (some w.pager.nextProcess), w.pager.spawn p childPid) := by
    rw [← hs.pager]
    simp only [Pager.step, Pager.fork, if_neg (Int.not_lt.mpr hpid), hregister]
  obtain ⟨hreply, hstate⟩ := Prod.mk.inj hend
  refine ⟨w.pager.nextProcess, w', hreply ▸ hs.run, ?_⟩
  have hothers : ∀ q, w.Live q → ∀ a < 2 ^ 48, w'.view q a = w.view q a := by
    intro q hq
    have hne : q ≠ w.pager.nextProcess := Nat.ne_of_lt (hcs.pid_lt q hq.1)
    rw [World.Wf.views_eq_iff hc.wf hc'.wf, hstate]
    exact fun v _ => Pager.view_spawn hne p childPid v
  have hunused : ∀ v, w.pager.swapped childPid v = zeroPage := by
    intro v
    have hnone : w.pager.slot childPid v = none := by
      by_contra hne
      obtain ⟨q, hq, hqpid⟩ := hcs.slot_owner hne
      exact hfresh q hq hqpid
    rw [Pager.swapped, hnone, Option.getD_none]
  rw [World.Snapshot, and_iff_left hothers, World.Wf.views_eq_iff hc.wf hc'.wf,
    World.nothingSwapped_iff hc.wf, hstate]
  refine forall₂_congr fun v _ => ?_
  rw [Pager.view_child, Pager.view]
  cases w.pager.mapped p v with
  | some f => simp
  | none =>
    rw [hunused]
    simp [eq_comm]

theorem virtualMemory_forkSnapshot_resident : ∃ history w,
    World.Reachable 2 .fifo 4 (some 4) history w ∧ history.length = 2 ∧
      ∃ child w', w.step (.fork 0 2) = some (.process (some child), w') ∧
        (w.Snapshot w' 0 child ↔ w.NothingSwapped 0) := by
  have hafter : (World.after 2 .fifo 4 (some 4) [.createProcess 1, .writeByte 0 0x1000 5]).any
      (fun r => decide (r.1.length = 2 ∧ 0 ∈ r.2.memory.processes ∧
        ∀ q ∈ r.2.memory.processes, r.2.heap.pid q ≠ 2)) = true := by decide +kernel
  obtain ⟨⟨history, w⟩, hafter, hcheck⟩ := (Option.any_eq_true _ _).mp hafter
  obtain ⟨hlength, hp, hfresh⟩ := of_decide_eq_true hcheck
  have hreach := World.reachable_of_after hafter
  exact ⟨history, w, hreach, hlength,
    virtualMemory_forkSnapshot (by decide) hreach hp (by decide) hfresh⟩

/-- A page written and then evicted: the parent reads 5, its child 0. -/
theorem virtualMemory_fork_forgets : ∃ history w child w',
    World.Reachable 2 .fifo 4 (some 4) history w ∧ 0 ∈ w.memory.processes ∧
      (∀ q ∈ w.memory.processes, w.heap.pid q ≠ 2) ∧
      w.step (.fork 0 2) = some (.process (some child), w') ∧
      w.view 0 0x1000 = 5 ∧ w'.view 0 0x1000 = 5 ∧ w'.view child 0x1000 = 0 := by
  have hafter : (World.after 2 .fifo 4 (some 4) [.createProcess 1, .writeByte 0 0x1000 5,
      .readByte 0 0x2000, .readByte 0 0x3000]).any (fun r =>
        decide (0 ∈ r.2.memory.processes ∧ (∀ q ∈ r.2.memory.processes, r.2.heap.pid q ≠ 2) ∧
          r.2.view 0 0x1000 = 5) &&
        (r.2.step (.fork 0 2)).any fun r' => decide (r'.1 = .process (some 1) ∧
          r'.2.view 0 0x1000 = 5 ∧ r'.2.view 1 0x1000 = 0)) = true := by decide +kernel
  obtain ⟨⟨history, w⟩, hafter, hcheck⟩ := (Option.any_eq_true _ _).mp hafter
  obtain ⟨hbefore, hstep⟩ := (Bool.and_eq_true _ _).mp hcheck
  obtain ⟨hp, hfresh, hview⟩ := of_decide_eq_true hbefore
  obtain ⟨⟨reply, w'⟩, hfork, hcheck'⟩ := (Option.any_eq_true _ _).mp hstep
  obtain ⟨hreply, hparent, hchild⟩ := of_decide_eq_true hcheck'
  have hreply' : reply = .process (some 1) := hreply
  subst hreply'
  exact ⟨history, w, 1, w', World.reachable_of_after hafter, hp, hfresh, hfork, hview, hparent,
    hchild⟩

end VmSim
