/-
VmSim.Contract.ForkFree — without a fork, and with a slot for every page,
no access fails.

Every error return of the functions under `virtual_memory_access` makes
the access return an error code, so none of them is reached in such a run.
-/
import VmSim.VirtualMemory.ForkFreeRuns

namespace VmSim

open Lib

variable {w w' : World} {n tlbEntries : Nat} {type : ReplacementPolicyType} {slots : Option Nat}
  {history : List (Call × Reply)} {call : Call} {reply : Reply}

/-- How many accesses a run made. -/
def accesses (history : List (Call × Reply)) : Nat := (history.map fun event => event.1.accesses).sum

/-- The keys that calls access: the pid of the process and the page. -/
def World.touched (w : World) (calls : List Call) : Finset (Int × Nat) :=
  (calls.filterMap fun call => call.target.map fun (p, page) => (w.heap.pid p, page)).toFinset

theorem World.mem_touched {w : World} {calls : List Call} {pid : Int} {v : Nat} :
    (pid, v) ∈ w.touched calls ↔
      ∃ call ∈ calls, ∃ p, call.target = some (p, v) ∧ w.pager.pid p = pid := by
  simp only [World.touched, List.mem_toFinset, List.mem_filterMap, Option.map_eq_some_iff,
    Prod.exists, Prod.mk.injEq]
  constructor
  · rintro ⟨call, hcall, p, page, ht, hpid, rfl⟩
    exact ⟨call, hcall, p, ht, hpid⟩
  · rintro ⟨call, hcall, p, ht, hpid⟩
    exact ⟨call, hcall, p, v, ht, hpid, rfl⟩

/-- The state after a run without a fork, and the keys it used. -/
structure World.Unshared (w : World) (slots : Option Nat) (history : List (Call × Reply)) :
    Prop where
  forkFree : w.ForkFree slots (accesses history)
  uses : ∀ pid v, w.pager.Uses pid v → (pid, v) ∈ w.touched (history.map Prod.fst)
  live : ∀ event ∈ history, ∀ p v, event.1.target = some (p, v) → 0 ≤ w.pager.pid p

theorem World.Unshared.step (h : w.Unshared slots history)
    (hk : accesses history + call.accesses < wordSize) (ha : w.Allows call)
    (hfork : call.isFork = false) (hrun : w.step call = some (reply, w')) :
    w'.Unshared slots ((call, reply) :: history) := by
  obtain ⟨answers, reply₁, w₁, hs, hf, hfree⟩ := h.forkFree.stepped hk ha hfork
  obtain ⟨rfl, rfl⟩ := hs.unique hrun
  have hc := h.forkFree.coherent.wf.consistent
  have hstate : (w.pager.step answers call).2 = w'.pager := by rw [hs.pager]
  have hpid : ∀ q, 0 ≤ w.pager.pid q → w'.pager.pid q = w.pager.pid q := by
    intro q hq
    rw [← hstate]
    exact hc.step_pid hq answers call
  obtain ⟨_, huses⟩ := h.forkFree.solitary.step hc h.forkFree.coherent.distinct hk ha.pager
    hfork hf
  rw [hstate] at huses
  refine ⟨?_, fun pid v hu => ?_, fun event hevent p v ht => ?_⟩
  · rw [accesses, List.map_cons, List.sum_cons, Nat.add_comm]
    exact hfree
  · rw [World.mem_touched, List.map_cons]
    rcases huses pid v hu with hold | ⟨p, ht, rfl⟩
    · obtain ⟨call', hcall, p, ht, hpid'⟩ := World.mem_touched.mp (h.uses pid v hold)
      obtain ⟨event, hevent, rfl⟩ := List.mem_map.mp hcall
      refine ⟨event.1, List.mem_cons_of_mem _ hcall, p, ht, ?_⟩
      rw [hpid p (h.live event hevent p v ht), hpid']
    · exact ⟨call, List.mem_cons_self, p, ht, hpid p (ha.pager.target ht).1⟩
  · rcases List.mem_cons.mp hevent with rfl | hold
    · rw [hpid p (ha.pager.target ht).1]
      exact (ha.pager.target ht).1
    · rw [hpid p (h.live event hold p v ht)]
      exact h.live event hold p v ht

theorem World.Reachable.unshared (h : World.Reachable n type tlbEntries slots history w)
    (hn : n < 2 ^ 32) (hfree : ∀ event ∈ history, event.1.isFork = false)
    (hsteps : accesses history < 2 ^ 64 - 1) : w.Unshared slots history := by
  obtain ⟨memory, hcreate, hrun⟩ := h
  refine Run.invariant (fun history w => (∀ event ∈ history, event.1.isFork = false) →
    accesses history < 2 ^ 64 - 1 → w.Unshared slots history) ?_
    (fun history w call reply w' ih ha hs hfree hsteps => ?_) hrun hfree hsteps
  · refine fun _ _ => ⟨World.boot_forkFree hcreate hn, fun pid v hu => ?_,
      fun _ hevent => absurd hevent List.not_mem_nil⟩
    obtain ⟨_, _, _, _, hswap, _⟩ := virtualMemoryCreateInternal_some hcreate
    rcases hu with hslot | ⟨f, m, hm, _⟩
    · refine absurd ?_ hslot
      cases hsome : (World.boot memory).pager.swap with
      | none => rw [Pager.slot, hsome, Option.bind_none]
      | some swap =>
        obtain ⟨count, _, _, hcount⟩ := hswap swap hsome
        rw [Pager.slot_some hsome, (swapCreate_spec hcount).2.2]
    · rw [World.boot_users hcreate] at hm
      cases hm
  · obtain ⟨hcall, hrest⟩ := List.forall_mem_cons.mp hfree
    rw [accesses, List.map_cons, List.sum_cons] at hsteps
    change call.accesses + accesses history < 2 ^ 64 - 1 at hsteps
    have hword : wordSize = 2 ^ 64 := rfl
    exact (ih hrest (by omega)).step (by omega) ha hcall hs

/-- **A run without a fork never fails**: an access returns, with
`VM_ACCESS_OK` or `VM_ACCESS_PAGE_FAULT`, if the run with this access has
no fork and fewer than 2^64 - 1 accesses, and if there is no swap or a
slot for each key the run accesses. A byte is read or written then. -/
theorem virtualMemory_forkFree (hn : n < 2 ^ 32)
    (h : World.Reachable n type tlbEntries slots history w)
    (hfree : ∀ event ∈ history, event.1.isFork = false) (ha : w.Allows call)
    (htarget : call.target ≠ none) (hsteps : accesses history + 1 < 2 ^ 64 - 1)
    (hslots : ∀ count, slots = some count → 0 < count →
      (w.touched (call :: history.map Prod.fst)).card ≤ count) :
    ∃ reply w', w.step call = some (reply, w') ∧ reply.succeeded = true ∧
      ∀ code, reply = .result code → code = .ok ∨ code = .pageFault := by
  obtain ⟨⟨p, page⟩, ht⟩ := Option.ne_none_iff_exists'.mp htarget
  have hunshared := h.unshared hn hfree (by omega)
  have hword : wordSize = 2 ^ 64 := rfl
  have haccesses := call.accesses_of_target ht
  have hfork : call.isFork = false := by
    cases call with
    | fork p childPid => cases ht
    | _ => rfl
  obtain ⟨answers, reply, w', hs, hf, _⟩ := hunshared.forkFree.stepped (by omega) ha hfork
  have hsub : w.touched (history.map Prod.fst) ⊆ w.touched (call :: history.map Prod.fst) := by
    rintro ⟨pid, v⟩ hmem
    obtain ⟨call', hcall, hrest⟩ := World.mem_touched.mp hmem
    exact World.mem_touched.mpr ⟨call', List.mem_cons_of_mem _ hcall, hrest⟩
  have hok : reply.succeeded = true := by
    have hsucceeds := hunshared.forkFree.solitary.succeeds
      hunshared.forkFree.coherent.wf.consistent (by omega) ha.pager ht hf _ hunshared.uses
      fun count hcount hpos => (Finset.card_le_card hsub).trans (hslots count hcount hpos)
    rwa [hs.pager] at hsucceeds
  refine ⟨reply, w', hs.run, hok, fun code hcode => ?_⟩
  rw [hcode] at hok
  cases code with
  | ok => exact Or.inl rfl
  | pageFault => exact Or.inr rfl
  | _ => cases hok

/-- One frame and two slots for two pages: the dirty victim is saved. -/
theorem virtualMemory_forkFree_saves : ∃ history w,
    World.Reachable 1 .lru 1 (some 2) history w ∧ history.length = 3 ∧
      ∃ reply w', w.step (.access 0 0x1000 .read) = some (reply, w') ∧ reply.succeeded = true ∧
        ∀ code, reply = .result code → code = .ok ∨ code = .pageFault := by
  have hafter : (World.after 1 .lru 1 (some 2) [.createProcess 1, .writeByte 0 0x1000 5,
      .writeByte 0 0x2000 6]).any (fun r => decide (r.1.length = 3 ∧
        (∀ event ∈ r.1, event.1.isFork = false) ∧ accesses r.1 = 2 ∧
        r.2.Allows (.access 0 0x1000 .read) ∧
        (r.2.touched (.access 0 0x1000 .read :: r.1.map Prod.fst)).card = 2)) = true := by
    decide +kernel
  obtain ⟨⟨history, w⟩, hafter, hcheck⟩ := (Option.any_eq_true _ _).mp hafter
  obtain ⟨hlength, hfree, hsteps, hallows, hcard⟩ := of_decide_eq_true hcheck
  have hreach := World.reachable_of_after hafter
  have htwo : accesses history = 2 := hsteps
  refine ⟨history, w, hreach, hlength, virtualMemory_forkFree (by decide) hreach hfree hallows
    (by decide) (by rw [htwo]; decide) fun count hcount _ => ?_⟩
  cases hcount
  exact Nat.le_of_eq hcard

end VmSim
