/-
VmSim.VirtualMemory.ReferenceString — a run is known by the pages it
refers to.

`Pager.pageFrames` forgets everything but which page is in which frame and
the replacement policy. An access that succeeds in a memory without shared
frames is a request to the machine that is left
(`Pager.Outcome.pageFrames`). So after a run that creates processes and
accesses pages, the pages it accessed determine the frames, the state of
the policy and the number of faults, whatever the TLB and the swap, and
whatever was read or written (`World.Reachable.pageFrames`).
-/
import VmSim.VirtualMemory.PageFrames
import VmSim.VirtualMemory.Recency
import Mathlib.Data.List.Find

namespace VmSim

open Lib

variable {w w' : World} {s s' : Pager} {p page f k n : Nat} {isWrite : Bool} {call : Call}
  {answers : TlbAnswers} {reply : Reply} {slots : Option Nat} {tlbEntries : Nat}
  {type : ReplacementPolicyType} {result : VirtualMemoryAccessResult}
  {history : List (Call × Reply)}

/-! ## The abstraction -/

def Pager.pageFrames (s : Pager) : PageFrames where
  frameCount := s.physical.frameCount
  content f := (s.cow.frames f).head?.map fun m => (m.process, m.virtualPage)
  policy := s.policy
  faults := s.stats.pageFaults
  replacements := s.stats.replacements

theorem Pager.Unforked.content_some (h : s.Unforked) :
    s.pageFrames.content f = some (p, page) ↔ ⟨p, page⟩ ∈ s.cow.frames f := by
  have hone := h f
  show (s.cow.frames f).head?.map _ = _ ↔ _
  generalize s.cow.frames f = users at hone ⊢
  cases users with
  | nil => simp
  | cons m rest =>
    obtain rfl : rest = [] := List.eq_nil_of_length_eq_zero (by simpa using hone)
    obtain ⟨q, v⟩ := m
    simp [eq_comm]

theorem Pager.Consistent.content_isSome (h : s.Consistent) (hf : f < s.physical.frameCount) :
    (s.pageFrames.content f).isSome = (s.physical.frames f).occupied := by
  have hocc := (h.frame f hf).occupied
  have hnone : (s.pageFrames.content f).isSome = true ↔ s.cow.frames f ≠ [] := by
    simp only [Pager.pageFrames, Option.isSome_map]
    cases s.cow.frames f <;> simp
  exact Bool.eq_iff_iff.mpr (hnone.trans hocc.symm)

theorem Pager.Consistent.pageFrames_wf (h : s.Consistent) (hu : s.Unforked) :
    s.pageFrames.Wf := by
  refine ⟨h.pos, h.policy, h.policy_count, fun f => ?_, fun f g key hf hg => ?_⟩
  · rw [show s.pageFrames.policy.loaded f = _ from h.loaded f]
    by_cases hf : f < s.physical.frameCount
    · exact (h.content_isSome hf).symm
    · have hnone : s.pageFrames.content f = none := by
        simp [Pager.pageFrames, h.beyond f (Nat.le_of_not_lt hf)]
      rw [hnone]
      exact Bool.eq_false_iff.mpr fun hocc => hf (h.frame_lt hocc)
  · obtain ⟨p, page⟩ := key
    exact h.frame_unique (hu.content_some.mp hf) (hu.content_some.mp hg) rfl

theorem Pager.Consistent.pageFrames_free (h : s.Consistent) :
    s.pageFrames.free = s.physical.firstFree := by
  unfold PageFrames.free PhysicalMemory.firstFree
  refine List.find?_congr fun f hf => ?_
  have hsome := h.content_isSome (List.mem_range.mp hf)
  rw [← hsome]
  cases s.pageFrames.content f <;> rfl

/-- A page is in a frame exactly if it is mapped. -/
theorem Pager.Consistent.content_of_mapped (h : s.Consistent) (hu : s.Unforked)
    (hin : s.PagesIn (· < 2 ^ 36)) (hpage : page < 2 ^ 36) :
    s.pageFrames.content f = some (p, page) ↔ s.mapped p page = some f := by
  rw [hu.content_some]
  constructor
  · exact h.mapped_frame
  · intro hm
    obtain ⟨huser, hkey⟩ := h.user_of_mapped hm
    rwa [keysApart_lt _ page (hin _ (h.occupied_of_mapped hm)) hpage hkey] at huser

/-! ## Accesses are requests -/

/-- What a load shows of itself. -/
theorem Pager.Consistent.load_pageFrames (h : s.Consistent) (hf : f < s.physical.frameCount)
    (hfree : (s.physical.frames f).occupied = false) (p page : Nat) (isWrite : Bool) :
    (s.load p page f isWrite).tick.pageFrames =
      { s.pageFrames with
        content := Function.update s.pageFrames.content f (some (p, page))
        policy := replacementPolicyTick (replacementPolicyOnLoad s.policy f).2 } := by
  obtain ⟨_, _, _, _, hpolicy, _⟩ := s.load_eq p page f isWrite
  obtain ⟨hpages, hreplacements⟩ : (s.load p page f isWrite).stats.pageFaults =
      s.stats.pageFaults ∧
      (s.load p page f isWrite).stats.replacements = s.stats.replacements := by
    rw [Pager.load_stats]
    split <;> exact ⟨rfl, rfl⟩
  refine PageFrames.ext (s.load_freeFrameCount p page f isWrite).2 ?_ ?_ hpages hreplacements
  · funext g
    show ((s.load p page f isWrite).cow.frames g).head?.map _ = _
    rw [h.load_users hf hfree]
    by_cases e : g = f
    · simp [e]
    · simp only [Function.update_of_ne e]
      rfl
  · exact congrArg replacementPolicyTick hpolicy

/-- Saving a victim changes no page and no frame. -/
theorem Pager.saveVictim_pageFrames (hs : s.saveVictim f = some s') :
    s'.pageFrames = s.pageFrames ∧ s'.Unforked = s.Unforked := by
  rcases Pager.saveVictim_cases hs with ⟨_, rfl⟩ | ⟨_, hstore⟩
  · exact ⟨rfl, rfl⟩
  · obtain ⟨_, _, _, rfl⟩ := Pager.store_eq hstore
    exact ⟨rfl, rfl⟩

/-- The frame of the victim is empty. -/
theorem Pager.Consistent.evict_pageFrames (h : s.Consistent) (hu : s.Unforked)
    (hocc : (s.physical.frames f).occupied = true) : (s.evict f).pageFrames =
      { s.pageFrames with
        content := Function.update s.pageFrames.content f none
        policy := (replacementPolicyOnEvict s.policy f).2 } := by
  refine PageFrames.ext rfl (funext fun g => ?_) rfl rfl rfl
  show ((s.evict f).cow.frames g).head?.map _ = _
  rw [h.evict_users hocc (hu f)]
  by_cases e : g = f
  · simp [e]
  · simp only [Function.update_of_ne e]
    rfl

/-- The page in a frame makes room for another. -/
theorem Pager.Consistent.replace_pageFrames (h : s.Consistent) (hu : s.Unforked)
    (hocc : (s.physical.frames f).occupied = true) (hm : s.mapped p page = none)
    (isWrite dirty : Bool) :
    (((s.evict f).load p page f isWrite).countReplacement dirty).tick.pageFrames =
      { s.pageFrames with
        content := Function.update s.pageFrames.content f (some (p, page))
        policy := replacementPolicyTick
          (replacementPolicyOnLoad (replacementPolicyOnEvict s.policy f).2 f).2
        replacements := increment s.stats.replacements } := by
  obtain ⟨hevicted, _, _, hfree, hcount⟩ := h.evicted hocc (hu f) hm
  have hloaded := hevicted.load_pageFrames (hcount ▸ h.frame_lt hocc) hfree p page isWrite
  rw [h.evict_pageFrames hu hocc] at hloaded
  have hreplacements : ((s.evict f).load p page f isWrite).stats.replacements =
      s.stats.replacements := congrArg PageFrames.replacements hloaded
  have hcounted : (((s.evict f).load p page f isWrite).countReplacement dirty).tick.pageFrames =
      { ((s.evict f).load p page f isWrite).tick.pageFrames with
        replacements := increment ((s.evict f).load p page f isWrite).stats.replacements } := rfl
  rw [hcounted, hloaded, hreplacements]
  exact PageFrames.ext rfl (Function.update_idem _ _ _) rfl rfl rfl

/-- An access that succeeds is a request. -/
theorem Pager.Outcome.pageFrames (hend : s.Outcome p page isWrite result s') (hc : s.Consistent)
    (hu : s.Unforked) (hin : s.PagesIn (· < 2 ^ 36)) (hpage : page < 2 ^ 36)
    (hok : result.isError = false) : s'.pageFrames = s.pageFrames.access (p, page) := by
  refine PageFrames.Ends.eq_access ?_ (hc.pageFrames_wf hu)
  have hcounted : s.countFault.Consistent := hc.setStats _
  have habsent : s.mapped p page = none → ∀ g, s.pageFrames.content g ≠ some (p, page) := by
    intro hm g hg
    rw [(hc.content_of_mapped hu hin hpage).mp hg] at hm
    cases hm
  cases hend with
  | resident hm => exact .hit ((hc.content_of_mapped hu hin hpage).mpr hm)
  | @placed f hm hf =>
    obtain ⟨hlt, hfree, _⟩ := hc.firstFree hf
    rw [hcounted.load_pageFrames hlt hfree]
    exact .load (habsent hm) (hc.pageFrames_free.trans hf)
  | @replaced f policy saved hm hfull hchoose hocc hsaved =>
    have hsavedFrames := Pager.saveVictim_pageFrames hsaved
    have hu' : saved.Unforked := hsavedFrames.2 ▸ hu
    have hc' := (hcounted.chosen hchoose).saveVictim hocc hsaved
    obtain ⟨hphysical, hmapped⟩ : saved.physical = s.physical ∧ saved.mapped = s.mapped := by
      obtain ⟨swap, stats, rfl⟩ := Pager.saveVictim_eq hsaved
      exact ⟨rfl, rfl⟩
    have hframes := hc'.replace_pageFrames hu' (hphysical ▸ hocc) (hmapped ▸ hm) isWrite
      (s.physical.frames f).dirty
    have hpolicy : saved.policy = policy := congrArg PageFrames.policy hsavedFrames.1
    have hreplacements : saved.stats.replacements = s.stats.replacements :=
      congrArg PageFrames.replacements hsavedFrames.1
    rw [hframes, hsavedFrames.1, hpolicy, hreplacements]
    obtain ⟨old, hold⟩ : ∃ old, s.pageFrames.content f = some old :=
      Option.isSome_iff_exists.mp ((hc.content_isSome (hc.frame_lt hocc)).trans hocc)
    exact .replace (habsent hm) (hc.pageFrames_free.trans hfull) hchoose hold
  | refused hm hfull hchoose hocc hsaved =>
    rw [s.faultError_isError] at hok
    cases hok

/-! ## Runs -/

/-- A step of a run that creates processes and accesses pages: an access that
succeeded, perhaps with a byte written after it. -/
inductive Pager.Refers (s : Pager) : List (Nat × Nat) → Pager → Prop where
  | create (pid : Int) : Refers s [] (s.create pid).2
  | access {answers : TlbAnswers} {p page : Nat} {isWrite : Bool}
      (hpage : page < 2 ^ 36) (hp : 0 ≤ s.pid p)
      (hhit : ∀ f, answers.hit = some f → s.mapped p page = some f)
      (hrecorded : answers.recorded = true)
      (hok : (s.access answers p page isWrite).1.isError = false) {s' : Pager}
      (hend : s' = (s.access answers p page isWrite).2 ∨ ∃ f offset value,
        s' = (s.access answers p page isWrite).2.setByte f offset value) :
      Refers s [(p, page)] s'

theorem World.ForkFree.refers (h : w.ForkFree slots k) (hk : k + call.accesses < wordSize)
    (ha : w.Allows call) (hrefers : call.refers = true) (hrun : w.step call = some (reply, w'))
    (hok : reply.succeeded = true) :
    w.pager.Refers call.target.toList w'.pager ∧ w'.ForkFree slots (k + call.accesses) := by
  have hfork : call.isFork = false := by
    cases call with
    | fork p childPid => cases hrefers
    | _ => rfl
  obtain ⟨answers, reply₁, w₁, hs, hf, hfree⟩ := h.stepped hk ha hfork
  obtain ⟨rfl, rfl⟩ := hs.unique hrun
  have hstate : (w.pager.step answers call).2 = w'.pager := by rw [hs.pager]
  have hreply : (w.pager.step answers call).1 = reply := by rw [hs.pager]
  refine ⟨?_, hfree⟩
  rw [← hstate]
  cases ht : call.target with
  | none =>
    cases call with
    | createProcess pid => exact .create pid
    | fork p childPid => cases hrefers
    | release p => cases hrefers
    | _ => cases ht
  | some target =>
    obtain ⟨p, page⟩ := target
    obtain ⟨hp, _, hpage⟩ := ha.pager.target ht
    rw [← hreply] at hok
    exact .access hpage hp (fun f => hf.hit p page f ht) hf.recorded
      (Pager.step_succeeded ht hok) (w.pager.step_state answers ht)

/-- The induction over such runs. -/
theorem World.Reachable.refers_rule {P : List (Nat × Nat) → Pager → Prop}
    (h : World.Reachable n type tlbEntries slots history w) (hn : n < 2 ^ 32)
    (hrefers : ∀ event ∈ history, event.1.refers = true)
    (hok : ∀ event ∈ history, event.2.succeeded = true)
    (hsteps : (accessed history).length < 2 ^ 64)
    (hstart : ∀ memory, virtualMemoryCreateInternal n type tlbEntries slots = some memory →
      P [] (World.boot memory).pager)
    (hstep : ∀ keys (w : World) reference s', w.ForkFree slots keys.length → P keys w.pager →
      (reference ++ keys).length < 2 ^ 64 → w.pager.Refers reference s' →
      P (reference ++ keys) s') :
    P (accessed history) w.pager ∧ w.ForkFree slots (accessed history).length := by
  obtain ⟨memory, hcreate, hrun⟩ := h
  refine Run.invariant (fun history w => (∀ event ∈ history, event.1.refers = true) →
    (∀ event ∈ history, event.2.succeeded = true) → (accessed history).length < 2 ^ 64 →
      P (accessed history) w.pager ∧ w.ForkFree slots (accessed history).length) ?_
    (fun history w call reply w' ih ha hs hrefers hok hsteps => ?_) hrun hrefers hok hsteps
  · exact fun _ _ _ => ⟨hstart memory hcreate, World.boot_forkFree hcreate hn⟩
  · obtain ⟨hcall, hrest⟩ := List.forall_mem_cons.mp hrefers
    obtain ⟨hreply, hrest'⟩ := List.forall_mem_cons.mp hok
    have hcons : accessed ((call, reply) :: history) = call.target.toList ++ accessed history := by
      rw [accessed, List.filterMap_cons]
      cases call.target <;> rfl
    have hlength : (accessed ((call, reply) :: history)).length =
        (accessed history).length + call.accesses := by
      rw [hcons, List.length_append, Call.accesses]
      cases call.target <;> simp [Nat.add_comm]
    obtain ⟨hP, hfree⟩ := ih hrest hrest' (by omega)
    obtain ⟨hsteps', hfree'⟩ := hfree.refers (by rw [← hlength]; exact hsteps) ha hcall hs hreply
    rw [hlength]
    refine ⟨?_, hfree'⟩
    rw [hcons] at hsteps ⊢
    exact hstep _ w _ _ hfree hP hsteps hsteps'

theorem World.ForkFree.pageFrames {keys reference : List (Nat × Nat)} (h : w.ForkFree slots k)
    (hk : k + reference.length < wordSize) (hrefers : w.pager.Refers reference s') {fresh : PageFrames}
    (hframes : w.pager.pageFrames = fresh.serve keys) :
    s'.pageFrames = fresh.serve (reference ++ keys) := by
  have hc := h.coherent.wf.consistent
  cases hrefers with
  | create pid =>
    show (w.pager.create pid).2.pageFrames = fresh.serve keys
    rw [← hframes]
    unfold Pager.create
    split <;> rfl
  | @access answers p page isWrite hpage hp hhit hrecorded hok _ hend =>
    have hserved : (w.pager.access answers p page isWrite).2.pageFrames =
        (fresh.serve keys).access (p, page) := by
      have houtcome := hc.outcome h.solitary.unforked h.solitary.policy hk hp hhit hrecorded isWrite
      have hc₁ : ((w.pager.register p).count isWrite).Consistent := (hc.register hp).setStats _
      have hsame : ((w.pager.register p).count isWrite).pageFrames = w.pager.pageFrames := by
        rw [Pager.register_eq]
        rfl
      have hin : ((w.pager.register p).count isWrite).PagesIn (· < 2 ^ 36) := by
        rw [Pager.register_eq]
        exact h.coherent.resident
      rw [houtcome.pageFrames hc₁ (h.solitary.unforked.counted p isWrite) hin hpage hok, hsame,
        hframes]
    rcases hend with rfl | ⟨f, offset, value, rfl⟩
    · exact hserved
    · exact hserved

/-- **The reference string** determines the frames, the policy and the
faults. -/
theorem World.Reachable.pageFrames (h : World.Reachable n type tlbEntries slots history w)
    (hn : n < 2 ^ 32) (hrefers : ∀ event ∈ history, event.1.refers = true)
    (hok : ∀ event ∈ history, event.2.succeeded = true)
    (hsteps : (accessed history).length < 2 ^ 64) :
    ∃ policy, replacementPolicyCreate type n = some policy ∧
      w.pager.pageFrames = (PageFrames.fresh policy).serve (accessed history) ∧
      w.ForkFree slots (accessed history).length := by
  obtain ⟨memory, hcreate, hrun⟩ := h
  obtain ⟨hphysical, hpolicy, _, _, _, _, hstats⟩ := virtualMemoryCreateInternal_some hcreate
  refine ⟨memory.replacementPolicy, hpolicy, ?_⟩
  refine World.Reachable.refers_rule ⟨memory, hcreate, hrun⟩ hn hrefers hok hsteps
    (P := fun keys s => s.pageFrames = (PageFrames.fresh memory.replacementPolicy).serve keys)
    (fun memory' hcreate' => ?_) fun keys w reference s' hfree hframes hlt hrefers => ?_
  · rw [hcreate] at hcreate'
    cases hcreate'
    obtain ⟨_, _, _, _, hcount, _⟩ := physicalMemoryCreate_spec hphysical hn
    have hpolicyCount := (replacementPolicyCreate_spec hpolicy hn).2.1
    refine PageFrames.ext (hcount.trans hpolicyCount.symm) ?_ rfl ?_ ?_
    · funext f
      show ((World.boot memory).pager.cow.frames f).head?.map _ = none
      rw [World.boot_users hcreate]
      rfl
    · show memory.stats.pageFaults = 0
      rw [hstats]
      rfl
    · show memory.stats.replacements = 0
      rw [hstats]
      rfl
  · rw [List.length_append, Nat.add_comm] at hlt
    exact hfree.pageFrames hlt hrefers hframes

end VmSim
